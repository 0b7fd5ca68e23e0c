import Wayfinder.Storage.Flash

/-!
# What a page says

The store reads a page only through the record in it: a generation and a blob, when the
header and the checksum are right. Here the record is a function of the bytes of the page
alone, and what `load` finds a function of the two records.
-/

namespace Wayfinder

set_option autoImplicit false

open NorFlash

abbrev FlashRecord := U32 × Bytes

def decodePage (image : Bytes) : Option FlashRecord :=
  let len := (fromLeBytes ((image.drop 8).take 4)).toNat
  let payload := (image.drop headerLen).take len
  if image.take 4 ≠ magic then none
  else if image.length - headerLen < len then none
  else if crc32 payload ≠ fromLeBytes ((image.drop 12).take 4) then none
  else some (fromLeBytes ((image.drop 4).take 4), payload)

/-! ### Records in the pages a save writes -/

section Decode
variable {gen : U32} {data payload rest check : Bytes} {n k : Nat}

def pageBytes (gen : U32) (n : Nat) (check rest : Bytes) : Bytes :=
  magic ++ (toLeBytes gen ++ (toLeBytes (BitVec.ofNat 32 n) ++ (check ++ rest)))

theorem headerBytes_append :
    FlashStore.headerBytes gen data ++ rest =
      pageBytes gen data.length (toLeBytes (crc32 data)) rest := by
  unfold FlashStore.headerBytes pageBytes
  simp only [List.append_assoc]

@[simp] theorem length_headerBytes : (FlashStore.headerBytes gen data).length = headerLen := rfl

theorem decodePage_pageBytes (hcheck : check.length = 4) (hlen : payload.length = n)
    (hfit : n < 2 ^ 32) :
    decodePage (pageBytes gen n check (payload ++ rest)) =
      if crc32 payload = fromLeBytes check then some (gen, payload) else none := by
  have hcount : (BitVec.ofNat 32 n).toNat = n := by
    rw [BitVec.toNat_ofNat, Nat.mod_eq_of_lt hfit]
  have hmagic : (pageBytes gen n check (payload ++ rest)).take 4 = magic := rfl
  have hgen : ((pageBytes gen n check (payload ++ rest)).drop 4).take 4 = toLeBytes gen := rfl
  have hn : ((pageBytes gen n check (payload ++ rest)).drop 8).take 4 =
      toLeBytes (BitVec.ofNat 32 n) := rfl
  have hcrc : (pageBytes gen n check (payload ++ rest)).drop 12 = check ++ (payload ++ rest) := rfl
  have hbody : (pageBytes gen n check (payload ++ rest)).drop headerLen = payload ++ rest := by
    have hsplit : headerLen = 12 + 4 := rfl
    rw [hsplit, ← List.drop_drop, hcrc, List.drop_left' hcheck]
  have hroom : ¬ (pageBytes gen n check (payload ++ rest)).length - headerLen < n := by
    rw [← List.length_drop, hbody, List.length_append]
    omega
  unfold decodePage
  dsimp only
  rw [hmagic, hgen, hn, hcrc, hbody, fromLeBytes_toLeBytes, fromLeBytes_toLeBytes, hcount,
    List.take_left' hlen, List.take_left' hcheck, if_neg (not_not.mpr rfl), if_neg hroom, ite_not]

/-- A whole header, and behind it as many bytes as the blob has: a record if they have
the checksum of the blob. -/
theorem decodePage_header (hlen : payload.length = data.length) (hfit : data.length < 2 ^ 32) :
    decodePage (FlashStore.headerBytes gen data ++ (payload ++ rest)) =
      if crc32 payload = crc32 data then some (gen, payload) else none := by
  rw [headerBytes_append, decodePage_pageBytes (length_toLeBytes _) hlen hfit,
    fromLeBytes_toLeBytes]

theorem decodePage_blank (n : Nat) : decodePage (List.replicate n erased) = none := by
  have hmagic : (List.replicate n erased).take 4 ≠ magic := by
    intro h
    have hmem : (0x57 : U8) ∈ (List.replicate n erased).take 4 := by
      rw [h]
      decide
    exact absurd (List.eq_of_mem_replicate (List.mem_of_mem_take hmem)) (by decide)
  unfold decodePage
  exact if_pos hmagic

/-- The checksum field when only `k` bytes of the header have been programmed. -/
def tornCrc (data : Bytes) (k : Nat) : Bytes :=
  (toLeBytes (crc32 data)).take (k - 12) ++ List.replicate (16 - k) erased

/-- A page of `n` bytes whose header is cut off after `k`. -/
def tornHeader (gen : U32) (data : Bytes) (n k : Nat) : Bytes :=
  (FlashStore.headerBytes gen data).take k ++ List.replicate (n - k) erased

theorem getElem?_tornHeader (hk : k ≤ headerLen) {i : Nat} (hki : k ≤ i) (hin : i < n) :
    (tornHeader gen data n k)[i]? = some erased := by
  have hlen : ((FlashStore.headerBytes gen data).take k).length = k := by
    rw [List.length_take, length_headerBytes, Nat.min_eq_left hk]
  unfold tornHeader
  rw [List.getElem?_append_right (by omega), List.getElem?_replicate, hlen, if_pos (by omega)]

/-- Cut in the magic, or before the last byte of the length: no record. -/
theorem decodePage_tornHeader_none (hk : k < 12) (hn : headerLen < n) (hsize : n ≤ 2 ^ 31) :
    decodePage (tornHeader gen data n k) = none := by
  have hheader : headerLen = 16 := rfl
  have herased : ∀ i, k ≤ i → i < n → (tornHeader gen data n k)[i]? = some erased :=
    fun i => getElem?_tornHeader (by omega)
  have hlength : (tornHeader gen data n k).length = n := by
    unfold tornHeader
    rw [List.length_append, List.length_take, length_headerBytes, List.length_replicate]
    omega
  unfold decodePage
  dsimp only
  by_cases hmagic : (tornHeader gen data n k).take 4 = magic
  · have hk4 : 4 ≤ k := by
      by_contra hlt
      have hbyte : magic[k]? = some erased := by
        rw [← hmagic, List.getElem?_take_of_lt (by omega)]
        exact herased k (Nat.le_refl k) (by omega)
      have hcases : k = 0 ∨ k = 1 ∨ k = 2 ∨ k = 3 := by omega
      rcases hcases with rfl | rfl | rfl | rfl <;> exact absurd hbyte (by decide)
    have htop : (((tornHeader gen data n k).drop 8).take 4).getD 3 0 = erased := by
      rw [List.getD_eq_getElem?_getD, List.getElem?_take_of_lt (by omega), List.getElem?_drop,
        herased (8 + 3) (by omega) (by omega)]
      rfl
    have hlen : 0xFF000000 ≤ (fromLeBytes (((tornHeader gen data n k).drop 8).take 4)).toNat := by
      generalize ((tornHeader gen data n k).drop 8).take 4 = field at htop ⊢
      have h0 := (field.getD 0 0).isLt
      have h1 := (field.getD 1 0).isLt
      have h2 := (field.getD 2 0).isLt
      have hff : erased.toNat = 255 := rfl
      unfold fromLeBytes
      rw [htop, BitVec.toNat_ofNat, hff]
      omega
    rw [if_neg (not_not.mpr hmagic), if_pos (by omega)]
  · rw [if_pos hmagic]

/-- Cut in the checksum: a record of erased bytes, if they have the checksum that the cut
left. -/
theorem decodePage_tornHeader (hk : 12 ≤ k) (hk16 : k < 16) (hn : headerLen + data.length ≤ n)
    (hfit : data.length < 2 ^ 32) :
    decodePage (tornHeader gen data n k) =
      if crc32 (List.replicate data.length erased) = fromLeBytes (tornCrc data k) then
        some (gen, List.replicate data.length erased) else none := by
  have hheader : headerLen = 16 := rfl
  have hfields : FlashStore.headerBytes gen data =
      (magic ++ toLeBytes gen ++ toLeBytes (BitVec.ofNat 32 data.length)) ++
        toLeBytes (crc32 data) := rfl
  have hfront : (magic ++ toLeBytes gen ++ toLeBytes (BitVec.ofNat 32 data.length)).length = 12 := rfl
  have hcells : List.replicate (n - k) erased = List.replicate (16 - k) erased ++
      (List.replicate data.length erased ++
        List.replicate (n - headerLen - data.length) erased) := by
    rw [List.replicate_append_replicate, List.replicate_append_replicate]
    congr 1
    omega
  have hpage : tornHeader gen data n k = pageBytes gen data.length (tornCrc data k)
      (List.replicate data.length erased ++
        List.replicate (n - headerLen - data.length) erased) := by
    unfold tornHeader pageBytes tornCrc
    rw [hfields, List.take_append, hfront, List.take_of_length_le (by omega), hcells]
    simp only [List.append_assoc]
  have hcheck : (tornCrc data k).length = 4 := by
    unfold tornCrc
    rw [List.length_append, List.length_take, length_toLeBytes, List.length_replicate]
    omega
  rw [hpage, decodePage_pageBytes hcheck List.length_replicate hfit]

end Decode

namespace FlashStore

variable {p : Placement} (s : FlashStore p)

/-! ### The two records -/

def image (idx : Nat) : Bytes := s.flash.read (s.pageBase idx) p.eraseSize

def page (idx : Nat) : Option FlashRecord := decodePage (s.image idx)

theorem headerLen_add_capacity : headerLen + s.capacity = p.eraseSize := by
  have h := p.page_holds
  unfold capacity
  omega

theorem eraseSize_le : p.eraseSize ≤ 2 ^ 31 := by
  have h := p.inside
  have h' := p.addressed
  omega

theorem crcStream_eq (m : Cells) (fuel remaining offset : Nat) (crc : U32)
    (h : remaining ≤ fuel) :
    crcStream m fuel remaining offset crc = Crc32.update crc (m.read offset remaining) := by
  induction fuel generalizing remaining offset crc with
  | zero =>
    obtain rfl : remaining = 0 := Nat.le_zero.mp h
    rfl
  | succ fuel ih =>
    unfold crcStream
    split
    · rename_i hzero
      rw [hzero]
      rfl
    · have hchunk : 0 < crcChunk := by decide
      have hsplit : remaining = min remaining crcChunk + (remaining - min remaining crcChunk) := by
        omega
      dsimp only
      rw [ih _ _ _ (by omega)]
      conv_rhs => rw [hsplit]
      rw [Cells.read_add]
      exact (List.foldl_append ..).symm

/-- The header is read from the bytes of the page alone. -/
theorem readValidHeader_eq (idx : Nat) :
    s.readValidHeader idx = (s.page idx).map fun r => ⟨r.1, r.2.length⟩ := by
  have hcap := s.headerLen_add_capacity
  have hheader : headerLen = 16 := rfl
  have hfield : ∀ i, i + 4 ≤ headerLen →
      ((s.flash.read (s.pageBase idx) headerLen).drop i).take 4 = ((s.image idx).drop i).take 4 := by
    intro i hi
    unfold image
    rw [Cells.drop_read (by omega), Cells.drop_read (by omega), Cells.take_read (by omega),
      Cells.take_read (by omega)]
  have hmagic := hfield 0 (by omega)
  rw [List.drop_zero, List.drop_zero] at hmagic
  have hlength : (s.image idx).length - headerLen = s.capacity := by
    unfold image
    rw [Cells.length_read]
    omega
  have hpayload : ∀ len, len ≤ s.capacity →
      s.flash.read (s.pageBase idx + headerLen) len = ((s.image idx).drop headerLen).take len := by
    intro len hlen
    unfold image
    rw [Cells.drop_read (by omega), Cells.take_read (by omega)]
  unfold readValidHeader page decodePage
  dsimp only
  rw [hmagic, hfield 4 (by omega), hfield 8 (by omega), hfield 12 (by omega), hlength,
    crcStream_eq _ _ _ _ _ (Nat.le_refl _)]
  split
  · rfl
  · split
    · rfl
    · rename_i hlen
      rw [hpayload _ (Nat.le_of_not_lt hlen)]
      have hcount : (((s.image idx).drop headerLen).take
          (fromLeBytes (((s.image idx).drop 8).take 4)).toNat).length =
            (fromLeBytes (((s.image idx).drop 8).take 4)).toNat := by
        rw [List.length_take, List.length_drop, hlength]
        omega
      unfold crc32
      split
      · rfl
      · rw [Option.map_some, hcount]

theorem page_eq_some {idx : Nat} {r : FlashRecord} (h : s.page idx = some r) :
    r.2.length ≤ s.capacity ∧ s.flash.read (s.pageBase idx + headerLen) r.2.length = r.2 := by
  have hcap := s.headerLen_add_capacity
  unfold page decodePage at h
  dsimp only at h
  split at h
  · cases h
  split at h
  · cases h
  rename_i hlen
  split at h
  · cases h
  cases h
  generalize (fromLeBytes (((s.image idx).drop 8).take 4)).toNat = len at hlen ⊢
  unfold image at hlen ⊢
  rw [Cells.length_read] at hlen
  dsimp only
  rw [Cells.drop_read (by omega), Cells.take_read (by omega), Cells.length_read]
  exact ⟨by omega, rfl⟩

/-- Which of two records `load` takes. -/
def newest : Option FlashRecord → Option FlashRecord → Option (Nat × FlashRecord)
  | none, none => none
  | some r, none => some (0, r)
  | none, some r => some (1, r)
  | some a, some b => if a.1 < b.1 then some (1, b) else some (0, a)

def newestRecord : Option (Nat × FlashRecord) := newest (s.page 0) (s.page 1)

theorem newestValid_eq :
    s.newestValid = s.newestRecord.map fun r => (r.1, ⟨r.2.1, r.2.2.length⟩) := by
  unfold newestValid newestRecord
  rw [readValidHeader_eq, readValidHeader_eq]
  cases s.page 0 with
  | none =>
    cases s.page 1 with
    | none => rfl
    | some b => rfl
  | some a =>
    cases s.page 1 with
    | none => rfl
    | some b =>
      unfold newest
      rw [apply_ite (Option.map _)]
      rfl

theorem newestRecord_page {idx : Nat} {r : FlashRecord} (h : s.newestRecord = some (idx, r)) :
    (idx = 0 ∨ idx = 1) ∧ s.page idx = some r := by
  unfold newestRecord newest at h
  split at h
  · cases h
  · rename_i h0 h1
    cases h
    exact ⟨Or.inl rfl, h0⟩
  · rename_i h0 h1
    cases h
    exact ⟨Or.inr rfl, h1⟩
  · rename_i h0 h1
    split at h <;> cases h
    · exact ⟨Or.inr rfl, h1⟩
    · exact ⟨Or.inl rfl, h0⟩

def stored : Option Bytes := s.newestRecord.map fun r => r.2.2

theorem load_eq (outLen : Nat) :
    s.load outLen = match s.stored with
      | none => .ok none
      | some blob =>
        if outLen < blob.length then .error (.bufferTooSmall blob.length outLen)
        else .ok (some blob) := by
  unfold load stored
  rw [newestValid_eq]
  cases hnewest : s.newestRecord with
  | none => rfl
  | some r =>
    obtain ⟨idx, gen, blob⟩ := r
    obtain ⟨_, hpage⟩ := s.newestRecord_page hnewest
    obtain ⟨_, hread⟩ := s.page_eq_some hpage
    simp only [Option.map_some]
    rw [hread]

theorem length_stored {blob : Bytes} (h : s.stored = some blob) : blob.length ≤ s.capacity := by
  obtain ⟨⟨idx, r⟩, hr, rfl⟩ := Option.map_eq_some_iff.mp h
  obtain ⟨_, hpage⟩ := s.newestRecord_page hr
  exact (s.page_eq_some hpage).1

theorem load_of_le {outLen : Nat} (h : s.capacity ≤ outLen) : s.load outLen = .ok s.stored := by
  rw [load_eq]
  cases hstored : s.stored with
  | none => rfl
  | some blob =>
    have hlen := s.length_stored hstored
    dsimp only
    rw [if_neg (by omega)]

/-! ### Changing the page a save writes to -/

def current : Option FlashRecord := s.newestRecord.map Prod.snd

/-- Whether a record in page `target` is taken rather than the one in the other page. -/
def preferred (target : Nat) (gen : U32) : Option FlashRecord → Bool
  | none => true
  | some r => if target = 0 then !(gen < r.1) else r.1 < gen

theorem saveTarget_eq :
    s.saveTarget = match s.newestRecord with
      | none => (0, 0)
      | some (idx, r) => (idx ^^^ 1, r.1 + 1) := by
  unfold saveTarget
  rw [newestValid_eq]
  cases s.newestRecord <;> rfl

theorem saveTarget_lt : s.saveTarget.1 = 0 ∨ s.saveTarget.1 = 1 := by
  rw [saveTarget_eq]
  cases hnewest : s.newestRecord with
  | none => exact Or.inl rfl
  | some newest =>
    obtain ⟨idx, r⟩ := newest
    obtain ⟨hidx, _⟩ := s.newestRecord_page hnewest
    rcases hidx with h | h
    · exact Or.inr (by dsimp only; rw [h]; rfl)
    · exact Or.inl (by dsimp only; rw [h]; rfl)

theorem page_other : s.page (s.saveTarget.1 ^^^ 1) = s.current := by
  rw [saveTarget_eq]
  unfold current
  cases hnewest : s.newestRecord with
  | none =>
    show s.page 1 = none
    unfold newestRecord newest at hnewest
    split at hnewest
    · assumption
    · cases hnewest
    · cases hnewest
    · split at hnewest <;> cases hnewest
  | some newest =>
    obtain ⟨idx, r⟩ := newest
    obtain ⟨hidx, hpage⟩ := s.newestRecord_page hnewest
    have hback : idx ^^^ 1 ^^^ 1 = idx := by
      rcases hidx with h | h <;> rw [h] <;> rfl
    dsimp only
    rw [hback, hpage]
    rfl

theorem stored_eq_current : s.stored = s.current.map Prod.snd := by
  unfold stored current
  rw [Option.map_map]
  rfl

/-- A change of that page alone can only bring out the record it then holds. -/
theorem stored_of_changed {s' : FlashStore p}
    (hother : s'.page (s.saveTarget.1 ^^^ 1) = s.page (s.saveTarget.1 ^^^ 1)) :
    s'.stored = match s'.page s.saveTarget.1 with
      | none => s.stored
      | some r => if preferred s.saveTarget.1 r.1 s.current then some r.2 else s.stored := by
  rw [page_other] at hother
  rw [stored_eq_current s]
  unfold stored newestRecord
  generalize s.current = current at hother ⊢
  rcases s.saveTarget_lt with h | h
  · rw [h] at hother ⊢
    have hone : s'.page 1 = current := hother
    rw [hone]
    cases s'.page 0 with
    | none => cases current <;> rfl
    | some r =>
      cases current with
      | none => rfl
      | some r' =>
        unfold newest preferred
        by_cases hlt : r.1 < r'.1
        · simp [hlt]
        · simp [hlt]
  · rw [h] at hother ⊢
    have hzero : s'.page 0 = current := hother
    rw [hzero]
    cases s'.page 1 with
    | none => cases current <;> rfl
    | some r =>
      cases current with
      | none => rfl
      | some r' =>
        unfold newest preferred
        by_cases hlt : r'.1 < r.1
        · simp [hlt]
        · simp [hlt]

/-! ### What a save writes -/

section Save
variable {s} {s' : FlashStore p} {data : Bytes}

theorem image_other_congr
    (h : ∀ a, ¬ (s.pageBase s.saveTarget.1 ≤ a ∧ a < s.pageBase s.saveTarget.1 + p.eraseSize) →
      s'.flash a = s.flash a) :
    s'.image (s.saveTarget.1 ^^^ 1) = s.image (s.saveTarget.1 ^^^ 1) := by
  unfold image
  apply Cells.read_congr
  intro i hi
  apply h
  unfold pageBase
  rcases s.saveTarget_lt with ht | ht
  · rw [ht]
    have hone : 0 ^^^ 1 = 1 := rfl
    rw [hone]
    omega
  · rw [ht]
    have hzero : 1 ^^^ 1 = 0 := rfl
    rw [hzero]
    omega

theorem page_other_congr
    (h : ∀ a, ¬ (s.pageBase s.saveTarget.1 ≤ a ∧ a < s.pageBase s.saveTarget.1 + p.eraseSize) →
      s'.flash a = s.flash a) :
    s'.page (s.saveTarget.1 ^^^ 1) = s.page (s.saveTarget.1 ^^^ 1) := by
  unfold page
  rw [image_other_congr h]

variable (s) (data)

def alignedLen : Nat := data.length - data.length % p.writeSize

/-- All that a save programs, from the start of the page. -/
def saveImage : Bytes :=
  headerBytes s.saveTarget.2 data ++ (data ++
    List.replicate (if 0 < data.length % p.writeSize then
      p.writeSize - data.length % p.writeSize else 0) erased)

def programmed (k : Nat) : FlashStore p :=
  ⟨(s.flash.erase (s.pageBase s.saveTarget.1) (s.pageBase s.saveTarget.1 + p.eraseSize)).write
    (s.pageBase s.saveTarget.1) ((s.saveImage data).take k)⟩

variable {s} {data}

theorem length_saveImage_le (hfit : data.length ≤ s.capacity) :
    (s.saveImage data).length ≤ p.eraseSize := by
  have hcap := s.headerLen_add_capacity
  obtain ⟨pages, hpages⟩ := p.word_page
  obtain ⟨words, hwords⟩ := p.word_header
  have hpos := p.word_pos
  have hsplit := Nat.div_add_mod data.length p.writeSize
  have hlt := Nat.mod_lt data.length hpos
  unfold saveImage
  rw [List.length_append, length_headerBytes, List.length_append, List.length_replicate]
  split
  · -- The blob and its padding are one word more than its whole words; the page has room
    -- for a whole number of words.
    have hquot : data.length / p.writeSize < pages - words := by
      rw [Nat.div_lt_iff_lt_mul hpos, Nat.sub_mul, Nat.mul_comm pages, Nat.mul_comm words,
        ← hpages, ← hwords]
      rcases Nat.lt_or_ge data.length (p.eraseSize - headerLen) with h | h
      · exact h
      · have hfull : data.length = p.writeSize * (pages - words) := by
          rw [Nat.mul_sub, ← hpages, ← hwords]
          omega
        have hmod : data.length % p.writeSize = 0 := by
          rw [hfull, Nat.mul_mod_right]
        omega
    have hwhole : p.writeSize * (data.length / p.writeSize + 1) ≤ p.writeSize * (pages - words) :=
      Nat.mul_le_mul_left _ hquot
    rw [Nat.mul_sub, ← hpages, ← hwords, Nat.mul_add, Nat.mul_one] at hwhole
    omega
  · omega

theorem programmed_outside (k : Nat) (hfit : data.length ≤ s.capacity) (a : Nat)
    (h : ¬ (s.pageBase s.saveTarget.1 ≤ a ∧ a < s.pageBase s.saveTarget.1 + p.eraseSize)) :
    (s.programmed data k).flash a = s.flash a := by
  have hlen := length_saveImage_le hfit
  unfold programmed
  dsimp only
  rw [Cells.write_outside, Cells.erase_outside h]
  rw [List.length_take]
  omega

theorem image_programmed (k : Nat) (hfit : data.length ≤ s.capacity) :
    (s.programmed data k).image s.saveTarget.1 =
      (s.saveImage data).take k ++
        List.replicate (p.eraseSize - ((s.saveImage data).take k).length) erased := by
  have hlen := length_saveImage_le hfit
  unfold image programmed
  apply Cells.read_write
  · exact Cells.blank_erase _ _
  · rw [List.length_take]
    omega

theorem stored_programmed (k : Nat) (hfit : data.length ≤ s.capacity) :
    (s.programmed data k).stored =
      match decodePage ((s.saveImage data).take k ++
          List.replicate (p.eraseSize - ((s.saveImage data).take k).length) erased) with
      | none => s.stored
      | some r => if preferred s.saveTarget.1 r.1 s.current then some r.2 else s.stored := by
  rw [s.stored_of_changed (page_other_congr (programmed_outside k hfit)), page,
    image_programmed k hfit]

def tornPayload (data : Bytes) (k : Nat) : Bytes :=
  data.take k ++ List.replicate (data.length - k) erased

@[simp] theorem length_tornPayload (k : Nat) : (tornPayload data k).length = data.length := by
  unfold tornPayload
  rw [List.length_append, List.length_take, List.length_replicate]
  omega

theorem tornPayload_of_le {k : Nat} (h : data.length ≤ k) : tornPayload data k = data := by
  unfold tornPayload
  rw [List.take_of_length_le h, Nat.sub_eq_zero_of_le h, List.replicate_zero, List.append_nil]

/-- Behind a whole header: what there is of the payload, then erased bytes. The padding
of the last word is erased bytes too. -/
theorem page_of_header (k : Nat) (hfit : data.length ≤ s.capacity) :
    (s.saveImage data).take (headerLen + k) ++
        List.replicate (p.eraseSize - ((s.saveImage data).take (headerLen + k)).length) erased =
      headerBytes s.saveTarget.2 data ++ (tornPayload data k ++
        List.replicate (s.capacity - data.length) erased) := by
  have hcap := s.headerLen_add_capacity
  have hroom := length_saveImage_le hfit
  unfold saveImage at hroom ⊢
  generalize (if 0 < data.length % p.writeSize then
    p.writeSize - data.length % p.writeSize else 0) = pad at hroom ⊢
  rw [List.length_append, length_headerBytes, List.length_append, List.length_replicate] at hroom
  rw [List.take_append, length_headerBytes, Nat.add_sub_cancel_left,
    List.take_of_length_le (by rw [length_headerBytes]; omega), List.take_append,
    List.take_replicate]
  unfold tornPayload
  simp only [List.append_assoc, List.replicate_append_replicate, List.length_append,
    length_headerBytes, List.length_take, List.length_replicate]
  congr 3
  omega

theorem page_of_tornHeader {k : Nat} (hk : k < 16) :
    (s.saveImage data).take k ++
        List.replicate (p.eraseSize - ((s.saveImage data).take k).length) erased =
      tornHeader s.saveTarget.2 data p.eraseSize k := by
  have htake : (s.saveImage data).take k = (headerBytes s.saveTarget.2 data).take k :=
    List.take_append_of_le_length (Nat.le_of_lt hk)
  have hlen : ((headerBytes s.saveTarget.2 data).take k).length = k :=
    List.length_take_of_le (Nat.le_of_lt hk)
  rw [htake, hlen]
  rfl

/-- The header is whole: the page holds a record if what there is of the payload has the
checksum of the blob. -/
theorem stored_programmed_payload (k : Nat) (hfit : data.length ≤ s.capacity) :
    (s.programmed data (headerLen + k)).stored =
      if crc32 (tornPayload data k) = crc32 data ∧
          preferred s.saveTarget.1 s.saveTarget.2 s.current = true then
        some (tornPayload data k) else s.stored := by
  have hcap := s.headerLen_add_capacity
  have hsize := eraseSize_le (p := p)
  rw [stored_programmed _ hfit, page_of_header k hfit,
    decodePage_header (length_tornPayload k) (by omega)]
  by_cases hcrc : crc32 (tornPayload data k) = crc32 data
  · rw [if_pos hcrc]
    by_cases hpref : preferred s.saveTarget.1 s.saveTarget.2 s.current = true
    · rw [if_pos ⟨hcrc, hpref⟩]
      exact if_pos hpref
    · rw [if_neg fun h => hpref h.2]
      exact if_neg hpref
  · rw [if_neg hcrc, if_neg fun h => hcrc h.1]

theorem stored_programmed_checksum {k : Nat} (hk : 12 ≤ k) (hk16 : k < 16)
    (hfit : data.length ≤ s.capacity) :
    (s.programmed data k).stored =
      if crc32 (List.replicate data.length erased) = fromLeBytes (tornCrc data k) ∧
          preferred s.saveTarget.1 s.saveTarget.2 s.current = true then
        some (List.replicate data.length erased) else s.stored := by
  have hcap := s.headerLen_add_capacity
  have hsize := eraseSize_le (p := p)
  rw [stored_programmed _ hfit, page_of_tornHeader (by omega),
    decodePage_tornHeader hk hk16 (by omega) (by omega)]
  by_cases hcrc : crc32 (List.replicate data.length erased) = fromLeBytes (tornCrc data k)
  · rw [if_pos hcrc]
    by_cases hpref : preferred s.saveTarget.1 s.saveTarget.2 s.current = true
    · rw [if_pos ⟨hcrc, hpref⟩]
      exact if_pos hpref
    · rw [if_neg fun h => hpref h.2]
      exact if_neg hpref
  · rw [if_neg hcrc, if_neg fun h => hcrc h.1]

/-- Nothing of the length is there, or not all of it. -/
theorem stored_programmed_front {k : Nat} (hk : k < 12) (hfit : data.length ≤ s.capacity) :
    (s.programmed data k).stored = s.stored := by
  have hholds := p.page_holds
  rw [stored_programmed _ hfit, page_of_tornHeader (by omega),
    decodePage_tornHeader_none hk hholds eraseSize_le]

/-! The calls of a save, as chunks one behind the other. -/

variable (s) (data)

def chunks : List Bytes :=
  [headerBytes s.saveTarget.2 data] ++
    (if 0 < alignedLen (p := p) data then [data.take (alignedLen (p := p) data)] else []) ++
    (if 0 < data.length % p.writeSize then
      [data.drop (alignedLen (p := p) data) ++
        List.replicate (p.writeSize - data.length % p.writeSize) erased] else [])

theorem alignedLen_le : alignedLen (p := p) data ≤ data.length := Nat.sub_le _ _

theorem flatten_chunks : (s.chunks data).flatten = s.saveImage data := by
  have hle := alignedLen_le (p := p) data
  have hmod := Nat.mod_le data.length p.writeSize
  have halign : alignedLen (p := p) data = data.length - data.length % p.writeSize := rfl
  unfold chunks saveImage
  by_cases ha : 0 < alignedLen (p := p) data
  · by_cases hr : 0 < data.length % p.writeSize
    · simp only [if_pos ha, if_pos hr, List.flatten_append, List.flatten_cons, List.flatten_nil,
        List.append_nil, List.append_assoc]
      rw [← List.append_assoc (data.take _), List.take_append_drop]
    · have hall : data.take (alignedLen (p := p) data) = data :=
        List.take_of_length_le (by omega)
      simp only [if_pos ha, if_neg hr, List.flatten_append, List.flatten_cons, List.flatten_nil,
        List.append_nil, hall, List.replicate_zero]
  · have hzero : alignedLen (p := p) data = 0 := by omega
    by_cases hr : 0 < data.length % p.writeSize
    · simp only [if_neg ha, if_pos hr]
      simp only [List.flatten_append, List.flatten_cons, List.flatten_nil, List.append_nil, hzero,
        List.drop_zero]
    · have hnil : data = [] := List.eq_nil_of_length_eq_zero (by omega)
      simp only [if_neg ha, if_neg hr]
      simp only [List.flatten_cons, List.flatten_nil, List.append_nil, hnil, List.replicate_zero]

theorem saveCalls_eq :
    s.saveCalls data =
      s.erasePage s.saveTarget.1 :: writesFrom (s.pageBase s.saveTarget.1) (s.chunks data) := by
  have hle := alignedLen_le (p := p) data
  have hword := p.word_le
  have hmod := Nat.mod_lt data.length p.word_pos
  have hmodle := Nat.mod_le data.length p.writeSize
  have halign : alignedLen (p := p) data = data.length - data.length % p.writeSize := rfl
  have hrem : data.length - alignedLen (p := p) data = data.length % p.writeSize := by omega
  have htail : (data.drop (alignedLen (p := p) data) ++
      List.replicate (maxWriteSize - data.length % p.writeSize) erased).take p.writeSize =
        data.drop (alignedLen (p := p) data) ++
          List.replicate (p.writeSize - data.length % p.writeSize) erased := by
    rw [List.take_append, List.take_of_length_le (by rw [List.length_drop]; omega),
      List.take_replicate, List.length_drop, hrem, Nat.min_eq_left (by omega)]
  have hlen : (data.take (alignedLen (p := p) data)).length = alignedLen (p := p) data :=
    List.length_take_of_le hle
  unfold saveCalls chunks
  dsimp only
  rw [← halign, hrem, htail]
  by_cases ha : 0 < alignedLen (p := p) data
  · by_cases hr : 0 < data.length % p.writeSize
    · simp only [if_pos ha, if_pos hr, List.cons_append, List.nil_append, writesFrom, hlen,
        length_headerBytes]
    · simp only [if_pos ha, if_neg hr, List.cons_append, List.nil_append, List.append_nil,
        writesFrom, length_headerBytes]
  · have hzero : alignedLen (p := p) data = 0 := by omega
    by_cases hr : 0 < data.length % p.writeSize
    · simp only [if_neg ha, if_pos hr]
      simp only [List.cons_append, List.nil_append, writesFrom, length_headerBytes, hzero,
        Nat.add_zero]
    · simp only [if_neg ha, if_neg hr, List.append_nil, writesFrom]

theorem foldl_take_saveCalls (k : Nat) :
    ((s.saveCalls data).take (k + 1)).foldl Call.run s.flash =
      (s.programmed data (((s.chunks data).take k).flatten.length)).flash := by
  have htaken : (s.saveImage data).take (((s.chunks data).take k).flatten.length) =
      ((s.chunks data).take k).flatten := by
    have hsplit : s.saveImage data =
        ((s.chunks data).take k).flatten ++ ((s.chunks data).drop k).flatten := by
      rw [← List.flatten_append, List.take_append_drop, flatten_chunks]
    rw [hsplit, List.take_left]
  rw [saveCalls_eq, List.take_succ_cons, List.foldl_cons, take_writesFrom, foldl_writesFrom]
  unfold programmed
  rw [htaken]
  rfl

theorem foldl_saveCalls :
    (s.saveCalls data).foldl Call.run s.flash =
      (s.programmed data (s.saveImage data).length).flash := by
  rw [saveCalls_eq, List.foldl_cons, foldl_writesFrom, flatten_chunks]
  unfold programmed
  rw [List.take_length]
  rfl

end Save

def smallPlacement : Placement where
  eraseSize := 64
  writeSize := 4
  capacity := 128
  baseOffset := 0
  word_pos := four_word_pos
  word_le := four_le_maxWriteSize
  word_header := four_dvd_headerLen
  word_page := by decide
  addressed := by decide
  page_holds := by decide
  aligned := by decide
  inside := by decide

end FlashStore

end Wayfinder

import Wayfinder.Storage.Pages

/-!
# Power lost during a save

Every call of a save may be the last, and be cut short itself. The page in use is never
touched, so what a later `load` can find besides it is the record that the cut left in the
other page. There are two ways for that record to be a third blob: the erase has set bits
of the generation, which no checksum covers, before it reached the rest; or the header is
there but for its checksum, and the erased payload has the checksum that erased bytes make.
-/

namespace Wayfinder

set_option autoImplicit false

open NorFlash

namespace FlashStore

variable {p : Placement} (s : FlashStore p) (data : Bytes)

/-- Power is lost during call `k` of a save: the calls before it are made, it is cut short. -/
def LostIn (k : Nat) (left : Cells) : Prop :=
  ∃ call, (s.saveCalls data)[k]? = some call ∧
    Call.Interrupted p.writeSize (((s.saveCalls data).take k).foldl Call.run s.flash) call left

/-- No payload written in part has the checksum of the whole. -/
def NoCollision (p : Placement) (data : Bytes) : Prop :=
  ∀ k ≤ data.length, p.writeSize ∣ k → crc32 (tornPayload data k) = crc32 data →
    tornPayload data k = data

instance : Decidable (NoCollision p data) :=
  inferInstanceAs (Decidable (∀ k ≤ data.length, _ → _ → _))

/-- A third blob comes out: of the half-erased page, or of erased cells behind a header
that lacks (part of) its checksum. -/
def Exposes (k : Nat) (left : Cells) : Prop :=
  (k = 0 ∧ ∃ r, page (⟨left⟩ : FlashStore p) s.saveTarget.1 = some r ∧
      preferred s.saveTarget.1 r.1 s.current = true ∧ r.2 ≠ data ∧ s.stored ≠ some r.2) ∨
    (k = 1 ∧ ∃ n, 12 ≤ n ∧ n < 16 ∧ left = (s.programmed data n).flash ∧
      crc32 (List.replicate data.length erased) = fromLeBytes (tornCrc data n) ∧
      preferred s.saveTarget.1 s.saveTarget.2 s.current = true ∧
      List.replicate data.length erased ≠ data ∧
      s.stored ≠ some (List.replicate data.length erased))

/-! ### Where a write can be cut -/

section Cut
variable {s} {data}

theorem dvd_length_chunk {b : Bytes} (h : b ∈ s.chunks data) : p.writeSize ∣ b.length := by
  have hpos := p.word_pos
  have hmod := Nat.mod_lt data.length hpos
  have halign : p.writeSize ∣ alignedLen (p := p) data := Nat.dvd_sub_mod data.length
  unfold chunks at h
  simp only [List.mem_append, List.mem_singleton] at h
  rcases h with (rfl | h) | h
  · exact p.word_header
  · split at h
    · rw [List.mem_singleton.mp h, List.length_take_of_le (alignedLen_le data)]
      exact halign
    · cases h
  · split at h
    · rw [List.mem_singleton.mp h, List.length_append, List.length_drop, List.length_replicate]
      have hrem : data.length - alignedLen (p := p) data = data.length % p.writeSize := by
        have hle := Nat.mod_le data.length p.writeSize
        unfold alignedLen
        omega
      rw [hrem, Nat.add_sub_cancel' (Nat.le_of_lt hmod)]
    · cases h

theorem dvd_length_flatten {l : List Bytes} {w : Nat} (h : ∀ b ∈ l, w ∣ b.length) :
    w ∣ l.flatten.length := by
  induction l with
  | nil => exact Nat.dvd_zero w
  | cons b l ih =>
    rw [List.flatten_cons, List.length_append]
    exact Nat.dvd_add (h b List.mem_cons_self) (ih fun b' hb' => h b' (List.mem_cons_of_mem b hb'))

theorem programmed_of_lostIn {k : Nat} {left : Cells} (h : s.LostIn data (k + 1) left) :
    ∃ n, p.writeSize ∣ n ∧ left = (s.programmed data n).flash ∧
      (k = 0 → n ≤ headerLen) ∧ (0 < k → headerLen ≤ n) := by
  obtain ⟨call, hcall, hcut⟩ := h
  rw [saveCalls_eq, List.getElem?_cons_succ, getElem?_writesFrom] at hcall
  obtain ⟨b, hb, rfl⟩ := Option.map_eq_some_iff.mp hcall
  rw [foldl_take_saveCalls] at hcut
  cases hcut with
  | write off bytes words =>
    have hflat := flatten_chunks s data
    have hnext := flatten_take_append (s.chunks data) hb (words * p.writeSize)
    have hmem : b ∈ s.chunks data := List.mem_of_getElem? hb
    have hbefore : p.writeSize ∣ ((s.chunks data).take k).flatten.length :=
      dvd_length_flatten fun b' hb' => dvd_length_chunk (List.mem_of_mem_take hb')
    rw [hflat] at hnext
    refine ⟨((s.chunks data).take k).flatten.length + min (words * p.writeSize) b.length,
      ?_, ?_, ?_, ?_⟩
    · apply Nat.dvd_add hbefore
      rcases Nat.le_total (words * p.writeSize) b.length with hle | hle
      · rw [Nat.min_eq_left hle]
        exact Nat.dvd_mul_left _ _
      · rw [Nat.min_eq_right hle]
        exact dvd_length_chunk hmem
    · have hfront : (s.saveImage data).take ((s.chunks data).take k).flatten.length =
          ((s.chunks data).take k).flatten := by
        rw [← hflat]
        have hsplit : (s.chunks data).flatten =
            ((s.chunks data).take k).flatten ++ ((s.chunks data).drop k).flatten := by
          rw [← List.flatten_append, List.take_append_drop]
        rw [hsplit, List.take_left]
      unfold programmed
      dsimp only
      rw [hfront, Cells.write_write, hnext]
    · rintro rfl
      obtain rfl : headerBytes s.saveTarget.2 data = b := Option.some.inj hb
      rw [List.take_zero, List.flatten_nil, List.length_nil, length_headerBytes]
      omega
    · intro hk
      obtain ⟨j, rfl⟩ := Nat.exists_eq_succ_of_ne_zero (Nat.pos_iff_ne_zero.mp hk)
      have hcons : ∃ rest, s.chunks data = headerBytes s.saveTarget.2 data :: rest := ⟨_, rfl⟩
      obtain ⟨rest, hrest⟩ := hcons
      rw [hrest, List.take_succ_cons, List.flatten_cons, List.length_append, length_headerBytes]
      omega

theorem outside_of_interrupted {left : Cells} (h : s.LostIn data 0 left) (a : Nat)
    (ha : ¬ (s.pageBase s.saveTarget.1 ≤ a ∧ a < s.pageBase s.saveTarget.1 + p.eraseSize)) :
    left a = s.flash a := by
  obtain ⟨call, hcall, hcut⟩ := h
  rw [saveCalls_eq] at hcall
  obtain rfl := Option.some.inj hcall
  cases hcut with
  | erase lo hi left houtside hsets => exact houtside a ha

end Cut

/-! ### What can be loaded afterwards -/

section Afterwards
variable {s} {data} {k : Nat} {left : Cells}

theorem stored_or {a : Option Bytes} {b : Bytes} {c : Prop} [Decidable c] :
    ((if c then some b else a) = a ∨ (if c then some b else a) = some data) ↔
      ¬ (c ∧ b ≠ data ∧ a ≠ some b) := by
  by_cases hc : c
  · rw [if_pos hc]
    constructor
    · rintro (h | h) ⟨_, hdata, hold⟩
      · exact hold h.symm
      · exact hdata (Option.some.inj h)
    · intro h
      by_cases hdata : b = data
      · exact Or.inr (congrArg some hdata)
      · by_cases hold : a = some b
        · exact Or.inl hold.symm
        · exact absurd ⟨hc, hdata, hold⟩ h
  · rw [if_neg hc]
    exact iff_of_true (Or.inl rfl) fun h => hc h.1

theorem stored_after_erase (h : s.LostIn data 0 left) :
    (stored (⟨left⟩ : FlashStore p) = s.stored ∨ stored (⟨left⟩ : FlashStore p) = some data) ↔
      ¬ s.Exposes data 0 left := by
  have hchanged := @stored_of_changed p s ⟨left⟩ (page_other_congr (outside_of_interrupted h))
  have hexposes : s.Exposes data 0 left ↔
      ∃ r, page (⟨left⟩ : FlashStore p) s.saveTarget.1 = some r ∧
        preferred s.saveTarget.1 r.1 s.current = true ∧ r.2 ≠ data ∧ s.stored ≠ some r.2 := by
    unfold Exposes
    constructor
    · rintro (⟨_, hr⟩ | ⟨hone, _⟩)
      · exact hr
      · cases hone
    · exact fun hr => Or.inl ⟨rfl, hr⟩
  rw [hexposes, hchanged]
  cases hpage : page (⟨left⟩ : FlashStore p) s.saveTarget.1 with
  | none => exact iff_of_true (Or.inl rfl) nofun
  | some r =>
    refine Iff.trans stored_or (not_congr ?_)
    constructor
    · exact fun hr => ⟨r, rfl, hr⟩
    · rintro ⟨r', hr', hrest⟩
      cases hr'
      exact hrest

theorem stored_after_payload (hfit : data.length ≤ s.capacity) (hcrc : NoCollision p data)
    {n : Nat} (hn : headerLen ≤ n) (hdvd : p.writeSize ∣ n) :
    (s.programmed data n).stored = s.stored ∨ (s.programmed data n).stored = some data := by
  obtain ⟨k, rfl⟩ := Nat.exists_eq_add_of_le hn
  have hk : p.writeSize ∣ k := (Nat.dvd_add_right p.word_header).mp hdvd
  rw [stored_programmed_payload k hfit]
  apply stored_or.mpr
  rintro ⟨⟨hsame, _⟩, hdata, _⟩
  apply hdata
  rcases Nat.le_total k data.length with hle | hle
  · exact hcrc k hle hk hsame
  · exact tornPayload_of_le hle

theorem stored_after_header (hfit : data.length ≤ s.capacity) (hcrc : NoCollision p data)
    (h : s.LostIn data 1 left) :
    (stored (⟨left⟩ : FlashStore p) = s.stored ∨ stored (⟨left⟩ : FlashStore p) = some data) ↔
      ¬ s.Exposes data 1 left := by
  have hheader : headerLen = 16 := rfl
  constructor
  · rintro hstored (⟨hzero, _⟩ | ⟨_, n, hn, hn16, rfl, hsame, hpref, hdata, hold⟩)
    · cases hzero
    · have hthird := stored_programmed_checksum (s := s) hn hn16 hfit
      have hsafe : (s.programmed data n).stored = s.stored ∨
          (s.programmed data n).stored = some data := hstored
      rw [hthird] at hsafe
      exact stored_or.mp hsafe ⟨⟨hsame, hpref⟩, hdata, hold⟩
  · intro hsafe
    obtain ⟨n, hdvd, rfl, hle, _⟩ := programmed_of_lostIn h
    have hn := hle rfl
    show (s.programmed data n).stored = s.stored ∨ (s.programmed data n).stored = some data
    by_cases hfront : n < 12
    · exact Or.inl (stored_programmed_front hfront hfit)
    · by_cases hwhole : n < 16
      · rw [stored_programmed_checksum (Nat.le_of_not_lt hfront) hwhole hfit]
        apply stored_or.mpr
        rintro ⟨⟨hsame, hpref⟩, hdata, hold⟩
        exact hsafe (Or.inr ⟨rfl, n, Nat.le_of_not_lt hfront, hwhole, rfl, hsame, hpref, hdata, hold⟩)
      · exact stored_after_payload hfit hcrc (Nat.le_of_not_lt hwhole) hdvd

/-- Power lost at any point of a save leaves the blob from before or the new one to be
loaded, exactly unless the cut exposes a third. -/
theorem load_after_loss (hfit : data.length ≤ s.capacity) (hcrc : NoCollision p data)
    (h : s.LostIn data k left) {outLen : Nat} (hout : s.capacity ≤ outLen) :
    (load (⟨left⟩ : FlashStore p) outLen = s.load outLen ∨
        load (⟨left⟩ : FlashStore p) outLen = .ok (some data)) ↔ ¬ s.Exposes data k left := by
  rw [load_of_le s hout, load_of_le (⟨left⟩ : FlashStore p) hout, Except.ok.injEq, Except.ok.injEq]
  match k with
  | 0 => exact stored_after_erase h
  | 1 => exact stored_after_header hfit hcrc h
  | k + 2 =>
    obtain ⟨n, hdvd, rfl, _, hge⟩ := programmed_of_lostIn h
    refine iff_of_true (stored_after_payload hfit hcrc (hge (Nat.succ_pos k)) hdvd) ?_
    rintro (⟨hzero, _⟩ | ⟨hone, _⟩)
    · cases hzero
    · cases hone

end Afterwards

/-! ### The two defects -/

section Defects

def blankStore : FlashStore smallPlacement := ⟨fun _ => erased⟩

def afterWords (s : FlashStore p) (data : Bytes) (words : Nat) : Cells :=
  (((s.saveCalls data).take 1).foldl Call.run s.flash).write (s.pageBase s.saveTarget.1)
    ((headerBytes s.saveTarget.2 data).take (words * p.writeSize))

theorem lostIn_afterWords (s : FlashStore p) (data : Bytes) (words : Nat) :
    s.LostIn data 1 (s.afterWords data words) := ⟨_, rfl, .write _ _ words⟩

theorem load_after_two_words :
    blankStore.LostIn [1, 2, 3, 4] 1 (blankStore.afterWords [1, 2, 3, 4] 2) ∧
      ¬ blankStore.Exposes [1, 2, 3, 4] 1 (blankStore.afterWords [1, 2, 3, 4] 2) := by
  have hlost := lostIn_afterWords blankStore [1, 2, 3, 4] 2
  refine ⟨hlost, ?_⟩
  have hout : blankStore.capacity ≤ 48 := by decide
  apply (load_after_loss (by decide) (by decide +kernel) hlost hout).mp
  exact Or.inl (by decide +kernel)

def twoSaves : FlashStore smallPlacement :=
  ((blankStore.save (fun _ => false) [1]).2.save (fun _ => false) [2]).2

def generationErased : Cells := fun a => if 4 ≤ a ∧ a < 8 then erased else twoSaves.flash a

theorem lostIn_generationErased : twoSaves.LostIn [3] 0 generationErased := by
  have htarget : twoSaves.saveTarget.1 = 0 := by decide +kernel
  have hbase : twoSaves.pageBase twoSaves.saveTarget.1 = 0 := by
    rw [htarget]
    rfl
  refine ⟨_, rfl, .erase _ _ _ ?_ ?_⟩
  · intro a ha
    rw [hbase] at ha
    have hsize : smallPlacement.eraseSize = 64 := rfl
    exact if_neg (by omega)
  · intro a
    show twoSaves.flash a &&& generationErased a = twoSaves.flash a
    unfold generationErased
    split
    · exact BitVec.and_allOnes
    · exact BitVec.and_self

/-- Neither the blob from before nor the new one: a fresh store that loses power when the
header of `[1, 2, 3, 4]` lacks its last word, and one that loses power while it erases the
older of two records. -/
theorem third_blob_loaded :
    (NoCollision smallPlacement [1, 2, 3, 4] ∧
      blankStore.LostIn [1, 2, 3, 4] 1 (blankStore.afterWords [1, 2, 3, 4] 3) ∧
      blankStore.load 48 = .ok none ∧
      load (⟨blankStore.afterWords [1, 2, 3, 4] 3⟩ : FlashStore smallPlacement) 48 =
        .ok (some [0xFF, 0xFF, 0xFF, 0xFF])) ∧
    (NoCollision smallPlacement [3] ∧ twoSaves.LostIn [3] 0 generationErased ∧
      twoSaves.load 48 = .ok (some [2]) ∧
      load (⟨generationErased⟩ : FlashStore smallPlacement) 48 = .ok (some [1])) := by
  refine ⟨⟨?_, lostIn_afterWords _ _ _, ?_, ?_⟩, ⟨?_, lostIn_generationErased, ?_, ?_⟩⟩
  all_goals decide +kernel

end Defects

end FlashStore

end Wayfinder

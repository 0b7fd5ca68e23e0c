import Wayfinder.Storage.Register
import Wayfinder.Storage.Settings

/-!
# Superseded seeds

A board's flash holds two pages, and a save leaves the one it does not write as it was. A
persist that replaces the seed is followed by a scrub, which keeps the page of the newest
record and erases the other. The newest is the one just saved unless the generation has
wrapped; then the scrub erases the new record and the old seed is what stays.
-/

namespace Wayfinder

set_option autoImplicit false

open NorFlash RecordSettings

namespace FlashStore

variable {p : Placement} {s : FlashStore p}

def flashMedium (p : Placement) : ErasableStore (FlashStore p) FlashError where
  toDurableStore := durable noFaults
  scrub := FlashStore.scrub noFaults
  erase := FlashStore.erase noFaults

/-! ### What the pages hold -/

/-- The page is erased, or a save of a record under this seed and nothing else is in it. -/
def HoldsOnly (s : FlashStore p) (seed : Octets seedLen) (idx : Nat) : Prop :=
  s.image idx = List.replicate p.eraseSize erased ∨
    ∃ gen r, r.seed = seed ∧ s.image idx = savedPage p gen (RecordCodec.toBytes r)

/-- Neither page holds anything but records under this seed, and one of them is what the
store has stored. -/
structure Sealed (s : FlashStore p) (seed : Octets seedLen) : Prop where
  pages : ∀ idx, idx = 0 ∨ idx = 1 → s.HoldsOnly seed idx
  stored : ∃ r : NodeRecord, r.seed = seed ∧ s.stored = some (RecordCodec.toBytes r)

theorem page_cases {t idx : Nat} (ht : t = 0 ∨ t = 1) (hidx : idx = 0 ∨ idx = 1) :
    idx = t ∨ idx = t ^^^ 1 := by
  rcases ht with rfl | rfl <;> rcases hidx with rfl | rfl
  · exact Or.inl rfl
  · exact Or.inr rfl
  · exact Or.inr rfl
  · exact Or.inl rfl

theorem stored_save {data : Bytes} (hfit : data.length ≤ s.capacity) :
    (s.save noFaults data).2.stored = some data ∨
      (s.save noFaults data).2.stored = s.stored := by
  obtain ⟨hnew, hold⟩ := page_save hfit
  rw [s.stored_of_changed hold, hnew]
  dsimp only
  split
  · exact Or.inl rfl
  · exact Or.inr rfl

theorem newestRecord_save {data : Bytes} (hfit : data.length ≤ s.capacity)
    (hgen : ∀ idx r, s.newestRecord = some (idx, r) → r.1 ≠ BitVec.allOnes 32) :
    (s.save noFaults data).2.newestRecord = some (s.saveTarget.1, s.saveTarget.2, data) := by
  obtain ⟨hnew, hold⟩ := page_save hfit
  have htarget := s.saveTarget_lt
  have hback : (s.save noFaults data).2.page (s.saveTarget.1 ^^^ 1) = s.current :=
    hold.trans s.page_other
  have hsame : BitVec.ofNat 32 s.saveTarget.2.toNat = s.saveTarget.2 := by
    rw [BitVec.ofNat_toNat, BitVec.setWidth_eq]
  rw [← hsame] at hnew ⊢
  apply newestRecord_of_older htarget s.saveTarget.2.isLt hnew
  intro r hr
  rw [hback] at hr
  unfold current at hr
  cases hrecord : s.newestRecord with
  | none =>
    rw [hrecord] at hr
    cases hr
  | some found =>
    obtain ⟨idx, newest⟩ := found
    rw [hrecord] at hr
    obtain rfl : newest = r := Option.some.inj hr
    have hlast := hgen idx newest hrecord
    have hnext : s.saveTarget.2 = newest.1 + 1 := by
      rw [saveTarget_eq, hrecord]
    rw [hnext]
    -- The generation that follows is larger, for it does not wrap.
    have hne : newest.1.toNat ≠ 2 ^ 32 - 1 := by
      intro h
      apply hlast
      apply BitVec.eq_of_toNat_eq
      rw [h, BitVec.toNat_allOnes]
    have hlt := newest.1.isLt
    have hone : BitVec.toNat (1 : U32) = 1 := rfl
    rw [BitVec.toNat_add, hone, Nat.mod_eq_of_lt (by omega)]
    exact Nat.lt_succ_self _

theorem newestRecord_scrub {idx : Nat} {r : FlashRecord} (h : s.newestRecord = some (idx, r)) :
    (s.scrub noFaults).2.newestRecord = some (idx, r) := by
  obtain ⟨hkept, hcleared⟩ := page_scrub h
  obtain ⟨hidx, _⟩ := s.newestRecord_page h
  have hsame : BitVec.ofNat 32 r.1.toNat = r.1 := by
    rw [BitVec.ofNat_toNat, BitVec.setWidth_eq]
  have hpage : (s.scrub noFaults).2.page idx = some (BitVec.ofNat 32 r.1.toNat, r.2) := by
    rw [hsame]
    exact hkept
  have hnewest := newestRecord_of_older hidx r.1.isLt hpage (fun other hother => by
    rw [hcleared] at hother
    cases hother)
  rw [hsame] at hnewest
  exact hnewest

theorem stored_scrub {data : Bytes} (h : s.stored = some data) :
    (s.scrub noFaults).2.stored = some data := by
  obtain ⟨⟨idx, r⟩, hrecord, hdata⟩ := Option.map_eq_some_iff.mp h
  unfold stored
  rw [newestRecord_scrub hrecord]
  exact congrArg some hdata

theorem save_ok {data : Bytes} (hfit : data.length ≤ s.capacity) :
    (s.save noFaults data).1 = .ok () := by
  unfold save make noFaults
  rw [if_neg (Nat.not_lt.mpr hfit), perform_none]
  rfl

/-! ### Saves that keep the seed, and one that replaces it -/

section Seeds
variable {seed : Octets seedLen} {r : NodeRecord}

theorem HoldsOnly.congr {s' : FlashStore p} {idx : Nat} (h : s.HoldsOnly seed idx)
    (himage : s'.image idx = s.image idx) : s'.HoldsOnly seed idx := by
  unfold HoldsOnly at h ⊢
  rw [himage]
  exact h

theorem HoldsOnly.seed_of_page {idx : Nat} {gen : U32} (h : s.HoldsOnly seed idx)
    (hpage : s.page idx = some (gen, RecordCodec.toBytes r)) : r.seed = seed := by
  have hfit : ∀ r' : NodeRecord, ∀ gen', s.image idx = savedPage p gen' (RecordCodec.toBytes r') →
      (RecordCodec.toBytes r').length ≤ p.eraseSize - headerLen := by
    intro r' gen' himage
    have hlen := congrArg List.length himage
    unfold image savedPage at hlen
    rw [Cells.length_read, List.length_append, List.length_append, length_headerBytes,
      List.length_replicate] at hlen
    omega
  rcases h with herased | ⟨gen', r', hseed, himage⟩
  · rw [page_of_erased herased] at hpage
    cases hpage
  · unfold page at hpage
    rw [himage, decodePage_savedPage (hfit r' gen' himage)] at hpage
    have hbytes := (Prod.mk.inj (Option.some.inj hpage)).2
    rw [← RecordCodec.toBytes_injective hbytes]
    exact hseed

theorem Sealed.save (h : s.Sealed seed) (hseed : r.seed = seed)
    (hfit : (RecordCodec.toBytes r).length ≤ s.capacity) :
    (s.save noFaults (RecordCodec.toBytes r)).2.Sealed seed := by
  obtain ⟨hnew, hold⟩ := image_save hfit
  refine ⟨?_, ?_⟩
  · intro idx hidx
    rcases page_cases s.saveTarget_lt hidx with rfl | rfl
    · exact Or.inr ⟨_, r, hseed, hnew⟩
    · exact (h.pages _ hidx).congr hold
  · rcases stored_save hfit with hstored | hstored
    · exact ⟨r, hseed, hstored⟩
    · rw [hstored]
      exact h.stored

theorem sealed_scrub_save (hseed : r.seed = seed)
    (hfit : (RecordCodec.toBytes r).length ≤ s.capacity)
    (hgen : ∀ idx r, s.newestRecord = some (idx, r) → r.1 ≠ BitVec.allOnes 32) :
    ((s.save noFaults (RecordCodec.toBytes r)).2.scrub noFaults).2.Sealed seed := by
  have hnewest := newestRecord_save hfit hgen
  obtain ⟨hnew, _⟩ := image_save hfit
  obtain ⟨hkept, herased⟩ := image_scrub hnewest
  refine ⟨?_, r, hseed, stored_scrub ?_⟩
  · intro idx hidx
    rcases page_cases s.saveTarget_lt hidx with rfl | rfl
    · exact Or.inr ⟨_, r, hseed, hkept.trans hnew⟩
    · exact Or.inl herased
  · unfold stored
    rw [hnewest]
    rfl

end Seeds

end FlashStore

/-! ### A board over its flash -/

abbrev FlashBoard (p : Placement) := NodeStore (FlashStore p)

inductive FlashBoardOp where
  | call (op : SettingsOp)
  | reload (mintSeed : Octets seedLen)

namespace FlashBoard

variable {p : Placement}

def boot (flash : FlashStore p) (mintSeed : Octets seedLen) : FlashBoard p :=
  NodeStore.resolve (FlashStore.flashMedium p) flash mintSeed

/-- How the device's errors are rendered is the driver's affair. -/
def perform (debug : FlashError → String) (b : FlashBoard p) :
    FlashBoardOp → Except String Unit × FlashBoard p
  | .call op => b.call (FlashStore.flashMedium p) debug op
  | .reload mintSeed => (.ok (), boot b.medium mintSeed)

def step (debug : FlashError → String) (b : FlashBoard p) (op : FlashBoardOp) : FlashBoard p :=
  (b.perform debug op).2

/-- The record that a persist would write is under another seed. -/
def Replaces (s : RecordSettings (FlashStore p)) (update : SettingsRecord) (next : NodeRecord) :
    Prop :=
  apply s.record.value (s.view.merge update) = .ok next ∧ next.seed ≠ s.record.value.seed

/-- A persist that replaces the seed and returns without an error. -/
inductive Rotates (debug : FlashError → String) : FlashBoard p → FlashBoardOp → Prop where
  | persist (s : RecordSettings (FlashStore p)) (update : SettingsRecord) (next : NodeRecord) :
    Replaces s update next →
      (perform debug (.record s) (.call (.persist update))).1 = .ok () →
        Rotates debug (.record s) (.call (.persist update))

/-- No record that replaces the seed is saved over the last generation. -/
def Grows : FlashBoard p → FlashBoardOp → Prop
  | .record s, .call (.persist update) => ∀ next, Replaces s update next →
    (RecordCodec.toBytes next).length ≤ s.record.store.capacity →
      ∀ idx r, s.record.store.newestRecord = some (idx, r) → r.1 ≠ BitVec.allOnes 32
  | _, _ => True

/-- The board is up, and all there is in its flash is under its seed. -/
def Clean (b : FlashBoard p) : Prop :=
  ∃ s, b = .record s ∧ s.record.codec = recordCodec ∧ s.record.store.Sealed s.record.value.seed

/-! ### What a call does to the flash -/

section Calls
variable {debug : FlashError → String} {s : RecordSettings (FlashStore p)} {b : FlashBoard p}

theorem perform_persist (s : RecordSettings (FlashStore p)) (update : SettingsRecord) :
    perform debug (.record s) (.call (.persist update)) =
      ((s.persist (FlashStore.flashMedium p) debug update).1,
        .record (s.persist (FlashStore.flashMedium p) debug update).2) := rfl

theorem step_persist (s : RecordSettings (FlashStore p)) (update : SettingsRecord) :
    step debug (.record s) (.call (.persist update)) =
      .record (s.persist (FlashStore.flashMedium p) debug update).2 := rfl

theorem step_checkpoint (s : RecordSettings (FlashStore p)) (unix : BitVec 64) :
    step debug (.record s) (.call (.checkpoint unix)) =
      .record (s.checkpoint (FlashStore.flashMedium p) debug unix).2 := rfl

theorem mutate_flash {x : LoadedRecord (FlashStore p)} (hcodec : x.codec = recordCodec)
    (f : NodeRecord → Unit × NodeRecord) :
    x.mutate (FlashStore.flashMedium p).toDurableStore f =
      if (RecordCodec.toBytes (f x.value).2).length ≤ x.store.capacity then
        ((), .ok (), ⟨(f x.value).2,
          (x.store.save FlashStore.noFaults (RecordCodec.toBytes (f x.value).2)).2, recordCodec⟩)
      else
        ((), .error (.store (.blobTooLarge (RecordCodec.toBytes (f x.value).2).length
          x.store.capacity)), x) := by
  obtain ⟨value, store, codec⟩ := x
  obtain rfl : codec = recordCodec := hcodec
  have hencode : recordCodec.encode (f value).2 = .ok (RecordCodec.toBytes (f value).2) := rfl
  have hmedium : ∀ data, (FlashStore.flashMedium p).toDurableStore.save store data =
      store.save FlashStore.noFaults data := fun _ => rfl
  unfold Persisted.mutate Persisted.persist
  dsimp only
  rw [hencode]
  dsimp only
  rw [hmedium]
  by_cases hfit : (RecordCodec.toBytes (f value).2).length ≤ store.capacity
  · have hok := FlashStore.save_ok hfit
    rw [if_pos hfit]
    cases hsave : store.save FlashStore.noFaults (RecordCodec.toBytes (f value).2) with
    | mk outcome left =>
      rw [hsave] at hok
      obtain rfl : outcome = .ok () := hok
      rfl
  · have hlarge := Nat.lt_of_not_le hfit
    have hsave : store.save FlashStore.noFaults (RecordCodec.toBytes (f value).2) =
        (.error (.blobTooLarge (RecordCodec.toBytes (f value).2).length store.capacity), store) :=
      if_pos hlarge
    rw [if_neg hfit, hsave]

theorem write_flash (hcodec : s.record.codec = recordCodec) (next : NodeRecord) :
    s.write (FlashStore.flashMedium p) next =
      if (RecordCodec.toBytes next).length ≤ s.record.store.capacity then
        ((), .ok (), ⟨next,
          if next.seed ≠ s.record.value.seed then
            ((s.record.store.save FlashStore.noFaults (RecordCodec.toBytes next)).2.scrub
              FlashStore.noFaults).2
          else (s.record.store.save FlashStore.noFaults (RecordCodec.toBytes next)).2,
          recordCodec⟩)
      else
        ((), .error (.store (.blobTooLarge (RecordCodec.toBytes next).length
          s.record.store.capacity)), s.record) := by
  have hwritten := mutate_flash hcodec fun _ => ((), next)
  dsimp only at hwritten
  unfold write Persisted.mutateSealed
  rw [hwritten]
  by_cases hfit : (RecordCodec.toBytes next).length ≤ s.record.store.capacity
  · rw [if_pos hfit, if_pos hfit]
    by_cases hrotates : next.seed ≠ s.record.value.seed
    · rw [if_pos hrotates, if_pos hrotates]
      rfl
    · rw [if_neg hrotates, if_neg hrotates]
  · rw [if_neg hfit, if_neg hfit]
    split <;> rfl

theorem persist_fits (debug : FlashError → String) (hcodec : s.record.codec = recordCodec)
    {update : SettingsRecord} {next : NodeRecord}
    (hnext : apply s.record.value (s.view.merge update) = .ok next)
    (hfit : (RecordCodec.toBytes next).length ≤ s.record.store.capacity) :
    s.persist (FlashStore.flashMedium p) debug update =
      (.ok (), .new (s.write (FlashStore.flashMedium p) next).2.2) := by
  unfold persist
  rw [hnext]
  dsimp only
  have hwritten : (s.write (FlashStore.flashMedium p) next).2.1 = .ok () := by
    rw [write_flash hcodec, if_pos hfit]
  rw [hwritten]
  rfl

theorem persist_flash (debug : FlashError → String) (hcodec : s.record.codec = recordCodec)
    (update : SettingsRecord) :
    (∃ next, apply s.record.value (s.view.merge update) = .ok next ∧
        (RecordCodec.toBytes next).length ≤ s.record.store.capacity ∧
        s.persist (FlashStore.flashMedium p) debug update =
          (.ok (), .new (s.write (FlashStore.flashMedium p) next).2.2)) ∨
      ∃ e, s.persist (FlashStore.flashMedium p) debug update = (.error e, s) := by
  cases hnext : apply s.record.value (s.view.merge update) with
  | error e =>
    refine Or.inr ⟨e, ?_⟩
    unfold persist
    rw [hnext]
  | ok next =>
    by_cases hfit : (RecordCodec.toBytes next).length ≤ s.record.store.capacity
    · exact Or.inl ⟨next, rfl, hfit, persist_fits debug hcodec hnext hfit⟩
    · refine Or.inr ?_
      unfold persist
      rw [hnext]
      dsimp only
      rw [write_flash hcodec, if_neg hfit]
      exact ⟨_, rfl⟩

theorem sealed_write (hcodec : s.record.codec = recordCodec) {next : NodeRecord}
    (hfit : (RecordCodec.toBytes next).length ≤ s.record.store.capacity)
    (hsealed : next.seed = s.record.value.seed → s.record.store.Sealed s.record.value.seed)
    (hgen : next.seed ≠ s.record.value.seed →
      ∀ idx r, s.record.store.newestRecord = some (idx, r) → r.1 ≠ BitVec.allOnes 32) :
    Clean (.record (.new (s.write (FlashStore.flashMedium p) next).2.2)) := by
  rw [write_flash hcodec, if_pos hfit]
  refine ⟨_, rfl, rfl, ?_⟩
  unfold RecordSettings.new
  dsimp only
  by_cases hrotates : next.seed ≠ s.record.value.seed
  · rw [if_pos hrotates]
    exact FlashStore.sealed_scrub_save rfl hfit (hgen hrotates)
  · rw [if_neg hrotates]
    have hkept := not_not.mp hrotates
    rw [hkept]
    exact (hsealed hkept).save hkept hfit

end Calls

/-! ### Runs -/

section Runs
variable {debug : FlashError → String} {b : FlashBoard p} {op : FlashBoardOp}

def Wired : FlashBoard p → Prop
  | .record s => s.record.codec = recordCodec
  | .null _ => True

theorem mintRecord_codec {S E : Type} {d : ErasableStore S E} {store : S} {seed : Octets seedLen}
    {how how' : Provisioned} {x : LoadedRecord S}
    (h : (mintRecord d store seed how).1 = .ok (x, how')) : x.codec = recordCodec := by
  have hencode : recordCodec.encode (.fresh seed) = .ok (RecordCodec.toBytes (.fresh seed)) := rfl
  unfold mintRecord at h
  rw [hencode] at h
  dsimp only at h
  split at h
  · cases h
  · obtain ⟨rfl, _⟩ := Prod.mk.inj (Except.ok.inj h)
    rfl

theorem loadOrInitRecord_codec {S E : Type} {d : ErasableStore S E} {store : S}
    {seed : Octets seedLen} {readBuf : Nat} {how : Provisioned} {x : LoadedRecord S}
    (h : (loadOrInitRecord d store seed readBuf).1 = .ok (x, how)) : x.codec = recordCodec := by
  unfold loadOrInitRecord at h
  split at h
  · cases h
  · exact mintRecord_codec h
  · split at h
    · obtain ⟨rfl, _⟩ := Prod.mk.inj (Except.ok.inj h)
      rfl
    · exact mintRecord_codec h
    · cases h

theorem wired_boot (flash : FlashStore p) (mintSeed : Octets seedLen) :
    (boot flash mintSeed).Wired := by
  unfold boot NodeStore.resolve
  split
  · rename_i record how left hboot
    have hcodec : record.codec = recordCodec := by
      apply loadOrInitRecord_codec
      rw [hboot]
    exact hcodec
  · trivial

theorem checkpoint_flash {s : RecordSettings (FlashStore p)} (hcodec : s.record.codec = recordCodec)
    (unix : BitVec 64) :
    (s.checkpoint (FlashStore.flashMedium p) debug unix).2 =
      if (RecordCodec.toBytes (stamp unix s.record.value).2).length ≤ s.record.store.capacity then
        ⟨⟨(stamp unix s.record.value).2, (s.record.store.save FlashStore.noFaults
          (RecordCodec.toBytes (stamp unix s.record.value).2)).2, recordCodec⟩, s.view⟩
      else s := by
  rw [checkpoint_eq]
  dsimp only
  rw [mutate_flash hcodec]
  split <;> rfl

theorem Wired.step (h : b.Wired) (op : FlashBoardOp) : (b.step debug op).Wired := by
  cases op with
  | reload mintSeed => exact wired_boot _ _
  | call op =>
    cases b with
    | null flash => trivial
    | record s =>
      have hcodec : s.record.codec = recordCodec := h
      cases op with
      | checkpoint unix =>
        rw [step_checkpoint, checkpoint_flash hcodec]
        split
        · exact rfl
        · exact hcodec
      | persist update =>
        rw [step_persist]
        obtain ⟨next, _, hfit, hpersist⟩ | ⟨e, hpersist⟩ :=
          persist_flash debug hcodec update
        · rw [hpersist, write_flash hcodec, if_pos hfit]
          exact rfl
        · rw [hpersist]
          exact hcodec

/-- After a persist that replaced the seed, the flash is clean. -/
theorem Rotates.clean (h : Rotates debug b op) (hwired : b.Wired) (hgrows : b.Grows op) :
    Clean (b.step debug op) := by
  cases h with
  | persist s update next hreplaces hok =>
    have hcodec : s.record.codec = recordCodec := hwired
    have houtcome : (s.persist (FlashStore.flashMedium p) debug update).1 = .ok () := hok
    rw [step_persist]
    obtain ⟨next', hnext', hfit, hpersist⟩ | ⟨e, hpersist⟩ :=
      persist_flash debug hcodec update
    · obtain rfl : next = next' := by
        have hsame := hreplaces.1
        rw [hnext'] at hsame
        exact (Except.ok.inj hsame).symm
      rw [hpersist]
      exact sealed_write hcodec hfit (fun hkept => absurd hkept hreplaces.2)
        (fun _ => hgrows next hreplaces hfit)
    · rw [hpersist] at houtcome
      cases houtcome

theorem boot_stored {flash : FlashStore p} {r : NodeRecord}
    (h : flash.stored = some (RecordCodec.toBytes r)) (mintSeed : Octets seedLen) :
    boot flash mintSeed = .record (.new ⟨r, flash, recordCodec⟩) := by
  have hlong : ¬ recordReadBufLen < (RecordCodec.toBytes r).length := by
    have hmax := RecordCodec.length_toBytes_le r
    unfold recordReadBufLen
    omega
  have hload : (FlashStore.flashMedium p).load flash recordReadBufLen =
      .ok (some (RecordCodec.toBytes r)) := by
    have heq : (FlashStore.flashMedium p).load flash recordReadBufLen =
        flash.load recordReadBufLen := rfl
    rw [heq, FlashStore.load_eq, h]
    exact if_neg hlong
  have hread : recordCodec.decode (RecordCodec.toBytes r) = .ok r := RecordCodec.decode_toBytes r
  unfold boot NodeStore.resolve loadOrInitRecord
  rw [hload]
  dsimp only
  rw [hread]

theorem boot_empty {flash : FlashStore p} (h : flash.stored = none) (mintSeed : Octets seedLen)
    (hfit : (RecordCodec.toBytes (.fresh mintSeed)).length ≤ flash.capacity) :
    boot flash mintSeed = .record (.new ⟨.fresh mintSeed,
      (flash.save FlashStore.noFaults (RecordCodec.toBytes (.fresh mintSeed))).2,
      recordCodec⟩) := by
  have hload : (FlashStore.flashMedium p).load flash recordReadBufLen = .ok none := by
    have heq : (FlashStore.flashMedium p).load flash recordReadBufLen =
        flash.load recordReadBufLen := rfl
    rw [heq, FlashStore.load_eq, h]
  have hencode : recordCodec.encode (.fresh mintSeed) =
      .ok (RecordCodec.toBytes (.fresh mintSeed)) := rfl
  have hmedium : ∀ data, (FlashStore.flashMedium p).toDurableStore.save flash data =
      flash.save FlashStore.noFaults data := fun _ => rfl
  have hok := FlashStore.save_ok hfit
  unfold boot NodeStore.resolve loadOrInitRecord mintRecord
  rw [hload, hencode]
  dsimp only
  rw [hmedium]
  cases hsave : flash.save FlashStore.noFaults (RecordCodec.toBytes (.fresh mintSeed)) with
  | mk outcome left =>
    rw [hsave] at hok
    obtain rfl : outcome = .ok () := hok
    rfl

theorem Clean.step (h : Clean b) (hgrows : b.Grows op) : Clean (b.step debug op) := by
  obtain ⟨s, rfl, hcodec, hsealed⟩ := h
  cases op with
  | reload mintSeed =>
    obtain ⟨r, hseed, hstored⟩ := hsealed.stored
    have hstep : step debug (.record s) (.reload mintSeed) = boot s.record.store mintSeed := rfl
    rw [hstep, boot_stored hstored]
    refine ⟨_, rfl, rfl, ?_⟩
    have hsame : (RecordSettings.new ⟨r, s.record.store, recordCodec⟩).record.value.seed =
        s.record.value.seed := hseed
    rw [hsame]
    exact hsealed
  | call op =>
    cases op with
    | checkpoint unix =>
      rw [step_checkpoint, checkpoint_flash hcodec]
      split
      · rename_i hfit
        exact ⟨_, rfl, rfl, hsealed.save rfl hfit⟩
      · exact ⟨s, rfl, hcodec, hsealed⟩
    | persist update =>
      rw [step_persist]
      obtain ⟨next, hnext, hfit, hpersist⟩ | ⟨e, hpersist⟩ :=
        persist_flash debug hcodec update
      · rw [hpersist]
        exact sealed_write hcodec hfit (fun _ => hsealed)
          (fun hrotates => hgrows next ⟨hnext, hrotates⟩ hfit)
      · rw [hpersist]
        exact ⟨s, rfl, hcodec, hsealed⟩

theorem wired_run (flash : FlashStore p) (ops : List FlashBoardOp) :
    (Run.run (step debug) (.null flash) ops).Wired :=
  Run.invariant trivial fun _ op h => h.step op

theorem clean_run {ops : List FlashBoardOp} (h : Clean b)
    (hgrows : Run.AllSafe (step debug) Grows b ops) : Clean (Run.run (step debug) b ops) := by
  induction ops generalizing b with
  | nil => exact h
  | cons op ops ih =>
    obtain ⟨hop, hrest⟩ := Run.allSafe_cons.mp hgrows
    exact ih (h.step hop) hrest

/-- Whatever the flash held, once a persist has replaced the seed there is nothing in either
page but erased cells and records under the seed of the record the board runs with, and no
later persist, checkpoint or reload changes that: as long as no record that replaces a seed
is saved over the last generation. -/
theorem superseded_unreadable (debug : FlashError → String) (flash : FlashStore p)
    (before : List FlashBoardOp) (op : FlashBoardOp) (after : List FlashBoardOp)
    (hgrows : Run.AllSafe (step debug) Grows (.null flash) (before ++ op :: after))
    (hrotates : Rotates debug (Run.run (step debug) (.null flash) before) op) :
    Clean (Run.run (step debug) (.null flash) (before ++ op :: after)) := by
  have hrest := hgrows.after
  obtain ⟨hop, hafter⟩ := Run.allSafe_cons.mp hrest
  have hclean := hrotates.clean (wired_run flash before) hop
  have hrun : Run.run (step debug) (.null flash) (before ++ op :: after) =
      Run.run (step debug) (step debug (Run.run (step debug) (.null flash) before) op) after := by
    rw [Run.run_append]
    rfl
  rw [hrun]
  exact clean_run hclean hafter

end Runs

/-! ### A board that is given another identity -/

def rotation : SettingsRecord := ⟨⟨some secondIdentity, none⟩, none, none⟩

def rotated : NodeRecord where
  seed := secondSeed
  checkpointUnix := 0
  cert := some (.zero MembershipCert.size)
  trustAnchor := some (.zero trustAnchorLen)
  selfRevocation := none
  renewalProviderKey := some (.zero seedLen)
  requireAuth := none
  lazyCertDistribution := none

theorem apply_rotation :
    apply (.fresh firstSeed) ((project (.fresh firstSeed)).merge rotation) = .ok rotated := by
  decide +kernel

theorem secondSeed_ne : secondSeed ≠ firstSeed := by
  decide

def minted (flash : FlashStore p) : RecordSettings (FlashStore p) :=
  .new ⟨.fresh firstSeed, flash, recordCodec⟩

/-- Its flash once it has another. -/
def reseeded (flash : FlashStore p) : FlashStore p :=
  ((flash.save FlashStore.noFaults (RecordCodec.toBytes rotated)).2.scrub FlashStore.noFaults).2

section Rotation
variable (debug : FlashError → String) {flash : FlashStore p}
  (hroom : maxRecordLen ≤ p.eraseSize - headerLen)
include hroom

theorem fits_page (flash : FlashStore p) (r : NodeRecord) :
    (RecordCodec.toBytes r).length ≤ flash.capacity :=
  Nat.le_trans (RecordCodec.length_toBytes_le r) hroom

theorem persist_rotation (flash : FlashStore p) :
    (minted flash).persist (FlashStore.flashMedium p) debug rotation =
      (.ok (), .new ⟨rotated, reseeded flash, recordCodec⟩) := by
  have hfit := fits_page hroom (minted flash).record.store rotated
  have hseed : rotated.seed ≠ (minted flash).record.value.seed := secondSeed_ne
  have hpersist := @persist_fits p (minted flash) debug rfl rotation rotated apply_rotation hfit
  rw [hpersist, write_flash rfl, if_pos hfit, if_pos hseed]
  rfl

theorem rotates_rotation (flash : FlashStore p) :
    Rotates debug (.record (minted flash)) (.call (.persist rotation)) := by
  apply Rotates.persist (minted flash) rotation rotated ⟨apply_rotation, secondSeed_ne⟩
  rw [perform_persist, persist_rotation debug hroom]

theorem step_rotation (flash : FlashStore p) :
    step debug (.record (minted flash)) (.call (.persist rotation)) =
      .record (.new ⟨rotated, reseeded flash, recordCodec⟩) := by
  rw [step_persist, persist_rotation debug hroom]

/-- The first boot of a board writes the first generation. -/
theorem grows_rotation (h : flash.newestRecord = none) :
    Grows (boot flash firstSeed) (.call (.persist rotation)) := by
  have hfit := fits_page hroom flash (.fresh firstSeed)
  have hnone : flash.stored = none := Option.map_eq_none_iff.mpr h
  rw [boot_empty hnone firstSeed hfit]
  intro next _ _ idx r hnewest
  have hsaved := FlashStore.newestRecord_save hfit (fun idx r hr => by
    rw [h] at hr
    cases hr)
  have hgen : flash.saveTarget.2 = 0 := by
    rw [FlashStore.saveTarget_eq, h]
  have hsame := Option.some.inj (hsaved.symm.trans hnewest)
  rw [hgen] at hsame
  rw [← (Prod.mk.inj hsame).2]
  decide

theorem clean_rotation (h : flash.newestRecord = none) :
    Run.AllSafe (step debug) Grows (.null flash)
        ([.reload firstSeed] ++ .call (.persist rotation) :: [.call (.checkpoint 7)]) ∧
      Rotates debug (Run.run (step debug) (.null flash) [.reload firstSeed])
        (.call (.persist rotation)) := by
  have hnone : flash.stored = none := Option.map_eq_none_iff.mpr h
  have hboot := boot_empty hnone firstSeed (fits_page hroom flash (.fresh firstSeed))
  refine ⟨?_, ?_⟩
  · refine Run.allSafe_cons.mpr ⟨trivial, Run.allSafe_cons.mpr ⟨grows_rotation hroom h, ?_⟩⟩
    refine Run.allSafe_cons.mpr ⟨?_, Run.allSafe_nil⟩
    have hother : ∀ b : FlashBoard p, b.Grows (.call (.checkpoint 7)) := by
      intro b
      cases b <;> trivial
    exact hother _
  · have hrun : Run.run (step debug) (.null flash) [.reload firstSeed] = boot flash firstSeed := rfl
    rw [hrun, hboot]
    exact rotates_rotation debug hroom _

/-- Over the last generation the save loses to the record it replaces, and the scrub keeps
the winner. -/
theorem stored_reseeded
    (h : flash.Holds (2 ^ 32) (some (RecordCodec.toBytes (.fresh firstSeed)))) :
    (reseeded flash).stored = some (RecordCodec.toBytes (.fresh firstSeed)) :=
  FlashStore.stored_scrub (FlashStore.stored_save_wraps h (fits_page hroom flash rotated))

theorem outlives_rotation
    (h : flash.Holds (2 ^ 32) (some (RecordCodec.toBytes (.fresh firstSeed)))) :
    Rotates debug (Run.run (step debug) (.null flash) [.reload firstSeed])
        (.call (.persist rotation)) ∧
      ∃ s, Run.run (step debug) (.null flash) [.reload firstSeed, .call (.persist rotation)] =
          .record s ∧
        s.record.value.seed = secondSeed ∧
        s.record.store.stored = some (RecordCodec.toBytes (.fresh firstSeed)) ∧
        ∃ idx, (idx = 0 ∨ idx = 1) ∧ ¬ s.record.store.HoldsOnly secondSeed idx := by
  have hboot : Run.run (step debug) (.null flash) [.reload firstSeed] = .record (minted flash) :=
    boot_stored h.newestRecord firstSeed
  have hstored := stored_reseeded hroom h
  refine ⟨?_, .new ⟨rotated, reseeded flash, recordCodec⟩, ?_, rfl, hstored, ?_⟩
  · rw [hboot]
    exact rotates_rotation debug hroom flash
  · have hrun : Run.run (step debug) (.null flash)
        [.reload firstSeed, .call (.persist rotation)] =
        step debug (Run.run (step debug) (.null flash) [.reload firstSeed])
          (.call (.persist rotation)) := rfl
    rw [hrun, hboot]
    exact step_rotation debug hroom flash
  · obtain ⟨⟨idx, gen, data⟩, hrecord, hdata⟩ := Option.map_eq_some_iff.mp hstored
    obtain rfl : data = RecordCodec.toBytes (.fresh firstSeed) := hdata
    obtain ⟨hidx, hpage⟩ := FlashStore.newestRecord_page _ hrecord
    refine ⟨idx, hidx, ?_⟩
    intro honly
    exact secondSeed_ne (honly.seed_of_page hpage).symm

end Rotation

/-- Two pages of 4096 bytes, written by words of four. -/
def boardPlacement : Placement where
  eraseSize := 4096
  writeSize := 4
  capacity := 8192
  baseOffset := 0
  word_pos := four_word_pos
  word_le := four_le_maxWriteSize
  word_header := four_dvd_headerLen
  word_page := by decide
  addressed := by decide
  page_holds := by decide
  aligned := by decide
  inside := by decide

theorem superseded_unreadable_rotation :
    Clean (Run.run (step fun _ => "") (.null (FlashStore.fresh boardPlacement))
      ([.reload firstSeed] ++ .call (.persist rotation) :: [.call (.checkpoint 7)])) := by
  have hroom : maxRecordLen ≤ boardPlacement.eraseSize - headerLen := by decide
  have hnone : (FlashStore.fresh boardPlacement).newestRecord = none :=
    Option.map_eq_none_iff.mp FlashStore.holds_fresh.newestRecord
  obtain ⟨hgrows, hrotates⟩ := clean_rotation (fun _ => "") hroom hnone
  exact superseded_unreadable _ _ _ _ _ hgrows hrotates

/-- A record saved 2³² times is found at boot and replaced by one under another seed, without
an error. It is what the flash still holds, and the other record is not there at all. -/
theorem seed_outlives_rotation :
    Rotates (fun _ => "") (Run.run (step fun _ => "") (.null ((FlashStore.fresh boardPlacement).run
        (List.replicate (2 ^ 32) (.save (RecordCodec.toBytes (.fresh firstSeed))))))
        [.reload firstSeed]) (.call (.persist rotation)) ∧
      ∃ s, Run.run (step fun _ => "") (.null ((FlashStore.fresh boardPlacement).run
          (List.replicate (2 ^ 32) (.save (RecordCodec.toBytes (.fresh firstSeed))))))
          [.reload firstSeed, .call (.persist rotation)] = .record s ∧
        s.record.value.seed = secondSeed ∧
        s.record.store.stored = some (RecordCodec.toBytes (.fresh firstSeed)) ∧
        ∃ idx, (idx = 0 ∨ idx = 1) ∧ ¬ s.record.store.HoldsOnly secondSeed idx := by
  have hroom : maxRecordLen ≤ boardPlacement.eraseSize - headerLen := by decide
  have hfit : (RecordCodec.toBytes (.fresh firstSeed)).length ≤
      boardPlacement.eraseSize - headerLen :=
    Nat.le_trans (RecordCodec.length_toBytes_le (.fresh firstSeed)) hroom
  have hholds := @FlashStore.holds_replicate _ _ hfit (2 ^ 32) (Nat.two_pow_pos 32) (Nat.le_refl _)
  generalize List.replicate (2 ^ 32)
    (StoreOp.save (RecordCodec.toBytes (.fresh firstSeed))) = ops at hholds ⊢
  exact outlives_rotation _ hroom hholds

end FlashBoard

end Wayfinder

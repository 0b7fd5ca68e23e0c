import Wayfinder.Lib.Run
import Wayfinder.Storage.Pages

/-!
# The store as a register

Without faults the store holds the blob last saved since it was last erased, for as long
as its generations grow. They are 32 bits wide and compared as plain integers: the save
that follows generation 2³² - 1 writes generation 0, which never wins over it.
-/

namespace Wayfinder

set_option autoImplicit false

open NorFlash

inductive StoreOp where
  | save (data : Bytes)
  | scrub
  | load (outLen : Nat)
  | erase
  deriving Repr

namespace FlashStore

variable {p : Placement}

def noFaults : Nat → Bool := fun _ => false

def step (s : FlashStore p) : StoreOp → FlashStore p
  | .save data => (s.save noFaults data).2
  | .scrub => (s.scrub noFaults).2
  | .load _ => s
  | .erase => (s.erase noFaults).2

/-- Flash as it leaves the factory. -/
def fresh (p : Placement) : FlashStore p := ⟨fun _ => erased⟩

def run (s : FlashStore p) (ops : List StoreOp) : FlashStore p := Run.run step s ops

/-! ### The register, and how often it was written -/

def registerStep (p : Placement) (blob : Option Bytes) : StoreOp → Option Bytes
  | .save data => if p.eraseSize - headerLen < data.length then blob else some data
  | .erase => none
  | .scrub | .load _ => blob

/-- The blob of the last save that fits, since the last erase. -/
def register (p : Placement) (ops : List StoreOp) : Option Bytes :=
  ops.foldl (registerStep p) none

def countStep (p : Placement) (n : Nat) : StoreOp → Nat
  | .save data => if p.eraseSize - headerLen < data.length then n else n + 1
  | .erase => 0
  | .scrub | .load _ => n

/-- The number of saves that fit, since the last erase. -/
def saves (p : Placement) (ops : List StoreOp) : Nat := ops.foldl (countStep p) 0

/-! ### Erasing pages -/

section Erasing
variable {s : FlashStore p}

theorem blankStream_iff (m : Cells) (fuel remaining offset : Nat) (h : remaining ≤ fuel) :
    blankStream m fuel remaining offset = true ↔ m.Blank offset (offset + remaining) := by
  induction fuel generalizing remaining offset with
  | zero =>
    obtain rfl : remaining = 0 := Nat.le_zero.mp h
    exact iff_of_true rfl fun a hlo hhi => absurd hhi (by omega)
  | succ fuel ih =>
    have hchunk : 0 < crcChunk := by decide
    unfold blankStream
    split
    · rename_i hzero
      exact iff_of_true rfl fun a hlo hhi => absurd hhi (by omega)
    · rename_i hsome
      dsimp only
      split
      · rename_i hany
        refine iff_of_false nofun ?_
        intro hblank
        obtain ⟨b, hb, hne⟩ := List.any_eq_true.mp hany
        obtain ⟨i, hi, rfl⟩ := List.mem_map.mp hb
        have hlt := List.mem_range.mp hi
        exact of_decide_eq_true hne (hblank (offset + i) (by omega) (by omega))
      · rename_i hany
        rw [ih _ _ (by omega)]
        constructor
        · intro hblank a hlo hhi
          by_cases ha : a < offset + min remaining crcChunk
          · by_contra hne
            apply hany
            apply List.any_eq_true.mpr
            refine ⟨m a, ?_, decide_eq_true hne⟩
            apply List.mem_map.mpr
            refine ⟨a - offset, List.mem_range.mpr (by omega), ?_⟩
            rw [Nat.add_sub_cancel' hlo]
          · exact hblank a (by omega) (by omega)
        · intro hblank a hlo hhi
          exact hblank a (by omega) (by omega)

theorem image_of_blank {idx : Nat}
    (h : s.flash.Blank (s.pageBase idx) (s.pageBase idx + p.eraseSize)) :
    s.image idx = List.replicate p.eraseSize erased := Cells.read_blank h

theorem page_of_erased {idx : Nat} (h : s.image idx = List.replicate p.eraseSize erased) :
    s.page idx = none := by
  unfold page
  rw [h]
  exact decodePage_blank _

theorem page_of_blank {idx : Nat}
    (h : s.flash.Blank (s.pageBase idx) (s.pageBase idx + p.eraseSize)) : s.page idx = none :=
  page_of_erased (image_of_blank h)

theorem image_congr {s' : FlashStore p} {idx : Nat}
    (h : ∀ a, s.pageBase idx ≤ a → a < s.pageBase idx + p.eraseSize → s'.flash a = s.flash a) :
    s'.image idx = s.image idx := by
  unfold image
  apply Cells.read_congr
  intro i hi
  exact h _ (Nat.le_add_right _ _) (Nat.add_lt_add_left hi _)

theorem page_of_image {s' : FlashStore p} {idx : Nat} (h : s'.image idx = s.image idx) :
    s'.page idx = s.page idx := by
  unfold page
  rw [h]

/-- Erasing a page that is written leaves nothing in it, whatever the other page has become
meanwhile. -/
theorem image_erasePageIfWritten {m : Cells} {idx : Nat}
    (hsame : ∀ a, s.pageBase idx ≤ a → a < s.pageBase idx + p.eraseSize → m a = s.flash a) :
    image (⟨(s.erasePageIfWritten idx).foldl Call.run m⟩ : FlashStore p) idx =
      List.replicate p.eraseSize erased := by
  apply image_of_blank
  unfold erasePageIfWritten
  by_cases hblank : s.pageIsBlank idx = true
  · rw [if_pos hblank]
    intro a hlo hhi
    have hall := (blankStream_iff _ _ _ _ (Nat.le_refl _)).mp hblank
    exact (hsame a hlo hhi).trans (hall a hlo hhi)
  · rw [if_neg hblank]
    exact Cells.blank_erase _ _

theorem erasePageIfWritten_outside {m : Cells} {idx a : Nat}
    (h : ¬ (s.pageBase idx ≤ a ∧ a < s.pageBase idx + p.eraseSize)) :
    (s.erasePageIfWritten idx).foldl Call.run m a = m a := by
  unfold erasePageIfWritten
  split
  · rfl
  · exact Cells.erase_outside h

theorem pageBase_zero : s.pageBase 0 + p.eraseSize = s.pageBase 1 := by
  unfold pageBase
  omega

theorem make_noFaults (calls : List Call) :
    (s.make noFaults calls).2 = ⟨calls.foldl Call.run s.flash⟩ := by
  unfold make noFaults
  rw [perform_none]

/-- Making the calls of `erase`, both pages are erased. -/
theorem image_erase (idx : Nat) (hidx : idx = 0 ∨ idx = 1) :
    (s.erase noFaults).2.image idx = List.replicate p.eraseSize erased := by
  have hbase := pageBase_zero (s := s)
  unfold erase eraseCalls
  rw [make_noFaults, List.foldl_append]
  rcases hidx with rfl | rfl
  · have hzero : image (⟨(s.erasePageIfWritten 0).foldl Call.run s.flash⟩ : FlashStore p) 0 =
        List.replicate p.eraseSize erased := image_erasePageIfWritten fun _ _ _ => rfl
    refine Eq.trans ?_ hzero
    apply image_congr
    intro a hlo hhi
    apply erasePageIfWritten_outside
    intro h
    exact absurd (Nat.lt_of_lt_of_le hhi (Nat.le_of_eq hbase)) (Nat.not_lt.mpr h.1)
  · apply image_erasePageIfWritten
    intro a hlo hhi
    apply erasePageIfWritten_outside
    omega

theorem page_erase (idx : Nat) (hidx : idx = 0 ∨ idx = 1) : (s.erase noFaults).2.page idx = none :=
  page_of_erased (image_erase idx hidx)

/-- A scrub keeps the page in use and erases the other. -/
theorem image_scrub {idx : Nat} {r : FlashRecord} (h : s.newestRecord = some (idx, r)) :
    (s.scrub noFaults).2.image idx = s.image idx ∧
      (s.scrub noFaults).2.image (idx ^^^ 1) = List.replicate p.eraseSize erased := by
  have hbase := pageBase_zero (s := s)
  obtain ⟨hidx, _⟩ := s.newestRecord_page h
  have hkeep : s.newestValid.map Prod.fst = some idx := by
    rw [newestValid_eq, h]
    rfl
  unfold scrub scrubCalls
  rw [hkeep, make_noFaults]
  dsimp only
  rcases hidx with rfl | rfl
  · rw [if_neg (by decide), if_pos (by decide), List.nil_append]
    refine ⟨?_, image_erasePageIfWritten fun _ _ _ => rfl⟩
    apply image_congr
    intro a hlo hhi
    apply erasePageIfWritten_outside
    omega
  · rw [if_pos (by decide), if_neg (by decide), List.append_nil]
    refine ⟨?_, image_erasePageIfWritten fun _ _ _ => rfl⟩
    apply image_congr
    intro a hlo hhi
    apply erasePageIfWritten_outside
    omega

theorem page_scrub {idx : Nat} {r : FlashRecord} (h : s.newestRecord = some (idx, r)) :
    (s.scrub noFaults).2.page idx = some r ∧ (s.scrub noFaults).2.page (idx ^^^ 1) = none := by
  obtain ⟨hkept, herased⟩ := image_scrub h
  exact ⟨(page_of_image hkept).trans (s.newestRecord_page h).2, page_of_erased herased⟩

/-- With no record, both pages are stale. -/
theorem page_scrub_none (h : s.newestRecord = none) (idx : Nat) (hidx : idx = 0 ∨ idx = 1) :
    (s.scrub noFaults).2.page idx = none := by
  have hcalls : s.scrubCalls = s.eraseCalls := by
    unfold scrubCalls eraseCalls
    rw [newestValid_eq, h, Option.map_none, Option.map_none]
    dsimp only
    rw [if_pos nofun, if_pos nofun]
  have hsame : (s.scrub noFaults).2 = (s.erase noFaults).2 := by
    unfold scrub erase
    rw [hcalls]
  rw [hsame]
  exact page_erase idx hidx

end Erasing

/-! ### Saving -/

section Saving
variable {s : FlashStore p} {data : Bytes}

theorem save_noFaults (hfit : data.length ≤ s.capacity) :
    (s.save noFaults data).2 = s.programmed data (s.saveImage data).length := by
  unfold save
  rw [if_neg (Nat.not_lt.mpr hfit), make_noFaults, foldl_saveCalls]

/-- A page that a save has written. -/
def savedPage (p : Placement) (gen : U32) (data : Bytes) : Bytes :=
  headerBytes gen data ++ (data ++ List.replicate (p.eraseSize - headerLen - data.length) erased)

theorem image_save (hfit : data.length ≤ s.capacity) :
    (s.save noFaults data).2.image s.saveTarget.1 = savedPage p s.saveTarget.2 data ∧
      (s.save noFaults data).2.image (s.saveTarget.1 ^^^ 1) = s.image (s.saveTarget.1 ^^^ 1) := by
  have hlong : (s.saveImage data).length = headerLen + ((s.saveImage data).length - headerLen) := by
    unfold saveImage
    rw [List.length_append, length_headerBytes]
    omega
  have hall : data.length ≤ (s.saveImage data).length - headerLen := by
    unfold saveImage
    rw [List.length_append, length_headerBytes, List.length_append]
    omega
  rw [save_noFaults hfit]
  refine ⟨?_, image_other_congr (programmed_outside _ hfit)⟩
  rw [image_programmed _ hfit, hlong, page_of_header _ hfit, tornPayload_of_le hall]
  rfl

theorem decodePage_savedPage {gen : U32} (hfit : data.length ≤ p.eraseSize - headerLen) :
    decodePage (savedPage p gen data) = some (gen, data) := by
  have hsize := eraseSize_le (p := p)
  unfold savedPage
  rw [decodePage_header rfl (by omega), if_pos rfl]

theorem page_save (hfit : data.length ≤ s.capacity) :
    (s.save noFaults data).2.page s.saveTarget.1 = some (s.saveTarget.2, data) ∧
      (s.save noFaults data).2.page (s.saveTarget.1 ^^^ 1) = s.page (s.saveTarget.1 ^^^ 1) := by
  obtain ⟨hnew, hold⟩ := image_save hfit
  refine ⟨?_, page_of_image hold⟩
  unfold page
  rw [hnew]
  exact decodePage_savedPage hfit

theorem save_tooLarge (h : s.capacity < data.length) (fails : Nat → Bool) :
    (s.save fails data).2 = s := by
  unfold save
  rw [if_pos h]

end Saving

/-! ### The invariant -/

/-- The store after `n` saves since the last erase: none, and no record; or the newest in
some page with generation `n - 1`, and in the other page nothing or an older one. -/
inductive Holds (s : FlashStore p) : Nat → Option Bytes → Prop where
  | empty : s.page 0 = none → s.page 1 = none → Holds s 0 none
  | blob (idx n : Nat) (data : Bytes) : idx = 0 ∨ idx = 1 → n < 2 ^ 32 →
      s.page idx = some (BitVec.ofNat 32 n, data) →
      (∀ r, s.page (idx ^^^ 1) = some r → r.1.toNat < n) → Holds s (n + 1) (some data)

section Invariant
variable {s : FlashStore p} {n : Nat} {blob : Option Bytes}

theorem newestRecord_of_older {idx : Nat} {data : Bytes} (hidx : idx = 0 ∨ idx = 1)
    (hn : n < 2 ^ 32) (hpage : s.page idx = some (BitVec.ofNat 32 n, data))
    (hother : ∀ r, s.page (idx ^^^ 1) = some r → r.1.toNat < n) :
    s.newestRecord = some (idx, BitVec.ofNat 32 n, data) := by
  have hgen : (BitVec.ofNat 32 n).toNat = n := by
    rw [BitVec.toNat_ofNat, Nat.mod_eq_of_lt hn]
  unfold newestRecord
  rcases hidx with rfl | rfl
  · have hone : 0 ^^^ 1 = 1 := rfl
    rw [hone] at hother
    rw [hpage]
    cases h1 : s.page 1 with
    | none => rfl
    | some r =>
      have hlt := hother r h1
      unfold newest
      dsimp only
      rw [if_neg (by rw [BitVec.lt_def, hgen]; omega)]
  · have hzero : 1 ^^^ 1 = 0 := rfl
    rw [hzero] at hother
    rw [hpage]
    cases h0 : s.page 0 with
    | none => rfl
    | some r =>
      have hlt := hother r h0
      unfold newest
      dsimp only
      rw [if_pos (by rw [BitVec.lt_def, hgen]; exact hlt)]

theorem Holds.newestRecord (h : Holds s n blob) :
    s.newestRecord.map (fun r => r.2.2) = blob := by
  cases h with
  | empty h0 h1 =>
    unfold FlashStore.newestRecord
    rw [h0, h1]
    rfl
  | blob idx n data hidx hn hpage hother =>
    rw [newestRecord_of_older hidx hn hpage hother]
    rfl

/-- A store that holds a blob loads it. -/
theorem Holds.load (h : Holds s n blob) {outLen : Nat} (hout : s.capacity ≤ outLen) :
    s.load outLen = .ok blob := by
  rw [load_of_le s hout]
  exact congrArg Except.ok h.newestRecord

theorem Holds.save (h : Holds s n blob) (hn : n < 2 ^ 32) {data : Bytes}
    (hfit : data.length ≤ s.capacity) : Holds (s.save noFaults data).2 (n + 1) (some data) := by
  obtain ⟨hnew, hold⟩ := page_save hfit
  cases h with
  | empty h0 h1 =>
    have htarget : s.saveTarget = (0, 0) := by
      rw [saveTarget_eq]
      unfold FlashStore.newestRecord
      rw [h0, h1]
      rfl
    rw [htarget] at hnew hold
    apply Holds.blob 0 0 data (Or.inl rfl) hn hnew
    intro r hr
    have hnone : s.page (0 ^^^ 1) = none := h1
    rw [hold, hnone] at hr
    cases hr
  | blob idx n old hidx hlt hpage hother =>
    have htarget : s.saveTarget = (idx ^^^ 1, BitVec.ofNat 32 (n + 1)) := by
      rw [saveTarget_eq, newestRecord_of_older hidx hlt hpage hother]
      dsimp only
      rw [BitVec.ofNat_add]
      rfl
    have hback : idx ^^^ 1 ^^^ 1 = idx := by
      rcases hidx with rfl | rfl <;> rfl
    rw [htarget] at hnew hold
    dsimp only at hnew hold
    rw [hback, hpage] at hold
    apply Holds.blob (idx ^^^ 1) (n + 1) data _ hn hnew
    · intro r hr
      rw [hback, hold] at hr
      cases hr
      rw [BitVec.toNat_ofNat, Nat.mod_eq_of_lt hlt]
      exact Nat.lt_succ_self n
    · rcases hidx with rfl | rfl
      · exact Or.inr rfl
      · exact Or.inl rfl

theorem Holds.scrub (h : Holds s n blob) : Holds (s.scrub noFaults).2 n blob := by
  cases h with
  | empty h0 h1 =>
    have hnone : s.newestRecord = none := by
      unfold FlashStore.newestRecord
      rw [h0, h1]
      rfl
    exact .empty (page_scrub_none hnone 0 (Or.inl rfl)) (page_scrub_none hnone 1 (Or.inr rfl))
  | blob idx n data hidx hlt hpage hother =>
    obtain ⟨hkept, hcleared⟩ := page_scrub (newestRecord_of_older hidx hlt hpage hother)
    apply Holds.blob idx n data hidx hlt hkept
    intro r hr
    rw [hcleared] at hr
    cases hr

theorem Holds.step (h : Holds s n blob) (op : StoreOp) (hn : countStep p n op ≤ 2 ^ 32) :
    Holds (s.step op) (countStep p n op) (registerStep p blob op) := by
  cases op with
  | save data =>
    by_cases hlarge : p.eraseSize - headerLen < data.length
    · have hsame : s.step (.save data) = s := save_tooLarge hlarge _
      have hcount : countStep p n (.save data) = n := if_pos hlarge
      have hregister : registerStep p blob (.save data) = blob := if_pos hlarge
      rw [hsame, hcount, hregister]
      exact h
    · have hcount : countStep p n (.save data) = n + 1 := if_neg hlarge
      have hregister : registerStep p blob (.save data) = some data := if_neg hlarge
      rw [hcount] at hn ⊢
      rw [hregister]
      exact h.save hn (Nat.le_of_not_lt hlarge)
  | scrub => exact h.scrub
  | load outLen => exact h
  | erase => exact .empty (page_erase 0 (Or.inl rfl)) (page_erase 1 (Or.inr rfl))

theorem holds_fresh : Holds (fresh p) 0 none := by
  apply Holds.empty
  · apply page_of_blank
    intro a _ _
    rfl
  · apply page_of_blank
    intro a _ _
    rfl

/-- The invariant of a run, while no more than 2³² blobs are saved between two erases. -/
theorem holds_run {ops : List StoreOp} (h : ∀ pre, pre <+: ops → saves p pre ≤ 2 ^ 32) :
    Holds ((fresh p).run ops) (saves p ops) (register p ops) := by
  induction ops using List.reverseRecOn with
  | nil => exact holds_fresh
  | append_singleton ops op ih =>
    have hops := ih fun pre hpre => h pre (hpre.trans (List.prefix_append ops [op]))
    have hcount := h (ops ++ [op]) List.prefix_rfl
    unfold saves register run at *
    rw [List.foldl_append] at hcount ⊢
    rw [List.foldl_append, Run.run_append_singleton]
    exact hops.step op hcount

/-- The store is a register: after every history from erased flash in which no more than
2³² blobs are saved between two erases, `load` returns the blob last saved. -/
theorem load_run (ops : List StoreOp) (h : ∀ pre, pre <+: ops → saves p pre ≤ 2 ^ 32)
    (pre : List StoreOp) (hpre : pre <+: ops) (outLen : Nat)
    (hout : p.eraseSize - headerLen ≤ outLen) :
    ((fresh p).run pre).load outLen = .ok (register p pre) := by
  have hholds := holds_run fun pre' hpre' => h pre' (hpre'.trans hpre)
  exact hholds.load hout

end Invariant

/-! ### The generation that wraps -/

section Wrap

theorem saves_le_length (ops : List StoreOp) : saves p ops ≤ ops.length := by
  induction ops using List.reverseRecOn with
  | nil => exact Nat.le_refl 0
  | append_singleton ops op ih =>
    unfold saves at ih ⊢
    rw [List.foldl_append, List.length_append, List.foldl_cons, List.foldl_nil]
    cases op with
    | save data =>
      unfold countStep
      dsimp only
      split
      · exact Nat.le_trans ih (Nat.le_add_right _ _)
      · exact Nat.add_le_add_right ih 1
    | erase => exact Nat.zero_le _
    | scrub => exact Nat.le_trans ih (Nat.le_add_right _ _)
    | load outLen => exact Nat.le_trans ih (Nat.le_add_right _ _)

theorem load_run_twice :
    ((fresh smallPlacement).run [.save [1], .scrub, .save [2]]).load 48 = .ok (some [2]) := by
  refine load_run [.save [1], .scrub, .save [2]] ?_ _ List.prefix_rfl 48 (by decide)
  intro pre hpre
  exact Nat.le_trans (saves_le_length pre) (Nat.le_trans hpre.length_le (by decide))

/-- The save after generation 2³² - 1 changes nothing a load sees. -/
theorem stored_save_wraps {s : FlashStore p} {blob data : Bytes}
    (h : Holds s (2 ^ 32) (some blob)) (hfit : data.length ≤ s.capacity) :
    (s.save noFaults data).2.stored = some blob := by
  generalize hn : 2 ^ 32 = n at h
  cases h with
  | blob idx n old hidx hlt hpage hother =>
    obtain rfl : n = 2 ^ 32 - 1 := by omega
    have hnewest := newestRecord_of_older hidx hlt hpage hother
    have hgen : s.saveTarget.2 = 0 := by
      have hwrap : BitVec.ofNat 32 (2 ^ 32 - 1) + 1 = 0 := by decide
      rw [saveTarget_eq, hnewest]
      exact hwrap
    have hcurrent : s.current = some (BitVec.ofNat 32 (2 ^ 32 - 1), blob) := by
      unfold current
      rw [hnewest]
      rfl
    have hstored : s.stored = some blob := by
      rw [stored_eq_current, hcurrent]
      rfl
    have hworse : preferred s.saveTarget.1 (0 : U32) (some (BitVec.ofNat 32 (2 ^ 32 - 1), blob)) =
        false := by
      unfold preferred
      rcases s.saveTarget_lt with ht | ht <;> rw [ht] <;> rfl
    obtain ⟨hnew, hold⟩ := page_save hfit
    rw [s.stored_of_changed hold, hnew, hgen, hcurrent, hstored]
    dsimp only
    rw [hworse]
    rfl

section Replicate
variable {data : Bytes}

theorem saves_replicate (hfit : data.length ≤ p.eraseSize - headerLen) (n : Nat) :
    saves p (List.replicate n (.save data)) = n := by
  induction n with
  | zero => rfl
  | succ n ih =>
    unfold saves at ih ⊢
    rw [List.replicate_succ', List.foldl_append, ih]
    exact if_neg (Nat.not_lt.mpr hfit)

theorem register_replicate (hfit : data.length ≤ p.eraseSize - headerLen) (n : Nat) :
    register p (List.replicate (n + 1) (.save data)) = some data := by
  unfold register
  rw [List.replicate_succ', List.foldl_append]
  exact if_neg (Nat.not_lt.mpr hfit)

/-- The same blob saved over and over. -/
theorem holds_replicate (hfit : data.length ≤ p.eraseSize - headerLen) {n : Nat} (hpos : 0 < n)
    (h : n ≤ 2 ^ 32) :
    Holds ((fresh p).run (List.replicate n (.save data))) n (some data) := by
  obtain ⟨m, rfl⟩ := Nat.exists_eq_add_one.mpr hpos
  have hrun : Holds ((fresh p).run (List.replicate (m + 1) (.save data)))
      (saves p (List.replicate (m + 1) (.save data)))
      (register p (List.replicate (m + 1) (.save data))) := by
    apply holds_run
    intro pre hpre
    obtain ⟨hlen, _⟩ := List.prefix_replicate_iff.mp hpre
    exact Nat.le_trans (saves_le_length pre) (Nat.le_trans hlen h)
  rw [saves_replicate hfit, register_replicate hfit] at hrun
  exact hrun

end Replicate

theorem register_append (ops : List StoreOp) (data : Bytes) (h : data.length ≤ 48) :
    register smallPlacement (ops ++ [.save data]) = some data := by
  unfold register
  rw [List.foldl_append]
  exact if_neg (Nat.not_lt.mpr h)

/-- After 2³² saves of one blob, another is saved without an error and never loaded. -/
theorem load_after_wrap :
    register smallPlacement (List.replicate (2 ^ 32) (.save [1]) ++ [.save [2]]) = some [2] ∧
      ((fresh smallPlacement).run
        (List.replicate (2 ^ 32) (.save [1]) ++ [.save [2]])).load 48 = .ok (some [1]) := by
  refine ⟨register_append _ [2] (by decide), ?_⟩
  have hsmall : [(1 : U8)].length ≤ smallPlacement.eraseSize - headerLen := by decide
  have hholds := @holds_replicate _ _ hsmall (2 ^ 32) (Nat.two_pow_pos 32) (Nat.le_refl _)
  generalize List.replicate (2 ^ 32) (StoreOp.save [1]) = ops at hholds ⊢
  have hroom : [(2 : U8)].length ≤ smallPlacement.eraseSize - headerLen := by decide
  have hstored := stored_save_wraps hholds hroom
  unfold run at hstored ⊢
  have hbuffer : smallPlacement.eraseSize - headerLen ≤ 48 := by decide
  rw [Run.run_append_singleton, load_of_le _ hbuffer]
  exact congrArg Except.ok hstored

end Wrap

end FlashStore

end Wayfinder

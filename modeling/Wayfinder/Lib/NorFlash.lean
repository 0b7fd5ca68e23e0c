import Mathlib.Data.List.GetD

/-!
# NOR flash

Cells that an erase sets to ones and a write can only clear. A read is a list of bytes.
The lemmas say what a read finds after an erase and after writes that follow each other,
and that cells out of range stay as they are.
-/

namespace NorFlash

set_option autoImplicit false

/-- One byte at each address. -/
def Cells : Type := Nat → BitVec 8

def erased : BitVec 8 := 0xFF

namespace Cells

variable {m m' : Cells} {off n : Nat} {bytes : List (BitVec 8)}

def read (m : Cells) (off n : Nat) : List (BitVec 8) := (List.range n).map fun i => m (off + i)

def erase (m : Cells) (lo hi : Nat) : Cells := fun a => if lo ≤ a ∧ a < hi then erased else m a

/-- Programming only clears bits. -/
def write (m : Cells) (off : Nat) (bytes : List (BitVec 8)) : Cells := fun a =>
  if off ≤ a ∧ a < off + bytes.length then m a &&& bytes.getD (a - off) erased else m a

/-- Every cell of a range reads as erased. -/
def Blank (m : Cells) (lo hi : Nat) : Prop := ∀ a, lo ≤ a → a < hi → m a = erased

/-! ### Reading -/

@[simp] theorem length_read : (m.read off n).length = n := by
  simp [read]

@[simp] theorem read_zero : m.read off 0 = [] := rfl

theorem getElem?_read (i : Nat) : (m.read off n)[i]? = if i < n then some (m (off + i)) else none := by
  unfold read
  rw [List.getElem?_map]
  split
  · rename_i h
    rw [List.getElem?_range h]
    rfl
  · rename_i h
    rw [List.getElem?_eq_none (by rw [List.length_range]; omega)]
    rfl

theorem read_congr (h : ∀ i, i < n → m (off + i) = m' (off + i)) : m.read off n = m'.read off n := by
  apply List.map_congr_left
  intro i hi
  exact h i (List.mem_range.mp hi)

theorem read_add (k : Nat) : m.read off (n + k) = m.read off n ++ m.read (off + n) k := by
  unfold read
  rw [List.range_add, List.map_append, List.map_map]
  congr 1
  apply List.map_congr_left
  intro i _
  simp only [Function.comp_apply, Nat.add_assoc]

theorem take_read {k : Nat} (h : k ≤ n) : (m.read off n).take k = m.read off k := by
  obtain ⟨d, rfl⟩ := Nat.exists_eq_add_of_le h
  rw [read_add, List.take_left' length_read]

theorem drop_read {k : Nat} (h : k ≤ n) : (m.read off n).drop k = m.read (off + k) (n - k) := by
  obtain ⟨d, rfl⟩ := Nat.exists_eq_add_of_le h
  rw [read_add, List.drop_left' length_read, Nat.add_sub_cancel_left]

theorem read_blank (h : m.Blank off (off + n)) : m.read off n = List.replicate n erased := by
  apply List.ext_getElem?
  intro i
  rw [getElem?_read, List.getElem?_replicate]
  split
  · rename_i hi
    rw [h (off + i) (by omega) (by omega)]
  · rfl

/-! ### Erasing -/

theorem erase_outside {lo hi a : Nat} (h : ¬ (lo ≤ a ∧ a < hi)) : (m.erase lo hi) a = m a := if_neg h

theorem blank_erase (lo hi : Nat) : (m.erase lo hi).Blank lo hi :=
  fun _ hlo hhi => if_pos ⟨hlo, hhi⟩

/-! ### Writing -/

@[simp] theorem write_nil : m.write off [] = m := by
  funext a
  unfold write
  rw [if_neg]
  rw [List.length_nil]
  omega

theorem write_outside {a : Nat} (h : ¬ (off ≤ a ∧ a < off + bytes.length)) :
    (m.write off bytes) a = m a := if_neg h

theorem write_inside {a : Nat} (hlo : off ≤ a) (hhi : a < off + bytes.length)
    (hblank : m a = erased) : (m.write off bytes) a = bytes.getD (a - off) erased := by
  unfold write
  rw [if_pos ⟨hlo, hhi⟩, hblank]
  exact BitVec.allOnes_and

/-- Two writes that follow each other are one. -/
theorem write_write (more : List (BitVec 8)) :
    (m.write off bytes).write (off + bytes.length) more = m.write off (bytes ++ more) := by
  funext a
  unfold write
  rw [List.length_append]
  by_cases hfirst : off ≤ a ∧ a < off + bytes.length
  · rw [if_neg (by omega), if_pos hfirst, if_pos (by omega),
      List.getD_append _ _ _ _ (by omega)]
  · by_cases hsecond : off + bytes.length ≤ a ∧ a < off + bytes.length + more.length
    · rw [if_pos hsecond, if_neg hfirst, if_pos (by omega),
        List.getD_append_right _ _ _ _ (by omega), Nat.sub_sub]
    · rw [if_neg hsecond, if_neg hfirst, if_neg (by omega)]

/-- What is written to blank cells is read back, and behind it they are blank. -/
theorem read_write (hblank : m.Blank off (off + n)) (h : bytes.length ≤ n) :
    (m.write off bytes).read off n = bytes ++ List.replicate (n - bytes.length) erased := by
  apply List.ext_getElem?
  intro i
  rw [getElem?_read]
  by_cases hi : i < bytes.length
  · rw [if_pos (by omega), write_inside (by omega) (by omega) (hblank _ (by omega) (by omega)),
      List.getElem?_append_left hi, Nat.add_sub_cancel_left, List.getD_eq_getElem?_getD,
      List.getElem?_eq_getElem hi]
    rfl
  · rw [List.getElem?_append_right (by omega), List.getElem?_replicate, write_outside (by omega)]
    split
    · rename_i hin
      rw [hblank _ (by omega) (by omega), if_pos (by omega)]
    · rw [if_neg (by omega)]

end Cells

/-! ### Losing power -/

inductive Call where
  | erase (lo hi : Nat)
  | write (off : Nat) (bytes : List (BitVec 8))

namespace Call

def run (m : Cells) : Call → Cells
  | .erase lo hi => m.erase lo hi
  | .write off bytes => m.write off bytes

/-- What a call cut short can leave: an erase, any of its cells already set; a write, a
prefix of its words programmed. -/
inductive Interrupted (wordSize : Nat) (m : Cells) : Call → Cells → Prop where
  | erase (lo hi : Nat) (left : Cells) :
      (∀ a, ¬ (lo ≤ a ∧ a < hi) → left a = m a) → (∀ a, m a &&& left a = m a) →
      Interrupted wordSize m (.erase lo hi) left
  | write (off : Nat) (bytes : List (BitVec 8)) (words : Nat) :
      Interrupted wordSize m (.write off bytes) (m.write off (bytes.take (words * wordSize)))

end Call

/-- Chunks written one behind the other. -/
def writesFrom (off : Nat) : List (List (BitVec 8)) → List Call
  | [] => []
  | b :: bs => .write off b :: writesFrom (off + b.length) bs

section Chunks
variable (off : Nat) (chunks : List (List (BitVec 8)))

theorem foldl_writesFrom (m : Cells) :
    (writesFrom off chunks).foldl Call.run m = m.write off chunks.flatten := by
  induction chunks generalizing off m with
  | nil => exact Cells.write_nil.symm
  | cons b bs ih =>
    rw [writesFrom, List.foldl_cons, ih, List.flatten_cons, ← Cells.write_write]
    rfl

theorem take_writesFrom (k : Nat) :
    (writesFrom off chunks).take k = writesFrom off (chunks.take k) := by
  induction chunks generalizing off k with
  | nil => rw [List.take_nil, writesFrom, List.take_nil]
  | cons b bs ih =>
    cases k with
    | zero => rfl
    | succ k => rw [List.take_succ_cons, writesFrom, writesFrom, List.take_succ_cons, ih]

theorem getElem?_writesFrom (k : Nat) :
    (writesFrom off chunks)[k]? =
      chunks[k]?.map fun b => Call.write (off + (chunks.take k).flatten.length) b := by
  induction chunks generalizing off k with
  | nil => rfl
  | cons b bs ih =>
    cases k with
    | zero => rfl
    | succ k =>
      rw [writesFrom, List.getElem?_cons_succ, ih, List.getElem?_cons_succ, List.take_succ_cons,
        List.flatten_cons, List.length_append, Nat.add_assoc]

theorem length_writesFrom : (writesFrom off chunks).length = chunks.length := by
  induction chunks generalizing off with
  | nil => rfl
  | cons b bs ih => rw [writesFrom, List.length_cons, ih, List.length_cons]

/-- The chunk behind the first `k` continues them. -/
theorem flatten_take_append {k : Nat} {b : List (BitVec 8)} (h : chunks[k]? = some b) (n : Nat) :
    (chunks.take k).flatten ++ b.take n =
      chunks.flatten.take ((chunks.take k).flatten.length + min n b.length) := by
  obtain ⟨hk, rfl⟩ := List.getElem?_eq_some_iff.mp h
  have hsplit : chunks.flatten =
      (chunks.take k).flatten ++ (chunks[k] ++ (chunks.drop (k + 1)).flatten) := by
    rw [← List.flatten_cons, ← List.flatten_append, ← List.drop_eq_getElem_cons hk,
      List.take_append_drop]
  rw [hsplit, List.take_length_add_append, List.take_append_of_le_length (Nat.min_le_right _ _),
    ← List.take_take, List.take_length]

end Chunks

/-- The calls of an operation, in turn; the first that fails ends it and changes nothing. -/
def perform (fails : Nat → Bool) : Nat → List Call → Cells → Bool × Cells
  | _, [], m => (true, m)
  | i, c :: cs, m => if fails i then (false, m) else perform fails (i + 1) cs (c.run m)

theorem perform_none (calls : List Call) (i : Nat) (m : Cells) :
    perform (fun _ => false) i calls m = (true, calls.foldl Call.run m) := by
  induction calls generalizing i m with
  | nil => rfl
  | cons c calls ih => exact ih (i + 1) (c.run m)

/-- With one call failing, the ones before it have been made. -/
theorem perform_one (calls : List Call) (i k : Nat) (m : Cells) :
    perform (fun j => j = i + k) i calls m =
      if k < calls.length then (false, (calls.take k).foldl Call.run m)
      else (true, calls.foldl Call.run m) := by
  induction calls generalizing i k m with
  | nil =>
    rw [List.length_nil, if_neg (Nat.not_lt_zero k)]
    rfl
  | cons c calls ih =>
    cases k with
    | zero =>
      rw [List.length_cons, if_pos (Nat.succ_pos _), perform]
      simp
    | succ k =>
      have hne : (decide (i = i + (k + 1))) = false := decide_eq_false (by omega)
      have hshift : (fun j => decide (j = i + (k + 1))) = fun j => decide (j = i + 1 + k) := by
        funext j
        rw [Nat.add_right_comm, Nat.add_assoc]
      rw [perform, hne, hshift, ih]
      simp only [List.length_cons, Nat.add_lt_add_iff_right, List.take_succ_cons, List.foldl_cons,
        Bool.false_eq_true, if_false]

end NorFlash

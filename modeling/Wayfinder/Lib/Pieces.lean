import Mathlib.Data.Nat.Basic
import Mathlib.Data.List.Basic
import Mathlib.Tactic.Ring

/-!
# A list put together from pieces

A list is cut at a fixed stride, and a buffer takes its pieces in any order. What
the buffer holds is said position by position, so that storing a piece and reading
the whole list back are each one lemma.
-/

namespace Pieces

set_option autoImplicit false

variable {α : Type}

/-- How many pieces a list of length `len` is cut into; the empty list is one piece. -/
def count (stride len : Nat) : Nat := max ((len + stride - 1) / stride) 1

def piece (stride : Nat) (whole : List α) (i : Nat) : List α :=
  (whole.drop (i * stride)).take stride

/-- `buf[off..off + part.len()].copy_from_slice(part)`. -/
def splice (buf : List α) (off : Nat) (part : List α) : List α :=
  buf.take off ++ part ++ buf.drop (off + part.length)

theorem count_pos (stride len : Nat) : 0 < count stride len := Nat.lt_of_lt_of_le Nat.one_pos (Nat.le_max_right _ _)

theorem length_piece_le (stride : Nat) (whole : List α) (i : Nat) :
    (piece stride whole i).length ≤ stride := by
  unfold piece
  rw [List.length_take]
  exact Nat.min_le_left _ _

theorem take_drop_min (stride : Nat) (whole : List α) (i : Nat) :
    (whole.drop (i * stride)).take (min (i * stride + stride) whole.length - i * stride) =
      piece stride whole i := by
  unfold piece
  apply List.take_eq_take_iff.mpr
  rw [List.length_drop]
  omega

theorem length_splice {buf part : List α} {off : Nat} (h : off + part.length ≤ buf.length) :
    (splice buf off part).length = buf.length := by
  simp only [splice, List.length_append, List.length_take, List.length_drop]
  omega

theorem splice_append (written rest part : List α) :
    splice (written ++ rest) written.length part = written ++ part ++ rest.drop part.length := by
  have hdrop : (written ++ rest).drop (written.length + part.length) = rest.drop part.length := by
    rw [← List.drop_drop, List.drop_left]
  rw [splice, List.take_left, hdrop]

theorem getElem?_splice {buf part : List α} {off : Nat} (h : off + part.length ≤ buf.length)
    (j : Nat) :
    (splice buf off part)[j]? =
      if off ≤ j ∧ j < off + part.length then part[j - off]? else buf[j]? := by
  have htake : (buf.take off).length = off := by
    rw [List.length_take]
    omega
  unfold splice
  rw [List.append_assoc]
  by_cases hlow : j < off
  · rw [if_neg (by omega), List.getElem?_append_left (by omega), List.getElem?_take_of_lt hlow]
  · rw [List.getElem?_append_right (by omega), htake]
    by_cases hmid : j < off + part.length
    · rw [if_pos (by omega), List.getElem?_append_left (by omega)]
    · rw [if_neg (by omega), List.getElem?_append_right (by omega), List.getElem?_drop]
      congr 1
      omega

section Stride

variable {stride : Nat} (hstride : 0 < stride) {whole : List α}

include hstride

theorem le_count_mul (len : Nat) : len ≤ count stride len * stride := by
  have hdiv : len ≤ (len + stride - 1) / stride * stride := by
    have hmod := Nat.div_add_mod (len + stride - 1) stride
    have hlt := Nat.mod_lt (len + stride - 1) hstride
    rw [Nat.mul_comm] at hmod
    omega
  exact Nat.le_trans hdiv (Nat.mul_le_mul_right stride (Nat.le_max_left _ _))

theorem div_lt_count {j len : Nat} (h : j < len) : j / stride < count stride len := by
  rw [Nat.div_lt_iff_lt_mul hstride]
  exact Nat.lt_of_lt_of_le h (le_count_mul hstride len)

/-- A piece starts inside the list; only the list without elements has an empty piece. -/
theorem start_le {i : Nat} (hi : i < count stride whole.length) : i * stride ≤ whole.length := by
  unfold count at hi
  rcases Nat.lt_or_ge i ((whole.length + stride - 1) / stride) with h | h
  · have hmul : (i + 1) * stride ≤ whole.length + stride - 1 :=
      Nat.le_trans (Nat.mul_le_mul_right stride h) (Nat.div_mul_le_self _ _)
    rw [Nat.succ_mul] at hmul
    omega
  · obtain rfl : i = 0 := by omega
    omega

theorem length_piece {i : Nat} (hi : i < count stride whole.length) :
    i * stride + (piece stride whole i).length = min ((i + 1) * stride) whole.length := by
  have hstart := start_le hstride hi
  unfold piece
  rw [List.length_take, List.length_drop, Nat.succ_mul]
  omega

theorem length_piece_of_lt {i : Nat} (hi : i + 1 < count stride whole.length) :
    (piece stride whole i).length = stride := by
  have hlen := length_piece hstride (Nat.lt_of_succ_lt hi)
  have hnext := start_le hstride hi
  rw [Nat.succ_mul] at hlen hnext
  omega

theorem getElem?_piece {i j : Nat} (h : j / stride = i) :
    (piece stride whole i)[j - i * stride]? = whole[j]? := by
  have hlow : i * stride ≤ j := h ▸ Nat.div_mul_le_self j stride
  have hhigh : j < i * stride + stride := by
    have := Nat.lt_div_mul_add hstride (a := j)
    rw [h] at this
    exact this
  unfold piece
  rw [List.getElem?_take_of_lt (by omega), List.getElem?_drop]
  congr 1
  omega

end Stride

/-- A buffer with `len` elements in use holds the pieces `got` of a list. -/
structure Holds (stride : Nat) (whole buf : List α) (len : Nat) (got : Nat → Prop) : Prop where
  agrees : ∀ j, j < whole.length → got (j / stride) → buf[j]? = whole[j]?
  within : len ≤ whole.length
  closed : got (count stride whole.length - 1) → len = whole.length

namespace Holds

variable {stride len : Nat} {whole buf : List α} {got got' : Nat → Prop}

theorem none (stride : Nat) (whole buf : List α) : Holds stride whole buf 0 fun _ => False where
  agrees _ _ h := h.elim
  within := Nat.zero_le _
  closed h := h.elim

theorem congr (h : Holds stride whole buf len got) (hgot : ∀ i, got' i ↔ got i) :
    Holds stride whole buf len got' where
  agrees j hj hi := h.agrees j hj ((hgot _).mp hi)
  within := h.within
  closed hi := h.closed ((hgot _).mp hi)

/-- Storing a piece of the list where it belongs. -/
theorem store (h : Holds stride whole buf len got) (hstride : 0 < stride) {i : Nat}
    (hi : i < count stride whole.length)
    (hfit : i * stride + (piece stride whole i).length ≤ buf.length) :
    Holds stride whole (splice buf (i * stride) (piece stride whole i))
      (max len (i * stride + (piece stride whole i).length)) fun k => k = i ∨ got k := by
  have hend := length_piece hstride hi
  constructor
  · intro j hj hgot
    rw [getElem?_splice hfit]
    by_cases hin : j / stride = i
    · have hlow : i * stride ≤ j := hin ▸ Nat.div_mul_le_self j stride
      have hhigh : j < (i + 1) * stride := by
        rw [← Nat.div_lt_iff_lt_mul hstride]
        omega
      rw [if_pos (by omega), getElem?_piece hstride hin]
    · have hout : ¬ (i * stride ≤ j ∧ j < i * stride + (piece stride whole i).length) := by
        rintro ⟨hlow, hhigh⟩
        apply hin
        apply Nat.div_eq_of_lt_le hlow
        omega
      rw [if_neg hout]
      exact h.agrees j hj (hgot.resolve_left hin)
  · exact Nat.max_le.mpr ⟨h.within, by omega⟩
  · rintro (hlast | hlast)
    · have hwithin := h.within
      have hcover := le_count_mul hstride whole.length
      have hpos := count_pos stride whole.length
      rw [← hlast, Nat.sub_add_cancel hpos] at hend
      rw [← hlast]
      omega
    · have hlen := h.closed hlast
      omega

/-- With every piece stored the buffer reads back as the list. -/
theorem complete (h : Holds stride whole buf len got) (hstride : 0 < stride)
    (hall : ∀ i, i < count stride whole.length → got i) : buf.take len = whole := by
  have hpos := count_pos stride whole.length
  have hlen : len = whole.length := h.closed (hall _ (by omega))
  apply List.ext_getElem?
  intro j
  by_cases hj : j < whole.length
  · rw [List.getElem?_take_of_lt (by omega)]
    exact h.agrees j hj (hall _ (div_lt_count hstride hj))
  · rw [List.getElem?_take_eq_none (by omega), List.getElem?_eq_none (by omega)]

end Holds

end Pieces

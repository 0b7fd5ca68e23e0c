/-!
# Vectors of bounded length

A vector that holds at most `cap` elements and refuses the one after: the bound
is carried by the value, so no use of it has to prove it again.
-/

set_option autoImplicit false

structure Bounded (α : Type) (cap : Nat) where
  toList : List α
  length_le : toList.length ≤ cap

namespace Bounded

variable {α : Type} {cap : Nat}

def empty : Bounded α cap := ⟨[], Nat.zero_le cap⟩

theorem eq_of_toList {v w : Bounded α cap} (h : v.toList = w.toList) : v = w := by
  cases v
  cases w
  congr

@[simp] theorem empty_toList : (empty : Bounded α cap).toList = [] := rfl

/-- Refuses by returning `false`. -/
def push (v : Bounded α cap) (x : α) : Bounded α cap × Bool :=
  if h : v.toList.length < cap then
    (⟨v.toList ++ [x], by rw [List.length_append]; exact h⟩, true)
  else (v, false)

/-- Push every element in turn; whether all of them were taken. -/
def pushEach (v : Bounded α cap) : List α → Bounded α cap × Bool
  | [] => (v, true)
  | x :: xs =>
    let rest := (v.push x).1.pushEach xs
    (rest.1, (v.push x).2 && rest.2)

theorem toList_push {v : Bounded α cap} {x : α} (h : (v.push x).2 = true) :
    (v.push x).1.toList = v.toList ++ [x] := by
  unfold push at h ⊢
  split at h
  · rename_i hroom
    rw [dif_pos hroom]
  · cases h

theorem push_of_lt {v : Bounded α cap} {x : α} (h : v.toList.length < cap) :
    (v.push x).2 = true := by
  rw [push, dif_pos h]

theorem toList_pushEach {v : Bounded α cap} {xs : List α} (h : (v.pushEach xs).2 = true) :
    (v.pushEach xs).1.toList = v.toList ++ xs := by
  induction xs generalizing v with
  | nil => exact (List.append_nil _).symm
  | cons x xs ih =>
    obtain ⟨hpush, hrest⟩ := Bool.and_eq_true_iff.mp h
    calc ((v.push x).1.pushEach xs).1.toList
        = (v.push x).1.toList ++ xs := ih hrest
      _ = v.toList ++ x :: xs := by rw [toList_push hpush, List.append_assoc]; rfl

theorem pushEach_of_le {v : Bounded α cap} {xs : List α}
    (h : v.toList.length + xs.length ≤ cap) : (v.pushEach xs).2 = true := by
  induction xs generalizing v with
  | nil => rfl
  | cons x xs ih =>
    rw [List.length_cons] at h
    have hpush : (v.push x).2 = true := push_of_lt (by omega)
    apply Bool.and_eq_true_iff.mpr
    refine ⟨hpush, ih ?_⟩
    rw [toList_push hpush, List.length_append, List.length_singleton]
    omega

/-- With room for all of them, the elements are at the end of the vector. -/
theorem toList_pushEach_of_le {v : Bounded α cap} {xs : List α}
    (h : v.toList.length + xs.length ≤ cap) :
    (v.pushEach xs).1.toList = v.toList ++ xs :=
  toList_pushEach (pushEach_of_le h)

end Bounded

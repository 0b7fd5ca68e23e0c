import Mathlib.Data.List.Induction
import Mathlib.Order.Lattice

/-!
# The first of the least

The element of a list with the smallest key, the first of them where several share it, for keys
from any linear order.
-/

set_option autoImplicit false

namespace List

variable {α β : Type} [LinearOrder β] {f : α → β} {l : List α} {x : α}

def leastBy (f : α → β) (l : List α) : Option α :=
  l.foldl (fun best x =>
    match best with
    | none => some x
    | some b => if f x < f b then some x else some b) none

theorem leastBy_append_singleton (l : List α) (x : α) :
    leastBy f (l ++ [x]) = match leastBy f l with
      | none => some x
      | some b => if f x < f b then some x else some b := by
  simp [leastBy]

theorem leastBy_eq_none : leastBy f l = none ↔ l = [] := by
  constructor
  · intro h
    cases l using List.reverseRecOn with
    | nil => rfl
    | append_singleton l x =>
      rw [leastBy_append_singleton] at h
      split at h
      · cases h
      · split at h
        · cases h
        · cases h
  · intro h
    rw [h]
    rfl

theorem leastBy_spec (h : leastBy f l = some x) : x ∈ l ∧ ∀ y ∈ l, f x ≤ f y := by
  induction l using List.reverseRecOn generalizing x with
  | nil => cases h
  | append_singleton l z ih =>
    rw [leastBy_append_singleton] at h
    cases hbest : leastBy f l with
    | none =>
      rw [hbest] at h
      obtain rfl := Option.some.inj h
      obtain rfl := leastBy_eq_none.mp hbest
      simp
    | some b =>
      rw [hbest] at h
      obtain ⟨hb, hleast⟩ := ih hbest
      dsimp only at h
      split at h
      · rename_i hlt
        obtain rfl := Option.some.inj h
        refine ⟨List.mem_append_right l List.mem_cons_self, ?_⟩
        rw [List.forall_mem_append, List.forall_mem_singleton]
        exact ⟨fun y hy => le_trans (le_of_lt hlt) (hleast y hy), le_refl _⟩
      · rename_i hnot
        obtain rfl := Option.some.inj h
        refine ⟨List.mem_append_left _ hb, ?_⟩
        rw [List.forall_mem_append, List.forall_mem_singleton]
        exact ⟨hleast, not_lt.mp hnot⟩

end List

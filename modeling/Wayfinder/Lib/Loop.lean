import Mathlib.Logic.Function.Iterate
import Mathlib.Algebra.BigOperators.Group.List.Basic
import Mathlib.Algebra.GroupWithZero.Nat
import Mathlib.Algebra.Order.BigOperators.Group.List
import Mathlib.Data.Nat.Find
import Mathlib.Order.WellFounded

/-!
# Loops that may not return

A loop takes steps until there is none to take. It is run with a bound on the steps, and
returns if some bound suffices. A loop over a row of slots, each turn serving one that is due,
returns exactly if serving wears out each of them, in whatever order they are taken.
-/

set_option autoImplicit false

namespace Loop

variable {σ : Type}

/-- At most `fuel` turns of the loop, each of which says whether it goes on; `none` when they
do not suffice. -/
def iterate (turn : σ → σ × Bool) : Nat → σ → Option σ
  | 0, _ => none
  | fuel + 1, s => if (turn s).2 then iterate turn fuel (turn s).1 else some (turn s).1

def Returns (turn : σ → σ × Bool) (s r : σ) : Prop := ∃ fuel, iterate turn fuel s = some r

section Rules
variable {turn : σ → σ × Bool} {s r : σ}

theorem iterate_last (h : (turn s).2 = false) (fuel : Nat) :
    iterate turn (fuel + 1) s = some (turn s).1 := by
  rw [iterate, h, if_neg Bool.false_ne_true]

theorem iterate_next (h : (turn s).2 = true) (fuel : Nat) :
    iterate turn (fuel + 1) s = iterate turn fuel (turn s).1 := by
  rw [iterate, if_pos h]

theorem returns_last (h : (turn s).2 = false) : Returns turn s (turn s).1 :=
  ⟨1, iterate_last h 0⟩

theorem returns_next (h : (turn s).2 = true) :
    Returns turn s r ↔ Returns turn (turn s).1 r := by
  constructor
  · intro ⟨fuel, hfuel⟩
    cases fuel with
    | zero => cases hfuel
    | succ fuel =>
      rw [iterate_next h] at hfuel
      exact ⟨fuel, hfuel⟩
  · intro ⟨fuel, hfuel⟩
    refine ⟨fuel + 1, ?_⟩
    rw [iterate_next h]
    exact hfuel

theorem Returns.invariant {I : σ → Prop} (hkeep : ∀ s, I s → I (turn s).1) (hs : I s)
    (h : Returns turn s r) : ∃ s', I s' ∧ turn s' = (r, false) := by
  obtain ⟨fuel, hfuel⟩ := h
  induction fuel generalizing s with
  | zero => cases hfuel
  | succ fuel ih =>
    cases hgoes : (turn s).2 with
    | false =>
      rw [iterate_last hgoes] at hfuel
      exact ⟨s, hs, Prod.ext (Option.some.inj hfuel) hgoes⟩
    | true =>
      rw [iterate_next hgoes] at hfuel
      exact ih (hkeep s hs) hfuel

/-- A measure that every turn but the last lowers bounds the turns. -/
theorem returns_of_measure {α : Type} [LT α] [WellFoundedLT α] {I : σ → Prop} (μ : σ → α)
    (hturn : ∀ s, I s → (turn s).2 = true → I (turn s).1 ∧ μ (turn s).1 < μ s) (hs : I s) :
    ∃ r, Returns turn s r := by
  induction hμ : μ s using WellFoundedLT.induction generalizing s with
  | ind m ih =>
    cases hgoes : (turn s).2 with
    | false => exact ⟨_, returns_last hgoes⟩
    | true =>
      obtain ⟨hs', hless⟩ := hturn s hs hgoes
      obtain ⟨r, hr⟩ := ih (μ (turn s).1) (hμ ▸ hless) hs' rfl
      exact ⟨r, (returns_next hgoes).mpr hr⟩

/-- A loop that cannot leave a set of states in which every turn goes on never returns. -/
theorem not_returns_of_trap {I : σ → Prop} (htrap : ∀ s, I s → (turn s).2 = true ∧ I (turn s).1)
    (hs : I s) : ¬ ∃ r, Returns turn s r := by
  intro ⟨r, hr⟩
  obtain ⟨s', hs', hlast⟩ := hr.invariant (fun s hs => (htrap s hs).2) hs
  have hgoes := (htrap s' hs').1
  rw [hlast] at hgoes
  cases hgoes

end Rules

/-! ### Slots served in turn -/

def Wears {τ : Type} (due : τ → Bool) (serve : τ → τ) (x : τ) : Prop :=
  ∃ m, due (serve^[m] x) = false

section Slots
variable {τ : Type} {turn : σ → σ × Bool} {slots : σ → List τ} {due : τ → Bool} {serve : τ → τ}
  {I : σ → Prop}

def Serves (turn : σ → σ × Bool) (slots : σ → List τ) (due : τ → Bool) (serve : τ → τ)
    (I : σ → Prop) : Prop :=
  ∀ s, I s → (turn s).2 = true → I (turn s).1 ∧ ∃ i x, (slots s)[i]? = some x ∧ due x = true ∧
    slots (turn s).1 = (slots s).set i (serve x)

open Classical in
/-- How often a slot is served before it is no longer due. -/
noncomputable def turnsLeft (due : τ → Bool) (serve : τ → τ) (x : τ) : Nat :=
  if h : Wears due serve x then Nat.find h else 0

theorem wears_serve {x : τ} (hdue : due x = true) :
    Wears due serve (serve x) ↔ Wears due serve x := by
  constructor
  · intro ⟨m, hm⟩
    exact ⟨m + 1, hm⟩
  · intro ⟨m, hm⟩
    cases m with
    | zero =>
      rw [Function.iterate_zero, id_eq, hdue] at hm
      cases hm
    | succ m => exact ⟨m, hm⟩

theorem turnsLeft_serve {x : τ} (hdue : due x = true) (h : Wears due serve x) :
    turnsLeft due serve (serve x) < turnsLeft due serve x := by
  classical
  have h' : Wears due serve (serve x) := (wears_serve hdue).mpr h
  unfold turnsLeft
  rw [dif_pos h, dif_pos h']
  have hfound := Nat.find_spec h
  obtain ⟨m, hm⟩ : ∃ m, Nat.find h = m + 1 := by
    cases hzero : Nat.find h with
    | zero =>
      rw [hzero, Function.iterate_zero, id_eq, hdue] at hfound
      cases hfound
    | succ m => exact ⟨m, rfl⟩
  rw [hm] at hfound ⊢
  exact Nat.lt_succ_of_le (Nat.find_min' h' hfound)

theorem sum_map_set_lt {f : τ → Nat} {xs : List τ} {i : Nat} {x y : τ} (hx : xs[i]? = some x)
    (hless : f y < f x) : ((xs.set i y).map f).sum < (xs.map f).sum := by
  induction xs generalizing i with
  | nil => cases hx
  | cons z zs ih =>
    cases i with
    | zero =>
      obtain rfl := Option.some.inj hx
      exact Nat.add_lt_add_right hless _
    | succ i => exact Nat.add_lt_add_left (ih hx) _

theorem Serves.returns (h : Serves turn slots due serve I) {s : σ} (hs : I s)
    (hwears : ∀ x ∈ slots s, Wears due serve x) : ∃ r, Returns turn s r := by
  refine returns_of_measure (I := fun s => I s ∧ ∀ x ∈ slots s, Wears due serve x)
    (fun s => ((slots s).map (turnsLeft due serve)).sum) ?_ ⟨hs, hwears⟩
  intro s ⟨hs, hwears⟩ hgoes
  obtain ⟨hs', i, x, hx, hdue, hslots⟩ := h s hs hgoes
  have hworn : Wears due serve x := hwears x (List.mem_of_getElem? hx)
  rw [hslots]
  refine ⟨⟨hs', ?_⟩, sum_map_set_lt hx (turnsLeft_serve hdue hworn)⟩
  intro y hy
  rcases List.mem_or_eq_of_mem_set hy with hold | rfl
  · exact hwears y hold
  · exact (wears_serve hdue).mpr hworn

/-- A loop that goes on while a slot is due returns exactly if serving wears out each. -/
theorem Serves.returns_iff (h : Serves turn slots due serve I)
    (hidle : ∀ s, I s → (turn s).2 = false → ∀ x ∈ slots s, due x = false) {s : σ} (hs : I s) :
    (∃ r, Returns turn s r) ↔ ∀ x ∈ slots s, Wears due serve x := by
  refine ⟨?_, h.returns hs⟩
  intro ⟨r, fuel, hfuel⟩
  induction fuel generalizing s with
  | zero => cases hfuel
  | succ fuel ih =>
    intro x hx
    cases hgoes : (turn s).2 with
    | false => exact ⟨0, hidle s hs hgoes x hx⟩
    | true =>
      rw [iterate_next hgoes] at hfuel
      obtain ⟨hs', i, y, hy, hdue, hslots⟩ := h s hs hgoes
      have hrest := ih hs' hfuel
      rw [hslots] at hrest
      obtain ⟨j, hj⟩ := List.mem_iff_getElem?.mp hx
      by_cases hij : i = j
      · subst hij
        obtain rfl := Option.some.inj (hy.symm.trans hj)
        have hi : i < (slots s).length := (List.getElem?_eq_some_iff.mp hy).1
        exact (wears_serve hdue).mp (hrest _ (List.mem_set hi _))
      · apply hrest
        apply List.mem_iff_getElem?.mpr
        exact ⟨j, by rw [List.getElem?_set_ne hij, hj]⟩

end Slots

end Loop

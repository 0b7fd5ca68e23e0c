import Mathlib.Data.List.Forall2

/-!
# Computations that may fail

A computation in `Except` that came out well had each of its parts come out well. One
in `EStateM` that fails leaves the state of the part that failed.
-/

namespace Fallible

set_option autoImplicit false

theorem exists_of_bind_ok {ε α β : Type} {x : Except ε α} {f : α → Except ε β} {b : β}
    (h : x >>= f = .ok b) : ∃ y, x = .ok y ∧ f y = .ok b := by
  cases x with
  | error err => cases h
  | ok y => exact ⟨y, rfl, h⟩

theorem ok_of_mapError {ε ε' α : Type} {f : ε → ε'} {x : Except ε α} {a : α}
    (h : x.mapError f = .ok a) : x = .ok a := by
  cases x with
  | error e => cases h
  | ok b => rw [Except.ok.inj h]

theorem mapM_ok_iff {α β ε : Type} {f : α → Except ε β} {l : List α} {v : List β} :
    l.mapM f = .ok v ↔ List.Forall₂ (fun a b => f a = .ok b) l v := by
  induction l generalizing v with
  | nil =>
    rw [List.mapM_nil, List.forall₂_nil_left_iff]
    exact ⟨fun h => (Except.ok.inj h).symm, fun h => by rw [h]; rfl⟩
  | cons a l ih =>
    rw [List.mapM_cons, List.forall₂_cons_left_iff]
    constructor
    · intro h
      obtain ⟨b, hb, h⟩ := exists_of_bind_ok h
      obtain ⟨v', hv, h⟩ := exists_of_bind_ok h
      exact ⟨b, v', hb, ih.mp hv, (Except.ok.inj h).symm⟩
    · rintro ⟨b, v', hb, hv, rfl⟩
      rw [hb, ih.mpr hv]
      rfl

theorem exists_forall₂ {α β : Type} {R : α → β → Prop} {l : List α}
    (h : ∀ a ∈ l, ∃ b, R a b) : ∃ v, List.Forall₂ R l v := by
  induction l with
  | nil => exact ⟨[], .nil⟩
  | cons a l ih =>
    obtain ⟨b, hb⟩ := h a List.mem_cons_self
    obtain ⟨v, hv⟩ := ih fun a' ha' => h a' (List.mem_cons_of_mem a ha')
    exact ⟨b :: v, .cons hb hv⟩

theorem forall₂_unique {α β ε : Type} {f : α → Except ε β} {l : List α} {v v' : List β}
    (h : List.Forall₂ (fun a b => f a = .ok b) l v)
    (h' : List.Forall₂ (fun a b => f a = .ok b) l v') : v = v' := by
  refine List.right_unique_forall₂' ?_ h h'
  intro a b b' hb hb'
  exact Except.ok.inj (hb.symm.trans hb')

section Stateful
variable {ε σ α β : Type} {x : EStateM ε σ α} {f : α → EStateM ε σ β} {s s' : σ}

theorem bind_of_ok {a : α} (h : x s = .ok a s') : (x >>= f) s = f a s' := by
  show EStateM.bind x f s = f a s'
  unfold EStateM.bind
  rw [h]

theorem bind_of_error {err : ε} (h : x s = .error err s') : (x >>= f) s = .error err s' := by
  show EStateM.bind x f s = .error err s'
  unfold EStateM.bind
  rw [h]

end Stateful

end Fallible

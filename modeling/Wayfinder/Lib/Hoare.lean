/-!
# Pre- and postconditions

Of a computation that changes a state and may fail: from a state that meets the precondition
it ends with a result and a state that meet the postcondition, or fails in a state that meets
another one. The rules follow the ways computations are put together.
-/

namespace Hoare

set_option autoImplicit false

variable {ε σ α β : Type} {x : EStateM ε σ α} {f : α → EStateM ε σ β} {a : α}
  {P P' : σ → Prop} {Q Q' : α → σ → Prop} {R : β → σ → Prop} {E E' : σ → Prop}

def Triple (P : σ → Prop) (x : EStateM ε σ α) (Q : α → σ → Prop) (E : σ → Prop) : Prop :=
  ∀ s, P s → (∀ a s', x s = .ok a s' → Q a s') ∧ ∀ e s', x s = .error e s' → E s'

theorem Triple.pure (h : ∀ s, P s → Q a s) : Triple P (Pure.pure a : EStateM ε σ α) Q E := by
  intro s hs
  constructor
  · intro a' s' hok
    cases hok
    exact h s hs
  · intro e s' herror
    cases herror

theorem Triple.throw {e : ε} (h : ∀ s, P s → E s) :
    Triple P (MonadExcept.throw e : EStateM ε σ α) Q E := by
  intro s hs
  constructor
  · intro a' s' hok
    cases hok
  · intro e' s' herror
    cases herror
    exact h s hs

theorem Triple.bind (hx : Triple P x Q E) (hf : ∀ a, Triple (Q a) (f a) R E) :
    Triple P (x >>= f) R E := by
  intro s hs
  obtain ⟨hok, herror⟩ := hx s hs
  have heq : (x >>= f) s = EStateM.bind x f s := rfl
  rw [heq]
  unfold EStateM.bind
  cases hrun : x s with
  | ok a s' => exact hf a s' (hok a s' hrun)
  | error e s' =>
    constructor
    · intro b s'' h
      cases h
    · intro e' s'' h
      cases h
      exact herror e s' hrun

theorem Triple.weaken (h : Triple P x Q E) (hP : ∀ s, P' s → P s)
    (hQ : ∀ a s, Q a s → Q' a s) (hE : ∀ s, E s → E' s) : Triple P' x Q' E' := by
  intro s hs
  obtain ⟨hok, herror⟩ := h s (hP s hs)
  exact ⟨fun a s' hrun => hQ a s' (hok a s' hrun), fun e s' hrun => hE s' (herror e s' hrun)⟩

/-- What a precondition says of other things than the state is known to the computation. -/
theorem Triple.known {p : Prop} (h : p → Triple P x Q E) : Triple (fun s => p ∧ P s) x Q E := by
  intro s hs
  exact h hs.1 s hs.2

theorem Triple.ite {c : Prop} [Decidable c] {y : EStateM ε σ α} (hx : c → Triple P x Q E)
    (hy : ¬ c → Triple P y Q E) : Triple P (if c then x else y) Q E := by
  split
  · rename_i hc
    exact hx hc
  · rename_i hc
    exact hy hc

end Hoare

import Mathlib.Logic.Relation

/-!
# Flooding over a graph

Every node that comes to hold a message sends a copy to each of its neighbors. What
makes the flood complete is one invariant: a neighbor of a holder holds the message
too, or a copy is under way to it. Once no copy is under way, the holders of a
message are closed under the links.
-/

namespace Flood

set_option autoImplicit false

variable {N M : Type} {links : N → List N} {held held' : N → M → Prop}
  {flight flight' : List (N × M)}

def Covered (links : N → List N) (held : N → M → Prop) (flight : List (N × M)) : Prop :=
  ∀ n m, held n m → ∀ b ∈ links n, held b m ∨ (b, m) ∈ flight

def Reaches (links : N → List N) : N → N → Prop := Relation.ReflTransGen fun a b => b ∈ links a

/-- A copy leaves the air only at a holder, and a new holder sends to all its
neighbors. -/
theorem Covered.step (h : Covered links held flight) (hkept : ∀ n m, held n m → held' n m)
    (hflight : ∀ b m, (b, m) ∈ flight → held' b m ∨ (b, m) ∈ flight')
    (hnew : ∀ n m, held' n m → held n m ∨ ∀ b ∈ links n, (b, m) ∈ flight') :
    Covered links held' flight' := by
  intro n m hn b hb
  rcases hnew n m hn with hold | hsent
  · rcases h n m hold b hb with hheld | hunder
    · exact Or.inl (hkept b m hheld)
    · exact hflight b m hunder
  · exact Or.inr (hsent b hb)

theorem Covered.held_of_reaches (h : Covered links held []) {a b : N} {m : M} (ha : held a m)
    (hreach : Reaches links a b) : held b m := by
  induction hreach with
  | refl => exact ha
  | tail _ hlink ih =>
    rcases h _ m ih _ hlink with hheld | hunder
    · exact hheld
    · cases hunder

end Flood

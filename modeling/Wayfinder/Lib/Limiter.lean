import Wayfinder.Lib.Keyed
import Wayfinder.Lib.Run

/-!
# Keeping events apart

A rule for runs in which an event bars the next one until some time, unless a step in
between lifts the bar; and the usual table behind such a bar: the time of the last event for
each key, where a new key overwrites a row of a full table.
-/

set_option autoImplicit false

namespace Run

variable {σ ι : Type} {step : σ → ι → σ} {Inv : σ → Prop} {Breaks : σ → ι → Prop} {s : σ}
  {ops : List ι}

theorem kept_or_broken (ops : List ι) (h : Inv s) (hstep : ∀ s op, Inv s → Inv (step s op) ∨ Breaks s op) :
    Inv (run step s ops) ∨ ∃ pre op, pre ++ [op] <+: ops ∧ Breaks (run step s pre) op := by
  induction ops using List.reverseRecOn with
  | nil => exact Or.inl h
  | append_singleton ops op ih =>
    rcases ih with hkept | ⟨pre, op', hpre, hbroken⟩
    · rw [run_append_singleton]
      rcases hstep _ op hkept with hnext | hbroken
      · exact Or.inl hnext
      · exact Or.inr ⟨ops, op, List.prefix_rfl, hbroken⟩
    · exact Or.inr ⟨pre, op', hpre.trans (List.prefix_append ops [op]), hbroken⟩

/-- Any two events of the run lie `gap` apart, unless a step after the first, up to the second
one, lifts the bar. -/
def Spaced (step : σ → ι → σ) (event : σ → ι → Prop) (time : σ → Nat) (gap : Nat)
    (Breaks : σ → ι → Prop) (s : σ) (ops : List ι) : Prop :=
  ∀ pre op mid op', pre ++ op :: (mid ++ [op']) <+: ops →
    event (run step s pre) op → event (run step s (pre ++ op :: mid)) op' →
      time (run step s pre) + gap ≤ time (run step s (pre ++ op :: mid)) ∨
      ∃ mid' lifting, mid' ++ [lifting] <+: mid ++ [op'] ∧
        Breaks (run step s (pre ++ op :: mid')) lifting

/-- An event sets the bar, a step keeps or lifts it, and no event passes under it. -/
theorem spaced {event : σ → ι → Prop} {time : σ → Nat} {gap : Nat} (Barred : Nat → σ → Prop)
    (hset : ∀ s op, event s op → Barred (time s + gap) (step s op))
    (hkeep : ∀ until' s op, Barred until' s → Barred until' (step s op) ∨ Breaks s op)
    (hbar : ∀ until' s op, Barred until' s → event s op → until' ≤ time s ∨ Breaks s op)
    (s : σ) (ops : List ι) : Spaced step event time gap Breaks s ops := by
  intro pre op mid op' _ hfirst hsecond
  have hrun : ∀ later, run step s (pre ++ op :: later) =
      run step (step (run step s pre) op) later := fun later => run_append (op :: later)
  rw [hrun] at hsecond ⊢
  rcases kept_or_broken mid (hset _ op hfirst) (hkeep _) with
    hbarred | ⟨mid', lifting, hmid, hbroken⟩
  · rcases hbar _ _ op' hbarred hsecond with htime | hbroken
    · exact Or.inl htime
    · exact Or.inr ⟨mid, op', List.prefix_rfl, by rw [hrun]; exact hbroken⟩
  · refine Or.inr ⟨mid', lifting, hmid.trans (List.prefix_append mid [op']), ?_⟩
    rw [hrun]
    exact hbroken

end Run

namespace Limiter

open Table

variable {K : Type} [DecidableEq K] {n : Nat}

abbrev Rates (K : Type) [DecidableEq K] (n : Nat) := KeyedVec (Prod.fst : K × Nat → K) n

/-- Admit a key whose last admission lies `limit` back. A new key finds its row, or takes the
first one of a full table. -/
def accept (rates : Rates K n) (limit now : Nat) (k : K) : Rates K n × Bool :=
  match rates.find? k with
  | some entry =>
    if now - entry.2 < limit then (rates, false)
    else (rates.put (k, now) List.head?, true)
  | none => (rates.put (k, now) List.head?, true)

def Barred (rates : Rates K n) (limit : Nat) (k : K) (until' : Nat) : Prop :=
  ∃ entry, rates.find? k = some entry ∧ until' ≤ entry.2 + limit

structure Displaces (rates : Rates K n) (k k' : K) : Prop where
  new : rates.find? k' = none
  full : n ≤ rates.toList.length
  first : rates.toList.head?.map Prod.fst = some k

section Admit
variable {rates : Rates K n} {limit now until' : Nat} {k k' : K}

instance : Decidable (Displaces rates k k') :=
  decidable_of_iff ((rates.find? k' = none ∧ n ≤ rates.toList.length) ∧
      rates.toList.head?.map Prod.fst = some k)
    ⟨fun ⟨⟨h, h'⟩, h''⟩ => ⟨h, h', h''⟩, fun ⟨h, h', h''⟩ => ⟨⟨h, h'⟩, h''⟩⟩

theorem accept_cases (rates : Rates K n) (limit now : Nat) (k : K) :
    accept rates limit now k = (rates, false) ∨
      accept rates limit now k = (rates.put (k, now) List.head?, true) ∧
        ∀ entry ∈ rates.find? k, limit ≤ now - entry.2 := by
  unfold accept
  cases hfind : rates.find? k with
  | none => exact Or.inr ⟨rfl, fun entry h => by cases h⟩
  | some entry =>
    dsimp only
    split
    · exact Or.inl rfl
    · rename_i hold
      refine Or.inr ⟨rfl, ?_⟩
      intro entry' hentry
      obtain rfl := Option.some_inj.mp hentry
      exact Nat.not_lt.mp hold

theorem barred_of_admitted (hn : 0 < n) (h : (accept rates limit now k).2 = true) :
    Barred (accept rates limit now k).1 limit k (now + limit) := by
  rcases accept_cases rates limit now k with heq | ⟨heq, _⟩
  · rw [heq] at h
    cases h
  · rw [heq]
    refine ⟨(k, now), KeyedVec.find?_eq_some_iff.mpr ⟨?_, rfl⟩, Nat.le_refl _⟩
    apply KeyedVec.mem_put_self hn
    · intro l hl
      exact List.head?_eq_none_iff.mp hl
    · intro l y hy
      exact List.mem_of_mem_head? hy

theorem le_of_admitted (hlimit : 0 < limit) (hbarred : Barred rates limit k until')
    (h : (accept rates limit now k).2 = true) : until' ≤ now := by
  obtain ⟨entry, hfind, huntil⟩ := hbarred
  rcases accept_cases rates limit now k with heq | ⟨_, hold⟩
  · rw [heq] at h
    cases h
  · have hage := hold entry hfind
    omega

theorem Barred.accept (now : Nat) (k' : K) (hlimit : 0 < limit)
    (hbarred : Barred rates limit k until') :
    Barred (accept rates limit now k').1 limit k until' ∨
      (Limiter.accept rates limit now k').2 = true ∧ Displaces rates k k' := by
  obtain ⟨entry, hfind, huntil⟩ := hbarred
  obtain ⟨hmem, rfl⟩ := KeyedVec.find?_eq_some_iff.mp hfind
  rcases accept_cases rates limit now k' with heq | ⟨heq, hold⟩
  · rw [heq]
    exact Or.inl ⟨entry, hfind, huntil⟩
  rw [heq]
  by_cases hfits : (∃ y ∈ rates.toList, y.1 = k') ∨ rates.toList.length < n
  · left
    have hput : (rates.put (k', now) List.head?).find? entry.1 = _ :=
      KeyedVec.find?_put hfits entry.1
    by_cases hsame : entry.1 = k'
    · obtain rfl := hsame
      rw [if_pos rfl] at hput
      have hage := hold entry hfind
      exact ⟨_, hput, by dsimp only; omega⟩
    · rw [if_neg hsame] at hput
      exact ⟨entry, hput.trans hfind, huntil⟩
  · rw [not_or] at hfits
    obtain ⟨hnew, hfull⟩ := hfits
    have hnew : ∀ z ∈ rates.toList, z.1 ≠ k' := fun z hz hk => hnew ⟨z, hz, hk⟩
    have hne : rates.toList ≠ [] := List.ne_nil_of_mem hmem
    have hhead := List.head?_eq_some_head hne
    have hput : ∀ z, z ∈ (rates.put (k', now) List.head?).toList ↔
        z = (k', now) ∨ z ∈ rates.toList ∧ z.1 ≠ (rates.toList.head hne).1 := fun z =>
      KeyedVec.mem_put_displacing hnew (Nat.not_lt.mp hfull) hhead (List.head_mem hne)
    by_cases hfirst : entry.1 = (rates.toList.head hne).1
    · refine Or.inr ⟨rfl, KeyedVec.find?_eq_none_iff.mpr hnew, Nat.not_lt.mp hfull, ?_⟩
      rw [hhead, hfirst]
      rfl
    · left
      refine ⟨entry, KeyedVec.find?_eq_some_iff.mpr ⟨?_, rfl⟩, huntil⟩
      exact (hput entry).mpr (Or.inr ⟨hmem, hfirst⟩)

end Admit

end Limiter

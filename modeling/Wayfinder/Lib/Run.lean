import Mathlib.Data.List.Induction

/-!
# Runs of a step function

A deterministic system is a step function on states, its inputs any list of
operations. The rules here are the ones an invariant is proved by: unconditional,
under a condition on every step taken, and with that condition exact.
-/

namespace Run

set_option autoImplicit false

variable {σ ι : Type} {step : σ → ι → σ} {Inv Good : σ → Prop} {Safe : σ → ι → Prop}
  {s : σ} {ops : List ι}

def run (step : σ → ι → σ) (s : σ) (ops : List ι) : σ := ops.foldl step s

@[simp] theorem run_nil : run step s [] = s := rfl

@[simp] theorem run_append_singleton (op : ι) :
    run step s (ops ++ [op]) = step (run step s ops) op := by
  simp [run]

theorem run_append (ops' : List ι) :
    run step s (ops ++ ops') = run step (run step s ops) ops' := by
  simp [run]

/-- What the steps of a run put out, in their order. -/
def trace {β : Type} (step : σ → ι → σ) (out : σ → ι → Option β) : σ → List ι → List β
  | _, [] => []
  | s, op :: ops => (out s op).toList ++ trace step out (step s op) ops

theorem trace_append {β : Type} {out : σ → ι → Option β} (ops' : List ι) :
    trace step out s (ops ++ ops') =
      trace step out s ops ++ trace step out (run step s ops) ops' := by
  induction ops generalizing s with
  | nil => rfl
  | cons op ops ih =>
    rw [List.cons_append, trace, ih, trace, List.append_assoc]
    rfl

@[simp] theorem trace_append_singleton {β : Type} {out : σ → ι → Option β} (op : ι) :
    trace step out s (ops ++ [op]) =
      trace step out s ops ++ (out (run step s ops) op).toList := by
  rw [trace_append, trace, trace, List.append_nil]

/-- Every step of the run, taken from the state it was taken in, is safe. -/
def AllSafe (step : σ → ι → σ) (Safe : σ → ι → Prop) (s : σ) (ops : List ι) : Prop :=
  ∀ pre op, pre ++ [op] <+: ops → Safe (run step s pre) op

theorem allSafe_nil : AllSafe step Safe s [] := by
  intro pre op hpre
  simp at hpre

theorem allSafe_cons {op : ι} :
    AllSafe step Safe s (op :: ops) ↔ Safe s op ∧ AllSafe step Safe (step s op) ops := by
  constructor
  · intro h
    refine ⟨h [] op (by simp), ?_⟩
    intro pre op' hpre
    exact h (op :: pre) op' (by simpa using hpre)
  · rintro ⟨hop, hrest⟩ pre op' hpre
    cases pre with
    | nil =>
      obtain rfl : op' = op := by simpa using hpre
      exact hop
    | cons first pre =>
      rw [List.cons_append, List.cons_prefix_cons] at hpre
      obtain ⟨rfl, hrestPre⟩ := hpre
      exact hrest pre op' hrestPre

theorem AllSafe.after {pre : List ι} (h : AllSafe step Safe s (pre ++ ops)) :
    AllSafe step Safe (run step s pre) ops := by
  intro mid op hmid
  rw [← run_append]
  apply h
  rw [List.append_assoc]
  exact (List.prefix_append_right_inj pre).mpr hmid

theorem AllSafe.append {pre : List ι} (hpre : AllSafe step Safe s pre)
    (hrest : AllSafe step Safe (run step s pre) ops) : AllSafe step Safe s (pre ++ ops) := by
  induction pre generalizing s with
  | nil => exact hrest
  | cons first pre ih =>
    obtain ⟨hfirst, hmore⟩ := allSafe_cons.mp hpre
    exact allSafe_cons.mpr ⟨hfirst, ih hmore hrest⟩

theorem allSafe_congr {Safe' : σ → ι → Prop} (h : ∀ s op, Safe s op ↔ Safe' s op) :
    AllSafe step Safe s ops ↔ AllSafe step Safe' s ops := by
  constructor
  · intro hsafe pre op hpre
    exact (h _ op).mp (hsafe pre op hpre)
  · intro hsafe pre op hpre
    exact (h _ op).mpr (hsafe pre op hpre)

instance decidableAllSafe [∀ s op, Decidable (Safe s op)] :
    (s : σ) → (ops : List ι) → Decidable (AllSafe step Safe s ops)
  | _, [] => .isTrue allSafe_nil
  | s, op :: ops =>
    have := decidableAllSafe (step s op) ops
    decidable_of_iff _ allSafe_cons.symm

/-- A rewriting of states and operations that goes past every safe step goes past a whole
safe run, and what the steps put out is rewritten alike. -/
theorem run_rewritten {β : Type} {f : σ → σ} {g : ι → ι} {h : β → β} {out : σ → ι → Option β}
    (hstep : ∀ s op, Safe s op → step (f s) (g op) = f (step s op))
    (hout : ∀ s op, Safe s op → out (f s) (g op) = (out s op).map h)
    (hsafe : AllSafe step Safe s ops) :
    run step (f s) (ops.map g) = f (run step s ops) ∧
      trace step out (f s) (ops.map g) = (trace step out s ops).map h := by
  induction ops generalizing s with
  | nil => exact ⟨rfl, rfl⟩
  | cons op ops ih =>
    obtain ⟨hop, hrest⟩ := allSafe_cons.mp hsafe
    obtain ⟨hrun, htrace⟩ := ih hrest
    refine ⟨?_, ?_⟩
    · rw [List.map_cons, run, List.foldl_cons, hstep s op hop]
      exact hrun
    · rw [List.map_cons, trace, trace, hstep s op hop, hout s op hop, htrace, List.map_append]
      cases out s op <;> rfl

/-- Every state the run passes through is good. -/
def AllGood (step : σ → ι → σ) (Good : σ → Prop) (s : σ) (ops : List ι) : Prop :=
  ∀ pre, pre <+: ops → Good (run step s pre)

theorem invariant (hinit : Inv s) (hstep : ∀ s op, Inv s → Inv (step s op)) :
    Inv (run step s ops) := by
  induction ops using List.reverseRecOn with
  | nil => exact hinit
  | append_singleton ops op ih =>
    rw [run_append_singleton]
    exact hstep _ _ ih

theorem allGood_of_allSafe (hinit : Good s)
    (hstep : ∀ pre op, Good (run step s pre) → Safe (run step s pre) op →
      Good (step (run step s pre) op))
    (hsafe : AllSafe step Safe s ops) : AllGood step Good s ops := by
  intro pre hpre
  induction pre using List.reverseRecOn with
  | nil => exact hinit
  | append_singleton pre op ih =>
    rw [run_append_singleton]
    exact hstep pre op (ih ((List.prefix_append pre [op]).trans hpre)) (hsafe pre op hpre)

/-- When a step of the run from a good state is safe exactly if it leads to a good one, the
run stays good exactly if all its steps are safe. -/
theorem allGood_iff_allSafe_of_prefix (hinit : Good s)
    (hstep : ∀ pre op, pre ++ [op] <+: ops → Good (run step s pre) →
      (Good (step (run step s pre) op) ↔ Safe (run step s pre) op)) :
    AllGood step Good s ops ↔ AllSafe step Safe s ops := by
  constructor
  · intro hgood pre op hpre
    have hbefore := hgood pre ((List.prefix_append pre [op]).trans hpre)
    have hafter := hgood (pre ++ [op]) hpre
    rw [run_append_singleton] at hafter
    exact (hstep pre op hpre hbefore).mp hafter
  · intro hsafe pre hpre
    induction pre using List.reverseRecOn with
    | nil => exact hinit
    | append_singleton pre op ih =>
      rw [run_append_singleton]
      exact (hstep pre op hpre (ih ((List.prefix_append pre [op]).trans hpre))).mpr
        (hsafe pre op hpre)

theorem allGood_iff_allSafe (hinit : Good s)
    (hstep : ∀ pre op, Good (run step s pre) →
      (Good (step (run step s pre) op) ↔ Safe (run step s pre) op)) :
    AllGood step Good s ops ↔ AllSafe step Safe s ops :=
  allGood_iff_allSafe_of_prefix hinit fun pre op _ => hstep pre op

end Run

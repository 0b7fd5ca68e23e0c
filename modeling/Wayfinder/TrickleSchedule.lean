import Wayfinder.Lib.Run
import Wayfinder.Trickle

/-!
# What the Trickle timer schedules

The interval stays within its bounds and doubles with every emission. The wait for the next
emission is drawn from the upper half of the interval, as far as the interval counts at least
two nanoseconds and fits in sixty-four bits.
-/

namespace Wayfinder

set_option autoImplicit false

/-! ### The generator -/

section Xorshift
variable {w n : Nat} {x : BitVec w}

/-- The lowest bit that is set has no other bit to cancel it. -/
theorem xor_shiftLeft_ne_zero (hn : 0 < n) (hx : x ≠ 0) : x ^^^ (x <<< n) ≠ 0 := by
  intro hzero
  have heq : x = x <<< n := BitVec.xor_eq_zero_iff.mp hzero
  have hbit : ∀ i, x.getLsbD i = false := by
    intro i
    induction i using Nat.strong_induction_on with
    | _ i ih =>
      rw [heq, BitVec.getLsbD_shiftLeft]
      by_cases hi : i < n
      · simp [hi]
      · rw [ih (i - n) (by omega), Bool.and_false]
  apply hx
  apply BitVec.eq_of_getLsbD_eq
  intro i _
  rw [hbit]
  exact BitVec.getLsbD_zero.symm

/-- The highest bit that is set has no other bit to cancel it. -/
theorem xor_ushiftRight_ne_zero (hn : 0 < n) (hx : x ≠ 0) : x ^^^ (x >>> n) ≠ 0 := by
  intro hzero
  have heq : x = x >>> n := BitVec.xor_eq_zero_iff.mp hzero
  have hbit : ∀ d i, w ≤ i + d → x.getLsbD i = false := by
    intro d
    induction d with
    | zero =>
      intro i hi
      exact BitVec.getLsbD_of_ge x i (by omega)
    | succ d ih =>
      intro i hi
      rw [heq, BitVec.getLsbD_ushiftRight]
      exact ih (n + i) (by omega)
  apply hx
  apply BitVec.eq_of_getLsbD_eq
  intro i _
  rw [hbit w i (by omega)]
  exact BitVec.getLsbD_zero.symm

end Xorshift

/-- `Duration::MAX`, in nanoseconds. -/
def durationMax : Nat := 2 ^ 64 * 10 ^ 9 - 1

namespace TrickleTimer

variable {t t' : TrickleTimer} {now : Duration}

theorem nextRand_ne_zero (h : t.rng ≠ 0) : t.nextRand.1.rng ≠ 0 := by
  unfold nextRand
  dsimp only
  apply xor_shiftLeft_ne_zero (by decide)
  apply xor_ushiftRight_ne_zero (by decide)
  exact xor_shiftLeft_ne_zero (by decide) h

theorem jittered_rng (h : t.rng ≠ 0) (span : Duration) : (t.jittered span).1.rng ≠ 0 :=
  nextRand_ne_zero h

/-! ### What is drawn -/

/-- A word scaled onto a window stays in it. -/
theorem scaled_lt (r : U32) {width : Nat} (hwidth : 0 < width) :
    r.toNat * width / 2 ^ 32 < width := by
  apply Nat.div_lt_of_lt_mul
  exact Nat.mul_lt_mul_of_pos_right r.isLt hwidth

/-- What sixty-four bits hold of an interval, its half and a word scaled onto the rest. -/
theorem drawn_iff {span scaled : Nat}
    (hscaled : scaled < max (span % 2 ^ 64 - span % 2 ^ 64 / 2) 1) :
    (0 < span % 2 ^ 64 / 2 + scaled ∧ span / 2 ≤ span % 2 ^ 64 / 2 + scaled ∧
      span % 2 ^ 64 / 2 + scaled < span) ↔ 2 ≤ span ∧ span < 2 ^ 64 := by
  by_cases hfits : span < 2 ^ 64
  · rw [Nat.mod_eq_of_lt hfits] at hscaled ⊢
    omega
  · omega

theorem scaled_jittered (t : TrickleTimer) (span : Nat) :
    t.nextRand.2.toNat * max (span % 2 ^ 64 - span % 2 ^ 64 / 2) 1 / 2 ^ 32 <
      max (span % 2 ^ 64 - span % 2 ^ 64 / 2) 1 :=
  scaled_lt t.nextRand.2 (Nat.lt_of_lt_of_le Nat.one_pos (Nat.le_max_right _ _))

/-- The wait is positive and in the upper half of the interval exactly if the interval is at
least two nanoseconds and fits in sixty-four bits. -/
theorem wait_in_half_iff (t : TrickleTimer) (span : Duration) :
    (0 < (t.jittered span).2 ∧ span / 2 ≤ (t.jittered span).2 ∧ (t.jittered span).2 < span) ↔
      2 ≤ span ∧ span < 2 ^ 64 :=
  drawn_iff (t.scaled_jittered span)

theorem half_add_scaled_le {span scaled : Nat}
    (hscaled : scaled < max (span % 2 ^ 64 - span % 2 ^ 64 / 2) 1) :
    span % 2 ^ 64 / 2 + scaled ≤ span := by
  have hmod := Nat.mod_le span (2 ^ 64)
  omega

theorem jittered_le (t : TrickleTimer) (span : Duration) : (t.jittered span).2 ≤ span :=
  half_add_scaled_le (t.scaled_jittered span)

/-! ### Sums that stop the program -/

/-- A timer whose first emission has an instant. -/
def new? (iMin iMax now : Duration) (seed : U32) : Option TrickleTimer :=
  let t := new iMin iMax now seed
  if t.nextFire ≤ durationMax then some t else none

def onEmit? (t : TrickleTimer) (now : Duration) : Option TrickleTimer :=
  if now + (t.jittered t.interval).2 ≤ durationMax ∧ t.interval * 2 ≤ durationMax then
    some (t.onEmit now)
  else none

def reset? (t : TrickleTimer) (now : Duration) : Option TrickleTimer :=
  if now + t.iMin ≤ durationMax ∧
      (now + t.iMin < t.nextFire → now + (t.jittered t.iMin).2 ≤ durationMax) then
    some (t.reset now)
  else none

theorem reset_nextFire (t : TrickleTimer) (now : Duration) :
    (t.reset now).nextFire ≤ t.nextFire ∧ (t.reset now).nextFire ≤ now + t.iMin := by
  unfold reset
  dsimp only
  split
  · rename_i hlater
    have hle := Nat.add_le_add_left (jittered_le { t with interval := t.iMin } t.iMin) now
    exact ⟨Nat.le_trans hle (Nat.le_of_lt hlater), hle⟩
  · rename_i hsoon
    exact ⟨Nat.le_refl _, Nat.not_lt.mp hsoon⟩

theorem onEmit?_eq_some : t.onEmit? now = some t' ↔
    (now + (t.jittered t.interval).2 ≤ durationMax ∧ t.interval * 2 ≤ durationMax) ∧
      t.onEmit now = t' := by
  unfold onEmit?
  simp

/-- Where `now + i_min` is in range, so is what is drawn. -/
theorem reset?_eq_some : t.reset? now = some t' ↔
    now + t.iMin ≤ durationMax ∧ t.reset now = t' := by
  have hdrawn : now + t.iMin ≤ durationMax → now + (t.jittered t.iMin).2 ≤ durationMax :=
    Nat.le_trans (Nat.add_le_add_left (t.jittered_le t.iMin) now)
  unfold reset?
  constructor
  · intro h
    split at h
    · rename_i hsum
      exact ⟨hsum.1, Option.some.inj h⟩
    · cases h
  · intro ⟨hsum, hreset⟩
    rw [if_pos ⟨hsum, fun _ => hdrawn hsum⟩, hreset]

end TrickleTimer

/-! ### Runs -/

inductive TrickleOp where
  | emit (now : Duration)
  | reset (now : Duration)
  | query (now : Duration)

namespace TrickleOp

/-- A sum or product that is out of range stops the program. -/
def step : Option TrickleTimer → TrickleOp → Option TrickleTimer
  | some t, .emit now => t.onEmit? now
  | some t, .reset now => t.reset? now
  | some t, .query _ => some t
  | none, _ => none

theorem step_emit (t : TrickleTimer) (now : Duration) :
    step (some t) (.emit now) = t.onEmit? now := rfl

theorem step_reset (t : TrickleTimer) (now : Duration) :
    step (some t) (.reset now) = t.reset? now := rfl

theorem step_query (t : TrickleTimer) (now : Duration) :
    step (some t) (.query now) = some t := rfl

theorem step_none (op : TrickleOp) : step none op = none := by
  cases op <;> rfl

def Scheduled : Option TrickleTimer → TrickleOp → Prop
  | some t, .emit now => ∃ t', t.onEmit? now = some t' ∧ now < t'.nextFire ∧
      now + t.interval / 2 ≤ t'.nextFire ∧ t'.nextFire < now + t.interval
  | some t, .reset now => ∃ t', t.reset? now = some t' ∧ t'.nextFire ≤ t.nextFire ∧
      t'.nextFire ≤ now + t.iMin
  | _, _ => True

/-- The interval counts two nanoseconds at least and fits in sixty-four bits, and the instant
is not out of range. -/
def Fits : Option TrickleTimer → TrickleOp → Prop
  | some t, .emit now => (2 ≤ t.interval ∧ t.interval < 2 ^ 64) ∧
      now + (t.jittered t.interval).2 ≤ durationMax
  | some t, .reset now => now + t.iMin ≤ durationMax
  | _, _ => True

instance : (s : Option TrickleTimer) → (op : TrickleOp) → Decidable (Fits s op)
  | some t, .emit now => inferInstanceAs (Decidable ((2 ≤ t.interval ∧ t.interval < 2 ^ 64) ∧
      now + (t.jittered t.interval).2 ≤ durationMax))
  | some t, .reset now => inferInstanceAs (Decidable (now + t.iMin ≤ durationMax))
  | some _, .query _ => .isTrue trivial
  | none, .emit _ => .isTrue trivial
  | none, .reset _ => .isTrue trivial
  | none, .query _ => .isTrue trivial

theorem scheduled_emit_iff (t : TrickleTimer) (now : Duration) :
    Scheduled (some t) (.emit now) ↔ Fits (some t) (.emit now) := by
  change _ ↔ (2 ≤ t.interval ∧ t.interval < 2 ^ 64) ∧ _
  rw [← t.wait_in_half_iff t.interval]
  constructor
  · intro ⟨t', hemit, hafter, hlow, hhigh⟩
    obtain ⟨⟨hsum, _⟩, rfl⟩ := TrickleTimer.onEmit?_eq_some.mp hemit
    change now < now + (t.jittered t.interval).2 at hafter
    change now + t.interval / 2 ≤ now + (t.jittered t.interval).2 at hlow
    change now + (t.jittered t.interval).2 < now + t.interval at hhigh
    refine ⟨⟨Nat.lt_add_right_iff_pos.mp hafter, Nat.add_le_add_iff_left.mp hlow,
      Nat.add_lt_add_iff_left.mp hhigh⟩, hsum⟩
  · intro ⟨⟨hpos, hlow, hhigh⟩, hsum⟩
    have hfits := ((t.wait_in_half_iff t.interval).mp ⟨hpos, hlow, hhigh⟩).2
    have hdouble : t.interval * 2 ≤ durationMax :=
      Nat.le_trans (Nat.mul_le_mul_right 2 (Nat.le_of_lt hfits)) (by decide)
    refine ⟨t.onEmit now, TrickleTimer.onEmit?_eq_some.mpr ⟨⟨hsum, hdouble⟩, rfl⟩, ?_, ?_, ?_⟩
    · exact Nat.lt_add_of_pos_right hpos
    · exact Nat.add_le_add_left hlow now
    · exact Nat.add_lt_add_left hhigh now

theorem scheduled_reset_iff (t : TrickleTimer) (now : Duration) :
    Scheduled (some t) (.reset now) ↔ Fits (some t) (.reset now) := by
  unfold Scheduled Fits
  constructor
  · intro ⟨t', hreset, _⟩
    exact (TrickleTimer.reset?_eq_some.mp hreset).1
  · intro hsum
    exact ⟨t.reset now, TrickleTimer.reset?_eq_some.mpr ⟨hsum, rfl⟩, t.reset_nextFire now⟩

theorem scheduled_iff_fits (s : Option TrickleTimer) (op : TrickleOp) :
    Scheduled s op ↔ Fits s op := by
  cases s with
  | none => cases op <;> exact Iff.rfl
  | some t =>
    cases op with
    | emit now => exact scheduled_emit_iff t now
    | reset now => exact scheduled_reset_iff t now
    | query now => exact Iff.rfl

def backoffs : List TrickleOp → Nat :=
  Run.run (fun k op =>
    match op with
    | .emit _ => k + 1
    | .reset _ => 0
    | .query _ => k) 0

/-- A duration as the configuration gives it, a number of milliseconds in sixty-four bits. -/
def Configured (d : Duration) : Prop := ∃ ms : Nat, ms < 2 ^ 64 ∧ d = ms * 10 ^ 6

/-- What holds of the timer after any operations. -/
structure Kept (iMin iMax : Duration) (ops : List TrickleOp) (t : TrickleTimer) : Prop where
  floor : t.iMin = max iMin 1
  ceiling : t.iMax = max iMax (max iMin 1)
  bounds : t.iMin ≤ t.interval ∧ t.interval ≤ t.iMax
  rng : t.rng ≠ 0
  backoff : t.interval = min (t.iMin * 2 ^ backoffs ops) t.iMax

section Kept
variable {iMin iMax now : Duration} {seed : U32} {ops : List TrickleOp} {t t' : TrickleTimer}

theorem kept_new (h : TrickleTimer.new? iMin iMax now seed = some t) : Kept iMin iMax [] t := by
  unfold TrickleTimer.new? at h
  dsimp only at h
  split at h
  · obtain rfl := Option.some.inj h
    have hle : max iMin 1 ≤ max iMax (max iMin 1) := Nat.le_max_right _ _
    refine ⟨rfl, rfl, ⟨Nat.le_refl _, hle⟩, ?_, ?_⟩
    · unfold TrickleTimer.new
      dsimp only
      apply TrickleTimer.jittered_rng
      dsimp only
      split
      · decide
      · rename_i hne
        exact hne
    · change max iMin 1 = min (max iMin 1 * 2 ^ 0) (max iMax (max iMin 1))
      rw [Nat.pow_zero, Nat.mul_one, Nat.min_eq_left hle]
  · cases h

theorem Kept.emit (h : Kept iMin iMax ops t) (now : Duration) :
    Kept iMin iMax (ops ++ [.emit now]) (t.onEmit now) := by
  obtain ⟨hlow, hhigh⟩ := h.bounds
  have hcount : backoffs (ops ++ [.emit now]) = backoffs ops + 1 := by
    unfold backoffs
    rw [Run.run_append_singleton]
  have hrng := TrickleTimer.jittered_rng h.rng t.interval
  refine ⟨h.floor, h.ceiling, ⟨?_, Nat.min_le_right _ _⟩, hrng, ?_⟩
  · change t.iMin ≤ min (t.interval * 2) t.iMax
    apply Nat.le_min.mpr
    constructor
    · exact Nat.le_trans hlow (Nat.le_mul_of_pos_right _ (by decide))
    · exact Nat.le_trans hlow hhigh
  · change min (t.interval * 2) t.iMax = min (t.iMin * 2 ^ _) t.iMax
    rw [hcount, Nat.pow_succ, ← Nat.mul_assoc]
    have hbackoff := h.backoff
    generalize t.iMin * 2 ^ backoffs ops = doubled at hbackoff
    rcases Nat.le_total doubled t.iMax with hle | hle
    · rw [hbackoff, Nat.min_eq_left hle]
    · rw [hbackoff, Nat.min_eq_right hle, Nat.min_eq_right, Nat.min_eq_right]
      · exact Nat.le_trans hle (Nat.le_mul_of_pos_right _ (by decide))
      · exact Nat.le_mul_of_pos_right _ (by decide)

theorem reset_bounds (t : TrickleTimer) (now : Duration) :
    (t.reset now).iMin = t.iMin ∧ (t.reset now).iMax = t.iMax ∧
      (t.reset now).interval = t.iMin ∧ (t.rng ≠ 0 → (t.reset now).rng ≠ 0) := by
  unfold TrickleTimer.reset
  dsimp only
  split
  · refine ⟨rfl, rfl, rfl, ?_⟩
    intro hrng
    exact TrickleTimer.jittered_rng (t := { t with interval := t.iMin }) hrng t.iMin
  · exact ⟨rfl, rfl, rfl, id⟩

theorem Kept.reset (h : Kept iMin iMax ops t) (now : Duration) :
    Kept iMin iMax (ops ++ [.reset now]) (t.reset now) := by
  obtain ⟨hlow, hhigh⟩ := h.bounds
  obtain ⟨hfloor, hceiling, hinterval, hrng⟩ := reset_bounds t now
  have hcount : backoffs (ops ++ [.reset now]) = 0 := by
    unfold backoffs
    rw [Run.run_append_singleton]
  constructor
  · rw [hfloor]
    exact h.floor
  · rw [hceiling]
    exact h.ceiling
  · rw [hfloor, hceiling, hinterval]
    exact ⟨Nat.le_refl _, Nat.le_trans hlow hhigh⟩
  · exact hrng h.rng
  · rw [hfloor, hceiling, hinterval, hcount, Nat.pow_zero, Nat.mul_one,
      Nat.min_eq_left (Nat.le_trans hlow hhigh)]

theorem Kept.query (h : Kept iMin iMax ops t) (now : Duration) :
    Kept iMin iMax (ops ++ [.query now]) t := by
  have hcount : backoffs (ops ++ [.query now]) = backoffs ops := by
    unfold backoffs
    rw [Run.run_append_singleton]
  refine ⟨h.floor, h.ceiling, h.bounds, h.rng, ?_⟩
  rw [hcount]
  exact h.backoff

theorem run_kept (iMin iMax now : Duration) (seed : U32) (ops : List TrickleOp) :
    ∀ t, Run.run step (TrickleTimer.new? iMin iMax now seed) ops = some t →
      Kept iMin iMax ops t := by
  induction ops using List.reverseRecOn with
  | nil =>
    intro t ht
    rw [Run.run_nil] at ht
    exact kept_new ht
  | append_singleton ops op ih =>
    intro t' ht'
    rw [Run.run_append_singleton] at ht'
    cases hbefore : Run.run step (TrickleTimer.new? iMin iMax now seed) ops with
    | none =>
      rw [hbefore, step_none] at ht'
      cases ht'
    | some t =>
      have h := ih t hbefore
      rw [hbefore] at ht'
      cases op with
      | emit now =>
        rw [step_emit] at ht'
        obtain ⟨_, rfl⟩ := TrickleTimer.onEmit?_eq_some.mp ht'
        exact h.emit now
      | reset now =>
        rw [step_reset] at ht'
        obtain ⟨_, rfl⟩ := TrickleTimer.reset?_eq_some.mp ht'
        exact h.reset now
      | query now =>
        rw [step_query] at ht'
        obtain rfl := Option.some.inj ht'
        exact h.query now

theorem doubled_in_range {minMs maxMs interval : Nat} (hmin : minMs < 2 ^ 64)
    (hmax : maxMs < 2 ^ 64) (h : interval ≤ max (maxMs * 10 ^ 6) (max (minMs * 10 ^ 6) 1)) :
    interval * 2 ≤ durationMax := by
  unfold durationMax
  omega

theorem Kept.doubles (h : Kept iMin iMax ops t) (hmin : Configured iMin)
    (hmax : Configured iMax) : t.interval * 2 ≤ durationMax := by
  obtain ⟨minMs, hminMs, rfl⟩ := hmin
  obtain ⟨maxMs, hmaxMs, rfl⟩ := hmax
  have hhigh := h.bounds.2
  rw [h.ceiling] at hhigh
  exact doubled_in_range hminMs hmaxMs hhigh

end Kept

/-- Whatever happens to a timer: it keeps its bounds, backs off by doubling and never loses
its generator; and each emission and reset schedules the next emission where it should be
exactly if the interval and the instant fit. -/
theorem schedule_holds_iff (iMin iMax now : Duration) (seed : U32) (ops : List TrickleOp) :
    ((∀ pre, pre <+: ops → ∀ t, Run.run step (TrickleTimer.new? iMin iMax now seed) pre = some t →
        Kept iMin iMax pre t ∧
          (Configured iMin → Configured iMax → t.interval * 2 ≤ durationMax)) ∧
      Run.AllSafe step Scheduled (TrickleTimer.new? iMin iMax now seed) ops) ↔
    Run.AllSafe step Fits (TrickleTimer.new? iMin iMax now seed) ops := by
  rw [← Run.allSafe_congr scheduled_iff_fits]
  constructor
  · intro h
    exact h.2
  · intro h
    refine ⟨?_, h⟩
    intro pre _ t ht
    have hkept := run_kept iMin iMax now seed pre t ht
    exact ⟨hkept, hkept.doubles⟩

/-- A configuration of zero milliseconds, and one of more than five hundred years. -/
theorem unfit_intervals :
    ¬ Run.AllSafe step Scheduled (TrickleTimer.new? 0 0 0 7) [.emit 0] ∧
      ¬ Run.AllSafe step Scheduled
        (TrickleTimer.new? (18446744073710 * 10 ^ 6) (18446744073710 * 10 ^ 6) 0 7) [.emit 0] := by
  rw [Run.allSafe_congr scheduled_iff_fits, Run.allSafe_congr scheduled_iff_fits]
  decide +kernel

end TrickleOp

end Wayfinder

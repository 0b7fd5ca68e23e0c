import Wayfinder.Install

/-!
# The floor under the time

A node without a clock counts on from the last anchor it was given. Whatever anchors come and
whenever the estimate is read, it does not go back; and it stays behind the true time while the
anchors taken were and the monotonic clock does not run fast.
-/

namespace Wayfinder

set_option autoImplicit false

/-- One moment, as the monotonic clock shows it and as it is, in nanoseconds since the epoch. -/
structure Moment where
  monotonic : Duration
  real : Nat

def Moment.unix (m : Moment) : Nat := m.real / 1000000000

inductive FloorOp where
  | anchor (unix : Nat) (at_ : Moment)
  | installAnchor (installerUnix : Nat) (cert : VerifiedCert) (at_ : Moment)
  | read (at_ : Moment)

namespace FloorOp

def moment : FloorOp → Moment
  | .anchor _ at_ => at_
  | .installAnchor _ _ at_ => at_
  | .read at_ => at_

def offered : FloorOp → Option Nat
  | .anchor unix _ => some unix
  | .installAnchor installerUnix cert _ => some (max installerUnix cert.notBefore)
  | .read _ => none

end FloorOp

/-- A clock and the last moment at which it was touched. -/
structure KeptClock where
  clock : WallClock
  last : Moment

namespace KeptClock

def estimate (s : KeptClock) : Option Nat := s.clock.estimate s.last.monotonic

def posture (s : KeptClock) : Clocked := s.clock.posture s.last.monotonic

def step (s : KeptClock) (op : FloorOp) : KeptClock :=
  match op with
  | .anchor unix at_ => ⟨s.clock.anchorAt unix at_.monotonic, at_⟩
  | .installAnchor installerUnix cert at_ =>
    ⟨s.clock.installAnchor installerUnix cert at_.monotonic, at_⟩
  | .read at_ => ⟨s.clock, at_⟩

def fresh (start : Moment) : KeptClock := ⟨⟨none⟩, start⟩

/-! What is asked of the operations. -/

def Ordered (s : KeptClock) (op : FloorOp) : Prop :=
  s.last.monotonic ≤ op.moment.monotonic

instance (s : KeptClock) (op : FloorOp) : Decidable (Ordered s op) :=
  inferInstanceAs (Decidable (s.last.monotonic ≤ op.moment.monotonic))

def NeverFast (s : KeptClock) (op : FloorOp) : Prop :=
  s.last.real + (op.moment.monotonic - s.last.monotonic) ≤ op.moment.real

/-- An anchor that is taken is not ahead of the true second. -/
def Truthful (s : KeptClock) (op : FloorOp) : Prop :=
  ∀ unix, op.offered = some unix →
    (s.step op).clock.anchor = some (unix, op.moment.monotonic) → unix ≤ op.moment.unix

instance (s : KeptClock) (op : FloorOp) : Decidable (NeverFast s op) :=
  inferInstanceAs (Decidable (_ ≤ op.moment.real))

instance (s : KeptClock) (op : FloorOp) : Decidable (Truthful s op) :=
  match h : op.offered with
  | none => .isTrue fun unix hunix => by rw [h] at hunix; cases hunix
  | some offered =>
    decidable_of_iff ((s.step op).clock.anchor = some (offered, op.moment.monotonic) →
        offered ≤ op.moment.unix) <| by
      constructor
      · intro htrue unix hunix hput
        rw [h] at hunix
        obtain rfl := Option.some.inj hunix
        exact htrue hput
      · intro htrue
        exact htrue offered h

/-! ### One operation -/

section Step
variable {s : KeptClock} {op : FloorOp} {unix : Nat}

/-- All that an operation does: the moment moves on, and an anchor later than what the clock
believes by then may be put in. -/
theorem step_cases (s : KeptClock) (op : FloorOp) :
    (s.step op).last = op.moment ∧ ((s.step op).clock = s.clock ∨
      ∃ unix, op.offered = some unix ∧
        (s.step op).clock = ⟨some (unix, op.moment.monotonic)⟩ ∧
          ∀ current, s.clock.estimate op.moment.monotonic = some current → current < unix) := by
  have htaken : ∀ (unix : Nat) (now : Duration), s.clock.anchorAt unix now = s.clock ∨
      s.clock.anchorAt unix now = ⟨some (unix, now)⟩ ∧
        ∀ current, s.clock.estimate now = some current → current < unix := by
    intro unix now
    unfold WallClock.anchorAt
    split
    · exact Or.inl rfl
    split
    · exact Or.inl rfl
    · rename_i hlater
      refine Or.inr ⟨rfl, ?_⟩
      intro current hcurrent
      rw [hcurrent] at hlater
      simpa using hlater
  cases op with
  | anchor unix at_ =>
    refine ⟨rfl, ?_⟩
    rcases htaken unix at_.monotonic with hkept | hput
    · exact Or.inl hkept
    · exact Or.inr ⟨unix, rfl, hput⟩
  | installAnchor installerUnix cert at_ =>
    refine ⟨rfl, ?_⟩
    rcases htaken (max installerUnix cert.notBefore) at_.monotonic with hkept | hput
    · exact Or.inl hkept
    · exact Or.inr ⟨_, rfl, hput⟩
  | read at_ => exact ⟨rfl, Or.inl rfl⟩

theorem WallClock.estimate_mono {c : WallClock} {now later : Duration} (h : now ≤ later)
    {a : Nat} (ha : c.estimate now = some a) : ∃ b, c.estimate later = some b ∧ a ≤ b := by
  cases hanchor : c.anchor with
  | none =>
    rw [WallClock.estimate, hanchor] at ha
    cases ha
  | some anchor =>
    rw [WallClock.estimate, hanchor] at ha
    obtain rfl := Option.some.inj ha
    refine ⟨_, by rw [WallClock.estimate, hanchor]; rfl, ?_⟩
    have hpassed : now - anchor.2 ≤ later - anchor.2 := Nat.sub_le_sub_right h anchor.2
    have hsecs := Nat.div_le_div_right (c := 1000000000) hpassed
    have hsum := Nat.add_le_add_left hsecs anchor.1
    exact Nat.le_min.mpr ⟨(Nat.min_le_left _ _).trans hsum, Nat.min_le_right _ _⟩

theorem step_later (hordered : Ordered s op) {a : Nat} (ha : s.estimate = some a) :
    ∃ b, (s.step op).estimate = some b ∧ a ≤ b := by
  obtain ⟨current, hcurrent, hle⟩ := WallClock.estimate_mono hordered ha
  obtain ⟨hlast, hkept | ⟨unix, _, hput, hlater⟩⟩ := step_cases s op
  · refine ⟨current, ?_, hle⟩
    rw [estimate, hlast, hkept]
    exact hcurrent
  · refine ⟨min unix (2 ^ 64 - 1), ?_, ?_⟩
    · rw [estimate, hlast, hput, WallClock.estimate, Option.map_some, Nat.sub_self,
        Nat.zero_div, Nat.add_zero]
    · have hunix := hlater current hcurrent
      have hbound : current ≤ 2 ^ 64 - 1 := by
        obtain ⟨anchor, _, rfl⟩ := Option.map_eq_some_iff.mp hcurrent
        exact Nat.min_le_right _ _
      exact hle.trans (Nat.le_min.mpr ⟨Nat.le_of_lt hunix, hbound⟩)

/-- Anchor and time since then stay within the true time. -/
def Behind (s : KeptClock) : Prop :=
  ∀ unix at_, s.clock.anchor = some (unix, at_) →
    at_ ≤ s.last.monotonic ∧ unix * 1000000000 + (s.last.monotonic - at_) ≤ s.last.real

theorem Behind.step (h : s.Behind) (hordered : Ordered s op) (hslow : NeverFast s op)
    (htrue : Truthful s op) : (s.step op).Behind := by
  intro unix at_ hanchor
  obtain ⟨hlast, hkept | ⟨offered, hoffered, hput, _⟩⟩ := step_cases s op
  · rw [hkept] at hanchor
    obtain ⟨hpast, hreal⟩ := h unix at_ hanchor
    rw [hlast]
    unfold Ordered at hordered
    unfold NeverFast at hslow
    refine ⟨hpast.trans hordered, ?_⟩
    have hsplit : op.moment.monotonic - at_ =
        op.moment.monotonic - s.last.monotonic + (s.last.monotonic - at_) :=
      (Nat.sub_add_sub_cancel hordered hpast).symm
    rw [hsplit]
    calc unix * 1000000000 + (op.moment.monotonic - s.last.monotonic + (s.last.monotonic - at_))
        = unix * 1000000000 + (s.last.monotonic - at_) +
          (op.moment.monotonic - s.last.monotonic) := by
            rw [Nat.add_comm (op.moment.monotonic - s.last.monotonic), Nat.add_assoc]
      _ ≤ s.last.real + (op.moment.monotonic - s.last.monotonic) :=
        Nat.add_le_add_right hreal _
      _ ≤ op.moment.real := hslow
  · have hunix := htrue offered hoffered (congrArg WallClock.anchor hput)
    rw [hput] at hanchor
    obtain ⟨rfl, rfl⟩ := Prod.mk.inj (Option.some.inj hanchor)
    rw [hlast]
    refine ⟨Nat.le_refl _, ?_⟩
    rw [Nat.sub_self, Nat.add_zero]
    exact (Nat.mul_le_mul_right _ hunix).trans (Nat.div_mul_le_self _ _)

theorem Behind.estimate_le (h : s.Behind) {a : Nat} (ha : s.estimate = some a) :
    a ≤ s.last.unix := by
  obtain ⟨anchor, hanchor, rfl⟩ := Option.map_eq_some_iff.mp ha
  obtain ⟨_, hreal⟩ := h anchor.1 anchor.2 hanchor
  have hsecs : anchor.1 + (s.last.monotonic - anchor.2) / 1000000000 =
      (anchor.1 * 1000000000 + (s.last.monotonic - anchor.2)) / 1000000000 := by
    rw [Nat.add_comm (anchor.1 * 1000000000), Nat.add_mul_div_right _ _ (by decide),
      Nat.add_comm]
  rw [hsecs]
  exact (Nat.min_le_left _ _).trans (Nat.div_le_div_right hreal)

end Step

/-! ### Certificates -/

section Certificates
variable {s : KeptClock} {k : Crypto} {anchor : TrustAnchor} {cert : MembershipCert}

theorem posture_not_notYetValid :
    anchor.verifyCert k cert s.posture ≠ .error .notYetValid := by
  have hbefore : s.posture.provesBefore cert.notBefore.get = false := by
    unfold posture WallClock.posture
    split
    · rfl
    · rfl
  unfold TrustAnchor.verifyCert
  rw [hbefore]
  intro h
  repeat' split at h
  all_goals contradiction

theorem expired_of_verifyCert (h : anchor.verifyCert k cert s.posture = .error .expired) :
    ∃ a, s.estimate = some a ∧ cert.notAfter.get < a := by
  have hpast : s.posture.provesPast cert.notAfter.get = true := by
    unfold TrustAnchor.verifyCert at h
    repeat' split at h
    all_goals first | assumption | cases h
  cases hestimate : s.estimate with
  | none =>
    unfold estimate at hestimate
    unfold posture WallClock.posture at hpast
    rw [hestimate] at hpast
    cases hpast
  | some a =>
    unfold estimate at hestimate
    unfold posture WallClock.posture at hpast
    rw [hestimate] at hpast
    exact ⟨a, rfl, of_decide_eq_true hpast⟩

end Certificates

/-! ### Whole runs -/

section Runs
variable {s : KeptClock} {start : Moment} {ops : List FloorOp}

theorem run_later (hordered : Run.AllSafe step Ordered s ops) {a : Nat}
    (ha : s.estimate = some a) : ∃ b, (Run.run step s ops).estimate = some b ∧ a ≤ b := by
  induction ops generalizing s a with
  | nil => exact ⟨a, ha, Nat.le_refl a⟩
  | cons op ops ih =>
    obtain ⟨hop, hrest⟩ := Run.allSafe_cons.mp hordered
    obtain ⟨b, hb, hab⟩ := step_later hop ha
    obtain ⟨c, hc, hbc⟩ := ih hrest hb
    exact ⟨c, hc, hab.trans hbc⟩

theorem run_behind (hordered : Run.AllSafe step Ordered (fresh start) ops)
    (hslow : Run.AllSafe step NeverFast (fresh start) ops)
    (htrue : Run.AllSafe step Truthful (fresh start) ops) :
    Run.AllGood step Behind (fresh start) ops := by
  have hsafe : Run.AllSafe step (fun s op => Ordered s op ∧ NeverFast s op ∧ Truthful s op)
      (fresh start) ops := by
    intro pre op hpre
    exact ⟨hordered pre op hpre, hslow pre op hpre, htrue pre op hpre⟩
  refine Run.allGood_of_allSafe ?_ ?_ hsafe
  · intro unix at_ hanchor
    cases hanchor
  · intro pre op hbehind hop
    exact hbehind.step hop.1 hop.2.1 hop.2.2

/-- Once there is an estimate it stays and never decreases. It is never ahead of the true
second, and no certificate is refused as expired before its time, while the anchors taken are
true and the monotonic clock is not fast. No certificate is ever refused as not valid yet. -/
theorem estimate_is_floor (hordered : Run.AllSafe step Ordered (fresh start) ops) :
    (∀ pre mid, pre <+: mid → mid <+: ops →
      ∀ a, (Run.run step (fresh start) pre).estimate = some a →
        ∃ b, (Run.run step (fresh start) mid).estimate = some b ∧ a ≤ b) ∧
      (Run.AllSafe step NeverFast (fresh start) ops →
        Run.AllSafe step Truthful (fresh start) ops → ∀ pre, pre <+: ops →
          (∀ a, (Run.run step (fresh start) pre).estimate = some a →
            a ≤ (Run.run step (fresh start) pre).last.unix) ∧
          ∀ k anchor cert, TrustAnchor.verifyCert k anchor cert
              (Run.run step (fresh start) pre).posture = .error .expired →
            cert.notAfter.get < (Run.run step (fresh start) pre).last.unix) ∧
      ∀ pre, pre <+: ops → ∀ k anchor cert, TrustAnchor.verifyCert k anchor cert
        (Run.run step (fresh start) pre).posture ≠ .error .notYetValid := by
  refine ⟨?_, ?_, ?_⟩
  · rintro pre mid ⟨between, rfl⟩ ⟨rest, rfl⟩ a ha
    rw [Run.run_append]
    apply run_later _ ha
    intro first op hfirst
    rw [List.append_assoc] at hordered
    exact hordered.after first op (hfirst.trans (List.prefix_append between rest))
  · intro hslow htrue pre hpre
    have hbehind := run_behind hordered hslow htrue pre hpre
    refine ⟨fun a ha => hbehind.estimate_le ha, ?_⟩
    intro k anchor cert hexpired
    obtain ⟨a, ha, hpast⟩ := expired_of_verifyCert hexpired
    exact hpast.trans_le (hbehind.estimate_le ha)
  · intro pre _ k anchor cert
    exact posture_not_notYetValid

/-- Anchored at the start of 2025, read a minute later, and anchored again. -/
theorem anchored_twice_behind :
    let ops := [.anchor 1735689600 ⟨0, 1735689600000000000⟩,
      .read ⟨60000000000, 1735689660000000000⟩,
      .anchor 1735689700 ⟨70500000000, 1735689700500000000⟩]
    ∀ a, (Run.run step (fresh ⟨0, 1735689600000000000⟩) ops).estimate = some a →
      a ≤ (Run.run step (fresh ⟨0, 1735689600000000000⟩) ops).last.unix :=
  ((estimate_is_floor (by decide +kernel)).2.1 (by decide +kernel) (by decide +kernel) _
    (List.prefix_refl _)).1

end Runs

end KeptClock

end Wayfinder

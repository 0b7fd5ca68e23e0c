import Wayfinder.Authority.Issue
import Wayfinder.Lib.Fallible
import Wayfinder.Lib.Run

/-!
# The enrolment policy over restarts

A provider starts from its configuration, runs under the overrides its operator makes, and
finds them again at the next start in the database its configuration names. The lifetime of
a certificate comes in by three doors: the configuration and an update are checked against
the cap and not against zero, and an override that is found again is not checked at all.
-/

namespace Wayfinder

set_option autoImplicit false

open Fallible

structure EnrollmentPolicy where
  autoApprove : Bool
  certTtlSecs : Nat
  enrollmentToken : Option String
  deriving DecidableEq

def CertAuthority.policy (ca : CertAuthority) : EnrollmentPolicy :=
  ⟨ca.autoApprove, ca.certTtlSecs, ca.enrollmentToken⟩

def ProviderConfig.policy (cfg : ProviderConfig) : EnrollmentPolicy :=
  ⟨cfg.autoApprove, cfg.certTtlSecs, cfg.enrollmentToken⟩

/-- A policy with the operator's overrides over it. -/
def EnrollmentPolicy.under (base : EnrollmentPolicy) (overrides : PolicyOverrides) :
    EnrollmentPolicy where
  autoApprove := overrides.autoApprove.getD base.autoApprove
  certTtlSecs := overrides.certTtlSecs.getD base.certTtlSecs
  enrollmentToken :=
    match overrides.enrollmentToken with
    | some .cleared => none
    | some (.set token) => some token
    | none => base.enrollmentToken

/-! ### A provider and its host -/

/-- An authority that was started, its configuration, and the database it keeps its log in,
if it keeps it at all. -/
structure Provider where
  ca : CertAuthority
  cfg : ProviderConfig
  statePath : Option String

/-- The databases there are, and the provider while it runs. -/
structure ProviderHost where
  disk : String → Option CaLog
  running : Option Provider

inductive ProviderOp where
  | update (commits : Bool) (update : EnrollmentPolicyData)
  | restart (authority : Authority) (cfg : ProviderConfig) (statePath : Option String)
      (opens : Bool) (nowUnix : Nat)

namespace ProviderHost

def empty : ProviderHost := ⟨fun _ => none, none⟩

def store (disk : String → Option CaLog) (statePath : Option String) (log : CaLog) :
    String → Option CaLog :=
  match statePath with
  | none => disk
  | some path => Function.update disk path (some log)

/-- An update of the running authority. One that keeps its log in memory commits at once. -/
def updatePolicy (commits : Bool) (update : EnrollmentPolicyData) (p : Provider) :
    Except String Unit × CertAuthority :=
  p.ca.setEnrollmentPolicy ⟨true, commits || p.statePath.isNone⟩ update

/-- A start that fails, for its configuration or its database, leaves no provider. -/
def start (host : ProviderHost) (authority : Authority) (cfg : ProviderConfig)
    (statePath : Option String) (opens : Bool) (nowUnix : Nat) : Option Provider :=
  if opens then
    match CertAuthority.fromConfig authority cfg (statePath.bind host.disk) nowUnix with
    | .ok ca => some ⟨ca, cfg, statePath⟩
    | .error _ => none
  else none

def step (host : ProviderHost) : ProviderOp → ProviderHost
  | .update commits update =>
    match host.running with
    | none => host
    | some p =>
      match updatePolicy commits update p with
      | (.error _, ca) => { host with running := some { p with ca := ca } }
      | (.ok (), ca) => ⟨store host.disk p.statePath ca.log, some { p with ca := ca }⟩
  | .restart authority cfg statePath opens nowUnix =>
    match host.start authority cfg statePath opens nowUnix with
    | none => { host with running := none }
    | some p => ⟨store host.disk statePath p.ca.log, some p⟩

/-! ### What is promised of the lifetime -/

def InBounds (ttlSecs : Nat) : Prop := 0 < ttlSecs ∧ ttlSecs ≤ maxCertTtlSecs

/-- Unless the operator took the escape, the lifetime in force is within its bounds. -/
def Bounded (host : ProviderHost) : Prop :=
  ∀ p, host.running = some p → p.ca.allowUnboundedCertTtl = false → InBounds p.ca.certTtlSecs

/-- The override a start finds. -/
def foundTtl (host : ProviderHost) (statePath : Option String) : Option Nat :=
  (statePath.bind host.disk).bind fun log => log.policy.certTtlSecs

/-- No lifetime of zero is recorded, and a start without the escape finds no override out of
bounds and, where it finds none, no zero in its configuration. -/
def Checked (host : ProviderHost) : ProviderOp → Prop
  | .update commits update => ∀ p, host.running = some p → p.ca.allowUnboundedCertTtl = false →
    (commits || p.statePath.isNone) = true → update.certTtlSecs ≠ some 0
  | .restart _ cfg statePath opens _ => opens = true → cfg.allowUnboundedCertTtl = false →
    cfg.certTtlSecs ≤ maxCertTtlSecs →
      match host.foundTtl statePath with
      | some ttl => InBounds ttl
      | none => cfg.certTtlSecs ≠ 0

end ProviderHost

/-! ### Starting and updating -/

section Policy
variable {ca : CertAuthority}

theorem checkCertTtl_ok_iff (ttl : Nat) (allow : Bool) :
    checkCertTtl ttl allow = .ok () ↔ allow = true ∨ ttl ≤ maxCertTtlSecs := by
  unfold checkCertTtl
  split
  · rename_i h
    simpa using h
  · rename_i h
    simpa using h

theorem applyPolicyOverrides_policy (ca : CertAuthority) :
    ca.applyPolicyOverrides.policy = ca.policy.under ca.log.policy := rfl

theorem fromConfig_ok {authority : Authority} {cfg : ProviderConfig} {stored : Option CaLog}
    {nowUnix : Nat} (h : CertAuthority.fromConfig authority cfg stored nowUnix = .ok ca) :
    checkCertTtl cfg.certTtlSecs cfg.allowUnboundedCertTtl = .ok () ∧
      ca.log = stored.getD .empty ∧ ca.allowUnboundedCertTtl = cfg.allowUnboundedCertTtl ∧
      ca.policy = cfg.policy.under ca.log.policy := by
  unfold CertAuthority.fromConfig at h
  obtain ⟨_, hcheck, h⟩ := exists_of_bind_ok h
  obtain rfl := Except.ok.inj h
  exact ⟨hcheck, rfl, rfl, rfl⟩

theorem fromConfig_accepts (authority : Authority) {cfg : ProviderConfig} (stored : Option CaLog)
    (nowUnix : Nat) (h : checkCertTtl cfg.certTtlSecs cfg.allowUnboundedCertTtl = .ok ()) :
    ∃ ca, CertAuthority.fromConfig authority cfg stored nowUnix = .ok ca := by
  unfold CertAuthority.fromConfig
  rw [h]
  exact ⟨_, rfl⟩

theorem under_overlay (base : EnrollmentPolicy) (overrides : PolicyOverrides)
    (update : EnrollmentPolicyData) :
    (base.under overrides).under (CertAuthority.PolicyOverrides.overlay overrides update) =
      base.under (CertAuthority.PolicyOverrides.overlay overrides update) := by
  obtain ⟨auto, ttl, token⟩ := overrides
  obtain ⟨newAuto, newTtl, newToken⟩ := update
  unfold EnrollmentPolicy.under CertAuthority.PolicyOverrides.overlay
  dsimp only
  congr 1
  · cases newAuto <;> cases auto <;> rfl
  · cases newTtl <;> cases ttl <;> rfl
  · cases newToken with
    | some update => cases update <;> rfl
    | none =>
      cases token with
      | none => rfl
      | some override => cases override <;> rfl

theorem setEnrollmentPolicy_cases (ca : CertAuthority) (commits : Commits)
    (update : EnrollmentPolicyData) :
    (∃ e, ca.setEnrollmentPolicy commits update = (.error e, ca) ∧
        (commits.final = true → ∃ ttl, update.certTtlSecs = some ttl ∧
          checkCertTtl ttl ca.allowUnboundedCertTtl ≠ .ok ())) ∨
      ((ca.setEnrollmentPolicy commits update).1 = .ok () ∧
        (∀ ttl, update.certTtlSecs = some ttl →
          checkCertTtl ttl ca.allowUnboundedCertTtl = .ok ()) ∧
        (ca.setEnrollmentPolicy commits update).2.allowUnboundedCertTtl =
          ca.allowUnboundedCertTtl ∧
        (ca.setEnrollmentPolicy commits update).2.log.policy =
          CertAuthority.PolicyOverrides.overlay ca.log.policy update ∧
        (ca.setEnrollmentPolicy commits update).2.policy = ca.policy.under
          (CertAuthority.PolicyOverrides.overlay ca.log.policy update) ∧
        (commits.final = true ∨
          CertAuthority.PolicyOverrides.overlay ca.log.policy update = ca.log.policy)) := by
  unfold CertAuthority.setEnrollmentPolicy attempt
  cases hcheck : ca.checkPolicy update with
  | error e =>
    refine Or.inl ⟨e, rfl, fun _ => ?_⟩
    unfold CertAuthority.checkPolicy at hcheck
    cases httl : update.certTtlSecs with
    | none =>
      rw [httl] at hcheck
      cases hcheck
    | some ttl =>
      rw [httl] at hcheck
      refine ⟨ttl, rfl, ?_⟩
      intro hok
      have herror : checkCertTtl ttl ca.allowUnboundedCertTtl = .error e := hcheck
      rw [hok] at herror
      cases herror
  | ok _ =>
    have hchecked : ∀ ttl, update.certTtlSecs = some ttl →
        checkCertTtl ttl ca.allowUnboundedCertTtl = .ok () := by
      intro ttl httl
      unfold CertAuthority.checkPolicy at hcheck
      rw [httl] at hcheck
      exact hcheck
    dsimp only
    unfold CertAuthority.mutate
    by_cases hcommit : (commits.final || decide ({ ca.log with
        policy := CertAuthority.PolicyOverrides.overlay ca.log.policy update } = ca.log)) = true
    · rw [if_pos hcommit]
      refine Or.inr ⟨rfl, hchecked, rfl, rfl, rfl, ?_⟩
      rcases Bool.or_eq_true_iff.mp hcommit with hfinal | hsame
      · exact Or.inl hfinal
      · exact Or.inr (congrArg CaLog.policy (of_decide_eq_true hsame))
    · rw [if_neg hcommit]
      refine Or.inl ⟨_, rfl, fun hfinal => absurd ?_ hcommit⟩
      rw [hfinal, Bool.true_or]

end Policy

namespace ProviderHost

section Runs
variable {host : ProviderHost} {op : ProviderOp}

/-- A running provider runs under its configuration and the overrides of its log, and its
log is the one its database holds. -/
def Consistent (host : ProviderHost) : Prop :=
  ∀ p, host.running = some p →
    checkCertTtl p.cfg.certTtlSecs p.cfg.allowUnboundedCertTtl = .ok () ∧
      p.ca.allowUnboundedCertTtl = p.cfg.allowUnboundedCertTtl ∧
      p.ca.policy = p.cfg.policy.under p.ca.log.policy ∧
      ∀ path, p.statePath = some path → host.disk path = some p.ca.log

theorem store_self (disk : String → Option CaLog) (path : String) (log : CaLog) :
    store disk (some path) log path = some log := by
  unfold store
  exact Function.update_self path (some log) disk

theorem start_some {authority : Authority} {cfg : ProviderConfig} {statePath : Option String}
    {opens : Bool} {nowUnix : Nat} {p : Provider}
    (h : host.start authority cfg statePath opens nowUnix = some p) :
    opens = true ∧ p.cfg = cfg ∧ p.statePath = statePath ∧
      CertAuthority.fromConfig authority cfg (statePath.bind host.disk) nowUnix = .ok p.ca := by
  unfold start at h
  split at h
  · rename_i hopens
    cases hstart : CertAuthority.fromConfig authority cfg (statePath.bind host.disk) nowUnix with
    | error e =>
      rw [hstart] at h
      cases h
    | ok ca =>
      rw [hstart] at h
      obtain rfl := Option.some.inj h
      exact ⟨hopens, rfl, rfl, rfl⟩
  · cases h

theorem Consistent.step (h : host.Consistent) (op : ProviderOp) : (host.step op).Consistent := by
  cases op with
  | restart authority cfg statePath opens nowUnix =>
    unfold ProviderHost.step
    dsimp only
    cases hstart : host.start authority cfg statePath opens nowUnix with
    | none =>
      intro p hp
      cases hp
    | some p =>
      obtain ⟨_, hcfg, hpath, hca⟩ := start_some hstart
      obtain ⟨hcheck, _, hallow, hpolicy⟩ := fromConfig_ok hca
      intro p' hp'
      obtain rfl := Option.some.inj hp'
      rw [hcfg]
      refine ⟨hcheck, hallow, hpolicy, ?_⟩
      intro path hsome
      rw [hpath] at hsome
      rw [hsome]
      exact store_self host.disk path p.ca.log
  | update commits update =>
    unfold ProviderHost.step
    dsimp only
    cases hrunning : host.running with
    | none =>
      intro p hp
      rw [hrunning] at hp
      cases hp
    | some p =>
      obtain ⟨hcheck, hallow, hpolicy, hdisk⟩ := h p hrunning
      dsimp only
      rcases setEnrollmentPolicy_cases p.ca ⟨true, commits || p.statePath.isNone⟩ update with
        ⟨e, hrefused, _⟩ | ⟨hok, _, hsame, hlog, hnew, _⟩
      · have hupdate : updatePolicy commits update p = (.error e, p.ca) := hrefused
        rw [hupdate]
        intro p' hp'
        obtain rfl := Option.some.inj hp'
        exact ⟨hcheck, hallow, hpolicy, hdisk⟩
      · generalize hresult : p.ca.setEnrollmentPolicy ⟨true, commits || p.statePath.isNone⟩ update =
          result at hok hsame hlog hnew
        obtain ⟨outcome, ca⟩ := result
        obtain rfl : outcome = .ok () := hok
        have hupdate : updatePolicy commits update p = (.ok (), ca) := hresult
        rw [hupdate]
        intro p' hp'
        obtain rfl := Option.some.inj hp'
        refine ⟨hcheck, hsame.trans hallow, ?_, ?_⟩
        · rw [hpolicy, under_overlay] at hnew
          dsimp only at hlog hnew ⊢
          rw [hnew, hlog]
        · intro path hpath
          dsimp only at hpath ⊢
          rw [hpath]
          exact store_self host.disk path ca.log

theorem consistent_run (ops : List ProviderOp) : (Run.run step empty ops).Consistent := by
  apply Run.invariant
  · intro p hp
    cases hp
  · exact fun _ op h => h.step op

theorem certTtlSecs_under (base : EnrollmentPolicy) (overrides : PolicyOverrides) :
    (base.under overrides).certTtlSecs = overrides.certTtlSecs.getD base.certTtlSecs := rfl

theorem foundTtl_eq (statePath : Option String) :
    (Option.getD (statePath.bind host.disk) CaLog.empty).policy.certTtlSecs =
      host.foundTtl statePath := by
  unfold foundTtl
  cases statePath.bind host.disk with
  | none => rfl
  | some log => rfl

theorem bounded_restart_iff (authority : Authority) (cfg : ProviderConfig)
    (statePath : Option String) (opens : Bool) (nowUnix : Nat) :
    (host.step (.restart authority cfg statePath opens nowUnix)).Bounded ↔
      host.Checked (.restart authority cfg statePath opens nowUnix) := by
  unfold ProviderHost.step
  dsimp only
  cases hstart : host.start authority cfg statePath opens nowUnix with
  | none =>
    refine iff_of_true ?_ ?_
    · intro p hp
      cases hp
    · -- The start was refused, for its database or its configuration.
      intro hopens hbounded hcap
      have haccepts : checkCertTtl cfg.certTtlSecs cfg.allowUnboundedCertTtl = .ok () :=
        (checkCertTtl_ok_iff _ _).mpr (Or.inr hcap)
      obtain ⟨ca, hca⟩ :=
        fromConfig_accepts authority (statePath.bind host.disk) nowUnix haccepts
      unfold start at hstart
      rw [if_pos hopens, hca] at hstart
      cases hstart
  | some p =>
    obtain ⟨hopens, hcfg, hpath, hca⟩ := start_some hstart
    obtain ⟨hcheck, hlog, hallow, hpolicy⟩ := fromConfig_ok hca
    have hcap := (checkCertTtl_ok_iff _ _).mp hcheck
    have httl : p.ca.certTtlSecs = (host.foundTtl statePath).getD cfg.certTtlSecs := by
      have hforce : p.ca.certTtlSecs = p.ca.log.policy.certTtlSecs.getD cfg.certTtlSecs :=
        congrArg EnrollmentPolicy.certTtlSecs hpolicy
      rw [hforce, hlog, foundTtl_eq]
    have hbounded : Bounded ⟨store host.disk statePath p.ca.log, some p⟩ ↔
        (cfg.allowUnboundedCertTtl = false → InBounds p.ca.certTtlSecs) := by
      constructor
      · intro h hescape
        exact h p rfl (hallow.trans hescape)
      · intro h p' hp' hescape
        obtain rfl := Option.some.inj hp'
        exact h (hallow.symm.trans hescape)
    dsimp only
    rw [hbounded, httl]
    unfold Checked
    constructor
    · intro h _ hescape _
      have hin := h hescape
      cases hfound : host.foundTtl statePath with
      | none =>
        rw [hfound] at hin
        exact Nat.ne_of_gt hin.1
      | some ttl =>
        rw [hfound] at hin
        exact hin
    · intro h hescape
      have hle : cfg.certTtlSecs ≤ maxCertTtlSecs := by
        rcases hcap with htrue | hle
        · rw [hescape] at htrue
          cases htrue
        · exact hle
      have hfound := h hopens hescape hle
      cases hcase : host.foundTtl statePath with
      | none =>
        rw [hcase] at hfound
        exact ⟨Nat.pos_of_ne_zero hfound, hle⟩
      | some ttl =>
        rw [hcase] at hfound
        exact hfound

theorem step_update {p : Provider} (hrunning : host.running = some p) (commits : Bool)
    (update : EnrollmentPolicyData) :
    ((∃ e, updatePolicy commits update p = (.error e, p.ca)) ∧
        host.step (.update commits update) = host) ∨
      ((updatePolicy commits update p).1 = .ok () ∧
        (host.step (.update commits update)).running =
          some { p with ca := (updatePolicy commits update p).2 }) := by
  rcases setEnrollmentPolicy_cases p.ca ⟨true, commits || p.statePath.isNone⟩ update with
    ⟨e, hrefused, _⟩ | ⟨hok, _⟩
  · have hupdate : updatePolicy commits update p = (.error e, p.ca) := hrefused
    refine Or.inl ⟨⟨e, hupdate⟩, ?_⟩
    unfold step
    dsimp only
    rw [hrunning]
    dsimp only
    rw [hupdate]
    dsimp only
    rw [← hrunning]
  · have houtcome : (updatePolicy commits update p).1 = .ok () := hok
    refine Or.inr ⟨houtcome, ?_⟩
    unfold step
    dsimp only
    rw [hrunning]
    dsimp only
    generalize updatePolicy commits update p = result at houtcome ⊢
    obtain ⟨outcome, ca⟩ := result
    obtain rfl : outcome = .ok () := houtcome
    rfl

/-- The arithmetic of a recorded update: it passed the cap, so that zero alone can be wrong
with it; and if it was not committed it changed nothing. -/
theorem inBounds_update_iff {ttl base : Nat} {overrides : PolicyOverrides}
    {update : EnrollmentPolicyData} {allow final : Bool}
    (hold : ttl = overrides.certTtlSecs.getD base) (hbounded : allow = false → InBounds ttl)
    (hchecked : ∀ new, update.certTtlSecs = some new → checkCertTtl new allow = .ok ())
    (hcommit : final = true ∨
      CertAuthority.PolicyOverrides.overlay overrides update = overrides) :
    (allow = false → InBounds
        ((CertAuthority.PolicyOverrides.overlay overrides update).certTtlSecs.getD ttl)) ↔
      (allow = false → final = true → update.certTtlSecs ≠ some 0) := by
  have hoverlay : (CertAuthority.PolicyOverrides.overlay overrides update).certTtlSecs =
      update.certTtlSecs.or overrides.certTtlSecs := by
    unfold CertAuthority.PolicyOverrides.overlay
    dsimp only
    cases update.certTtlSecs <;> rfl
  cases hnew : update.certTtlSecs with
  | none =>
    refine iff_of_true ?_ fun _ _ => nofun
    intro hescape
    have hsame : overrides.certTtlSecs.getD ttl = ttl := by
      rw [hold]
      cases overrides.certTtlSecs <;> rfl
    rw [hoverlay, hnew, Option.none_or, hsame]
    exact hbounded hescape
  | some new =>
    have hcap := (checkCertTtl_ok_iff _ _).mp (hchecked new hnew)
    rw [hoverlay, hnew, Option.some_or, Option.getD_some]
    constructor
    · intro h hescape _ hzero
      exact absurd (Option.some.inj hzero) (Nat.ne_of_gt (h hescape).1)
    · intro h hescape
      have hle : new ≤ maxCertTtlSecs := by
        rcases hcap with htrue | hle
        · rw [hescape] at htrue
          cases htrue
        · exact hle
      rcases hcommit with hfinal | hunchanged
      · exact ⟨Nat.pos_of_ne_zero fun hzero => h hescape hfinal (congrArg some hzero), hle⟩
      · -- The update only repeats the override there was.
        have hthere : overrides.certTtlSecs = some new := by
          rw [← hunchanged, hoverlay, hnew, Option.some_or]
        rw [hthere, Option.getD_some] at hold
        rw [← hold]
        exact hbounded hescape

theorem bounded_update_iff (hconsistent : host.Consistent) (hbounded : host.Bounded)
    (commits : Bool) (update : EnrollmentPolicyData) :
    (host.step (.update commits update)).Bounded ↔ host.Checked (.update commits update) := by
  cases hrunning : host.running with
  | none =>
    have hsame : host.step (.update commits update) = host := by
      unfold step
      dsimp only
      rw [hrunning]
    rw [hsame]
    refine iff_of_true hbounded ?_
    intro p hp
    rw [hrunning] at hp
    cases hp
  | some p =>
    have hforce := (hconsistent p hrunning).2.2.1
    rcases setEnrollmentPolicy_cases p.ca ⟨true, commits || p.statePath.isNone⟩ update with
      ⟨e, hrefused, hwhy⟩ | ⟨hok, hchecked, hallow, _, hpolicy, hcommit⟩
    · have hupdate : updatePolicy commits update p = (.error e, p.ca) := hrefused
      rcases step_update hrunning commits update with ⟨_, hsame⟩ | ⟨hrecorded, _⟩
      · rw [hsame]
        refine iff_of_true hbounded ?_
        intro p' hp' hescape hfinal hzero
        rw [hrunning] at hp'
        obtain rfl := Option.some.inj hp'
        obtain ⟨ttl, httl, hover⟩ := hwhy hfinal
        rw [hzero] at httl
        obtain rfl := Option.some.inj httl
        exact hover ((checkCertTtl_ok_iff _ _).mpr (Or.inr (Nat.zero_le _)))
      · rw [hupdate] at hrecorded
        cases hrecorded
    · rcases step_update hrunning commits update with ⟨⟨e, hrefused⟩, _⟩ | ⟨_, hnext⟩
      · have hfailed : (updatePolicy commits update p).1 = .ok () := hok
        rw [hrefused] at hfailed
        cases hfailed
      · have hsteps : (host.step (.update commits update)).Bounded ↔
            (p.ca.allowUnboundedCertTtl = false →
              InBounds (updatePolicy commits update p).2.certTtlSecs) := by
          constructor
          · intro h hescape
            exact h _ hnext (hallow.trans hescape)
          · intro h p' hp' hescape
            rw [hnext] at hp'
            obtain rfl := Option.some.inj hp'
            exact h (hallow.symm.trans hescape)
        have httl : (updatePolicy commits update p).2.certTtlSecs =
            (CertAuthority.PolicyOverrides.overlay p.ca.log.policy update).certTtlSecs.getD
              p.ca.certTtlSecs := congrArg EnrollmentPolicy.certTtlSecs hpolicy
        have hold : p.ca.certTtlSecs =
            p.ca.log.policy.certTtlSecs.getD p.cfg.certTtlSecs :=
          congrArg EnrollmentPolicy.certTtlSecs hforce
        have hpending : host.Checked (.update commits update) ↔
            (p.ca.allowUnboundedCertTtl = false → (commits || p.statePath.isNone) = true →
              update.certTtlSecs ≠ some 0) := by
          constructor
          · intro h
            exact h p hrunning
          · intro h p' hp'
            rw [hrunning] at hp'
            obtain rfl := Option.some.inj hp'
            exact h
        rw [hsteps, hpending, httl]
        exact inBounds_update_iff hold (hbounded p hrunning) hchecked hcommit

theorem bounded_step_iff (hconsistent : host.Consistent) (hbounded : host.Bounded)
    (op : ProviderOp) : (host.step op).Bounded ↔ host.Checked op := by
  cases op with
  | update commits update => exact bounded_update_iff hconsistent hbounded commits update
  | restart authority cfg statePath opens nowUnix =>
    exact bounded_restart_iff authority cfg statePath opens nowUnix

theorem restart_same (hconsistent : host.Consistent) {p : Provider}
    (hrunning : host.running = some p) {path : String} (hpath : p.statePath = some path)
    (authority : Authority) (nowUnix : Nat) :
    ∃ p', (host.step (.restart authority p.cfg p.statePath true nowUnix)).running = some p' ∧
      p'.ca.policy = p.ca.policy := by
  obtain ⟨hcheck, _, hpolicy, hdisk⟩ := hconsistent p hrunning
  obtain ⟨ca, hca⟩ := fromConfig_accepts authority (p.statePath.bind host.disk) nowUnix hcheck
  have hstart : host.start authority p.cfg p.statePath true nowUnix =
      some ⟨ca, p.cfg, p.statePath⟩ := by
    unfold start
    rw [if_pos rfl, hca]
  obtain ⟨_, hlog, _, hnew⟩ := fromConfig_ok hca
  have hfound : p.statePath.bind host.disk = some p.ca.log := by
    rw [hpath]
    exact hdisk path hpath
  refine ⟨⟨ca, p.cfg, p.statePath⟩, ?_, ?_⟩
  · unfold step
    dsimp only
    rw [hstart]
  · rw [hfound, Option.getD_some] at hlog
    dsimp only
    rw [hnew, hpolicy, hlog]

/-- Over any history of updates and restarts the lifetime in force stays within its bounds
exactly if each step is checked. An update that is refused or not recorded changes nothing,
and a restart under the same configuration, its log kept, comes up under the same policy. -/
theorem lifetime_bounded_iff (ops : List ProviderOp) :
    (Run.AllGood step Bounded empty ops ↔ Run.AllSafe step Checked empty ops) ∧
      ∀ host, host = Run.run step empty ops → ∀ p, host.running = some p →
        (∀ commits update, (updatePolicy commits update p).1 ≠ .ok () →
          host.step (.update commits update) = host) ∧
        ∀ path, p.statePath = some path → ∀ authority nowUnix, ∃ p',
          (host.step (.restart authority p.cfg p.statePath true nowUnix)).running = some p' ∧
            p'.ca.policy = p.ca.policy := by
  refine ⟨?_, ?_⟩
  · apply Run.allGood_iff_allSafe
    · intro p hp
      cases hp
    · intro pre op hgood
      exact bounded_step_iff (consistent_run pre) hgood op
  · rintro host rfl p hrunning
    refine ⟨?_, ?_⟩
    · intro commits update hfailed
      rcases step_update hrunning commits update with ⟨_, hsame⟩ | ⟨hok, _⟩
      · exact hsame
      · exact absurd hok hfailed
    · intro path hpath authority nowUnix
      exact restart_same (consistent_run ops) hrunning hpath authority nowUnix

end Runs

def oneDay (allow : Bool) : ProviderConfig := ⟨86400, none, false, allow, 3600⟩

def lifetimes (ops : List ProviderOp) : Option (Bool × Nat) :=
  (Run.run step empty ops).running.map fun p => (p.ca.allowUnboundedCertTtl, p.ca.certTtlSecs)

theorem not_bounded_of_lifetimes {ops : List ProviderOp} {ttl : Nat}
    (h : lifetimes ops = some (false, ttl)) (hout : ¬ InBounds ttl) :
    ¬ (Run.run step empty ops).Bounded := by
  intro hbounded
  obtain ⟨p, hrunning, hpair⟩ := Option.map_eq_some_iff.mp h
  obtain ⟨hescape, rfl⟩ := Prod.mk.inj hpair
  exact hout (hbounded p hrunning hescape)

/-- Each of the three doors lets one through: a configuration of zero, an update to zero, and
an override past the cap, recorded under the escape and found again without it. -/
theorem lifetime_out_of_bounds :
    ¬ (Run.run step empty
        [.restart ⟨⟨.zero 32⟩, 0⟩ ⟨0, none, false, false, 3600⟩ none true 1800000000]).Bounded ∧
      ¬ (Run.run step empty
        [.restart ⟨⟨.zero 32⟩, 0⟩ (oneDay false) (some "ca") true 1800000000,
          .update true ⟨none, some 0, none⟩]).Bounded ∧
      ¬ (Run.run step empty
        [.restart ⟨⟨.zero 32⟩, 0⟩ (oneDay true) (some "ca") true 1800000000,
          .update true ⟨none, some 400000000, none⟩,
          .restart ⟨⟨.zero 32⟩, 0⟩ (oneDay false) (some "ca") true 1800000000]).Bounded := by
  refine ⟨?_, ?_, ?_⟩
  · exact not_bounded_of_lifetimes rfl fun h => absurd h.1 (Nat.lt_irrefl 0)
  · exact not_bounded_of_lifetimes rfl fun h => absurd h.1 (Nat.lt_irrefl 0)
  · refine @not_bounded_of_lifetimes _ 400000000 (by decide +kernel) fun h => ?_
    exact absurd h.2 (by decide)

end ProviderHost

end Wayfinder

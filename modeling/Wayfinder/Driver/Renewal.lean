import Wayfinder.Auth.Credential
import Wayfinder.KeyMatch
import Wayfinder.Management

/-!
# Renewals that land late

The driver asks its authority for a new certificate on another task, from what it knew
when it asked, and installs what comes back turns later. An answer is discarded if the
node has been given another provider since. It is not compared with the certificate it
replaces: if the node has been given a newer one under the same provider, the answer
takes it back.
-/

namespace Wayfinder

set_option autoImplicit false

open Table

/-! ### Pacing -/

def renewalCheckInterval : Duration := Duration.ofSecs (15 * 60)
def stuckAttemptBudget : Duration := Duration.ofSecs (10 * 60)

structure RenewalGate where
  checked : Option Duration
  inFlightSince : Option Duration
  deriving DecidableEq

namespace RenewalGate

def shouldCheck (g : RenewalGate) (now : Duration) : RenewalGate × Bool :=
  if g.checked.any fun last => now - last < renewalCheckInterval then (g, false)
  else ({ g with checked := some now }, true)

def begin (g : RenewalGate) (now : Duration) : RenewalGate × Bool :=
  if g.inFlightSince.isSome then (g, false)
  else ({ g with inFlightSince := some now }, true)

def stuckFor (g : RenewalGate) (now : Duration) : Option Duration :=
  g.inFlightSince.bind fun since =>
    if stuckAttemptBudget ≤ now - since then some (now - since) else none

def finish (g : RenewalGate) : RenewalGate := { g with inFlightSince := none }

end RenewalGate

inductive CertCondition where
  | fresh
  | dueRenewal
  | expired
  deriving DecidableEq

def certCondition (cert : MembershipCert) (nowUnix : Nat) : CertCondition :=
  if cert.notAfter.get < nowUnix then .expired
  else if cert.renewFrom ≤ nowUnix then .dueRenewal
  else .fresh

/-! ### The driver -/

/-- What an attempt was started with. -/
structure RenewalAttempt where
  provider : RenewalProviderData
  seed : Octets 32
  mac : Mac
  edPubkey : Octets 32
  xPubkey : Octets 32

structure RenewalAnswer where
  outcome : Except String Renewed
  installedSince : Option Nat

structure HostClock where
  unix : Nat
  trusted : Bool

/-- The driver as far as renewals and installs go: the router and the slots beside it, the
attempts under way, their answers, and the one that waits to be picked up. The time is
what authorities stamp certificates with. -/
structure RenewalDriver (e : Capacities) (a : AuthCapacities) (σ : Type) where
  router : ManagedRouter e a
  identitySeed : Option (Octets 32)
  renewalProvider : Option RenewalProviderData
  settings : Option σ
  gate : RenewalGate
  attempts : List RenewalAttempt
  answers : List RenewalAnswer
  inbox : Option RenewalAnswer
  unix : Nat

inductive RenewalOp where
  | elapse (secs : Nat)
  | refreshAuthClock (now : Duration) (wall : Clocked)
  | setAuth (clock : HostClock) (now : Duration) (seed cert trustAnchor : Bytes)
      (provider : Option RenewalProviderData) (installerUnix : Nat)
  | answer (attempt : Nat) (reply : Except String (Bytes × Bytes))
  | deliver (answer : Nat)
  | pollCertRenewal (clock : HostClock) (now : Duration)

namespace RenewalDriver

variable {e : Capacities} {a : AuthCapacities} {σ : Type}

def auth (d : RenewalDriver e a σ) : Option (OgmAuth a) := d.router.core.auth

def host (store : SettingsStore σ) (d : RenewalDriver e a σ) (clock : HostClock) : DriverHost where
  unix := clock.unix
  clockTrusted := clock.trusted
  settings := d.settings.map fun s update => (store.persist s ⟨update, none, none⟩).1

def shared (d : RenewalDriver e a σ) : SharedRouter e a :=
  ⟨d.router.core, d.identitySeed, d.renewalProvider⟩

def adapter (store : SettingsStore σ) (d : RenewalDriver e a σ) (clock : HostClock)
    (now : Duration) : ManagementAdapter e a σ where
  router := d.router
  epochUnix := SharedRouter.epochOffset (d.host store clock) now
  now := now
  clockTrusted := clock.trusted
  wallClock := none
  identitySeed := some d.identitySeed
  renewalProvider := some d.renewalProvider
  settings := d.settings

def absorb (d : RenewalDriver e a σ) (m : ManagementAdapter e a σ) : RenewalDriver e a σ :=
  { d with
    router := m.router
    identitySeed := m.identitySeed.join
    renewalProvider := m.renewalProvider.join
    settings := m.settings }

/-- An install has gone through: every answer on its way has been overtaken by it. -/
def overtake (d : RenewalDriver e a σ) : RenewalDriver e a σ :=
  let overtaken := fun answer : RenewalAnswer =>
    { answer with installedSince := d.auth.map fun auth => auth.cert.notBefore.get }
  { d with answers := d.answers.map overtaken, inbox := d.inbox.map overtaken }

def serveSetAuth (k : Crypto) (store : SettingsStore σ) (d : RenewalDriver e a σ)
    (clock : HostClock) (now : Duration) (seed cert trustAnchor : Bytes)
    (provider : Option RenewalProviderData) (installerUnix : Nat) : RenewalDriver e a σ × Bool :=
  match ManagementAdapter.setAuth k store seed cert trustAnchor provider installerUnix
      (d.adapter store clock now) with
  | .ok () m => ((d.absorb m).overtake, true)
  | .error _ m => (d.absorb m, false)

def takeAnswer (d : RenewalDriver e a σ) : RenewalDriver e a σ :=
  { d with inbox := none, gate := d.gate.finish }

/-- The state after what has come back, if anything, and whether it was installed. -/
def applyFinishedRenewal (k : Crypto) (store : SettingsStore σ) (d : RenewalDriver e a σ)
    (clock : HostClock) (now : Duration) : RenewalDriver e a σ × Bool :=
  match d.inbox with
  | none => (d, false)
  | some answer =>
    let d := d.takeAnswer
    match answer.outcome with
    | .error _ => (d, false)
    | .ok renewed =>
      if d.renewalProvider ≠ some renewed.provider then (d, false)
      else d.serveSetAuth k store clock now [] renewed.cert renewed.trustAnchor
        (some renewed.provider) (SharedRouter.credentialUnix (d.host store clock))

/-- The other half of the cycle: an attempt is begun when the certificate is in its last
quarter and none is outstanding, or the one outstanding is given up on. -/
def startRenewal (d : RenewalDriver e a σ) (clock : HostClock) (now : Duration) :
    RenewalDriver e a σ :=
  let check := d.gate.shouldCheck now
  let d := { d with gate := check.1 }
  if !check.2 || !clock.trusted then d
  else
    match d.auth, d.renewalProvider, d.identitySeed with
    | some auth, some provider, some seed =>
      if certCondition auth.cert auth.wall.unixOrZero ≠ .dueRenewal then d
      else if provider.target.address.isEmpty then d
      else
        let gate := if (d.gate.stuckFor now).isSome then d.gate.finish else d.gate
        let begun := gate.begin now
        let d := { d with gate := begun.1 }
        if !begun.2 then d
        else
          { d with attempts := d.attempts ++
              [⟨provider, seed, auth.cert.nodeMac, auth.cert.edPubkey, auth.cert.xPubkey⟩] }
    | _, _, _ => d

def pollCertRenewal (k : Crypto) (store : SettingsStore σ) (d : RenewalDriver e a σ)
    (clock : HostClock) (now : Duration) : RenewalDriver e a σ :=
  (d.applyFinishedRenewal k store clock now).1.startRenewal clock now

def step (k : Crypto) (store : SettingsStore σ) (d : RenewalDriver e a σ) :
    RenewalOp → RenewalDriver e a σ
  | .elapse secs => { d with unix := d.unix + secs }
  | .refreshAuthClock now wall =>
    { d with router := { d.router with core := d.router.core.setAuthTime now wall } }
  | .setAuth clock now seed cert trustAnchor provider installerUnix =>
    (d.serveSetAuth k store clock now seed cert trustAnchor provider installerUnix).1
  | .answer i reply =>
    match d.attempts[i]? with
    | none => d
    | some attempt =>
      { d with
        attempts := d.attempts.eraseIdx i
        answers := d.answers ++
          [⟨reply.map fun r => ⟨r.1, r.2, attempt.provider⟩, none⟩] }
  | .deliver i =>
    -- The channel holds one answer; a second waits with its task.
    match d.answers[i]?, d.inbox with
    | some answer, none =>
      { d with answers := d.answers.eraseIdx i, inbox := some answer }
    | _, _ => d
  | .pollCertRenewal clock now => d.pollCertRenewal k store clock now

/-! ### What must not be undone -/

/-- When the running certificate was issued, by its own stamp. -/
def runningFrom (d : RenewalDriver e a σ) : Option Nat :=
  d.auth.map fun auth => auth.cert.notBefore.get

/-- Landing a renewal takes no newer certificate back, leaves the node's keys and address,
and changes nothing at all when it installs nothing. -/
structure LandsClean (store : SettingsStore σ) (d d' : RenewalDriver e a σ) (installed : Bool) :
    Prop where
  notOlder : ∀ auth auth', d.auth = some auth → d'.auth = some auth' →
    auth.cert.notBefore.get ≤ auth'.cert.notBefore.get
  keys : ∀ auth auth', d.auth = some auth → d'.auth = some auth' → auth'.keypair = auth.keypair
  address : d'.router.core.batman.selfIdent = d.router.core.batman.selfIdent
  named : installed = true → ∀ auth', d'.auth = some auth' →
    auth'.cert.nodeMac = d.router.core.batman.selfIdent
  seed : d'.identitySeed = d.identitySeed
  unchanged : installed = false → d'.router = d.router ∧ d'.renewalProvider = d.renewalProvider ∧
    d'.settings.map store.settings = d.settings.map store.settings

def NeverUndoes (k : Crypto) (store : SettingsStore σ) (d : RenewalDriver e a σ) :
    RenewalOp → Prop
  | .pollCertRenewal clock now =>
    LandsClean store d (d.applyFinishedRenewal k store clock now).1
      (d.applyFinishedRenewal k store clock now).2
  | _ => True

/-- An authority stamps a certificate with the time it issues it at, and what an operator
installs has been issued before. -/
def Stamped (d : RenewalDriver e a σ) : RenewalOp → Prop
  | .setAuth _ _ _ cert _ _ _ => ∀ parsed rest,
    MembershipCert.readFromPrefix cert = some (parsed, rest) → parsed.notBefore.get ≤ d.unix
  | .answer _ (.ok (cert, _)) => ∀ parsed rest,
    MembershipCert.readFromPrefix cert = some (parsed, rest) → parsed.notBefore.get = d.unix
  | _ => True

/-- The node as it starts: nothing asked, and if it is enrolled the seed beside the router
is the one its credential is for. -/
structure Booted (d : RenewalDriver e a σ) : Prop where
  answers : d.answers = []
  inbox : d.inbox = none
  issued : ∀ auth, d.auth = some auth → auth.cert.notBefore.get ≤ d.unix
  keys : ∀ auth, d.auth = some auth → d.identitySeed = some auth.keypair.seed

/-- The install's own checks let the renewal through, and it can be recorded. -/
def Accepts (k : Crypto) (store : SettingsStore σ) (d : RenewalDriver e a σ) (clock : HostClock)
    (now : Duration) (renewed : Renewed) : Prop :=
  d.renewalProvider = some renewed.provider ∧
    (((d.adapter store clock now).installView store).setAuth k [] renewed.cert renewed.trustAnchor
      (some renewed.provider) (SharedRouter.credentialUnix (d.host store clock))).isOk = true

/-- What lands and is let through was not overtaken since it was issued, or only by a
certificate issued no later. -/
def InOrder (k : Crypto) (store : SettingsStore σ) (d : RenewalDriver e a σ) :
    RenewalOp → Prop
  | .pollCertRenewal clock now => ∀ answer renewed, d.inbox = some answer →
      answer.outcome = .ok renewed → d.Accepts k store clock now renewed →
      ∀ parsed rest, MembershipCert.readFromPrefix renewed.cert = some (parsed, rest) →
        ∀ since, answer.installedSince = some since → since ≤ parsed.notBefore.get
  | _ => True

/-! ### One install -/

section Install
variable {k : Crypto} {store : SettingsStore σ} {d : RenewalDriver e a σ} {clock : HostClock}
  {now : Duration} {seed cert trustAnchor : Bytes} {provider : Option RenewalProviderData}
  {installerUnix : Nat}

@[simp] theorem overtake_auth : d.overtake.auth = d.auth := rfl

/-- What an install put through leaves. -/
structure Installed (k : Crypto) (store : SettingsStore σ) (d : RenewalDriver e a σ)
    (clock : HostClock) (now : Duration) (seed cert : Bytes)
    (provider : Option RenewalProviderData) (d' : RenewalDriver e a σ) : Prop where
  auth : ∃ auth rest, d'.auth = some auth ∧
    MembershipCert.readFromPrefix cert = some (auth.cert, rest) ∧
    d'.identitySeed = some auth.keypair.seed ∧
    (seed = [] → d.identitySeed = some auth.keypair.seed ∧
      auth.cert.nodeMac = d.router.core.batman.selfIdent)
  address : d'.router.core.batman.selfIdent = d.router.core.batman.selfIdent
  provider : d'.renewalProvider = provider
  unix : d'.unix = d.unix
  answers : d'.answers = d.answers.map fun answer =>
    { answer with installedSince := d'.runningFrom }
  inbox : d'.inbox = d.inbox.map fun answer =>
    { answer with installedSince := d'.runningFrom }

structure Refused (store : SettingsStore σ) (d d' : RenewalDriver e a σ) : Prop where
  router : d'.router = d.router
  identitySeed : d'.identitySeed = d.identitySeed
  renewalProvider : d'.renewalProvider = d.renewalProvider
  settings : d'.settings.map store.settings = d.settings.map store.settings
  unix : d'.unix = d.unix
  answers : d'.answers = d.answers
  inbox : d'.inbox = d.inbox

theorem seedFor_nil {adapter : RouterAdapter e a} {identity : Octets 32}
    (h : adapter.seedFor [] = .ok identity) : adapter.currentIdentitySeed = some identity := by
  unfold RouterAdapter.seedFor at h
  rw [List.isEmpty_nil, if_pos rfl] at h
  cases hseed : adapter.currentIdentitySeed with
  | none =>
    rw [hseed] at h
    cases h
  | some held =>
    rw [hseed] at h
    exact congrArg some (Except.ok.inj h)

theorem serveSetAuth_cases (k : Crypto) (store : SettingsStore σ) (d : RenewalDriver e a σ)
    (clock : HostClock) (now : Duration) (seed cert trustAnchor : Bytes)
    (provider : Option RenewalProviderData) (installerUnix : Nat) :
    ((((d.adapter store clock now).installView store).setAuth k seed cert trustAnchor provider
        installerUnix).isOk = true ∧
      (d.serveSetAuth k store clock now seed cert trustAnchor provider installerUnix).2 = true ∧
      Installed k store d clock now seed cert provider
        (d.serveSetAuth k store clock now seed cert trustAnchor provider installerUnix).1) ∨
    ((((d.adapter store clock now).installView store).setAuth k seed cert trustAnchor provider
        installerUnix).isOk = false ∧
      (d.serveSetAuth k store clock now seed cert trustAnchor provider installerUnix).2 = false ∧
      Refused store d
        (d.serveSetAuth k store clock now seed cert trustAnchor provider installerUnix).1) := by
  have hagrees := ManagementAdapter.setAuth_agrees k store (d.adapter store clock now) seed cert
    trustAnchor provider installerUnix
  unfold serveSetAuth
  cases hset : ((d.adapter store clock now).installView store).setAuth k seed cert trustAnchor
      provider installerUnix with
  | ok adapter =>
    rw [hset] at hagrees
    obtain ⟨m', hm', -⟩ := hagrees
    rw [hm']
    obtain ⟨examined, settings, hexamine, rfl⟩ := ManagementAdapter.setAuth_ok hm'
    obtain ⟨hidentity, ⟨rest, hread⟩, hcheck⟩ := RouterAdapter.examine_ok hexamine
    refine .inl ⟨rfl, rfl, ⟨⟨_, rest, rfl, hread, rfl, ?_⟩, rfl, rfl, rfl, rfl, rfl⟩⟩
    rintro rfl
    refine ⟨seedFor_nil hidentity, ?_⟩
    exact (RouterAdapter.checkIdentity_ok hcheck).2 rfl
  | error err =>
    rw [hset] at hagrees
    obtain ⟨m', hm'⟩ := hagrees
    rw [hm']
    have hsame := ManagementAdapter.setAuth_clean hm'
    refine .inr ⟨rfl, rfl, ⟨hsame.router, ?_, ?_, hsame.settings, rfl, rfl, rfl⟩⟩
    · show m'.identitySeed.join = d.identitySeed
      rw [hsame.identitySeed]
      rfl
    · show m'.renewalProvider.join = d.renewalProvider
      rw [hsame.renewalProvider]
      rfl

end Install

/-! ### What an answer on its way has been overtaken by -/

def pending (d : RenewalDriver e a σ) : List RenewalAnswer := d.answers ++ d.inbox.toList

/-- The answer was issued by now. If nothing was installed since, the running certificate was
issued no later; if something was, it is what runs. -/
structure Dated (unix : Nat) (running : Option Nat) (answer : RenewalAnswer) : Prop where
  issued : ∀ renewed, answer.outcome = .ok renewed → ∀ parsed rest,
    MembershipCert.readFromPrefix renewed.cert = some (parsed, rest) →
      parsed.notBefore.get ≤ unix ∧
        (answer.installedSince = none → ∀ start, running = some start →
          start ≤ parsed.notBefore.get)
  overtaken : ∀ since, answer.installedSince = some since → running = some since

structure Ledger (d : RenewalDriver e a σ) : Prop where
  running : ∀ auth, d.auth = some auth → auth.cert.notBefore.get ≤ d.unix
  keys : ∀ auth, d.auth = some auth → d.identitySeed = some auth.keypair.seed
  dated : ∀ answer ∈ d.pending, Dated d.unix d.runningFrom answer

section Steps
variable {k : Crypto} {store : SettingsStore σ} {d d' : RenewalDriver e a σ} {clock : HostClock}
  {now : Duration}

theorem Booted.ledger (h : d.Booted) : d.Ledger := by
  refine ⟨h.issued, h.keys, ?_⟩
  intro answer hanswer
  unfold pending at hanswer
  rw [h.answers, h.inbox] at hanswer
  simp at hanswer

theorem Dated.later {unix unix' : Nat} {running : Option Nat} {answer : RenewalAnswer}
    (h : Dated unix running answer) (hle : unix ≤ unix') : Dated unix' running answer := by
  refine ⟨?_, h.overtaken⟩
  intro renewed houtcome parsed rest hread
  obtain ⟨hissued, hsince⟩ := h.issued renewed houtcome parsed rest hread
  exact ⟨Nat.le_trans hissued hle, hsince⟩

theorem Ledger.kept (h : d.Ledger) (hunix : d.unix ≤ d'.unix)
    (hauth : ∀ auth', d'.auth = some auth' →
      ∃ auth, d.auth = some auth ∧ auth'.cert = auth.cert ∧ auth'.keypair = auth.keypair)
    (hrunning : d'.runningFrom = d.runningFrom) (hseed : d'.identitySeed = d.identitySeed)
    (hpending : ∀ answer ∈ d'.pending, answer ∈ d.pending) : d'.Ledger := by
  refine ⟨?_, ?_, ?_⟩
  · intro auth' hauth'
    obtain ⟨auth, hold, hcert, -⟩ := hauth auth' hauth'
    rw [hcert]
    exact Nat.le_trans (h.running auth hold) hunix
  · intro auth' hauth'
    obtain ⟨auth, hold, -, hkeypair⟩ := hauth auth' hauth'
    rw [hseed, hkeypair]
    exact h.keys auth hold
  · intro answer hanswer
    rw [hrunning]
    exact (h.dated answer (hpending answer hanswer)).later hunix

theorem Ledger.refused (h : d.Ledger) (hrefused : Refused store d d') : d'.Ledger := by
  have hauth : d'.auth = d.auth := by
    unfold auth
    rw [hrefused.router]
  apply h.kept (Nat.le_of_eq hrefused.unix.symm) ?_ ?_ hrefused.identitySeed ?_
  · intro auth' hauth'
    rw [hauth] at hauth'
    exact ⟨auth', hauth', rfl, rfl⟩
  · unfold runningFrom
    rw [hauth]
  · intro answer hanswer
    unfold pending at hanswer ⊢
    rwa [hrefused.answers, hrefused.inbox] at hanswer

theorem Ledger.installed (h : d.Ledger) {seed cert : Bytes}
    {provider : Option RenewalProviderData}
    (hinstalled : Installed k store d clock now seed cert provider d')
    (hissued : ∀ parsed rest, MembershipCert.readFromPrefix cert = some (parsed, rest) →
      parsed.notBefore.get ≤ d.unix) : d'.Ledger := by
  obtain ⟨auth, rest, hauth, hread, hseed, -⟩ := hinstalled.auth
  have hrunning : d'.runningFrom = some auth.cert.notBefore.get := by
    unfold runningFrom
    rw [hauth]
    rfl
  refine ⟨?_, ?_, ?_⟩
  · intro auth' hauth'
    rw [hauth] at hauth'
    obtain rfl := Option.some.inj hauth'
    rw [hinstalled.unix]
    exact hissued _ rest hread
  · intro auth' hauth'
    rw [hauth] at hauth'
    obtain rfl := Option.some.inj hauth'
    exact hseed
  · intro answer hanswer
    obtain ⟨before, hbefore, rfl⟩ : ∃ before ∈ d.pending,
        { before with installedSince := d'.runningFrom } = answer := by
      unfold pending at hanswer ⊢
      rw [hinstalled.answers, hinstalled.inbox] at hanswer
      rcases List.mem_append.mp hanswer with hmem | hmem
      · obtain ⟨before, hbefore, rfl⟩ := List.mem_map.mp hmem
        exact ⟨before, List.mem_append_left _ hbefore, rfl⟩
      · obtain ⟨before, hbefore, rfl⟩ := Option.map_eq_some_iff.mp (Option.mem_toList.mp hmem)
        exact ⟨before, List.mem_append_right _ (Option.mem_toList.mpr hbefore), rfl⟩
    refine ⟨?_, ?_⟩
    · intro renewed houtcome parsed rest' hparsed
      obtain ⟨hby, -⟩ := (h.dated before hbefore).issued renewed houtcome parsed rest' hparsed
      rw [hinstalled.unix]
      refine ⟨hby, ?_⟩
      intro hnone
      rw [hrunning] at hnone
      cases hnone
    · intro since hsince
      exact hsince

theorem Refused.landsClean (h : Refused store d d') : LandsClean store d d' false := by
  have hauth : d'.auth = d.auth := by
    unfold auth
    rw [h.router]
  refine ⟨?_, ?_, by rw [h.router], fun hinstalled => (nomatch hinstalled), h.identitySeed,
    fun _ => ⟨h.router, h.renewalProvider, h.settings⟩⟩
  · intro auth auth' hold hnew
    rw [hauth, hold] at hnew
    obtain rfl := Option.some.inj hnew
    exact Nat.le_refl _
  · intro auth auth' hold hnew
    rw [hauth, hold] at hnew
    obtain rfl := Option.some.inj hnew
    rfl

theorem landsClean_takeAnswer {installed : Bool} :
    LandsClean store d.takeAnswer d' installed ↔ LandsClean store d d' installed :=
  ⟨fun h => ⟨h.notOlder, h.keys, h.address, h.named, h.seed, h.unchanged⟩,
    fun h => ⟨h.notOlder, h.keys, h.address, h.named, h.seed, h.unchanged⟩⟩

theorem Ledger.takeAnswer (h : d.Ledger) : d.takeAnswer.Ledger := by
  refine Ledger.kept h (Nat.le_refl _) (fun auth' hauth' => ⟨auth', hauth', rfl, rfl⟩) rfl rfl ?_
  intro answer hanswer
  unfold pending RenewalDriver.takeAnswer at hanswer
  simp only [Option.toList_none, List.append_nil] at hanswer
  exact List.mem_append_left _ hanswer

theorem applyFinishedRenewal_cases (k : Crypto) (store : SettingsStore σ)
    (d : RenewalDriver e a σ) (clock : HostClock) (now : Duration) :
    (d.applyFinishedRenewal k store clock now = (d, false) ∧ d.inbox = none) ∨
      ∃ answer, d.inbox = some answer ∧
        ((d.applyFinishedRenewal k store clock now = (d.takeAnswer, false) ∧
            ∀ renewed, answer.outcome = .ok renewed →
              d.renewalProvider ≠ some renewed.provider) ∨
          ∃ renewed, answer.outcome = .ok renewed ∧
            d.renewalProvider = some renewed.provider ∧
            d.applyFinishedRenewal k store clock now =
              d.takeAnswer.serveSetAuth k store clock now [] renewed.cert renewed.trustAnchor
                (some renewed.provider)
                (SharedRouter.credentialUnix (d.takeAnswer.host store clock))) := by
  unfold applyFinishedRenewal
  cases hinbox : d.inbox with
  | none => exact .inl ⟨rfl, rfl⟩
  | some answer =>
    refine .inr ⟨answer, rfl, ?_⟩
    dsimp only
    cases houtcome : answer.outcome with
    | error err => exact .inl ⟨rfl, fun renewed hok => (nomatch hok)⟩
    | ok renewed =>
      dsimp only
      split
      · rename_i hother
        refine .inl ⟨rfl, ?_⟩
        intro renewed' hok
        obtain rfl := Except.ok.inj hok
        exact hother
      · rename_i hsame
        exact .inr ⟨renewed, rfl, not_not.mp hsame, rfl⟩

/-- A renewal undoes nothing as it lands exactly if it was not overtaken. -/
theorem landsClean_iff (h : d.Ledger) :
    LandsClean store d (d.applyFinishedRenewal k store clock now).1
        (d.applyFinishedRenewal k store clock now).2 ↔
      d.InOrder k store (.pollCertRenewal clock now) := by
  have hidle : LandsClean store d d false :=
    Refused.landsClean ⟨rfl, rfl, rfl, rfl, rfl, rfl, rfl⟩
  unfold InOrder
  rcases d.applyFinishedRenewal_cases k store clock now with
    ⟨heq, hnone⟩ | ⟨answer, hinbox, ⟨heq, hother⟩ | ⟨renewed, houtcome, hprovider, heq⟩⟩
  · rw [heq, hnone]
    exact iff_of_true hidle fun answer renewed hsome => (nomatch hsome)
  · rw [heq]
    refine iff_of_true ?_ ?_
    · rw [← landsClean_takeAnswer]
      exact Refused.landsClean ⟨rfl, rfl, rfl, rfl, rfl, rfl, rfl⟩
    · intro answer' renewed hsome hok haccepts
      rw [hinbox] at hsome
      obtain rfl := Option.some.inj hsome
      exact absurd haccepts.1 (hother renewed hok)
  · rw [heq, ← landsClean_takeAnswer]
    rcases d.takeAnswer.serveSetAuth_cases k store clock now [] renewed.cert renewed.trustAnchor
        (some renewed.provider) (SharedRouter.credentialUnix (d.takeAnswer.host store clock)) with
      ⟨hok, hflag, hinstalled⟩ | ⟨hok, hflag, hrefused⟩
    · obtain ⟨auth, rest, hauth, hread, hseed, hown⟩ := hinstalled.auth
      obtain ⟨hheld, hmac⟩ := hown rfl
      have hdated := h.dated answer (List.mem_append_right _ (Option.mem_toList.mpr hinbox))
      constructor
      · intro hclean answer' renewed' hsome hok' _ parsed rest' hread' since hsince
        rw [hinbox] at hsome
        obtain rfl := Option.some.inj hsome
        rw [houtcome] at hok'
        obtain rfl := Except.ok.inj hok'
        rw [hread] at hread'
        obtain rfl := (Prod.mk.inj (Option.some.inj hread')).1
        obtain ⟨running, hrunning, rfl⟩ := Option.map_eq_some_iff.mp (hdated.overtaken since hsince)
        exact hclean.notOlder running auth hrunning hauth
      · intro horder
        refine ⟨?_, ?_, hinstalled.address, ?_, hseed.trans hheld.symm, ?_⟩
        · intro running auth' hrunning hauth'
          rw [hauth] at hauth'
          obtain rfl := Option.some.inj hauth'
          have hfrom : d.runningFrom = some running.cert.notBefore.get := by
            unfold runningFrom
            rw [show d.auth = some running from hrunning]
            rfl
          cases hsince : answer.installedSince with
          | none => exact (hdated.issued renewed houtcome _ rest hread).2 hsince _ hfrom
          | some since =>
            have hlast := hdated.overtaken since hsince
            rw [hfrom] at hlast
            rw [Option.some.inj hlast]
            exact horder answer renewed hinbox houtcome ⟨hprovider, hok⟩ _ rest hread since hsince
        · intro running auth' hrunning hauth'
          rw [hauth] at hauth'
          obtain rfl := Option.some.inj hauth'
          have hkeys := h.keys running hrunning
          rw [show d.identitySeed = _ from hheld] at hkeys
          exact congrArg Keypair.mk (Option.some.inj hkeys)
        · intro _ auth' hauth'
          rw [hauth] at hauth'
          obtain rfl := Option.some.inj hauth'
          exact hmac
        · intro hnot
          rw [hflag] at hnot
          cases hnot
    · rw [hflag]
      refine iff_of_true hrefused.landsClean ?_
      intro answer' renewed' hsome hok' haccepts
      rw [hinbox] at hsome
      obtain rfl := Option.some.inj hsome
      rw [houtcome] at hok'
      obtain rfl := Except.ok.inj hok'
      have hyes : _ = true := haccepts.2
      exact absurd (hok.symm.trans hyes) Bool.false_ne_true

theorem setAuthTime_auth_eq (r : CentralRouter e a) (now : Duration) (wall : Clocked) :
    (r.setAuthTime now wall).auth = r.auth.map fun auth => auth.setTime now wall := by
  unfold CentralRouter.setAuthTime
  cases hauth : r.auth with
  | none => exact hauth
  | some auth =>
    dsimp only
    split <;> rfl

theorem refreshAuthClock_ledger (h : d.Ledger) (now : Duration) (wall : Clocked) :
    Ledger { d with router := { d.router with core := d.router.core.setAuthTime now wall } } := by
  have hauth : ∀ auth', (d.router.core.setAuthTime now wall).auth = some auth' →
      ∃ auth, d.auth = some auth ∧ auth'.cert = auth.cert ∧ auth'.keypair = auth.keypair := by
    intro auth' hauth'
    rw [setAuthTime_auth_eq] at hauth'
    obtain ⟨auth, hold, rfl⟩ := Option.map_eq_some_iff.mp hauth'
    have hkept := auth.setTime_credentialKept now wall
    exact ⟨auth, hold, hkept.cert, hkept.keypair⟩
  refine Ledger.kept h (Nat.le_refl _) hauth ?_ rfl fun _ hanswer => hanswer
  unfold runningFrom auth
  dsimp only
  rw [setAuthTime_auth_eq, Option.map_map]
  congr 1
  funext auth
  exact congrArg (fun cert => cert.notBefore.get) (auth.setTime_credentialKept now wall).cert

theorem serveSetAuth_ledger (h : d.Ledger) {seed cert trustAnchor : Bytes}
    {provider : Option RenewalProviderData} {installerUnix : Nat}
    (hissued : ∀ parsed rest, MembershipCert.readFromPrefix cert = some (parsed, rest) →
      parsed.notBefore.get ≤ d.unix) :
    (d.serveSetAuth k store clock now seed cert trustAnchor provider installerUnix).1.Ledger := by
  rcases d.serveSetAuth_cases k store clock now seed cert trustAnchor provider installerUnix with
    ⟨-, -, hinstalled⟩ | ⟨-, -, hrefused⟩
  · exact h.installed hinstalled hissued
  · exact h.refused hrefused

theorem applyFinishedRenewal_ledger (h : d.Ledger) :
    (d.applyFinishedRenewal k store clock now).1.Ledger := by
  rcases d.applyFinishedRenewal_cases k store clock now with
    ⟨heq, -⟩ | ⟨answer, hinbox, ⟨heq, -⟩ | ⟨renewed, houtcome, -, heq⟩⟩
  · rw [heq]
    exact h
  · rw [heq]
    exact h.takeAnswer
  · rw [heq]
    apply serveSetAuth_ledger h.takeAnswer
    intro parsed rest hread
    have hdated := h.dated answer (List.mem_append_right _ (Option.mem_toList.mpr hinbox))
    exact (hdated.issued renewed houtcome parsed rest hread).1

theorem startRenewal_frame (d : RenewalDriver e a σ) (clock : HostClock) (now : Duration) :
    ∃ gate attempts, d.startRenewal clock now = { d with gate, attempts } := by
  unfold startRenewal
  dsimp only
  (repeat' split) <;> exact ⟨_, _, rfl⟩

theorem answer_ledger (h : d.Ledger) {attempts : List RenewalAttempt}
    {provider : RenewalProviderData} {reply : Except String (Bytes × Bytes)}
    (hstamped : ∀ cert trustAnchor, reply = .ok (cert, trustAnchor) → ∀ parsed rest,
      MembershipCert.readFromPrefix cert = some (parsed, rest) → parsed.notBefore.get = d.unix) :
    Ledger { d with
      attempts
      answers := d.answers ++ [⟨reply.map fun r => ⟨r.1, r.2, provider⟩, none⟩] } := by
  refine ⟨h.running, h.keys, ?_⟩
  intro answer hanswer
  unfold pending at hanswer
  rw [List.append_assoc, List.mem_append, List.singleton_append, List.mem_cons] at hanswer
  obtain hold | rfl | hold := hanswer
  · exact h.dated answer (List.mem_append_left _ hold)
  · refine ⟨?_, fun since hsince => (nomatch hsince)⟩
    intro renewed houtcome parsed rest hread
    cases reply with
    | error err => cases houtcome
    | ok r =>
      obtain rfl := Except.ok.inj houtcome
      have hunix := hstamped r.1 r.2 rfl parsed rest hread
      refine ⟨Nat.le_of_eq hunix, ?_⟩
      intro _ start hstart
      obtain ⟨running, hrunning, rfl⟩ := Option.map_eq_some_iff.mp hstart
      rw [hunix]
      exact h.running running hrunning
  · exact h.dated answer (List.mem_append_right _ hold)

theorem step_ledger (h : d.Ledger) {op : RenewalOp} (hstamped : d.Stamped op) :
    (d.step k store op).Ledger := by
  cases op with
  | elapse secs =>
    exact Ledger.kept h (Nat.le_add_right _ _) (fun auth' hauth' => ⟨auth', hauth', rfl, rfl⟩) rfl
      rfl fun _ hanswer => hanswer
  | refreshAuthClock now wall => exact refreshAuthClock_ledger h now wall
  | setAuth clock now seed cert trustAnchor provider installerUnix =>
    exact serveSetAuth_ledger h hstamped
  | answer i reply =>
    unfold step
    dsimp only
    split
    · exact h
    · apply answer_ledger h
      rintro cert trustAnchor rfl
      exact hstamped
  | deliver i =>
    unfold step
    dsimp only
    split
    · rename_i answer hget hempty
      refine Ledger.kept h (Nat.le_refl _) (fun auth' hauth' => ⟨auth', hauth', rfl, rfl⟩) rfl rfl ?_
      intro answer' hanswer'
      unfold pending at hanswer' ⊢
      rcases List.mem_append.mp hanswer' with hmem | hmem
      · exact List.mem_append_left _ (List.mem_of_mem_eraseIdx hmem)
      · obtain rfl := Option.some.inj (Option.mem_toList.mp hmem)
        exact List.mem_append_left _ (List.mem_of_getElem? hget)
    · exact h
  | pollCertRenewal clock now =>
    obtain ⟨gate, attempts, heq⟩ :=
      (d.applyFinishedRenewal k store clock now).1.startRenewal_frame clock now
    show ((d.applyFinishedRenewal k store clock now).1.startRenewal clock now).Ledger
    rw [heq]
    have happlied : (d.applyFinishedRenewal k store clock now).1.Ledger :=
      applyFinishedRenewal_ledger h
    exact ⟨happlied.running, happlied.keys, happlied.dated⟩

end Steps

/-- Along every run from a start, no renewal that lands undoes anything exactly if none
that is let through was overtaken since it was issued by a certificate issued later. -/
theorem late_renewal_undoes_nothing_iff (k : Crypto) (store : SettingsStore σ)
    (d : RenewalDriver e a σ) (ops : List RenewalOp) (hboot : d.Booted)
    (hstamped : Run.AllSafe (step k store) Stamped d ops) :
    Run.AllSafe (step k store) (NeverUndoes k store) d ops ↔
      Run.AllSafe (step k store) (InOrder k store) d ops := by
  have hledger := hboot.ledger
  clear hboot
  induction ops generalizing d with
  | nil => exact iff_of_true Run.allSafe_nil Run.allSafe_nil
  | cons op rest ih =>
    obtain ⟨hop, hrest⟩ := Run.allSafe_cons.mp hstamped
    rw [Run.allSafe_cons, Run.allSafe_cons]
    refine and_congr ?_ (ih (d.step k store op) hrest (step_ledger hledger hop))
    cases op with
    | pollCertRenewal clock now => exact landsClean_iff hledger
    | _ => exact Iff.rfl

end RenewalDriver

namespace SmallMesh

open BatmanEngine (smallCapacities)

def issued800 : MembershipCert :=
  { cert2 with
    notBefore := .ofNat 800
    notAfter := .ofNat 1800
    signature := signatureOf
      0x2fcc03164cd9b1ab760f8f908daab3cd97af67e5b3ba95e8b662755e061d14eb
      0xf21b4b0d29fdc722c3c9abb6adf470b8a9add122ebb25aa8e678d539c19cda02 }

def issued900 : MembershipCert :=
  { cert2 with
    notBefore := .ofNat 900
    notAfter := .ofNat 1900
    signature := signatureOf
      0xd3d2bb944582e9492f78893b1d285f48dca634777bc29d559e9f791d715d816b
      0x9a8345c3f0081c6b7e15d888a00807cf988bd930d0df9e2b31c35b705023fd0b }

def lateCrypto : Crypto :=
  { crypto with
    verifySignature := fun pubkey msg signature =>
      (pubkey, msg, signature) ∈ (anchor.rootPubkey, issued800.signedBody, issued800.signature) ::
        (anchor.rootPubkey, issued900.signedBody, issued900.signature) :: signatures }

def authority2 : RenewalProviderData := ⟨⟨"10.0.0.1:7000", cert3.edPubkey⟩, "token"⟩

/-- Node 2 as it starts, enrolled until 1000. -/
def enrolled2 : RenewalDriver smallCapacities capacities (SettingsRecord × Bool) where
  router :=
    { core := (CentralRouter.withCapacities smallCapacities capacities mac2).setAuth
        (OgmAuth.withCapacities capacities (keypair 2) cert2 anchor)
      emissions := [.default, .default]
      ifaceCount := 1
      runtimeConfigActive := false
      registered := BatmanEngine.one_le_maxInterfaces }
  identitySeed := some (keypair 2).seed
  renewalProvider := some authority2
  settings := none
  gate := ⟨none, none⟩
  attempts := []
  answers := []
  inbox := none
  unix := 0

theorem enrolled2_booted : enrolled2.Booted := by
  refine ⟨rfl, rfl, ?_, ?_⟩
  · intro auth hauth
    obtain rfl := Option.some.inj hauth
    exact Nat.zero_le _
  · intro auth hauth
    obtain rfl := Option.some.inj hauth
    rfl

/-- It asks in its last quarter and is answered at once; the answer comes in later. -/
def renewedLater (meanwhile : List RenewalOp) : List RenewalOp :=
  [.elapse 800, .refreshAuthClock (Duration.ofSecs 100) (.at 800),
    .pollCertRenewal ⟨800, true⟩ (Duration.ofSecs 100),
    .answer 0 (.ok (issued800.asBytes, anchor.toBytes)), .elapse 100] ++
  meanwhile ++
  [.deliver 0, .pollCertRenewal ⟨900, true⟩ (Duration.ofSecs 200)]

/-- An operator installs a certificate of this moment, from the same authority. -/
def reenroll : RenewalOp :=
  .setAuth ⟨900, true⟩ (Duration.ofSecs 200) [] issued900.asBytes anchor.toBytes
    (some authority2) 900

abbrev runLate (ops : List RenewalOp) :
    RenewalDriver smallCapacities capacities (SettingsRecord × Bool) :=
  Run.run (RenewalDriver.step lateCrypto memoryStore) enrolled2 ops

theorem parsed_eq {cert parsed : MembershipCert} {rest : Bytes}
    (h : MembershipCert.readFromPrefix cert.asBytes = some (parsed, rest)) : parsed = cert := by
  have hread := MembershipCert.readFromPrefix_asBytes cert []
  rw [List.append_nil, h] at hread
  exact (Prod.mk.inj (Option.some.inj hread)).1

theorem issued800_stamped {d : RenewalDriver smallCapacities capacities (SettingsRecord × Bool)}
    (h : d.unix = 800) : d.Stamped (.answer 0 (.ok (issued800.asBytes, anchor.toBytes))) := by
  intro parsed rest hread
  rw [parsed_eq hread, h]
  decide +kernel

theorem late_renewal_undoes_nothing_iff_alone :
    Run.AllSafe (RenewalDriver.step lateCrypto memoryStore)
        (RenewalDriver.NeverUndoes lateCrypto memoryStore) enrolled2 (renewedLater []) ∧
      (runLate (renewedLater [])).runningFrom = some 800 := by
  refine ⟨?_, by decide +kernel⟩
  apply (RenewalDriver.late_renewal_undoes_nothing_iff lateCrypto memoryStore enrolled2
    (renewedLater []) enrolled2_booted ?_).mpr
  · have hwaiting : (runLate ((renewedLater []).take 6)).inbox.map RenewalAnswer.installedSince =
        some none := by
      decide +kernel
    have hempty : (runLate ((renewedLater []).take 2)).inbox.isNone = true := by decide +kernel
    unfold renewedLater
    simp only [List.nil_append, List.cons_append, Run.allSafe_cons]
    refine ⟨trivial, trivial, ?_, trivial, trivial, trivial, ?_, Run.allSafe_nil⟩
    · intro answer renewed hinbox
      have hnone : some answer = none := hinbox.symm.trans (Option.isNone_iff_eq_none.mp hempty)
      cases hnone
    · intro answer renewed hinbox _ _ parsed rest _ since hsince
      have hanswer : (some answer).map RenewalAnswer.installedSince = some none := by
        rw [← hinbox]
        exact hwaiting
      rw [Option.map_some, hsince] at hanswer
      cases hanswer
  · unfold renewedLater
    simp only [List.nil_append, List.cons_append, Run.allSafe_cons]
    exact ⟨trivial, trivial, trivial, issued800_stamped (by decide +kernel), trivial, trivial,
      trivial, Run.allSafe_nil⟩

/-- The certificate installed by hand at 900 is replaced by the one issued at 800. -/
theorem renewal_takes_back_reenrollment :
    enrolled2.Booted ∧
      Run.AllSafe (RenewalDriver.step lateCrypto memoryStore) RenewalDriver.Stamped enrolled2
        (renewedLater [reenroll]) ∧
      ¬ Run.AllSafe (RenewalDriver.step lateCrypto memoryStore)
        (RenewalDriver.NeverUndoes lateCrypto memoryStore) enrolled2 (renewedLater [reenroll]) := by
  refine ⟨enrolled2_booted, ?_, ?_⟩
  · unfold renewedLater
    simp only [List.nil_append, List.cons_append, Run.allSafe_cons]
    refine ⟨trivial, trivial, trivial, issued800_stamped (by decide +kernel), trivial, ?_, trivial,
      trivial, Run.allSafe_nil⟩
    intro parsed rest hread
    rw [parsed_eq hread]
    decide +kernel
  · intro hsafe
    have hclean := hsafe ((renewedLater [reenroll]).take 7) _ (List.prefix_refl _)
    have hbefore : (runLate ((renewedLater [reenroll]).take 7)).runningFrom = some 900 := by
      decide +kernel
    have hafter : (RenewalDriver.applyFinishedRenewal lateCrypto memoryStore
        (runLate ((renewedLater [reenroll]).take 7)) ⟨900, true⟩
        (Duration.ofSecs 200)).1.runningFrom = some 800 := by
      decide +kernel
    obtain ⟨auth, hauth, hfrom⟩ := Option.map_eq_some_iff.mp hbefore
    obtain ⟨auth', hauth', hfrom'⟩ := Option.map_eq_some_iff.mp hafter
    have hle := hclean.notOlder auth auth' hauth hauth'
    omega

end SmallMesh

end Wayfinder

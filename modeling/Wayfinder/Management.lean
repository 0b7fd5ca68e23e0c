import Wayfinder.Authority.Issue
import Wayfinder.Install

/-!
# Writes through the management API

`SetAuth` and `SetConfig` as the adapter serves them, with the state they leave behind on
every exit. An install checks everything, records, and only then applies. A configuration
is taken part by part, each applied or recorded before the next is looked at, so that a
part refused leaves the ones before it in force.
-/

namespace Wayfinder

set_option autoImplicit false

open Table Fallible

/-! ### Settings -/

/-- All a node records of what its operator changed: what an install does, and the two
posture flags. -/
structure SettingsRecord extends NodeSettings where
  requireAuth : Option Bool
  lazyCertDistribution : Option Bool

/-- Present fields replace; an empty revocation clears. -/
def SettingsRecord.merge (self update : SettingsRecord) : SettingsRecord where
  requireAuth := update.requireAuth.or self.requireAuth
  lazyCertDistribution := update.lazyCertDistribution.or self.lazyCertDistribution
  identity := update.identity.or self.identity
  selfRevocation :=
    match update.selfRevocation with
    | some record => if record.isEmpty then none else some record
    | none => self.selfRevocation

/-- Where settings are recorded. A store that refuses leaves what it had recorded. Of an
identity a store may keep less than it was handed. -/
structure SettingsStore (σ : Type) where
  settings : σ → SettingsRecord
  persist : σ → SettingsRecord → Except String Unit × σ
  refused : ∀ s update err, (persist s update).1 = .error err →
    settings (persist s update).2 = settings s
  recorded : ∀ s update, update.identity = none → (persist s update).1 = .ok () →
    settings (persist s update).2 = (settings s).merge update

/-! ### The router, as a management request sees it -/

/-- What a link sends of its own accord: OGMs, and heartbeats at a cadence. -/
structure Emission where
  txOgm : Bool
  txKeepalive : Option Nat
  deriving DecidableEq

def Emission.default : Emission := ⟨true, none⟩

structure InterfaceFeatures extends LinkFeatures, Emission

def minKeepaliveInterval : Duration := Duration.ofMillis 100

/-- The router with what only management reads or writes: the interfaces registered, what
each sends of its own accord, and whether a runtime override is in force. -/
structure ManagedRouter (e : Capacities) (a : AuthCapacities) where
  core : CentralRouter e a
  emissions : List Emission
  ifaceCount : Nat
  runtimeConfigActive : Bool
  registered : ifaceCount ≤ e.maxInterfaces

namespace ManagedRouter

variable {e : Capacities} {a : AuthCapacities}

def touchIface (r : ManagedRouter e a) (idx : Nat) : ManagedRouter e a :=
  if h : idx < e.maxInterfaces then
    { r with
      ifaceCount := max r.ifaceCount (idx + 1)
      registered := Nat.max_le.mpr ⟨r.registered, h⟩ }
  else r

def linkFeatures (r : ManagedRouter e a) (idx : Nat) : InterfaceFeatures where
  toLinkFeatures := r.core.featuresOf idx
  toEmission := r.emissions.getD idx .default

def setLinkFeatures (r : ManagedRouter e a) (idx : Nat) (features : InterfaceFeatures) :
    ManagedRouter e a :=
  if idx < e.maxInterfaces then
    { r with
      core := r.core.setLinkFeatures idx features.toLinkFeatures
      emissions := r.emissions.set idx features.toEmission }.touchIface idx
  else r

def configureInterfaceOgm (r : ManagedRouter e a) (idx : Nat) (iMin iMax now : Duration) :
    ManagedRouter e a :=
  { r with core :=
      { r.core with batman := r.core.batman.configureInterfaceOgm idx iMin iMax now } }.touchIface
    idx

def configureInterfaceKeepalive (r : ManagedRouter e a) (idx : Nat) (interval : Option Duration)
    (now : Duration) : ManagedRouter e a :=
  let interval := interval.map fun iv => max iv minKeepaliveInterval
  { r with core :=
      { r.core with batman := r.core.batman.configureInterfaceKeepalive idx interval now } }

def applyRuntimeTrickleConfig (r : ManagedRouter e a) (idx : Nat) (iMin iMax now : Duration) :
    ManagedRouter e a × Bool :=
  if r.ifaceCount ≤ idx then (r, false)
  else ({ r.configureInterfaceOgm idx iMin iMax now with runtimeConfigActive := true }, true)

def applyRuntimeLinkFeatures (r : ManagedRouter e a) (idx : Nat) (features : InterfaceFeatures)
    (now : Duration) : ManagedRouter e a × Bool :=
  if r.ifaceCount ≤ idx then (r, false)
  else
    let r := r.setLinkFeatures idx features
    let r := r.configureInterfaceKeepalive idx (features.txKeepalive.map Duration.ofMillis) now
    ({ r with runtimeConfigActive := true }, true)

def applyRuntimeRequireAuth (r : ManagedRouter e a) (require : Bool) : ManagedRouter e a :=
  { r with core := { r.core with requireAuth := require }, runtimeConfigActive := true }

def applyRuntimeLazyCertDistribution (r : ManagedRouter e a) (lazy : Bool) : ManagedRouter e a :=
  { r with core := { r.core with lazyCertDistribution := lazy }, runtimeConfigActive := true }

end ManagedRouter

/-! ### Requests -/

structure TrickleConfigData where
  ifaceIdx : Nat
  minIntervalMs : Nat
  maxIntervalMs : Nat

/-- Present flags replace; `txKeepalive` may be present and off. -/
structure LinkFeaturesData where
  ifaceIdx : Nat
  txOgm : Option Bool
  rxOgm : Option Bool
  txData : Option Bool
  rxData : Option Bool
  txKeepalive : Option (Option Nat)

structure RuntimeConfigData where
  trickle : Option TrickleConfigData
  lazyCertDistribution : Option Bool
  linkFeatures : Option LinkFeaturesData
  requireAuth : Option Bool
  enrollment : Option EnrollmentPolicyData

def InterfaceFeatures.update (features : InterfaceFeatures) (lf : LinkFeaturesData) :
    InterfaceFeatures where
  txOgm := lf.txOgm.getD features.txOgm
  rxOgm := lf.rxOgm.getD features.rxOgm
  txData := lf.txData.getD features.txData
  rxData := lf.rxData.getD features.rxData
  txKeepalive := lf.txKeepalive.getD features.txKeepalive

structure ManagementAdapter (e : Capacities) (a : AuthCapacities) (σ : Type) where
  router : ManagedRouter e a
  epochUnix : Duration
  now : Duration
  clockTrusted : Bool
  wallClock : Option WallClock
  identitySeed : Option (Option (Octets 32))
  renewalProvider : Option (Option RenewalProviderData)
  settings : Option σ

inductive ManagementWrite where
  | setAuth (seed cert trustAnchor : Bytes) (provider : Option RenewalProviderData)
      (installerUnix : Nat)
  | setConfig (config : RuntimeConfigData)

theorem backfillSet_eq_self {α : Type} {n : Nat} {v : BoundedVec α n} {idx : Nat} {fill x : α}
    {h : idx < n} :
    BatmanEngine.backfillSet v idx fill x h = v ↔ v.toList[idx]? = some x := by
  unfold BatmanEngine.backfillSet
  constructor
  · intro heq
    have hlist := congrArg BoundedVec.toList heq
    dsimp only at hlist
    rw [← hlist, List.getElem?_set_self]
    rw [List.length_append, List.length_replicate]
    omega
  · intro hget
    obtain ⟨hlt, hx⟩ := List.getElem?_eq_some_iff.mp hget
    have hnone : idx + 1 - v.toList.length = 0 := by omega
    cases v
    simp only [hnone, List.replicate_zero, List.append_nil, BoundedVec.mk.injEq]
    rw [← hx, List.set_getElem_self]

namespace ManagementAdapter

variable {e : Capacities} {a : AuthCapacities} {σ : Type}

def installView (store : SettingsStore σ) (m : ManagementAdapter e a σ) : RouterAdapter e a where
  router := m.router.core
  epochUnix := m.epochUnix
  now := m.now
  clockTrusted := m.clockTrusted
  wallClock := m.wallClock
  identitySeed := m.identitySeed
  renewalProvider := m.renewalProvider
  settings := m.settings.map fun s update => (store.persist s ⟨update, none, none⟩).1

def persistSettings (store : SettingsStore σ) (update : SettingsRecord) :
    EStateM String (ManagementAdapter e a σ) Unit := fun m =>
  match m.settings with
  | none => .ok () m
  | some s =>
    match store.persist s update with
    | (.ok (), s) => .ok () { m with settings := some s }
    | (.error err, s) => .error err { m with settings := some s }

def setAuth (k : Crypto) (store : SettingsStore σ) (seed cert trustAnchor : Bytes)
    (provider : Option RenewalProviderData) (installerUnix : Nat) :
    EStateM String (ManagementAdapter e a σ) Unit := do
  let m ← get
  let (identity, parsedCert, anchor, verified) ←
    match (m.installView store).examine k seed cert trustAnchor provider with
    | .ok examined => pure examined
    | .error err => throw err
  persistSettings store
    ⟨⟨some ⟨identity.toList, cert, trustAnchor, provider⟩, some []⟩, none, none⟩
  let auth := OgmAuth.withCapacities a ⟨identity⟩ parsedCert anchor
  let auth := auth.setRenewalAuthority k (provider.map fun p => p.target.nodeKey)
  modify fun m => { m with
    router := { m.router with core := m.router.core.setAuth auth }
    identitySeed := m.identitySeed.map fun _ => some identity
    renewalProvider := m.renewalProvider.map fun _ => provider
    wallClock := m.wallClock.map fun clock =>
      clock.installAnchor installerUnix verified m.now }

def setTrickle (t : TrickleConfigData) : EStateM String (ManagementAdapter e a σ) Unit := fun m =>
  if t.maxIntervalMs < t.minIntervalMs then
    .error "min_interval_ms must not exceed max_interval_ms" m
  else
    match m.router.applyRuntimeTrickleConfig t.ifaceIdx (Duration.ofMillis t.minIntervalMs)
        (Duration.ofMillis t.maxIntervalMs) m.now with
    | (router, true) => .ok () { m with router }
    | (router, false) => .error "interface index out of range" { m with router }

/-- Both posture flags are recorded in one write, before either is applied. -/
def recordPosture (store : SettingsStore σ) (config : RuntimeConfigData) :
    EStateM String (ManagementAdapter e a σ) Unit :=
  if config.requireAuth.isSome || config.lazyCertDistribution.isSome then
    persistSettings store ⟨⟨none, none⟩, config.requireAuth, config.lazyCertDistribution⟩
  else pure ()

def applyPosture (config : RuntimeConfigData) (r : ManagedRouter e a) : ManagedRouter e a :=
  let r := config.requireAuth.elim r r.applyRuntimeRequireAuth
  config.lazyCertDistribution.elim r r.applyRuntimeLazyCertDistribution

def refuseEnrollment (config : RuntimeConfigData) :
    EStateM String (ManagementAdapter e a σ) Unit :=
  if config.enrollment.isSome then throw "node is not a certificate-authority provider"
  else pure ()

def setLinkFeatures (lf : LinkFeaturesData) : EStateM String (ManagementAdapter e a σ) Unit :=
  fun m =>
    let features := (m.router.linkFeatures lf.ifaceIdx).update lf
    match m.router.applyRuntimeLinkFeatures lf.ifaceIdx features m.now with
    | (router, true) => .ok () { m with router }
    | (router, false) => .error "interface index out of range" { m with router }

def setConfig (store : SettingsStore σ) (config : RuntimeConfigData) :
    EStateM String (ManagementAdapter e a σ) Unit := do
  config.trickle.forM setTrickle
  recordPosture store config
  modify fun m => { m with router := applyPosture config m.router }
  refuseEnrollment config
  config.linkFeatures.forM setLinkFeatures

def write (k : Crypto) (store : SettingsStore σ) :
    ManagementWrite → EStateM String (ManagementAdapter e a σ) Unit
  | .setAuth seed cert trustAnchor provider installerUnix =>
    setAuth k store seed cert trustAnchor provider installerUnix
  | .setConfig config => setConfig store config

/-! ### All or nothing -/

/-- Nothing a write may change differs; of the settings what is recorded counts. -/
structure Same (store : SettingsStore σ) (m m' : ManagementAdapter e a σ) : Prop where
  router : m'.router = m.router
  identitySeed : m'.identitySeed = m.identitySeed
  renewalProvider : m'.renewalProvider = m.renewalProvider
  wallClock : m'.wallClock = m.wallClock
  settings : m'.settings.map store.settings = m.settings.map store.settings

/-- A write that is refused leaves everything as it was. -/
def AllOrNothing (k : Crypto) (store : SettingsStore σ) (m : ManagementAdapter e a σ)
    (w : ManagementWrite) : Prop :=
  ∀ err m', write k store w m = .error err m' → m.Same store m'

def RefusesTrickle (m : ManagementAdapter e a σ) (config : RuntimeConfigData) : Prop :=
  ∃ t, config.trickle = some t ∧
    (t.maxIntervalMs < t.minIntervalMs ∨ m.router.ifaceCount ≤ t.ifaceIdx)

/-- The store is asked to record the posture flags, and refuses. -/
def RefusesRecord (store : SettingsStore σ) (m : ManagementAdapter e a σ)
    (config : RuntimeConfigData) : Prop :=
  (config.requireAuth.isSome || config.lazyCertDistribution.isSome) = true ∧
    ∃ s, m.settings = some s ∧ ∃ err, (store.persist s
      ⟨⟨none, none⟩, config.requireAuth, config.lazyCertDistribution⟩).1 = .error err

/-- The parts looked at last: an enrollment policy, and a link that does not exist. -/
def RefusesLast (m : ManagementAdapter e a σ) (config : RuntimeConfigData) : Prop :=
  config.enrollment.isSome = true ∨
    ∃ lf, config.linkFeatures = some lf ∧ m.router.ifaceCount ≤ lf.ifaceIdx

/-- The timer asked for is the one that runs, started at this same moment. -/
def TrickleInPlace (m : ManagementAdapter e a σ) (config : RuntimeConfigData) : Prop :=
  ∀ t, config.trickle = some t → m.router.runtimeConfigActive = true ∧
    m.router.core.batman.ogmTimers.toList[t.ifaceIdx]? =
      some (TrickleTimer.new (Duration.ofMillis t.minIntervalMs) (Duration.ofMillis t.maxIntervalMs)
        m.now (m.router.core.batman.jitterSeed t.ifaceIdx 0))

structure FlagsInPlace (r : ManagedRouter e a) (config : RuntimeConfigData) : Prop where
  requireAuth : ∀ v, config.requireAuth = some v →
    r.core.requireAuth = v ∧ r.runtimeConfigActive = true
  lazyCertDistribution : ∀ v, config.lazyCertDistribution = some v →
    r.core.lazyCertDistribution = v ∧ r.runtimeConfigActive = true

structure PostureInPlace (store : SettingsStore σ) (m : ManagementAdapter e a σ)
    (config : RuntimeConfigData) : Prop where
  flags : FlagsInPlace m.router config
  recorded : ∀ s, m.settings = some s →
    (store.settings s).merge ⟨⟨none, none⟩, config.requireAuth, config.lazyCertDistribution⟩ =
      store.settings s

/-- The parts in front of the one refused are in place already. -/
def InPlaceBefore (store : SettingsStore σ) (m : ManagementAdapter e a σ)
    (config : RuntimeConfigData) : Prop :=
  m.RefusesTrickle config ∨
    (m.RefusesRecord store config → m.TrickleInPlace config) ∧
      (¬ m.RefusesRecord store config → m.RefusesLast config →
        m.TrickleInPlace config ∧ m.PostureInPlace store config)

/-! ### The parts of a configuration -/

section Parts
variable {m : ManagementAdapter e a σ} {store : SettingsStore σ} {config : RuntimeConfigData}

theorem touchIface_of_lt {r : ManagedRouter e a} {idx : Nat} (h : idx < r.ifaceCount) :
    r.touchIface idx = r := by
  unfold ManagedRouter.touchIface
  have hmax : max r.ifaceCount (idx + 1) = r.ifaceCount := Nat.max_eq_left h
  split
  · cases r
    simpa using hmax
  · rfl

def retimed (m : ManagementAdapter e a σ) (config : RuntimeConfigData) : ManagedRouter e a :=
  match config.trickle with
  | none => m.router
  | some t =>
    { m.router with
      core := { m.router.core with
        batman := m.router.core.batman.configureInterfaceOgm t.ifaceIdx
          (Duration.ofMillis t.minIntervalMs) (Duration.ofMillis t.maxIntervalMs) m.now }
      runtimeConfigActive := true }

theorem trickle_refused (h : m.RefusesTrickle config) :
    ∃ err, config.trickle.forM setTrickle m = .error err m := by
  obtain ⟨t, ht, hcheck⟩ := h
  rw [ht]
  show ∃ err, setTrickle t m = .error err m
  unfold setTrickle
  split
  · exact ⟨_, rfl⟩
  · rename_i hbounds
    have hidx := hcheck.resolve_left hbounds
    unfold ManagedRouter.applyRuntimeTrickleConfig
    rw [if_pos hidx]
    exact ⟨_, rfl⟩

theorem trickle_applied (h : ¬ m.RefusesTrickle config) :
    config.trickle.forM setTrickle m = .ok () { m with router := m.retimed config } := by
  unfold retimed
  cases ht : config.trickle with
  | none => rfl
  | some t =>
    have hcheck : ¬ (t.maxIntervalMs < t.minIntervalMs ∨ m.router.ifaceCount ≤ t.ifaceIdx) :=
      fun hcheck => h ⟨t, ht, hcheck⟩
    rw [not_or] at hcheck
    show setTrickle t m = _
    unfold setTrickle ManagedRouter.applyRuntimeTrickleConfig ManagedRouter.configureInterfaceOgm
    rw [if_neg hcheck.1, if_neg hcheck.2, touchIface_of_lt (by simpa using hcheck.2)]

theorem record_refused (h : m.RefusesRecord store config) :
    ∃ err s s', m.settings = some s ∧ store.settings s' = store.settings s ∧
      recordPosture store config m = .error err { m with settings := some s' } := by
  obtain ⟨hnamed, s, hs, err, herr⟩ := h
  refine ⟨err, s, _, hs, store.refused s _ err herr, ?_⟩
  have hpart : recordPosture store config = persistSettings (e := e) (a := a) store
      ⟨⟨none, none⟩, config.requireAuth, config.lazyCertDistribution⟩ := if_pos hnamed
  rw [hpart]
  unfold persistSettings
  rw [hs]
  dsimp only
  split
  · rename_i hok
    rw [hok] at herr
    cases herr
  · rename_i hrefused
    rw [hrefused] at herr ⊢
    obtain rfl := Except.error.inj herr
    rfl

@[simp] theorem merge_nothing (s : SettingsRecord) : s.merge ⟨⟨none, none⟩, none, none⟩ = s := rfl

theorem record_taken (h : ¬ m.RefusesRecord store config) :
    ∃ settings, settings.map store.settings = m.settings.map (fun s => (store.settings s).merge
        ⟨⟨none, none⟩, config.requireAuth, config.lazyCertDistribution⟩) ∧
      recordPosture store config m = .ok () { m with settings := settings } := by
  by_cases hnamed : (config.requireAuth.isSome || config.lazyCertDistribution.isSome) = true
  · have hpart : recordPosture store config = persistSettings (e := e) (a := a) store
        ⟨⟨none, none⟩, config.requireAuth, config.lazyCertDistribution⟩ := if_pos hnamed
    rw [hpart]
    unfold persistSettings
    cases hs : m.settings with
    | none =>
      refine ⟨none, rfl, ?_⟩
      dsimp only
      rw [← hs]
    | some s =>
      dsimp only
      split
      · rename_i s' hok
        refine ⟨some s', ?_, rfl⟩
        have hrecorded := store.recorded s _ rfl (congrArg Prod.fst hok)
        rw [hok] at hrecorded
        exact congrArg some hrecorded
      · rename_i err s' herr
        exact absurd ⟨hnamed, s, hs, err, congrArg Prod.fst herr⟩ h
  · have hpart : recordPosture (e := e) (a := a) store config = pure () := if_neg hnamed
    rw [Bool.or_eq_true, not_or] at hnamed
    have hrequire : config.requireAuth = none := by simpa using hnamed.1
    have hlazy : config.lazyCertDistribution = none := by simpa using hnamed.2
    rw [hpart, hrequire, hlazy]
    exact ⟨m.settings, rfl, rfl⟩

theorem last_refused (h : m.RefusesLast config) :
    ∃ err, (refuseEnrollment config >>= fun _ => config.linkFeatures.forM setLinkFeatures) m =
      .error err m := by
  cases henroll : config.enrollment.isSome with
  | true =>
    have hrefused : refuseEnrollment config m =
        .error "node is not a certificate-authority provider" m := by
      unfold refuseEnrollment
      rw [henroll]
      rfl
    exact ⟨_, bind_of_error hrefused⟩
  | false =>
    have hnext : refuseEnrollment config m = .ok () m := by
      unfold refuseEnrollment
      rw [henroll]
      rfl
    obtain ⟨lf, hlf, hidx⟩ := h.resolve_left (by rw [henroll]; simp)
    rw [bind_of_ok hnext, hlf]
    show ∃ err, setLinkFeatures lf m = .error err m
    unfold setLinkFeatures ManagedRouter.applyRuntimeLinkFeatures
    dsimp only
    rw [if_pos hidx]
    exact ⟨_, rfl⟩

theorem last_taken (h : ¬ m.RefusesLast config) :
    ∃ m', (refuseEnrollment config >>= fun _ => config.linkFeatures.forM setLinkFeatures) m =
      .ok () m' := by
  rw [RefusesLast, not_or] at h
  have hnext : refuseEnrollment config m = .ok () m := by
    unfold refuseEnrollment
    rw [if_neg h.1]
    rfl
  rw [bind_of_ok hnext]
  cases hlf : config.linkFeatures with
  | none => exact ⟨m, rfl⟩
  | some lf =>
    have hidx : ¬ m.router.ifaceCount ≤ lf.ifaceIdx := fun hidx => h.2 ⟨lf, hlf, hidx⟩
    show ∃ m', setLinkFeatures lf m = .ok () m'
    unfold setLinkFeatures ManagedRouter.applyRuntimeLinkFeatures
    dsimp only
    rw [if_neg hidx]
    exact ⟨_, rfl⟩

theorem setConfig_cases (m : ManagementAdapter e a σ) (store : SettingsStore σ)
    (config : RuntimeConfigData) :
    (m.RefusesTrickle config ∧ ∃ err, setConfig store config m = .error err m) ∨
      (¬ m.RefusesTrickle config ∧ m.RefusesRecord store config ∧
        ∃ err s s', m.settings = some s ∧ store.settings s' = store.settings s ∧
          setConfig store config m =
            .error err { m with router := m.retimed config, settings := some s' }) ∨
      (¬ m.RefusesTrickle config ∧ ¬ m.RefusesRecord store config ∧
        ∃ settings, settings.map store.settings = m.settings.map (fun s => (store.settings s).merge
            ⟨⟨none, none⟩, config.requireAuth, config.lazyCertDistribution⟩) ∧
          setConfig store config m =
            (refuseEnrollment config >>= fun _ => config.linkFeatures.forM setLinkFeatures)
              { m with router := applyPosture config (m.retimed config), settings }) := by
  by_cases htrickle : m.RefusesTrickle config
  · obtain ⟨err, herr⟩ := trickle_refused htrickle
    exact .inl ⟨htrickle, err, bind_of_error herr⟩
  · have hpaced : setConfig store config m = _ := bind_of_ok (trickle_applied htrickle)
    by_cases hrecord : m.RefusesRecord store config
    · obtain ⟨err, s, s', hs, hkept, herr⟩ :=
        record_refused (m := { m with router := m.retimed config }) hrecord
      refine .inr (.inl ⟨htrickle, hrecord, err, s, s', hs, hkept, ?_⟩)
      rw [hpaced]
      exact bind_of_error herr
    · obtain ⟨settings, hmerged, hok⟩ :=
        record_taken (m := { m with router := m.retimed config }) hrecord
      refine .inr (.inr ⟨htrickle, hrecord, settings, hmerged, ?_⟩)
      rw [hpaced, bind_of_ok hok]
      rfl

/-! ### What the parts change -/

theorem retimed_of_inPlace (h : m.TrickleInPlace config) : m.retimed config = m.router := by
  unfold retimed
  cases ht : config.trickle with
  | none => rfl
  | some t =>
    obtain ⟨hactive, htimer⟩ := h t ht
    have hbatman : m.router.core.batman.configureInterfaceOgm t.ifaceIdx
        (Duration.ofMillis t.minIntervalMs) (Duration.ofMillis t.maxIntervalMs) m.now =
        m.router.core.batman := by
      unfold BatmanEngine.configureInterfaceOgm
      split
      · dsimp only
        rw [backfillSet_eq_self.mpr htimer]
      · rfl
    dsimp only
    rw [hbatman, ← hactive]

theorem inPlace_of_retimed (h : ¬ m.RefusesTrickle config)
    (hbatman : (m.retimed config).core.batman = m.router.core.batman)
    (hactive : config.trickle.isSome = true → m.router.runtimeConfigActive = true) :
    m.TrickleInPlace config := by
  intro t ht
  have hidx : t.ifaceIdx < e.maxInterfaces := by
    have hcheck : ¬ m.router.ifaceCount ≤ t.ifaceIdx := fun hcheck => h ⟨t, ht, .inr hcheck⟩
    exact Nat.lt_of_lt_of_le (Nat.lt_of_not_le hcheck) m.router.registered
  unfold retimed at hbatman
  rw [ht] at hbatman hactive
  have htimers := congrArg BatmanEngine.ogmTimers hbatman
  dsimp only at htimers
  unfold BatmanEngine.configureInterfaceOgm at htimers
  rw [dif_pos hidx] at htimers
  exact ⟨hactive rfl, (backfillSet_eq_self (h := hidx)).mp htimers⟩

theorem retimed_active (t : TrickleConfigData) (ht : config.trickle = some t) :
    (m.retimed config).runtimeConfigActive = true := by
  unfold retimed
  rw [ht]

@[simp] theorem applyPosture_batman (r : ManagedRouter e a) :
    (applyPosture config r).core.batman = r.core.batman := by
  unfold applyPosture
  cases config.requireAuth <;> cases config.lazyCertDistribution <;> rfl

theorem applyPosture_active (config : RuntimeConfigData) (r : ManagedRouter e a) :
    (applyPosture config r).runtimeConfigActive = (r.runtimeConfigActive ||
      (config.requireAuth.isSome || config.lazyCertDistribution.isSome)) := by
  unfold applyPosture
  cases config.requireAuth <;> cases config.lazyCertDistribution <;>
    simp [ManagedRouter.applyRuntimeRequireAuth, ManagedRouter.applyRuntimeLazyCertDistribution]

theorem applyPosture_requireAuth (config : RuntimeConfigData) (r : ManagedRouter e a) :
    (applyPosture config r).core.requireAuth = config.requireAuth.getD r.core.requireAuth := by
  unfold applyPosture
  cases config.requireAuth <;> cases config.lazyCertDistribution <;> rfl

theorem applyPosture_lazyCertDistribution (config : RuntimeConfigData)
    (r : ManagedRouter e a) :
    (applyPosture config r).core.lazyCertDistribution =
      config.lazyCertDistribution.getD r.core.lazyCertDistribution := by
  unfold applyPosture
  cases config.requireAuth <;> cases config.lazyCertDistribution <;> rfl

theorem applyPosture_of_inPlace {r : ManagedRouter e a} (h : FlagsInPlace r config) :
    applyPosture config r = r := by
  have hrequire : config.requireAuth.elim r r.applyRuntimeRequireAuth = r := by
    cases hv : config.requireAuth with
    | none => rfl
    | some v =>
      obtain ⟨hflag, hactive⟩ := h.requireAuth v hv
      show r.applyRuntimeRequireAuth v = r
      unfold ManagedRouter.applyRuntimeRequireAuth
      rw [← hflag, ← hactive]
  unfold applyPosture
  dsimp only
  rw [hrequire]
  cases hv : config.lazyCertDistribution with
  | none => rfl
  | some v =>
    obtain ⟨hflag, hactive⟩ := h.lazyCertDistribution v hv
    show r.applyRuntimeLazyCertDistribution v = r
    unfold ManagedRouter.applyRuntimeLazyCertDistribution
    rw [← hflag, ← hactive]

theorem applyPosture_retimed (h : ¬ m.RefusesTrickle config) :
    applyPosture config (m.retimed config) = m.router ↔
      m.TrickleInPlace config ∧ FlagsInPlace m.router config := by
  constructor
  · intro heq
    have hbatman : (m.retimed config).core.batman = m.router.core.batman := by
      rw [← heq, applyPosture_batman]
    have hactive := applyPosture_active config (m.retimed config)
    have hrequire := applyPosture_requireAuth config (m.retimed config)
    have hlazy := applyPosture_lazyCertDistribution config (m.retimed config)
    rw [heq] at hactive hrequire hlazy
    refine ⟨inPlace_of_retimed h hbatman ?_, ?_, ?_⟩
    · intro hsome
      obtain ⟨t, ht⟩ := Option.isSome_iff_exists.mp hsome
      rw [hactive, retimed_active t ht, Bool.true_or]
    · intro v hv
      rw [hv] at hrequire hactive
      exact ⟨hrequire, by simpa using hactive⟩
    · intro v hv
      rw [hv] at hlazy hactive
      exact ⟨hlazy, by simpa using hactive⟩
  · intro ⟨htrickle, hflags⟩
    rw [retimed_of_inPlace htrickle, applyPosture_of_inPlace hflags]

theorem retimed_ifaceCount : (m.retimed config).ifaceCount = m.router.ifaceCount := by
  unfold retimed
  split <;> rfl

theorem applyPosture_ifaceCount (r : ManagedRouter e a) :
    (applyPosture config r).ifaceCount = r.ifaceCount := by
  unfold applyPosture
  cases config.requireAuth <;> cases config.lazyCertDistribution <;> rfl

theorem refusesLast_after {settings : Option σ} :
    RefusesLast { m with router := applyPosture config (m.retimed config), settings } config ↔
      m.RefusesLast config := by
  unfold RefusesLast
  dsimp only
  rw [applyPosture_ifaceCount, retimed_ifaceCount]

theorem merged_iff {settings : Option σ}
    (h : settings.map store.settings = m.settings.map (fun s => (store.settings s).merge
      ⟨⟨none, none⟩, config.requireAuth, config.lazyCertDistribution⟩)) :
    settings.map store.settings = m.settings.map store.settings ↔
      ∀ s, m.settings = some s → (store.settings s).merge
        ⟨⟨none, none⟩, config.requireAuth, config.lazyCertDistribution⟩ = store.settings s := by
  rw [h]
  cases m.settings with
  | none => simp
  | some s => simp

/-- A configuration that fails changes nothing exactly if the parts in front of the one
refused were in place. -/
theorem setConfig_clean_iff (store : SettingsStore σ) (m : ManagementAdapter e a σ)
    (config : RuntimeConfigData) :
    (∀ err m', setConfig store config m = .error err m' → m.Same store m') ↔
      m.InPlaceBefore store config := by
  unfold InPlaceBefore
  obtain ⟨htrickle, err, herr⟩ | ⟨htrickle, hrecord, err, s, s', hs, hkept, herr⟩ |
    ⟨htrickle, hrecord, settings, hmerged, hend⟩ := setConfig_cases m store config
  · refine iff_of_true ?_ (.inl htrickle)
    intro err' m' herr'
    rw [herr] at herr'
    obtain ⟨rfl, rfl⟩ := EStateM.Result.error.inj herr'
    exact ⟨rfl, rfl, rfl, rfl, rfl⟩
  · rw [or_iff_right htrickle]
    constructor
    · intro hclean
      have hrouter : m.retimed config = m.router := (hclean _ _ herr).router
      refine ⟨fun _ => inPlace_of_retimed htrickle (by rw [hrouter]) ?_,
        fun hnot => absurd hrecord hnot⟩
      intro hsome
      obtain ⟨t, ht⟩ := Option.isSome_iff_exists.mp hsome
      rw [← hrouter, retimed_active t ht]
    · intro ⟨hplace, _⟩ err' m' herr'
      rw [herr] at herr'
      obtain ⟨rfl, rfl⟩ := EStateM.Result.error.inj herr'
      refine ⟨retimed_of_inPlace (hplace hrecord), rfl, rfl, rfl, ?_⟩
      rw [hs]
      exact congrArg some hkept
  · rw [or_iff_right htrickle]
    by_cases hlast : m.RefusesLast config
    · obtain ⟨err, herr⟩ := last_refused (refusesLast_after.mpr hlast)
      rw [← hend] at herr
      constructor
      · intro hclean
        have hsame := hclean _ _ herr
        refine ⟨fun hnot => absurd hnot hrecord, fun _ _ => ?_⟩
        obtain ⟨hplace, hflags⟩ := (applyPosture_retimed htrickle).mp hsame.router
        exact ⟨hplace, hflags, (merged_iff hmerged).mp hsame.settings⟩
      · intro ⟨_, hplace⟩ err' m' herr'
        rw [herr] at herr'
        obtain ⟨rfl, rfl⟩ := EStateM.Result.error.inj herr'
        obtain ⟨htimer, hposture⟩ := hplace hrecord hlast
        exact ⟨(applyPosture_retimed htrickle).mpr ⟨htimer, hposture.flags⟩, rfl, rfl, rfl,
          (merged_iff hmerged).mpr hposture.recorded⟩
    · obtain ⟨m', hok⟩ := last_taken (mt refusesLast_after.mp hlast)
      rw [← hend] at hok
      refine iff_of_true ?_ ⟨fun hnot => absurd hnot hrecord, fun _ hnot => absurd hnot hlast⟩
      intro err m'' herr
      rw [hok] at herr
      cases herr

end Parts

/-! ### An install -/

section Install
variable {m m' : ManagementAdapter e a σ} {store : SettingsStore σ} {k : Crypto}
  {seed cert trustAnchor : Bytes} {provider : Option RenewalProviderData} {installerUnix : Nat}

/-- What an install puts in place once its checks have passed and its record is written. -/
def installed (k : Crypto) (m : ManagementAdapter e a σ)
    (examined : Octets 32 × MembershipCert × TrustAnchor × VerifiedCert)
    (provider : Option RenewalProviderData) (installerUnix : Nat) : ManagementAdapter e a σ :=
  let auth := OgmAuth.withCapacities a ⟨examined.1⟩ examined.2.1 examined.2.2.1
  let auth := auth.setRenewalAuthority k (provider.map fun p => p.target.nodeKey)
  { m with
    router := { m.router with core := m.router.core.setAuth auth }
    identitySeed := m.identitySeed.map fun _ => some examined.1
    renewalProvider := m.renewalProvider.map fun _ => provider
    wallClock := m.wallClock.map fun clock =>
      clock.installAnchor installerUnix examined.2.2.2 m.now }

theorem setAuth_eq (m : ManagementAdapter e a σ) :
    setAuth k store seed cert trustAnchor provider installerUnix m =
      match (m.installView store).examine k seed cert trustAnchor provider with
      | .error err => .error err m
      | .ok examined =>
        match persistSettings store
          ⟨⟨some ⟨examined.1.toList, cert, trustAnchor, provider⟩, some []⟩, none, none⟩ m with
        | .error err m => .error err m
        | .ok () m => .ok () (m.installed k examined provider installerUnix) := by
  have hget : (get : EStateM String (ManagementAdapter e a σ) _) m = .ok m m := rfl
  unfold setAuth
  rw [bind_of_ok hget]
  cases (m.installView store).examine k seed cert trustAnchor provider with
  | error err => rfl
  | ok examined =>
    show ((persistSettings store _ >>= fun _ => modify _) : EStateM String _ Unit) m = _
    dsimp only
    cases hpersist : persistSettings store
      ⟨⟨some ⟨examined.1.toList, cert, trustAnchor, provider⟩, some []⟩, none, none⟩ m with
    | error err m' => exact bind_of_error hpersist
    | ok _ m' => exact bind_of_ok hpersist

theorem persistSettings_error {update : SettingsRecord} {err : String}
    (h : persistSettings store update m = .error err m') : m.Same store m' := by
  unfold persistSettings at h
  split at h
  · cases h
  · rename_i s hs
    split at h
    · cases h
    · rename_i err' s' hrefused
      obtain ⟨rfl, rfl⟩ := EStateM.Result.error.inj h
      refine ⟨rfl, rfl, rfl, rfl, ?_⟩
      have hkept := store.refused s update err' (congrArg Prod.fst hrefused)
      rw [hrefused] at hkept
      rw [hs]
      exact congrArg some hkept

theorem persistSettings_ok {update : SettingsRecord}
    (h : persistSettings store update m = .ok () m') :
    ∃ settings, m' = { m with settings } := by
  unfold persistSettings at h
  split at h
  · obtain ⟨-, rfl⟩ := EStateM.Result.ok.inj h
    exact ⟨_, rfl⟩
  · split at h
    · obtain ⟨-, rfl⟩ := EStateM.Result.ok.inj h
      exact ⟨_, rfl⟩
    · cases h

theorem setAuth_clean {err : String}
    (h : setAuth k store seed cert trustAnchor provider installerUnix m = .error err m') :
    m.Same store m' := by
  rw [setAuth_eq] at h
  split at h
  · obtain ⟨rfl, rfl⟩ := EStateM.Result.error.inj h
    exact ⟨rfl, rfl, rfl, rfl, rfl⟩
  · split at h
    · rename_i hpersist
      obtain ⟨rfl, rfl⟩ := EStateM.Result.error.inj h
      exact persistSettings_error hpersist
    · cases h

theorem setAuth_ok
    (h : setAuth k store seed cert trustAnchor provider installerUnix m = .ok () m') :
    ∃ examined settings,
      (m.installView store).examine k seed cert trustAnchor provider = .ok examined ∧
        m' = installed k { m with settings } examined provider installerUnix := by
  rw [setAuth_eq] at h
  split at h
  · cases h
  · rename_i examined hexamine
    split at h
    · cases h
    · rename_i hpersist
      obtain ⟨settings, rfl⟩ := persistSettings_ok hpersist
      exact ⟨examined, settings, hexamine, (EStateM.Result.ok.inj h).2.symm⟩

theorem installView_persist (store : SettingsStore σ) (m : ManagementAdapter e a σ)
    (update : NodeSettings) :
    (m.installView store).persistSettings update =
      match persistSettings store ⟨update, none, none⟩ m with
      | .ok _ _ => .ok ()
      | .error err _ => .error err := by
  unfold RouterAdapter.persistSettings installView persistSettings
  dsimp only
  cases m.settings with
  | none => rfl
  | some s =>
    dsimp only [Option.map_some]
    cases hpersist : store.persist s ⟨update, none, none⟩ with
    | mk answer s' => cases answer <;> rfl

/-- With the state it leaves forgotten, an install is the one of the adapter it is checked by. -/
theorem setAuth_agrees (k : Crypto) (store : SettingsStore σ) (m : ManagementAdapter e a σ)
    (seed cert trustAnchor : Bytes) (provider : Option RenewalProviderData)
    (installerUnix : Nat) :
    match (m.installView store).setAuth k seed cert trustAnchor provider installerUnix with
    | .ok adapter => ∃ m', setAuth k store seed cert trustAnchor provider installerUnix m =
        .ok () m' ∧ m'.router.core = adapter.router ∧ m'.identitySeed = adapter.identitySeed ∧
          m'.renewalProvider = adapter.renewalProvider ∧ m'.wallClock = adapter.wallClock
    | .error err => ∃ m', setAuth k store seed cert trustAnchor provider installerUnix m =
        .error err m' := by
  rw [setAuth_eq]
  cases hexamine : (m.installView store).examine k seed cert trustAnchor provider with
  | error err =>
    have hset : (m.installView store).setAuth k seed cert trustAnchor provider installerUnix =
        .error err := by
      unfold RouterAdapter.setAuth
      rw [hexamine]
      rfl
    rw [hset]
    exact ⟨m, rfl⟩
  | ok examined =>
    dsimp only
    have hview := m.installView_persist store
      ⟨some ⟨examined.1.toList, cert, trustAnchor, provider⟩, some []⟩
    cases hpersist : persistSettings store
      ⟨⟨some ⟨examined.1.toList, cert, trustAnchor, provider⟩, some []⟩, none, none⟩ m with
    | error err m' =>
      rw [hpersist] at hview
      have hset : (m.installView store).setAuth k seed cert trustAnchor provider installerUnix =
          .error err := by
        unfold RouterAdapter.setAuth
        rw [hexamine]
        show ((m.installView store).persistSettings _ >>= _) = _
        rw [hview]
        rfl
      rw [hset]
      exact ⟨m', rfl⟩
    | ok _ m' =>
      rw [hpersist] at hview
      obtain ⟨settings, rfl⟩ := persistSettings_ok hpersist
      split
      · rename_i adapter hset
        unfold RouterAdapter.setAuth at hset
        rw [hexamine] at hset
        obtain ⟨_, -, hset⟩ := exists_of_bind_ok (x :=
          (m.installView store).persistSettings _) hset
        obtain rfl := Except.ok.inj hset
        exact ⟨_, rfl, rfl, rfl, rfl, rfl⟩
      · rename_i err hset
        unfold RouterAdapter.setAuth at hset
        rw [hexamine] at hset
        replace hset : ((m.installView store).persistSettings _ >>= _) = _ := hset
        rw [hview] at hset
        cases hset

end Install

/-- The condition under which a write is all or nothing. -/
def Whole (store : SettingsStore σ) (m : ManagementAdapter e a σ) : ManagementWrite → Prop
  | .setAuth .. => True
  | .setConfig config => m.InPlaceBefore store config

/-- A write that is refused leaves everything as it was exactly if it is an install, or a
configuration whose parts in front of the one refused were in place. -/
theorem write_allOrNothing_iff (k : Crypto) (store : SettingsStore σ)
    (m : ManagementAdapter e a σ) (w : ManagementWrite) :
    m.AllOrNothing k store w ↔ m.Whole store w := by
  cases w with
  | setAuth seed cert trustAnchor provider installerUnix =>
    refine iff_of_true ?_ trivial
    intro err m' h
    exact setAuth_clean h
  | setConfig config => exact setConfig_clean_iff store m config

end ManagementAdapter

namespace SmallMesh

open BatmanEngine (smallCapacities)

/-- A store that is a record in memory, and refuses when it is full. -/
def memoryStore : SettingsStore (SettingsRecord × Bool) where
  settings := Prod.fst
  persist := fun s update =>
    if s.2 then (.error "no space left on device", s) else (.ok (), (s.1.merge update, s.2))
  refused := by
    intro ⟨recorded, full⟩ update err h
    cases full with
    | false => cases h
    | true => rfl
  recorded := by
    intro ⟨recorded, full⟩ update _ h
    cases full with
    | false => rfl
    | true => cases h

def managed (full : Bool) :
    ManagementAdapter smallCapacities capacities (SettingsRecord × Bool) where
  router :=
    { core := { CentralRouter.withCapacities smallCapacities capacities mac4 with
        requireAuth := true }
      emissions := [.default, .default]
      ifaceCount := 1
      runtimeConfigActive := false
      registered := BatmanEngine.one_le_maxInterfaces }
  epochUnix := 0
  now := 0
  clockTrusted := true
  wallClock := none
  identitySeed := none
  renewalProvider := none
  settings := some (⟨⟨none, none⟩, some true, none⟩, full)

/-- The gate is to be taken down, and a link silenced that the node does not have. -/
def openAndSilence : RuntimeConfigData where
  trickle := none
  lazyCertDistribution := none
  linkFeatures := some ⟨7, some false, none, none, none, none⟩
  requireAuth := some false
  enrollment := none

/-- Link 0 is to be paced anew, and the gate taken down. -/
def paceAndOpen : RuntimeConfigData where
  trickle := some ⟨0, 1000, 60000⟩
  lazyCertDistribution := none
  linkFeatures := none
  requireAuth := some false
  enrollment := none

/-- The request is refused, and the gate is down, now and after a restart. With a store that
refuses, the node keeps its gate and has its link paced anew. -/
theorem refused_config_applies :
    ¬ (managed false).AllOrNothing crypto memoryStore (.setConfig openAndSilence) ∧
      ¬ (managed true).AllOrNothing crypto memoryStore (.setConfig paceAndOpen) := by
  constructor
  · intro h
    have hsame := h "interface index out of range" _ rfl
    have hgate := congrArg (fun r => r.core.requireAuth) hsame.router
    exact absurd hgate (by decide)
  · intro h
    have hsame := h "no space left on device" _ rfl
    have hactive := congrArg ManagedRouter.runtimeConfigActive hsame.router
    exact absurd hactive (by decide)

end SmallMesh

end Wayfinder

import Wayfinder.Lib.Fallible
import Wayfinder.RouterRun

/-!
# Installing a credential

The management API's way to a membership: an operator, or the node's own renewal, hands
in a certificate and the anchor it chains to, and the node that accepts them begins a new
auth state. What the old state had learned about other nodes ends with it, the
revocations it held included, though the anchor that signed them has not changed.
-/

namespace Wayfinder

set_option autoImplicit false

open Table Fallible

def AuthError.toText : AuthError → String
  | .badVersion => "unsupported record version"
  | .wrongMesh => "wrong mesh"
  | .badSignature => "bad signature"
  | .expired => "certificate expired"
  | .notYetValid => "certificate not yet valid"
  | .reservedAddress => "certificate binds a reserved address"
  | .macKeyMismatch => "certificate MAC is not derived from its identity key"
  | .noRevocationInstant => "revocation carries no instant"
  | .nonContributoryKey => "x25519 key is a low-order point"

/-! ### The clock of a node without one -/

def minPlausibleUnix : Nat := 1735689600

/-- The unix second believed true at a monotonic instant, and that instant. -/
structure WallClock where
  anchor : Option (Nat × Duration)

namespace WallClock

def estimate (c : WallClock) (now : Duration) : Option Nat :=
  c.anchor.map fun p => min (p.1 + (now - p.2) / 1000000000) (2 ^ 64 - 1)

def posture (c : WallClock) (now : Duration) : Clocked :=
  match c.estimate now with
  | some secs => .atLeast secs
  | none => .unknown

def anchorAt (c : WallClock) (unix : Nat) (now : Duration) : WallClock :=
  if unix < minPlausibleUnix then c
  else if (c.estimate now).any fun current => unix ≤ current then c
  else ⟨some (unix, now)⟩

def installAnchor (c : WallClock) (installerUnix : Nat) (cert : VerifiedCert) (now : Duration) :
    WallClock :=
  c.anchorAt (max installerUnix cert.notBefore) now

end WallClock

/-! ### Requests -/

structure RenewalTargetData where
  address : String
  nodeKey : Octets 32
  deriving DecidableEq

structure RenewalProviderData where
  target : RenewalTargetData
  enrollmentToken : String
  deriving DecidableEq

structure NodeIdentity where
  seed : Bytes
  cert : Bytes
  trustAnchor : Bytes
  provider : Option RenewalProviderData

structure NodeSettings where
  identity : Option NodeIdentity
  selfRevocation : Option Bytes

/-- The two sides of the last colon. -/
def rsplitOnceColon (s : List Char) : Option (List Char × List Char) :=
  let port := (s.reverse.takeWhile (· ≠ ':')).reverse
  if s.contains ':' then some (s.take (s.length - port.length - 1), port) else none

/-- A port as the standard library parses a 16-bit number: a plus sign is allowed. -/
def parsePort (s : List Char) : Option Nat :=
  let digits := if s.head? = some '+' then s.tail else s
  if digits.isEmpty || !digits.all Char.isDigit then none
  else
    let n := digits.foldl (fun n d => n * 10 + (d.toNat - '0'.toNat)) 0
    if n < 65536 then some n else none

def validateProviderAddress (address : String) : Except String Unit :=
  let quoted := "the renewal provider's address must be host:port, but '"
  if address.isEmpty then .ok ()
  else
    match rsplitOnceColon address.toList with
    | none => .error (quoted ++ address ++ "' names no port")
    | some (host, port) =>
      if host.isEmpty then .error (quoted ++ address ++ "' names no host")
      else if host.contains ':' && !(host.head? = some '[' && host.getLast? = some ']') then
        .error ("the renewal provider's address '" ++ address ++
          "' is ambiguous; bracket an IPv6 literal as [addr]:port")
      else
        match parsePort port with
        | none | some 0 => .error (quoted ++ String.ofList port ++ "' is not a port number")
        | some _ => .ok ()

def TrustAnchor.fromBytes (bytes : Bytes) : Option TrustAnchor :=
  match bytes with
  | i0 :: i1 :: i2 :: i3 :: rest =>
    (Octets.readFromPrefix rest).map fun p => ⟨Be32.get ⟨i0, i1, i2, i3⟩, p.1⟩
  | _ => none

def TrustAnchor.toBytes (anchor : TrustAnchor) : Bytes :=
  (Be32.ofU32 anchor.meshId).asBytes ++ anchor.rootPubkey.toList

/-! ### The adapter -/

/-- The router as the management API sees it for one request, with the slots of the
driver it may write: the seed, the renewal provider, the clock and the settings. -/
structure RouterAdapter (e : Capacities) (a : AuthCapacities) where
  router : CentralRouter e a
  epochUnix : Duration
  now : Duration
  clockTrusted : Bool
  wallClock : Option WallClock
  identitySeed : Option (Option (Octets 32))
  renewalProvider : Option (Option RenewalProviderData)
  settings : Option (NodeSettings → Except String Unit)

namespace RouterAdapter

variable {e : Capacities} {a : AuthCapacities}

def wall (adapter : RouterAdapter e a) : Clocked :=
  match adapter.wallClock with
  | some clock => clock.posture adapter.now
  | none =>
    if adapter.epochUnix = 0 || !adapter.clockTrusted then .unknown
    else .at ((adapter.epochUnix + adapter.now) / 1000000000)

def currentIdentitySeed (adapter : RouterAdapter e a) : Option (Octets 32) :=
  adapter.identitySeed.join

def persistSettings (adapter : RouterAdapter e a) (update : NodeSettings) : Except String Unit :=
  match adapter.settings with
  | some persist => persist update
  | none => .ok ()

/-- The seed the request certifies: its own, or the one the node already has. -/
def seedFor (adapter : RouterAdapter e a) (seed : Bytes) : Except String (Octets 32) :=
  if seed.isEmpty then
    match adapter.currentIdentitySeed with
    | some seed => .ok seed
    | none => .error
        "this node has no identity to certify; send the seed alongside the certificate"
  else
    match Octets.tryFrom seed with
    | some seed => .ok seed
    | none => .error "seed must be exactly 32 bytes"

def validateProvider : Option RenewalProviderData → Except String Unit
  | some p => validateProviderAddress p.target.address
  | none => .ok ()

/-- The certificate must name the key installed, the address an identity already has, and
survive the revocation the node is under. -/
def checkIdentity (k : Crypto) (adapter : RouterAdapter e a) (certifyingExisting : Bool)
    (keypair : Keypair) (cert : MembershipCert) : Except String Unit :=
  if cert.edPubkey ≠ k.edPubkey keypair then
    .error "certificate key does not match the identity being installed"
  else if certifyingExisting && cert.nodeMac ≠ adapter.router.batman.selfIdent then
    .error ("certificate MAC does not match the MAC this node runs under: a" ++
      "                  certificate's MAC is the address its identity key derives, and this" ++
      "                  node is still running under an address it persisted before it had an" ++
      "                  identity. Restart it on a build that derives its MAC from its seed," ++
      "                  so it comes up under the certified address, then install this again.")
  else if adapter.router.selfRevocationCancels cert then
    .error ("this node has been revoked from the mesh, and this certificate predates the " ++
      "revocation; it must be re-issued by the authority before this node can rejoin")
  else .ok ()

/-- Every check of an install, up to what it would put in place. -/
def examine (k : Crypto) (adapter : RouterAdapter e a) (seed cert trustAnchor : Bytes)
    (provider : Option RenewalProviderData) :
    Except String (Octets 32 × MembershipCert × TrustAnchor × VerifiedCert) := do
  validateProvider provider
  let identity ← adapter.seedFor seed
  let parsed ←
    (MembershipCert.readFromPrefix cert).elim (.error "unable to parse membership cert") .ok
  let anchor ←
    (TrustAnchor.fromBytes trustAnchor).elim (.error "unable to parse trust anchor") .ok
  let verified ← (anchor.verifyCert k parsed.1 adapter.wall).mapError AuthError.toText
  adapter.checkIdentity k seed.isEmpty ⟨identity⟩ parsed.1
  pure (identity, parsed.1, anchor, verified)

def setAuth (k : Crypto) (adapter : RouterAdapter e a) (seed cert trustAnchor : Bytes)
    (provider : Option RenewalProviderData) (installerUnix : Nat) :
    Except String (RouterAdapter e a) := do
  let examined ← adapter.examine k seed cert trustAnchor provider
  let (identity, parsedCert, anchor, verified) := examined
  adapter.persistSettings ⟨some ⟨identity.toList, cert, trustAnchor, provider⟩, some []⟩
  let auth := OgmAuth.withCapacities a ⟨identity⟩ parsedCert anchor
  let auth := auth.setRenewalAuthority k (provider.map fun p => p.target.nodeKey)
  pure { adapter with
    router := adapter.router.setAuth auth
    identitySeed := adapter.identitySeed.map fun _ => some identity
    renewalProvider := adapter.renewalProvider.map fun _ => provider
    wallClock := adapter.wallClock.map fun clock =>
      clock.installAnchor installerUnix verified adapter.now }

end RouterAdapter

/-! ### The driver's own renewal -/

structure SharedRouter (e : Capacities) (a : AuthCapacities) where
  router : CentralRouter e a
  identitySeed : Option (Octets 32)
  renewalProvider : Option RenewalProviderData

/-- A re-issued certificate, its anchor, and where both came from. -/
structure Renewed where
  cert : Bytes
  trustAnchor : Bytes
  provider : RenewalProviderData

/-- What the driver knows of its host when a renewal lands: its reading of the clock,
whether that is trusted, and where its settings go. -/
structure DriverHost where
  unix : Nat
  clockTrusted : Bool
  settings : Option (NodeSettings → Except String Unit)

namespace SharedRouter

variable {e : Capacities} {a : AuthCapacities}

def credentialUnix (host : DriverHost) : Nat := if host.clockTrusted then host.unix else 0

def epochOffset (host : DriverHost) (now : Duration) : Duration :=
  if !host.clockTrusted then 0 else Duration.ofSecs (credentialUnix host) - now

def adapter (shared : SharedRouter e a) (host : DriverHost) (now : Duration) :
    RouterAdapter e a where
  router := shared.router
  epochUnix := epochOffset host now
  now := now
  clockTrusted := host.clockTrusted
  wallClock := none
  identitySeed := some shared.identitySeed
  renewalProvider := some shared.renewalProvider
  settings := host.settings

/-- The state after a renewal has come back, and whether its certificate was installed. -/
def applyFinishedRenewal (k : Crypto) (shared : SharedRouter e a) (host : DriverHost)
    (now : Duration) (outcome : Except String Renewed) : SharedRouter e a × Bool :=
  match outcome with
  | .error _ => (shared, false)
  | .ok renewed =>
    -- The node may have been moved to another authority in the meantime.
    if shared.renewalProvider ≠ some renewed.provider then (shared, false)
    else
      match (shared.adapter host now).setAuth k [] renewed.cert renewed.trustAnchor
          (some renewed.provider) (credentialUnix host) with
      | .ok adapter =>
        (⟨adapter.router, adapter.currentIdentitySeed, adapter.renewalProvider.join⟩, true)
      | .error _ => (shared, false)

end SharedRouter

/-! ### What an install does -/

section Install
variable {e : Capacities} {a : AuthCapacities} {k : Crypto}

/-- The two ways a membership is put in place, under the anchor the request carries. -/
inductive Installs (k : Crypto) (trustAnchor : Bytes) :
    CentralRouter e a → CentralRouter e a → Prop where
  | operator {adapter adapter' : RouterAdapter e a} {seed cert : Bytes}
      {provider : Option RenewalProviderData} {installerUnix : Nat}
      (h : adapter.setAuth k seed cert trustAnchor provider installerUnix = .ok adapter') :
      Installs k trustAnchor adapter.router adapter'.router
  | renewal {shared shared' : SharedRouter e a} {host : DriverHost} {now : Duration}
      {cert : Bytes} {provider : RenewalProviderData}
      (h : shared.applyFinishedRenewal k host now (.ok ⟨cert, trustAnchor, provider⟩) =
        (shared', true)) : Installs k trustAnchor shared.router shared'.router

theorem RouterAdapter.examine_anchor {adapter : RouterAdapter e a} {seed cert trustAnchor : Bytes}
    {provider : Option RenewalProviderData}
    {examined : Octets 32 × MembershipCert × TrustAnchor × VerifiedCert}
    (h : adapter.examine k seed cert trustAnchor provider = .ok examined) :
    TrustAnchor.fromBytes trustAnchor = some examined.2.2.1 := by
  unfold RouterAdapter.examine at h
  obtain ⟨_, _, h⟩ := exists_of_bind_ok h
  obtain ⟨identity, _, h⟩ := exists_of_bind_ok h
  obtain ⟨parsed, _, h⟩ := exists_of_bind_ok h
  obtain ⟨anchor, hanchor, h⟩ := exists_of_bind_ok h
  obtain ⟨verified, _, h⟩ := exists_of_bind_ok h
  obtain ⟨_, _, h⟩ := exists_of_bind_ok h
  obtain rfl := Except.ok.inj h
  cases hread : TrustAnchor.fromBytes trustAnchor with
  | none =>
    rw [hread] at hanchor
    cases hanchor
  | some read =>
    rw [hread] at hanchor
    exact congrArg some (Except.ok.inj hanchor)

/-- An install replaces the auth state by one that has learned nothing yet. -/
theorem RouterAdapter.setAuth_router {adapter adapter' : RouterAdapter e a}
    {seed cert trustAnchor : Bytes} {provider : Option RenewalProviderData} {installerUnix : Nat}
    (h : adapter.setAuth k seed cert trustAnchor provider installerUnix = .ok adapter') :
    ∃ auth, adapter'.router = adapter.router.setAuth auth ∧
      TrustAnchor.fromBytes trustAnchor = some auth.anchor ∧ auth.revocations = .empty := by
  unfold RouterAdapter.setAuth at h
  obtain ⟨examined, hexamine, h⟩ := exists_of_bind_ok h
  obtain ⟨_, _, h⟩ := exists_of_bind_ok h
  obtain rfl := Except.ok.inj h
  exact ⟨_, rfl, RouterAdapter.examine_anchor hexamine, rfl⟩

theorem Installs.fresh {trustAnchor : Bytes} {r r' : CentralRouter e a}
    (h : Installs k trustAnchor r r') : ∃ auth, r'.auth = some auth ∧
      TrustAnchor.fromBytes trustAnchor = some auth.anchor ∧ auth.revocations = .empty := by
  cases h with
  | operator h =>
    obtain ⟨auth, hrouter, hfresh⟩ := RouterAdapter.setAuth_router h
    rw [hrouter]
    exact ⟨auth, rfl, hfresh⟩
  | @renewal shared shared' host now cert provider h =>
    unfold SharedRouter.applyFinishedRenewal at h
    dsimp only at h
    split at h
    · cases h
    split at h
    · rename_i adapter hset
      obtain ⟨auth, hrouter, hfresh⟩ := RouterAdapter.setAuth_router hset
      obtain rfl := (Prod.mk.inj h).1
      refine ⟨auth, ?_, hfresh⟩
      dsimp only
      rw [hrouter]
      rfl
    · cases h

end Install

namespace OgmAuth

variable {c : AuthCapacities}

def Enforces (s : OgmAuth c) (slot : KnownRevocation) : Prop :=
  slot ∈ s.revocations.toList ∧ slot.record.nodeMac ≠ s.cert.nodeMac ∧
    slot.record.inForce s.wall = true

/-- What one state enforces the next still holds, and a certificate the one refuses for it
the next refuses as long as the record is in force. -/
structure RevocationsSurvive (s s' : OgmAuth c) : Prop where
  held : ∀ slot, s.Enforces slot → ∃ slot' ∈ s'.revocations.toList, slot'.record = slot.record
  refused : ∀ slot, s.Enforces slot → ∀ cert, slot.record.cancelsUnder cert s.wall = true →
    ∀ now wall, s.wall.unixOrZero ≤ wall.unixOrZero → slot.record.inForce wall = true →
      (s'.setTime now wall).isRevoked cert = true

end OgmAuth

/-- A credential installed under the anchor the node already has keeps what it enforces
against others exactly when it enforces nothing. -/
theorem revocations_survive_iff {e : Capacities} {a : AuthCapacities} (k : Crypto)
    (trustAnchor : Bytes) (r r' : CentralRouter e a) (h : Installs k trustAnchor r r') :
    ∀ auth, r.auth = some auth → TrustAnchor.fromBytes trustAnchor = some auth.anchor →
      ∃ auth', r'.auth = some auth' ∧ auth'.anchor = auth.anchor ∧
        (auth.RevocationsSurvive auth' ↔ ∀ slot, ¬ auth.Enforces slot) := by
  intro auth _ hanchor
  obtain ⟨auth', hauth', hanchor', hempty⟩ := h.fresh
  rw [hanchor] at hanchor'
  refine ⟨auth', hauth', (Option.some.inj hanchor').symm, ?_⟩
  constructor
  · intro hsurvives slot henforced
    obtain ⟨slot', hslot', _⟩ := hsurvives.held slot henforced
    rw [hempty] at hslot'
    cases hslot'
  · intro hnone
    exact ⟨fun slot henforced => absurd henforced (hnone slot),
      fun slot henforced => absurd henforced (hnone slot)⟩

namespace SmallMesh

open BatmanEngine (smallCapacities)

def member4 : CentralRouter smallCapacities capacities :=
  Run.run (CentralRouter.step crypto34) (.withCapacities _ _ mac4)
    [.setAuth (OgmAuth.withCapacities capacities (keypair 4) cert4 anchor), tick 600]

def enforcing4 : CentralRouter smallCapacities capacities :=
  member4.step crypto34 (.ingestRevocation revoked500 (Duration.ofSecs 600))

def reinstall4 (r : CentralRouter smallCapacities capacities) :
    Except String (RouterAdapter smallCapacities capacities) :=
  RouterAdapter.setAuth crypto34
    ⟨r, Duration.ofSecs 600, 0, true, none, some (some (keypair 4).seed), some none, none⟩
    [] cert4.asBytes anchor.toBytes none 0

theorem reinstall4_ok {r : CentralRouter smallCapacities capacities}
    (h : (reinstall4 r).isOk = true) : ∃ adapter, reinstall4 r = .ok adapter ∧
      Installs crypto34 anchor.toBytes r adapter.router := by
  cases hset : reinstall4 r with
  | error e =>
    rw [hset] at h
    cases h
  | ok adapter => exact ⟨adapter, rfl, .operator hset⟩

theorem revocations_survive_iff_member4 : ∃ adapter auth auth',
    reinstall4 member4 = .ok adapter ∧ member4.auth = some auth ∧
      adapter.router.auth = some auth' ∧ auth.RevocationsSurvive auth' := by
  obtain ⟨adapter, hset, hinstalls⟩ := reinstall4_ok (r := member4) (by decide +kernel)
  obtain ⟨auth, hauth⟩ : ∃ auth, member4.auth = some auth :=
    Option.isSome_iff_exists.mp (by decide +kernel)
  have hanchor : TrustAnchor.fromBytes anchor.toBytes = some auth.anchor := by
    have hanchors : member4.auth.map OgmAuth.anchor = TrustAnchor.fromBytes anchor.toBytes := by
      decide +kernel
    rw [← hanchors, hauth]
    rfl
  have hempty : auth.revocations.toList = [] := by
    have hlists : member4.auth.map (fun auth => auth.revocations.toList) = some [] := by
      decide +kernel
    rw [hauth] at hlists
    exact Option.some.inj hlists
  obtain ⟨auth', hauth', _, hiff⟩ :=
    revocations_survive_iff crypto34 anchor.toBytes member4 adapter.router hinstalls auth hauth
      hanchor
  refine ⟨adapter, auth, auth', hset, hauth, hauth', hiff.mpr ?_⟩
  rintro slot ⟨hslot, _⟩
  rw [hempty] at hslot
  cases hslot

/-- Node 4 refuses node 2's certificate, and after the install, at the same time, it does
not. -/
theorem install_forgets_revocation : ∃ adapter auth auth',
    reinstall4 enforcing4 = .ok adapter ∧ enforcing4.auth = some auth ∧
      adapter.router.auth = some auth' ∧ auth'.anchor = auth.anchor ∧
      auth.isRevoked cert2.facts = true ∧ ¬ auth.RevocationsSurvive auth' ∧
      (auth'.setTime (Duration.ofSecs 600) (.at 600)).isRevoked cert2.facts = false := by
  obtain ⟨adapter, hset, hinstalls⟩ := reinstall4_ok (r := enforcing4) (by decide +kernel)
  obtain ⟨auth, hauth⟩ : ∃ auth, enforcing4.auth = some auth :=
    Option.isSome_iff_exists.mp (by decide +kernel)
  have hfacts : ∀ auth ∈ enforcing4.auth,
      TrustAnchor.fromBytes anchor.toBytes = some auth.anchor ∧
        auth.isRevoked cert2.facts = true ∧
        (⟨revoked500, revokeFloodBudget⟩ : KnownRevocation) ∈ auth.revocations.toList ∧
        revoked500.nodeMac ≠ auth.cert.nodeMac ∧ revoked500.inForce auth.wall = true := by
    decide +kernel
  obtain ⟨hanchor, hrevoked, henforced⟩ := hfacts auth hauth
  obtain ⟨auth', hauth', hanchor', hempty⟩ := hinstalls.fresh
  rw [hanchor] at hanchor'
  refine ⟨adapter, auth, auth', hset, hauth, hauth', (Option.some.inj hanchor').symm, hrevoked,
    ?_, ?_⟩
  · intro hsurvives
    obtain ⟨slot, hslot, _⟩ := hsurvives.held _ henforced
    rw [hempty] at hslot
    cases hslot
  · rw [OgmAuth.isRevoked_eq_false_iff]
    intro slot hslot
    have hheld := ((auth'.setTime_spec (Duration.ofSecs 600) (.at 600)).2.2.2 slot).mp hslot
    rw [hempty] at hheld
    cases hheld.1

end SmallMesh

end Wayfinder

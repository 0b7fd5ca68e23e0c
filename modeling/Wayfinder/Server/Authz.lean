import Wayfinder.Router

/-!
# Who may ask a node for what

A client of the management API proves possession of a key in the handshake and presents a
certificate, or none. What the router holds at that instant decides the tier it earns, and
the table of requests says what each tier may have done.
-/

namespace Wayfinder

set_option autoImplicit false

/-! ### The table of requests -/

inductive RequestFacet where
  | routerRead | routerWrite | authority | transport
  deriving DecidableEq

inductive Audited where
  | mutation | disclosure | query
  deriving DecidableEq

inductive AccessTier where
  | admin | selfKey | viewer | member | enrollment
  deriving DecidableEq

inductive RateLimit where
  | unmetered | submitCsr | login | registration
  deriving DecidableEq

inductive EnrollmentTokenUpdate where
  | enrollmentTokenCleared (cleared : Bool)
  | enrollmentToken (token : String)
  deriving DecidableEq

structure EnrollmentPolicyMessage where
  autoApprove : Option Bool
  certTtlSecs : Option Nat
  enrollmentTokenUpdate : Option EnrollmentTokenUpdate
  deriving DecidableEq

/-- The router's settings are passed on as they came. -/
structure RuntimeConfig where
  settings : Bytes
  enrollment : Option EnrollmentPolicyMessage
  deriving DecidableEq

/-- A request by its kind. A message nobody looks into on the way to its owner is its bytes. -/
inductive ReqKind where
  | getNodeInfo
  | getRoutingTable
  | getLinkQualityTable
  | getLinkFeaturesTable
  | getKeepaliveTable
  | getOgmSchedule
  | getThroughput
  | getMetrics
  | resolveRoute (message : Bytes)
  | getLogs (message : Bytes)
  | getAlarms
  | getSecurityStatus
  | getOwnCert
  | pingStatus (message : Bytes)
  | ping (message : Bytes)
  | cancelPing (message : Bytes)
  | setAuth (message : Bytes)
  | setTime (message : Bytes)
  | setConfig (config : Option RuntimeConfig)
  | setLogLevel (message : Bytes)
  | getTrustAnchor
  | submitCsr (nodeMac edPubkey xPubkey : Bytes) (enrollmentToken : String)
  | revokeNode (nodeMac : Bytes)
  | listCerts
  | listPendingCsrs
  | approveCsr (nodeMac : Bytes) (certTtlSecs : Option Nat)
  | denyCsr (nodeMac : Bytes)
  | revealEnrollmentToken
  | authenticateUser (message : Bytes)
  | listUsers
  | createUser (message : Bytes)
  | removeUser (message : Bytes)
  | setUserRole (message : Bytes)
  | setUserEnabled (message : Bytes)
  | setUserPassword (message : Bytes)
  | revokeUserSessions (message : Bytes)
  | createUserInvite (message : Bytes)
  | listUserInvites
  | revokeUserInvite (message : Bytes)
  | beginUserRegistration (message : Bytes)
  | completeUserRegistration (message : Bytes)
  | authenticate (cert : Bytes)
  | getVpnEnrollment
  | listVpnPeers
  | revokeVpnPeer (nodeMac : Bytes)

/-- An entry of `rpc_table!`. -/
structure Rpc where
  owner : RequestFacet
  audit : Audited
  access : List AccessTier
  limit : RateLimit

namespace ReqKind

def rpc : ReqKind → Rpc
  | getNodeInfo | getRoutingTable | getLinkQualityTable | getLinkFeaturesTable
  | getKeepaliveTable | getOgmSchedule | getThroughput | getMetrics | resolveRoute _
  | getAlarms | getSecurityStatus | pingStatus _ =>
    ⟨.routerRead, .query, [.admin, .selfKey, .viewer], .unmetered⟩
  -- What the process logged, and the node's own certificate: reads no viewer is served.
  | getLogs _ | getOwnCert => ⟨.routerRead, .query, [.admin, .selfKey], .unmetered⟩
  | ping _ | cancelPing _ | setAuth _ | setTime _ | setConfig _ | setLogLevel _ =>
    ⟨.routerWrite, .mutation, [.admin, .selfKey], .unmetered⟩
  | getTrustAnchor => ⟨.authority, .query, [.admin, .selfKey, .viewer, .enrollment], .unmetered⟩
  | submitCsr .. => ⟨.authority, .mutation, [.admin, .selfKey, .enrollment], .submitCsr⟩
  | listCerts | listPendingCsrs => ⟨.authority, .query, [.admin, .selfKey, .viewer], .unmetered⟩
  | revokeNode _ | approveCsr .. | denyCsr _ =>
    ⟨.authority, .mutation, [.admin, .selfKey], .unmetered⟩
  | revealEnrollmentToken => ⟨.authority, .disclosure, [.admin, .selfKey], .unmetered⟩
  | authenticateUser _ => ⟨.authority, .mutation, [.admin, .selfKey, .enrollment], .login⟩
  | listUsers | listUserInvites => ⟨.authority, .query, [.admin, .selfKey], .unmetered⟩
  | createUser _ | removeUser _ | setUserRole _ | setUserEnabled _ | setUserPassword _
  | revokeUserSessions _ | createUserInvite _ | revokeUserInvite _ =>
    ⟨.authority, .mutation, [.admin, .selfKey], .unmetered⟩
  | beginUserRegistration _ | completeUserRegistration _ =>
    ⟨.authority, .mutation, [.admin, .selfKey, .enrollment], .registration⟩
  | authenticate _ | listVpnPeers => ⟨.transport, .query, [.admin, .selfKey], .unmetered⟩
  -- A credential for a device: the one request an admin is refused.
  | getVpnEnrollment => ⟨.transport, .mutation, [.selfKey, .member], .unmetered⟩
  | revokeVpnPeer _ => ⟨.transport, .mutation, [.admin, .selfKey], .unmetered⟩

def name : ReqKind → String
  | getNodeInfo => "GetNodeInfo"
  | getRoutingTable => "GetRoutingTable"
  | getLinkQualityTable => "GetLinkQualityTable"
  | getLinkFeaturesTable => "GetLinkFeaturesTable"
  | getKeepaliveTable => "GetKeepaliveTable"
  | getOgmSchedule => "GetOgmSchedule"
  | getThroughput => "GetThroughput"
  | getMetrics => "GetMetrics"
  | resolveRoute _ => "ResolveRoute"
  | getLogs _ => "GetLogs"
  | getAlarms => "GetAlarms"
  | getSecurityStatus => "GetSecurityStatus"
  | getOwnCert => "GetOwnCert"
  | pingStatus _ => "PingStatus"
  | ping _ => "Ping"
  | cancelPing _ => "CancelPing"
  | setAuth _ => "SetAuth"
  | setTime _ => "SetTime"
  | setConfig _ => "SetConfig"
  | setLogLevel _ => "SetLogLevel"
  | getTrustAnchor => "GetTrustAnchor"
  | submitCsr .. => "SubmitCsr"
  | revokeNode _ => "RevokeNode"
  | listCerts => "ListCerts"
  | listPendingCsrs => "ListPendingCsrs"
  | approveCsr .. => "ApproveCsr"
  | denyCsr _ => "DenyCsr"
  | revealEnrollmentToken => "RevealEnrollmentToken"
  | authenticateUser _ => "AuthenticateUser"
  | listUsers => "ListUsers"
  | createUser _ => "CreateUser"
  | removeUser _ => "RemoveUser"
  | setUserRole _ => "SetUserRole"
  | setUserEnabled _ => "SetUserEnabled"
  | setUserPassword _ => "SetUserPassword"
  | revokeUserSessions _ => "RevokeUserSessions"
  | createUserInvite _ => "CreateUserInvite"
  | listUserInvites => "ListUserInvites"
  | revokeUserInvite _ => "RevokeUserInvite"
  | beginUserRegistration _ => "BeginUserRegistration"
  | completeUserRegistration _ => "CompleteUserRegistration"
  | authenticate _ => "Authenticate"
  | getVpnEnrollment => "GetVpnEnrollment"
  | listVpnPeers => "ListVpnPeers"
  | revokeVpnPeer _ => "RevokeVpnPeer"

variable {request : ReqKind}

theorem mem_access_selfKey (request : ReqKind) : .selfKey ∈ request.rpc.access := by
  cases request <;> simp [rpc]

theorem mem_access_admin : .admin ∈ request.rpc.access ↔ request ≠ getVpnEnrollment := by
  cases request <;> simp [rpc]

theorem mem_access_member : .member ∈ request.rpc.access ↔ request = getVpnEnrollment := by
  cases request <;> simp [rpc]

/-- What only looks on changes nothing and learns no secret. -/
theorem query_of_viewer (h : .viewer ∈ request.rpc.access) : request.rpc.audit = .query := by
  cases request <;> simp_all [rpc]

/-- Whatever a stranger can have changed costs it a token of a bucket. -/
theorem metered_of_enrollment (h : .enrollment ∈ request.rpc.access)
    (haudit : request.rpc.audit ≠ .query) : request.rpc.limit ≠ .unmetered := by
  cases request <;> simp_all [rpc]

/-- A stranger reaches the authority and nobody else. -/
theorem authority_of_enrollment (h : .enrollment ∈ request.rpc.access) :
    request.rpc.owner = .authority := by
  cases request <;> simp_all [rpc]

end ReqKind

/-! ### The decision -/

inductive MgmtDenied where
  | certInvalid (e : AuthError)
  | keyMismatch
  | noCapability
  | revoked
  deriving DecidableEq

inductive MgmtAccess where
  | grantedAdmin
  | grantedViewer
  | grantedMember
  | grantedSelfKey
  | grantedEnrollment
  | denied (reason : MgmtDenied)
  deriving DecidableEq

def authorizeCapability (cert : VerifiedCert) (isRevoked : VerifiedCert → Bool) :
    Except MgmtDenied MgmtAccess :=
  if isRevoked cert then .error .revoked
  else if cert.admin then .ok .grantedAdmin
  else if cert.viewer then .ok .grantedViewer
  else if cert.member && !cert.user then .ok .grantedMember
  else .error .noCapability

def decideAccess (k : Crypto) (handshakeKey : Octets 32) (cert : Option MembershipCert)
    (anchor : Option TrustAnchor) (ownKey : Option (Octets 32)) (now : Clocked)
    (isRevoked : VerifiedCert → Bool) : MgmtAccess :=
  if ownKey = some handshakeKey then .grantedSelfKey
  else match anchor, cert with
    | none, _ => .grantedEnrollment
    | some _, none => .grantedEnrollment
    | some anchor, some cert =>
      match anchor.verifyCert k cert now with
      | .error e => .denied (.certInvalid e)
      | .ok verified =>
        if verified.edPubkey ≠ handshakeKey then .denied .keyMismatch
        else match authorizeCapability verified isRevoked with
          | .ok access => access
          | .error reason => .denied reason

def MgmtAccess.tier : MgmtAccess → Option AccessTier
  | grantedAdmin => some .admin
  | grantedSelfKey => some .selfKey
  | grantedViewer => some .viewer
  | grantedMember => some .member
  | grantedEnrollment => some .enrollment
  | denied _ => none

def permits (access : MgmtAccess) (request : ReqKind) : Bool :=
  access.tier.elim false fun tier => request.rpc.access.contains tier

def RevocationRecord.cancels (r : RevocationRecord) (cert : VerifiedCert) (nowUnix : Nat) : Bool :=
  r.cancelsCertFor cert.mac cert.notBefore nowUnix

/-- The router-owned half of what a connection is judged by. -/
structure AuthSnapshot where
  ownKey : Option (Octets 32)
  anchor : Option TrustAnchor
  revoked : List RevocationRecord
  ownMac : Mac

def buildAuthSnapshot {e : Capacities} {a : AuthCapacities} (k : Crypto)
    (router : CentralRouter e a) (identitySeed : Option (Octets 32)) : AuthSnapshot where
  ownKey := identitySeed.map fun seed => k.edPubkey ⟨seed⟩
  anchor := router.auth.map OgmAuth.anchor
  revoked := router.auth.elim [] fun auth => auth.revocations.toList.map KnownRevocation.record
  ownMac := router.batman.selfIdent

structure AuthContext extends AuthSnapshot where
  nowUnix : Nat

def authorize (k : Crypto) (peerKey : Octets 32) (cert : Option MembershipCert)
    (ctx : AuthContext) : MgmtAccess :=
  decideAccess k peerKey cert ctx.anchor ctx.ownKey (.at ctx.nowUnix) fun cert =>
    ctx.revoked.any fun r => r.cancels cert ctx.nowUnix

/-! ### What a peer is

The same by what holds of the peer at that instant, not by how the node finds it out. -/

/-- A certificate of the node's mesh for this key, in date and not cancelled. -/
structure AuthContext.Vouches (ctx : AuthContext) (k : Crypto) (key : Octets 32)
    (cert : MembershipCert) : Prop where
  issued : ∃ anchor, ctx.anchor = some anchor ∧ anchor.Issued k cert
  inWindow : cert.InWindow (.at ctx.nowUnix)
  own : cert.edPubkey = key
  uncancelled : ∀ r ∈ ctx.revoked, r.cancels cert.facts ctx.nowUnix = false

/-- What a certificate makes its holder: the widest of what its flags say. -/
def VerifiedCert.capacity (cert : VerifiedCert) : Option AccessTier :=
  if cert.admin then some .admin
  else if cert.viewer then some .viewer
  else if cert.member && !cert.user then some .member
  else none

inductive Standing (k : Crypto) (key : Octets 32) (cert : Option MembershipCert)
    (ctx : AuthContext) : AccessTier → Prop where
  | node (hown : ctx.ownKey = some key) : Standing k key cert ctx .selfKey
  | stranger (hown : ctx.ownKey ≠ some key) (h : ctx.anchor = none ∨ cert = none) :
      Standing k key cert ctx .enrollment
  | holder {c : MembershipCert} {tier : AccessTier} (hown : ctx.ownKey ≠ some key)
      (hcert : cert = some c) (h : ctx.Vouches k key c) (htier : c.facts.capacity = some tier) :
      Standing k key cert ctx tier

/-- The request is for a peer of this standing. -/
def Entitled (k : Crypto) (key : Octets 32) (cert : Option MembershipCert) (ctx : AuthContext)
    (request : ReqKind) : Prop :=
  ∃ tier, Standing k key cert ctx tier ∧ tier ∈ request.rpc.access

section Decision
variable {k : Crypto} {key : Octets 32} {cert : Option MembershipCert} {ctx : AuthContext}
  {tier : AccessTier} {request : ReqKind}

theorem permits_iff {access : MgmtAccess} :
    permits access request = true ↔
      ∃ tier, access.tier = some tier ∧ tier ∈ request.rpc.access := by
  unfold permits
  cases access.tier <;> simp

theorem authorizeCapability_tier {verified : VerifiedCert} {isRevoked : VerifiedCert → Bool}
    {access : MgmtAccess} (h : authorizeCapability verified isRevoked = .ok access) :
    isRevoked verified = false ∧
      ∃ tier, access.tier = some tier ∧ verified.capacity = some tier := by
  unfold authorizeCapability at h
  unfold VerifiedCert.capacity
  split at h
  · cases h
  rename_i hrevoked
  refine ⟨Bool.eq_false_iff.mpr hrevoked, ?_⟩
  split at h
  · rename_i hadmin
    cases h
    exact ⟨.admin, rfl, if_pos hadmin⟩
  rename_i hadmin
  rw [if_neg hadmin]
  split at h
  · rename_i hviewer
    cases h
    exact ⟨.viewer, rfl, if_pos hviewer⟩
  rename_i hviewer
  rw [if_neg hviewer]
  split at h
  · rename_i hmember
    cases h
    exact ⟨.member, rfl, if_pos hmember⟩
  · cases h

theorem authorizeCapability_of_capacity {verified : VerifiedCert}
    (isRevoked : VerifiedCert → Bool) (hrevoked : isRevoked verified = false)
    (h : verified.capacity = some tier) :
    ∃ access, authorizeCapability verified isRevoked = .ok access ∧ access.tier = some tier := by
  unfold VerifiedCert.capacity at h
  unfold authorizeCapability
  rw [if_neg (Bool.eq_false_iff.mp hrevoked)]
  split at h
  · rename_i hadmin
    exact ⟨.grantedAdmin, if_pos hadmin, h⟩
  rename_i hadmin
  rw [if_neg hadmin]
  split at h
  · rename_i hviewer
    exact ⟨.grantedViewer, if_pos hviewer, h⟩
  rename_i hviewer
  rw [if_neg hviewer]
  split at h
  · rename_i hmember
    exact ⟨.grantedMember, if_pos hmember, h⟩
  · cases h

theorem any_cancels_eq_false {verified : VerifiedCert} :
    (ctx.revoked.any fun r => r.cancels verified ctx.nowUnix) = false ↔
      ∀ r ∈ ctx.revoked, r.cancels verified ctx.nowUnix = false := by
  simp

/-- The decision finds out exactly what the peer is. -/
theorem authorize_tier :
    (authorize k key cert ctx).tier = some tier ↔ Standing k key cert ctx tier := by
  unfold authorize decideAccess
  constructor
  · intro h
    split at h
    · rename_i hown
      obtain rfl := Option.some.inj h
      exact .node hown
    rename_i hown
    split at h
    · rename_i hanchor
      obtain rfl := Option.some.inj h
      exact .stranger hown (.inl hanchor)
    · obtain rfl := Option.some.inj h
      exact .stranger hown (.inr rfl)
    · rename_i anchor c hanchor
      split at h
      · cases h
      rename_i verified hverify
      obtain ⟨hissued, hwindow, rfl⟩ := TrustAnchor.verifyCert_ok.mp hverify
      split at h
      · cases h
      rename_i hkey
      split at h
      · rename_i access haccess
        obtain ⟨hrevoked, tier', htier', hcapacity⟩ := authorizeCapability_tier haccess
        obtain rfl := Option.some.inj (htier'.symm.trans h)
        exact .holder hown rfl
          ⟨⟨anchor, hanchor, hissued⟩, hwindow, not_not.mp hkey, any_cancels_eq_false.mp hrevoked⟩
          hcapacity
      · cases h
  · intro h
    cases h with
    | node hown =>
      rw [if_pos hown]
      rfl
    | stranger hown hnone =>
      rw [if_neg hown]
      obtain hanchor | rfl := hnone
      · rw [hanchor]
        rfl
      · cases ctx.anchor <;> rfl
    | @holder c _ hown hcert hvouches hcapacity =>
      obtain ⟨⟨anchor, hanchor, hissued⟩, hwindow, hkey, huncancelled⟩ := hvouches
      have hbound : c.facts.edPubkey = key := hkey
      obtain ⟨access, haccess, htier⟩ :=
        authorizeCapability_of_capacity (fun cert => ctx.revoked.any fun r =>
          r.cancels cert ctx.nowUnix) (any_cancels_eq_false.mpr huncancelled) hcapacity
      rw [if_neg hown, hanchor, hcert]
      simp only [TrustAnchor.verifyCert_ok.mpr ⟨hissued, hwindow, rfl⟩]
      rw [if_neg (not_not.mpr hbound), haccess]
      exact htier

/-- What the gate lets through is what the peer may have done. -/
theorem permits_authorize :
    permits (authorize k key cert ctx) request = true ↔ Entitled k key cert ctx request := by
  rw [permits_iff]
  constructor
  · rintro ⟨tier, htier, hmem⟩
    exact ⟨tier, authorize_tier.mp htier, hmem⟩
  · rintro ⟨tier, hstanding, hmem⟩
    exact ⟨tier, authorize_tier.mpr hstanding, hmem⟩

/-- A peer is one thing at a time. -/
theorem Standing.unique {tier' : AccessTier} (h : Standing k key cert ctx tier)
    (h' : Standing k key cert ctx tier') : tier = tier' :=
  Option.some.inj ((authorize_tier.mpr h).symm.trans (authorize_tier.mpr h'))

end Decision

end Wayfinder

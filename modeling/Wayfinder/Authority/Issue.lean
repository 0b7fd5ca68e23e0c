import Wayfinder.Authority.Log

/-!
# The certificate authority

A node in provider mode answers requests for certificates: it signs at once, holds a
request for its operator, or refuses. A member whose certificate is still inside its
window is re-issued on the strength of its row in the log, over the management API and
over the mesh alike. Each operation reads one clock and makes at most two commits.
-/

namespace Wayfinder

set_option autoImplicit false

open Table

def maxCertTtlSecs : Nat := 10 * 365 * 24 * 60 * 60
def maxSessionTtlSecs : Nat := 90 * 24 * 60 * 60
def maxHeldCsrs : Nat := 128

/-- The three things a certificate binds together. -/
structure Identity where
  nodeMac : Mac
  edPubkey : Octets 32
  xPubkey : Octets 32
  deriving DecidableEq

def MembershipCert.identity (c : MembershipCert) : Identity := ⟨c.nodeMac, c.edPubkey, c.xPubkey⟩

/-- A node's certificate, not a person's: the user flag is off. -/
def MembershipCert.isDevice (c : MembershipCert) : Bool := c.flags &&& certFlagUser = 0

/-! ### Requests and answers -/

structure EnrollData where
  cert : MembershipCert
  trustAnchor : TrustAnchor
  deriving DecidableEq

inductive CsrOutcome where
  | issued (data : EnrollData)
  | pending
  | rejected (reason : String)
  deriving DecidableEq

inductive RenewalOutcome where
  | issued (cert : MembershipCert)
  | refused (reason : String)
  deriving DecidableEq

inductive UserAuthOutcome where
  | issued (data : EnrollData)
  | rejected
  deriving DecidableEq

inductive TokenUpdate where
  | clear
  | set (token : String)
  deriving DecidableEq

structure EnrollmentPolicyData where
  autoApprove : Option Bool
  certTtlSecs : Option Nat
  enrollmentToken : Option TokenUpdate
  deriving DecidableEq

structure ProviderConfig where
  certTtlSecs : Nat
  enrollmentToken : Option String
  autoApprove : Bool
  allowUnboundedCertTtl : Bool
  pendingTtlSecs : Nat
  deriving DecidableEq

/-- Whether the store takes the commits of a call: the one it makes on the way (the sweep
of the held requests, the account's record), and the one it was called for. -/
structure Commits where
  onTheWay : Bool
  final : Bool
  deriving DecidableEq

/-! ### Checks -/

def noClock (act : String) : String :=
  "the authority has no usable clock (never set, a host clock reading before 2025, or a clock " ++
    "no time daemon is disciplining — check chronyd and the hardware clock); cannot " ++ act ++
    " yet"

def notRecorded : String :=
  "the node could not record this change, so it was not made. Try again shortly, and check " ++
    "the node's logs"

def checkCertTtl (certTtlSecs : Nat) (allowUnbounded : Bool) : Except String Unit :=
  if allowUnbounded || certTtlSecs ≤ maxCertTtlSecs then .ok ()
  else .error ("cert_ttl_secs is " ++ toString certTtlSecs ++ "s, past the " ++
    toString maxCertTtlSecs ++ "s cap: passive expiry is this mesh's primary revocation " ++
    "mechanism, so a certificate that outlives the deployment cannot be recalled without " ++
    "reaching every node. Shorten it, or set `allow_unbounded_cert_ttl: true` to say the " ++
    "long lifetime is deliberate")

def checkSessionTtl (sessionTtlSecs : Nat) (allowUnbounded : Bool) : Except String Unit :=
  if allowUnbounded || sessionTtlSecs ≤ maxSessionTtlSecs then .ok ()
  else .error ("session_ttl_secs is " ++ toString sessionTtlSecs ++ "s, past the " ++
    toString maxSessionTtlSecs ++ "s cap on how long an account's sign-in may last: a session " ++
    "is a person at a keyboard, and a credential that outlives the reason it was granted is " ++
    "what revocation exists to avoid. Shorten it, or set `allow_unbounded_cert_ttl: true` to " ++
    "say the long lifetime is deliberate")

def checkApprovalTtl (certTtlSecs : Nat) (allowUnbounded : Bool) : Except String Unit :=
  if certTtlSecs = 0 then
    .error ("cert_ttl_secs must be greater than zero: a zero-second certificate lifetime " ++
      "issues certificates that are already expired")
  else checkCertTtl certTtlSecs allowUnbounded

def fixed (n : Nat) (bytes : Bytes) (what : String) : Except String (Octets n) :=
  (Octets.tryFrom bytes).elim (.error (what ++ " must be " ++ toString n ++ " bytes")) .ok

def nodeMacOf (bytes : Bytes) : Except String Mac :=
  (Mac.tryFrom bytes).elim (.error "node_mac must be 6 bytes") .ok

/-- Bytes as the debug format prints them in hexadecimal. -/
def hexDebug (bytes : Bytes) : String :=
  "[" ++ ", ".intercalate (bytes.map fun b =>
    String.ofList [Nat.digitChar (b.toNat / 16), Nat.digitChar (b.toNat % 16)]) ++ "]"

namespace Crypto

variable (k : Crypto)

/-- The source probes with a secret of its own; which one does not matter. -/
def validateX25519Pubkey (xPubkey : Octets 32) : Except AuthError Unit :=
  if k.diffieHellman ⟨.zero 32⟩ xPubkey = Octets.zero 32 then .error .nonContributoryKey
  else .ok ()

def x25519PubkeyOf (bytes : Bytes) : Except String (Octets 32) := do
  let x ← fixed 32 bytes "x_pubkey"
  (k.validateX25519Pubkey x).mapError fun _ =>
    "x_pubkey is a low-order X25519 point, so any key agreement with it is public; generate " ++
      "the node's keys again"
  pure x

def checkMacDerivesFrom (mac : Mac) (edPubkey : Octets 32) : Except String Unit :=
  if k.deriveMac edPubkey = mac then .ok ()
  else .error ("a certificate's MAC must be the address its identity key derives: this " ++
    "request names " ++ hexDebug mac.asBytes ++ " but the key derives " ++
    hexDebug (k.deriveMac edPubkey).asBytes)

end Crypto

/-! ### The authority -/

/-- History variables, which no operation reads: every certificate the root has signed,
with the second it was signed in, every identity an operator has approved, and every
session certificate handed out, with its account. -/
structure History where
  signed : List (Nat × MembershipCert)
  approved : List Identity
  sessions : List (AccountId × MembershipCert)
  deriving DecidableEq

structure CertAuthority where
  authority : Authority
  certTtlSecs : Nat
  allowUnboundedCertTtl : Bool
  enrollmentToken : Option String
  autoApprove : Bool
  pendingTtlSecs : Nat
  /-- What its clock reads, zero where the reading is not usable. -/
  nowUnix : Nat
  log : CaLog
  history : History
  deriving DecidableEq

/-- `?`: a step that fails ends the call, in the state it left. -/
def attempt {α β : Type} (r : Except String α × CertAuthority)
    (f : α → CertAuthority → Except String β × CertAuthority) : Except String β × CertAuthority :=
  match r with
  | (.ok a, ca) => f a ca
  | (.error e, ca) => (.error e, ca)

namespace CertAuthority

variable (k : Crypto) (ca : CertAuthority)

/-- One change of the log. A commit that changes nothing does not reach the store. -/
def mutate (commits : Bool) (f : CaLog → CaLog) : Except String Unit × CertAuthority :=
  if commits || f ca.log = ca.log then (.ok (), { ca with log := f ca.log })
  else (.error notRecorded, ca)

/-! #### Starting, and the policy -/

def applyPolicyOverrides : CertAuthority :=
  { ca with
    autoApprove := ca.log.policy.autoApprove.getD ca.autoApprove
    certTtlSecs := ca.log.policy.certTtlSecs.getD ca.certTtlSecs
    enrollmentToken :=
      match ca.log.policy.enrollmentToken with
      | some .cleared => none
      | some (.set token) => some token
      | none => ca.enrollmentToken }

/-- An authority over the log its store holds, or an empty one. -/
def fromConfig (authority : Authority) (cfg : ProviderConfig) (stored : Option CaLog)
    (nowUnix : Nat) : Except String CertAuthority := do
  checkCertTtl cfg.certTtlSecs cfg.allowUnboundedCertTtl
  let ca : CertAuthority :=
    { authority := authority
      certTtlSecs := cfg.certTtlSecs
      allowUnboundedCertTtl := cfg.allowUnboundedCertTtl
      enrollmentToken := cfg.enrollmentToken
      autoApprove := cfg.autoApprove
      pendingTtlSecs := cfg.pendingTtlSecs
      nowUnix := nowUnix
      log := stored.getD .empty
      history := ⟨[], [], []⟩ }
  pure ca.applyPolicyOverrides

/-- A restart reads the log back from its store. A configuration that is refused starts
nothing, and the store is as it was. -/
def restart (cfg : ProviderConfig) : Except String Unit × CertAuthority :=
  match fromConfig ca.authority cfg (some ca.log) ca.nowUnix with
  | .ok started => (.ok (), { started with history := ca.history })
  | .error e => (.error e, ca)

def PolicyOverrides.overlay (overrides : PolicyOverrides) (update : EnrollmentPolicyData) :
    PolicyOverrides where
  autoApprove := update.autoApprove.orElse fun _ => overrides.autoApprove
  certTtlSecs := update.certTtlSecs.orElse fun _ => overrides.certTtlSecs
  enrollmentToken :=
    match update.enrollmentToken with
    | some .clear => some .cleared
    | some (.set token) => some (.set token)
    | none => overrides.enrollmentToken

def checkPolicy (update : EnrollmentPolicyData) : Except String Unit :=
  update.certTtlSecs.elim (.ok ()) fun ttl => checkCertTtl ttl ca.allowUnboundedCertTtl

def setEnrollmentPolicy (commits : Commits) (update : EnrollmentPolicyData) :
    Except String Unit × CertAuthority :=
  attempt (ca.checkPolicy update, ca) fun _ ca =>
    attempt (ca.mutate commits.final fun log =>
      { log with policy := PolicyOverrides.overlay log.policy update }) fun _ ca =>
        (.ok (), ca.applyPolicyOverrides)

/-! #### Signing -/

def sign (id : Identity) (ttlSecs : Nat) : MembershipCert × IssuedCertData :=
  let notAfter := saturatingAdd64 ca.nowUnix ttlSecs
  (ca.authority.issueCert k id.nodeMac id.edPubkey id.xPubkey ca.nowUnix notAfter,
    ⟨id.nodeMac, id.edPubkey, ca.nowUnix, notAfter, false, false, false, false, none⟩)

def signUserSession (id : Identity) (ttlSecs : Nat) (role : UserRole) (account : AccountId) :
    MembershipCert × IssuedCertData :=
  let admin := decide (role = .admin)
  let notAfter := saturatingAdd64 ca.nowUnix ttlSecs
  (ca.authority.issueUserCert k id.nodeMac id.edPubkey id.xPubkey ca.nowUnix notAfter admin,
    ⟨id.nodeMac, id.edPubkey, ca.nowUnix, notAfter, false, true, admin, !admin, some account⟩)

def noteSigned (cert : MembershipCert) : CertAuthority :=
  { ca with history := { ca.history with signed := (ca.nowUnix, cert) :: ca.history.signed } }

def noteApproved (id : Identity) : CertAuthority :=
  { ca with history := { ca.history with approved := id :: ca.history.approved } }

def noteSession (account : AccountId) (cert : MembershipCert) : CertAuthority :=
  { ca with history := { ca.history with sessions := (account, cert) :: ca.history.sessions } }

/-- Sign a certificate and record it in place of what the address had: a re-issue clears
the revoked flag. -/
def issue (commits : Bool) (id : Identity) (ttlSecs : Option Nat) :
    Except String EnrollData × CertAuthority :=
  let signed := ca.sign k id (ttlSecs.getD ca.certTtlSecs)
  attempt ((ca.noteSigned signed.1).mutate commits fun log => log.recordIssued signed.2)
    fun _ ca => (.ok ⟨signed.1, ca.authority.trustAnchor k⟩, ca)

/-- Whether the live certificate of an address was issued to this key, whether it is
revoked, and the window it was approved for. -/
def liveHolder (mac : Mac) (edPubkey : Octets 32) : Option (Bool × Bool × Nat) :=
  (ca.log.issued.find? fun c => c.nodeMac = mac && ca.nowUnix ≤ c.notAfter).map fun c =>
    (decide (c.edPubkey = edPubkey), c.revoked, c.notAfter - c.notBefore)

/-! #### Held requests -/

def isExpired (held : HeldCsr) : Bool :=
  ca.nowUnix ≠ 0 && ca.pendingTtlSecs < ca.nowUnix - held.requestedAt

def evictExpired (commits : Bool) : Except String Unit × CertAuthority :=
  if ca.log.held.any ca.isExpired then
    ca.mutate commits fun log => { log with held := log.held.filter fun h => !ca.isExpired h }
  else (.ok (), ca)

/-- A request whose address has no live holder in good standing: the store's answer, or a
place in it. -/
def holdCsr (commits : Bool) (id : Identity) : Except String CsrOutcome × CertAuthority :=
  match ca.log.held.find? fun h => h.nodeMac = id.nodeMac with
  | some held =>
    if held.edPubkey = id.edPubkey ∧ held.xPubkey = id.xPubkey then
      match held.status with
      | .pending => (.ok .pending, ca)
      | .approved cert => (.ok (.issued ⟨cert, ca.authority.trustAnchor k⟩), ca)
      | .denied reason => (.ok (.rejected reason), ca)
    else
      (.ok (.rejected
        "a certificate-signing request for this MAC is already held under a different key"), ca)
  | none =>
    if maxHeldCsrs ≤ ca.log.held.length then
      (.ok (.rejected ("the provider's certificate-signing queue is full; an operator must " ++
        "approve or deny the requests already held before new ones are accepted")), ca)
    else
      attempt (ca.mutate commits fun log =>
        { log with
          held := log.held ++
            [⟨id.nodeMac, id.edPubkey, id.xPubkey, ca.nowUnix, .pending⟩] }) fun _ ca =>
        (.ok .pending, ca)

/-! #### Enrolment and renewal -/

/-- What a request is refused for before the log is asked about it. -/
def checkCsr (nodeMac edPubkey xPubkey : Bytes) (token : String) :
    Except (Except String CsrOutcome) Identity := do
  (if ca.enrollmentToken.any fun expected => token ≠ expected then
    .error (.ok (.rejected "invalid or missing enrollment token")) else .ok ())
  let mac ← (nodeMacOf nodeMac).mapError .error
  let ed ← (fixed 32 edPubkey "ed_pubkey").mapError .error
  let x ← (k.x25519PubkeyOf xPubkey).mapError .error
  (k.checkMacDerivesFrom mac ed).mapError fun why => .ok (.rejected why)
  pure ⟨mac, ed, x⟩

/-- The holder is re-issued for the window its record carries, unless it is revoked:
that waits for an operator, whatever the policy. -/
def answerCsr (commits : Bool) (id : Identity) : Except String CsrOutcome × CertAuthority :=
  match ca.liveHolder id.nodeMac id.edPubkey with
  | some (false, _, _) =>
    (.ok (.rejected "this MAC already has a certificate under a different key"), ca)
  | some (true, false, heldTtlSecs) =>
    attempt (ca.issue k commits id (some heldTtlSecs)) fun data ca => (.ok (.issued data), ca)
  | some (true, true, _) => ca.holdCsr k commits id
  | none =>
    if ca.autoApprove then
      attempt (ca.issue k commits id none) fun data ca => (.ok (.issued data), ca)
    else ca.holdCsr k commits id

def submitCsr (commits : Commits) (nodeMac edPubkey xPubkey : Bytes) (token : String) :
    Except String CsrOutcome × CertAuthority :=
  if ca.nowUnix = 0 then (.error (noClock "issue certificates"), ca)
  else
    attempt (ca.evictExpired commits.onTheWay) fun _ ca =>
      match ca.checkCsr k nodeMac edPubkey xPubkey token with
      | .error answer => (answer, ca)
      | .ok id => ca.answerCsr k commits.final id

/-- Over the mesh a low-order key is refused, not an error: the certificate it comes from
was signed here. -/
def checkRenewal (nodeMac edPubkey xPubkey : Bytes) :
    Except (Except String RenewalOutcome) Identity := do
  let mac ← (nodeMacOf nodeMac).mapError .error
  let ed ← (fixed 32 edPubkey "ed_pubkey").mapError .error
  let x ← (k.x25519PubkeyOf xPubkey).mapError fun why => .ok (.refused why)
  (k.checkMacDerivesFrom mac ed).mapError fun why => .ok (.refused why)
  pure ⟨mac, ed, x⟩

def answerRenewal (commits : Bool) (id : Identity) : Except String RenewalOutcome × CertAuthority :=
  match ca.liveHolder id.nodeMac id.edPubkey with
  | none =>
    (.ok (.refused ("this address holds no live certificate from this authority; it must be " ++
      "enrolled and approved before it can renew")), ca)
  | some (false, _, _) =>
    (.ok (.refused "this MAC already has a certificate under a different key"), ca)
  | some (true, true, _) => (.ok (.refused "this node has been revoked from the mesh"), ca)
  | some (true, false, heldTtlSecs) =>
    attempt (ca.issue k commits id (some heldTtlSecs)) fun data ca =>
      (.ok (.issued data.cert), ca)

def renewHolder (commits : Commits) (nodeMac edPubkey xPubkey : Bytes) :
    Except String RenewalOutcome × CertAuthority :=
  if ca.nowUnix = 0 then (.error (noClock "issue certificates"), ca)
  else
    match checkRenewal k nodeMac edPubkey xPubkey with
    | .error answer => (answer, ca)
    | .ok id => ca.answerRenewal k commits.final id

/-! #### The operator's decisions -/

def pendingCsr (mac : Mac) : Except String HeldCsr :=
  (ca.log.held.find? fun h => h.nodeMac = mac && h.status = .pending).elim
    (.error ("no pending CSR for " ++ hexDebug mac.asBytes)) .ok

/-- The request to be decided gets its status, and a new time to be collected in. -/
def settle (mac : Mac) (status : CsrStatus) (held : List HeldCsr) : List HeldCsr :=
  held.lookmap fun h =>
    if h.nodeMac = mac ∧ h.status = .pending then
      some { h with status := status, requestedAt := ca.nowUnix }
    else none

def approvalTtl : Option Nat → Except String Nat
  | some ttl => do
    checkApprovalTtl ttl ca.allowUnboundedCertTtl
    pure ttl
  | none => .ok ca.certTtlSecs

/-- The rows kept from before the checks of a submission existed pass them here. -/
def approvable (mac : Mac) : Except String Identity := do
  let held ← ca.pendingCsr mac
  k.checkMacDerivesFrom mac held.edPubkey
  let _ ← k.x25519PubkeyOf held.xPubkey.toList
  pure ⟨mac, held.edPubkey, held.xPubkey⟩

def recordApproval (commits : Bool) (id : Identity) (ttlSecs : Nat) :
    Except String Unit × CertAuthority :=
  let signed := ca.sign k id ttlSecs
  attempt ((ca.noteSigned signed.1).mutate commits fun log =>
    { log.recordIssued signed.2 with
      held := ca.settle id.nodeMac (.approved signed.1) log.held }) fun _ ca =>
    (.ok (), ca.noteApproved id)

def approveCsr (commits : Commits) (nodeMac : Bytes) (certTtlSecs : Option Nat) :
    Except String Unit × CertAuthority :=
  attempt (ca.approvalTtl certTtlSecs, ca) fun ttlSecs ca =>
    if ca.nowUnix = 0 then (.error (noClock "issue certificates"), ca)
    else
      attempt (nodeMacOf nodeMac, ca) fun mac ca =>
        attempt (ca.evictExpired commits.onTheWay) fun _ ca =>
          attempt (ca.approvable k mac, ca) fun id ca => ca.recordApproval k commits.final id ttlSecs

def denyCsr (commits : Commits) (nodeMac : Bytes) : Except String Unit × CertAuthority :=
  attempt (nodeMacOf nodeMac, ca) fun mac ca =>
    attempt (ca.evictExpired commits.onTheWay) fun _ ca =>
      attempt (ca.pendingCsr mac, ca) fun _ ca =>
        ca.mutate commits.final fun log =>
          { log with held := ca.settle mac (.denied "denied by operator") log.held }

/-! #### Sessions -/

/-- The account that accepts the credentials, and the log after the attempt. -/
def authenticate (cr : Credentials) (username password totpCode : String) :
    Option UserRecord × CaLog :=
  match ca.log.users.find? fun u => u.username = username with
  | none => (none, ca.log)
  | some user =>
    let outcome := user.authenticate cr password totpCode ca.nowUnix
    (if outcome.1 then some user else none,
      { ca.log with
        users := ca.log.users.lookmap fun u =>
          if u.username = username then some outcome.2 else none })

/-- The sessions that have expired make room; no device's record does. -/
def recordSession (commits : Bool) (edPubkey xPubkey : Octets 32) (user : UserRecord) :
    Except String UserAuthOutcome × CertAuthority :=
  let id : Identity := ⟨k.deriveMac edPubkey, edPubkey, xPubkey⟩
  let signed := ca.signUserSession k id user.sessionTtlSecs user.role user.id
  attempt ((ca.noteSigned signed.1).mutate commits fun log =>
    CaLog.recordIssued
      { log with issued := log.issued.filter fun c => !(c.user && c.notAfter ≤ ca.nowUnix) }
      signed.2) fun _ ca =>
    (.ok (.issued ⟨signed.1, ca.authority.trustAnchor k⟩), ca.noteSession user.id signed.1)

def authenticateUser (cr : Credentials) (commits : Commits) (username password totpCode : String)
    (edPubkey xPubkey : Bytes) : Except String UserAuthOutcome × CertAuthority :=
  if ca.nowUnix = 0 then (.error (noClock "issue certificates"), ca)
  else
    attempt (fixed 32 edPubkey "ed_pubkey", ca) fun ed ca =>
      attempt (k.x25519PubkeyOf xPubkey, ca) fun x ca =>
        let outcome := ca.authenticate cr username password totpCode
        attempt (ca.mutate commits.onTheWay fun _ => outcome.2) fun _ ca =>
          match outcome.1 with
          | none => (.ok .rejected, ca)
          | some user =>
            attempt (checkSessionTtl user.sessionTtlSecs ca.allowUnboundedCertTtl, ca)
              fun _ ca => ca.recordSession k commits.final ed x user

/-! #### Revocation -/

/-- The record is enforced for as long as a certificate signed now would live. -/
def revoke (commits : Commits) (nodeMac : Bytes) : Except String RevocationRecord × CertAuthority :=
  if ca.nowUnix = 0 then (.error (noClock "sign revocations"), ca)
  else
    attempt (nodeMacOf nodeMac, ca) fun mac ca =>
      let record :=
        ca.authority.revoke k mac ca.nowUnix (saturatingAdd64 ca.nowUnix ca.certTtlSecs)
      attempt (ca.mutate commits.final fun log =>
        (log.recordRevocations [record] ca.nowUnix).markFirstRevoked mac) fun _ ca =>
        (.ok record, ca)

def userRecord (username : String) : Except String UserRecord :=
  (ca.log.users.find? fun u => u.username = username).elim
    (.error ("no such user: " ++ username)) .ok

def accountIdOf (username : String) : Except String AccountId :=
  (ca.userRecord username).map UserRecord.id

def liveSessionsOf (account : AccountId) : List (Mac × Nat) :=
  (ca.log.issued.filter fun c =>
    c.user && !c.revoked && ca.nowUnix < c.notAfter && c.accountId = some account).map fun c =>
      (c.nodeMac, c.notAfter)

/-- Sign a record for each session, ending with the certificate it cancels, and commit them
with what else the call changes. -/
def revokeSessions (commits : Bool) (sessions : List (Mac × Nat)) (change : CaLog → CaLog) :
    Except String (List RevocationRecord) × CertAuthority :=
  if !sessions.isEmpty && ca.nowUnix = 0 then
    (.error "authority clock not set; cannot sign revocations yet", ca)
  else
    let records := sessions.map fun s => ca.authority.revoke k s.1 ca.nowUnix s.2
    attempt (ca.mutate commits fun log =>
      change ((log.recordRevocations records ca.nowUnix).markRevoked (sessions.map Prod.fst)))
      fun _ ca => (.ok records, ca)

def revokeUserSessions (commits : Commits) (username : String) :
    Except String (List RevocationRecord) × CertAuthority :=
  attempt (ca.accountIdOf username, ca) fun account ca =>
    ca.revokeSessions k commits.final (ca.liveSessionsOf account) fun log => log

/-! #### Accounts -/

/-- The accounts under a name, changed. -/
def updateUser (username : String) (f : UserRecord → UserRecord) (log : CaLog) : CaLog :=
  { log with
    users := log.users.lookmap fun u => if u.username = username then some (f u) else none }

/-- No act may leave the mesh without an administrator who can sign in. -/
def refuseToStrandTheMesh (username act : String) : Except String Unit :=
  let enabledAdmins := ca.log.users.filter fun u => u.role = .admin && !u.disabled
  if (enabledAdmins.any fun u => u.username = username) &&
      (enabledAdmins.all fun u => u.username = username) then
    .error ("refusing to " ++ act ++ " the last administrator: no account would be left that " ++
      "can administer this mesh over the management API. Create another administrator first " ++
      "— an operator on the provider host can do that against the running provider with " ++
      "`wayfinderctl user add --identity <node identity seed>`, which authenticates as the " ++
      "node itself.")
  else .ok ()

def removeUser (commits : Commits) (username : String) :
    Except String (List RevocationRecord) × CertAuthority :=
  attempt (ca.refuseToStrandTheMesh username "remove", ca) fun _ ca =>
    attempt (ca.accountIdOf username, ca) fun account ca =>
      ca.revokeSessions k commits.final (ca.liveSessionsOf account) fun log =>
        { log with users := log.users.filter fun u => u.username ≠ username }

/-- A demotion ends the sessions the account holds, a promotion does not; the answer also
says whether there was anything to change. -/
def setUserRole (commits : Commits) (username : String) (role : UserRole) :
    Except String (List RevocationRecord × Bool) × CertAuthority :=
  attempt (if role = .viewer then ca.refuseToStrandTheMesh username "demote" else .ok (), ca)
    fun _ ca =>
      attempt (ca.userRecord username, ca) fun user ca =>
        if user.role = role then (.ok ([], false), ca)
        else
          let sessions := if role = .viewer then ca.liveSessionsOf user.id else []
          attempt (ca.revokeSessions k commits.final sessions
            (updateUser username fun u => { u with role := role })) fun records ca =>
            (.ok (records, true), ca)

/-- Enabling an account also clears its lockout. -/
def setUserEnabled (commits : Commits) (username : String) (enabled : Bool) :
    Except String (List RevocationRecord × Bool) × CertAuthority :=
  attempt (if enabled then .ok () else ca.refuseToStrandTheMesh username "disable", ca)
    fun _ ca =>
      attempt (ca.userRecord username, ca) fun user ca =>
        let alreadyEnabled := user.disabled != enabled
        let nothingToClear := !enabled || !user.isLocked ca.nowUnix
        if alreadyEnabled && nothingToClear then (.ok ([], false), ca)
        else
          let sessions := if enabled then [] else ca.liveSessionsOf user.id
          attempt (ca.revokeSessions k commits.final sessions
            (updateUser username fun u =>
              if enabled then
                { u with disabled := !enabled, failedAttempts := 0, lockedUntil := 0 }
              else { u with disabled := !enabled })) fun records ca =>
            (.ok (records, true), ca)

end CertAuthority

end Wayfinder

import Wayfinder.Auth.Revoke
import Wayfinder.Lib.Keyed

/-!
# What the certificate authority keeps

The mesh root's signing half, and the authority's durable log: the certificates issued,
the requests an operator has not decided, the accounts people sign in with, the policy
overrides and the revocations. Every change to the log is one commit to its store, and a
commit that fails leaves the log as it was.
-/

namespace Wayfinder

set_option autoImplicit false

/-- Addition on `u64` that stays at the largest value. -/
def saturatingAdd64 (a b : Nat) : Nat := min (a + b) (2 ^ 64 - 1)

theorem saturatingAdd64_lt (a b : Nat) : saturatingAdd64 a b < 2 ^ 64 := by
  unfold saturatingAdd64
  omega

theorem le_saturatingAdd64 {a : Nat} (h : a < 2 ^ 64) (b : Nat) : a ≤ saturatingAdd64 a b := by
  unfold saturatingAdd64
  omega

/-! ### The mesh root -/

/-- Custody of the root key, and the mesh it signs for. -/
structure Authority where
  root : Keypair
  meshId : U32
  deriving DecidableEq

namespace Authority

variable (k : Crypto) (a : Authority)

def trustAnchor : TrustAnchor := ⟨a.meshId, k.edPubkey a.root⟩

def issueWithFlags (mac : Mac) (edPubkey xPubkey : Octets 32) (notBefore notAfter : Nat)
    (flags : U8) : MembershipCert :=
  let cert : MembershipCert := ⟨certVersion, flags, .ofU32 a.meshId, mac, edPubkey, xPubkey,
    .ofNat notBefore, .ofNat notAfter, .zero 64⟩
  { cert with signature := k.sign a.root cert.signedBody }

def issueCert (mac : Mac) (edPubkey xPubkey : Octets 32) (notBefore notAfter : Nat) :
    MembershipCert :=
  a.issueWithFlags k mac edPubkey xPubkey notBefore notAfter certFlagMember

/-- A person's credential: the user flag, and exactly one capability. -/
def issueUserCert (mac : Mac) (edPubkey xPubkey : Octets 32) (notBefore notAfter : Nat)
    (admin : Bool) : MembershipCert :=
  a.issueWithFlags k mac edPubkey xPubkey notBefore notAfter
    (certFlagUser ||| if admin then certFlagAdmin else certFlagViewer)

def revoke (mac : Mac) (notBefore notAfter : Nat) : RevocationRecord :=
  let record : RevocationRecord :=
    ⟨revokeVersion, 0, .ofU32 a.meshId, mac, .ofNat notBefore, .ofNat notAfter, .zero 64⟩
  { record with signature := k.sign a.root record.signedBody }

end Authority

/-! ### Accounts -/

/-- The hashes of `argon2` and `hmac`: whether a password matches a PHC string, and the
keyed digest of a message. -/
structure Credentials where
  verifyPassword : String → String → Bool
  hmacSha1 : Bytes → Bytes → Octets 20

inductive UserRole where
  | admin | viewer
  deriving DecidableEq, Repr

abbrev AccountId := Octets 16

structure UserRecord where
  id : AccountId
  username : String
  passwordHash : String
  totpSecret : Option Bytes
  totpLastStep : Nat
  failedAttempts : Nat
  lockedUntil : Nat
  role : UserRole
  sessionTtlSecs : Nat
  disabled : Bool
  deriving DecidableEq

def totpStepSecs : Nat := 30
def totpSkewSteps : Nat := 1
def totpDigits : Nat := 6
def lockoutThreshold : Nat := 5
def lockoutSecs : Nat := 900

/-- The white space `str::trim` takes off. -/
def isWhiteSpace (c : Char) : Bool :=
  let n := c.toNat
  (0x09 ≤ n && n ≤ 0x0d) || n = 0x20 || n = 0x85 || n = 0xa0 || n = 0x1680 ||
    (0x2000 ≤ n && n ≤ 0x200a) || n = 0x2028 || n = 0x2029 || n = 0x202f || n = 0x205f ||
    n = 0x3000

def trim (s : String) : List Char :=
  ((s.toList.dropWhile isWhiteSpace).reverse.dropWhile isWhiteSpace).reverse

namespace Credentials

variable (cr : Credentials)

/-- The code of a time step: four bytes of the digest, from where its last nibble points,
without their top bit. -/
def totpCode (secret : Bytes) (step : Nat) : Nat :=
  let digest := (cr.hmacSha1 secret (Be64.ofNat step).toList).toList
  let offset := (digest.getD 19 0 &&& 0x0f).toNat
  let binary := ([digest.getD offset 0 &&& 0x7f, digest.getD (offset + 1) 0,
    digest.getD (offset + 2) 0, digest.getD (offset + 3) 0]).foldl
      (fun n b => n * 256 + b.toNat) 0
  binary % 10 ^ totpDigits

/-- A code as an authenticator shows it, zeros in front. -/
def showCode (code : Nat) : List Char :=
  (List.range totpDigits).reverse.map fun i => Nat.digitChar (code / 10 ^ i % 10)

def verifyTotp (secret : Bytes) (code : String) (nowUnix lastStep : Nat) : Option Nat :=
  let code := trim code
  if (String.ofList code).utf8ByteSize ≠ totpDigits then none
  else
    let current := nowUnix / totpStepSecs
    let first := current - totpSkewSteps
    (List.range' first (current + totpSkewSteps + 1 - first)).find? fun step =>
      lastStep < step && showCode (cr.totpCode secret step) = code

end Credentials

namespace UserRecord

def isLocked (u : UserRecord) (nowUnix : Nat) : Bool := nowUnix < u.lockedUntil

/-- The step the account would accept these credentials under. -/
def acceptedStep (cr : Credentials) (u : UserRecord) (password totpCode : String)
    (nowUnix : Nat) : Option Nat :=
  if cr.verifyPassword u.passwordHash password then
    match u.totpSecret with
    | none => some u.totpLastStep
    | some secret => cr.verifyTotp secret totpCode nowUnix u.totpLastStep
  else none

def countFailure (u : UserRecord) (nowUnix : Nat) : UserRecord :=
  let failed := min (u.failedAttempts + 1) (2 ^ 32 - 1)
  { u with
    failedAttempts := failed
    lockedUntil :=
      if lockoutThreshold ≤ failed then saturatingAdd64 nowUnix lockoutSecs else u.lockedUntil }

/-- Whether the credentials are accepted, and the account after the attempt. -/
def authenticate (cr : Credentials) (u : UserRecord) (password totpCode : String)
    (nowUnix : Nat) : Bool × UserRecord :=
  if u.disabled || u.isLocked nowUnix then (false, u)
  else
    match u.acceptedStep cr password totpCode nowUnix with
    | some step => (true, { u with totpLastStep := step, failedAttempts := 0, lockedUntil := 0 })
    | none => (false, u.countFailure nowUnix)

end UserRecord

/-! ### The log -/

/-- What the log keeps of an issued certificate. It has no X25519 key. -/
structure IssuedCertData where
  nodeMac : Mac
  edPubkey : Octets 32
  notBefore : Nat
  notAfter : Nat
  revoked : Bool
  user : Bool
  admin : Bool
  viewer : Bool
  accountId : Option AccountId
  deriving DecidableEq

/-- The bytes of the certificate are kept as the certificate. -/
inductive CsrStatus where
  | pending
  | approved (cert : MembershipCert)
  | denied (reason : String)
  deriving DecidableEq

namespace CsrStatus

theorem pending_ne_approved (cert : MembershipCert) : pending ≠ approved cert :=
  CsrStatus.noConfusion

theorem denied_ne_approved (reason : String) (cert : MembershipCert) :
    denied reason ≠ approved cert :=
  CsrStatus.noConfusion

end CsrStatus

structure HeldCsr where
  nodeMac : Mac
  edPubkey : Octets 32
  xPubkey : Octets 32
  requestedAt : Nat
  status : CsrStatus
  deriving DecidableEq

inductive TokenOverride where
  | cleared
  | set (token : String)
  deriving DecidableEq

structure PolicyOverrides where
  autoApprove : Option Bool
  certTtlSecs : Option Nat
  enrollmentToken : Option TokenOverride
  deriving DecidableEq

structure CaLog where
  issued : List IssuedCertData
  held : List HeldCsr
  users : List UserRecord
  policy : PolicyOverrides
  revocations : List RevocationRecord
  deriving DecidableEq

namespace CaLog

def empty : CaLog := ⟨[], [], [], ⟨none, none, none⟩, []⟩

/-- Refresh the record of an address, or add it behind the others. -/
def recordIssued (log : CaLog) (record : IssuedCertData) : CaLog :=
  { log with issued := Table.upsert IssuedCertData.nodeMac record log.issued }

/-- Drop the revocations that have expired and keep the new ones. -/
def recordRevocations (log : CaLog) (records : List RevocationRecord) (nowUnix : Nat) : CaLog :=
  { log with
    revocations := (log.revocations.filter fun r => nowUnix < r.notAfter.get) ++ records }

/-- The entry a lookup by address finds, and no other. -/
def markFirstRevoked (log : CaLog) (mac : Mac) : CaLog :=
  { log with
    issued := log.issued.lookmap fun c =>
      if c.nodeMac = mac then some { c with revoked := true } else none }

/-- Every entry under one of these addresses. -/
def markRevoked (log : CaLog) (macs : List Mac) : CaLog :=
  { log with
    issued := log.issued.map fun c => if c.nodeMac ∈ macs then { c with revoked := true } else c }

end CaLog

end Wayfinder

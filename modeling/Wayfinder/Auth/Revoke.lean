import Wayfinder.Auth.Cert

/-!
# Revocation records

The mesh root's signed statement that a node's credentials are no longer valid as
of an instant. The instant has two readings: when enforcement starts, and the cut
between the certificates it cancels and those issued as a re-admission.
-/

namespace Wayfinder

set_option autoImplicit false

def revokeVersion : U8 := 2

structure RevocationRecord where
  version : U8
  flags : U8
  meshId : Be32
  nodeMac : Mac
  notBefore : Be64
  notAfter : Be64
  signature : Octets 64
  deriving DecidableEq

namespace RevocationRecord

def size : Nat := 92

def signedBody (r : RevocationRecord) : Bytes :=
  [r.version, r.flags] ++ r.meshId.asBytes ++ r.nodeMac.asBytes ++
    (r.notBefore.toList ++ r.notAfter.toList)

def asBytes (r : RevocationRecord) : Bytes := r.signedBody ++ r.signature.toList

def readFromPrefix : Bytes → Option (RevocationRecord × Bytes)
  | v :: fl :: i0 :: i1 :: i2 :: i3 :: m0 :: m1 :: m2 :: m3 :: m4 :: m5 :: rest => do
    let (notBefore, rest) ← Octets.readFromPrefix rest
    let (notAfter, rest) ← Octets.readFromPrefix rest
    let (signature, rest) ← Octets.readFromPrefix rest
    some (⟨v, fl, ⟨i0, i1, i2, i3⟩, ⟨m0, m1, m2, m3, m4, m5⟩, notBefore, notAfter, signature⟩,
      rest)
  | _ => none

@[simp] theorem readFromPrefix_asBytes (r : RevocationRecord) (rest : Bytes) :
    readFromPrefix (r.asBytes ++ rest) = some (r, rest) := by
  simp [asBytes, signedBody, Be32.asBytes, Mac.asBytes, readFromPrefix]

/-- The clock-free half: the record is aimed at this certificate. -/
def namesCert (r : RevocationRecord) (nodeMac : Mac) (certNotBefore : Nat) : Bool :=
  r.nodeMac = nodeMac && certNotBefore ≤ r.notBefore.get

def cancelsCertFor (r : RevocationRecord) (nodeMac : Mac) (certNotBefore nowUnix : Nat) : Bool :=
  r.namesCert nodeMac certNotBefore && (r.notBefore.get ≤ nowUnix && nowUnix < r.notAfter.get)

/-- Whether the enforcement window is open, as far as the posture can tell. -/
def inForce (r : RevocationRecord) (now : Clocked) : Bool :=
  match now with
  | .at t => r.notBefore.get ≤ t && t < r.notAfter.get
  | .atLeast _ | .unknown => !now.provesReached r.notAfter.get

def cancelsUnder (r : RevocationRecord) (cert : VerifiedCert) (now : Clocked) : Bool :=
  if !r.namesCert cert.mac cert.notBefore then false else r.inForce now

theorem cancelsUnder_iff {r : RevocationRecord} {cert : VerifiedCert} {now : Clocked} :
    r.cancelsUnder cert now = true ↔
      r.nodeMac = cert.mac ∧ cert.notBefore ≤ r.notBefore.get ∧ r.inForce now = true := by
  unfold cancelsUnder namesCert
  split
  · rename_i h
    simp only [Bool.false_eq_true, false_iff]
    rintro ⟨hmac, hcut, _⟩
    simp [hmac, hcut] at h
  · rename_i h
    have hnames : r.nodeMac = cert.mac ∧ cert.notBefore ≤ r.notBefore.get := by simpa using h
    simp [hnames]

end RevocationRecord

namespace TrustAnchor

def verifyRevocation (k : Crypto) (a : TrustAnchor) (record : RevocationRecord) (nowUnix : Nat) :
    Except AuthError Mac :=
  if record.version ≠ revokeVersion then .error .badVersion
  else if record.meshId.get ≠ a.meshId then .error .wrongMesh
  else if record.notBefore.get = 0 then .error .noRevocationInstant
  else if !k.verifySignature a.rootPubkey record.signedBody record.signature then
    .error .badSignature
  else if record.notAfter.get ≤ nowUnix then .error .expired
  else .ok record.nodeMac

/-- The record is the anchor's, whatever the time. -/
structure Revokes (k : Crypto) (a : TrustAnchor) (record : RevocationRecord) : Prop where
  version : record.version = revokeVersion
  mesh : record.meshId.get = a.meshId
  instant : record.notBefore.get ≠ 0
  signed : k.verifySignature a.rootPubkey record.signedBody record.signature = true

theorem verifyRevocation_ok {k : Crypto} {a : TrustAnchor} {record : RevocationRecord}
    {nowUnix : Nat} {mac : Mac} :
    a.verifyRevocation k record nowUnix = .ok mac ↔
      a.Revokes k record ∧ nowUnix < record.notAfter.get ∧ mac = record.nodeMac := by
  constructor
  · intro h
    unfold verifyRevocation at h
    split at h
    · cases h
    split at h
    · cases h
    split at h
    · cases h
    split at h
    · cases h
    split at h
    · cases h
    rename_i hv hm hi hs he
    cases h
    exact ⟨⟨by simpa using hv, by simpa using hm, hi, by simpa using hs⟩, by omega, rfl⟩
  · rintro ⟨hr, hlive, rfl⟩
    have hlive' : ¬ record.notAfter.get ≤ nowUnix := by omega
    simp [verifyRevocation, hr.version, hr.mesh, hr.instant, hr.signed, hlive']

end TrustAnchor

end Wayfinder

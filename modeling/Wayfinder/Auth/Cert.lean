import Wayfinder.Wire

/-!
# Clocks, keys and membership certificates

What a verifier knows about the time, the cryptographic primitives the mesh is
built on, and the certificate a trust anchor is asked about. The primitives are
third-party code: `Crypto` names them and the one law the code relies on. Dates are
unix seconds, and only ever compared.
-/

namespace Wayfinder

set_option autoImplicit false

/-- An array of `n` bytes. -/
structure Octets (n : Nat) where
  toList : Bytes
  length_eq : toList.length = n
  deriving DecidableEq

namespace Octets

variable {n : Nat}

def zero (n : Nat) : Octets n := ⟨List.replicate n 0, List.length_replicate⟩

/-- The `n` big-endian bytes of a number. -/
def be (n v : Nat) : Octets n :=
  ⟨(List.range n).reverse.map fun i => BitVec.ofNat 8 (v / 256 ^ i), by simp⟩

def tryFrom (bytes : Bytes) : Option (Octets n) :=
  if h : bytes.length = n then some ⟨bytes, h⟩ else none

def readFromPrefix (bytes : Bytes) : Option (Octets n × Bytes) :=
  if h : n ≤ bytes.length then
    some (⟨bytes.take n, by rw [List.length_take, Nat.min_eq_left h]⟩, bytes.drop n)
  else none

@[simp] theorem tryFrom_toList (o : Octets n) : tryFrom o.toList = some o := by
  rw [tryFrom, dif_pos o.length_eq]

theorem toList_of_tryFrom {bytes : Bytes} {o : Octets n} (h : tryFrom bytes = some o) :
    o.toList = bytes := by
  unfold tryFrom at h
  split at h
  · obtain rfl := Option.some.inj h
    rfl
  · cases h

theorem eq_of_toList {o o' : Octets n} (h : o.toList = o'.toList) : o = o' := by
  cases o
  cases o'
  cases h
  rfl

@[simp] theorem readFromPrefix_append (o : Octets n) (rest : Bytes) :
    readFromPrefix (o.toList ++ rest) = some (o, rest) := by
  obtain ⟨bytes, rfl⟩ := o
  simp [readFromPrefix]

theorem append_of_readFromPrefix {bytes rest : Bytes} {o : Octets n}
    (h : readFromPrefix bytes = some (o, rest)) : bytes = o.toList ++ rest := by
  unfold readFromPrefix at h
  split at h
  · obtain ⟨rfl, rfl⟩ := Prod.mk.inj (Option.some.inj h)
    exact (List.take_append_drop n bytes).symm
  · simp at h

/-- Read back digit by digit, the big-endian bytes give the number modulo `256 ^ n`. -/
theorem foldl_be (n acc v : Nat) :
    (be n v).toList.foldl (fun m b => m * 256 + b.toNat) acc = acc * 256 ^ n + v % 256 ^ n := by
  induction n generalizing acc with
  | zero => simp [be, Nat.mod_one]
  | succ n ih =>
    have hcons : (be (n + 1) v).toList = BitVec.ofNat 8 (v / 256 ^ n) :: (be n v).toList := by
      simp [be, List.range_succ]
    have hsplit : v % 256 ^ (n + 1) = v % 256 ^ n + 256 ^ n * (v / 256 ^ n % 256) := by
      rw [Nat.pow_succ, Nat.mod_mul]
    rw [hcons, List.foldl_cons, ih, BitVec.toNat_ofNat, hsplit, Nat.pow_succ]
    grind

end Octets

/-- A big-endian `u64` as the wire carries it. -/
abbrev Be64 := Octets 8

namespace Be64

def get (x : Be64) : Nat := x.toList.foldl (fun n b => n * 256 + b.toNat) 0

def ofNat (n : Nat) : Be64 := Octets.be 8 n

theorem get_ofNat {n : Nat} (h : n < 2 ^ 64) : (ofNat n).get = n := by
  have hbase : 256 ^ 8 = 2 ^ 64 := by decide
  rw [get, ofNat, Octets.foldl_be, Nat.zero_mul, Nat.zero_add, hbase, Nat.mod_eq_of_lt h]

end Be64

/-! ### Clock postures -/

inductive Clocked where
  | at (t : Nat)
  | atLeast (t : Nat)
  | unknown
  deriving DecidableEq, Repr

namespace Clocked

def provesPast (c : Clocked) (instant : Nat) : Bool :=
  match c with
  | .at t | .atLeast t => instant < t
  | .unknown => false

def provesBefore (c : Clocked) (instant : Nat) : Bool :=
  match c with
  | .at t => t < instant
  | .atLeast _ | .unknown => false

def provesReached (c : Clocked) (instant : Nat) : Bool :=
  match c with
  | .at t | .atLeast t => instant ≤ t
  | .unknown => false

def judgesWindows : Clocked → Bool
  | .unknown => false
  | .at _ | .atLeast _ => true

def unixOrZero : Clocked → Nat
  | .at t | .atLeast t => t
  | .unknown => 0

end Clocked

/-! ### Primitives -/

structure Keypair where
  seed : Octets 32
  deriving DecidableEq

/-- The primitives of `ed25519-dalek`, `x25519-dalek` and `blake2`. A low-order
point gives the all-zero agreement under every secret, and no other point does
under any: scalars are clamped to multiples of the cofactor. A public key is a
multiple of the base point, so an agreement with one's own is never zero. -/
structure Crypto where
  verifySignature : Octets 32 → Bytes → Octets 64 → Bool
  sign : Keypair → Bytes → Octets 64
  blake2s256 : Bytes → Octets 32
  edPubkey : Keypair → Octets 32
  xPubkey : Keypair → Octets 32
  diffieHellman : Keypair → Octets 32 → Octets 32
  low_order : ∀ (k k' : Keypair) (peer : Octets 32),
    diffieHellman k peer = Octets.zero 32 → diffieHellman k' peer = Octets.zero 32
  own_key : ∀ k : Keypair, diffieHellman k (xPubkey k) ≠ Octets.zero 32

inductive AuthError where
  | badVersion | wrongMesh | badSignature | expired | notYetValid | reservedAddress
  | macKeyMismatch | noRevocationInstant | nonContributoryKey
  deriving DecidableEq, Repr

/-- The bytes of an ASCII literal. -/
def ascii (s : String) : Bytes := s.toList.map fun c => BitVec.ofNat 8 c.toNat

def macDeriveLabel : Bytes := ascii "wayfinder-mac-v1"
def certFingerprintLabel : Bytes := ascii "wayfinder-certfp-v1"
def pairwiseLabel : Bytes := ascii "wayfinder-pairwise-v1"

namespace Crypto

variable (k : Crypto)

def deriveMac (edPubkey : Octets 32) : Mac :=
  let digest := (k.blake2s256 (macDeriveLabel ++ edPubkey.toList)).toList
  ⟨(digest.getD 0 0 &&& 0xfe) ||| 0x02, digest.getD 1 0, digest.getD 2 0, digest.getD 3 0,
    digest.getD 4 0, digest.getD 5 0⟩

def pairwiseKey (keypair : Keypair) (peerXPubkey : Octets 32) : Except AuthError (Octets 32) :=
  let shared := k.diffieHellman keypair peerXPubkey
  if shared = Octets.zero 32 then .error .nonContributoryKey
  else .ok (k.blake2s256 (pairwiseLabel ++ shared.toList))

/-- Whether an agreement with this key is refused does not depend on whose it is. -/
theorem pairwiseKey_ok {keypair : Keypair} {peer key : Octets 32}
    (h : k.pairwiseKey keypair peer = .ok key) (keypair' : Keypair) :
    ∃ key', k.pairwiseKey keypair' peer = .ok key' := by
  unfold pairwiseKey at h ⊢
  by_cases hzero : k.diffieHellman keypair' peer = Octets.zero 32
  · have hzero' := k.low_order keypair' keypair peer hzero
    simp [hzero'] at h
  · exact ⟨_, if_neg hzero⟩

end Crypto

/-! ### Membership certificates -/

def certVersion : U8 := 1
def certFlagAdmin : U8 := 0x01
def certFlagUser : U8 := 0x02
def certFlagViewer : U8 := 0x04
def certFlagMember : U8 := 0x08

structure MembershipCert where
  version : U8
  flags : U8
  meshId : Be32
  nodeMac : Mac
  edPubkey : Octets 32
  xPubkey : Octets 32
  notBefore : Be64
  notAfter : Be64
  signature : Octets 64
  deriving DecidableEq

namespace MembershipCert

def size : Nat := 156

def signedBody (c : MembershipCert) : Bytes :=
  [c.version, c.flags] ++ c.meshId.asBytes ++ c.nodeMac.asBytes ++
    (c.edPubkey.toList ++ (c.xPubkey.toList ++ (c.notBefore.toList ++ c.notAfter.toList)))

def asBytes (c : MembershipCert) : Bytes := c.signedBody ++ c.signature.toList

def readFromPrefix : Bytes → Option (MembershipCert × Bytes)
  | v :: fl :: i0 :: i1 :: i2 :: i3 :: m0 :: m1 :: m2 :: m3 :: m4 :: m5 :: rest => do
    let (edPubkey, rest) ← Octets.readFromPrefix rest
    let (xPubkey, rest) ← Octets.readFromPrefix rest
    let (notBefore, rest) ← Octets.readFromPrefix rest
    let (notAfter, rest) ← Octets.readFromPrefix rest
    let (signature, rest) ← Octets.readFromPrefix rest
    some (⟨v, fl, ⟨i0, i1, i2, i3⟩, ⟨m0, m1, m2, m3, m4, m5⟩, edPubkey, xPubkey, notBefore,
      notAfter, signature⟩, rest)
  | _ => none

theorem asBytes_length (c : MembershipCert) : c.asBytes.length = size := by
  simp [asBytes, signedBody, Be32.asBytes, Mac.asBytes, Octets.length_eq, size]

@[simp] theorem readFromPrefix_asBytes (c : MembershipCert) (rest : Bytes) :
    readFromPrefix (c.asBytes ++ rest) = some (c, rest) := by
  simp [asBytes, signedBody, Be32.asBytes, Mac.asBytes, readFromPrefix]

theorem asBytes_of_readFromPrefix {bytes rest : Bytes} {c : MembershipCert}
    (h : readFromPrefix bytes = some (c, rest)) : bytes = c.asBytes ++ rest := by
  unfold readFromPrefix at h
  split at h
  · obtain ⟨⟨ed, r₁⟩, h₁, h⟩ := Option.bind_eq_some_iff.mp h
    obtain ⟨⟨x, r₂⟩, h₂, h⟩ := Option.bind_eq_some_iff.mp h
    obtain ⟨⟨nb, r₃⟩, h₃, h⟩ := Option.bind_eq_some_iff.mp h
    obtain ⟨⟨na, r₄⟩, h₄, h⟩ := Option.bind_eq_some_iff.mp h
    obtain ⟨⟨sig, r₅⟩, h₅, h⟩ := Option.bind_eq_some_iff.mp h
    obtain ⟨rfl, rfl⟩ := Prod.mk.inj (Option.some.inj h)
    rw [Octets.append_of_readFromPrefix h₁, Octets.append_of_readFromPrefix h₂,
      Octets.append_of_readFromPrefix h₃, Octets.append_of_readFromPrefix h₄,
      Octets.append_of_readFromPrefix h₅]
    simp [asBytes, signedBody, Be32.asBytes, Mac.asBytes]
  · simp at h

def fingerprint (k : Crypto) (c : MembershipCert) : Octets 8 :=
  let digest := k.blake2s256 (certFingerprintLabel ++ c.asBytes)
  ⟨digest.toList.take 8, by rw [List.length_take, digest.length_eq]; rfl⟩

end MembershipCert

structure TrustAnchor where
  meshId : U32
  rootPubkey : Octets 32
  deriving DecidableEq

structure VerifiedCert where
  mac : Mac
  edPubkey : Octets 32
  xPubkey : Octets 32
  notBefore : Nat
  notAfter : Nat
  admin : Bool
  viewer : Bool
  user : Bool
  member : Bool
  deriving DecidableEq

def isReservedMac (mac : Mac) : Bool := mac.isMulticast || mac = Mac.zero

/-- A derived address is a unicast one, and never the zero address. -/
theorem Crypto.deriveMac_unreserved (k : Crypto) (edPubkey : Octets 32) :
    isReservedMac (k.deriveMac edPubkey) = false := by
  have hbits : ∀ b : U8, ((b &&& 0xfe) ||| 0x02) &&& 0x01 = 0 ∧ (b &&& 0xfe) ||| 0x02 ≠ 0 := by
    decide
  generalize hb : (k.blake2s256 (macDeriveLabel ++ edPubkey.toList)).toList.getD 0 0 = b
  have hfirst : (k.deriveMac edPubkey).o0 = (b &&& 0xfe) ||| 0x02 := by rw [← hb]; rfl
  have hzero : k.deriveMac edPubkey ≠ Mac.zero := by
    intro heq
    rw [heq] at hfirst
    exact (hbits b).2 hfirst.symm
  rw [isReservedMac, Mac.isMulticast, hfirst, (hbits b).1]
  simp [hzero]

/-- The trusted facts of a certificate that has verified. -/
def MembershipCert.facts (c : MembershipCert) : VerifiedCert where
  mac := c.nodeMac
  edPubkey := c.edPubkey
  xPubkey := c.xPubkey
  notBefore := c.notBefore.get
  notAfter := c.notAfter.get
  admin := c.flags &&& certFlagAdmin != 0
  viewer := c.flags &&& certFlagViewer != 0
  user := c.flags &&& certFlagUser != 0
  member := c.flags &&& certFlagMember != 0

namespace TrustAnchor

def verifyCert (k : Crypto) (a : TrustAnchor) (cert : MembershipCert) (now : Clocked) :
    Except AuthError VerifiedCert :=
  if cert.version ≠ certVersion then .error .badVersion
  else if cert.meshId.get ≠ a.meshId then .error .wrongMesh
  else if !k.verifySignature a.rootPubkey cert.signedBody cert.signature then
    .error .badSignature
  else if isReservedMac cert.nodeMac then .error .reservedAddress
  else if k.deriveMac cert.edPubkey ≠ cert.nodeMac then .error .macKeyMismatch
  else if now.provesBefore cert.notBefore.get then .error .notYetValid
  else if now.provesPast cert.notAfter.get then .error .expired
  else .ok cert.facts

/-- Everything `verify_cert` checks but the window: what no clock can change. -/
structure Issued (k : Crypto) (a : TrustAnchor) (cert : MembershipCert) : Prop where
  version : cert.version = certVersion
  mesh : cert.meshId.get = a.meshId
  signed : k.verifySignature a.rootPubkey cert.signedBody cert.signature = true
  unreserved : isReservedMac cert.nodeMac = false
  bound : k.deriveMac cert.edPubkey = cert.nodeMac

end TrustAnchor

/-- The clock does not place itself outside the certificate's window. -/
def MembershipCert.InWindow (c : MembershipCert) (now : Clocked) : Prop :=
  now.provesBefore c.notBefore.get = false ∧ now.provesPast c.notAfter.get = false

theorem TrustAnchor.verifyCert_ok {k : Crypto} {a : TrustAnchor} {cert : MembershipCert}
    {now : Clocked} {v : VerifiedCert} :
    a.verifyCert k cert now = .ok v ↔ a.Issued k cert ∧ cert.InWindow now ∧ v = cert.facts := by
  constructor
  · intro h
    unfold verifyCert at h
    split at h
    · cases h
    split at h
    · cases h
    split at h
    · cases h
    split at h
    · cases h
    split at h
    · cases h
    split at h
    · cases h
    split at h
    · cases h
    rename_i hv hm hs hr hb hnb hna
    cases h
    exact ⟨⟨by simpa using hv, by simpa using hm, by simpa using hs, by simpa using hr,
      by simpa using hb⟩, ⟨by simpa using hnb, by simpa using hna⟩, rfl⟩
  · rintro ⟨hi, ⟨hnb, hna⟩, rfl⟩
    simp [verifyCert, hi.version, hi.mesh, hi.signed, hi.unreserved, hi.bound, hnb, hna]

end Wayfinder

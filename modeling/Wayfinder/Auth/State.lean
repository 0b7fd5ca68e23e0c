import Wayfinder.Auth.Revoke
import Wayfinder.Lib.Keyed

/-!
# The authentication state of a node

The revocation set, the cache of verified neighbors and the tables beside them,
with the operations that write them: ingesting a revocation, caching and evicting a
neighbor, and advancing the clocks. Every table holds one entry for a key. Alarms
and log lines are not part of the state, and neither is the scratch buffer: a signed
message is built, or refused, at its length.
-/

namespace Wayfinder

set_option autoImplicit false

open Table

def revokeFloodBudget : Nat := 6
def maxCertRequestAttempts : Nat := 6
def pendingReplyTtl : Duration := Duration.ofSecs 30
def renewalPollInterval : Duration := Duration.ofSecs (15 * 60)
def outstandingRenewalTtl : Duration := renewalPollInterval * 2

structure AuthCapacities where
  maxNeighborKeys : Nat
  maxRevoked : Nat
  maxInFlightCertRequests : Nat
  maxPendingReplies : Nat

structure NeighborKeys where
  cert : VerifiedCert
  pairwiseKey : Octets 32
  rawCert : MembershipCert
  lastOgm : Option (Be32 × Octets 64)
  deriving DecidableEq

def NeighborKeys.mac (n : NeighborKeys) : Mac := n.cert.mac

structure KnownRevocation where
  record : RevocationRecord
  floodsLeft : Nat
  deriving DecidableEq

def KnownRevocation.mac (r : KnownRevocation) : Mac := r.record.nodeMac

structure InFlightCertRequest where
  orig : Mac
  fp : Octets 8
  firstHop : Mac
  attempts : Nat
  nextAttempt : Duration

structure PendingReply where
  requester : Mac
  parked : Duration

def maxInProgressProof : Nat := 16

/-- A next-hop proof challenge issued and not yet answered. -/
structure OutstandingChallenge where
  neighbor : Mac
  nonce : Octets 16
  issuedSeq : Nat
  deriving DecidableEq

/-- A renewal request that passed every check, for the driver to collect. -/
structure VerifiedRenewal where
  mac : Mac
  edPubkey : Octets 32
  xPubkey : Octets 32
  deriving DecidableEq

inductive Cached where
  | stored
  | refusedLiveIdentity
  deriving DecidableEq, Repr

structure OgmAuth (c : AuthCapacities) where
  keypair : Keypair
  cert : MembershipCert
  anchor : TrustAnchor
  wall : Clocked
  now : Duration
  revocations : KeyedVec KnownRevocation.mac c.maxRevoked
  neighbors : KeyedVec NeighborKeys.mac c.maxNeighborKeys
  recvCounters : KeyedVec (Prod.fst : Mac × Nat → Mac) c.maxNeighborKeys
  selfRevocation : Option RevocationRecord
  trickleResetHint : Bool
  keyGeneration : U32
  inFlight : KeyedVec InFlightCertRequest.orig c.maxInFlightCertRequests
  pendingReplies : KeyedVec PendingReply.requester c.maxPendingReplies
  certReqRate : KeyedVec (Prod.fst : Mac × Duration → Mac) c.maxNeighborKeys
  outstandingRenewal : Option Duration
  restartCandidate : Option (Mac × Nat)
  ogmCryptoOps : Nat
  unjudgedAdmissions : U32
  sendCounter : Nat
  challengeCounter : Nat
  inProgress : KeyedVec OutstandingChallenge.neighbor maxInProgressProof
  renewalAuthority : Option Mac
  renewReqRate : KeyedVec (Prod.fst : Mac × Duration → Mac) c.maxNeighborKeys
  pendingRenewedCert : Option MembershipCert
  pendingRenewal : Option VerifiedRenewal
  nextRenewalPoll : Duration

namespace OgmAuth

variable {c : AuthCapacities}

def withCapacities (c : AuthCapacities) (keypair : Keypair) (cert : MembershipCert)
    (anchor : TrustAnchor) : OgmAuth c where
  keypair := keypair
  cert := cert
  anchor := anchor
  wall := .unknown
  now := 0
  revocations := .empty
  neighbors := .empty
  recvCounters := .empty
  selfRevocation := none
  trickleResetHint := false
  keyGeneration := 0
  inFlight := .empty
  pendingReplies := .empty
  certReqRate := .empty
  outstandingRenewal := none
  restartCandidate := none
  ogmCryptoOps := 0
  unjudgedAdmissions := 0
  sendCounter := 0
  challengeCounter := 0
  inProgress := .empty
  renewalAuthority := none
  renewReqRate := .empty
  pendingRenewedCert := none
  pendingRenewal := none
  nextRenewalPoll := 0

/-! ### The neighbor cache -/

def evictNeighbor (s : OgmAuth c) (mac : Mac) : OgmAuth c :=
  { s with
    neighbors := s.neighbors.remove mac
    keyGeneration := if (s.neighbors.find? mac).isSome then s.keyGeneration + 1
      else s.keyGeneration
    recvCounters := s.recvCounters.remove mac
    restartCandidate := s.restartCandidate.filter fun p => p.1 ≠ mac }

/-- The cached keys for `mac`, a certificate known to have expired being absent. -/
def liveNeighbor (s : OgmAuth c) (mac : Mac) : Option NeighborKeys :=
  s.neighbors.toList.find? fun n => n.cert.mac = mac && !s.wall.provesPast n.cert.notAfter

def neighborCert (k : Crypto) (s : OgmAuth c) (mac : Mac) : Option (MembershipCert × Octets 8) :=
  (s.liveNeighbor mac).map fun n => (n.rawCert, n.rawCert.fingerprint k)

def identityConflict (s : OgmAuth c) (mac : Mac) (edPubkey : Octets 32) : Bool :=
  s.wall.judgesWindows && s.neighbors.toList.any fun n =>
    n.cert.mac = mac && !s.wall.provesPast n.cert.notAfter && n.cert.edPubkey ≠ edPubkey

def cacheNeighbor (s : OgmAuth c) (keys : NeighborKeys) : OgmAuth c × Cached :=
  if s.identityConflict keys.cert.mac keys.cert.edPubkey then (s, .refusedLiveIdentity)
  else
    let displaced := (s.neighbors.find? keys.mac).isNone &&
      decide (c.maxNeighborKeys ≤ s.neighbors.toList.length) && !s.neighbors.toList.isEmpty
    ({ s with
      unjudgedAdmissions := if s.wall.judgesWindows then s.unjudgedAdmissions
        else saturatingAdd s.unjudgedAdmissions 1
      neighbors := s.neighbors.put keys List.head?
      keyGeneration := if displaced then s.keyGeneration + 1 else s.keyGeneration }, .stored)

/-! ### Revocations -/

/-- A record naming this node is latched for the router, never enforced here. -/
def latchSelfRevocation (s : OgmAuth c) (record : RevocationRecord) : OgmAuth c :=
  if !record.cancelsCertFor s.cert.nodeMac s.cert.notBefore.get record.notBefore.get then s
  else if s.selfRevocation.any fun held => record.notBefore.get ≤ held.notBefore.get then s
  else { s with selfRevocation := some record }

/-- The slot a full set gives up: an expired one first, then the one with the fewest
floods left. The pair is compared as one number, floods being below 256. -/
def quiescentSlot (now : Nat) (held : List KnownRevocation) : Option KnownRevocation :=
  minByKey (fun r => (if now < r.record.notAfter.get then 256 else 0) + r.floodsLeft) held

def holdRevocation (s : OgmAuth c) (record : RevocationRecord) (mac : Mac) : OgmAuth c :=
  let known : KnownRevocation := ⟨record, revokeFloodBudget⟩
  let s := { s with
    revocations := s.revocations.put known (quiescentSlot s.wall.unixOrZero) }
  { s.evictNeighbor mac with trickleResetHint := true }

def ingestRevocation (k : Crypto) (s : OgmAuth c) (record : RevocationRecord) :
    OgmAuth c × Bool :=
  match s.anchor.verifyRevocation k record s.wall.unixOrZero with
  | .error _ => (s, false)
  | .ok mac =>
    if mac = s.cert.nodeMac then (s.latchSelfRevocation record, false)
    else
      match s.revocations.find? mac with
      | some slot =>
        if record.notBefore.get ≤ slot.record.notBefore.get then (s, false)
        else (s.holdRevocation record mac, true)
      | none => (s.holdRevocation record mac, true)

def isRevoked (s : OgmAuth c) (cert : VerifiedCert) : Bool :=
  s.revocations.toList.any fun r => r.record.cancelsUnder cert s.wall

def isShunned (s : OgmAuth c) (mac : Mac) : Bool :=
  (s.revocations.toList.filter fun r => r.record.nodeMac = mac).any fun r =>
    match s.neighbors.toList.find? fun n => n.cert.mac = mac with
    | none => true
    | some n => r.record.cancelsUnder n.cert s.wall

def macsToPurge (s : OgmAuth c) : List Mac :=
  (s.revocations.toList.map fun r => r.record.nodeMac).filter s.isShunned

def takeSelfRevoked (s : OgmAuth c) : OgmAuth c × Option RevocationRecord :=
  match s.selfRevocation with
  | none => (s, none)
  | some record =>
    if !s.wall.judgesWindows then (s, none)
    else if record.notAfter.get ≤ s.wall.unixOrZero then ({ s with selfRevocation := none }, none)
    else if s.wall.unixOrZero < record.notBefore.get then (s, none)
    else ({ s with selfRevocation := none }, some record)

/-! ### Time -/

def reclaimBookkeeping (s : OgmAuth c) : OgmAuth c :=
  { s with
    pendingReplies := s.pendingReplies.retain fun p => s.now - p.parked < pendingReplyTtl
    inFlight := s.inFlight.retain fun r => r.attempts < maxCertRequestAttempts
    outstandingRenewal := s.outstandingRenewal.filter fun asked =>
      s.now - asked < outstandingRenewalTtl }

def pruneExpired (s : OgmAuth c) : OgmAuth c :=
  if !s.wall.judgesWindows then s
  else
    let now := s.wall.unixOrZero
    { s with revocations := s.revocations.swapRetain fun r => r.record.notAfter.get ≤ now }

def evictExpiredNeighbors (s : OgmAuth c) : OgmAuth c :=
  if !s.wall.judgesWindows then s
  else
    let neighbors := s.neighbors.retain fun n => !s.wall.provesPast n.cert.notAfter
    { s with
      neighbors := neighbors
      keyGeneration := if neighbors.toList.length ≠ s.neighbors.toList.length then
          s.keyGeneration + 1 else s.keyGeneration }

def setTime (s : OgmAuth c) (now : Duration) (wall : Clocked) : OgmAuth c :=
  let s := { s with now := now, wall := wall }
  s.reclaimBookkeeping.pruneExpired.evictExpiredNeighbors

end OgmAuth

/-! ### A small mesh

The mesh `0xabcd` with the root of seed 1 and the members of seeds 2, 3 and 4, and the
primitives as they answer on what these nodes exchange. -/

namespace SmallMesh

def keypair (n : U8) : Keypair := ⟨⟨List.replicate 32 n, rfl⟩⟩

def meshId : Be32 := ⟨0, 0, 0xab, 0xcd⟩

def anchor : TrustAnchor :=
  ⟨meshId.get,
    .be 32 0x8a88e3dd7409f195fd52db2d3cba5d72ca6709bf1d94121bf3748801b40f6f5c⟩

/-- The two halves of a signature. -/
def signatureOf (r s : Nat) : Octets 64 := .be 64 (r * 2 ^ 256 + s)

def mac2 : Mac := ⟨0x96, 0xaf, 0x85, 0xcb, 0x37, 0x7b⟩

def cert2 : MembershipCert where
  version := certVersion
  flags := certFlagMember
  meshId := meshId
  nodeMac := mac2
  edPubkey := .be 32 0x8139770ea87d175f56a35466c34c7ecccb8d8a91b4ee37a25df60f5b8fc9b394
  xPubkey := .be 32 0xa270ee76bcaf49480bdc5392af05b89bca1b370450288fc64df0b3b669285b70
  notBefore := .ofNat 0
  notAfter := .ofNat 1000
  signature := signatureOf
    0xcdf0a97430f0e0b26531a867b883dfa1f220c980d05f2a58a12d8f6be8a34086
    0xb54d059e7ff76bc68a5fd38bcd53ee5aead1945418ebb1f7d48c1741e737760c

def cert3 : MembershipCert where
  version := certVersion
  flags := certFlagMember
  meshId := meshId
  nodeMac := ⟨0xee, 0x84, 0x32, 0x2a, 0x92, 0xb7⟩
  edPubkey := .be 32 0xed4928c628d1c2c6eae90338905995612959273a5c63f93636c14614ac8737d1
  xPubkey := .be 32 0x9c7622d5d0332de400d678fa46da5df614653c108b4c92c0cd2a7dfc859b0526
  notBefore := .ofNat 0
  notAfter := .ofNat 1000
  signature := signatureOf
    0x2215ceac4b2910be36a458613eeb56d84082422b43f09fe858c56d66fad39d35
    0x5dd1c4674007058d4b0a4449e4e2f417d875fd1d59779b8af60590ecc57d5b03

def cert4 : MembershipCert where
  version := certVersion
  flags := certFlagMember
  meshId := meshId
  nodeMac := ⟨0xbe, 0x71, 0x7c, 0x00, 0x8e, 0x63⟩
  edPubkey := .be 32 0xca93ac1705187071d67b83c7ff0efe8108e8ec4530575d7726879333dbdabe7c
  xPubkey := .be 32 0xa9f3cfa51a4d93f6f8cff8fa014a76b8d023ab2a058f6bf92e28b0641074990b
  notBefore := .ofNat 0
  notAfter := .ofNat 1000
  signature := signatureOf
    0x59d7e750a22376790f081c4e1e477644cfbe20ce244adaae1eda384857173f0f
    0x7519966a9fcd6ae4e601cbb72bfd87d8f5a3a86e2da62ff0e739af538011d80e

def revocationOf2 (notBefore notAfter : Nat) (signature : Octets 64) : RevocationRecord where
  version := revokeVersion
  flags := 0
  meshId := meshId
  nodeMac := mac2
  notBefore := .ofNat notBefore
  notAfter := .ofNat notAfter
  signature := signature

/-- Node 2 is revoked as of 500, until 1000. -/
def revoked500 : RevocationRecord := revocationOf2 500 1000 (signatureOf
  0xf0bfedf51f56c804c27d0f14ae4bad4fbe9da53754e45a71fd641172965fb751
  0x04ebf584e1758094bda0b3e53f36837e701627b80ff8ba9a4ead5dde4772ac0a)

/-- The same instant, until 2000. -/
def revoked500Longer : RevocationRecord := revocationOf2 500 2000 (signatureOf
  0xee65efe8ac3693298f6cb89acf3aadecde3eb165d79ad638350aca1b7c7dabe2
  0x74a16bb0a764f6b0c0d09b785693f479ec66c5c7cc3ea139d676bd49f5ab0d07)

def revoked700 : RevocationRecord := revocationOf2 700 2000 (signatureOf
  0x4667ed2112076d5db077d2d181c97d0d91a588b305730496401274e81c0d134e
  0x0721bd6e9b63a453b833bfb00190fa101f67da48121c725a91f03fe450660f07)

/-- Node 2's signature over its OGM of sequence number 7. -/
def ogmSignature : Octets 64 := signatureOf
  0xa6ab6c36a40714851866df62b9f1e37d62e41f54ad41ef11d3cfdaf1f46d81b1
  0xf26c41bc5b26f4bc08b5be7d20608f8bb08fa58b326e8269ad6d7f822dec6405

def ogmMessage : Bytes :=
  ascii "wf-ogm-sig-v1" ++ mac2.asBytes ++ [0, 0, 0, 7] ++ cert2.asBytes

def signatures : List (Octets 32 × Bytes × Octets 64) :=
  [(anchor.rootPubkey, cert2.signedBody, cert2.signature),
    (anchor.rootPubkey, revoked500.signedBody, revoked500.signature),
    (anchor.rootPubkey, revoked500Longer.signedBody, revoked500Longer.signature),
    (anchor.rootPubkey, revoked700.signedBody, revoked700.signature),
    (cert2.edPubkey, ogmMessage, ogmSignature)]

def shared23 : Octets 32 :=
  .be 32 0x6be62aba419d43a46e9fc65edd1d2d4c08d5650ca606c2ebaa8ce88bf86e7779

def shared24 : Octets 32 :=
  .be 32 0xd7769f194d9a3f21fe15fc3da80136c4c89fe3bbf5a677fcbcb58481321efe0a

def digests : List (Bytes × Octets 32) :=
  [(macDeriveLabel ++ cert2.edPubkey.toList,
      .be 32 0x97af85cb377bc120de52ebbefaf91e073552f766cae44222fec5f057070522f3),
    (pairwiseLabel ++ shared23.toList,
      .be 32 0xebc0960ee0e767399c48ab35973cfa6a4cde5cd503ee0ae6412b02f3743a3bb9),
    (pairwiseLabel ++ shared24.toList,
      .be 32 0xccc642fbf5163ade6ed6a46a66f3f9f22ca76d68dc64f4eadef2e3fe284965d8)]

instance : LawfulBEq (Octets 32 × Bytes × Octets 64) := inferInstance

def crypto : Crypto where
  verifySignature pubkey msg signature := (pubkey, msg, signature) ∈ signatures
  sign _ _ := .zero 64
  blake2s256 msg := ((digests.find? fun d => d.1 = msg).map Prod.snd).getD (.zero 32)
  edPubkey k := if k = keypair 4 then cert4.edPubkey else if k = keypair 3 then cert3.edPubkey
    else cert2.edPubkey
  xPubkey k := if k = keypair 4 then cert4.xPubkey else if k = keypair 3 then cert3.xPubkey
    else cert2.xPubkey
  diffieHellman k _ := if k = keypair 4 then shared24 else shared23
  low_order k k' _ h := by
    split at h <;> exact absurd h (by decide)
  own_key k := by
    split <;> decide

def capacities : AuthCapacities := ⟨4, 2, 2, 2⟩

/-- Node 3, its clock at `t`. -/
def node3 (t : Nat) : OgmAuth capacities :=
  (OgmAuth.withCapacities capacities (keypair 3) cert3 anchor).setTime (Duration.ofSecs t) (.at t)

def node4 (t : Nat) : OgmAuth capacities :=
  (OgmAuth.withCapacities capacities (keypair 4) cert4 anchor).setTime (Duration.ofSecs t) (.at t)

end SmallMesh

end Wayfinder

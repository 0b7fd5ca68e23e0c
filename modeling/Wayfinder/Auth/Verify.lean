import Wayfinder.Auth.State
import Wayfinder.Tvlv

/-!
# The doors of the neighbor cache

The three ways a certificate enters the cache: with an OGM, as the reply to a
request of this node, and with the request of another. What an OGM is judged by is
stated once, apart from the caches the code keeps: its certificate was issued by the
anchor and is in its window, names the originator, is not revoked, and its key signed
the originator, the sequence number and the certificate.
-/

namespace Wayfinder

set_option autoImplicit false

open Table

def sigDomain : Bytes := ascii "wf-ogm-sig-v1"
def certReqSigDomain : Bytes := ascii "wf-certreq-sig-v1"
def sigLen : Nat := 64
def signScratchLen : Nat := 256
def certRequestRetry : Duration := Duration.ofSecs 5
def certReqRateLimit : Duration := Duration.ofSecs 2

inductive OgmVerdict where
  | verified
  | rejected
  | needCert (orig : Mac) (fp : Octets 8)
  deriving DecidableEq

namespace OgmAuth

variable {c : AuthCapacities}

/-! ### Originator messages -/

def signedMessage (orig : Mac) (seqno : Be32) (certBytes : Bytes) : Option Bytes :=
  let msg := sigDomain ++ orig.asBytes ++ seqno.asBytes ++ certBytes
  if msg.length ≤ signScratchLen then some msg else none

/-- The certificate bytes an OGM is checked against: on the wire, or in the cache
under the fingerprint it carries. -/
def certBytesFor (k : Crypto) (s : OgmAuth c) (orig : Mac) (tail : Bytes) :
    Except OgmVerdict Bytes :=
  match findTvlv tail .cert with
  | some certBytes => .ok certBytes
  | none =>
    match findTvlv tail .certFp with
    | none => .error .rejected
    | some fpBytes =>
      match Octets.tryFrom fpBytes with
      | none => .error .rejected
      | some fp =>
        match s.neighborCert k orig with
        | none => .error (.needCert orig fp)
        | some (cached, cachedFp) =>
          if cachedFp = fp then .ok cached.asBytes else .error (.needCert orig fp)

def countCryptoOp (s : OgmAuth c) : OgmAuth c := { s with ogmCryptoOps := s.ogmCryptoOps + 1 }

/-- The copy of this very certificate in the cache, if there is one. -/
def knownCert (s : OgmAuth c) (orig : Mac) (certBytes : Bytes) : Option NeighborKeys :=
  s.neighbors.toList.find? fun n => n.cert.mac = orig && n.rawCert.asBytes = certBytes

/-- The trusted facts of an OGM's certificate, the pairwise key with its holder, and
whether this signature has been checked before. -/
def judgeCert (k : Crypto) (s : OgmAuth c) (orig : Mac) (seqno : Be32) (signature : Octets 64)
    (certBytes : Bytes) (cert : MembershipCert) :
    OgmAuth c × Option (VerifiedCert × Octets 32 × Bool) :=
  match s.knownCert orig certBytes with
  | some known =>
    if s.wall.provesBefore known.rawCert.notBefore.get ||
        s.wall.provesPast known.rawCert.notAfter.get then (s, none)
    else (s, some (known.cert, known.pairwiseKey, known.lastOgm = some (seqno, signature)))
  | none =>
    let s := s.countCryptoOp
    match s.anchor.verifyCert k cert s.wall with
    | .error _ => (s, none)
    | .ok verified =>
      let s := s.countCryptoOp
      match k.pairwiseKey s.keypair verified.xPubkey with
      | .error _ => (s, none)
      | .ok pairwiseKey => (s, some (verified, pairwiseKey, false))

def ingestRevocationsFromTail (k : Crypto) (s : OgmAuth c) (tail : Bytes) : OgmAuth c :=
  (iterTvlv tail .revoke).foldl (fun s value =>
    match RevocationRecord.readFromPrefix value with
    | some (record, _) => (s.ingestRevocation k record).1
    | none => s) s

/-- The signature check, skipped for a copy of an OGM already checked. -/
def checkOgmSignature (k : Crypto) (s : OgmAuth c) (ogm : BatmanOgmPacket) (certBytes : Bytes)
    (signature : Octets 64) (edPubkey : Octets 32) (checked : Bool) : OgmAuth c × Bool :=
  if checked then (s, true)
  else
    match signedMessage ogm.orig ogm.seqno certBytes with
    | none => (s, false)
    | some msg => (s.countCryptoOp, k.verifySignature edPubkey msg signature)

/-- The part of `verify_ogm` behind the parsing. -/
def verifyOgmWith (k : Crypto) (s : OgmAuth c) (ogm : BatmanOgmPacket) (tail certBytes : Bytes)
    (cert : MembershipCert) (signature : Octets 64) : OgmAuth c × OgmVerdict :=
  match s.judgeCert k ogm.orig ogm.seqno signature certBytes cert with
  | (s, none) => (s, .rejected)
  | (s, some (verified, pairwiseKey, checked)) =>
    if verified.mac ≠ ogm.orig then (s, .rejected)
    else if s.isRevoked verified then (s, .rejected)
    else
      match s.checkOgmSignature k ogm certBytes signature verified.edPubkey checked with
      | (s, false) => (s, .rejected)
      | (s, true) =>
        let s := (s.cacheNeighbor
          ⟨verified, pairwiseKey, cert, some (ogm.seqno, signature)⟩).1
        (s.ingestRevocationsFromTail k tail, .verified)

def verifyOgm (k : Crypto) (s : OgmAuth c) (payload : Bytes) : OgmAuth c × OgmVerdict :=
  match BatmanOgmPacket.readFromPrefix payload with
  | none => (s, .rejected)
  | some (ogm, tail) =>
    match findTvlv tail .ogmSig >>= Octets.tryFrom with
    | none => (s, .rejected)
    | some signature =>
      match s.certBytesFor k ogm.orig tail with
      | .error verdict => (s, verdict)
      | .ok certBytes =>
        match MembershipCert.readFromPrefix certBytes with
        | none => (s, .rejected)
        | some (cert, _) => s.verifyOgmWith k ogm tail certBytes cert signature

/-! ### Requests and replies for certificates -/

def certReqMessage (orig requester : Mac) : Bytes :=
  certReqSigDomain ++ orig.asBytes ++ requester.asBytes

/-- The retry bookkeeping of `build_cert_request`: whether a request goes out now. -/
def trackCertRequest (s : OgmAuth c) (orig : Mac) (fp : Octets 8) (firstHop : Mac) :
    OgmAuth c × Bool :=
  match s.inFlight.find? orig with
  | some existing =>
    let existing := if existing.fp ≠ fp then
        { existing with fp := fp, attempts := 0, nextAttempt := 0 } else existing
    if s.now < existing.nextAttempt ∨ maxCertRequestAttempts ≤ existing.attempts then
      ({ s with inFlight := s.inFlight.put existing fun _ => none }, false)
    else
      let sent := { existing with
        attempts := existing.attempts + 1
        nextAttempt := s.now + certRequestRetry
        firstHop := firstHop }
      ({ s with inFlight := s.inFlight.put sent fun _ => none }, true)
  | none =>
    if s.inFlight.toList.length < c.maxInFlightCertRequests then
      let entry : InFlightCertRequest := ⟨orig, fp, firstHop, 1, s.now + certRequestRetry⟩
      ({ s with inFlight := s.inFlight.put entry fun _ => none }, true)
    else (s, false)

def buildCertRequest (k : Crypto) (s : OgmAuth c) (orig : Mac) (fp : Octets 8) (firstHop : Mac)
    (bufLen : Nat) : OgmAuth c × Option Bytes :=
  match s.trackCertRequest orig fp firstHop with
  | (s, false) => (s, none)
  | (s, true) =>
    let signature := k.sign s.keypair (certReqMessage orig s.cert.nodeMac)
    let body := s.cert.asBytes ++ signature.toList
    (s, if body.length ≤ bufLen then some body else none)

def ingestCertReply (k : Crypto) (s : OgmAuth c) (body : Bytes) : OgmAuth c × Bool :=
  match MembershipCert.readFromPrefix body with
  | none => (s, false)
  | some (cert, _) =>
    match s.anchor.verifyCert k cert s.wall with
    | .error _ => (s, false)
    | .ok verified =>
      if (s.inFlight.find? verified.mac).isNone then (s, false)
      else
        match k.pairwiseKey s.keypair verified.xPubkey with
        | .error _ => (s, false)
        | .ok pairwiseKey =>
          match s.cacheNeighbor ⟨verified, pairwiseKey, cert, none⟩ with
          | (s, .refusedLiveIdentity) => (s, false)
          | (s, .stored) => ({ s with inFlight := s.inFlight.remove verified.mac }, true)

def acceptCertRequestRate (s : OgmAuth c) (requester : Mac) : OgmAuth c × Bool :=
  match s.certReqRate.find? requester with
  | some entry =>
    if s.now - entry.2 < certReqRateLimit then (s, false)
    else ({ s with certReqRate := s.certReqRate.put (requester, s.now) List.head? }, true)
  | none => ({ s with certReqRate := s.certReqRate.put (requester, s.now) List.head? }, true)

def verifyCertRequest (k : Crypto) (s : OgmAuth c) (body : Bytes) : OgmAuth c × Option Mac :=
  if body.length ≠ MembershipCert.size + sigLen then (s, none)
  else
    match MembershipCert.readFromPrefix body with
    | none => (s, none)
    | some (cert, sigBytes) =>
      match Octets.tryFrom sigBytes with
      | none => (s, none)
      | some signature =>
        match s.anchor.verifyCert k cert s.wall with
        | .error _ => (s, none)
        | .ok verified =>
          if s.isRevoked verified then (s, none)
          else if !k.verifySignature verified.edPubkey
              (certReqMessage s.cert.nodeMac verified.mac) signature then (s, none)
          else if s.identityConflict verified.mac verified.edPubkey then (s, none)
          else
            match s.acceptCertRequestRate verified.mac with
            | (s, false) => (s, none)
            | (s, true) =>
              match k.pairwiseKey s.keypair verified.xPubkey with
              | .error _ => (s, none)
              | .ok pairwiseKey =>
                ((s.cacheNeighbor ⟨verified, pairwiseKey, cert, none⟩).1, some verified.mac)

end OgmAuth

namespace SmallMesh

/-- The records of node 2's OGM: its certificate, then its signature. -/
def ogmTail : Bytes :=
  [TvlvType.cert.asU8, 1, 0, 156] ++ cert2.asBytes ++
    ([TvlvType.ogmSig.asU8, 1, 0, 64] ++ ogmSignature.toList)

/-- Node 2's OGM as it may arrive: the signature covers no `tvlv_len`. -/
def ogmHeader (tvlvLen : Nat) : BatmanOgmPacket :=
  ⟨BatmanPacketType.ogm.asU8, batmanVersion, 50, 0, ⟨0, 0, 0, 7⟩, mac2, 0, 255, .ofNat tvlvLen⟩

def ogm7 (tvlvLen : Nat) : Bytes := (ogmHeader tvlvLen).asBytes ++ ogmTail

end SmallMesh

end Wayfinder

import Wayfinder.Auth.Pairwise

/-!
# Renewal over the mesh, and the OGM a node signs

A board asks the authority it was enrolled by for a fresh certificate and installs
the reply in place: the identity is unchanged and the window moves forward. The
revocations a node holds ride on the OGMs it signs, a few at a time.
-/

namespace Wayfinder

set_option autoImplicit false

open Table

def renewReqSigDomain : Bytes := ascii "wf-renewreq-sig-v1"
def renewNoncePrfDomain : Bytes := ascii "wf-renew-nonce-v1"
def renewalNonceLen : Nat := tagLen
def renewReqRateLimit : Duration := Duration.ofSecs 60
def maxRevokePerOgm : Nat := 4

/-- One flood of each record sent is spent. -/
def KnownRevocation.spend (sent : List KnownRevocation) (kr : KnownRevocation) :
    KnownRevocation :=
  if kr ∈ sent then { kr with floodsLeft := kr.floodsLeft - 1 } else kr

theorem KnownRevocation.spend_record (sent : List KnownRevocation) (kr : KnownRevocation) :
    (kr.spend sent).record = kr.record := by
  unfold spend
  split <;> rfl

namespace OgmAuth

variable {c : AuthCapacities}

/-! ### Requests and replies -/

def setRenewalAuthority (k : Crypto) (s : OgmAuth c) (providerKey : Option (Octets 32)) :
    OgmAuth c :=
  { s with renewalAuthority := providerKey.map k.deriveMac }

def renewalSignedMessage (authority requester : Mac) (nonce : Octets 16) : Bytes :=
  renewReqSigDomain ++ authority.asBytes ++ requester.asBytes ++ nonce.toList

/-- The counter of the nonces is spent even when the buffer turns out too small. -/
def buildRenewalRequest (k : Crypto) (s : OgmAuth c) (bufLen : Nat) : OgmAuth c × Option Bytes :=
  match s.renewalAuthority with
  | none => (s, none)
  | some ca =>
    if s.challengeCounter + 1 < 2 ^ 64 then
      let seq := s.challengeCounter + 1
      let s := { s with challengeCounter := seq }
      let nonce := k.frameTag ⟨k.noncePrfKey s.keypair, seq, renewNoncePrfDomain, ca.asBytes⟩
      let signature := k.sign s.keypair (renewalSignedMessage ca s.cert.nodeMac nonce)
      let body := s.cert.asBytes ++ nonce.toList ++ signature.toList
      if body.length ≤ bufLen then ({ s with outstandingRenewal := some s.now }, some body)
      else (s, none)
    else (s, none)

def renewalOutstanding (s : OgmAuth c) : Bool :=
  s.outstandingRenewal.any fun asked => s.now - asked < outstandingRenewalTtl

/-- The certificate a reply installs: this node's, and no step back at either end of
its window. -/
def renewedCert (k : Crypto) (s : OgmAuth c) (body : Bytes) : Option MembershipCert :=
  match MembershipCert.readFromPrefix body with
  | none => none
  | some (cert, _) =>
    if !s.renewalOutstanding then none
    else
      match s.anchor.verifyCert k cert s.wall with
      | .error _ => none
      | .ok verified =>
        if verified.mac ≠ s.cert.nodeMac ∨ verified.edPubkey ≠ s.cert.edPubkey then none
        else if cert.notAfter.get ≤ s.cert.notAfter.get ∨
            cert.notBefore.get < s.cert.notBefore.get then none
        else some cert

def ingestRenewReply (k : Crypto) (s : OgmAuth c) (body : Bytes) : OgmAuth c × Bool :=
  match s.renewedCert k body with
  | none => (s, false)
  | some cert =>
    ({ s with cert := cert, outstandingRenewal := none, pendingRenewedCert := some cert }, true)

def takeRenewedCert (s : OgmAuth c) : OgmAuth c × Option MembershipCert :=
  ({ s with pendingRenewedCert := none }, s.pendingRenewedCert)

def acceptRenewalRequestRate (s : OgmAuth c) (requester : Mac) : OgmAuth c × Bool :=
  match s.renewReqRate.find? requester with
  | some entry =>
    if s.now - entry.2 < renewReqRateLimit then (s, false)
    else ({ s with renewReqRate := s.renewReqRate.put (requester, s.now) List.head? }, true)
  | none => ({ s with renewReqRate := s.renewReqRate.put (requester, s.now) List.head? }, true)

def verifyRenewalRequest (k : Crypto) (s : OgmAuth c) (body : Bytes) :
    OgmAuth c × Option VerifiedRenewal :=
  if body.length ≠ MembershipCert.size + renewalNonceLen + sigLen then (s, none)
  else
    match MembershipCert.readFromPrefix body with
    | none => (s, none)
    | some (cert, rest) =>
      match Octets.readFromPrefix (n := 16) rest with
      | none => (s, none)
      | some (nonce, sigBytes) =>
        match Octets.tryFrom sigBytes, s.anchor.verifyCert k cert s.wall with
        | some signature, .ok verified =>
          if s.isRevoked verified then (s, none)
          else if !k.verifySignature verified.edPubkey
              (renewalSignedMessage s.cert.nodeMac verified.mac nonce) signature then (s, none)
          else if s.identityConflict verified.mac verified.edPubkey then (s, none)
          else
            match s.acceptRenewalRequestRate verified.mac with
            | (s, false) => (s, none)
            | (s, true) => (s, some ⟨verified.mac, verified.edPubkey, verified.xPubkey⟩)
        | _, _ => (s, none)

/-- One slot: a second verified request displaces the first. -/
def handleRenewReq (k : Crypto) (s : OgmAuth c) (body : Bytes) : OgmAuth c :=
  match s.verifyRenewalRequest k body with
  | (s, none) => s
  | (s, some verified) => { s with pendingRenewal := some verified }

def takeRenewalRequest (s : OgmAuth c) : OgmAuth c × Option VerifiedRenewal :=
  ({ s with pendingRenewal := none }, s.pendingRenewal)

/-! ### Signing an OGM -/

def tvlvRecordBytes (ty : TvlvType) (value : Bytes) : Bytes :=
  (⟨ty.asU8, 1, Be16.ofNat value.length⟩ : BatmanTvlvHdr).asBytes ++ value

/-- The revocations that still have floods left and fit, in the order of the table:
`off` bytes are written, `tvlvLen` of them records. -/
def attachRevocations (bufLen : Nat) :
    List KnownRevocation → (attached off tvlvLen : Nat) → List KnownRevocation
  | [], _, _, _ => []
  | kr :: rest, attached, off, tvlvLen =>
    let recordLen := tvlvHdrLen + RevocationRecord.size
    if maxRevokePerOgm ≤ attached then []
    else if kr.floodsLeft = 0 then attachRevocations bufLen rest attached off tvlvLen
    else if bufLen < off + recordLen ∨ 2 ^ 16 ≤ tvlvLen + recordLen then []
    else kr :: attachRevocations bufLen rest (attached + 1) (off + recordLen)
      (tvlvLen + recordLen)

def spendFloods (s : OgmAuth c) (sent : List KnownRevocation) : OgmAuth c :=
  { s with revocations := s.revocations.update (KnownRevocation.spend sent) fun kr =>
      congrArg RevocationRecord.nodeMac (kr.spend_record sent) }

/-- The certificate on the wire: whole, or as the fingerprint peers resolve. -/
def certRecord (k : Crypto) (s : OgmAuth c) (lazy : Bool) : Bytes :=
  if lazy then tvlvRecordBytes .certFp (s.cert.fingerprint k).toList
  else tvlvRecordBytes .cert s.cert.asBytes

/-- The OGM in `base` with this node's certificate (or its fingerprint), signature and
pending revocations behind it. -/
def augmentOgmWithCertRecord (k : Crypto) (s : OgmAuth c) (base : Bytes) (bufLen : Nat)
    (lazy : Bool) : OgmAuth c × Option Bytes :=
  match BatmanOgmPacket.readFromPrefix base with
  | none => (s, none)
  | some (ogm, tail) =>
    match signedMessage ogm.orig ogm.seqno s.cert.asBytes with
    | none => (s, none)
    | some msg =>
      let records := s.certRecord k lazy ++
        tvlvRecordBytes .ogmSig (k.sign s.keypair msg).toList
      let newLen := base.length + records.length
      let tvlvLen := ogm.tvlvLen.get + records.length
      if bufLen < newLen ∨ 2 ^ 16 ≤ tvlvLen then (s, none)
      else
        let sent := attachRevocations bufLen s.revocations.toList 0 newLen tvlvLen
        let revokes := sent.flatMap fun kr => tvlvRecordBytes .revoke kr.record.asBytes
        let header := { ogm with tvlvLen := Be16.ofNat (tvlvLen + revokes.length) }
        (s.spendFloods sent, some (header.asBytes ++ tail ++ records ++ revokes))

end OgmAuth

end Wayfinder

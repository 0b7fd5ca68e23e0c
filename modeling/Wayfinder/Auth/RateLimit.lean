import Wayfinder.Auth.Steps
import Wayfinder.Lib.Limiter

/-!
# The rate limits on requests

A node answers requests for its certificate, and an authority requests for renewal, each
kind at a bounded rate for one requester. The slot is spent only behind every check on the
request. It is kept in a bounded table, whose first row a new requester takes when the table
is full.
-/

namespace Wayfinder

set_option autoImplicit false

open Table

inductive RequestKind where
  | cert
  | renew
  deriving DecidableEq

namespace RequestKind

variable {c : AuthCapacities}

def nonceLen : RequestKind → Nat
  | cert => 0
  | renew => renewalNonceLen

def limit : RequestKind → Duration
  | cert => certReqRateLimit
  | renew => renewReqRateLimit

/-- What a requester signs to `authority`. -/
def message (authority requester : Mac) (nonce : Bytes) : RequestKind → Bytes
  | cert => OgmAuth.certReqMessage authority requester
  | renew => renewReqSigDomain ++ authority.asBytes ++ requester.asBytes ++ nonce

def rates (s : OgmAuth c) : RequestKind → Limiter.Rates Mac c.maxNeighborKeys
  | cert => s.certReqRate
  | renew => s.renewReqRate

theorem limit_pos (kind : RequestKind) : 0 < kind.limit := by
  cases kind <;> decide

end RequestKind

/-- A request arrives, or the clocks are set. -/
inductive RequestOp where
  | request (kind : RequestKind) (body : Bytes)
  | setTime (now : Duration) (wall : Clocked)

namespace OgmAuth

variable {c : AuthCapacities}

def requestStep (k : Crypto) (s : OgmAuth c) : RequestOp → OgmAuth c
  | .request .cert body => (s.verifyCertRequest k body).1
  | .request .renew body => (s.verifyRenewalRequest k body).1
  | .setTime now wall => s.setTime now wall

/-- The body passes every check: it is a certificate, a nonce and a signature of just these
lengths; the certificate was issued by the anchor, is in its window and not revoked; its key
signed the request; and no other identity is locked to its address. -/
structure Genuine (k : Crypto) (s : OgmAuth c) (kind : RequestKind) (body : Bytes)
    (cert : MembershipCert) (nonce : Bytes) (signature : Octets 64) : Prop where
  parsed : body = cert.asBytes ++ (nonce ++ signature.toList)
  nonceLen : nonce.length = kind.nonceLen
  anchored : s.anchor.verifyCert k cert s.wall = .ok cert.facts
  unrevoked : s.isRevoked cert.facts = false
  signed : k.verifySignature cert.edPubkey
    (kind.message s.cert.nodeMac cert.nodeMac nonce) signature = true
  unlocked : s.identityConflict cert.nodeMac cert.edPubkey = false

/-- The step takes a request of this requester past the checks and the limiter. -/
def AcceptsRequest (k : Crypto) (kind : RequestKind) (requester : Mac) (s : OgmAuth c)
    (op : RequestOp) : Prop :=
  ∃ body cert nonce signature, op = .request kind body ∧
    Genuine k s kind body cert nonce signature ∧ cert.nodeMac = requester ∧
    (Limiter.accept (kind.rates s) kind.limit s.now requester).2 = true

/-- The step accepts a request that takes the row of this requester. -/
def Overwrites (k : Crypto) (kind : RequestKind) (requester : Mac) (s : OgmAuth c)
    (op : RequestOp) : Prop :=
  ∃ other, AcceptsRequest k kind other s op ∧ Limiter.Displaces (kind.rates s) requester other

/-! ### One request -/

section Request
variable {k : Crypto} {s : OgmAuth c} {kind : RequestKind} {body nonce : Bytes}
  {cert : MembershipCert} {signature : Octets 64}

theorem acceptCertRequestRate_eq (requester : Mac) : s.acceptCertRequestRate requester =
    ({ s with certReqRate := (Limiter.accept s.certReqRate certReqRateLimit s.now requester).1 },
      (Limiter.accept s.certReqRate certReqRateLimit s.now requester).2) := by
  unfold acceptCertRequestRate Limiter.accept
  cases s.certReqRate.find? requester with
  | none => rfl
  | some entry =>
    dsimp only
    by_cases hearly : s.now - entry.2 < certReqRateLimit
    · rw [if_pos hearly, if_pos hearly]
    · rw [if_neg hearly, if_neg hearly]

theorem acceptRenewalRequestRate_eq (requester : Mac) : s.acceptRenewalRequestRate requester =
    ({ s with renewReqRate := (Limiter.accept s.renewReqRate renewReqRateLimit s.now requester).1 },
      (Limiter.accept s.renewReqRate renewReqRateLimit s.now requester).2) := by
  unfold acceptRenewalRequestRate Limiter.accept
  cases s.renewReqRate.find? requester with
  | none => rfl
  | some entry =>
    dsimp only
    by_cases hearly : s.now - entry.2 < renewReqRateLimit
    · rw [if_pos hearly, if_pos hearly]
    · rw [if_neg hearly, if_neg hearly]

theorem Genuine.length_eq (h : Genuine k s kind body cert nonce signature) :
    body.length = MembershipCert.size + kind.nonceLen + sigLen := by
  rw [h.parsed, List.length_append, List.length_append, MembershipCert.asBytes_length,
    h.nonceLen, Octets.length_eq, Nat.add_assoc]
  rfl

/-- A body can be read in one way only. -/
theorem Genuine.unique {cert' : MembershipCert} {nonce' : Bytes} {signature' : Octets 64}
    (h : Genuine k s kind body cert nonce signature)
    (hparsed : body = cert'.asBytes ++ (nonce' ++ signature'.toList))
    (hlen : nonce'.length = kind.nonceLen) :
    cert = cert' ∧ nonce = nonce' ∧ signature = signature' := by
  have hread := MembershipCert.readFromPrefix_asBytes cert (nonce ++ signature.toList)
  rw [← h.parsed, hparsed, MembershipCert.readFromPrefix_asBytes] at hread
  obtain ⟨rfl, htail⟩ := Prod.mk.inj (Option.some.inj hread)
  obtain ⟨rfl, hsig⟩ := List.append_inj htail (hlen.trans h.nonceLen.symm)
  have hread := Octets.tryFrom_toList signature
  rw [← hsig, Octets.tryFrom_toList] at hread
  exact ⟨rfl, rfl, (Option.some.inj hread).symm⟩

/-- A request is dropped by a check and changes nothing, or it is genuine, and the limiter
takes it or leaves it. -/
inductive Judged (k : Crypto) (s : OgmAuth c) (kind : RequestKind) (body : Bytes)
    (s' : OgmAuth c) (answer : Option Mac) : Prop where
  | dropped (forged : ∀ cert nonce signature, ¬ Genuine k s kind body cert nonce signature)
      (same : s' = s) (unanswered : answer = none)
  | limited (cert : MembershipCert) (nonce : Bytes) (signature : Octets 64)
      (genuine : Genuine k s kind body cert nonce signature)
      (rates : ∀ kind', kind'.rates s' = if kind' = kind then
        (Limiter.accept (kind.rates s) kind.limit s.now cert.nodeMac).1 else kind'.rates s)
      (admitted : ∀ mac ∈ answer, cert.nodeMac = mac ∧
        (Limiter.accept (kind.rates s) kind.limit s.now mac).2 = true)

theorem cacheNeighbor_rates (keys : NeighborKeys) (kind : RequestKind) :
    kind.rates (s.cacheNeighbor keys).1 = kind.rates s := by
  unfold cacheNeighbor
  split
  · rfl
  · cases kind <;> rfl

/-- Of a body that was read, only the reading has to be judged. -/
theorem Judged.dropped_of_read (hparsed : body = cert.asBytes ++ (nonce ++ signature.toList))
    (hlen : nonce.length = kind.nonceLen)
    (h : ¬ Genuine k s kind body cert nonce signature) : Judged k s kind body s none := by
  apply Judged.dropped _ rfl rfl
  intro cert' nonce' signature' h'
  obtain ⟨rfl, rfl, rfl⟩ := h'.unique hparsed hlen
  exact h h'

theorem verifyCertRequest_judged (k : Crypto) (s : OgmAuth c) (body : Bytes) :
    Judged k s .cert body (s.verifyCertRequest k body).1 (s.verifyCertRequest k body).2 := by
  unfold verifyCertRequest
  split
  · rename_i hlen
    apply Judged.dropped _ rfl rfl
    intro cert nonce signature h
    exact hlen h.length_eq
  rename_i hlen
  split
  · rename_i hread
    apply Judged.dropped _ rfl rfl
    intro cert nonce signature h
    rw [h.parsed, MembershipCert.readFromPrefix_asBytes] at hread
    cases hread
  rename_i cert sigBytes hread
  have hbody := MembershipCert.asBytes_of_readFromPrefix hread
  split
  · rename_i hsig
    apply Judged.dropped _ rfl rfl
    intro cert' nonce signature h
    rw [h.parsed, MembershipCert.readFromPrefix_asBytes] at hread
    obtain ⟨_, rfl⟩ := Prod.mk.inj (Option.some.inj hread)
    obtain rfl := List.eq_nil_of_length_eq_zero h.nonceLen
    rw [List.nil_append, Octets.tryFrom_toList] at hsig
    cases hsig
  rename_i signature hsig
  obtain rfl := Octets.toList_of_tryFrom hsig
  have hparsed : body = cert.asBytes ++ ([] ++ signature.toList) := hbody
  split
  · rename_i hverify
    apply Judged.dropped_of_read hparsed rfl
    intro h
    rw [h.anchored] at hverify
    cases hverify
  rename_i verified hverify
  obtain ⟨_, _, rfl⟩ := TrustAnchor.verifyCert_ok.mp hverify
  split
  · rename_i hrevoked
    apply Judged.dropped_of_read hparsed rfl
    intro h
    rw [h.unrevoked] at hrevoked
    cases hrevoked
  rename_i hrevoked
  split
  · rename_i hforged
    apply Judged.dropped_of_read hparsed rfl
    intro h
    rw [Bool.not_eq_true'] at hforged
    exact absurd h.signed (Bool.eq_false_iff.mp hforged)
  rename_i hforged
  rw [Bool.not_eq_true', Bool.not_eq_false] at hforged
  split
  · rename_i hlocked
    apply Judged.dropped_of_read hparsed rfl
    intro h
    exact absurd hlocked (Bool.eq_false_iff.mp h.unlocked)
  rename_i hlocked
  have hgenuine : Genuine k s .cert body cert [] signature :=
    ⟨hparsed, rfl, hverify, Bool.eq_false_iff.mpr hrevoked, hforged,
      Bool.eq_false_iff.mpr hlocked⟩
  have hrated := acceptCertRequestRate_eq (s := s) cert.facts.mac
  generalize s.acceptCertRequestRate cert.facts.mac = rated at hrated
  obtain ⟨s₁, _ | _⟩ := rated
  · obtain ⟨rfl, hrefused⟩ := Prod.mk.inj hrated
    apply Judged.limited cert [] signature hgenuine
    · intro kind
      cases kind <;> rfl
    · intro mac hmac
      cases hmac
  · obtain ⟨rfl, hadmitted⟩ := Prod.mk.inj hrated
    dsimp only
    split
    · apply Judged.limited cert [] signature hgenuine
      · intro kind
        cases kind <;> rfl
      · intro mac hmac
        cases hmac
    · apply Judged.limited cert [] signature hgenuine
      · intro kind
        rw [cacheNeighbor_rates]
        cases kind <;> rfl
      · intro mac hmac
        obtain rfl := Option.some_inj.mp hmac
        exact ⟨rfl, hadmitted.symm⟩

theorem verifyRenewalRequest_judged (k : Crypto) (s : OgmAuth c) (body : Bytes) :
    Judged k s .renew body (s.verifyRenewalRequest k body).1
      ((s.verifyRenewalRequest k body).2.map VerifiedRenewal.mac) := by
  unfold verifyRenewalRequest
  split
  · rename_i hlen
    apply Judged.dropped _ rfl rfl
    intro cert nonce signature h
    exact hlen h.length_eq
  rename_i hlen
  split
  · rename_i hread
    apply Judged.dropped _ rfl rfl
    intro cert nonce signature h
    rw [h.parsed, MembershipCert.readFromPrefix_asBytes] at hread
    cases hread
  rename_i cert rest hread
  have hbody := MembershipCert.asBytes_of_readFromPrefix hread
  have hrest : rest.length = renewalNonceLen + sigLen := by
    rw [not_not, hbody, List.length_append, MembershipCert.asBytes_length] at hlen
    omega
  split
  · rename_i hnonce
    rw [Octets.readFromPrefix, dif_pos (by rw [hrest]; decide)] at hnonce
    cases hnonce
  rename_i nonce sigBytes hnonce
  obtain rfl := Octets.append_of_readFromPrefix hnonce
  split
  · rename_i signature verified hsig hverify
    obtain rfl := Octets.toList_of_tryFrom hsig
    have hlen : nonce.toList.length = RequestKind.renew.nonceLen := nonce.length_eq
    obtain ⟨_, _, rfl⟩ := TrustAnchor.verifyCert_ok.mp hverify
    split
    · rename_i hrevoked
      apply Judged.dropped_of_read hbody hlen
      intro h
      rw [h.unrevoked] at hrevoked
      cases hrevoked
    rename_i hrevoked
    split
    · rename_i hforged
      apply Judged.dropped_of_read hbody hlen
      intro h
      rw [Bool.not_eq_true'] at hforged
      exact absurd h.signed (Bool.eq_false_iff.mp hforged)
    rename_i hforged
    rw [Bool.not_eq_true', Bool.not_eq_false] at hforged
    split
    · rename_i hlocked
      apply Judged.dropped_of_read hbody hlen
      intro h
      exact absurd hlocked (Bool.eq_false_iff.mp h.unlocked)
    rename_i hlocked
    have hgenuine : Genuine k s .renew body cert nonce.toList signature :=
      ⟨hbody, hlen, hverify, Bool.eq_false_iff.mpr hrevoked, hforged,
        Bool.eq_false_iff.mpr hlocked⟩
    have hrated := acceptRenewalRequestRate_eq (s := s) cert.facts.mac
    generalize s.acceptRenewalRequestRate cert.facts.mac = rated at hrated
    obtain ⟨s₁, _ | _⟩ := rated
    · obtain ⟨rfl, hrefused⟩ := Prod.mk.inj hrated
      apply Judged.limited cert nonce.toList signature hgenuine
      · intro kind
        cases kind <;> rfl
      · intro mac hmac
        cases hmac
    · obtain ⟨rfl, hadmitted⟩ := Prod.mk.inj hrated
      apply Judged.limited cert nonce.toList signature hgenuine
      · intro kind
        cases kind <;> rfl
      · intro mac hmac
        obtain rfl := Option.some_inj.mp hmac
        exact ⟨rfl, hadmitted.symm⟩
  · rename_i hneither
    apply Judged.dropped _ rfl rfl
    intro cert' nonce' signature h
    rw [h.parsed, MembershipCert.readFromPrefix_asBytes] at hread
    obtain ⟨rfl, htail⟩ := Prod.mk.inj (Option.some.inj hread)
    obtain ⟨_, rfl⟩ := List.append_inj htail (h.nonceLen.trans nonce.length_eq.symm)
    exact hneither signature cert'.facts (Octets.tryFrom_toList signature) h.anchored

theorem requestStep_judged (k : Crypto) (s : OgmAuth c) (kind : RequestKind) (body : Bytes) :
    ∃ answer, Judged k s kind body (s.requestStep k (.request kind body)) answer := by
  cases kind with
  | cert => exact ⟨_, verifyCertRequest_judged k s body⟩
  | renew => exact ⟨_, verifyRenewalRequest_judged k s body⟩

theorem setTime_rates (now : Duration) (wall : Clocked) (kind : RequestKind) :
    kind.rates (s.setTime now wall) = kind.rates s := by
  obtain ⟨_, _, _, heq⟩ := s.setTime_frame now wall
  rw [heq]
  cases kind <;> rfl

theorem Judged.accepts {s' : OgmAuth c} {answer : Option Mac} {mac : Mac}
    (h : Judged k s kind body s' answer) (hanswer : answer = some mac) :
    AcceptsRequest k kind mac s (.request kind body) := by
  cases h with
  | dropped forged same unanswered =>
    rw [unanswered] at hanswer
    cases hanswer
  | limited cert nonce signature genuine rates admitted =>
    obtain ⟨hmac, haccept⟩ := admitted mac hanswer
    exact ⟨body, cert, nonce, signature, rfl, genuine, hmac, haccept⟩

/-- Whoever is answered was accepted. -/
theorem accepts_of_answered {mac : Mac} (h : (s.verifyCertRequest k body).2 = some mac) :
    AcceptsRequest k .cert mac s (.request .cert body) :=
  (verifyCertRequest_judged k s body).accepts h

/-! ### Runs -/

variable {requester : Mac} {op : RequestOp} {until' : Nat}

/-- No request that a check drops spends a slot, or anything else. -/
theorem requestStep_of_forged
    (h : ∀ cert nonce signature, ¬ Genuine k s kind body cert nonce signature) :
    s.requestStep k (.request kind body) = s := by
  obtain ⟨answer, hjudged⟩ := requestStep_judged k s kind body
  cases hjudged with
  | dropped forged same unanswered => exact same
  | limited cert nonce signature genuine rates admitted =>
    exact absurd genuine (h cert nonce signature)

theorem barred_of_accepts (hroom : 0 < c.maxNeighborKeys)
    (h : AcceptsRequest k kind requester s op) :
    Limiter.Barred (kind.rates (s.requestStep k op)) kind.limit requester
      (s.now + kind.limit) := by
  obtain ⟨body, cert, nonce, signature, rfl, hgenuine, rfl, haccept⟩ := h
  obtain ⟨answer, hjudged⟩ := requestStep_judged k s kind body
  cases hjudged with
  | dropped forged same unanswered => exact absurd hgenuine (forged cert nonce signature)
  | limited cert' nonce' signature' genuine rates admitted =>
    obtain ⟨rfl, _, _⟩ := genuine.unique hgenuine.parsed hgenuine.nonceLen
    rw [rates kind, if_pos rfl]
    exact Limiter.barred_of_admitted hroom haccept

theorem barred_step
    (h : Limiter.Barred (kind.rates s) kind.limit requester until') (op : RequestOp) :
    Limiter.Barred (kind.rates (s.requestStep k op)) kind.limit requester until' ∨
      Overwrites k kind requester s op := by
  cases op with
  | setTime now wall =>
    left
    rw [requestStep, setTime_rates]
    exact h
  | request kind' body =>
    obtain ⟨answer, hjudged⟩ := requestStep_judged k s kind' body
    cases hjudged with
    | dropped forged same unanswered =>
      rw [same]
      exact Or.inl h
    | limited cert nonce signature genuine rates admitted =>
      rw [rates kind]
      by_cases hkind : kind = kind'
      · obtain rfl := hkind
        rw [if_pos rfl]
        rcases h.accept s.now cert.nodeMac kind.limit_pos with
          hkept | ⟨haccept, hdisplaces⟩
        · exact Or.inl hkept
        · exact Or.inr ⟨cert.nodeMac,
            ⟨body, cert, nonce, signature, rfl, genuine, rfl, haccept⟩, hdisplaces⟩
      · rw [if_neg hkind]
        exact Or.inl h

/-- A request that fails a check leaves the node as it was; and two accepted requests of one
kind by one requester lie its limit apart, unless in between a new requester took the row of
this one in a full table. -/
theorem requests_limited (k : Crypto) (s : OgmAuth c) (hroom : 0 < c.maxNeighborKeys)
    (ops : List RequestOp) :
    (∀ kind body, (∀ cert nonce signature, ¬ Genuine k s kind body cert nonce signature) →
      s.requestStep k (.request kind body) = s) ∧
    ∀ kind requester, Run.Spaced (requestStep k) (AcceptsRequest k kind requester) OgmAuth.now
      kind.limit (Overwrites k kind requester) s ops := by
  constructor
  · intro kind body h
    exact requestStep_of_forged h
  · intro kind requester
    apply Run.spaced (fun until' s => Limiter.Barred (kind.rates s) kind.limit requester until')
    · intro s op h
      exact barred_of_accepts hroom h
    · intro until' s op h
      exact barred_step h op
    · intro until' s op hbarred h
      obtain ⟨_, _, _, _, _, _, _, haccept⟩ := h
      exact Or.inl (Limiter.le_of_admitted kind.limit_pos hbarred haccept)

end Request

end OgmAuth

namespace SmallMesh
open OgmAuth

/-- What nodes 2 and 4 sign when they ask node 3 for its certificate. -/
def requestSignature2 : Octets 64 := signatureOf
  0xb851a06da8de2f7238deffde2d5cc2696155766a91af38a4c4b52aed1b29e4fd
  0xb15372e413f75e717fd5dccbb7c0b75033e2314d119b255d363c791ab54a0a09

def requestSignature4 : Octets 64 := signatureOf
  0x863af0ab186315f1adce77977203ed07fea064d890e5ee9863d102b8b985a625
  0x95507f5cee399d73d9312545b8a4e652e78a490bde89a2ccfa39790471788e07

def requestCrypto : Crypto :=
  { crypto with
    verifySignature := fun pubkey msg signature => (pubkey, msg, signature) ∈ signatures ++
      [(anchor.rootPubkey, cert4.signedBody, cert4.signature),
        (cert2.edPubkey, certReqMessage cert3.nodeMac mac2, requestSignature2),
        (cert4.edPubkey, certReqMessage cert3.nodeMac cert4.nodeMac, requestSignature4)]
    blake2s256 := fun msg => if msg = macDeriveLabel ++ cert4.edPubkey.toList then
        .be 32 0xbc717c008e633dac170fa3753a942c08efe0491645162d07725d3355737bf052
      else crypto.blake2s256 msg }

def request2 : RequestOp := .request .cert (cert2.asBytes ++ requestSignature2.toList)
def request4 : RequestOp := .request .cert (cert4.asBytes ++ requestSignature4.toList)

theorem requests_limited_later :
    Run.Spaced (requestStep requestCrypto) (AcceptsRequest requestCrypto .cert mac2) OgmAuth.now
      RequestKind.cert.limit (Overwrites requestCrypto .cert mac2) (node3 0)
      [request2, request4, .setTime certReqRateLimit .unknown, request2] :=
  (requests_limited requestCrypto (node3 0) (by decide) _).2 .cert mac2

/-- Node 3 with one row in each table of requesters. -/
def narrowNode3 : OgmAuth ⟨1, 2, 2, 2⟩ :=
  (OgmAuth.withCapacities _ (keypair 3) cert3 anchor).setTime 0 (.at 0)

/-- Node 4 takes the only row, and node 2 is accepted twice at one instant. -/
theorem narrowNode3_unlimited :
    ¬ Run.Spaced (requestStep requestCrypto) (AcceptsRequest requestCrypto .cert mac2) OgmAuth.now
      RequestKind.cert.limit (fun _ _ => False) narrowNode3 [request2, request4, request2] := by
  intro h
  have hfirst : AcceptsRequest requestCrypto .cert mac2 narrowNode3 request2 :=
    accepts_of_answered (by decide +kernel)
  have hsecond : AcceptsRequest requestCrypto .cert mac2
      (Run.run (requestStep requestCrypto) narrowNode3 [request2, request4]) request2 :=
    accepts_of_answered (by decide +kernel)
  rcases h [] request2 [request4] request2 List.prefix_rfl hfirst hsecond with hapart | hlifted
  · revert hapart
    decide +kernel
  · obtain ⟨_, _, _, himpossible⟩ := hlifted
    exact himpossible

end SmallMesh

end Wayfinder

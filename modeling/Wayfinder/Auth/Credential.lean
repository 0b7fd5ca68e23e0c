import Wayfinder.Auth.Control
import Wayfinder.Auth.Rows

/-!
# The credential a node runs under

Every public operation of the auth state as one call, and what each does to the node's
own certificate. A renewal moves the certificate forward: the reply must answer an
outstanding request, name the same node and key, and end later without beginning
earlier, so no certificate comes back once it has been superseded.
-/

namespace Wayfinder

set_option autoImplicit false

open Table

def certRenewalFraction : Nat := 4

/-- The start of the last quarter of the window. -/
def MembershipCert.renewFrom (cert : MembershipCert) : Nat :=
  let window := cert.notAfter.get - cert.notBefore.get
  cert.notAfter.get - window / certRenewalFraction

namespace OgmAuth

variable {c : AuthCapacities} {e : Capacities}

/-! ### Asking and answering over the mesh -/

def renewalDue (s : OgmAuth c) : Bool := s.wall.provesPast s.cert.renewFrom

/-- The request of a node in its renewal window, when it knows whom to ask and by which
hop. -/
def askAuthority (k : Crypto) (s : OgmAuth c) (paths : BatmanEngine e) (now : Duration)
    (bufLen : Nat) : OgmAuth c × Option LinkFrameData :=
  if !s.renewalDue then (s, none)
  else
    match s.renewalAuthority with
    | none => (s, none)
    | some ca =>
      match paths.nextHop now ca with
      | none => (s, none)
      | some next =>
        if bufLen < BatmanUnicastPacket.size then (s, none)
        else
          match s.buildRenewalRequest k (bufLen - BatmanUnicastPacket.size) with
          | (s, none) => (s, none)
          | (s, some body) => (s, some ⟨next, ethPBatman, credentialHeader .renewReq ca ++ body⟩)

/-- At most one request; the deadline advances whatever is decided. -/
def pollRenewal (k : Crypto) (s : OgmAuth c) (paths : BatmanEngine e) (now : Duration)
    (bufLen : Nat) : OgmAuth c × Option LinkFrameData :=
  if now < s.nextRenewalPoll then (s, none)
  else askAuthority k { s with nextRenewalPoll := now + renewalPollInterval } paths now bufLen

/-- The authority's half; the auth state lends nothing but its place. -/
def sendRenewReply (paths : BatmanEngine e) (now : Duration) (requester : Mac)
    (cert : MembershipCert) (bufLen : Nat) : Option LinkFrameData :=
  match paths.nextHop now requester with
  | none => none
  | some next =>
    if bufLen < BatmanUnicastPacket.size + MembershipCert.size then none
    else some ⟨next, ethPBatman, credentialHeader .renewReply requester ++ cert.asBytes⟩

end OgmAuth

/-- The public operations of the auth state. -/
inductive AuthCall (e : Capacities) where
  | state (op : StateOp)
  | takeTrickleResetHint
  | setRenewalAuthority (providerKey : Option (Octets 32))
  | takeRenewedCert
  | takeRenewalRequest
  | buildCertReqFrame (orig : Mac) (fp : Octets 8) (firstHop : Mac) (bufLen : Nat)
  | answerCertRequest (paths : BatmanEngine e) (now : Duration) (body : Bytes) (replyLen : Nat)
  | flushPendingCertReply (paths : BatmanEngine e) (now : Duration) (orig : Mac) (replyLen : Nat)
  | parkPendingReply (requester : Mac)
  | clearPendingReply (requester : Mac)
  | buildChallengeFrame (target : Mac) (bufLen : Nat)
  | pollRenewal (paths : BatmanEngine e) (now : Duration) (bufLen : Nat)

namespace OgmAuth

variable {c : AuthCapacities} {e : Capacities}

def call (k : Crypto) (s : OgmAuth c) : AuthCall e → OgmAuth c
  | .state op => s.after k op
  | .takeTrickleResetHint => s.takeTrickleResetHint.1
  | .setRenewalAuthority providerKey => s.setRenewalAuthority k providerKey
  | .takeRenewedCert => s.takeRenewedCert.1
  | .takeRenewalRequest => s.takeRenewalRequest.1
  | .buildCertReqFrame orig fp firstHop bufLen =>
    (s.buildCertReqFrame k orig fp firstHop bufLen).1
  | .answerCertRequest paths now body replyLen =>
    (s.answerCertRequest k paths now body replyLen).1
  | .flushPendingCertReply paths now orig replyLen =>
    (s.flushPendingCertReply paths now orig replyLen).1
  | .parkPendingReply requester => s.parkPendingReply requester
  | .clearPendingReply requester => s.clearPendingReply requester
  | .buildChallengeFrame target bufLen => (s.buildChallengeFrame k target bufLen).1
  | .pollRenewal paths now bufLen => (s.pollRenewal k paths now bufLen).1

end OgmAuth

/-- What a call contributes to the renewal exchange. -/
inductive RenewalEvent where
  | asked (now : Duration)
  | installed (cert : MembershipCert)

namespace RenewalEvent

def askedAt : RenewalEvent → Option Duration
  | .asked now => some now
  | .installed _ => none

def installs : RenewalEvent → Option MembershipCert
  | .asked _ => none
  | .installed cert => some cert

end RenewalEvent

namespace OgmAuth

variable {c : AuthCapacities} {e : Capacities}

def renewalEvent (k : Crypto) (s : OgmAuth c) : AuthCall e → Option RenewalEvent
  | .state (.buildRenewalRequest bufLen) =>
    (s.buildRenewalRequest k bufLen).2.map fun _ => .asked s.now
  | .pollRenewal paths now bufLen =>
    (s.pollRenewal k paths now bufLen).2.map fun _ => .asked s.now
  | .state (.ingestRenewReply body) =>
    if (s.ingestRenewReply k body).2 then some (.installed (s.ingestRenewReply k body).1.cert)
    else none
  | _ => none

/-- The same node and key, a window that ends later and does not begin earlier. -/
structure Forward (old new : MembershipCert) : Prop where
  nodeMac : new.nodeMac = old.nodeMac
  edPubkey : new.edPubkey = old.edPubkey
  notAfter : old.notAfter.get < new.notAfter.get
  notBefore : old.notBefore.get ≤ new.notBefore.get

/-- The node's keys and certificate are left alone, and no request is made of it. -/
structure CredentialKept (s s' : OgmAuth c) : Prop where
  keypair : s'.keypair = s.keypair
  cert : s'.cert = s.cert
  outstandingRenewal : s'.outstandingRenewal = s.outstandingRenewal ∨ s'.outstandingRenewal = none

section Kept
variable {k : Crypto} {s s' s'' : OgmAuth c}

theorem CredentialKept.refl (s : OgmAuth c) : CredentialKept s s := ⟨rfl, rfl, Or.inl rfl⟩

theorem CredentialKept.trans (h : CredentialKept s s') (h' : CredentialKept s' s'') :
    CredentialKept s s'' := by
  refine ⟨h'.keypair.trans h.keypair, h'.cert.trans h.cert, ?_⟩
  cases h'.outstandingRenewal with
  | inl hsame =>
    rw [hsame]
    exact h.outstandingRenewal
  | inr hnone => exact Or.inr hnone

theorem Kept.credentialKept (h : Kept s s') : CredentialKept s s' :=
  ⟨h.keypair, h.cert, Or.inl h.outstandingRenewal⟩

theorem cacheNeighbor_credentialKept (s : OgmAuth c) (keys : NeighborKeys) :
    CredentialKept s (s.cacheNeighbor keys).1 := by
  unfold cacheNeighbor
  split
  · exact .refl s
  · exact ⟨rfl, rfl, Or.inl rfl⟩

theorem ingestAll_credentialKept (k : Crypto) (s : OgmAuth c) (records : List RevocationRecord) :
    CredentialKept s (s.ingestAll k records) := by
  induction records generalizing s with
  | nil => exact .refl s
  | cons record rest ih =>
    refine CredentialKept.trans ?_ (ih (s.ingestRevocation k record).1)
    rcases ingestRevocation_cases k s record with ⟨_, _, heq⟩ | ⟨_, latch, heq⟩
    · rw [heq]
      exact ⟨rfl, rfl, Or.inl rfl⟩
    · rw [heq]
      exact ⟨rfl, rfl, Or.inl rfl⟩

theorem setTime_credentialKept (s : OgmAuth c) (now : Duration) (wall : Clocked) :
    CredentialKept s (s.setTime now wall) := by
  obtain ⟨revocations, neighbors, keyGeneration, heq⟩ := s.setTime_frame now wall
  rw [heq]
  refine ⟨rfl, rfl, ?_⟩
  unfold reclaimBookkeeping
  dsimp only
  cases s.outstandingRenewal with
  | none => exact Or.inl rfl
  | some asked =>
    rw [Option.filter_some]
    split
    · exact Or.inl rfl
    · exact Or.inr rfl

theorem step_credentialKept (k : Crypto) (s : OgmAuth c) (op : AuthOp) :
    CredentialKept s (s.step k op) := by
  cases op with
  | verifyOgm payload =>
    rcases verifyOgm_cases k s payload with ⟨_, hkept⟩ | ⟨_, _, tail, s₁, keys, _, hkept, _, heq⟩
    · exact hkept.credentialKept
    · rw [step, heq]
      exact (hkept.credentialKept.trans (s₁.cacheNeighbor_credentialKept keys)).trans
        (ingestAll_credentialKept k _ _)
  | ingestCertReply body =>
    rcases ingestCertReply_cases k s body with ⟨_, hkept⟩ | ⟨_, _, _, keys, _, _, _, hkept⟩
    · exact hkept.credentialKept
    · exact (s.cacheNeighbor_credentialKept keys).trans hkept.credentialKept
  | verifyCertRequest body =>
    rcases verifyCertRequest_cases k s body with ⟨_, hkept⟩ | ⟨_, _, s₁, keys, hkept, _, _, heq⟩
    · exact hkept.credentialKept
    · rw [step, heq]
      exact hkept.credentialKept.trans (s₁.cacheNeighbor_credentialKept keys)
  | buildCertRequest orig fp firstHop bufLen =>
    exact (buildCertRequest_booked orig fp firstHop bufLen).credentialKept
  | ingestRevocation record => exact ingestAll_credentialKept k s [record]
  | takeSelfRevoked =>
    obtain ⟨latch, heq⟩ := s.takeSelfRevoked_frame
    rw [step, heq]
    exact ⟨rfl, rfl, Or.inl rfl⟩
  | setTime now wall => exact s.setTime_credentialKept now wall
  | pruneExpired =>
    obtain ⟨revocations, heq⟩ := s.pruneExpired_frame
    rw [step, heq]
    exact ⟨rfl, rfl, Or.inl rfl⟩

theorem HandsOver.credentialKept {src : Mac} {counter : Option Nat} {r : OgmAuth c × Bool}
    (h : s.HandsOver src counter r) : CredentialKept s r.1 := by
  obtain ⟨counters, heq⟩ := h.frame
  rw [heq]
  exact ⟨rfl, rfl, Or.inl rfl⟩

/-- Only the two ends of the renewal exchange touch the credential. -/
theorem after_credentialKept (op : StateOp) (hask : ∀ bufLen, op ≠ .buildRenewalRequest bufLen)
    (hreply : ∀ body, op ≠ .ingestRenewReply body) : CredentialKept s (s.after k op) := by
  cases op with
  | auth op' => exact s.step_credentialKept k op'
  | buildRenewalRequest bufLen => exact absurd rfl (hask bufLen)
  | ingestRenewReply body => exact absurd rfl (hreply body)
  | verifyDirected src frame trailer =>
    exact (verifyDirected_handsOver k s src frame trailer).credentialKept
  | verifyDirectedNonceFresh src frame trailer =>
    obtain ⟨counters, claim, heq⟩ := verifyDirectedNonceFresh_frame k s src frame trailer
    rw [after, perform, heq]
    exact ⟨rfl, rfl, Or.inl rfl⟩
  | verifyFanout src frame trailer =>
    exact (verifyFanout_handsOver k s src frame trailer).credentialKept
  | verifyKeepalive src payload => exact (verifyKeepalive_handsOver k s src payload).credentialKept
  | issueChallenge neighbor =>
    rcases issueChallenge_cases k s neighbor with heq | ⟨_, _, _, _, _, _, heq⟩
    · rw [after, perform, heq]
      exact .refl s
    · rw [after, perform, heq]
      exact ⟨rfl, rfl, Or.inl rfl⟩
  | verifyChallengeResponse neighbor tag =>
    rcases verifyChallengeResponse_cases k s neighbor tag with
      ⟨_, _, heq⟩ | ⟨_, _, _, _, heq, _⟩
    · rw [after, perform, heq]
      exact ⟨rfl, rfl, Or.inl rfl⟩
    · rw [after, perform, heq]
      exact ⟨rfl, rfl, Or.inl rfl⟩
  | tagDirected dst frame trailerLen =>
    exact (tagDirected_booked k s dst frame trailerLen).credentialKept
  | signFanout frame trailerLen => exact (signFanout_booked k s frame trailerLen).credentialKept
  | augmentKeepalive len bufLen => exact (augmentKeepalive_booked k s len bufLen).credentialKept
  | augmentOgm base bufLen lazy =>
    rcases augmentOgm_cases k s base bufLen lazy with heq | ⟨sent, heq⟩
    · rw [after, perform, heq]
      exact .refl s
    · rw [after, perform, heq]
      exact ⟨rfl, rfl, Or.inl rfl⟩
  | handleRenewReq body => exact (handleRenewReq_booked k s body).credentialKept

end Kept

/-! ### What a call does to the credential -/

section Calls
variable {k : Crypto} {s : OgmAuth c}

/-- A request is outstanding from now on exactly if there is something to send. -/
structure Asks {α : Type} (s : OgmAuth c) (r : OgmAuth c × Option α) : Prop where
  keypair : r.1.keypair = s.keypair
  cert : r.1.cert = s.cert
  outstandingRenewal :
    r.1.outstandingRenewal = if r.2.isSome then some s.now else s.outstandingRenewal

theorem buildRenewalRequest_asks (k : Crypto) (s : OgmAuth c) (bufLen : Nat) :
    Asks s (s.buildRenewalRequest k bufLen) := by
  unfold buildRenewalRequest
  split
  · exact ⟨rfl, rfl, rfl⟩
  split
  · dsimp only
    split
    · exact ⟨rfl, rfl, rfl⟩
    · exact ⟨rfl, rfl, rfl⟩
  · exact ⟨rfl, rfl, rfl⟩

theorem askAuthority_asks (k : Crypto) (s : OgmAuth c) (paths : BatmanEngine e)
    (now : Duration) (bufLen : Nat) : Asks s (s.askAuthority k paths now bufLen) := by
  unfold askAuthority
  split
  · exact ⟨rfl, rfl, rfl⟩
  split
  · exact ⟨rfl, rfl, rfl⟩
  split
  · exact ⟨rfl, rfl, rfl⟩
  split
  · exact ⟨rfl, rfl, rfl⟩
  have hbuilt := buildRenewalRequest_asks k s (bufLen - BatmanUnicastPacket.size)
  generalize s.buildRenewalRequest k (bufLen - BatmanUnicastPacket.size) = built at hbuilt ⊢
  obtain ⟨s', _ | body⟩ := built
  · exact ⟨hbuilt.keypair, hbuilt.cert, hbuilt.outstandingRenewal⟩
  · exact ⟨hbuilt.keypair, hbuilt.cert, hbuilt.outstandingRenewal⟩

theorem pollRenewal_asks (k : Crypto) (s : OgmAuth c) (paths : BatmanEngine e)
    (now : Duration) (bufLen : Nat) : Asks s (s.pollRenewal k paths now bufLen) := by
  unfold pollRenewal
  split
  · exact ⟨rfl, rfl, rfl⟩
  · have hasks := askAuthority_asks k { s with nextRenewalPoll := now + renewalPollInterval }
      paths now bufLen
    exact ⟨hasks.keypair, hasks.cert, hasks.outstandingRenewal⟩

/-- A reply is dropped with nothing changed, or it moves the certificate forward and
uses up the outstanding request. -/
theorem ingestRenewReply_forward (k : Crypto) (s : OgmAuth c) (body : Bytes) :
    s.ingestRenewReply k body = (s, false) ∨
      (s.ingestRenewReply k body).2 = true ∧
        Forward s.cert (s.ingestRenewReply k body).1.cert ∧
        (s.ingestRenewReply k body).1.outstandingRenewal = none ∧
        ∃ asked, s.outstandingRenewal = some asked ∧ s.now - asked < outstandingRenewalTtl := by
  rcases ingestRenewReply_cases k s body with ⟨_, heq⟩ | ⟨cert, hcert, heq⟩
  · exact Or.inl heq
  rw [heq]
  refine Or.inr ⟨rfl, ?_, rfl, ?_⟩
  · unfold renewedCert at hcert
    split at hcert
    · cases hcert
    split at hcert
    · cases hcert
    split at hcert
    · cases hcert
    rename_i verified hverify
    obtain ⟨_, _, rfl⟩ := TrustAnchor.verifyCert_ok.mp hverify
    split at hcert
    · cases hcert
    rename_i hnames
    split at hcert
    · cases hcert
    rename_i hwindow
    obtain rfl := Option.some.inj hcert
    obtain ⟨hmac, hkey⟩ := not_or.mp hnames
    obtain ⟨hafter, hbefore⟩ := not_or.mp hwindow
    exact ⟨not_not.mp hmac, not_not.mp hkey, Nat.not_le.mp hafter, Nat.not_lt.mp hbefore⟩
  · unfold renewedCert at hcert
    split at hcert
    · cases hcert
    split at hcert
    · cases hcert
    rename_i hout
    have hany : s.renewalOutstanding = true := by simpa using hout
    obtain ⟨asked, hasked, hfresh⟩ := (Option.any_eq_true _ _).mp hany
    exact ⟨asked, hasked, of_decide_eq_true hfresh⟩

theorem buildCertReqFrame_credentialKept (orig : Mac) (fp : Octets 8) (firstHop : Mac)
    (bufLen : Nat) : CredentialKept s (s.buildCertReqFrame k orig fp firstHop bufLen).1 := by
  have hbuilt := buildCertRequest_booked (k := k) (s := s) orig fp firstHop
    (bufLen - BatmanUnicastPacket.size)
  unfold buildCertReqFrame
  split
  · exact .refl s
  generalize s.buildCertRequest k orig fp firstHop _ = built at hbuilt ⊢
  obtain ⟨s', _ | body⟩ := built
  · exact hbuilt.credentialKept
  · exact hbuilt.credentialKept

theorem answerCertRequest_credentialKept (paths : BatmanEngine e) (now : Duration) (body : Bytes)
    (replyLen : Nat) : CredentialKept s (s.answerCertRequest k paths now body replyLen).1 := by
  have hverified : CredentialKept s (s.verifyCertRequest k body).1 :=
    s.step_credentialKept k (.verifyCertRequest body)
  unfold answerCertRequest
  generalize s.verifyCertRequest k body = verified at hverified ⊢
  obtain ⟨s', _ | requester⟩ := verified
  · exact hverified
  dsimp only at hverified ⊢
  split
  · split
    · exact hverified
    · exact hverified.trans ⟨rfl, rfl, Or.inl rfl⟩
  · exact hverified.trans ⟨rfl, rfl, Or.inl rfl⟩

theorem flushPendingCertReply_credentialKept (paths : BatmanEngine e) (now : Duration) (orig : Mac)
    (replyLen : Nat) : CredentialKept s (s.flushPendingCertReply paths now orig replyLen).1 := by
  unfold flushPendingCertReply
  split
  · exact .refl s
  split
  · exact .refl s
  split
  · exact .refl s
  · exact ⟨rfl, rfl, Or.inl rfl⟩

theorem buildChallengeFrame_credentialKept (target : Mac) (bufLen : Nat) :
    CredentialKept s (s.buildChallengeFrame k target bufLen).1 := by
  have hissued : CredentialKept s (s.issueChallenge k target).1 :=
    after_credentialKept (k := k) (.issueChallenge target) (fun _ h => nomatch h)
      fun _ h => nomatch h
  unfold buildChallengeFrame
  generalize s.issueChallenge k target = issued at hissued ⊢
  obtain ⟨s', _ | nonce⟩ := issued
  · exact hissued
  · exact hissued

/-- The control frames are built from the cache and the books. -/
theorem call_credentialKept (callee : AuthCall e) (hstate : ∀ op, callee ≠ .state op)
    (hpoll : ∀ paths now bufLen, callee ≠ .pollRenewal paths now bufLen) :
    CredentialKept s (s.call k callee) := by
  cases callee with
  | state op => exact absurd rfl (hstate op)
  | pollRenewal paths now bufLen => exact absurd rfl (hpoll paths now bufLen)
  | takeTrickleResetHint => exact ⟨rfl, rfl, Or.inl rfl⟩
  | setRenewalAuthority providerKey => exact ⟨rfl, rfl, Or.inl rfl⟩
  | takeRenewedCert => exact ⟨rfl, rfl, Or.inl rfl⟩
  | takeRenewalRequest => exact ⟨rfl, rfl, Or.inl rfl⟩
  | parkPendingReply requester => exact ⟨rfl, rfl, Or.inl rfl⟩
  | clearPendingReply requester => exact ⟨rfl, rfl, Or.inl rfl⟩
  | buildCertReqFrame orig fp firstHop bufLen =>
    exact buildCertReqFrame_credentialKept orig fp firstHop bufLen
  | answerCertRequest paths now body replyLen =>
    exact answerCertRequest_credentialKept paths now body replyLen
  | flushPendingCertReply paths now orig replyLen =>
    exact flushPendingCertReply_credentialKept paths now orig replyLen
  | buildChallengeFrame target bufLen => exact buildChallengeFrame_credentialKept target bufLen

/-- A call is no part of the exchange, asks, or installs. -/
theorem call_cases (k : Crypto) (s : OgmAuth c) (callee : AuthCall e) :
    (s.renewalEvent k callee = none ∧ CredentialKept s (s.call k callee)) ∨
      (s.renewalEvent k callee = some (.asked s.now) ∧
        (s.call k callee).keypair = s.keypair ∧ (s.call k callee).cert = s.cert ∧
        (s.call k callee).outstandingRenewal = some s.now) ∨
      ∃ body, callee = .state (.ingestRenewReply body) ∧
        (s.ingestRenewReply k body).2 = true ∧
        s.renewalEvent k callee = some (.installed (s.call k callee).cert) ∧
        Forward s.cert (s.call k callee).cert ∧ (s.call k callee).outstandingRenewal = none ∧
        ∃ asked, s.outstandingRenewal = some asked ∧ s.now - asked < outstandingRenewalTtl := by
  by_cases hbuild : ∃ bufLen, callee = .state (.buildRenewalRequest bufLen)
  · obtain ⟨bufLen, rfl⟩ := hbuild
    obtain ⟨hkeypair, hcert, hout⟩ := buildRenewalRequest_asks k s bufLen
    cases hbody : (s.buildRenewalRequest k bufLen).2 with
    | none =>
      rw [hbody] at hout
      refine Or.inl ⟨?_, hkeypair, hcert, Or.inl hout⟩
      rw [renewalEvent, hbody]
      rfl
    | some body =>
      rw [hbody] at hout
      refine Or.inr (Or.inl ⟨?_, hkeypair, hcert, hout⟩)
      rw [renewalEvent, hbody]
      rfl
  by_cases hpoll : ∃ paths now bufLen, callee = .pollRenewal paths now bufLen
  · obtain ⟨paths, now, bufLen, rfl⟩ := hpoll
    obtain ⟨hkeypair, hcert, hout⟩ := pollRenewal_asks k s paths now bufLen
    cases hframe : (s.pollRenewal k paths now bufLen).2 with
    | none =>
      rw [hframe] at hout
      refine Or.inl ⟨?_, hkeypair, hcert, Or.inl hout⟩
      rw [renewalEvent, hframe]
      rfl
    | some frame =>
      rw [hframe] at hout
      refine Or.inr (Or.inl ⟨?_, hkeypair, hcert, hout⟩)
      rw [renewalEvent, hframe]
      rfl
  by_cases hreply : ∃ body, callee = .state (.ingestRenewReply body)
  · obtain ⟨body, rfl⟩ := hreply
    rcases ingestRenewReply_forward k s body with heq | ⟨htrue, hforward, hnone, hasked⟩
    · refine Or.inl ⟨?_, ?_⟩
      · rw [renewalEvent, heq]
        rfl
      · rw [call, after, perform, heq]
        exact .refl s
    · refine Or.inr (Or.inr ⟨body, rfl, htrue, ?_, hforward, hnone, hasked⟩)
      rw [renewalEvent, htrue]
      rfl
  refine Or.inl ⟨?_, ?_⟩
  · unfold renewalEvent
    split
    · exact absurd ⟨_, rfl⟩ hbuild
    · exact absurd ⟨_, _, _, rfl⟩ hpoll
    · exact absurd ⟨_, rfl⟩ hreply
    · rfl
  · cases callee with
    | state op =>
      exact after_credentialKept op (fun bufLen h => hbuild ⟨bufLen, congrArg _ h⟩)
        fun body h => hreply ⟨body, congrArg _ h⟩
    | pollRenewal paths now bufLen => exact absurd ⟨paths, now, bufLen, rfl⟩ hpoll
    | _ =>
      apply call_credentialKept
      · intro bufLen h
        cases h
      · intro paths now bufLen h
        cases h

end Calls

/-! ### Whole histories -/

section History
variable {k : Crypto} {s : OgmAuth c} {first : MembershipCert} {events : List RenewalEvent}

def history (k : Crypto) (s : OgmAuth c) (calls : List (AuthCall e)) : List RenewalEvent :=
  Run.trace (call k) (renewalEvent k) s calls

/-- When requests were built, oldest first. -/
def requests (events : List RenewalEvent) : List Duration :=
  events.filterMap RenewalEvent.askedAt

/-- The certificates installed, oldest first. -/
def installs (events : List RenewalEvent) : List MembershipCert :=
  events.filterMap RenewalEvent.installs

/-- The certificates the node has run under end ever later, and every install was paid
for by a request of its own. -/
structure RenewalLedger (first : MembershipCert) (s : OgmAuth c) (events : List RenewalEvent) :
    Prop where
  current : (first :: installs events).getLast? = some s.cert
  bounded : ∀ cert ∈ first :: installs events, cert.notAfter.get ≤ s.cert.notAfter.get
  ascending : (first :: installs events).Pairwise fun a b => a.notAfter.get < b.notAfter.get
  answered : (installs events).length + (if s.outstandingRenewal.isSome then 1 else 0) ≤
    (requests events).length
  latest : ∀ asked, s.outstandingRenewal = some asked → (requests events).getLast? = some asked

theorem RenewalLedger.kept {s' : OgmAuth c} (h : RenewalLedger first s events)
    (hkept : CredentialKept s s') : RenewalLedger first s' events := by
  refine ⟨?_, ?_, h.ascending, ?_, ?_⟩
  · rw [hkept.cert]
    exact h.current
  · rw [hkept.cert]
    exact h.bounded
  · cases hkept.outstandingRenewal with
    | inl hsame =>
      rw [hsame]
      exact h.answered
    | inr hnone =>
      rw [hnone]
      exact Nat.le_trans (Nat.le_add_right _ _) h.answered
  · cases hkept.outstandingRenewal with
    | inl hsame =>
      rw [hsame]
      exact h.latest
    | inr hnone =>
      rw [hnone]
      exact fun _ hasked => nomatch hasked

theorem RenewalLedger.asked {s' : OgmAuth c} (h : RenewalLedger first s events)
    (hcert : s'.cert = s.cert) (hout : s'.outstandingRenewal = some s.now) :
    RenewalLedger first s' (events ++ [.asked s.now]) := by
  have hinstalls : installs (events ++ [.asked s.now]) = installs events := by
    rw [installs, List.filterMap_append]
    exact List.append_nil _
  have hrequests : requests (events ++ [.asked s.now]) = requests events ++ [s.now] := by
    rw [requests, List.filterMap_append]
    rfl
  refine ⟨?_, ?_, ?_, ?_, ?_⟩
  · rw [hinstalls, hcert]
    exact h.current
  · rw [hinstalls, hcert]
    exact h.bounded
  · rw [hinstalls]
    exact h.ascending
  · have hbefore := Nat.le_trans (Nat.le_add_right _ _) h.answered
    rw [hinstalls, hrequests, hout, List.length_append]
    exact Nat.add_le_add_right hbefore 1
  · intro asked hasked
    rw [hout] at hasked
    rw [hrequests, List.getLast?_append]
    exact hasked

theorem RenewalLedger.installed {s' : OgmAuth c} (h : RenewalLedger first s events)
    (hforward : Forward s.cert s'.cert) (hout : s'.outstandingRenewal = none)
    (hasked : s.outstandingRenewal.isSome) :
    RenewalLedger first s' (events ++ [.installed s'.cert]) := by
  have hinstalls : installs (events ++ [.installed s'.cert]) = installs events ++ [s'.cert] := by
    rw [installs, List.filterMap_append]
    rfl
  have hrequests : requests (events ++ [.installed s'.cert]) = requests events := by
    rw [requests, List.filterMap_append]
    exact List.append_nil _
  have hbounded : ∀ cert ∈ first :: installs events, cert.notAfter.get < s'.cert.notAfter.get :=
    fun cert hmem => Nat.lt_of_le_of_lt (h.bounded cert hmem) hforward.notAfter
  refine ⟨?_, ?_, ?_, ?_, ?_⟩
  · rw [hinstalls, ← List.cons_append, List.getLast?_append]
    rfl
  · intro cert hmem
    rw [hinstalls, ← List.cons_append] at hmem
    rcases List.mem_append.mp hmem with hold | hnew
    · exact Nat.le_of_lt (hbounded cert hold)
    · rw [List.mem_singleton.mp hnew]
  · rw [hinstalls, ← List.cons_append, List.pairwise_append]
    refine ⟨h.ascending, List.pairwise_singleton _ _, ?_⟩
    intro cert hold new hnew
    rw [List.mem_singleton.mp hnew]
    exact hbounded cert hold
  · have hpaid := h.answered
    rw [if_pos hasked] at hpaid
    rw [hinstalls, hrequests, hout, List.length_append]
    exact hpaid
  · rw [hout]
    exact fun _ hnone => nomatch hnone

theorem RenewalLedger.step (h : RenewalLedger first s events) (callee : AuthCall e) :
    RenewalLedger first (s.call k callee) (events ++ (s.renewalEvent k callee).toList) := by
  rcases s.call_cases k callee with ⟨hevent, hkept⟩ | ⟨hevent, _, hcert, hout⟩ |
    ⟨_, _, _, hevent, hforward, hout, asked, hasked, _⟩
  · rw [hevent, Option.toList_none, List.append_nil]
    exact h.kept hkept
  · rw [hevent]
    exact h.asked hcert hout
  · rw [hevent]
    exact h.installed hforward hout (by rw [hasked]; rfl)

theorem renewalLedger_run (k : Crypto) (keypair : Keypair) (cert : MembershipCert)
    (anchor : TrustAnchor) (calls : List (AuthCall e)) :
    RenewalLedger cert (Run.run (call k) (withCapacities c keypair cert anchor) calls)
      (history k (withCapacities c keypair cert anchor) calls) := by
  induction calls using List.reverseRecOn with
  | nil =>
    refine ⟨rfl, ?_, List.pairwise_singleton _ _, Nat.le_refl _, fun _ h => nomatch h⟩
    intro held hheld
    rw [List.mem_singleton.mp hheld]
    exact Nat.le_refl _
  | append_singleton calls callee ih =>
    rw [history, Run.run_append_singleton, Run.trace_append_singleton]
    exact ih.step callee

/-- Over every history from a fresh auth state: only a reply that is taken changes the
certificate; it moves it forward, uses up the outstanding request, and comes no later
than the request's lifetime after the latest one; a reply refused changes nothing; there
are no more installs than requests, and no certificate is ever installed again. -/
theorem renewal_only_forward (k : Crypto) (keypair : Keypair) (cert : MembershipCert)
    (anchor : TrustAnchor) (calls : List (AuthCall e)) :
    let s := Run.run (call k) (withCapacities c keypair cert anchor) calls
    let events := history k (withCapacities c keypair cert anchor) calls
    (∀ callee : AuthCall e, (s.call k callee).cert ≠ s.cert →
      ∃ body, callee = .state (.ingestRenewReply body) ∧ (s.ingestRenewReply k body).2 = true) ∧
    (∀ body, (s.ingestRenewReply k body).2 = true →
      Forward s.cert (s.ingestRenewReply k body).1.cert ∧
        s.outstandingRenewal.isSome ∧ (s.ingestRenewReply k body).1.outstandingRenewal = none ∧
        ∃ asked, (requests events).getLast? = some asked ∧
          s.now - asked < outstandingRenewalTtl) ∧
    (∀ body, (s.ingestRenewReply k body).2 = false → (s.ingestRenewReply k body).1 = s) ∧
    (installs events).length ≤ (requests events).length ∧
    (cert :: installs events).getLast? = some s.cert ∧ (cert :: installs events).Nodup := by
  intro s events
  have hledger : RenewalLedger cert s events := renewalLedger_run k keypair cert anchor calls
  refine ⟨?_, ?_, ?_, ?_, hledger.current, ?_⟩
  · intro callee hchanged
    rcases s.call_cases k callee with ⟨_, hkept⟩ | ⟨_, _, hcert, _⟩ | ⟨body, hcallee, htrue, _⟩
    · exact absurd hkept.cert hchanged
    · exact absurd hcert hchanged
    · exact ⟨body, hcallee, htrue⟩
  · intro body htrue
    rcases s.ingestRenewReply_forward k body with heq | ⟨_, hforward, hnone, asked, hasked, hfresh⟩
    · rw [heq] at htrue
      cases htrue
    · refine ⟨hforward, ?_, hnone, asked, hledger.latest asked hasked, hfresh⟩
      rw [hasked]
      rfl
  · intro body hfalse
    rcases s.ingestRenewReply_forward k body with heq | ⟨htrue, _⟩
    · rw [heq]
    · rw [htrue] at hfalse
      cases hfalse
  · exact Nat.le_trans (Nat.le_add_right _ _) hledger.answered
  · apply List.Pairwise.imp _ hledger.ascending
    intro old new hlt heq
    rw [heq] at hlt
    exact Nat.lt_irrefl _ hlt

end History

end OgmAuth

end Wayfinder

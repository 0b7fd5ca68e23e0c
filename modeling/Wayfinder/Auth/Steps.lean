import Wayfinder.Auth.Renewal
import Wayfinder.Auth.Run

/-!
# What an operation does

Every operation of the authentication state as one step, with what it answers, and
its inversion: apart from books nothing else reads, an operation stores a certificate
in the cache, records revocations, moves a clock, spends a counter, or takes part in
a challenge. Everything said about whole runs is said about these.
-/

namespace Wayfinder

set_option autoImplicit false

open Table

inductive StateOp where
  | auth (op : AuthOp)
  | verifyDirected (src : Mac) (frame trailer : Bytes)
  | verifyDirectedNonceFresh (src : Mac) (frame trailer : Bytes)
  | verifyFanout (src : Mac) (frame trailer : Bytes)
  | verifyKeepalive (src : Mac) (payload : Bytes)
  | issueChallenge (neighbor : Mac)
  | verifyChallengeResponse (neighbor : Mac) (tag : Bytes)
  | tagDirected (dst : Mac) (frame : Bytes) (trailerLen : Nat)
  | signFanout (frame : Bytes) (trailerLen : Nat)
  | augmentKeepalive (len bufLen : Nat)
  | augmentOgm (base : Bytes) (bufLen : Nat) (lazy : Bool)
  | buildRenewalRequest (bufLen : Nat)
  | ingestRenewReply (body : Bytes)
  | handleRenewReq (body : Bytes)

namespace OgmAuth

variable {c : AuthCapacities}

/-- The state after an operation, and whether a verifier accepted. -/
def perform (k : Crypto) (s : OgmAuth c) : StateOp → OgmAuth c × Bool
  | .auth op => (s.step k op, false)
  | .verifyDirected src frame trailer => s.verifyDirected k src frame trailer
  | .verifyDirectedNonceFresh src frame trailer => s.verifyDirectedNonceFresh k src frame trailer
  | .verifyFanout src frame trailer => s.verifyFanout k src frame trailer
  | .verifyKeepalive src payload => s.verifyKeepalive k src payload
  | .issueChallenge neighbor => ((s.issueChallenge k neighbor).1, false)
  | .verifyChallengeResponse neighbor tag => s.verifyChallengeResponse k neighbor tag
  | .tagDirected dst frame trailerLen => ((s.tagDirected k dst frame trailerLen).1, false)
  | .signFanout frame trailerLen => ((s.signFanout k frame trailerLen).1, false)
  | .augmentKeepalive len bufLen => ((s.augmentKeepalive k len bufLen).1, false)
  | .augmentOgm base bufLen lazy => ((s.augmentOgmWithCertRecord k base bufLen lazy).1, false)
  | .buildRenewalRequest bufLen => ((s.buildRenewalRequest k bufLen).1, false)
  | .ingestRenewReply body => ((s.ingestRenewReply k body).1, false)
  | .handleRenewReq body => (s.handleRenewReq k body, false)

def after (k : Crypto) (s : OgmAuth c) (op : StateOp) : OgmAuth c := (s.perform k op).1

def play (k : Crypto) (s : OgmAuth c) (ops : List StateOp) : OgmAuth c := Run.run (after k) s ops

/-! ### The records an operation takes in -/

/-- The revocations of an OGM tail, in their order. -/
def tailRecords (tail : Bytes) : List RevocationRecord :=
  (iterTvlv tail .revoke).filterMap fun value =>
    (RevocationRecord.readFromPrefix value).map Prod.fst

theorem ingestRevocationsFromTail_eq (k : Crypto) (s : OgmAuth c) (tail : Bytes) :
    s.ingestRevocationsFromTail k tail = s.ingestAll k (tailRecords tail) := by
  unfold ingestRevocationsFromTail ingestAll tailRecords
  induction iterTvlv tail .revoke generalizing s with
  | nil => rfl
  | cons value rest ih =>
    rw [List.foldl_cons]
    refine (ih _).trans ?_
    cases hread : RevocationRecord.readFromPrefix value with
    | none => rw [List.filterMap_cons_none (by rw [hread]; rfl)]
    | some parsed => rw [List.filterMap_cons_some (by rw [hread]; rfl), List.foldl_cons]

/-- The addresses whose revocation is newly recorded as the records are taken in. -/
def newlyRevoked (k : Crypto) : OgmAuth c → List RevocationRecord → List Mac
  | _, [] => []
  | s, record :: rest =>
    let taken := s.ingestRevocation k record
    (if taken.2 then [record.nodeMac] else []) ++ newlyRevoked k taken.1 rest

/-- The records an operation takes in: the one it is given, or those of an OGM that
verifies. -/
def recordsOf (k : Crypto) (s : OgmAuth c) : StateOp → List RevocationRecord
  | .auth (.ingestRevocation record) => [record]
  | .auth (.verifyOgm payload) =>
    if (s.verifyOgm k payload).2 = .verified then
      (BatmanOgmPacket.readFromPrefix payload).elim [] fun parsed => tailRecords parsed.2
    else []
  | _ => []

/-- The address whose certificate an operation puts in the cache. -/
def stores (k : Crypto) (s : OgmAuth c) : StateOp → Option Mac
  | .auth (.verifyOgm payload) =>
    if (s.verifyOgm k payload).2 = .verified then
      (BatmanOgmPacket.readFromPrefix payload).map fun parsed => parsed.1.orig
    else none
  | .auth (.ingestCertReply body) =>
    if (s.ingestCertReply k body).2 then
      (MembershipCert.readFromPrefix body).map fun parsed => parsed.1.nodeMac
    else none
  | .auth (.verifyCertRequest body) => (s.verifyCertRequest k body).2
  | _ => none

/-! ### Books -/

/-- Nothing is changed that a guard, a proof or a verdict depends on. -/
structure Kept (s s' : OgmAuth c) : Prop extends CacheKept s s' where
  keypair : s'.keypair = s.keypair
  recvCounters : s'.recvCounters = s.recvCounters
  restartCandidate : s'.restartCandidate = s.restartCandidate
  keyGeneration : s'.keyGeneration = s.keyGeneration
  inProgress : s'.inProgress = s.inProgress
  challengeCounter : s'.challengeCounter = s.challengeCounter
  selfRevocation : s'.selfRevocation = s.selfRevocation
  outstandingRenewal : s'.outstandingRenewal = s.outstandingRenewal
  now : s'.now = s.now

theorem Kept.refl (s : OgmAuth c) : Kept s s :=
  ⟨.refl s, rfl, rfl, rfl, rfl, rfl, rfl, rfl, rfl, rfl⟩

theorem Kept.trans {s s' s'' : OgmAuth c} (h : Kept s s') (h' : Kept s' s'') : Kept s s'' :=
  ⟨h.toCacheKept.trans h'.toCacheKept, h'.keypair.trans h.keypair,
    h'.recvCounters.trans h.recvCounters, h'.restartCandidate.trans h.restartCandidate,
    h'.keyGeneration.trans h.keyGeneration, h'.inProgress.trans h.inProgress,
    h'.challengeCounter.trans h.challengeCounter, h'.selfRevocation.trans h.selfRevocation,
    h'.outstandingRenewal.trans h.outstandingRenewal, h'.now.trans h.now⟩

section Inversion
variable {k : Crypto} {s : OgmAuth c}

theorem countCryptoOp_booked (s : OgmAuth c) : Kept s s.countCryptoOp :=
  ⟨s.countCryptoOp_kept, rfl, rfl, rfl, rfl, rfl, rfl, rfl, rfl, rfl⟩

theorem judgeCert_booked (orig : Mac) (seqno : Be32) (signature : Octets 64) (certBytes : Bytes)
    (cert : MembershipCert) :
    Kept s (s.judgeCert k orig seqno signature certBytes cert).1 := by
  unfold judgeCert
  split
  · split <;> exact .refl s
  · dsimp only
    split
    · exact s.countCryptoOp_booked
    · split <;> exact s.countCryptoOp_booked.trans (countCryptoOp_booked _)

theorem checkOgmSignature_booked (ogm : BatmanOgmPacket) (certBytes : Bytes)
    (signature : Octets 64) (edPubkey : Octets 32) (checked : Bool) :
    Kept s (s.checkOgmSignature k ogm certBytes signature edPubkey checked).1 := by
  unfold checkOgmSignature
  split
  · exact .refl s
  · split
    · exact .refl s
    · exact s.countCryptoOp_booked

theorem verifyOgmWith_cases (ogm : BatmanOgmPacket) (tail certBytes : Bytes)
    (cert : MembershipCert) (signature : Octets 64) :
    let r := s.verifyOgmWith k ogm tail certBytes cert signature
    (r.2 ≠ .verified ∧ Kept s r.1) ∨
      (r.2 = .verified ∧ ∃ s₁ keys, Kept s s₁ ∧ keys.mac = ogm.orig ∧
        r.1 = (s₁.cacheNeighbor keys).1.ingestAll k (tailRecords tail)) := by
  have hjudge := judgeCert_booked (k := k) (s := s) ogm.orig ogm.seqno signature certBytes cert
  unfold verifyOgmWith
  generalize s.judgeCert k ogm.orig ogm.seqno signature certBytes cert = judged at hjudge
  obtain ⟨s₁, _ | ⟨verified, pairwiseKey, checked⟩⟩ := judged
  · exact Or.inl ⟨by simp, hjudge⟩
  dsimp only at hjudge ⊢
  split
  · exact Or.inl ⟨by simp, hjudge⟩
  rename_i hnames
  split
  · exact Or.inl ⟨by simp, hjudge⟩
  have hsigned := checkOgmSignature_booked (k := k) (s := s₁) ogm certBytes signature
    verified.edPubkey checked
  generalize s₁.checkOgmSignature k ogm certBytes signature verified.edPubkey checked = result
    at hsigned
  obtain ⟨s₂, _ | _⟩ := result
  · exact Or.inl ⟨by simp, hjudge.trans hsigned⟩
  · have horig : verified.mac = ogm.orig := not_not.mp hnames
    exact Or.inr ⟨rfl, s₂, ⟨verified, pairwiseKey, cert, some (ogm.seqno, signature)⟩,
      hjudge.trans hsigned, horig, ingestRevocationsFromTail_eq k _ tail⟩

/-- An OGM that does not verify changes nothing but books; one that does puts its
originator in the cache, and then takes its revocations in. -/
theorem verifyOgm_cases (k : Crypto) (s : OgmAuth c) (payload : Bytes) :
    let r := s.verifyOgm k payload
    (r.2 ≠ .verified ∧ Kept s r.1) ∨
      (r.2 = .verified ∧ ∃ ogm tail s₁ keys,
        BatmanOgmPacket.readFromPrefix payload = some (ogm, tail) ∧ Kept s s₁ ∧
        keys.mac = ogm.orig ∧
        r.1 = (s₁.cacheNeighbor keys).1.ingestAll k (tailRecords tail)) := by
  unfold verifyOgm
  cases hheader : BatmanOgmPacket.readFromPrefix payload with
  | none => exact Or.inl ⟨by simp, .refl s⟩
  | some header =>
    obtain ⟨ogm, tail⟩ := header
    dsimp only
    split
    · exact Or.inl ⟨by simp, .refl s⟩
    split
    · rename_i verdict hbytes
      exact Or.inl ⟨certBytesFor_ne_verified hbytes, .refl s⟩
    split
    · exact Or.inl ⟨by simp, .refl s⟩
    rename_i certBytes _ _ cert _ _
    rcases verifyOgmWith_cases (k := k) (s := s) ogm tail certBytes cert _ with
      hout | ⟨hverdict, s₁, keys, hkept, hmac, heq⟩
    · exact Or.inl hout
    · exact Or.inr ⟨hverdict, ogm, tail, s₁, keys, rfl, hkept, hmac, heq⟩

theorem ingestCertReply_cases (k : Crypto) (s : OgmAuth c) (body : Bytes) :
    let r := s.ingestCertReply k body
    (r.2 = false ∧ Kept s r.1) ∨
      (r.2 = true ∧ ∃ cert rest keys, MembershipCert.readFromPrefix body = some (cert, rest) ∧
        keys.mac = cert.nodeMac ∧ keys.lastOgm = none ∧
        Kept (s.cacheNeighbor keys).1 r.1) := by
  unfold ingestCertReply
  split
  · exact Or.inl ⟨rfl, .refl s⟩
  rename_i cert rest hread
  split
  · exact Or.inl ⟨rfl, .refl s⟩
  rename_i verified hverify
  obtain ⟨_, _, rfl⟩ := TrustAnchor.verifyCert_ok.mp hverify
  split
  · exact Or.inl ⟨rfl, .refl s⟩
  split
  · exact Or.inl ⟨rfl, .refl s⟩
  rename_i pairwiseKey _
  rcases s.cacheNeighbor_cases ⟨cert.facts, pairwiseKey, cert, none⟩ with
    ⟨_, heq⟩ | ⟨_, s₁, heq, _, _⟩
  · rw [heq]
    exact Or.inl ⟨rfl, .refl s⟩
  · rw [heq]
    refine Or.inr ⟨rfl, cert, rest, ⟨cert.facts, pairwiseKey, cert, none⟩, hread, rfl, rfl, ?_⟩
    rw [heq]
    exact ⟨⟨rfl, rfl, rfl, rfl, rfl⟩, rfl, rfl, rfl, rfl, rfl, rfl, rfl, rfl, rfl⟩

theorem acceptCertRequestRate_booked (s : OgmAuth c) (requester : Mac) :
    Kept s (s.acceptCertRequestRate requester).1 := by
  unfold acceptCertRequestRate
  split
  · split
    · exact .refl s
    · exact ⟨⟨rfl, rfl, rfl, rfl, rfl⟩, rfl, rfl, rfl, rfl, rfl, rfl, rfl, rfl, rfl⟩
  · exact ⟨⟨rfl, rfl, rfl, rfl, rfl⟩, rfl, rfl, rfl, rfl, rfl, rfl, rfl, rfl, rfl⟩

theorem verifyCertRequest_cases (k : Crypto) (s : OgmAuth c) (body : Bytes) :
    let r := s.verifyCertRequest k body
    (r.2 = none ∧ Kept s r.1) ∨
      ∃ mac, r.2 = some mac ∧ ∃ s₁ keys, Kept s s₁ ∧ keys.mac = mac ∧ keys.lastOgm = none ∧
        r.1 = (s₁.cacheNeighbor keys).1 := by
  unfold verifyCertRequest
  split
  · exact Or.inl ⟨rfl, .refl s⟩
  split
  · exact Or.inl ⟨rfl, .refl s⟩
  split
  · exact Or.inl ⟨rfl, .refl s⟩
  split
  · exact Or.inl ⟨rfl, .refl s⟩
  rename_i verified _
  split
  · exact Or.inl ⟨rfl, .refl s⟩
  split
  · exact Or.inl ⟨rfl, .refl s⟩
  split
  · exact Or.inl ⟨rfl, .refl s⟩
  have hbooked := s.acceptCertRequestRate_booked verified.mac
  generalize s.acceptCertRequestRate verified.mac = rated at hbooked
  obtain ⟨s₁, _ | _⟩ := rated
  · exact Or.inl ⟨rfl, hbooked⟩
  dsimp only at hbooked ⊢
  split
  · exact Or.inl ⟨rfl, hbooked⟩
  · exact Or.inr ⟨verified.mac, rfl, s₁, _, hbooked, rfl, rfl, rfl⟩

theorem buildCertRequest_booked (orig : Mac) (fp : Octets 8) (firstHop : Mac) (bufLen : Nat) :
    Kept s (s.buildCertRequest k orig fp firstHop bufLen).1 := by
  have htrack : Kept s (s.trackCertRequest orig fp firstHop).1 := by
    unfold trackCertRequest
    split
    · dsimp only
      split <;> split <;> exact ⟨⟨rfl, rfl, rfl, rfl, rfl⟩, rfl, rfl, rfl, rfl, rfl, rfl, rfl, rfl, rfl⟩
    · split
      · exact ⟨⟨rfl, rfl, rfl, rfl, rfl⟩, rfl, rfl, rfl, rfl, rfl, rfl, rfl, rfl, rfl⟩
      · exact .refl s
  unfold buildCertRequest
  generalize s.trackCertRequest orig fp firstHop = tracked at htrack
  obtain ⟨s₁, _ | _⟩ := tracked
  · exact htrack
  · exact htrack

/-- A latched revocation of this node waits for a clock or for its instant, is dropped
when it has expired, or is handed to the router. -/
theorem takeSelfRevoked_cases (s : OgmAuth c) :
    (s.takeSelfRevoked = (s, none) ∧ ∀ record, s.selfRevocation = some record →
        s.wall.judgesWindows = true → s.wall.unixOrZero < record.notBefore.get) ∨
      ∃ record, s.selfRevocation = some record ∧ s.wall.judgesWindows = true ∧
        ((record.notAfter.get ≤ s.wall.unixOrZero ∧
            s.takeSelfRevoked = ({ s with selfRevocation := none }, none)) ∨
          (record.notBefore.get ≤ s.wall.unixOrZero ∧ s.wall.unixOrZero < record.notAfter.get ∧
            s.takeSelfRevoked = ({ s with selfRevocation := none }, some record))) := by
  unfold takeSelfRevoked
  cases hlatch : s.selfRevocation with
  | none => exact Or.inl ⟨rfl, fun record h => nomatch h⟩
  | some record =>
    dsimp only
    cases hjudges : s.wall.judgesWindows with
    | false => exact Or.inl ⟨rfl, fun record _ h => nomatch h⟩
    | true =>
      rw [Bool.not_true, if_neg Bool.false_ne_true]
      by_cases hexpired : record.notAfter.get ≤ s.wall.unixOrZero
      · rw [if_pos hexpired]
        exact Or.inr ⟨record, rfl, rfl, Or.inl ⟨hexpired, rfl⟩⟩
      rw [if_neg hexpired]
      by_cases hearly : s.wall.unixOrZero < record.notBefore.get
      · rw [if_pos hearly]
        refine Or.inl ⟨rfl, ?_⟩
        intro held hheld _
        obtain rfl := Option.some.inj hheld
        exact hearly
      · rw [if_neg hearly]
        exact Or.inr ⟨record, rfl, rfl,
          Or.inr ⟨Nat.not_lt.mp hearly, Nat.not_le.mp hexpired, rfl⟩⟩

theorem takeSelfRevoked_frame (s : OgmAuth c) :
    ∃ latch, s.takeSelfRevoked.1 = { s with selfRevocation := latch } := by
  rcases s.takeSelfRevoked_cases with ⟨heq, _⟩ | ⟨_, _, _, ⟨_, heq⟩ | ⟨_, _, heq⟩⟩
  · exact ⟨s.selfRevocation, by rw [heq]⟩
  · exact ⟨none, by rw [heq]⟩
  · exact ⟨none, by rw [heq]⟩

theorem pruneExpired_frame (s : OgmAuth c) :
    ∃ revocations, s.pruneExpired = { s with revocations := revocations } := by
  unfold pruneExpired
  split
  · exact ⟨s.revocations, rfl⟩
  · exact ⟨_, rfl⟩

theorem evictExpiredNeighbors_frame (s : OgmAuth c) :
    ∃ neighbors keyGeneration, s.evictExpiredNeighbors =
      { s with neighbors := neighbors, keyGeneration := keyGeneration } := by
  unfold evictExpiredNeighbors
  split
  · exact ⟨s.neighbors, s.keyGeneration, rfl⟩
  · exact ⟨_, _, rfl⟩

/-- A clock touches its own fields, the books, and what can expire. -/
theorem setTime_frame (s : OgmAuth c) (now : Duration) (wall : Clocked) :
    ∃ revocations neighbors keyGeneration, s.setTime now wall =
      { OgmAuth.reclaimBookkeeping { s with now := now, wall := wall } with
        revocations := revocations, neighbors := neighbors, keyGeneration := keyGeneration } := by
  unfold setTime
  obtain ⟨revocations, hprune⟩ :=
    pruneExpired_frame (OgmAuth.reclaimBookkeeping { s with now := now, wall := wall })
  dsimp only
  rw [hprune]
  obtain ⟨neighbors, keyGeneration, hevict⟩ := evictExpiredNeighbors_frame
    { OgmAuth.reclaimBookkeeping { s with now := now, wall := wall } with
      revocations := revocations }
  exact ⟨revocations, neighbors, keyGeneration, hevict⟩

end Inversion

/-! ### Trailers -/

/-- The node has keys for this address, live or not. -/
def Caches (s : OgmAuth c) (mac : Mac) : Prop := ∃ n ∈ s.neighbors.toList, n.mac = mac

section Trailers
variable {k : Crypto} {s : OgmAuth c} {src : Mac}

theorem caches_of_liveNeighbor {n : NeighborKeys} (h : s.liveNeighbor src = some n) :
    s.Caches src := by
  obtain ⟨hmem, hmac, _⟩ := liveNeighbor_eq_some_iff.mp h
  exact ⟨n, hmem, hmac⟩

/-- The counter a trailer begins with. -/
def trailerCounter (trailer : Bytes) : Option Nat :=
  (Octets.readFromPrefix (n := 8) trailer).map fun p => Be64.get p.1

theorem verifyDirectedTag_spec {frame trailer : Bytes} {counter : Nat}
    (h : s.verifyDirectedTag k src frame trailer = some counter) :
    trailerCounter trailer = some counter ∧ s.Caches src := by
  unfold verifyDirectedTag at h
  split at h
  · cases h
  split at h
  · rename_i hlive hread
    split at h
    · cases h
    split at h
    · rw [trailerCounter, hread]
      exact ⟨h, caches_of_liveNeighbor hlive⟩
    · cases h
  · cases h

/-- A verifier refuses, or hands the counter of a neighbor's trailer to the guard. -/
def HandsOver (s : OgmAuth c) (src : Mac) (counter : Option Nat) (r : OgmAuth c × Bool) : Prop :=
  r = (s, false) ∨ ∃ n, counter = some n ∧ s.Caches src ∧ r = s.spendCounter src n

theorem verifyDirected_handsOver (k : Crypto) (s : OgmAuth c) (src : Mac)
    (frame trailer : Bytes) :
    s.HandsOver src (trailerCounter trailer) (s.verifyDirected k src frame trailer) := by
  unfold verifyDirected
  split
  · exact Or.inl rfl
  · rename_i counter htag
    obtain ⟨hcounter, hcached⟩ := verifyDirectedTag_spec htag
    exact Or.inr ⟨counter, hcounter, hcached, rfl⟩

theorem verifyFanout_handsOver (k : Crypto) (s : OgmAuth c) (src : Mac)
    (frame trailer : Bytes) :
    s.HandsOver src (trailerCounter trailer) (s.verifyFanout k src frame trailer) := by
  unfold verifyFanout
  split
  · exact Or.inl rfl
  split
  · rename_i m counter rest hlive hread
    split
    · exact Or.inl rfl
    split
    · refine Or.inr ⟨Be64.get counter, ?_, caches_of_liveNeighbor hlive, rfl⟩
      rw [trailerCounter, hread]
      rfl
    · exact Or.inl rfl
  · exact Or.inl rfl

def keepaliveCounter (payload : Bytes) : Option Nat :=
  (trailerCounter (payload.drop (payload.length - keepaliveTrailerLen))).map fun tagged =>
    tagged - keepaliveCounterTag

theorem verifyKeepalive_handsOver (k : Crypto) (s : OgmAuth c) (src : Mac)
    (payload : Bytes) :
    s.HandsOver src (keepaliveCounter payload) (s.verifyKeepalive k src payload) := by
  unfold verifyKeepalive
  split
  · exact Or.inl rfl
  dsimp only
  split
  · exact Or.inl rfl
  rename_i tagged rest hread
  split
  · exact Or.inl rfl
  split
  · rename_i m signature hfind _
    split
    · exact Or.inl rfl
    split
    · exact Or.inl rfl
    split
    · exact Or.inl rfl
    · obtain ⟨hmem, hmac⟩ := KeyedVec.find?_eq_some_iff.mp hfind
      refine Or.inr ⟨Be64.get tagged - keepaliveCounterTag, ?_, ⟨m, hmem, hmac⟩, rfl⟩
      rw [keepaliveCounter, trailerCounter, hread]
      rfl
  · exact Or.inl rfl

theorem spendCounter_frame (s : OgmAuth c) (src : Mac) (counter : Nat) :
    ∃ counters, (s.spendCounter src counter).1 = { s with recvCounters := counters } := by
  unfold spendCounter acceptRecvCounter
  cases s.recvCounters.find? src with
  | some e =>
    dsimp only
    by_cases hle : counter ≤ e.2
    · rw [if_pos hle]
      exact ⟨s.recvCounters, rfl⟩
    · rw [if_neg hle]
      exact ⟨_, rfl⟩
  | none =>
    dsimp only
    by_cases hroom : s.recvCounters.toList.length < c.maxNeighborKeys
    · rw [if_pos hroom]
      exact ⟨_, rfl⟩
    · rw [if_neg hroom]
      exact ⟨s.recvCounters, rfl⟩

theorem HandsOver.frame {counter : Option Nat} {r : OgmAuth c × Bool}
    (h : s.HandsOver src counter r) : ∃ counters, r.1 = { s with recvCounters := counters } := by
  rcases h with rfl | ⟨n, _, _, rfl⟩
  · exact ⟨s.recvCounters, rfl⟩
  · exact s.spendCounter_frame src n

end Trailers

/-! ### Challenges, counters of one's own, and renewals -/

section Own
variable (k : Crypto) (s : OgmAuth c)

/-- Issuing a challenge writes the schedule of challenges alone. -/
theorem issueChallenge_cases (neighbor : Mac) :
    (s.issueChallenge k neighbor).1 = s ∨
      ∃ n nonce, s.liveNeighbor neighbor = some n ∧ s.challengeCounter + 1 < 2 ^ 64 ∧
        nonce = k.frameTag (nonceInput k s.keypair (s.challengeCounter + 1) neighbor) ∧
        (s.issueChallenge k neighbor).2 = some nonce ∧
        (s.issueChallenge k neighbor).1 =
          { s with
            challengeCounter := s.challengeCounter + 1
            inProgress := s.inProgress.put ⟨neighbor, nonce, s.challengeCounter + 1⟩
              (minByKey OutstandingChallenge.issuedSeq) } := by
  unfold issueChallenge
  cases hlive : s.liveNeighbor neighbor with
  | none => exact Or.inl rfl
  | some n =>
    dsimp only
    by_cases hroom : s.challengeCounter + 1 < 2 ^ 64
    · rw [if_pos hroom]
      exact Or.inr ⟨n, _, rfl, hroom, rfl, rfl, rfl⟩
    · rw [if_neg hroom]
      exact Or.inl rfl

/-- A response is refused and takes the standing claim with it, or it consumes its
challenge and, with a claim of its sender, anchors the mark. -/
theorem verifyChallengeResponse_cases (neighbor : Mac) (tag : Bytes) :
    let r := s.verifyChallengeResponse k neighbor tag
    (r.2 = false ∧ s.answeredChallenge k neighbor tag = none ∧
        r.1 = { s with restartCandidate := none }) ∨
      (r.2 = true ∧ ∃ challenge, s.answeredChallenge k neighbor tag = some challenge ∧
        ∃ counters, r.1 = { s with
          restartCandidate := none
          inProgress := s.inProgress.remove neighbor
          recvCounters := counters } ∧
        (counters = s.recvCounters ∨ ∃ counter, s.restartCandidate = some (neighbor, counter) ∧
          counters = s.recvCounters.put (neighbor, counter) fun _ => none)) := by
  unfold verifyChallengeResponse
  have hanswered : OgmAuth.answeredChallenge k { s with restartCandidate := none } neighbor tag =
      s.answeredChallenge k neighbor tag := rfl
  dsimp only
  rw [hanswered]
  cases hanswer : s.answeredChallenge k neighbor tag with
  | none => exact Or.inl ⟨rfl, rfl, rfl⟩
  | some challenge =>
    dsimp only
    cases hclaim : s.restartCandidate with
    | none => exact Or.inr ⟨rfl, challenge, rfl, _, rfl, Or.inl rfl⟩
    | some claim =>
      obtain ⟨mac, counter⟩ := claim
      dsimp only
      by_cases hmac : mac = neighbor
      · subst hmac
        rw [if_pos rfl]
        exact Or.inr ⟨rfl, challenge, rfl, _, rfl, Or.inr ⟨counter, rfl, rfl⟩⟩
      · rw [if_neg hmac]
        exact Or.inr ⟨rfl, challenge, rfl, _, rfl, Or.inl rfl⟩

theorem nextSendCounter_booked {s' : OgmAuth c} {counter : Nat}
    (h : s.nextSendCounter = some (s', counter)) : Kept s s' := by
  unfold nextSendCounter at h
  split at h
  · obtain ⟨rfl, rfl⟩ := Prod.mk.inj (Option.some.inj h)
    exact ⟨⟨rfl, rfl, rfl, rfl, rfl⟩, rfl, rfl, rfl, rfl, rfl, rfl, rfl, rfl, rfl⟩
  · cases h

theorem tagDirected_booked (dst : Mac) (frame : Bytes) (trailerLen : Nat) :
    Kept s (s.tagDirected k dst frame trailerLen).1 := by
  unfold tagDirected
  split
  · exact .refl s
  split
  · exact .refl s
  split
  · exact .refl s
  · rename_i hnext
    exact s.nextSendCounter_booked hnext

theorem signFanout_booked (frame : Bytes) (trailerLen : Nat) :
    Kept s (s.signFanout k frame trailerLen).1 := by
  unfold signFanout
  split
  · exact .refl s
  split
  · exact .refl s
  · rename_i hnext
    exact s.nextSendCounter_booked hnext

theorem augmentKeepalive_booked (len bufLen : Nat) :
    Kept s (s.augmentKeepalive k len bufLen).1 := by
  unfold augmentKeepalive
  split
  · exact .refl s
  split
  · exact .refl s
  · rename_i hnext
    exact s.nextSendCounter_booked hnext

theorem augmentOgm_cases (base : Bytes) (bufLen : Nat) (lazy : Bool) :
    (s.augmentOgmWithCertRecord k base bufLen lazy).1 = s ∨
      ∃ sent, (s.augmentOgmWithCertRecord k base bufLen lazy).1 = s.spendFloods sent := by
  unfold augmentOgmWithCertRecord
  split
  · exact Or.inl rfl
  split
  · exact Or.inl rfl
  dsimp only
  split
  · exact Or.inl rfl
  · exact Or.inr ⟨_, rfl⟩

/-- A renewal request spends a nonce, and nothing else anyone reads but the slot that
waits for the reply. -/
theorem buildRenewalRequest_cases (bufLen : Nat) :
    (s.buildRenewalRequest k bufLen).1 = s ∨ ∃ asked, s.challengeCounter + 1 < 2 ^ 64 ∧
      (s.buildRenewalRequest k bufLen).1 =
        { s with challengeCounter := s.challengeCounter + 1, outstandingRenewal := asked } := by
  unfold buildRenewalRequest
  split
  · exact Or.inl rfl
  split
  · rename_i hroom
    dsimp only
    split
    · exact Or.inr ⟨_, hroom, rfl⟩
    · exact Or.inr ⟨s.outstandingRenewal, hroom, rfl⟩
  · exact Or.inl rfl

theorem ingestRenewReply_cases (body : Bytes) :
    (s.renewedCert k body = none ∧ s.ingestRenewReply k body = (s, false)) ∨
      ∃ cert, s.renewedCert k body = some cert ∧ s.ingestRenewReply k body =
        ({ s with
          cert := cert
          outstandingRenewal := none
          pendingRenewedCert := some cert }, true) := by
  unfold ingestRenewReply
  cases hcert : s.renewedCert k body with
  | none => exact Or.inl ⟨rfl, rfl⟩
  | some cert => exact Or.inr ⟨cert, rfl, rfl⟩

theorem handleRenewReq_booked (body : Bytes) : Kept s (s.handleRenewReq k body) := by
  have hrate : ∀ requester, Kept s (s.acceptRenewalRequestRate requester).1 := by
    intro requester
    unfold acceptRenewalRequestRate
    split
    · split
      · exact .refl s
      · exact ⟨⟨rfl, rfl, rfl, rfl, rfl⟩, rfl, rfl, rfl, rfl, rfl, rfl, rfl, rfl, rfl⟩
    · exact ⟨⟨rfl, rfl, rfl, rfl, rfl⟩, rfl, rfl, rfl, rfl, rfl, rfl, rfl, rfl, rfl⟩
  have hverify : Kept s (s.verifyRenewalRequest k body).1 := by
    unfold verifyRenewalRequest
    split
    · exact .refl s
    split
    · exact .refl s
    split
    · exact .refl s
    split
    · rename_i verified _ _
      split
      · exact .refl s
      split
      · exact .refl s
      split
      · exact .refl s
      have hrated := hrate verified.mac
      generalize s.acceptRenewalRequestRate verified.mac = rated at hrated
      obtain ⟨s₁, _ | _⟩ := rated
      · exact hrated
      · exact hrated
    · exact .refl s
  unfold handleRenewReq
  generalize s.verifyRenewalRequest k body = out at hverify
  obtain ⟨s₁, _ | verified⟩ := out
  · exact hverify
  · exact hverify.trans ⟨⟨rfl, rfl, rfl, rfl, rfl⟩, rfl, rfl, rfl, rfl, rfl, rfl, rfl, rfl, rfl⟩

end Own

/-! ### Recording revocations -/

/-- The states agree on all that decides which records are held. -/
structure SameRecords (s s' : OgmAuth c) : Prop where
  anchor : s'.anchor = s.anchor
  wall : s'.wall = s.wall
  cert : s'.cert = s.cert
  revocations : s'.revocations = s.revocations

theorem CacheKept.sameRecords {s s' : OgmAuth c} (h : CacheKept s s') : SameRecords s s' :=
  ⟨h.anchor, h.wall, h.cert, h.revocations⟩

theorem SameRecords.trans {s s' s'' : OgmAuth c} (h : SameRecords s s')
    (h' : SameRecords s' s'') : SameRecords s s'' :=
  ⟨h'.anchor.trans h.anchor, h'.wall.trans h.wall, h'.cert.trans h.cert,
    h'.revocations.trans h.revocations⟩

theorem cacheNeighbor_sameRecords (s : OgmAuth c) (keys : NeighborKeys) :
    SameRecords s (s.cacheNeighbor keys).1 := by
  have hkept := (s.cacheNeighbor_adds keys).1
  exact ⟨hkept.anchor, hkept.wall, hkept.cert, hkept.revocations⟩

section Records
variable {k : Crypto} {s s' : OgmAuth c}

theorem ingestRevocation_congr (h : SameRecords s s') (record : RevocationRecord) :
    (s'.ingestRevocation k record).2 = (s.ingestRevocation k record).2 ∧
      SameRecords (s.ingestRevocation k record).1 (s'.ingestRevocation k record).1 := by
  have henf : s'.enforceable k record = s.enforceable k record := by
    unfold enforceable
    rw [h.anchor, h.wall, h.cert]
  have hnews : s'.IsNews record ↔ s.IsNews record := by
    unfold IsNews
    rw [h.revocations]
  rcases ingestRevocation_cases k s record with ⟨he, hn, heq⟩ | ⟨hno, latch, heq⟩
  · rcases ingestRevocation_cases k s' record with ⟨_, _, heq'⟩ | ⟨hno', latch', heq'⟩
    · rw [heq, heq']
      refine ⟨rfl, h.anchor, h.wall, h.cert, ?_⟩
      change s'.revocations.put _ _ = s.revocations.put _ _
      rw [h.revocations, h.wall]
    · rw [henf, hnews] at hno'
      rcases hno' with hno' | hno'
      · rw [he] at hno'
        cases hno'
      · exact absurd hn hno'
  · rcases ingestRevocation_cases k s' record with ⟨he', hn', heq'⟩ | ⟨_, latch', heq'⟩
    · rw [henf] at he'
      rcases hno with hno | hno
      · rw [he'] at hno
        cases hno
      · exact absurd (hnews.mp hn') hno
    · rw [heq, heq']
      exact ⟨rfl, h.anchor, h.wall, h.cert, h.revocations⟩

/-- Which records are news is a matter of those already held, not of the cache. -/
theorem newlyRevoked_congr (h : SameRecords s s') (records : List RevocationRecord) :
    newlyRevoked k s' records = newlyRevoked k s records := by
  induction records generalizing s s' with
  | nil => rfl
  | cons record rest ih =>
    obtain ⟨hflag, hsame⟩ := ingestRevocation_congr (k := k) h record
    rw [newlyRevoked, newlyRevoked, hflag, ih hsame]

end Records

end OgmAuth

end Wayfinder

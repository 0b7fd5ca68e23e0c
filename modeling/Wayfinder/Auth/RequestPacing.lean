import Wayfinder.Auth.Fetch
import Wayfinder.Lib.Limiter

/-!
# How often an originator is requested

An OGM nobody has verified makes a node ask for a certificate, and its retry bookkeeping
spaces these requests. A new fingerprint restarts it, and so does a clock that reclaims a row
whose attempts are used up: between two such restarts, and until a reply is cached, the
requests for one originator lie the retry interval apart.
-/

namespace Wayfinder

set_option autoImplicit false

open Table

inductive PacingOp where
  | heard (orig : Mac) (fp : Octets 8) (firstHop : Mac) (bufLen : Nat)
  | setTime (now : Duration) (wall : Clocked)
  | reply (body : Bytes)

namespace OgmAuth

variable {c : AuthCapacities}

def pacingStep (k : Crypto) (s : OgmAuth c) : PacingOp → OgmAuth c
  | .heard orig fp firstHop bufLen => (s.buildCertRequest k orig fp firstHop bufLen).1
  | .setTime now wall => s.setTime now wall
  | .reply body => (s.ingestCertReply k body).1

def WritesRequest (k : Crypto) (orig : Mac) (s : OgmAuth c) (op : PacingOp) : Prop :=
  ∃ fp firstHop bufLen, op = .heard orig fp firstHop bufLen ∧
    (s.buildCertRequest k orig fp firstHop bufLen).2.isSome = true

/-- The step ends the tracking of the last request for this originator: another fingerprint
is asked for, a clock reclaims the row after its last attempt, or a reply is cached. -/
inductive Restarts (k : Crypto) (orig : Mac) (s : OgmAuth c) : PacingOp → Prop where
  | rotated (row : InFlightCertRequest) (fp : Octets 8) (firstHop : Mac) (bufLen : Nat)
      (tracked : s.inFlight.find? orig = some row) (other : row.fp ≠ fp) :
      Restarts k orig s (.heard orig fp firstHop bufLen)
  | reclaimed (row : InFlightCertRequest) (now : Duration) (wall : Clocked)
      (tracked : s.inFlight.find? orig = some row)
      (spent : maxCertRequestAttempts ≤ row.attempts) : Restarts k orig s (.setTime now wall)
  | answered (cert : MembershipCert) (rest body : Bytes)
      (read : MembershipCert.readFromPrefix body = some (cert, rest))
      (named : cert.nodeMac = orig) (cached : (s.ingestCertReply k body).2 = true) :
      Restarts k orig s (.reply body)

def Paced (orig : Mac) (until' : Duration) (s : OgmAuth c) : Prop :=
  ∃ row, s.inFlight.find? orig = some row ∧ until' ≤ row.nextAttempt

section Step
variable {k : Crypto} {s : OgmAuth c} {orig : Mac} {until' : Duration} {op : PacingOp}

theorem tracked_of_writes {fp : Octets 8} {firstHop : Mac} {bufLen : Nat}
    (h : (s.buildCertRequest k orig fp firstHop bufLen).2.isSome = true) :
    (s.trackCertRequest orig fp firstHop).2 = true := by
  unfold buildCertRequest at h
  generalize s.trackCertRequest orig fp firstHop = tracked at h ⊢
  obtain ⟨s₁, _ | _⟩ := tracked
  · cases h
  · rfl

theorem find?_askFor (s : OgmAuth c) (entry : InFlightCertRequest)
    (hfits : (∃ row ∈ s.inFlight.toList, row.orig = entry.orig) ∨
      s.inFlight.toList.length < c.maxInFlightCertRequests) (orig : Mac) :
    (s.askFor entry).inFlight.find? orig =
      if orig = entry.orig then some entry else s.inFlight.find? orig :=
  KeyedVec.find?_put hfits orig

theorem paced_of_writes (h : WritesRequest k orig s op) :
    Paced orig (s.now + certRequestRetry) (s.pacingStep k op) := by
  obtain ⟨fp, firstHop, bufLen, rfl, hwritten⟩ := h
  have htracked := tracked_of_writes hwritten
  rw [pacingStep, buildCertRequest_fst]
  rcases trackCertRequest_cases s orig fp firstHop with ⟨hbarred, _⟩ | ⟨attempts, _, heq, hfits⟩
  · rw [hbarred] at htracked
    cases htracked
  · rw [heq]
    exact ⟨_, (s.find?_askFor _ hfits orig).trans (if_pos rfl), Nat.le_refl _⟩

theorem le_of_tracked {row : InFlightCertRequest} {fp : Octets 8} {firstHop : Mac}
    (hrow : s.inFlight.find? orig = some row) (hfp : row.fp = fp)
    (h : (s.trackCertRequest orig fp firstHop).2 = true) : row.nextAttempt ≤ s.now := by
  unfold trackCertRequest at h
  rw [hrow] at h
  dsimp only at h
  rw [if_neg (not_not.mpr hfp)] at h
  split at h
  · cases h
  · rename_i hopen
    rw [not_or] at hopen
    exact Nat.not_lt.mp hopen.1

theorem find?_setTime {now : Duration} {wall : Clocked} {row : InFlightCertRequest}
    (hrow : s.inFlight.find? orig = some row) (hleft : row.attempts < maxCertRequestAttempts) :
    (s.setTime now wall).inFlight.find? orig = some row := by
  obtain ⟨hmem, rfl⟩ := KeyedVec.find?_eq_some_iff.mp hrow
  exact KeyedVec.find?_eq_some_iff.mpr ⟨mem_inFlight_setTime.mpr ⟨hmem, hleft⟩, rfl⟩

theorem ingestCertReply_inFlight (body : Bytes) :
    (s.ingestCertReply k body).1.inFlight = s.inFlight ∨
      (s.ingestCertReply k body).2 = true ∧ ∃ cert rest,
        MembershipCert.readFromPrefix body = some (cert, rest) ∧
        (s.ingestCertReply k body).1.inFlight = s.inFlight.remove cert.nodeMac := by
  unfold ingestCertReply
  split
  · exact Or.inl rfl
  rename_i cert rest hread
  split
  · exact Or.inl rfl
  rename_i verified hverify
  obtain ⟨_, _, rfl⟩ := TrustAnchor.verifyCert_ok.mp hverify
  split
  · exact Or.inl rfl
  split
  · exact Or.inl rfl
  rename_i pairwiseKey _
  rcases s.cacheNeighbor_cases ⟨cert.facts, pairwiseKey, cert, none⟩ with
    ⟨_, heq⟩ | ⟨_, s₁, heq, _, _⟩
  · rw [heq]
    exact Or.inl rfl
  · have hsame : s₁.inFlight = s.inFlight := by
      rw [show s₁ = (s.cacheNeighbor ⟨cert.facts, pairwiseKey, cert, none⟩).1 by rw [heq]]
      unfold cacheNeighbor
      split <;> rfl
    rw [heq]
    refine Or.inr ⟨rfl, cert, rest, hread, ?_⟩
    rw [← hsame]
    rfl

theorem Paced.step (h : Paced orig until' s) (op : PacingOp) :
    Paced orig until' (s.pacingStep k op) ∨ Restarts k orig s op := by
  obtain ⟨row, hrow, huntil⟩ := h
  cases op with
  | heard orig' fp firstHop bufLen =>
    rw [pacingStep, buildCertRequest_fst]
    rcases trackCertRequest_cases s orig' fp firstHop with
      ⟨_, hsame, _⟩ | ⟨attempts, _, heq, hfits⟩
    · left
      refine ⟨row, ?_, huntil⟩
      rw [KeyedVec.find?, hsame]
      exact hrow
    · rw [heq]
      have hfind := s.find?_askFor
        ⟨orig', fp, firstHop, attempts + 1, s.now + certRequestRetry⟩ hfits orig
      by_cases horig : orig = orig'
      · obtain rfl := horig
        by_cases hfp : row.fp = fp
        · left
          have htracked : (s.trackCertRequest orig fp firstHop).2 = true := by rw [heq]
          have hpast := le_of_tracked hrow hfp htracked
          refine ⟨_, hfind.trans (if_pos rfl), ?_⟩
          exact huntil.trans (hpast.trans (Nat.le_add_right _ _))
        · exact Or.inr (.rotated row fp firstHop bufLen hrow hfp)
      · left
        exact ⟨row, (hfind.trans (if_neg horig)).trans hrow, huntil⟩
  | setTime now wall =>
    rcases Nat.lt_or_ge row.attempts maxCertRequestAttempts with hleft | hspent
    · exact Or.inl ⟨row, find?_setTime hrow hleft, huntil⟩
    · exact Or.inr (.reclaimed row now wall hrow hspent)
  | reply body =>
    rw [pacingStep]
    rcases ingestCertReply_inFlight (k := k) (s := s) body with
      hsame | ⟨hcached, cert, rest, hread, hremoved⟩
    · left
      refine ⟨row, ?_, huntil⟩
      rw [hsame]
      exact hrow
    · by_cases horig : cert.nodeMac = orig
      · exact Or.inr (.answered cert rest body hread horig hcached)
      · left
        refine ⟨row, ?_, huntil⟩
        rw [hremoved, KeyedVec.find?_remove, if_neg (Ne.symm horig)]
        exact hrow

theorem Paced.le_of_writes (h : Paced orig until' s) (hwrites : WritesRequest k orig s op) :
    until' ≤ s.now ∨ Restarts k orig s op := by
  obtain ⟨row, hrow, huntil⟩ := h
  obtain ⟨fp, firstHop, bufLen, rfl, hwritten⟩ := hwrites
  by_cases hfp : row.fp = fp
  · exact Or.inl (huntil.trans (le_of_tracked hrow hfp (tracked_of_writes hwritten)))
  · exact Or.inr (.rotated row fp firstHop bufLen hrow hfp)

/-- Two requests for one originator lie the retry interval apart, unless its tracking was
restarted between them: for another fingerprint, by a clock after the last attempt, or because
a reply was cached. -/
theorem requests_paced (k : Crypto) (s : OgmAuth c) (ops : List PacingOp) (orig : Mac) :
    Run.Spaced (pacingStep k) (WritesRequest k orig) OgmAuth.now certRequestRetry
      (Restarts k orig) s ops := by
  apply Run.spaced (fun until' s => Paced orig until' s)
  · intro s op h
    exact paced_of_writes h
  · intro until' s op h
    exact h.step op
  · intro until' s op h hwrites
    exact h.le_of_writes hwrites

end Step

end OgmAuth

namespace SmallMesh
open OgmAuth

def rotatedTwice : List PacingOp :=
  [.heard mac2 unknownFp mac2 300, .heard mac2 (.zero 8) mac2 300]

/-- All attempts but the last for one originator, each as soon as it is allowed. -/
def fiveAttempts : List PacingOp :=
  (List.range 5).flatMap (fun n =>
      [.heard mac2 unknownFp mac2 300, .setTime (certRequestRetry * (n + 1)) .unknown])

def reclaimedAtOnce : List PacingOp :=
  fiveAttempts ++ [.heard mac2 unknownFp mac2 300, .setTime (certRequestRetry * 5) .unknown,
    .heard mac2 unknownFp mac2 300]

def AnyReply (s : OgmAuth capacities) (op : PacingOp) : Prop :=
  ∃ body, op = .reply body ∧ (s.ingestCertReply crypto body).2 = true

/-- Neither sequence keeps the requests apart, and no reply arrives in them. -/
theorem requests_unpaced :
    ¬ Run.Spaced (pacingStep crypto) (WritesRequest crypto mac2) OgmAuth.now certRequestRetry
        AnyReply (node3 0) rotatedTwice ∧
      ¬ Run.Spaced (pacingStep crypto) (WritesRequest crypto mac2) OgmAuth.now certRequestRetry
        AnyReply (node3 0) reclaimedAtOnce := by
  constructor
  · intro h
    rcases h [] (.heard mac2 unknownFp mac2 300) [] (.heard mac2 (.zero 8) mac2 300)
      List.prefix_rfl ⟨_, _, _, rfl, by decide +kernel⟩ ⟨_, _, _, rfl, by decide +kernel⟩ with
      hapart | ⟨mid, lifting, hmid, body, rfl, _⟩
    · revert hapart
      decide +kernel
    · have hmem := hmid.subset (List.mem_append_right mid (List.mem_singleton_self _))
      cases List.mem_singleton.mp hmem
  · intro h
    rcases h fiveAttempts (.heard mac2 unknownFp mac2 300)
      [.setTime (certRequestRetry * 5) .unknown] (.heard mac2 unknownFp mac2 300)
      List.prefix_rfl ⟨_, _, _, rfl, by decide +kernel⟩ ⟨_, _, _, rfl, by decide +kernel⟩ with
      hapart | ⟨mid, lifting, hmid, body, rfl, _⟩
    · revert hapart
      decide +kernel
    · have hmem := hmid.subset (List.mem_append_right mid (List.mem_singleton_self _))
      rcases List.mem_pair.mp hmem with hclock | hheard
      · cases hclock
      · cases hheard

end SmallMesh

end Wayfinder

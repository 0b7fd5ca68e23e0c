import Wayfinder.Auth.Steps

/-!
# The replay guard over whole runs

One high-water mark for each sender, raised by every trailer that is accepted. The
mark of a sender falls in two ways only: its challenge response is accepted, or a
revocation naming it is newly recorded and its row goes with its keys. In between no
counter is accepted twice, next-hop responses let through for their nonce apart.
-/

namespace Wayfinder

set_option autoImplicit false

open Table

namespace StateOp

def trailer? : StateOp → Option (Mac × Nat)
  | .verifyDirected src _ trailer | .verifyDirectedNonceFresh src _ trailer
  | .verifyFanout src _ trailer => (OgmAuth.trailerCounter trailer).map fun n => (src, n)
  | .verifyKeepalive src payload => (OgmAuth.keepaliveCounter payload).map fun n => (src, n)
  | _ => none

end StateOp

namespace OgmAuth

variable {c : AuthCapacities} {k : Crypto} {s : OgmAuth c} {src : Mac} {n : Nat}

def highWater (s : OgmAuth c) (src : Mac) : Option Nat :=
  (s.recvCounters.find? src).map Prod.snd

def MarkedAt (s : OgmAuth c) (src : Mac) (n : Nat) : Prop :=
  ∃ m, s.highWater src = some m ∧ n ≤ m

def Accepts (k : Crypto) (s : OgmAuth c) (op : StateOp) (src : Mac) (n : Nat) : Prop :=
  (s.perform k op).2 = true ∧ op.trailer? = some (src, n)

/-- A response behind the mark, let through while a challenge to its sender is
outstanding. -/
def LetThrough (s : OgmAuth c) (op : StateOp) (src : Mac) : Prop :=
  ∃ frame trailer, op = .verifyDirectedNonceFresh src frame trailer ∧
    frame.head? = some BatmanPacketType.nextHopResponse.asU8 ∧
    (s.inProgress.find? src).isSome = true

/-! ### One step -/

theorem highWater_put {s' : OgmAuth c} {src' : Mac} {counter : Nat}
    (hput : s'.recvCounters = s.recvCounters.put (src', counter) fun _ => none)
    (hfits : (∃ e ∈ s.recvCounters.toList, e.1 = src') ∨
      s.recvCounters.toList.length < c.maxNeighborKeys) :
    s'.highWater src = if src = src' then some counter else s.highWater src := by
  unfold highWater
  rw [hput, KeyedVec.find?_put hfits]
  split <;> rfl

theorem highWater_of_counters {s' : OgmAuth c} (h : s'.recvCounters = s.recvCounters) (src : Mac) :
    s'.highWater src = s.highWater src := by
  rw [highWater, h]
  rfl

theorem acceptRecvCounter_cases (s : OgmAuth c) (src : Mac) (counter : Nat) :
    (∃ s', s.acceptRecvCounter src counter = (s', .accepted) ∧
        s' = { s with recvCounters := s'.recvCounters } ∧
        (∀ m, s.highWater src = some m → m < counter) ∧
        ∀ mac, s'.highWater mac = if mac = src then some counter else s.highWater mac) ∨
      (s.acceptRecvCounter src counter = (s, .stale) ∧ s.MarkedAt src counter) ∨
      (s.acceptRecvCounter src counter = (s, .noSlot) ∧ s.highWater src = none ∧
        c.maxNeighborKeys ≤ s.recvCounters.toList.length) := by
  unfold acceptRecvCounter
  cases hfind : s.recvCounters.find? src with
  | some e =>
    have hhigh : s.highWater src = some e.2 := by rw [highWater, hfind]; rfl
    obtain ⟨hmem, hkey⟩ := KeyedVec.find?_eq_some_iff.mp hfind
    dsimp only
    split
    · rename_i hle
      exact Or.inr (Or.inl ⟨rfl, e.2, hhigh, hle⟩)
    · rename_i hlt
      refine Or.inl ⟨_, rfl, rfl, ?_, ?_⟩
      · intro m hm
        rw [hhigh] at hm
        obtain rfl := Option.some.inj hm
        omega
      · intro mac
        exact highWater_put rfl (Or.inl ⟨e, hmem, hkey⟩)
  | none =>
    have hhigh : s.highWater src = none := by rw [highWater, hfind]; rfl
    dsimp only
    split
    · rename_i hroom
      refine Or.inl ⟨_, rfl, rfl, ?_, ?_⟩
      · intro m hm
        rw [hhigh] at hm
        cases hm
      · intro mac
        exact highWater_put rfl (Or.inr hroom)
    · rename_i hfull
      exact Or.inr (Or.inr ⟨rfl, hhigh, Nat.le_of_not_lt hfull⟩)

/-- What verifying a trailer of `src` with this counter may do: spend it above the
mark, or leave the mark alone. -/
structure Spends (s s' : OgmAuth c) (accepted : Bool) (src : Mac) (counter : Nat) : Prop where
  others : ∀ mac, mac ≠ src → s'.highWater mac = s.highWater mac
  raised : accepted = true → s'.highWater src = some counter ∧
    ∀ m, s.highWater src = some m → m < counter
  refused : accepted = false → s'.highWater src = s.highWater src

theorem spendCounter_spends (s : OgmAuth c) (src : Mac) (counter : Nat) :
    Spends s (s.spendCounter src counter).1 (s.spendCounter src counter).2 src counter := by
  unfold spendCounter
  rcases s.acceptRecvCounter_cases src counter with
    ⟨s', heq, _, habove, hhigh⟩ | ⟨heq, _⟩ | ⟨heq, _⟩
  · rw [heq]
    refine ⟨?_, ?_, by simp⟩
    · intro mac hne
      rw [hhigh, if_neg hne]
    · intro _
      exact ⟨by rw [hhigh, if_pos rfl], habove⟩
  · rw [heq]
    exact ⟨fun _ _ => rfl, by simp, fun _ => rfl⟩
  · rw [heq]
    exact ⟨fun _ _ => rfl, by simp, fun _ => rfl⟩

theorem Spends.markedAt {s' : OgmAuth c} {accepted : Bool} {src' : Mac} {counter : Nat}
    (h : Spends s s' accepted src' counter) (hmark : s.MarkedAt src n) : s'.MarkedAt src n := by
  by_cases hsrc : src = src'
  · subst hsrc
    cases accepted with
    | false =>
      rw [MarkedAt, h.refused rfl]
      exact hmark
    | true =>
      obtain ⟨m, hm, hle⟩ := hmark
      obtain ⟨hhigh, habove⟩ := h.raised rfl
      exact ⟨counter, hhigh, Nat.le_trans hle (Nat.le_of_lt (habove m hm))⟩
  · rw [MarkedAt, h.others src hsrc]
    exact hmark

/-! ### Revocations take rows away, nothing else of the cache does -/

theorem ingestRevocation_highWater (record : RevocationRecord) :
    (s.ingestRevocation k record).1.highWater src =
      if (s.ingestRevocation k record).2 = true ∧ src = record.nodeMac then none
      else s.highWater src := by
  rcases ingestRevocation_cases k s record with ⟨_, _, heq⟩ | ⟨_, latch, heq⟩
  · rw [heq]
    change ((s.recvCounters.remove record.nodeMac).find? src).map Prod.snd = _
    rw [KeyedVec.find?_remove]
    by_cases hsrc : src = record.nodeMac
    · simp [hsrc]
    · simp [hsrc, highWater]
  · rw [heq]
    simp [highWater]

theorem ingestAll_highWater (records : List RevocationRecord) :
    (s.ingestAll k records).highWater src =
      if src ∈ newlyRevoked k s records then none else s.highWater src := by
  induction records generalizing s with
  | nil => simp [ingestAll, newlyRevoked]
  | cons record rest ih =>
    have hcons : s.ingestAll k (record :: rest) =
        (s.ingestRevocation k record).1.ingestAll k rest := rfl
    rw [hcons, ih, ingestRevocation_highWater, newlyRevoked]
    by_cases hlater : src ∈ newlyRevoked k (s.ingestRevocation k record).1 rest
    · simp [hlater]
    · cases hflag : (s.ingestRevocation k record).2 with
      | false => simp [hlater]
      | true => simp [hlater]

theorem cacheNeighbor_counters (s : OgmAuth c) (keys : NeighborKeys) :
    (s.cacheNeighbor keys).1.recvCounters = s.recvCounters := by
  unfold cacheNeighbor
  split <;> rfl

theorem step_highWater (k : Crypto) (s : OgmAuth c) (src : Mac) (op : AuthOp) :
    (s.step k op).highWater src =
      if src ∈ newlyRevoked k s (recordsOf k s (.auth op)) then none else s.highWater src := by
  cases op with
  | verifyOgm payload =>
    rcases verifyOgm_cases k s payload with
      ⟨hverdict, hkept⟩ | ⟨hverdict, ogm, tail, s₁, keys, hread, hkept, _, heq⟩
    · rw [recordsOf, if_neg hverdict]
      exact highWater_of_counters hkept.recvCounters src
    · have hsame := hkept.toCacheKept.sameRecords.trans (s₁.cacheNeighbor_sameRecords keys)
      have hrows : (s₁.cacheNeighbor keys).1.recvCounters = s.recvCounters :=
        (s₁.cacheNeighbor_counters keys).trans hkept.recvCounters
      rw [step, heq, ingestAll_highWater, newlyRevoked_congr hsame, recordsOf, if_pos hverdict,
        hread, highWater_of_counters hrows]
      rfl
  | ingestCertReply body =>
    rcases ingestCertReply_cases k s body with ⟨_, hkept⟩ | ⟨_, _, _, keys, _, _, _, hkept⟩
    · exact highWater_of_counters hkept.recvCounters src
    · exact highWater_of_counters
        (hkept.recvCounters.trans (s.cacheNeighbor_counters keys)) src
  | verifyCertRequest body =>
    rcases verifyCertRequest_cases k s body with ⟨_, hkept⟩ | ⟨_, _, s₁, keys, hkept, _, _, heq⟩
    · exact highWater_of_counters hkept.recvCounters src
    · refine highWater_of_counters ?_ src
      rw [step, heq, s₁.cacheNeighbor_counters, hkept.recvCounters]
  | buildCertRequest orig fp firstHop bufLen =>
    exact highWater_of_counters (buildCertRequest_booked orig fp firstHop bufLen).recvCounters src
  | ingestRevocation record => exact ingestAll_highWater [record]
  | takeSelfRevoked =>
    obtain ⟨latch, heq⟩ := s.takeSelfRevoked_frame
    rw [step, heq]
    exact highWater_of_counters rfl src
  | setTime now wall =>
    obtain ⟨revocations, neighbors, keyGeneration, heq⟩ := s.setTime_frame now wall
    rw [step, heq]
    rfl
  | pruneExpired =>
    obtain ⟨revocations, heq⟩ := s.pruneExpired_frame
    rw [step, heq]
    rfl

/-! ### Trailers -/

theorem Spends.of_counters {s' : OgmAuth c} (h : s'.recvCounters = s.recvCounters)
    (src : Mac) (counter : Nat) : Spends s s' false src counter :=
  ⟨fun mac _ => highWater_of_counters h mac, by simp, fun _ => highWater_of_counters h src⟩

theorem HandsOver.spends {counter : Option Nat} {r : OgmAuth c × Bool}
    (h : s.HandsOver src counter r) (hn : counter = some n) : Spends s r.1 r.2 src n := by
  rcases h with rfl | ⟨m, hm, _, rfl⟩
  · exact .of_counters rfl src n
  · rw [hn] at hm
    obtain rfl := Option.some.inj hm
    exact s.spendCounter_spends src n

theorem HandsOver.markedAt {src' : Mac} {counter : Option Nat} {r : OgmAuth c × Bool}
    (h : s.HandsOver src' counter r) (hmark : s.MarkedAt src n) : r.1.MarkedAt src n := by
  rcases h with rfl | ⟨m, _, _, rfl⟩
  · exact hmark
  · exact (s.spendCounter_spends src' m).markedAt hmark

/-- A response spends its counter like any directed frame, unless it is behind the
mark: then it is let through for its nonce, or refused. -/
theorem verifyDirectedNonceFresh_spends (k : Crypto) (s : OgmAuth c) (src : Mac)
    (frame trailer : Bytes) :
    let r := s.verifyDirectedNonceFresh k src frame trailer
    r = (s, false) ∨ ∃ counter, trailerCounter trailer = some counter ∧ s.Caches src ∧
      (Spends s r.1 r.2 src counter ∨
        (r.1.recvCounters = s.recvCounters ∧ s.MarkedAt src counter ∧
          LetThrough s (.verifyDirectedNonceFresh src frame trailer) src)) := by
  unfold verifyDirectedNonceFresh
  split
  · rcases verifyDirected_handsOver k s src frame trailer with
      heq | ⟨counter, hcounter, hcached, heq⟩
    · exact Or.inl heq
    · rw [heq]
      exact Or.inr ⟨counter, hcounter, hcached, Or.inl (s.spendCounter_spends src counter)⟩
  rename_i hresponse
  split
  · exact Or.inl rfl
  rename_i counter htag
  obtain ⟨hcounter, hcached⟩ := verifyDirectedTag_spec htag
  refine Or.inr ⟨counter, hcounter, hcached, ?_⟩
  rcases s.acceptRecvCounter_cases src counter with
    ⟨s', heq, _, habove, hhigh⟩ | ⟨heq, hmark⟩ | ⟨heq, _⟩
  · rw [heq]
    refine Or.inl ⟨?_, ?_, by simp⟩
    · intro mac hne
      exact (hhigh mac).trans (if_neg hne)
    · intro _
      exact ⟨(hhigh src).trans (if_pos rfl), habove⟩
  · rw [heq]
    dsimp only
    split
    · rename_i houtstanding
      exact Or.inr ⟨rfl, hmark, frame, trailer, rfl, not_not.mp hresponse, houtstanding⟩
    · left
      apply Spends.of_counters
      rfl
  · rw [heq]
    exact Or.inl (.of_counters rfl src counter)

theorem perform_trailer {op : StateOp} (htrailer : op.trailer? = some (src, n)) :
    Spends s (s.perform k op).1 (s.perform k op).2 src n ∨
      ((s.perform k op).1.recvCounters = s.recvCounters ∧ s.MarkedAt src n ∧
        LetThrough s op src) := by
  cases op with
  | verifyDirected src' frame trailer =>
    obtain ⟨counter, hcounter, heq⟩ := Option.map_eq_some_iff.mp htrailer
    obtain ⟨rfl, rfl⟩ := Prod.mk.inj heq
    exact Or.inl ((verifyDirected_handsOver k s src' frame trailer).spends hcounter)
  | verifyDirectedNonceFresh src' frame trailer =>
    obtain ⟨counter, hcounter, heq⟩ := Option.map_eq_some_iff.mp htrailer
    obtain ⟨rfl, rfl⟩ := Prod.mk.inj heq
    rcases verifyDirectedNonceFresh_spends k s src' frame trailer with
      hout | ⟨counter', hsame, _, hout⟩
    · rw [perform, hout]
      exact Or.inl (.of_counters rfl src' counter)
    · rw [hcounter] at hsame
      obtain rfl := Option.some.inj hsame
      exact hout
  | verifyFanout src' frame trailer =>
    obtain ⟨counter, hcounter, heq⟩ := Option.map_eq_some_iff.mp htrailer
    obtain ⟨rfl, rfl⟩ := Prod.mk.inj heq
    exact Or.inl ((verifyFanout_handsOver k s src' frame trailer).spends hcounter)
  | verifyKeepalive src' payload =>
    obtain ⟨tagged, hcounter, heq⟩ := Option.map_eq_some_iff.mp htrailer
    obtain ⟨rfl, rfl⟩ := Prod.mk.inj heq
    exact Or.inl ((verifyKeepalive_handsOver k s src' payload).spends hcounter)
  | _ => cases htrailer

/-- What makes the guard forget the marks of a sender: the sender answers a
challenge, or a revocation of it is newly recorded. -/
def Disturbs (k : Crypto) (src : Mac) (s : OgmAuth c) (op : StateOp) : Prop :=
  src ∈ newlyRevoked k s (recordsOf k s op) ∨
    ∃ tag, op = .verifyChallengeResponse src tag ∧
      (s.verifyChallengeResponse k src tag).2 = true

/-- Every mark stands through an operation that does not disturb it: at most the
trailer's own is raised. -/
theorem after_markedAt {op : StateOp} (hcalm : ¬ Disturbs k src s op)
    (hmark : s.MarkedAt src n) : (s.after k op).MarkedAt src n := by
  have hsame : ∀ {s' : OgmAuth c}, s'.recvCounters = s.recvCounters → s'.MarkedAt src n := by
    intro s' hcounters
    rw [MarkedAt, highWater_of_counters hcounters]
    exact hmark
  unfold after
  cases op with
  | auth op =>
    have hrows := step_highWater k s src op
    rw [if_neg fun hnew => hcalm (Or.inl hnew)] at hrows
    change (s.step k op).MarkedAt src n
    rw [MarkedAt, hrows]
    exact hmark
  | verifyDirected src' frame trailer =>
    exact (verifyDirected_handsOver k s src' frame trailer).markedAt hmark
  | verifyDirectedNonceFresh src' frame trailer =>
    rcases verifyDirectedNonceFresh_spends k s src' frame trailer with
      hout | ⟨counter, _, _, hspends | ⟨hcounters, _⟩⟩
    · rw [perform, hout]
      exact hmark
    · exact hspends.markedAt hmark
    · exact hsame hcounters
  | verifyFanout src' frame trailer =>
    exact (verifyFanout_handsOver k s src' frame trailer).markedAt hmark
  | verifyKeepalive src' payload =>
    exact (verifyKeepalive_handsOver k s src' payload).markedAt hmark
  | issueChallenge neighbor =>
    rcases issueChallenge_cases k s neighbor with heq | ⟨_, _, _, _, _, _, heq⟩
    · rw [perform, heq]
      exact hsame rfl
    · rw [perform, heq]
      exact hsame rfl
  | verifyChallengeResponse neighbor tag =>
    rcases verifyChallengeResponse_cases k s neighbor tag with
      ⟨_, _, heq⟩ | ⟨haccepted, challenge, _, counters, heq, hcounters⟩
    · rw [perform, heq]
      exact hsame rfl
    · have hne : src ≠ neighbor := by
        rintro rfl
        exact hcalm (Or.inr ⟨tag, rfl, haccepted⟩)
      rw [perform, heq]
      rcases hcounters with rfl | ⟨counter, _, rfl⟩
      · exact hsame rfl
      · obtain ⟨m, hm, hle⟩ := hmark
        refine ⟨m, ?_, hle⟩
        rw [← hm]
        exact congrArg (Option.map Prod.snd) (KeyedVec.find?_put_of_ne hne)
  | tagDirected dst frame trailerLen =>
    exact hsame (tagDirected_booked k s dst frame trailerLen).recvCounters
  | signFanout frame trailerLen => exact hsame (signFanout_booked k s frame trailerLen).recvCounters
  | augmentKeepalive len bufLen => exact hsame (augmentKeepalive_booked k s len bufLen).recvCounters
  | augmentOgm base bufLen lazy =>
    rcases augmentOgm_cases k s base bufLen lazy with heq | ⟨sent, heq⟩
    · rw [perform, heq]
      exact hsame rfl
    · rw [perform, heq]
      exact hsame rfl
  | buildRenewalRequest bufLen =>
    rcases buildRenewalRequest_cases k s bufLen with heq | ⟨_, _, heq⟩
    · rw [perform, heq]
      exact hsame rfl
    · rw [perform, heq]
      exact hsame rfl
  | ingestRenewReply body =>
    rcases ingestRenewReply_cases k s body with ⟨_, heq⟩ | ⟨_, _, heq⟩
    · rw [perform, heq]
      exact hsame rfl
    · rw [perform, heq]
      exact hsame rfl
  | handleRenewReq body => exact hsame (handleRenewReq_booked k s body).recvCounters

/-! ### Whole runs -/

instance (op : StateOp) : Decidable (Accepts k s op src n) := inferInstanceAs (Decidable (_ ∧ _))

theorem Accepts.markedAt {op : StateOp} (h : Accepts k s op src n) :
    (s.after k op).MarkedAt src n := by
  rcases perform_trailer (k := k) (s := s) h.2 with hspends | ⟨hcounters, hmark, _⟩
  · rw [h.1] at hspends
    exact ⟨n, (hspends.raised rfl).1, Nat.le_refl n⟩
  · rw [MarkedAt, after, highWater_of_counters hcounters]
    exact hmark

theorem play_markedAt {ops : List StateOp}
    (hcalm : Run.AllSafe (after k) (fun s op => ¬ Disturbs k src s op) s ops)
    (hmark : s.MarkedAt src n) : (s.play k ops).MarkedAt src n := by
  induction ops generalizing s with
  | nil => exact hmark
  | cons op ops ih =>
    obtain ⟨hop, hrest⟩ := Run.allSafe_cons.mp hcalm
    exact ih hrest (after_markedAt hop hmark)

/-- Once a trailer of `src` is accepted with a counter, no trailer with that counter is
until the guard is disturbed, a response let through for its nonce apart. -/
theorem no_counter_twice (k : Crypto) (s : OgmAuth c) (first second : StateOp)
    (mid : List StateOp) (src : Mac) (n : Nat) (hfirst : Accepts k s first src n)
    (hcalm : Run.AllSafe (after k) (fun s op => ¬ Disturbs k src s op) (s.after k first) mid)
    (hsecond : Accepts k ((s.after k first).play k mid) second src n) :
    LetThrough ((s.after k first).play k mid) second src := by
  have hmark := play_markedAt hcalm hfirst.markedAt
  rcases perform_trailer (k := k) hsecond.2 with hspends | ⟨_, _, hlet⟩
  · rw [hsecond.1] at hspends
    obtain ⟨m, hm, hle⟩ := hmark
    exact absurd ((hspends.raised rfl).2 m hm) (Nat.not_lt.mpr hle)
  · exact hlet

end OgmAuth

namespace SmallMesh

open OgmAuth

/-- Node 2's frame 5 is accepted again once node 2 has been revoked and cached again under
the key it had, and its response 6 is accepted twice while a challenge is outstanding. -/
theorem counter_accepted_again :
    (Accepts pairwiseCrypto heard2 (.verifyDirected mac2 unicastFrame trailer5) mac2 5 ∧
      Accepts pairwiseCrypto
        ((heard2.after pairwiseCrypto (.verifyDirected mac2 unicastFrame trailer5)).play
          pairwiseCrypto
          [.auth (.ingestRevocation revoked500), .auth (.verifyOgm (ogm7 228))])
        (.verifyDirected mac2 unicastFrame trailer5) mac2 5 ∧
      ((heard2.after pairwiseCrypto (.verifyDirected mac2 unicastFrame trailer5)).play
        pairwiseCrypto
        [.auth (.ingestRevocation revoked500), .auth (.verifyOgm (ogm7 228))]).liveNeighbor mac2 =
        heard2.liveNeighbor mac2) ∧
      (Accepts pairwiseCrypto (heard2.issueChallenge pairwiseCrypto mac2).1
          (.verifyDirectedNonceFresh mac2 responseFrame trailer6) mac2 6 ∧
        Accepts pairwiseCrypto
          ((heard2.issueChallenge pairwiseCrypto mac2).1.after pairwiseCrypto
            (.verifyDirectedNonceFresh mac2 responseFrame trailer6))
          (.verifyDirectedNonceFresh mac2 responseFrame trailer6) mac2 6) := by
  decide +kernel

def challenging2 : OgmAuth capacities := (heard2.issueChallenge pairwiseCrypto mac2).1

/-- Between the two arrivals of the response, frame 9 raises the mark. -/
theorem no_counter_twice_response :
    LetThrough
      ((challenging2.after pairwiseCrypto
        (.verifyDirectedNonceFresh mac2 responseFrame trailer6)).play pairwiseCrypto
          [.verifyDirected mac2 unicastFrame trailer9])
      (.verifyDirectedNonceFresh mac2 responseFrame trailer6) mac2 := by
  apply no_counter_twice pairwiseCrypto challenging2
    (.verifyDirectedNonceFresh mac2 responseFrame trailer6)
    (.verifyDirectedNonceFresh mac2 responseFrame trailer6)
    [.verifyDirected mac2 unicastFrame trailer9] mac2 6
  · decide +kernel
  · simp [Run.allSafe_cons, Run.allSafe_nil, Disturbs, recordsOf, newlyRevoked]
  · decide +kernel

end SmallMesh

end Wayfinder

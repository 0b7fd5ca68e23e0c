import Wayfinder.Auth.Replay

/-!
# The counter rows and the cache

Each accepted sender has a row of its own in a table as large as the cache. A
revocation takes the row along with the keys; expiry and the overwriting of a full
cache take the keys and leave the row. While no row is left behind so, every row is a
cached neighbor's and the guard has a slot for every neighbor; a row left behind
stays for good, and enough of them starve a live one.
-/

namespace Wayfinder

set_option autoImplicit false

open Table

namespace OgmAuth

variable {c : AuthCapacities} {k : Crypto} {s : OgmAuth c} {mac src : Mac}

def RowsCached (s : OgmAuth c) : Prop :=
  ∀ row ∈ s.recvCounters.toList, ∃ n ∈ s.neighbors.toList, n.cert.mac = row.1
  deriving Decidable

/-- The guard has a slot for every live neighbor. -/
def NeverStarves (s : OgmAuth c) : Prop :=
  ∀ src counter, (s.liveNeighbor src).isSome = true →
    (s.acceptRecvCounter src counter).2 ≠ .noSlot

theorem highWater_isSome : (s.highWater src).isSome = true ↔
    ∃ row ∈ s.recvCounters.toList, row.1 = src := by
  rw [highWater, Option.isSome_map]
  constructor
  · intro h
    obtain ⟨row, hrow⟩ := Option.isSome_iff_exists.mp h
    exact ⟨row, KeyedVec.find?_eq_some_iff.mp hrow⟩
  · rintro ⟨row, hrow⟩
    rw [KeyedVec.find?_eq_some_iff.mpr hrow]
    rfl

theorem rowsCached_iff :
    s.RowsCached ↔ ∀ mac, (s.highWater mac).isSome = true → s.Caches mac := by
  constructor
  · intro h mac hrow
    obtain ⟨row, hmem, rfl⟩ := highWater_isSome.mp hrow
    exact h row hmem
  · intro h row hmem
    exact h row.1 (highWater_isSome.mpr ⟨row, hmem, rfl⟩)

/-- As many neighbors as rows, and one more: the table cannot be full. -/
theorem RowsCached.neverStarves (h : s.RowsCached) : s.NeverStarves := by
  intro src counter hlive hverdict
  obtain ⟨n, hn⟩ := Option.isSome_iff_exists.mp hlive
  obtain ⟨m, hm, hmac⟩ := caches_of_liveNeighbor hn
  rcases s.acceptRecvCounter_cases src counter with
    ⟨s', heq, _⟩ | ⟨heq, _⟩ | ⟨heq, hnone, hfull⟩
  · rw [heq] at hverdict
    cases hverdict
  · rw [heq] at hverdict
    cases hverdict
  · have hnew : src ∉ s.recvCounters.toList.map Prod.fst := by
      intro hmem
      obtain ⟨row, hrow, hsrc⟩ := List.mem_map.mp hmem
      have hsome := highWater_isSome.mpr ⟨row, hrow, hsrc⟩
      rw [hnone] at hsome
      cases hsome
    have hsub : src :: s.recvCounters.toList.map Prod.fst ⊆
        s.neighbors.toList.map NeighborKeys.mac := by
      intro mac hmem
      rcases List.mem_cons.mp hmem with rfl | hmem
      · exact List.mem_map.mpr ⟨m, hm, hmac⟩
      · obtain ⟨row, hrow, rfl⟩ := List.mem_map.mp hmem
        obtain ⟨n', hn', hmac'⟩ := h row hrow
        exact List.mem_map.mpr ⟨n', hn', hmac'⟩
    have hlen := (List.subperm_of_subset
      (List.nodup_cons.mpr ⟨hnew, s.recvCounters.nodup⟩) hsub).length_le
    have hbound := s.neighbors.bounded
    simp only [List.length_cons, List.length_map] at hlen
    omega

/-! ### Who leaves the cache -/

/-- Storing `stored` takes the slot of `mac`: a new address, and no room. -/
def Displaces (s : OgmAuth c) (stored mac : Mac) : Prop :=
  s.neighbors.find? stored = none ∧ c.maxNeighborKeys ≤ s.neighbors.toList.length ∧
    ∃ first, s.neighbors.toList.head? = some first ∧ first.mac = mac

theorem cacheNeighbor_caches (keys : NeighborKeys) (hcached : s.Caches mac) :
    (s.cacheNeighbor keys).1.Caches mac ↔ ¬ s.Displaces keys.mac mac := by
  rcases s.cacheNeighbor_cases keys with ⟨hconflict, heq⟩ | ⟨_, s₁, heq, _, hput⟩
  · -- A conflict is with an entry of the same address, so nobody is displaced.
    rw [heq]
    refine iff_of_true hcached ?_
    rintro ⟨hnone, _⟩
    unfold identityConflict at hconflict
    obtain ⟨n, hn, hmatch⟩ := List.any_eq_true.mp (Bool.and_eq_true_iff.mp hconflict).2
    have hmac : n.cert.mac = keys.cert.mac := by
      simp only [Bool.and_eq_true, decide_eq_true_eq] at hmatch
      exact hmatch.1.1
    exact KeyedVec.find?_eq_none_iff.mp hnone n hn hmac
  · rw [heq]
    obtain ⟨n, hn, rfl⟩ := hcached
    unfold Caches
    rw [hput]
    by_cases hfits : (∃ y ∈ s.neighbors.toList, y.mac = keys.mac) ∨
        s.neighbors.toList.length < c.maxNeighborKeys
    · refine iff_of_true ?_ ?_
      · by_cases hsame : n.mac = keys.mac
        · exact ⟨keys, (KeyedVec.mem_put_iff hfits).mpr (Or.inl rfl), hsame.symm⟩
        · exact ⟨n, (KeyedVec.mem_put_iff hfits).mpr (Or.inr ⟨hn, hsame⟩), rfl⟩
      · rintro ⟨hnone, hfull, _⟩
        rcases hfits with ⟨y, hy, hyk⟩ | hroom
        · exact KeyedVec.find?_eq_none_iff.mp hnone y hy hyk
        · omega
    · have hnew : ∀ z ∈ s.neighbors.toList, z.mac ≠ keys.mac := by
        intro z hz hzk
        exact hfits (Or.inl ⟨z, hz, hzk⟩)
      have hfull : c.maxNeighborKeys ≤ s.neighbors.toList.length := by
        apply Nat.le_of_not_lt
        intro hroom
        exact hfits (Or.inr hroom)
      obtain ⟨first, hfirst⟩ : ∃ first, s.neighbors.toList.head? = some first := by
        cases hlist : s.neighbors.toList with
        | nil =>
          rw [hlist] at hn
          cases hn
        | cons first rest => exact ⟨first, rfl⟩
      have hmem := List.mem_of_head? hfirst
      have hafter : ∀ z, z ∈ (s.neighbors.put keys List.head?).toList ↔
          z = keys ∨ z ∈ s.neighbors.toList ∧ z.mac ≠ first.mac := fun z =>
        KeyedVec.mem_put_displacing hnew hfull hfirst hmem
      constructor
      · rintro ⟨z, hz, hzn⟩ ⟨_, _, first', hfirst', hmac⟩
        rw [hfirst] at hfirst'
        obtain rfl := Option.some.inj hfirst'
        rcases (hafter z).mp hz with rfl | ⟨_, hne⟩
        · exact hnew first hmem (hmac.trans hzn.symm)
        · exact hne (hzn.trans hmac.symm)
      · intro hstays
        refine ⟨n, (hafter n).mpr (Or.inr ⟨hn, ?_⟩), rfl⟩
        intro hsame
        exact hstays ⟨KeyedVec.find?_eq_none_iff.mpr hnew, hfull, first, hfirst, hsame.symm⟩

theorem ingestRevocation_caches (record : RevocationRecord) :
    (s.ingestRevocation k record).1.Caches mac ↔ s.Caches mac ∧
      ¬ ((s.ingestRevocation k record).2 = true ∧ mac = record.nodeMac) := by
  rcases ingestRevocation_cases k s record with ⟨_, _, heq⟩ | ⟨_, latch, heq⟩
  · rw [heq]
    change (∃ n ∈ (s.neighbors.remove record.nodeMac).toList, n.mac = mac) ↔ _
    constructor
    · rintro ⟨n, hn, rfl⟩
      obtain ⟨hmem, hne⟩ := KeyedVec.mem_remove.mp hn
      exact ⟨⟨n, hmem, rfl⟩, fun h => hne h.2⟩
    · rintro ⟨⟨n, hn, rfl⟩, hkept⟩
      refine ⟨n, KeyedVec.mem_remove.mpr ⟨hn, ?_⟩, rfl⟩
      intro hsame
      exact hkept ⟨rfl, hsame⟩
  · rw [heq]
    simp [Caches]

/-- Revocations take the row and the keys of their subjects together. -/
theorem ingestAll_caches (records : List RevocationRecord) :
    (s.ingestAll k records).Caches mac ↔ s.Caches mac ∧ mac ∉ newlyRevoked k s records := by
  induction records generalizing s with
  | nil => simp [ingestAll, newlyRevoked]
  | cons record rest ih =>
    have hcons : s.ingestAll k (record :: rest) =
        (s.ingestRevocation k record).1.ingestAll k rest := rfl
    rw [hcons, ih, ingestRevocation_caches, newlyRevoked]
    cases hflag : (s.ingestRevocation k record).2 with
    | false => simp
    | true =>
      simp only [if_true, List.cons_append, List.nil_append, List.mem_cons, not_or, true_and,
        and_assoc]

theorem ingestAll_rowsCached {s₁ : OgmAuth c} (records : List RevocationRecord)
    (hrows : s₁.recvCounters = s.recvCounters) :
    (s₁.ingestAll k records).RowsCached ↔ ∀ mac, (s.highWater mac).isSome = true →
      mac ∉ newlyRevoked k s₁ records → s₁.Caches mac := by
  rw [rowsCached_iff]
  constructor
  · intro h mac hrow hkept
    have hsome : ((s₁.ingestAll k records).highWater mac).isSome = true := by
      rw [ingestAll_highWater, if_neg hkept, highWater_of_counters hrows]
      exact hrow
    exact (ingestAll_caches records).mp (h mac hsome) |>.1
  · intro h mac hrow
    rw [ingestAll_highWater] at hrow
    split at hrow
    · cases hrow
    · rename_i hkept
      rw [highWater_of_counters hrows] at hrow
      exact (ingestAll_caches records).mpr ⟨h mac hrow hkept, hkept⟩

/-- Storing a certificate leaves a row behind exactly when it displaces a neighbor
that has one, unless the same OGM revokes that neighbor. -/
theorem store_rowsCached {s₁ : OgmAuth c} (keys : NeighborKeys)
    (records : List RevocationRecord) (hkept : Kept s s₁) (hgood : s.RowsCached) :
    ((s₁.cacheNeighbor keys).1.ingestAll k records).RowsCached ↔
      ∀ mac, s.Displaces keys.mac mac → (s.highWater mac).isSome = true →
        mac ∈ newlyRevoked k s records := by
  have hrows : (s₁.cacheNeighbor keys).1.recvCounters = s.recvCounters :=
    (s₁.cacheNeighbor_counters keys).trans hkept.recvCounters
  have hsame := hkept.toCacheKept.sameRecords.trans (s₁.cacheNeighbor_sameRecords keys)
  have hdisplaces : ∀ mac, s₁.Displaces keys.mac mac ↔ s.Displaces keys.mac mac := by
    intro mac
    rw [Displaces, Displaces, hkept.neighbors]
  have hcached : ∀ mac, (s.highWater mac).isSome = true → s₁.Caches mac := by
    intro mac hrow
    rw [Caches, hkept.neighbors]
    exact rowsCached_iff.mp hgood mac hrow
  rw [ingestAll_rowsCached records hrows, newlyRevoked_congr hsame]
  constructor
  · intro h mac hdisplaced hrow
    by_contra hkeeps
    have hstays := (cacheNeighbor_caches keys (hcached mac hrow)).mp (h mac hrow hkeeps)
    exact hstays ((hdisplaces mac).mpr hdisplaced)
  · intro h mac hrow hkeeps
    apply (cacheNeighbor_caches keys (hcached mac hrow)).mpr
    intro hdisplaced
    exact hkeeps (h mac ((hdisplaces mac).mp hdisplaced) hrow)

theorem RowsCached.of_frame {s' : OgmAuth c} (h : s.RowsCached)
    (hneighbors : s'.neighbors = s.neighbors)
    (hrows : ∀ mac, (s'.highWater mac).isSome = true →
      (s.highWater mac).isSome = true ∨ s.Caches mac) : s'.RowsCached := by
  apply rowsCached_iff.mpr
  intro mac hrow
  rw [Caches, hneighbors]
  rcases hrows mac hrow with hold | hcached
  · exact rowsCached_iff.mp h mac hold
  · exact hcached

theorem RowsCached.of_kept {s' : OgmAuth c} (h : s.RowsCached) (hkept : Kept s s') :
    s'.RowsCached := by
  apply h.of_frame hkept.neighbors
  intro mac hrow
  rw [highWater_of_counters hkept.recvCounters] at hrow
  exact Or.inl hrow

/-! ### One step -/

/-- The step takes no neighbor out of the cache that has a row: neither by a clock
that proves its certificate past, nor by storing another in its slot. -/
def KeepsRows (k : Crypto) (s : OgmAuth c) (op : StateOp) : Prop :=
  (∀ stored, s.stores k op = some stored → ∀ mac, s.Displaces stored mac →
    (s.highWater mac).isSome = true → mac ∈ newlyRevoked k s (recordsOf k s op)) ∧
  ∀ now wall, op = .auth (.setTime now wall) → ∀ n ∈ s.neighbors.toList,
    wall.provesPast n.cert.notAfter = true → s.highWater n.mac = none

theorem keepsRows_of_quiet {op : StateOp} (hstores : s.stores k op = none)
    (htime : ∀ now wall, op ≠ .auth (.setTime now wall)) : KeepsRows k s op := by
  refine ⟨?_, ?_⟩
  · intro stored hsome
    rw [hstores] at hsome
    cases hsome
  · intro now wall hop
    exact absurd hop (htime now wall)

theorem HandsOver.rowsCached {counter : Option Nat} {r : OgmAuth c × Bool}
    (h : s.HandsOver src counter r) (hgood : s.RowsCached) : r.1.RowsCached := by
  obtain ⟨counters, hframe⟩ := h.frame
  apply hgood.of_frame (by rw [hframe])
  intro mac hrow
  rcases h with rfl | ⟨n, _, hcached, rfl⟩
  · exact Or.inl hrow
  · by_cases hmac : mac = src
    · subst hmac
      exact Or.inr hcached
    · rw [(s.spendCounter_spends src n).others mac hmac] at hrow
      exact Or.inl hrow

theorem verifyDirectedNonceFresh_frame (k : Crypto) (s : OgmAuth c) (src : Mac)
    (frame trailer : Bytes) :
    ∃ counters claim, (s.verifyDirectedNonceFresh k src frame trailer).1 =
      { s with recvCounters := counters, restartCandidate := claim } := by
  unfold verifyDirectedNonceFresh
  split
  · obtain ⟨counters, heq⟩ := (verifyDirected_handsOver k s src
      frame trailer).frame
    exact ⟨counters, s.restartCandidate, heq⟩
  split
  · exact ⟨s.recvCounters, s.restartCandidate, rfl⟩
  rename_i counter _
  rcases s.acceptRecvCounter_cases src counter with ⟨s', heq, hs', _⟩ | ⟨heq, _⟩ | ⟨heq, _⟩
  · rw [heq, hs']
    exact ⟨_, _, rfl⟩
  · rw [heq]
    dsimp only
    split
    · exact ⟨s.recvCounters, _, rfl⟩
    · exact ⟨s.recvCounters, _, rfl⟩
  · rw [heq]
    exact ⟨s.recvCounters, s.restartCandidate, rfl⟩

theorem answeredChallenge_finds {neighbor : Mac} {tag : Bytes} {challenge : OutstandingChallenge}
    (h : s.answeredChallenge k neighbor tag = some challenge) :
    (∃ n, s.liveNeighbor neighbor = some n) ∧ s.inProgress.find? neighbor = some challenge := by
  unfold answeredChallenge at h
  split at h
  · rename_i hfind hlive
    split at h
    · obtain rfl := Option.some.inj h
      exact ⟨⟨_, hlive⟩, hfind⟩
    · cases h
  · cases h

theorem answeredChallenge_caches {neighbor : Mac} {tag : Bytes} {challenge : OutstandingChallenge}
    (h : s.answeredChallenge k neighbor tag = some challenge) :
    s.Caches neighbor ∧ s.inProgress.find? neighbor = some challenge := by
  obtain ⟨⟨n, hlive⟩, hfind⟩ := answeredChallenge_finds h
  exact ⟨caches_of_liveNeighbor hlive, hfind⟩

theorem step_rowsCached (hgood : s.RowsCached) (op : AuthOp) :
    (s.step k op).RowsCached ↔ KeepsRows k s (.auth op) := by
  cases op with
  | verifyOgm payload =>
    rcases verifyOgm_cases k s payload with
      ⟨hverdict, hkept⟩ | ⟨hverdict, ogm, tail, s₁, keys, hread, hkept, hmac, heq⟩
    · refine iff_of_true (hgood.of_kept hkept) (keepsRows_of_quiet ?_ (by simp))
      rw [stores, if_neg hverdict]
    · rw [step, heq, store_rowsCached _ _ hkept hgood, KeepsRows, stores, recordsOf, if_pos hverdict,
        if_pos hverdict, hread, hmac]
      simp
  | ingestCertReply body =>
    rcases ingestCertReply_cases k s body with
      ⟨hresult, hkept⟩ | ⟨hresult, cert, rest, keys, hread, hmac, _, hkept⟩
    · refine iff_of_true (hgood.of_kept hkept) (keepsRows_of_quiet ?_ (by simp))
      rw [stores, hresult]
      rfl
    · have hstore := store_rowsCached (k := k) keys [] (.refl s) hgood
      have hiff : (s.step k (.ingestCertReply body)).RowsCached ↔
          (s.cacheNeighbor keys).1.RowsCached := by
        rw [RowsCached, RowsCached, step, hkept.recvCounters, hkept.neighbors]
      refine hiff.trans (hstore.trans ?_)
      rw [KeepsRows, stores, if_pos hresult, hread, hmac]
      simp [recordsOf]
  | verifyCertRequest body =>
    rcases verifyCertRequest_cases k s body with
      ⟨hresult, hkept⟩ | ⟨mac, hresult, s₁, keys, hkept, hmac, _, heq⟩
    · exact iff_of_true (hgood.of_kept hkept) (keepsRows_of_quiet hresult (by simp))
    · have hstore := store_rowsCached (k := k) keys [] hkept hgood
      rw [step, heq]
      refine hstore.trans ?_
      rw [KeepsRows, stores, hresult, hmac]
      simp [recordsOf]
  | buildCertRequest orig fp firstHop bufLen =>
    exact iff_of_true (hgood.of_kept (buildCertRequest_booked orig fp firstHop bufLen))
      (keepsRows_of_quiet rfl (by simp))
  | ingestRevocation record =>
    refine iff_of_true ?_ (keepsRows_of_quiet rfl (by simp))
    apply (ingestAll_rowsCached [record] rfl).mpr
    intro mac hrow _
    exact rowsCached_iff.mp hgood mac hrow
  | takeSelfRevoked =>
    obtain ⟨latch, heq⟩ := s.takeSelfRevoked_frame
    rw [step, heq]
    exact iff_of_true hgood (keepsRows_of_quiet rfl (by simp))
  | setTime now wall =>
    obtain ⟨_, _, hneighbors, _⟩ := s.setTime_spec now wall
    obtain ⟨revocations, neighbors, keyGeneration, hframe⟩ := s.setTime_frame now wall
    have hrows : ∀ mac, (s.setTime now wall).highWater mac = s.highWater mac := by
      intro mac
      apply highWater_of_counters
      rw [hframe]
      rfl
    rw [step, rowsCached_iff]
    constructor
    · intro h
      refine ⟨?_, ?_⟩
      · intro stored hsome
        cases hsome
      · rintro now' wall' ⟨⟩ n hn hpast
        by_contra hrow
        have hsome : ((s.setTime now wall).highWater n.mac).isSome = true := by
          rw [hrows]
          exact Option.isSome_iff_ne_none.mpr hrow
        obtain ⟨m, hm, hmac⟩ := h n.mac hsome
        obtain ⟨hmem, hlive⟩ := (hneighbors m).mp hm
        rw [s.neighbors.eq_of_key hmem hn hmac, hpast] at hlive
        cases hlive
    · intro h mac hrow
      rw [hrows] at hrow
      obtain ⟨n, hn, rfl⟩ := rowsCached_iff.mp hgood mac hrow
      refine ⟨n, (hneighbors n).mpr ⟨hn, ?_⟩, rfl⟩
      apply Bool.eq_false_iff.mpr
      intro hpast
      rw [h.2 now wall rfl n hn hpast] at hrow
      cases hrow
  | pruneExpired =>
    refine iff_of_true ?_ (keepsRows_of_quiet rfl (by simp))
    obtain ⟨revocations, heq⟩ := s.pruneExpired_frame
    rw [step, heq]
    exact hgood

/-- A step from a state in step leads to one exactly when it keeps the rows. -/
theorem after_rowsCached (hgood : s.RowsCached) (op : StateOp) :
    (s.after k op).RowsCached ↔ KeepsRows k s op := by
  cases op with
  | auth op => exact step_rowsCached hgood op
  | verifyDirected src frame trailer =>
    exact iff_of_true ((verifyDirected_handsOver k s src frame trailer).rowsCached hgood)
      (keepsRows_of_quiet rfl (by simp))
  | verifyDirectedNonceFresh src frame trailer =>
    refine iff_of_true ?_ (keepsRows_of_quiet rfl (by simp))
    obtain ⟨counters, claim, hframe⟩ := verifyDirectedNonceFresh_frame k s src frame trailer
    apply hgood.of_frame (by rw [after, perform, hframe])
    intro mac hrow
    rcases verifyDirectedNonceFresh_spends k s src frame trailer with
      hout | ⟨counter, _, hcached, hspends | ⟨hcounters, _⟩⟩
    · rw [after, perform, hout] at hrow
      exact Or.inl hrow
    · by_cases hmac : mac = src
      · subst hmac
        exact Or.inr hcached
      · rw [after, perform, hspends.others mac hmac] at hrow
        exact Or.inl hrow
    · rw [after, perform, highWater_of_counters hcounters] at hrow
      exact Or.inl hrow
  | verifyFanout src frame trailer =>
    exact iff_of_true ((verifyFanout_handsOver k s src frame trailer).rowsCached hgood)
      (keepsRows_of_quiet rfl (by simp))
  | verifyKeepalive src payload =>
    exact iff_of_true ((verifyKeepalive_handsOver k s src payload).rowsCached hgood)
      (keepsRows_of_quiet rfl (by simp))
  | issueChallenge neighbor =>
    refine iff_of_true ?_ (keepsRows_of_quiet rfl (by simp))
    rcases issueChallenge_cases k s neighbor with heq | ⟨_, _, _, _, _, _, heq⟩
    · rw [after, perform, heq]
      exact hgood
    · rw [after, perform, heq]
      exact hgood
  | verifyChallengeResponse neighbor tag =>
    refine iff_of_true ?_ (keepsRows_of_quiet rfl (by simp))
    rcases verifyChallengeResponse_cases k s neighbor tag with
      ⟨_, _, heq⟩ | ⟨_, challenge, hanswered, counters, heq, hcounters⟩
    · rw [after, perform, heq]
      exact hgood
    · rw [after, perform, heq]
      refine RowsCached.of_frame hgood ?_ ?_
      · rfl
      intro mac hrow
      by_cases hmac : mac = neighbor
      · subst hmac
        exact Or.inr (answeredChallenge_caches hanswered).1
      · left
        rcases hcounters with rfl | ⟨counter, _, rfl⟩
        · exact hrow
        · rw [highWater, KeyedVec.find?_put_of_ne hmac] at hrow
          exact hrow
  | tagDirected dst frame trailerLen =>
    exact iff_of_true (hgood.of_kept (tagDirected_booked k s dst frame trailerLen))
      (keepsRows_of_quiet rfl (by simp))
  | signFanout frame trailerLen =>
    exact iff_of_true (hgood.of_kept (signFanout_booked k s frame trailerLen))
      (keepsRows_of_quiet rfl (by simp))
  | augmentKeepalive len bufLen =>
    exact iff_of_true (hgood.of_kept (augmentKeepalive_booked k s len bufLen))
      (keepsRows_of_quiet rfl (by simp))
  | augmentOgm base bufLen lazy =>
    refine iff_of_true ?_ (keepsRows_of_quiet rfl (by simp))
    rcases augmentOgm_cases k s base bufLen lazy with heq | ⟨sent, heq⟩
    · rw [after, perform, heq]
      exact hgood
    · rw [after, perform, heq]
      exact hgood
  | buildRenewalRequest bufLen =>
    refine iff_of_true ?_ (keepsRows_of_quiet rfl (by simp))
    rcases buildRenewalRequest_cases k s bufLen with heq | ⟨_, _, heq⟩
    · rw [after, perform, heq]
      exact hgood
    · rw [after, perform, heq]
      exact hgood
  | ingestRenewReply body =>
    refine iff_of_true ?_ (keepsRows_of_quiet rfl (by simp))
    rcases ingestRenewReply_cases k s body with ⟨_, heq⟩ | ⟨_, _, heq⟩
    · rw [after, perform, heq]
      exact hgood
    · rw [after, perform, heq]
      exact hgood
  | handleRenewReq body =>
    exact iff_of_true (hgood.of_kept (handleRenewReq_booked k s body))
      (keepsRows_of_quiet rfl (by simp))

/-! ### Whole runs -/

/-- In every state of a run each row is a cached neighbor's, and no live neighbor is
starved, exactly if no step takes a neighbor with a row out of the cache. -/
theorem rows_cached_iff (k : Crypto) (keypair : Keypair) (cert : MembershipCert)
    (anchor : TrustAnchor) (ops : List StateOp) :
    Run.AllGood (after k) (fun s => s.RowsCached ∧ s.NeverStarves)
        (withCapacities c keypair cert anchor) ops ↔
      Run.AllSafe (after k) (KeepsRows k) (withCapacities c keypair cert anchor) ops := by
  have hinit : (withCapacities c keypair cert anchor).RowsCached := by
    intro row hrow
    cases hrow
  apply Run.allGood_iff_allSafe ⟨hinit, hinit.neverStarves⟩
  intro pre op hgood
  rw [← after_rowsCached hgood.1 op]
  constructor
  · exact fun h => h.1
  · exact fun h => ⟨h, h.neverStarves⟩

end OgmAuth

namespace SmallMesh

open OgmAuth

/-! ### A cache of one neighbor -/

def mac4 : Mac := cert4.nodeMac

def ogmSignature4 : Octets 64 := signatureOf
  0xe273ce34226d33abbf63eaa1848af49d6bdab3c111d97907c329870ae4e8dac0
  0x60f8a0c6ab9ff602f7cf9fa7aaf6edbe51e96d718a996b96fe53bf84db038e02

/-- Node 4's OGM of sequence number 7. -/
def ogmOf4 : Bytes :=
  BatmanOgmPacket.asBytes { ogmHeader 228 with orig := mac4 } ++
    ([TvlvType.cert.asU8, 1, 0, 156] ++ cert4.asBytes ++
      ([TvlvType.ogmSig.asU8, 1, 0, 64] ++ ogmSignature4.toList))

def signatures4 : List (Octets 32 × Bytes × Octets 64) :=
  [(anchor.rootPubkey, cert4.signedBody, cert4.signature),
    (cert4.edPubkey, ascii "wf-ogm-sig-v1" ++ mac4.asBytes ++ [0, 0, 0, 7] ++ cert4.asBytes,
      ogmSignature4)]

def shared34 : Octets 32 :=
  .be 32 0xe2e4abc7afd399d7c73a7484c32feb809224dcdb1de700f9ed1e0cd0ecf2d23d

def digests4 : List (Bytes × Octets 32) :=
  [(macDeriveLabel ++ cert4.edPubkey.toList,
      .be 32 0xbc717c008e633dac170fa3753a942c08efe0491645162d07725d3355737bf052),
    (pairwiseLabel ++ shared34.toList,
      .be 32 0x71f862485a77f11e9207136496fba82bd0e4046c650d4d7fc7ceab0e32e82b70)]

/-- The primitives with what node 4 and node 3 exchange added. -/
def crypto34 : Crypto where
  verifySignature pubkey msg signature := (pubkey, msg, signature) ∈ signatures4 ∨
    pairwiseCrypto.verifySignature pubkey msg signature = true
  sign := pairwiseCrypto.sign
  blake2s256 msg := ((digests4.find? fun d => d.1 = msg).map Prod.snd).getD
    (pairwiseCrypto.blake2s256 msg)
  edPubkey := pairwiseCrypto.edPubkey
  xPubkey := pairwiseCrypto.xPubkey
  diffieHellman k peer :=
    if peer = cert4.xPubkey then shared34 else pairwiseCrypto.diffieHellman k peer
  low_order k k' peer h := by
    split at h
    · exact absurd h (by decide)
    · rename_i hother
      rw [if_neg hother]
      exact pairwiseCrypto.low_order k k' peer h
  own_key k := by
    split
    · decide
    · exact pairwiseCrypto.own_key k

/-- Node 3 with a cache of one neighbor: node 2 sends a frame, then node 4 takes its slot. -/
def overwritten3 : OgmAuth ⟨1, 2, 2, 2⟩ :=
  (OgmAuth.withCapacities ⟨1, 2, 2, 2⟩ (keypair 3) cert3 anchor).play crypto34
    [.auth (.setTime (Duration.ofSecs 100) (.at 100)), .auth (.verifyOgm (ogm7 228)),
      .verifyDirected mac2 unicastFrame trailer5, .auth (.verifyOgm ogmOf4)]

/-- Node 3 past the end of node 2's certificate. -/
def expired3 : OgmAuth capacities :=
  heard2.play pairwiseCrypto
    [.verifyDirected mac2 unicastFrame trailer5,
      .auth (.setTime (Duration.ofSecs 1001) (.at 1001))]

/-- Overwriting and expiry leave node 2's row behind, and where it fills the table node 4
is refused. -/
theorem row_outlives_neighbor :
    ¬ overwritten3.RowsCached ∧ ¬ overwritten3.NeverStarves ∧ ¬ expired3.RowsCached := by
  refine ⟨by decide +kernel, ?_, by decide +kernel⟩
  intro h
  have hlive : (overwritten3.liveNeighbor mac4).isSome = true := by decide +kernel
  exact h mac4 1 hlive (by decide +kernel)

end SmallMesh

end Wayfinder

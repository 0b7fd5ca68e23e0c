import Wayfinder.EngineRun
import Wayfinder.Lib.Scratch

/-!
# When a neighbor is challenged

Who is due for a challenge and how long until someone is, are worked out separately: the
first compares ages with their bounds, the second subtracts them. No neighbor is due before
the wait is over. At its end one is, when the wait was for a retry; a wait for a proof to
age ends one millisecond early.
-/

namespace Wayfinder

set_option autoImplicit false

namespace BatmanEngine

variable {c : Capacities}

/-! ### The two computations -/

def pathNeighbors (e : BatmanEngine c) : List Mac :=
  (e.originatorTable.values.flatMap fun r => r.paths.toList).map NeighborStats.neighborIdent

/-- The proof is missing or aged, and no attempt is too recent. -/
def challengeDue (e : BatmanEngine c) (now : Duration) (m : Mac) : Bool :=
  e.proofNeedsRefresh now m && (e.challenged.get? m).all fun p =>
    decide (e.challengeBackoffMs p.2 ≤ (Millis.fromDuration now).elapsedSince p.1)

/-- The neighbors to challenge, skipping those its scratch list remembers. -/
def challengeCandidates (e : BatmanEngine c) (now : Duration) : List Mac :=
  if !e.requireProof then []
  else Scratch.once (e.challengeDue now) (.empty : Bounded Mac c.maxOriginators) e.pathNeighbors

/-- `next_challenge_after` with its scratch list. -/
def scanNextChallenge (e : BatmanEngine c) (now : Duration) : Option Duration :=
  if !e.requireProof then none
  else
    Scratch.foldUnseen
      (fun soonest m =>
        let due := Duration.ofMillis (e.challengeDueMs now m)
        some (soonest.elim due fun s => min s due))
      (.empty : Bounded Mac c.maxOriginators) none e.pathNeighbors

def refreshMs (e : BatmanEngine c) (now : Duration) (m : Mac) : Nat :=
  (e.proven.get? m).elim 0 fun p => e.seedIntervalMs - (Millis.fromDuration now).elapsedSince p.1

def retryMs (e : BatmanEngine c) (now : Duration) (m : Mac) : Nat :=
  (e.challenged.get? m).elim 0 fun p =>
    e.challengeBackoffMs p.2 - (Millis.fromDuration now).elapsedSince p.1

section Due
variable {e : BatmanEngine c} {now t : Duration} {m : Mac} {k : Nat}

theorem challengeDueMs_eq : e.challengeDueMs now m = max (e.refreshMs now m) (e.retryMs now m) :=
  rfl

theorem foldl_soonest (f : Mac → Duration) (xs : List Mac) (s : Duration) :
    xs.foldl (fun soonest m => some (soonest.elim (f m) fun s => min s (f m))) (some s) =
      some ((xs.map f).foldl min s) := by
  induction xs generalizing s with
  | nil => rfl
  | cons m xs ih => exact ih (min s (f m))

theorem foldUnseen_soonest (f : Mac → Duration) {n : Nat} (xs : List Mac) :
    Scratch.foldUnseen (fun soonest m => some (soonest.elim (f m) fun s => min s (f m)))
      (.empty : Bounded Mac n) none xs = (xs.map f).min? := by
  rw [Scratch.foldUnseen_eq]
  · cases xs with
    | nil => rfl
    | cons m ms => exact foldl_soonest f ms (f m)
  · intro b x y
    cases b with
    | none => exact congrArg some (Nat.min_comm _ _)
    | some s => exact congrArg some (Nat.min_right_comm s _ _)
  · intro b x
    cases b with
    | none => exact congrArg some (Nat.min_self _)
    | some s =>
      refine congrArg some ?_
      exact Nat.min_eq_left (Nat.min_le_right _ _)
  · intro x hx
    cases hx

theorem map_neighbors {α : Type} (f : Mac → α) :
    ((e.originatorTable.values.flatMap fun r => r.paths.toList).map fun p =>
      f p.neighborIdent) = e.pathNeighbors.map f := by
  rw [pathNeighbors, List.map_map]
  rfl

theorem scanNextChallenge_eq : e.scanNextChallenge now = e.nextChallengeAfter now := by
  unfold scanNextChallenge nextChallengeAfter
  split
  · rfl
  · rw [map_neighbors fun m => Duration.ofMillis (e.challengeDueMs now m)]
    exact foldUnseen_soonest (fun m => Duration.ofMillis (e.challengeDueMs now m)) _

/-! ### Who is due, and when -/

theorem seedIntervalMs_lt : e.seedIntervalMs < 2 ^ 32 := by
  unfold seedIntervalMs asMillisU32
  omega

theorem challengeBackoffMs_le (misses : U32) : e.challengeBackoffMs misses ≤ e.seedIntervalMs := by
  unfold challengeBackoffMs
  dsimp only
  split
  · exact Nat.le_refl _
  · exact Nat.min_le_right _ _

theorem proofNeedsRefresh_iff : e.proofNeedsRefresh now m = true ↔
    ∀ q ∈ e.proven.get? m, e.seedIntervalMs < (Millis.fromDuration now).elapsedSince q.1 := by
  have hseed := seedIntervalMs_lt (e := e)
  unfold proofNeedsRefresh
  cases e.proven.get? m with
  | none => simp
  | some q =>
    have hbudget : min (e.seedIntervalMs * 1) (2 ^ 32 - 1) = e.seedIntervalMs := by omega
    have hstale : isStale (Millis.fromDuration now) q.1 0 e.seedIntervalMs 1 =
        decide (e.seedIntervalMs < (Millis.fromDuration now).elapsedSince q.1) := by
      rw [isStale, if_pos rfl, hbudget]
    simp [hstale]

theorem challengeDue_iff : e.challengeDue now m = true ↔
    (∀ q ∈ e.proven.get? m, e.seedIntervalMs < (Millis.fromDuration now).elapsedSince q.1) ∧
    ∀ p ∈ e.challenged.get? m,
      e.challengeBackoffMs p.2 ≤ (Millis.fromDuration now).elapsedSince p.1 := by
  rw [challengeDue, Bool.and_eq_true, proofNeedsRefresh_iff]
  apply and_congr_right
  intro _
  cases e.challenged.get? m with
  | none => simp
  | some p => simp

theorem refreshMs_le_iff : e.refreshMs now m ≤ k ↔ ∀ q ∈ e.proven.get? m,
    e.seedIntervalMs ≤ (Millis.fromDuration now).elapsedSince q.1 + k := by
  unfold refreshMs
  cases e.proven.get? m with
  | none => simp
  | some q => simp [Nat.sub_le_iff_le_add, Nat.add_comm]

theorem retryMs_le_iff : e.retryMs now m ≤ k ↔ ∀ p ∈ e.challenged.get? m,
    e.challengeBackoffMs p.2 ≤ (Millis.fromDuration now).elapsedSince p.1 + k := by
  unfold retryMs
  cases e.challenged.get? m with
  | none => simp
  | some p => simp [Nat.sub_le_iff_le_add, Nat.add_comm]

theorem challengeDueMs_le_iff : e.challengeDueMs now m ≤ k ↔
    (∀ q ∈ e.proven.get? m,
      e.seedIntervalMs ≤ (Millis.fromDuration now).elapsedSince q.1 + k) ∧
    ∀ p ∈ e.challenged.get? m,
      e.challengeBackoffMs p.2 ≤ (Millis.fromDuration now).elapsedSince p.1 + k := by
  rw [challengeDueMs_eq, max_le_iff, refreshMs_le_iff, retryMs_le_iff]

theorem challengeDueMs_le_of_due (h : t.asMillis = now.asMillis + k)
    (hdue : e.challengeDue t m = true) : e.challengeDueMs now m ≤ k := by
  obtain ⟨hproof, hbackoff⟩ := challengeDue_iff.mp hdue
  apply challengeDueMs_le_iff.mpr
  constructor
  · intro q hq
    have hage := Millis.elapsedSince_le h q.1
    have hold := hproof q hq
    omega
  · intro p hp
    exact Nat.le_trans (hbackoff p hp) (Millis.elapsedSince_le h p.1)


theorem challengeDue_now_iff : e.challengeDue now m = true ↔ e.challengeDueMs now m ≤ 0 ∧
    ∀ q ∈ e.proven.get? m, (Millis.fromDuration now).elapsedSince q.1 ≠ e.seedIntervalMs := by
  rw [challengeDue_iff, challengeDueMs_le_iff]
  constructor
  · intro ⟨hproof, hbackoff⟩
    refine ⟨⟨?_, hbackoff⟩, ?_⟩
    · intro q hq
      exact Nat.le_of_lt (hproof q hq)
    · intro q hq
      exact Nat.ne_of_gt (hproof q hq)
  · intro ⟨⟨hproof, hbackoff⟩, hne⟩
    refine ⟨?_, hbackoff⟩
    intro q hq
    exact Nat.lt_of_le_of_ne (hproof q hq) (hne q hq).symm

/-! ### The wait for a retry -/

/-- `m` keeps the schedule waiting for `k` milliseconds: for its proof to age, or for its last
attempt to. -/
def WaitsFor (e : BatmanEngine c) (now : Duration) (m : Mac) (k : Nat) : Prop :=
  (∃ q ∈ e.proven.get? m,
    (Millis.fromDuration now).elapsedSince q.1 + k ≤ e.seedIntervalMs) ∨
  ∃ p ∈ e.challenged.get? m,
    (Millis.fromDuration now).elapsedSince p.1 + k ≤ e.challengeBackoffMs p.2

instance : Decidable (e.WaitsFor now m k) := by
  unfold WaitsFor
  infer_instance

def backoffLeft (e : BatmanEngine c) (now : Duration) (p : Millis × U32) : Nat :=
  e.challengeBackoffMs p.2 - (Millis.fromDuration now).elapsedSince p.1

/-- The backoff since `p` ends on a proof of `m` that is missing or aged by then. The attempt
is not stamped ahead, and no age runs past half the range of the clock. -/
structure EndsBackoff (e : BatmanEngine c) (now : Duration) (m : Mac) (p : Millis × U32) :
    Prop where
  behind : 0 ≤ Serial.dist p.1.raw (Millis.fromDuration now).raw
  backoffShort : 2 * e.challengeBackoffMs p.2 < 2 ^ 32
  proofAged : ∀ q ∈ e.proven.get? m,
    e.seedIntervalMs < (Millis.fromDuration now).elapsedSince q.1 + e.backoffLeft now p ∧
    2 * ((Millis.fromDuration now).elapsedSince q.1 + e.backoffLeft now p) < 2 ^ 32

instance {p : Millis × U32} : Decidable (e.EndsBackoff now m p) :=
  decidable_of_iff
    ((0 ≤ Serial.dist p.1.raw (Millis.fromDuration now).raw ∧
      2 * e.challengeBackoffMs p.2 < 2 ^ 32) ∧ ∀ q ∈ e.proven.get? m,
        e.seedIntervalMs < (Millis.fromDuration now).elapsedSince q.1 + e.backoffLeft now p ∧
        2 * ((Millis.fromDuration now).elapsedSince q.1 + e.backoffLeft now p) < 2 ^ 32)
    ⟨fun ⟨⟨h, h'⟩, h''⟩ => ⟨h, h', h''⟩, fun ⟨h, h', h''⟩ => ⟨⟨h, h'⟩, h''⟩⟩

theorem waitsFor_iff (hk : 0 < k) : e.WaitsFor now m k ↔ k ≤ e.challengeDueMs now m := by
  have hle : e.challengeDueMs now m ≤ k - 1 ↔ _ := challengeDueMs_le_iff
  have hflip : k ≤ e.challengeDueMs now m ↔ ¬ e.challengeDueMs now m ≤ k - 1 := by omega
  rw [hflip, hle, not_and_or, WaitsFor]
  push Not
  apply or_congr
  · apply exists_congr
    intro q
    apply and_congr_right
    intro _
    omega
  · apply exists_congr
    intro p
    apply and_congr_right
    intro _
    omega

/-- When the wait for `m` is over, `m` is due exactly if a backoff ended. -/
theorem challengeDue_later_iff (h : t.asMillis = now.asMillis + k) (hk : 0 < k)
    (hwait : e.challengeDueMs now m = k) : e.challengeDue t m = true ↔
      ∃ p ∈ e.challenged.get? m, e.backoffLeft now p = k ∧ e.EndsBackoff now m p := by
  have hseed := seedIntervalMs_lt (e := e)
  obtain ⟨hrenew, hretry⟩ := challengeDueMs_le_iff.mp (Nat.le_of_eq hwait)
  rw [challengeDue_iff, Millis.fromDuration_of_asMillis h]
  constructor
  · intro ⟨hproof, hbackoff⟩
    have hold : ∀ q ∈ e.proven.get? m,
        e.seedIntervalMs < (Millis.fromDuration now).elapsedSince q.1 + k := by
      intro q hq
      exact Nat.lt_of_lt_of_le (hproof q hq) (Serial.elapsed_add_le _ _ k)
    rcases (waitsFor_iff hk).mpr (Nat.le_of_eq hwait.symm) with ⟨q, hq, hfresh⟩ | ⟨p, hp, hleft⟩
    · have := hold q hq
      omega
    · have hat := hretry p hp
      have hsum : e.challengeBackoffMs p.2 =
          (Millis.fromDuration now).elapsedSince p.1 + k := by omega
      have hleft : e.backoffLeft now p = k := by rw [backoffLeft]; omega
      have hcap := challengeBackoffMs_le (e := e) p.2
      obtain ⟨hbehind, hshort⟩ :=
        (Serial.reach_iff hk hsum (by omega)).mp (hbackoff p hp)
      refine ⟨p, hp, hleft, hbehind, hshort, ?_⟩
      intro q hq
      rw [hleft]
      exact ⟨hold q hq, (Serial.beyond_iff (hold q hq) (by omega)).mp (hproof q hq)⟩
  · intro ⟨p, hp, hleft, hends⟩
    have hcap := challengeBackoffMs_le (e := e) p.2
    have hsum : e.challengeBackoffMs p.2 =
        (Millis.fromDuration now).elapsedSince p.1 + k := by
      rw [backoffLeft] at hleft
      omega
    constructor
    · intro q hq
      obtain ⟨hold, hshort⟩ := hends.proofAged q hq
      rw [hleft] at hold hshort
      exact (Serial.beyond_iff hold (by omega)).mpr hshort
    · intro p' hp'
      rw [Option.mem_def] at hp hp'
      obtain rfl := Option.some_inj.mp (hp.symm.trans hp')
      exact (Serial.reach_iff hk hsum (by omega)).mpr ⟨hends.behind, hends.backoffShort⟩


/-! ### The schedule -/

/-- A wait of zero says that some neighbor is due. A longer one says that none is before it is
over, and that one is at its end. No neighbor is challenged twice in one pass. -/
structure ChallengesScheduled (e : BatmanEngine c) (now : Duration) : Prop where
  dueNow : e.scanNextChallenge now = some 0 ↔ e.challengeCandidates now ≠ []
  wait : ∀ d, 0 < d → e.scanNextChallenge now = some d →
    (∀ t, now ≤ t → t < now + d → e.challengeCandidates t = []) ∧
    e.challengeCandidates (now + d) ≠ []
  oncePerPass : (e.challengeCandidates now).Nodup

/-- No proof is exactly as old as the seed interval where nothing else holds a challenge back;
the soonest wait is for a backoff, counted from a whole millisecond; and the neighbors that are
due after the scratch list is full offer one path each. -/
structure Punctual (e : BatmanEngine c) (now : Duration) : Prop where
  settled : (∃ m ∈ e.pathNeighbors, ¬ e.WaitsFor now m 1) →
    ∃ m ∈ e.pathNeighbors, ¬ e.WaitsFor now m 1 ∧ ∀ q ∈ e.proven.get? m,
      (Millis.fromDuration now).elapsedSince q.1 ≠ e.seedIntervalMs
  retry : e.pathNeighbors ≠ [] → (∀ m ∈ e.pathNeighbors, e.WaitsFor now m 1) →
    now % Duration.ofMillis 1 = 0 ∧ ∃ m ∈ e.pathNeighbors, ∃ p ∈ e.challenged.get? m,
      e.EndsBackoff now m p ∧ ∀ m' ∈ e.pathNeighbors, e.WaitsFor now m' (e.backoffLeft now p)
  remembered : ∀ m ∈ (Scratch.firsts (e.challengeDue now)
      (.empty : Bounded Mac c.maxOriginators) e.pathNeighbors).drop c.maxOriginators,
    e.pathNeighbors.count m = 1

theorem challengeCandidates_eq (hproof : e.requireProof = true) : e.challengeCandidates t =
    Scratch.once (e.challengeDue t) (.empty : Bounded Mac c.maxOriginators) e.pathNeighbors := by
  rw [challengeCandidates, hproof]
  rfl

theorem challengeCandidates_ne_nil (hproof : e.requireProof = true) :
    e.challengeCandidates t ≠ [] ↔ ∃ m ∈ e.pathNeighbors, e.challengeDue t m = true := by
  rw [challengeCandidates_eq hproof, ne_eq, Scratch.once_eq_nil_iff]
  push Not
  apply exists_congr
  intro m
  apply and_congr_right
  intro _
  rw [ne_eq, Bool.not_eq_false, Scratch.fresh_iff]
  apply and_iff_left
  intro hm
  cases hm

theorem scanNextChallenge_eq_some (hproof : e.requireProof = true) {d : Duration} :
    e.scanNextChallenge now = some d ↔ ∃ m ∈ e.pathNeighbors,
      d = Duration.ofMillis (e.challengeDueMs now m) ∧
      ∀ m' ∈ e.pathNeighbors, e.challengeDueMs now m ≤ e.challengeDueMs now m' := by
  rw [scanNextChallenge_eq, nextChallengeAfter, hproof, Bool.not_true, if_neg (by decide),
    map_neighbors fun m => Duration.ofMillis (e.challengeDueMs now m), List.min?_eq_some_iff]
  constructor
  · intro ⟨hmem, hleast⟩
    obtain ⟨m, hm, rfl⟩ := List.mem_map.mp hmem
    refine ⟨m, hm, rfl, ?_⟩
    intro m' hm'
    exact Duration.ofMillis_le_ofMillis.mp (hleast _ (List.mem_map_of_mem hm'))
  · rintro ⟨m, hm, rfl, hleast⟩
    refine ⟨List.mem_map_of_mem hm, ?_⟩
    intro b hb
    obtain ⟨m', hm', rfl⟩ := List.mem_map.mp hb
    exact Duration.ofMillis_le_ofMillis.mpr (hleast m' hm')

theorem scanNextChallenge_eq_zero (hproof : e.requireProof = true) :
    e.scanNextChallenge now = some 0 ↔ ∃ m ∈ e.pathNeighbors, e.challengeDueMs now m ≤ 0 := by
  rw [scanNextChallenge_eq_some hproof]
  apply exists_congr
  intro m
  apply and_congr_right
  intro _
  have hzero : (0 : Duration) = Duration.ofMillis (e.challengeDueMs now m) ↔
      e.challengeDueMs now m ≤ 0 := by
    rw [Nat.le_zero]
    exact eq_comm.trans (Duration.ofMillis_inj (b := 0))
  rw [hzero]
  apply and_iff_left_of_imp
  intro hle m' _
  exact Nat.le_trans hle (Nat.zero_le _)

theorem not_waitsFor_one : ¬ e.WaitsFor now m 1 ↔ e.challengeDueMs now m ≤ 0 := by
  rw [waitsFor_iff Nat.one_pos]
  omega

/-- The two computations agree on whether anyone is due, exactly if no proof stands on the
very end of its interval. -/
theorem dueNow_iff (hproof : e.requireProof = true) :
    (e.scanNextChallenge now = some 0 ↔ e.challengeCandidates now ≠ []) ↔
      ((∃ m ∈ e.pathNeighbors, ¬ e.WaitsFor now m 1) →
        ∃ m ∈ e.pathNeighbors, ¬ e.WaitsFor now m 1 ∧ ∀ q ∈ e.proven.get? m,
          (Millis.fromDuration now).elapsedSince q.1 ≠ e.seedIntervalMs) := by
  rw [scanNextChallenge_eq_zero hproof, challengeCandidates_ne_nil hproof]
  simp only [not_waitsFor_one, challengeDue_now_iff]
  constructor
  · exact Iff.mp
  · intro h
    refine ⟨h, ?_⟩
    rintro ⟨m, hm, hwait, _⟩
    exact ⟨m, hm, hwait⟩

theorem asMillis_lt_of_lt (hnow : now % Duration.ofMillis 1 = 0)
    (ht : t < now + Duration.ofMillis k) : t.asMillis < now.asMillis + k := by
  rw [Duration.asMillis_lt_iff, Duration.ofMillis_add, Duration.ofMillis_asMillis.mpr hnow]
  exact ht

theorem EndsBackoff.dueMs {p : Millis × U32} (h : e.EndsBackoff now m p)
    (hp : p ∈ e.challenged.get? m) : e.challengeDueMs now m ≤ e.backoffLeft now p := by
  apply challengeDueMs_le_iff.mpr
  constructor
  · intro q hq
    exact Nat.le_of_lt (h.proofAged q hq).1
  · intro p' hp'
    rw [Option.mem_def] at hp hp'
    obtain rfl := Option.some_inj.mp (hp.symm.trans hp')
    rw [backoffLeft]
    omega

theorem wait_iff (hproof : e.requireProof = true) :
    (∀ d, 0 < d → e.scanNextChallenge now = some d →
      (∀ t, now ≤ t → t < now + d → e.challengeCandidates t = []) ∧
      e.challengeCandidates (now + d) ≠ []) ↔
    (e.pathNeighbors ≠ [] → (∀ m ∈ e.pathNeighbors, e.WaitsFor now m 1) →
      now % Duration.ofMillis 1 = 0 ∧ ∃ m ∈ e.pathNeighbors, ∃ p ∈ e.challenged.get? m,
        e.EndsBackoff now m p ∧
        ∀ m' ∈ e.pathNeighbors, e.WaitsFor now m' (e.backoffLeft now p)) := by
  have hend : ∀ k, (now + Duration.ofMillis k).asMillis = now.asMillis + k :=
    Duration.asMillis_add_ofMillis now
  constructor
  · intro hwait hne hall
    obtain ⟨d, hd⟩ : ∃ d, e.scanNextChallenge now = some d := by
      cases hscan : e.scanNextChallenge now with
      | some d => exact ⟨d, rfl⟩
      | none =>
        rw [scanNextChallenge_eq, nextChallengeAfter, hproof, Bool.not_true,
          if_neg (by decide), List.min?_eq_none_iff, List.map_eq_nil_iff] at hscan
        exact absurd (by rw [pathNeighbors, hscan]; rfl) hne
    obtain ⟨m, hm, rfl, hleast⟩ := (scanNextChallenge_eq_some hproof).mp hd
    have hk : 0 < e.challengeDueMs now m := (waitsFor_iff Nat.one_pos).mp (hall m hm)
    obtain ⟨hquiet, hover⟩ := hwait _ (Nat.mul_pos hk (by decide)) hd
    obtain ⟨m', hm', hdue⟩ := (challengeCandidates_ne_nil hproof).mp hover
    have hsame : e.challengeDueMs now m' = e.challengeDueMs now m :=
      Nat.le_antisymm (challengeDueMs_le_of_due (hend _) hdue) (hleast m' hm')
    have hlater := challengeDue_later_iff (hend _) hk hsame
    obtain ⟨p, hp, hleft, hends⟩ := hlater.mp hdue
    constructor
    · by_contra hfrac
      -- The millisecond of the end begins before the wait is over.
      have hlater := challengeDue_later_iff (Duration.asMillis_ofMillis _) hk hsame
      have hstart : now < Duration.ofMillis (now.asMillis + e.challengeDueMs now m) :=
        Duration.asMillis_lt_iff.mp (by omega)
      have hbegun : Duration.ofMillis (now.asMillis + e.challengeDueMs now m) <
          now + Duration.ofMillis (e.challengeDueMs now m) := by
        rw [Duration.ofMillis_add]
        apply Nat.add_lt_add_right
        apply Nat.lt_of_le_of_ne (Duration.ofMillis_asMillis_le now)
        exact fun h => hfrac (Duration.ofMillis_asMillis.mp h)
      have hnil := hquiet _ (Nat.le_of_lt hstart) hbegun
      refine (challengeCandidates_ne_nil hproof).mpr ⟨m', hm', ?_⟩ hnil
      exact hlater.mpr ⟨p, hp, hleft, hends⟩
    · refine ⟨m', hm', p, hp, hends, ?_⟩
      intro m'' hm''
      rw [hleft]
      exact (waitsFor_iff hk).mpr (hleast m'' hm'')
  · intro hretry d hd hscan
    obtain ⟨m, hm, rfl, hleast⟩ := (scanNextChallenge_eq_some hproof).mp hscan
    have hk : 0 < e.challengeDueMs now m := by
      unfold Duration.ofMillis at hd
      exact Nat.pos_of_mul_pos_right hd
    obtain ⟨hnow, m', hm', p, hp, hends, hothers⟩ := hretry (List.ne_nil_of_mem hm) (by
      intro m'' hm''
      exact (waitsFor_iff Nat.one_pos).mpr (Nat.lt_of_lt_of_le hk (hleast m'' hm'')))
    have hle := hends.dueMs hp
    have hpos : 0 < e.backoffLeft now p :=
      Nat.lt_of_lt_of_le (Nat.lt_of_lt_of_le hk (hleast m' hm')) hle
    have hleft : e.backoffLeft now p = e.challengeDueMs now m :=
      Nat.le_antisymm ((waitsFor_iff hpos).mp (hothers m hm)) (Nat.le_trans (hleast m' hm') hle)
    have hsame : e.challengeDueMs now m' = e.challengeDueMs now m :=
      Nat.le_antisymm (by rw [← hleft]; exact hle) (hleast m' hm')
    constructor
    · intro t hle ht
      by_contra hsome
      obtain ⟨m'', hm'', hdue⟩ := (challengeCandidates_ne_nil hproof).mp hsome
      have hmono : now.asMillis ≤ t.asMillis := Nat.div_le_div_right hle
      have hlt := asMillis_lt_of_lt hnow ht
      have hwait := challengeDueMs_le_of_due
        (show t.asMillis = now.asMillis + (t.asMillis - now.asMillis) by omega) hdue
      have hle := hleast m'' hm''
      omega
    · apply (challengeCandidates_ne_nil hproof).mpr
      exact ⟨m', hm', (challengeDue_later_iff (hend _) hk hsame).mpr ⟨p, hp, hleft, hends⟩⟩

theorem oncePerPass_iff (hproof : e.requireProof = true) :
    (e.challengeCandidates now).Nodup ↔ ∀ m ∈ (Scratch.firsts (e.challengeDue now)
        (.empty : Bounded Mac c.maxOriginators) e.pathNeighbors).drop c.maxOriginators,
      e.pathNeighbors.count m = 1 := by
  rw [challengeCandidates_eq hproof]
  exact Scratch.once_nodup_iff

/-- The schedule of challenges is kept exactly at the instants at which the engine is
punctual. -/
theorem challenges_scheduled (hproof : e.requireProof = true) :
    e.ChallengesScheduled now ↔ e.Punctual now := by
  constructor
  · intro ⟨hnow, hwait, honce⟩
    exact ⟨(dueNow_iff hproof).mp hnow, (wait_iff hproof).mp hwait,
      (oncePerPass_iff hproof).mp honce⟩
  · intro ⟨hsettled, hretry, hremembered⟩
    exact ⟨(dueNow_iff hproof).mpr hsettled, (wait_iff hproof).mpr hretry,
      (oncePerPass_iff hproof).mpr hremembered⟩

end Due

/-- A node that demands proof hears a neighbor, and challenges it to the end. -/
def provenAtStart : BatmanEngine smallCapacities :=
  let e := (new smallCapacities (Mac.low 1)).setRequireProof true
  let e := (e.handleRx 0 (ogmFrom (Mac.low 2) (Mac.low 2) 1 255) none 64 .unbounded).1
  e.noteProven 0 (Mac.low 2) 0

/-- Challenged again after two seconds, in vain: the schedule waits for the backoff. -/
theorem challenges_scheduled_backoff :
    ((provenAtStart.noteChallenged (Duration.ofSecs 2) (Mac.low 2)).ChallengesScheduled
      (Duration.ofMillis 2400)) ∧
    (provenAtStart.noteChallenged (Duration.ofSecs 2) (Mac.low 2)).scanNextChallenge
      (Duration.ofMillis 2400) = some (Duration.ofMillis 600) := by
  refine ⟨(challenges_scheduled (by decide +kernel)).mpr ⟨?_, ?_, ?_⟩, by decide +kernel⟩
  · decide +kernel
  · decide +kernel
  · decide +kernel

/-- A second after the proof its renewal is called due, and nobody is there to challenge. -/
theorem provenAtStart_unscheduled : provenAtStart.requireProof = true ∧
    provenAtStart.scanNextChallenge (Duration.ofSecs 1) = some 0 ∧
    provenAtStart.challengeCandidates (Duration.ofSecs 1) = [] ∧
    ¬ provenAtStart.ChallengesScheduled (Duration.ofSecs 1) := by
  have hzero : provenAtStart.scanNextChallenge (Duration.ofSecs 1) = some 0 := by decide +kernel
  have hnil : provenAtStart.challengeCandidates (Duration.ofSecs 1) = [] := by decide +kernel
  refine ⟨by decide +kernel, hzero, hnil, ?_⟩
  intro h
  exact h.dueNow.mp hzero hnil


end BatmanEngine

end Wayfinder

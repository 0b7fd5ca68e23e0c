import Wayfinder.Membership
import Wayfinder.Lib.Run

/-!
# The learned cadence and the purge budget

A path is dropped when it has been silent for six times its learned interval. The
interval is a decaying peak hold over the gaps between its OGMs, and the seed stands in
for it until it is first written. Once a whole round gap has been held, the hold covers
the next, doubled one, whatever bursts come in between. The first gap of all may be one
inside a burst, and is held as the cadence.
-/

namespace Wayfinder

set_option autoImplicit false

open Table

namespace BatmanEngine

variable {c : Capacities}

/-! ### What is heard on one path -/

/-- One more OGM on a path, `gap` after the last one. -/
structure Arrival where
  gap : Duration
  newRound : Bool
  seqno : U32
  tq : U8
  deriving DecidableEq

/-- A path beside the rounds its OGMs came in: the last gap between two rounds, the
OGMs of this round so far, and the longest gap yet in milliseconds. -/
structure HeardPath where
  path : NeighborStats
  now : Duration
  roundGap : Option Duration
  inRound : Nat
  longest : Nat

/-- The path as its very first OGM leaves it. -/
def discover (src : Mac) (tq : U8) (seqno : U32) (now : Duration) : HeardPath where
  path := ⟨src, tq, seqno, Millis.fromDuration now, 0⟩
  now := now
  roundGap := none
  inRound := 1
  longest := 0

def gapMs (h : HeardPath) (a : Arrival) : Nat := (h.now + a.gap).asMillis - h.now.asMillis

def hear (h : HeardPath) (a : Arrival) : HeardPath where
  path := refreshPath h.path a.tq a.seqno (Millis.fromDuration (h.now + a.gap))
  now := h.now + a.gap
  roundGap := if a.newRound then some a.gap else h.roundGap
  inRound := if a.newRound then 1 else h.inRound + 1
  longest := max h.longest (gapMs h a)

/-- A Trickle emitter: rounds of up to eight OGMs, their numbers increasing, the gaps
between rounds at most doubling and those inside a round no longer than the last of them. -/
structure Paced (seed : Duration) (h : HeardPath) (a : Arrival) : Prop where
  newer : h.path.lastSeqno < a.seqno
  later : 0 < a.gap
  spaced : a.newRound = true → Duration.ofMillis 100 ≤ a.gap
  seeded : a.newRound = true → h.roundGap = none → a.gap ≤ seed
  doubled : a.newRound = true → ∀ g, h.roundGap = some g → a.gap ≤ 2 * g
  short : a.newRound = false → h.inRound < 8
  within : a.newRound = false → ∀ g, h.roundGap = some g → a.gap ≤ g

instance (seed : Duration) (h : HeardPath) (a : Arrival) : Decidable (Paced seed h a) :=
  decidable_of_iff
    (h.path.lastSeqno < a.seqno ∧ 0 < a.gap ∧
      (a.newRound = true → Duration.ofMillis 100 ≤ a.gap ∧
        a.gap ≤ h.roundGap.elim seed fun g => 2 * g) ∧
      (a.newRound = false → h.inRound < 8 ∧ a.gap ≤ h.roundGap.elim a.gap id)) <| by
    constructor
    · intro ⟨newer, later, round, burst⟩
      refine ⟨newer, later, fun hn => (round hn).1, ?_, ?_, fun hn => (burst hn).1, ?_⟩
      · intro hn hg
        simpa [hg] using (round hn).2
      · intro hn g hg
        simpa [hg] using (round hn).2
      · intro hn g hg
        simpa [hg] using (burst hn).2
    · intro h'
      refine ⟨h'.newer, h'.later, fun hn => ⟨h'.spaced hn, ?_⟩, fun hn => ⟨h'.short hn, ?_⟩⟩
      · cases hg : h.roundGap with
        | none => exact h'.seeded hn hg
        | some g => exact h'.doubled hn g hg
      · cases hg : h.roundGap with
        | none => exact Nat.le_refl _
        | some g => exact h'.within hn g hg

/-- The silence a path is allowed. -/
def budgetMs (path : NeighborStats) (seedMs : Nat) : Nat :=
  min ((if path.intervalEstimateMs = 0 then seedMs else path.intervalEstimateMs) * maxMissedOgms)
    (2 ^ 32 - 1)

/-- Up to the next arrival the path is not stale, and no sweep takes it from a record. -/
def Kept (seedMs : Nat) (h : HeardPath) (a : Arrival) : Prop :=
  ∀ t, h.now ≤ t → t ≤ h.now + a.gap →
    pathStale (Millis.fromDuration t) h.path seedMs = false ∧
    ∀ (c : Capacities) (e : BatmanEngine c) (orig : Mac) (record : OriginatorRecord),
      e.seedIntervalMs = seedMs → e.originatorTable.get? orig = some record →
      h.path ∈ record.paths.toList →
      ∃ record', (e.purgeStale t).originatorTable.get? orig = some record' ∧
        h.path ∈ record'.paths.toList

/-- Where no round gap has been held yet, or a gap has been too long for a stamp to tell,
the next gap has to be within what the path was left with. -/
def Covered (seedMs : Nat) (h : HeardPath) (a : Arrival) : Prop :=
  h.roundGap = none ∨ 2 ^ 31 ≤ max h.longest (gapMs h a) →
    min (gapMs h a) (2 ^ 31 - 1) ≤ budgetMs h.path seedMs

instance (seedMs : Nat) (h : HeardPath) (a : Arrival) : Decidable (Covered seedMs h a) := by
  unfold Covered
  infer_instance

/-! ### The same in a record -/

theorem learnPath_hears {r : OriginatorRecord} (hd : r.DistinctPaths) {h : HeardPath}
    (hpath : h.path ∈ r.paths.toList) (a : Arrival) :
    (hear h a).path ∈ (learnPath r h.path.neighborIdent a.tq a.seqno
      (Millis.fromDuration (h.now + a.gap))).paths.toList := by
  unfold learnPath
  cases hi : r.paths.toList.findIdx? fun p => p.neighborIdent = h.path.neighborIdent with
  | some i =>
    obtain ⟨hlt, hident, _⟩ := List.findIdx?_eq_some_iff_getElem.mp hi
    have hsingle := OriginatorRecord.filter_eq_singleton hd hpath
    have hfound : r.paths.toList[i] = h.path := by
      have hmem : r.paths.toList[i] ∈ r.paths.toList.filter fun p =>
          p.neighborIdent = h.path.neighborIdent :=
        List.mem_filter.mpr ⟨List.getElem_mem hlt, hident⟩
      rw [hsingle] at hmem
      exact List.mem_singleton.mp hmem
    have hmodified := List.modify_eq_take_cons_drop
      (f := fun p => refreshPath p a.tq a.seqno (Millis.fromDuration (h.now + a.gap))) hlt
    rw [hfound] at hmodified
    dsimp only
    rw [hmodified]
    exact List.mem_append_right _ (List.mem_cons_self ..)
  | none =>
    have hnone := List.findIdx?_eq_none_iff.mp hi h.path hpath
    simp at hnone

theorem learnPath_discovers {r : OriginatorRecord} {src : Mac} {tq : U8} {seqno : U32}
    {now : Duration} (hnew : ∀ p ∈ r.paths.toList, p.neighborIdent ≠ src)
    (hroom : r.paths.toList.length < maxPaths) :
    (discover src tq seqno now).path ∈
      (learnPath r src tq seqno (Millis.fromDuration now)).paths.toList := by
  have hi : r.paths.toList.findIdx? (fun p => p.neighborIdent = src) = none := by
    apply List.findIdx?_eq_none_iff.mpr
    intro p hp
    simpa using hnew p hp
  unfold learnPath
  rw [hi]
  dsimp only
  rw [BoundedVec.pushD_of_lt hroom]
  exact List.mem_append_right _ (List.mem_singleton.mpr rfl)

theorem purgeStale_keeps {e : BatmanEngine c} {now : Duration} {orig : Mac}
    {record : OriginatorRecord} {p : NeighborStats}
    (hget : e.originatorTable.get? orig = some record) (hp : p ∈ record.paths.toList)
    (hfresh : pathStale (Millis.fromDuration now) p e.seedIntervalMs = false) :
    ∃ record', (e.purgeStale now).originatorTable.get? orig = some record' ∧
      p ∈ record'.paths.toList := by
  obtain ⟨sel, hsweep⟩ := e.purgeStale_record now orig
  have hleft : p ∈ (recomputeBest (prunePaths record fun p =>
      !pathStale (Millis.fromDuration now) p e.seedIntervalMs) sel).paths.toList := by
    rw [recomputeBest_paths]
    apply List.mem_filter.mpr
    exact ⟨hp, by rw [hfresh]; rfl⟩
  refine ⟨_, ?_, hleft⟩
  rw [hsweep, hget, Option.map_some, Option.filter_eq_some_iff]
  refine ⟨rfl, ?_⟩
  rw [Bool.not_eq_true', List.isEmpty_eq_false_iff]
  exact List.ne_nil_of_mem hleft

/-! ### The budget against the next gap -/

theorem elapsedSince_lt (now earlier : Millis) : now.elapsedSince earlier < 2 ^ 31 := by
  have hhalf := Serial.dist_lt_half earlier.raw now.raw
  unfold Millis.elapsedSince Serial.elapsed
  omega

theorem pathStale_eq_false {now : Millis} {path : NeighborStats} {seedMs : Nat} :
    pathStale now path seedMs = false ↔ now.elapsedSince path.lastHeard ≤ budgetMs path seedMs := by
  unfold pathStale isStale budgetMs
  simp

theorem elapsedSince_le {now t : Duration} (h : now ≤ t) :
    (Millis.fromDuration t).elapsedSince (Millis.fromDuration now) ≤
      min (t.asMillis - now.asMillis) (2 ^ 31 - 1) := by
  have hmono := Duration.asMillis_mono h
  have hlt := elapsedSince_lt (Millis.fromDuration t) (Millis.fromDuration now)
  by_cases hshort : t.asMillis - now.asMillis < 2 ^ 31
  · rw [Millis.elapsedSince_fromDuration hmono hshort]
    omega
  · omega

theorem ofMillis_le_of_asMillis {now gap ms : Nat}
    (h : ms + 1 ≤ Duration.asMillis (now + gap) - Duration.asMillis now) :
    Duration.ofMillis ms ≤ gap := by
  unfold Duration.asMillis at h
  show ms * 1000000 ≤ gap
  omega

theorem kept_iff {seedMs : Nat} {h : HeardPath} {a : Arrival}
    (hheard : h.path.lastHeard = Millis.fromDuration h.now) :
    Kept seedMs h a ↔ min (gapMs h a) (2 ^ 31 - 1) ≤ budgetMs h.path seedMs := by
  constructor
  · intro hkept
    by_cases hshort : gapMs h a < 2 ^ 31
    · obtain ⟨hfresh, -⟩ := hkept (h.now + a.gap) (Nat.le_add_right _ _) (Nat.le_refl _)
      rw [pathStale_eq_false, hheard, Millis.elapsedSince_fromDuration
        (Duration.asMillis_mono (Nat.le_add_right _ _)) hshort] at hfresh
      exact Nat.le_trans (Nat.min_le_left _ _) hfresh
    · -- the moment at which the stamp shows the longest silence it can
      have hms : (h.now + Duration.ofMillis (2 ^ 31 - 1)).asMillis =
          h.now.asMillis + (2 ^ 31 - 1) := by
        unfold Duration.asMillis Duration.ofMillis
        omega
      have hlate : h.now + Duration.ofMillis (2 ^ 31 - 1) ≤ h.now + a.gap := by
        apply Nat.add_le_add_left
        exact ofMillis_le_of_asMillis (Nat.le_of_not_lt hshort)
      obtain ⟨hfresh, -⟩ := hkept _ (Nat.le_add_right _ _) hlate
      rw [pathStale_eq_false, hheard, Millis.elapsedSince_fromDuration
        (Duration.asMillis_mono (Nat.le_add_right _ _)) (by omega)] at hfresh
      omega
  · intro hbudget t hfrom hto
    have hfresh : pathStale (Millis.fromDuration t) h.path seedMs = false := by
      rw [pathStale_eq_false, hheard]
      have hgap : t.asMillis - h.now.asMillis ≤ gapMs h a :=
        Nat.sub_le_sub_right (Duration.asMillis_mono hto) _
      have helapsed := elapsedSince_le hfrom
      omega
    refine ⟨hfresh, ?_⟩
    intro c e orig record hseed hget hmem
    apply purgeStale_keeps hget hmem
    rw [hseed]
    exact hfresh

/-! ### The hold of a round gap -/

/-- What is left of a held gap after `n` more samples. -/
def decay : Nat → Nat → Nat
  | 0, held => held
  | n + 1, held => decay n held * 7 / 8

theorem decay_le_blend {n held est gap : Nat} (h : decay n held ≤ est) (hpos : 0 < est) :
    decay (n + 1) held ≤ blendIntervalMs est gap := by
  unfold blendIntervalMs
  rw [if_neg (by omega)]
  have hdecayed : decay n held * 7 / 8 ≤ est * 7 / 8 := by omega
  exact Nat.le_trans hdecayed (Nat.le_max_left _ _)

theorem gap_le_blend (est gap : Nat) : gap ≤ blendIntervalMs est gap := by
  unfold blendIntervalMs
  split
  · exact Nat.le_refl _
  · exact Nat.le_max_right _ _

theorem decay_antitone {m n : Nat} (hmn : m ≤ n) (held : Nat) : decay n held ≤ decay m held := by
  induction n, hmn using Nat.le_induction with
  | base => exact Nat.le_refl _
  | succ n hmn ih =>
    have hstep : decay (n + 1) held ≤ decay n held := by
      rw [decay]
      omega
    exact Nat.le_trans hstep ih

theorem six_decays_cover {n held : Nat} (hn : n ≤ 7) (hheld : 100 ≤ held) :
    2 * held + 2 ≤ decay n held * maxMissedOgms := by
  have hseven : 2 * held + 2 ≤ decay 7 held * 6 := by
    simp only [decay]
    omega
  have hmono := decay_antitone hn held
  unfold maxMissedOgms
  omega

/-- The estimate still holds the last round gap, as far as the stamps could tell the gaps. -/
structure Held (h : HeardPath) : Prop where
  heard : h.path.lastHeard = Millis.fromDuration h.now
  started : 1 ≤ h.inRound
  bounded : h.inRound ≤ 8
  holds : h.longest < 2 ^ 31 → ∀ g, h.roundGap = some g →
    100 ≤ g.asMillis ∧ decay (h.inRound - 1) g.asMillis ≤ h.path.intervalEstimateMs

theorem discover_held (src : Mac) (tq : U8) (seqno : U32) (now : Duration) :
    Held (discover src tq seqno now) := by
  refine ⟨rfl, Nat.le_refl 1, Nat.le_add_left 1 7, ?_⟩
  intro _ g hg
  cases hg

theorem asMillis_le_gapMs (h : HeardPath) (a : Arrival) : a.gap.asMillis ≤ gapMs h a := by
  unfold gapMs Duration.asMillis
  omega

theorem gapMs_le_asMillis (h : HeardPath) (a : Arrival) : gapMs h a ≤ a.gap.asMillis + 1 := by
  unfold gapMs Duration.asMillis
  omega

theorem hear_estimate {seed : Duration} {h : HeardPath} {a : Arrival} (hheld : Held h)
    (hpaced : Paced seed h a) (hshort : gapMs h a < 2 ^ 31) :
    (hear h a).path.intervalEstimateMs =
      blendIntervalMs h.path.intervalEstimateMs (gapMs h a) := by
  unfold hear refreshPath
  dsimp only
  rw [if_pos hpaced.newer, hheld.heard, Millis.elapsedSince_fromDuration
    (Duration.asMillis_mono (Nat.le_add_right _ _)) hshort]
  rfl

theorem hear_held {seed : Duration} {h : HeardPath} {a : Arrival} (hheld : Held h)
    (hpaced : Paced seed h a) : Held (hear h a) := by
  have hstart := hheld.started
  have hbound := hheld.bounded
  cases hround : a.newRound with
  | true =>
    refine ⟨rfl, by simp [hear, hround], by simp [hear, hround], ?_⟩
    intro hlong g hg
    obtain rfl : a.gap = g := by simpa [hear, hround] using hg
    have hms : 100 ≤ a.gap.asMillis := Duration.asMillis_mono (hpaced.spaced hround)
    refine ⟨hms, ?_⟩
    have hgap : gapMs h a < 2 ^ 31 := Nat.lt_of_le_of_lt (Nat.le_max_right _ _) hlong
    rw [hear_estimate hheld hpaced hgap]
    have hone : (hear h a).inRound - 1 = 0 := by simp [hear, hround]
    rw [hone]
    exact Nat.le_trans (asMillis_le_gapMs h a) (gap_le_blend _ _)
  | false =>
    have hin : (hear h a).inRound = h.inRound + 1 := by simp [hear, hround]
    have hless := hpaced.short hround
    refine ⟨rfl, by omega, by omega, ?_⟩
    intro hlong g hg
    have hlast : h.roundGap = some g := by simpa [hear, hround] using hg
    have hgap : gapMs h a < 2 ^ 31 := Nat.lt_of_le_of_lt (Nat.le_max_right _ _) hlong
    obtain ⟨hms, hest⟩ :=
      hheld.holds (Nat.lt_of_le_of_lt (Nat.le_max_left _ _) hlong) g hlast
    have hcover := six_decays_cover (n := h.inRound - 1) (by omega) hms
    have hpos : 0 < h.path.intervalEstimateMs := by
      unfold maxMissedOgms at hcover
      omega
    refine ⟨hms, ?_⟩
    rw [hear_estimate hheld hpaced hgap]
    have hnext : (hear h a).inRound - 1 = h.inRound - 1 + 1 := by omega
    rw [hnext]
    exact decay_le_blend hest hpos

theorem asMillis_le_of_double {gap last : Nat} (h : gap ≤ 2 * last) :
    Duration.asMillis gap ≤ 2 * Duration.asMillis last + 1 := by
  unfold Duration.asMillis
  omega

/-- With a round gap in the hold, no next gap of the pace exceeds the budget. -/
theorem Held.covers {seed : Duration} (seedMs : Nat) {h : HeardPath} {a : Arrival}
    (hheld : Held h) (hpaced : Paced seed h a) {g : Duration} (hlast : h.roundGap = some g)
    (hlong : max h.longest (gapMs h a) < 2 ^ 31) : gapMs h a ≤ budgetMs h.path seedMs := by
  obtain ⟨hms, hest⟩ := hheld.holds (Nat.lt_of_le_of_lt (Nat.le_max_left _ _) hlong) g hlast
  have hbound := hheld.bounded
  have hcover := six_decays_cover (n := h.inRound - 1) (by omega) hms
  have hnext : a.gap ≤ 2 * g := by
    cases hround : a.newRound with
    | true => exact hpaced.doubled hround g hlast
    | false =>
      exact Nat.le_trans (hpaced.within hround g hlast) (Nat.le_mul_of_pos_left g Nat.two_pos)
  have hdouble := asMillis_le_of_double hnext
  have hgap : gapMs h a ≤ 2 * g.asMillis + 2 := by
    have hroundup := gapMs_le_asMillis h a
    omega
  have hshort : gapMs h a < 2 ^ 31 := Nat.lt_of_le_of_lt (Nat.le_max_right _ _) hlong
  unfold maxMissedOgms at hcover
  have hpos : h.path.intervalEstimateMs ≠ 0 := by omega
  unfold budgetMs maxMissedOgms
  rw [if_neg hpos]
  omega

theorem kept_iff_covered {seed : Duration} {seedMs : Nat} {h : HeardPath} {a : Arrival}
    (hheld : Held h) (hpaced : Paced seed h a) : Kept seedMs h a ↔ Covered seedMs h a := by
  rw [kept_iff hheld.heard]
  constructor
  · intro hbudget _
    exact hbudget
  · intro hcovered
    by_cases hopen : h.roundGap = none ∨ 2 ^ 31 ≤ max h.longest (gapMs h a)
    · exact hcovered hopen
    · rw [not_or, Nat.not_le] at hopen
      obtain ⟨g, hlast⟩ := Option.ne_none_iff_exists'.mp hopen.1
      have hcovers := hheld.covers seedMs hpaced hlast hopen.2
      omega

theorem paced_kept_iff {seed : Duration} {seedMs : Nat} {h : HeardPath} {arrivals : List Arrival}
    (hheld : Held h) (hpaced : Run.AllSafe hear (Paced seed) h arrivals) :
    Run.AllSafe hear (Kept seedMs) h arrivals ↔ Run.AllSafe hear (Covered seedMs) h arrivals := by
  induction arrivals generalizing h with
  | nil => exact iff_of_true Run.allSafe_nil Run.allSafe_nil
  | cons a rest ih =>
    obtain ⟨hfirst, hrest⟩ := Run.allSafe_cons.mp hpaced
    rw [Run.allSafe_cons, Run.allSafe_cons, kept_iff_covered hheld hfirst,
      ih (hear_held hheld hfirst) hrest]

/-- A live neighbor is kept through every pace exactly if the gaps up to its first round
gap are within the budget, and none does more after a gap the stamps cannot tell. -/
theorem live_neighbor_kept_iff (seed : Duration) (src : Mac) (tq : U8) (seqno : U32)
    (now : Duration) (arrivals : List Arrival)
    (hpaced : Run.AllSafe hear (Paced seed) (discover src tq seqno now) arrivals) :
    Run.AllSafe hear (Kept (asMillisU32 seed)) (discover src tq seqno now) arrivals ↔
      Run.AllSafe hear (Covered (asMillisU32 seed)) (discover src tq seqno now) arrivals :=
  paced_kept_iff (discover_held src tq seqno now) hpaced

/-- Rounds of one OGM at half a second, then a burst of two after one of a second. -/
def doublingRounds : List Arrival :=
  [⟨Duration.ofMillis 500, true, 2, 255⟩, ⟨Duration.ofMillis 1000, true, 3, 255⟩,
    ⟨Duration.ofMillis 10, false, 4, 255⟩, ⟨Duration.ofMillis 2000, true, 5, 255⟩]

theorem live_neighbor_kept_iff_doubling :
    Run.AllSafe hear (Paced defaultOgmInterval) (discover (Mac.low 2) 255 1 0) doublingRounds ∧
      Run.AllSafe hear (Kept (asMillisU32 defaultOgmInterval)) (discover (Mac.low 2) 255 1 0)
        doublingRounds := by
  have hpaced : Run.AllSafe hear (Paced defaultOgmInterval) (discover (Mac.low 2) 255 1 0)
      doublingRounds := by
    decide +kernel
  refine ⟨hpaced, ?_⟩
  apply (live_neighbor_kept_iff defaultOgmInterval (Mac.low 2) 255 1 0 doublingRounds hpaced).mpr
  decide +kernel

/-- A first round of two OGMs, 20 ms apart, and the next round half a second on. -/
def firstBurst : List Arrival :=
  [⟨Duration.ofMillis 20, false, 2, 255⟩, ⟨Duration.ofMillis 500, true, 3, 255⟩]

/-- The gap of the first burst is held as the cadence; 200 ms after it a sweep drops the
neighbor, and the originator with it. -/
theorem firstBurst_not_kept :
    Run.AllSafe hear (Paced defaultOgmInterval) (discover (Mac.low 2) 255 1 0) firstBurst ∧
      ¬ Run.AllSafe hear (Kept (asMillisU32 defaultOgmInterval)) (discover (Mac.low 2) 255 1 0)
        firstBurst ∧
      (Run.run step (new smallCapacities (Mac.low 1))
        [.handleRx 0 (ogmFrom (Mac.low 2) (Mac.low 2) 1 255) none 64 .unbounded,
          .handleRx (Duration.ofMillis 20) (ogmFrom (Mac.low 2) (Mac.low 2) 2 255) none 64
            .unbounded,
          .purgeStale (Duration.ofMillis 220)]).originatorTable.contains (Mac.low 2) = false := by
  refine ⟨by decide +kernel, ?_, by decide +kernel⟩
  intro hkept
  rw [paced_kept_iff (discover_held _ _ _ _) (by decide +kernel : Run.AllSafe hear (Paced defaultOgmInterval) _ _)]
    at hkept
  exact absurd hkept (by decide +kernel)

end BatmanEngine

end Wayfinder

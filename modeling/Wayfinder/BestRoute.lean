import Wayfinder.EngineRun

/-!
# The cached next hop and the path behind it

`best_next_hop` and `max_tq` are derived from a record's paths, and kept by several
fast paths besides `recompute_best`. The paths of a record are always through
distinct neighbors. The cached hop is backed by one of them after every operation
but two: an OGM that promotes its sender while all four slots are taken by others,
and a revocation of the hop a surviving record has cached.
-/

namespace Wayfinder

set_option autoImplicit false

open Table

namespace OriginatorRecord

def DistinctPaths (r : OriginatorRecord) : Prop :=
  (r.paths.toList.map NeighborStats.neighborIdent).Nodup

/-- The cached hop names exactly one path, and the cached quality is that path's. -/
def Backed (r : OriginatorRecord) : Prop :=
  ∀ m, r.bestNextHop = some m →
    ∃ p, r.paths.toList.filter (fun p => p.neighborIdent = m) = [p] ∧ p.lastTq = r.maxTq

theorem filter_eq_singleton {ps : List NeighborStats}
    (hd : (ps.map NeighborStats.neighborIdent).Nodup) {p : NeighborStats} (hp : p ∈ ps) :
    ps.filter (fun q => q.neighborIdent = p.neighborIdent) = [p] := by
  induction ps with
  | nil => simp at hp
  | cons q ps ih =>
    obtain ⟨hq, hps⟩ := List.nodup_cons.mp hd
    rcases List.mem_cons.mp hp with rfl | hmem
    · rw [List.filter_cons_of_pos (by simp)]
      congr 1
      apply List.filter_eq_nil_iff.mpr
      intro r hr
      simp only [decide_eq_true_eq]
      intro heq
      exact hq (heq ▸ List.mem_map_of_mem hr)
    · have hne : q.neighborIdent ≠ p.neighborIdent := by
        intro heq
        exact hq (heq ▸ List.mem_map_of_mem hmem)
      rw [List.filter_cons_of_neg (by simpa using hne)]
      exact ih hps hmem

/-- With distinct paths, one path through the hop is exactly one. -/
theorem backed_of_mem {r : OriginatorRecord} (hd : r.DistinctPaths)
    (h : ∀ m, r.bestNextHop = some m → ∃ p ∈ r.paths.toList, p.neighborIdent = m ∧
      p.lastTq = r.maxTq) : r.Backed := by
  intro m hm
  obtain ⟨p, hp, rfl, htq⟩ := h m hm
  exact ⟨p, filter_eq_singleton hd hp, htq⟩

theorem Backed.mem {r : OriginatorRecord} (h : r.Backed) {m : Mac}
    (hm : r.bestNextHop = some m) :
    ∃ p ∈ r.paths.toList, p.neighborIdent = m ∧ p.lastTq = r.maxTq := by
  obtain ⟨p, hp, htq⟩ := h m hm
  have hmem : p ∈ r.paths.toList.filter (fun p => p.neighborIdent = m) := by
    rw [hp]
    exact List.mem_singleton.mpr rfl
  obtain ⟨hpath, hident⟩ := List.mem_filter.mp hmem
  exact ⟨p, hpath, by simpa using hident, htq⟩

theorem not_backed {r : OriginatorRecord} {m : Mac} (hm : r.bestNextHop = some m)
    (hnone : ∀ p ∈ r.paths.toList, p.neighborIdent ≠ m) : ¬ r.Backed := by
  intro h
  obtain ⟨p, hp, hident, _⟩ := h.mem hm
  exact hnone p hp hident

end OriginatorRecord

namespace BatmanEngine

open OriginatorRecord

/-! ### One record at a time -/

section Record
variable {r : OriginatorRecord} {src : Mac} {tq : U8} {seqno : U32} {nowMs : Millis}

theorem prunePaths_distinct (h : r.DistinctPaths) (keep : NeighborStats → Bool) :
    (prunePaths r keep).DistinctPaths :=
  h.sublist (List.filter_sublist.map _)

theorem recomputeBest_paths (selectable : Mac → Bool) :
    (recomputeBest r selectable).paths = r.paths := by
  unfold recomputeBest
  split <;> rfl

theorem recomputeBest_distinct (h : r.DistinctPaths) (selectable : Mac → Bool) :
    (recomputeBest r selectable).DistinctPaths := by
  rw [DistinctPaths, recomputeBest_paths]
  exact h

/-- A recomputation backs the record whatever was cached before. -/
theorem recomputeBest_backed (h : r.DistinctPaths) (selectable : Mac → Bool) :
    (recomputeBest r selectable).Backed := by
  apply backed_of_mem (recomputeBest_distinct h selectable)
  intro m hm
  rw [recomputeBest_paths]
  unfold recomputeBest at hm ⊢
  split at hm
  · rename_i b hb
    obtain rfl := Option.some.inj hm
    exact ⟨b, (List.mem_filter.mp (maxByKey_spec hb).1).1, rfl, rfl⟩
  · simp at hm

@[simp] theorem learnPath_bestNextHop : (learnPath r src tq seqno nowMs).bestNextHop =
    r.bestNextHop := by
  unfold learnPath
  split <;> rfl

@[simp] theorem learnPath_maxTq : (learnPath r src tq seqno nowMs).maxTq = r.maxTq := by
  unfold learnPath
  split <;> rfl

/-- What the path table is after an OGM through `src`. -/
theorem learnPath_cases (r : OriginatorRecord) (src : Mac) (tq : U8) (seqno : U32)
    (nowMs : Millis) :
    (∃ pre p post p', r.paths.toList = pre ++ p :: post ∧ p.neighborIdent = src ∧
        p'.neighborIdent = src ∧ p'.lastTq = tq ∧
        (learnPath r src tq seqno nowMs).paths.toList = pre ++ p' :: post) ∨
      (∀ p ∈ r.paths.toList, p.neighborIdent ≠ src) ∧
        (r.paths.toList.length < maxPaths ∧ (∃ p', p'.neighborIdent = src ∧ p'.lastTq = tq ∧
            (learnPath r src tq seqno nowMs).paths.toList = r.paths.toList ++ [p']) ∨
          r.paths.toList.length = maxPaths ∧ learnPath r src tq seqno nowMs = r) := by
  unfold learnPath
  cases hi : r.paths.toList.findIdx? fun p => p.neighborIdent = src with
  | some i =>
    left
    obtain ⟨hlt, hsrc, _⟩ := List.findIdx?_eq_some_iff_getElem.mp hi
    have hident : r.paths.toList[i].neighborIdent = src := by simpa using hsrc
    refine ⟨r.paths.toList.take i, r.paths.toList[i], r.paths.toList.drop (i + 1),
      refreshPath r.paths.toList[i] tq seqno nowMs, ?_, hident, hident, rfl, ?_⟩
    · simp
    · exact List.modify_eq_take_cons_drop hlt
  | none =>
    right
    have hnone : ∀ p ∈ r.paths.toList, p.neighborIdent ≠ src := by
      intro p hp
      simpa using List.findIdx?_eq_none_iff.mp hi p hp
    refine ⟨hnone, ?_⟩
    rcases Nat.lt_or_ge r.paths.toList.length maxPaths with hlt | hge
    · exact Or.inl ⟨hlt, _, rfl, rfl, BoundedVec.pushD_of_lt hlt _⟩
    · right
      have hlen : r.paths.toList.length = maxPaths := Nat.le_antisymm r.paths.bounded hge
      refine ⟨hlen, ?_⟩
      dsimp only
      rw [BoundedVec.pushD_of_not_lt (by omega)]

theorem learnPath_distinct (h : r.DistinctPaths) :
    (learnPath r src tq seqno nowMs).DistinctPaths := by
  rcases learnPath_cases r src tq seqno nowMs with
    ⟨pre, p, post, p', hr, hp, hp', _, heq⟩ | ⟨hnone, ⟨_, p', hp', _, heq⟩ | ⟨_, heq⟩⟩
  · rw [DistinctPaths, hr] at h
    rw [DistinctPaths, heq]
    simpa [hp, hp'] using h
  · rw [DistinctPaths, heq, List.map_append]
    refine h.append (List.nodup_singleton _) ?_
    apply List.disjoint_singleton.mpr
    intro hmem
    obtain ⟨q, hq, hident⟩ := List.mem_map.mp hmem
    exact hnone q hq (hident.trans hp')
  · rw [heq]
    exact h

/-- Paths through other neighbors are untouched. -/
theorem mem_learnPath_of_ne {p : NeighborStats} (hp : p ∈ r.paths.toList)
    (hne : p.neighborIdent ≠ src) : p ∈ (learnPath r src tq seqno nowMs).paths.toList := by
  rcases learnPath_cases r src tq seqno nowMs with
    ⟨pre, q, post, q', hr, hq, _, _, heq⟩ | ⟨_, ⟨_, p', _, _, heq⟩ | ⟨_, heq⟩⟩
  · rw [hr] at hp
    rw [heq]
    rcases List.mem_append.mp hp with hp | hp
    · exact List.mem_append_left _ hp
    · rcases List.mem_cons.mp hp with rfl | hp
      · exact absurd hq hne
      · exact List.mem_append_right _ (List.mem_cons_of_mem _ hp)
  · rw [heq]
    exact List.mem_append_left _ hp
  · rw [heq]
    exact hp

/-- Unless the table is full of others, the sender has a path afterwards. -/
theorem mem_learnPath_src (h : ¬ (r.paths.toList.length = maxPaths ∧
    ∀ p ∈ r.paths.toList, p.neighborIdent ≠ src)) :
    ∃ p ∈ (learnPath r src tq seqno nowMs).paths.toList, p.neighborIdent = src ∧
      p.lastTq = tq := by
  rcases learnPath_cases r src tq seqno nowMs with
    ⟨pre, q, post, p', _, _, hp', htq, heq⟩ | ⟨hnone, ⟨_, p', hp', htq, heq⟩ | ⟨hfull, _⟩⟩
  · refine ⟨p', ?_, hp', htq⟩
    rw [heq]
    exact List.mem_append_right _ (List.mem_cons_self ..)
  · refine ⟨p', ?_, hp', htq⟩
    rw [heq]
    exact List.mem_append_right _ (List.mem_singleton.mpr rfl)
  · exact absurd ⟨hfull, hnone⟩ h

theorem learnPath_of_full (hfull : r.paths.toList.length = maxPaths)
    (hnone : ∀ p ∈ r.paths.toList, p.neighborIdent ≠ src) :
    learnPath r src tq seqno nowMs = r := by
  rcases learnPath_cases r src tq seqno nowMs with
    ⟨pre, q, post, _, hr, hq, _⟩ | ⟨_, ⟨hlt, _⟩ | ⟨_, heq⟩⟩
  · exact absurd hq (hnone q (by rw [hr]; simp))
  · omega
  · exact heq

theorem selectNextHop_paths (proven : Bool) : (selectNextHop r src tq proven).paths = r.paths := by
  unfold selectNextHop
  split
  · split <;> rfl
  · split <;> rfl

/-- The OGM makes its sender the next hop although no slot could take its path. -/
def PromotesUnstored (r : OriginatorRecord) (src : Mac) (tq : U8) (proven : Bool) : Prop :=
  r.paths.toList.length = maxPaths ∧ (∀ p ∈ r.paths.toList, p.neighborIdent ≠ src) ∧
    proven = true ∧ (r.bestNextHop = none ∨ r.maxTq < tq)

theorem selectNextHop_backed {proven : Bool} (hd : r.DistinctPaths) (hb : r.Backed)
    (hok : ¬ PromotesUnstored r src tq proven) :
    (selectNextHop (learnPath r src tq seqno nowMs) src tq proven).Backed := by
  apply backed_of_mem
  · rw [DistinctPaths, selectNextHop_paths]
    exact learnPath_distinct hd
  intro m hm
  rw [selectNextHop_paths]
  unfold selectNextHop at hm ⊢
  simp only [learnPath_bestNextHop, learnPath_maxTq] at hm ⊢
  by_cases hsrc : r.bestNextHop = some src
  · -- The incumbent was heard again; being backed, it has a slot of its own.
    obtain ⟨p, hp, hident, _⟩ := hb.mem hsrc
    have hstored := @mem_learnPath_src r src tq seqno nowMs fun h => h.2 p hp hident
    rw [if_pos hsrc] at hm ⊢
    cases proven with
    | true =>
      rw [if_pos rfl] at hm ⊢
      obtain rfl : src = m := by simpa [hsrc] using hm
      exact hstored
    | false => simp at hm
  · rw [if_neg hsrc] at hm ⊢
    by_cases hpromote : (proven && (r.bestNextHop.isNone || decide (r.maxTq < tq))) = true
    · rw [if_pos hpromote] at hm ⊢
      obtain rfl := Option.some.inj hm
      simp only [Bool.and_eq_true, Bool.or_eq_true, Option.isNone_iff_eq_none,
        decide_eq_true_eq] at hpromote
      apply mem_learnPath_src
      rintro ⟨hfull, hnone⟩
      exact hok ⟨hfull, hnone, hpromote.1, hpromote.2⟩
    · rw [if_neg hpromote] at hm ⊢
      rw [learnPath_bestNextHop] at hm
      obtain ⟨p, hp, hident, htq⟩ := hb.mem hm
      have hne : p.neighborIdent ≠ src := by
        rintro rfl
        exact hsrc (hident ▸ hm)
      exact ⟨p, mem_learnPath_of_ne hp hne, hident, by rw [learnPath_maxTq]; exact htq⟩

theorem selectNextHop_not_backed {proven : Bool} (hb : r.Backed)
    (hbad : PromotesUnstored r src tq proven) :
    ¬ (selectNextHop (learnPath r src tq seqno nowMs) src tq proven).Backed := by
  obtain ⟨hfull, hnone, rfl, hbest⟩ := hbad
  rw [learnPath_of_full hfull hnone]
  have hsrc : r.bestNextHop ≠ some src := by
    intro hsrc
    obtain ⟨p, hp, hident, _⟩ := hb.mem hsrc
    exact hnone p hp hident
  apply not_backed (m := src)
  · unfold selectNextHop
    rw [if_neg hsrc, if_pos]
    simpa [Option.isNone_iff_eq_none] using hbest
  · rw [selectNextHop_paths]
    exact hnone

end Record

/-! ### The record an OGM leaves -/

/-- The parts of a record the cached hop depends on. -/
structure SameSelection (r r' : OriginatorRecord) : Prop where
  paths : r'.paths = r.paths
  best : r'.bestNextHop = r.bestNextHop
  maxTq : r'.maxTq = r.maxTq

namespace SameSelection

variable {r r' : OriginatorRecord}

theorem distinct (h : SameSelection r r') (hd : r.DistinctPaths) : r'.DistinctPaths := by
  rw [DistinctPaths, h.paths]
  exact hd

theorem backed (h : SameSelection r r') (hb : r.Backed) : r'.Backed := by
  rw [Backed, h.paths, h.best, h.maxTq]
  exact hb

theorem promotes_iff (h : SameSelection r r') {src : Mac} {tq : U8} {proven : Bool} :
    PromotesUnstored r' src tq proven ↔ PromotesUnstored r src tq proven := by
  rw [PromotesUnstored, h.paths, h.best, h.maxTq]
  rfl

end SameSelection

theorem admitOgm_same (r : OriginatorRecord) (isNew : Bool) (seqno : U32) (now : Duration) :
    SameSelection r (admitOgm r isNew seqno now).1 := by
  unfold admitOgm
  split <;> exact ⟨rfl, rfl, rfl⟩

theorem admitOgm_known (r : OriginatorRecord) (seqno : U32) (now : Duration) :
    (admitOgm r false seqno now).2 = (admitSeqno SeqnoBands.ogm r.toHighWater seqno now).2 := by
  unfold admitOgm
  generalize admitSeqno SeqnoBands.ogm r.toHighWater seqno now = answer
  rfl

section Update
variable {r : OriginatorRecord} {isNew proven : Bool} {now : Duration} {src : Mac} {tq : U8}
  {seqno : U32}

theorem ogmRecord_distinct (hd : r.DistinctPaths) :
    (ogmRecord r isNew proven now src tq seqno).1.DistinctPaths := by
  have hsame := admitOgm_same r isNew seqno now
  unfold ogmRecord
  dsimp only
  split
  · exact hsame.distinct hd
  · rw [DistinctPaths, learnOgm, selectNextHop_paths]
    apply learnPath_distinct
    split
    · exact hsame.distinct hd
    · exact hsame.distinct hd

/-- An OGM leaves the record backed unless it promotes a sender it could not store. -/
theorem ogmRecord_backed_iff (hd : r.DistinctPaths) (hb : r.Backed) :
    (ogmRecord r isNew proven now src tq seqno).1.Backed ↔
      ¬ ((admitOgm r isNew seqno now).2.isStaleCopy = false ∧
        PromotesUnstored r src tq proven) := by
  have hsame := admitOgm_same r isNew seqno now
  unfold ogmRecord
  dsimp only
  cases hstale : (admitOgm r isNew seqno now).2.isStaleCopy with
  | true => simpa using hsame.backed hb
  | false =>
    rw [if_neg (by simp)]
    have hheard : SameSelection r
        (if (admitOgm r isNew seqno now).2.contentsAreCurrent then
          { (admitOgm r isNew seqno now).1 with lastHeard := Millis.fromDuration now }
        else (admitOgm r isNew seqno now).1) := by
      split
      · exact ⟨hsame.paths, hsame.best, hsame.maxTq⟩
      · exact hsame
    simp only [true_and]
    constructor
    · intro hback hbad
      exact selectNextHop_not_backed (hheard.backed hb) (hheard.promotes_iff.mpr hbad) hback
    · intro hok
      exact selectNextHop_backed (hheard.distinct hd) (hheard.backed hb)
        fun hbad => hok (hheard.promotes_iff.mp hbad)

end Update

/-! ### Every operation -/

variable {c : Capacities} {e : BatmanEngine c}

def AllDistinct (e : BatmanEngine c) : Prop := e.originatorTable.All DistinctPaths

/-- Every originator's cached hop is backed by a path. -/
def AllBacked (e : BatmanEngine c) : Prop := e.originatorTable.All Backed

theorem recomputeAllBest_distinct (h : e.AllDistinct) (now : Duration) :
    (e.recomputeAllBest now).AllDistinct :=
  h.mapEntries fun _ _ hr => recomputeBest_distinct hr _

theorem recomputeAllBest_backed (h : e.AllDistinct) (now : Duration) :
    (e.recomputeAllBest now).AllBacked := by
  intro k r hr
  obtain ⟨r', hr', heq⟩ := IndexMap.mem_mapEntries.mp hr
  dsimp only at heq
  rw [heq]
  exact recomputeBest_backed (h k r' hr') _

theorem mem_revokeOriginators {revoked : List Mac} {k : Mac} {r' : OriginatorRecord} :
    (k, r') ∈ (e.revokeOriginators revoked).originatorTable.entries ↔
      k ∉ revoked ∧ ∃ r, (k, r) ∈ e.originatorTable.entries ∧
        r' = prunePaths r fun p => p.neighborIdent ∉ revoked := by
  induction revoked generalizing e with
  | nil =>
    have hid : ∀ r : OriginatorRecord, (prunePaths r fun p => p.neighborIdent ∉ []) = r := by
      intro r
      obtain ⟨hw, _, _, _, _, ⟨ps, hps⟩⟩ := r
      simp [prunePaths, BoundedVec.retain]
    constructor
    · intro h
      exact ⟨List.not_mem_nil, r', h, (hid r').symm⟩
    · rintro ⟨_, r, hr, rfl⟩
      rw [hid]
      exact hr
  | cons m ms ih =>
    have hstep : e.revokeOriginators (m :: ms) = (e.revokeOriginator m).revokeOriginators ms := rfl
    have hcompose : ∀ r : OriginatorRecord,
        (prunePaths (prunePaths r fun p => m ≠ p.neighborIdent) fun p => p.neighborIdent ∉ ms) =
          prunePaths r fun p => p.neighborIdent ∉ m :: ms := by
      intro r
      simp only [prunePaths, BoundedVec.retain, List.filter_filter]
      congr 2
      apply List.filter_congr
      intro p _
      rw [Bool.eq_iff_iff]
      simp only [Bool.and_eq_true, decide_eq_true_eq, List.mem_cons, not_or]
      exact ⟨fun h => ⟨Ne.symm h.2, h.1⟩, fun h => ⟨h.2, Ne.symm h.1⟩⟩
    rw [hstep, ih]
    constructor
    · rintro ⟨hk, r₁, hr₁, rfl⟩
      obtain ⟨r, hr, heq⟩ := IndexMap.mem_mapEntries.mp hr₁
      obtain ⟨hmem, hkeep⟩ := IndexMap.mem_retain.mp hr
      dsimp only at heq hkeep
      refine ⟨?_, r, hmem, ?_⟩
      · simp only [List.mem_cons, not_or]
        exact ⟨Ne.symm (of_decide_eq_true hkeep), hk⟩
      · rw [heq, hcompose]
    · rintro ⟨hk, r, hr, rfl⟩
      simp only [List.mem_cons, not_or] at hk
      refine ⟨hk.2, prunePaths r fun p => m ≠ p.neighborIdent, ?_, (hcompose r).symm⟩
      apply IndexMap.mem_mapEntries.mpr
      exact ⟨r, IndexMap.mem_retain.mpr ⟨hr, decide_eq_true (Ne.symm hk.1)⟩, rfl⟩

theorem revokeOriginators_distinct (h : e.AllDistinct) (revoked : List Mac) :
    (e.revokeOriginators revoked).AllDistinct := by
  intro k r' hr'
  obtain ⟨_, r, hr, rfl⟩ := mem_revokeOriginators.mp hr'
  exact prunePaths_distinct (h k r hr) _

theorem purgeStale_distinct (h : e.AllDistinct) (now : Duration) :
    (e.purgeStale now).AllDistinct := by
  apply IndexMap.All.retain
  apply recomputeAllBest_distinct
  exact h.mapEntries fun _ _ hr => prunePaths_distinct hr _

theorem purgeStale_backed (h : e.AllDistinct) (now : Duration) : (e.purgeStale now).AllBacked := by
  apply IndexMap.All.retain
  apply recomputeAllBest_backed
  exact h.mapEntries fun _ _ hr => prunePaths_distinct hr _

theorem ensureOriginator_known {now : Duration} {orig : Mac} {r : OriginatorRecord}
    (h : e.originatorTable.get? orig = some r) : e.ensureOriginator now orig = e := by
  have hc : e.originatorTable.contains orig = true := by
    rw [IndexMap.contains_eq_isSome, h]
    rfl
  rw [ensureOriginator, if_pos hc]

/-- A new record is blank; the others were there before. -/
theorem mem_ensureOriginator_new {now : Duration} {orig : Mac}
    (h : e.originatorTable.get? orig = none) {k : Mac} {r : OriginatorRecord}
    (hr : (k, r) ∈ (e.ensureOriginator now orig).originatorTable.entries) :
    (k ≠ orig ∧ (k, r) ∈ e.originatorTable.entries) ∨
      (k = orig ∧ r.paths.toList = [] ∧ r.bestNextHop = none) := by
  have hc : ¬ e.originatorTable.contains orig = true := by
    rw [IndexMap.contains_eq_isSome, h]
    simp
  rw [ensureOriginator, if_neg hc] at hr
  rcases IndexMap.mem_insertD hr with ⟨hne, hmem⟩ | heq
  · refine Or.inl ⟨hne, ?_⟩
    split at hmem
    · split at hmem
      · exact (IndexMap.mem_remove.mp hmem).1
      · exact hmem
    · exact hmem
  · obtain ⟨rfl, rfl⟩ := Prod.mk.inj heq
    exact Or.inr ⟨rfl, rfl, rfl⟩

theorem acceptOgm_table_known {now : Duration} {frame : LinkFrame} {localQuality : Option U8}
    {replyLen : Nat} {ogm : BatmanOgmPacket} {tail : Bytes} {r : OriginatorRecord}
    (h : e.originatorTable.get? ogm.orig = some r) :
    (e.acceptOgm now frame localQuality replyLen ogm tail).1.originatorTable =
      e.originatorTable.modify ogm.orig fun _ => e.ogmUpdate now frame localQuality ogm r := by
  rw [(e.acceptOgm_spec now frame localQuality replyLen ogm tail).2, ensureOriginator_known h, h]

/-- Whatever an accepted OGM does, paths stay distinct. -/
theorem acceptOgm_distinct (h : e.AllDistinct) (now : Duration) (frame : LinkFrame)
    (localQuality : Option U8) (replyLen : Nat) (ogm : BatmanOgmPacket) (tail : Bytes) :
    (e.acceptOgm now frame localQuality replyLen ogm tail).1.AllDistinct := by
  have hensured : (e.ensureOriginator now ogm.orig).AllDistinct := by
    cases hget : e.originatorTable.get? ogm.orig with
    | some r => rwa [ensureOriginator_known hget]
    | none =>
      intro k r hr
      rcases mem_ensureOriginator_new hget hr with ⟨_, hmem⟩ | ⟨_, hnil, _⟩
      · exact h k r hmem
      · rw [DistinctPaths, hnil]
        exact List.nodup_nil
  rw [AllDistinct, (e.acceptOgm_spec now frame localQuality replyLen ogm tail).2]
  split
  · exact hensured
  · rename_i r hr
    exact hensured.modify _ fun _ _ => ogmRecord_distinct (hensured _ r (IndexMap.get?_eq_some_iff.mp hr))

/-- An OGM of an unknown originator starts from a blank record and stays backed. -/
theorem acceptOgm_backed_new (hd : e.AllDistinct) (hb : e.AllBacked) {now : Duration}
    {frame : LinkFrame} {localQuality : Option U8} {replyLen : Nat} {ogm : BatmanOgmPacket}
    {tail : Bytes} (hnew : e.originatorTable.get? ogm.orig = none) :
    (e.acceptOgm now frame localQuality replyLen ogm tail).1.AllBacked := by
  have hensured : ∀ k r, (k, r) ∈ (e.ensureOriginator now ogm.orig).originatorTable.entries →
      r.DistinctPaths ∧ r.Backed := by
    intro k r hr
    rcases mem_ensureOriginator_new hnew hr with ⟨_, hmem⟩ | ⟨_, hnil, hbest⟩
    · exact ⟨hd k r hmem, hb k r hmem⟩
    · refine ⟨by rw [DistinctPaths, hnil]; exact List.nodup_nil, ?_⟩
      intro m hm
      rw [hbest] at hm
      cases hm
  rw [AllBacked, (e.acceptOgm_spec now frame localQuality replyLen ogm tail).2]
  split
  · exact fun k r hr => (hensured k r hr).2
  · rename_i r hr
    have hmem := IndexMap.get?_eq_some_iff.mp hr
    refine IndexMap.All.modify (fun k r hr => (hensured k r hr).2) _ fun _ _ => ?_
    apply (ogmRecord_backed_iff (hensured _ r hmem).1 (hensured _ r hmem).2).mpr
    rintro ⟨_, hfull, _⟩
    rcases mem_ensureOriginator_new hnew hmem with ⟨hne, _⟩ | ⟨_, hnil, _⟩
    · exact hne rfl
    · rw [hnil] at hfull
      cases hfull

theorem acceptOgm_backed_known (hb : e.AllBacked) {now : Duration}
    {frame : LinkFrame} {localQuality : Option U8} {replyLen : Nat} {ogm : BatmanOgmPacket}
    {tail : Bytes} {r : OriginatorRecord} (h : e.originatorTable.get? ogm.orig = some r) :
    (e.acceptOgm now frame localQuality replyLen ogm tail).1.AllBacked ↔
      (e.ogmUpdate now frame localQuality ogm r).Backed := by
  rw [AllBacked, acceptOgm_table_known h]
  constructor
  · intro hall
    exact hall ogm.orig _ (IndexMap.mem_modify.mpr
      (Or.inr ⟨rfl, r, IndexMap.get?_eq_some_iff.mp h, rfl⟩))
  · intro hup
    exact hb.modify _ fun _ _ => hup

/-- What an operation must not do: promote a sender whose path no slot holds, or
revoke the hop a surviving record has cached. -/
def KeepsBacked (e : BatmanEngine c) : EngineOp → Prop
  | .handleRx now frame localQuality _ _ => ∀ ogm tail r,
      e.acceptedOgm? frame = some (ogm, tail) → e.originatorTable.get? ogm.orig = some r →
      ¬ ((admitSeqno SeqnoBands.ogm r.toHighWater ogm.seqno.get now).2.isStaleCopy = false ∧
        PromotesUnstored r frame.src (computedTq ogm.tq localQuality)
          (e.proofCurrent now frame.src))
  | .revokeOriginators revoked => ∀ mac r m, e.originatorTable.get? mac = some r →
      mac ∉ revoked → r.bestNextHop = some m → m ∉ revoked
  | _ => True

theorem handleRx_backed_iff (hd : e.AllDistinct) (hb : e.AllBacked) (now : Duration)
    (frame : LinkFrame) (localQuality : Option U8) (replyLen : Nat) (out : FrameSink) :
    (e.handleRx now frame localQuality replyLen out).engine.AllBacked ↔
      e.KeepsBacked (.handleRx now frame localQuality replyLen out) := by
  rw [KeepsBacked]
  rcases e.handleRx_cases now frame localQuality replyLen out with
    ⟨hnone, hkept⟩ | ⟨ogm, tail, hacc, heq⟩
  · rw [AllBacked, hkept.table]
    refine ⟨fun _ ogm tail r hsome => ?_, fun _ => hb⟩
    simp [hnone] at hsome
  · rw [heq]
    simp only [hacc, Option.some.injEq, Prod.mk.injEq, and_imp]
    cases hget : e.originatorTable.get? ogm.orig with
    | none =>
      refine ⟨?_, fun _ => acceptOgm_backed_new hd hb hget⟩
      rintro _ ogm' tail' r rfl rfl hr
      simp [hget] at hr
    | some r =>
      have hcontains : (!e.originatorTable.contains ogm.orig) = false := by
        rw [IndexMap.contains_eq_isSome, hget]
        rfl
      have hmem := IndexMap.get?_eq_some_iff.mp hget
      rw [acceptOgm_backed_known hb hget, ogmUpdate, hcontains,
        ogmRecord_backed_iff (hd _ r hmem) (hb _ r hmem), admitOgm_known]
      constructor
      · rintro hok ogm' tail' r' rfl rfl hr'
        rw [hget] at hr'
        obtain rfl := Option.some.inj hr'
        exact hok
      · exact fun hok => hok ogm tail r rfl rfl hget

theorem revokeOriginators_backed_iff (hd : e.AllDistinct) (hb : e.AllBacked)
    (revoked : List Mac) :
    (e.revokeOriginators revoked).AllBacked ↔ e.KeepsBacked (.revokeOriginators revoked) := by
  constructor
  · intro hall mac r m hr hmac hm hrev
    have hmem := mem_revokeOriginators.mpr ⟨hmac, r, IndexMap.get?_eq_some_iff.mp hr, rfl⟩
    refine not_backed (m := m) ?_ ?_ (hall mac _ hmem)
    · exact hm
    · intro p hp hident
      have hkeep := (List.mem_filter.mp hp).2
      simp only [decide_eq_true_eq] at hkeep
      exact hkeep (hident ▸ hrev)
  · intro hok mac r' hr'
    obtain ⟨hmac, r, hr, rfl⟩ := mem_revokeOriginators.mp hr'
    apply backed_of_mem (prunePaths_distinct (hd mac r hr) _)
    intro m hm
    obtain ⟨p, hp, hident, htq⟩ := (hb mac r hr).mem hm
    have hfree := hok mac r m (IndexMap.get?_eq_some_iff.mpr hr) hmac hm
    refine ⟨p, List.mem_filter.mpr ⟨hp, ?_⟩, hident, htq⟩
    simpa [hident] using hfree

theorem setLocalMcastGroups_table (now : Duration) (groups : List Mac) :
    (e.setLocalMcastGroups now groups).originatorTable = e.originatorTable := by
  unfold setLocalMcastGroups
  dsimp only
  split <;> rfl

theorem configureInterfaceOgm_table (idx : Nat) (iMin iMax now : Duration) :
    (e.configureInterfaceOgm idx iMin iMax now).originatorTable = e.originatorTable := by
  unfold configureInterfaceOgm
  split <;> rfl

theorem configureInterfaceKeepalive_table (idx : Nat) (interval : Option Duration)
    (now : Duration) :
    (e.configureInterfaceKeepalive idx interval now).originatorTable = e.originatorTable := by
  unfold configureInterfaceKeepalive
  split <;> rfl

theorem producePeriodicBroadcast_table (now : Duration) :
    (e.producePeriodicBroadcast now).1.originatorTable = (e.purgeStale now).originatorTable :=
  (applyTopologyChange_kept (e.purgeStale now) now).table

theorem AllDistinct.of_table {e' : BatmanEngine c} (h : e.AllDistinct)
    (ht : e'.originatorTable = e.originatorTable) : e'.AllDistinct := by
  rw [AllDistinct, ht]
  exact h

theorem allBacked_of_table {e' : BatmanEngine c} (ht : e'.originatorTable = e.originatorTable) :
    e'.AllBacked ↔ e.AllBacked := by
  rw [AllBacked, ht]
  rfl

theorem step_distinct (h : e.AllDistinct) (op : EngineOp) : (e.step op).AllDistinct := by
  cases op with
  | handleRx now frame localQuality replyLen out =>
    rcases e.handleRx_cases now frame localQuality replyLen out with
      ⟨_, hkept⟩ | ⟨ogm, tail, _, heq⟩
    · exact h.of_table hkept.table
    · rw [step, heq]
      exact acceptOgm_distinct h now frame localQuality replyLen ogm tail
  | noteProven now neighbor iface =>
    apply recomputeAllBest_distinct
    exact h
  | noteChallenged => exact h
  | setRequireProof => exact h
  | purgeStale now => exact purgeStale_distinct h now
  | reset => exact IndexMap.all_empty
  | retainProven now usable =>
    unfold step retainProven
    dsimp only
    split
    · exact h
    · apply recomputeAllBest_distinct
      exact h
  | revokeOriginators revoked => exact revokeOriginators_distinct h revoked
  | resetOgmTimers => exact h
  | setLocalMcastGroups now groups => exact h.of_table (setLocalMcastGroups_table now groups)
  | configureInterfaceOgm idx iMin iMax now =>
    exact h.of_table (configureInterfaceOgm_table idx iMin iMax now)
  | configureInterfaceKeepalive idx interval now =>
    exact h.of_table (configureInterfaceKeepalive_table idx interval now)
  | onInterfaceEmitted => exact h
  | onKeepaliveEmitted => exact h
  | producePeriodicBroadcast now =>
    exact (purgeStale_distinct h now).of_table (producePeriodicBroadcast_table now)
  | nextBroadcastSeqno => exact h

/-- From a backed state, one operation leads to a backed state exactly when it
meets the condition. -/
theorem step_backed_iff (hd : e.AllDistinct) (hb : e.AllBacked) (op : EngineOp) :
    (e.step op).AllBacked ↔ e.KeepsBacked op := by
  cases op with
  | handleRx now frame localQuality replyLen out =>
    exact handleRx_backed_iff hd hb now frame localQuality replyLen out
  | revokeOriginators revoked => exact revokeOriginators_backed_iff hd hb revoked
  | noteProven now neighbor iface =>
    refine iff_of_true ?_ trivial
    apply recomputeAllBest_backed
    exact hd
  | noteChallenged => exact iff_of_true hb trivial
  | setRequireProof => exact iff_of_true hb trivial
  | purgeStale now => exact iff_of_true (purgeStale_backed hd now) trivial
  | reset => exact iff_of_true IndexMap.all_empty trivial
  | retainProven now usable =>
    refine iff_of_true ?_ trivial
    unfold step retainProven
    dsimp only
    split
    · exact hb
    · apply recomputeAllBest_backed
      exact hd
  | resetOgmTimers => exact iff_of_true hb trivial
  | setLocalMcastGroups now groups =>
    exact iff_of_true ((allBacked_of_table (setLocalMcastGroups_table now groups)).mpr hb) trivial
  | configureInterfaceOgm idx iMin iMax now =>
    exact iff_of_true
      ((allBacked_of_table (configureInterfaceOgm_table idx iMin iMax now)).mpr hb) trivial
  | configureInterfaceKeepalive idx interval now =>
    exact iff_of_true
      ((allBacked_of_table (configureInterfaceKeepalive_table idx interval now)).mpr hb) trivial
  | onInterfaceEmitted => exact iff_of_true hb trivial
  | onKeepaliveEmitted => exact iff_of_true hb trivial
  | producePeriodicBroadcast now =>
    exact iff_of_true ((allBacked_of_table (producePeriodicBroadcast_table now)).mpr
      (purgeStale_backed hd now)) trivial
  | nextBroadcastSeqno => exact iff_of_true hb trivial

/-- The cached next hop is backed in every state of a run exactly when no step of
the run promotes an unstored sender or revokes a cached hop. -/
theorem run_backed_iff (c : Capacities) (selfIdent : Mac) (ops : List EngineOp) :
    Run.AllGood step AllBacked (new c selfIdent) ops ↔
      Run.AllSafe step KeepsBacked (new c selfIdent) ops := by
  apply Run.allGood_iff_allSafe
  · exact IndexMap.all_empty
  · intro pre op hb
    have hd : (Run.run step (new c selfIdent) pre).AllDistinct :=
      Run.invariant IndexMap.all_empty fun _ op h => step_distinct h op
    exact step_backed_iff hd hb op

/-- Five neighbors offer a route to node 9; the fifth, and best, has no slot. -/
def fiveOffers : List EngineOp :=
  [(2, 100), (3, 100), (4, 100), (5, 100), (6, 200)].map fun o =>
    .handleRx 0 (ogmFrom (Mac.low o.1) (Mac.low 9) 1 o.2) none 64 .unbounded

/-- The cached hop of node 9 is node 6, which no path is through. -/
theorem fiveOffers_not_backed :
    ¬ Run.AllGood step AllBacked (new smallCapacities (Mac.low 1)) fiveOffers := by
  intro hgood
  have hb := hgood fiveOffers (List.prefix_refl _)
  have hget : ((Run.run step (new smallCapacities (Mac.low 1)) fiveOffers).originatorTable.get?
      (Mac.low 9)).map (fun r => (r.bestNextHop, r.paths.toList.map NeighborStats.neighborIdent)) =
      some (some (Mac.low 6), [Mac.low 2, Mac.low 3, Mac.low 4, Mac.low 5]) := by
    decide
  obtain ⟨r, hr, heq⟩ := Option.map_eq_some_iff.mp hget
  obtain ⟨hbest, hpaths⟩ := Prod.mk.inj heq
  refine not_backed hbest ?_ (hb _ r (IndexMap.get?_eq_some_iff.mp hr))
  intro p hp hident
  have hmem := List.mem_map_of_mem (f := NeighborStats.neighborIdent) hp
  rw [hpaths, hident] at hmem
  exact absurd hmem (by decide)

end BatmanEngine

end Wayfinder

import Wayfinder.EngineRun

/-!
# The same history under other numbers

An engine is given numbers whose origin means nothing: the counter of each originator,
and the clock of the driver. A recoding adds a constant to every number of an originator
and a whole number of milliseconds to every instant. The state under the recoded numbers
is the recoded state, operation by operation, but for the one place where two sequence
numbers of a path are compared as plain integers.
-/

namespace Wayfinder

set_option autoImplicit false

open Table

/-- What is added to the OGM numbers of each originator, and to every instant: whole
milliseconds, which are added to every stamp. -/
structure Recoding where
  seqno : Mac → U32
  clock : Duration
  stamp : Nat
  whole : clock = Duration.ofMillis stamp

namespace Recoding

variable (s : Recoding)

/-! ### Recoded data -/

def instant (now : Duration) : Duration := now + s.clock

def millis (m : Millis) : Millis := ⟨m.raw + BitVec.ofNat 32 s.stamp⟩

def highWater (d : U32) (hw : HighWater) : HighWater where
  lastSeqno := hw.lastSeqno + d
  resyncWatch := hw.resyncWatch.map fun w => ⟨s.millis w.since, w.seqno + d⟩

def path (orig : Mac) (p : NeighborStats) : NeighborStats :=
  { p with lastSeqno := p.lastSeqno + s.seqno orig, lastHeard := s.millis p.lastHeard }

def record (orig : Mac) (r : OriginatorRecord) : OriginatorRecord :=
  { r with
    toHighWater := s.highWater (s.seqno orig) r.toHighWater
    lastHeard := s.millis r.lastHeard
    paths := r.paths.map (s.path orig) }

-- Flooded broadcasts have numbers of their own, which stay.
def broadcastEntry (b : BroadcastSeqnoEntry) : BroadcastSeqnoEntry :=
  { toHighWater := s.highWater 0 b.toHighWater, lastUpdated := s.millis b.lastUpdated }

def keepaliveStats (k : KeepAliveStats) : KeepAliveStats :=
  { k with lastHeard := s.millis k.lastHeard }

def stamped {α : Type} (p : Millis × α) : Millis × α := (s.millis p.1, p.2)

def timer (t : TrickleTimer) : TrickleTimer := { t with nextFire := s.instant t.nextFire }

variable {c : Capacities}

def engine (e : BatmanEngine c) : BatmanEngine c :=
  { e with
    originatorTable := e.originatorTable.mapEntries s.record
    broadcastSeqno := e.broadcastSeqno.mapEntries fun _ => s.broadcastEntry
    ogmTimers := e.ogmTimers.map s.timer
    keepalive := e.keepalive.mapEntries fun _ => s.keepaliveStats
    proven := e.proven.mapEntries fun _ => s.stamped
    challenged := e.challenged.mapEntries fun _ => s.stamped
    keepaliveTimers := e.keepaliveTimers.map (Option.map s.timer) }

/-- An OGM under its originator's new number; any other packet as it is. -/
def payload (bytes : Bytes) : Bytes :=
  match BatmanOgmPacket.readFromPrefix bytes with
  | none => bytes
  | some (ogm, rest) =>
    if ogm.packetType = BatmanPacketType.ogm.asU8 then
      { ogm with seqno := Be32.ofU32 (ogm.seqno.get + s.seqno ogm.orig) }.asBytes ++ rest
    else bytes

def frame (f : LinkFrame) : LinkFrame := { f with payload := s.payload f.payload }

def sent (f : LinkFrameData) : LinkFrameData := { f with payload := s.payload f.payload }

/-! ### Clocks -/

theorem fromDuration_instant (now : Duration) :
    Millis.fromDuration (s.instant now) = s.millis (Millis.fromDuration now) := by
  have hms : (s.instant now).asMillis = now.asMillis + s.stamp := by
    unfold instant
    rw [s.whole]
    unfold Duration.asMillis Duration.ofMillis
    omega
  unfold Millis.fromDuration millis
  rw [hms, BitVec.ofNat_add]

@[simp] theorem elapsedSince_millis (now earlier : Millis) :
    (s.millis now).elapsedSince (s.millis earlier) = now.elapsedSince earlier :=
  Serial.elapsed_add_add _ _ _

theorem isStale_millis (now lastHeard : Millis) (intervalEstimateMs seedMs maxMissed : Nat) :
    BatmanEngine.isStale (s.millis now) (s.millis lastHeard) intervalEstimateMs seedMs maxMissed =
      BatmanEngine.isStale now lastHeard intervalEstimateMs seedMs maxMissed := by
  unfold BatmanEngine.isStale
  rw [elapsedSince_millis]

theorem timeUntil_timer (t : TrickleTimer) (now : Duration) :
    (s.timer t).timeUntil (s.instant now) = t.timeUntil now :=
  Nat.add_sub_add_right _ _ _

theorem due_timer (t : TrickleTimer) (now : Duration) :
    (s.timer t).due (s.instant now) = t.due now := by
  unfold TrickleTimer.due timer instant
  simp

theorem instant_add (now d : Duration) : s.instant now + d = s.instant (now + d) :=
  Nat.add_right_comm _ _ _

theorem jittered_timer (t : TrickleTimer) (span : Duration) :
    (s.timer t).jittered span = (s.timer (t.jittered span).1, (t.jittered span).2) := rfl

theorem onEmit_timer (t : TrickleTimer) (now : Duration) :
    (s.timer t).onEmit (s.instant now) = s.timer (t.onEmit now) := by
  unfold TrickleTimer.onEmit
  simp only [jittered_timer, instant_add]
  rfl

theorem reset_timer (t : TrickleTimer) (now : Duration) :
    (s.timer t).reset (s.instant now) = s.timer (t.reset now) := by
  have hlate : s.instant now + (s.timer t).iMin < (s.timer t).nextFire ↔
      now + t.iMin < t.nextFire := by
    unfold timer instant
    rw [Nat.add_right_comm, Nat.add_lt_add_iff_right]
  unfold TrickleTimer.reset
  dsimp only
  by_cases h : now + t.iMin < t.nextFire
  · rw [if_pos h, if_pos (hlate.mpr h), instant_add]
    rfl
  · rw [if_neg h, if_neg (fun h' => h (hlate.mp h'))]
    rfl

theorem new_timer (iMin iMax now : Duration) (seed : U32) :
    TrickleTimer.new iMin iMax (s.instant now) seed =
      s.timer (TrickleTimer.new iMin iMax now seed) := by
  unfold TrickleTimer.new
  dsimp only
  rw [instant_add]
  rfl

/-! ### Queries -/

section Queries
variable (e : BatmanEngine c) (now : Duration)

@[simp] theorem selfIdent_engine : (s.engine e).selfIdent = e.selfIdent := rfl

@[simp] theorem requireProof_engine : (s.engine e).requireProof = e.requireProof := rfl

@[simp] theorem seedIntervalMs_engine : (s.engine e).seedIntervalMs = e.seedIntervalMs := by
  simp [BatmanEngine.seedIntervalMs, engine, timer, Function.comp_def]

@[simp] theorem keepaliveSeedIntervalMs_engine :
    (s.engine e).keepaliveSeedIntervalMs = e.keepaliveSeedIntervalMs := by
  simp [BatmanEngine.keepaliveSeedIntervalMs, engine, timer, List.filterMap_map,
    Function.comp_def, List.map_filterMap]

@[simp] theorem challengeBackoffMs_engine (misses : U32) :
    (s.engine e).challengeBackoffMs misses = e.challengeBackoffMs misses := by
  unfold BatmanEngine.challengeBackoffMs
  rw [seedIntervalMs_engine]
  simp [engine, timer, Function.comp_def]

theorem keepaliveMissed_engine (neighbor : Mac) :
    (s.engine e).keepaliveMissed (s.instant now) neighbor = e.keepaliveMissed now neighbor := by
  unfold BatmanEngine.keepaliveMissed
  rw [keepaliveSeedIntervalMs_engine, fromDuration_instant]
  simp only [engine, IndexMap.get?_mapEntries]
  cases e.keepalive.get? neighbor with
  | none => rfl
  | some stats => exact s.isStale_millis _ _ _ _ _

theorem effectiveTq_engine (orig : Mac) (p : NeighborStats) :
    (s.engine e).effectiveTq (s.instant now) (s.path orig p) = e.effectiveTq now p := by
  unfold BatmanEngine.effectiveTq
  rw [keepaliveMissed_engine]
  rfl

theorem proofFresh_engine (last : Millis) :
    (s.engine e).proofFresh (s.instant now) (s.millis last) = e.proofFresh now last := by
  unfold BatmanEngine.proofFresh
  rw [seedIntervalMs_engine, fromDuration_instant, isStale_millis]

theorem proofCurrent_engine (neighbor : Mac) :
    (s.engine e).proofCurrent (s.instant now) neighbor = e.proofCurrent now neighbor := by
  unfold BatmanEngine.proofCurrent
  rw [requireProof_engine]
  have hproven : (s.engine e).proven.get? neighbor = (e.proven.get? neighbor).map s.stamped :=
    IndexMap.get?_mapEntries _
  rw [hproven]
  cases e.proven.get? neighbor with
  | none => simp only [Option.map_none, Option.any_none]
  | some p => simp only [Option.map_some, Option.any_some, stamped, proofFresh_engine]

theorem pathStale_path (nowMs : Millis) (orig : Mac) (p : NeighborStats) (seedMs : Nat) :
    BatmanEngine.pathStale (s.millis nowMs) (s.path orig p) seedMs =
      BatmanEngine.pathStale nowMs p seedMs := s.isStale_millis _ _ _ _ _

/-- Choosing among recoded paths is choosing among the paths. -/
theorem best_paths {orig : Mac} {l : List NeighborStats} {keep keep' : NeighborStats → Bool}
    {key key' : NeighborStats → Nat} (hkeep : ∀ p, keep' (s.path orig p) = keep p)
    (hkey : ∀ p, key' (s.path orig p) = key p) :
    maxByKey key' ((l.map (s.path orig)).filter keep') =
      (maxByKey key (l.filter keep)).map (s.path orig) := by
  have hfilter : (l.map (s.path orig)).filter keep' = (l.filter keep).map (s.path orig) := by
    rw [List.filter_map]
    simp only [Function.comp_def, hkeep]
  rw [hfilter, maxByKey_map hkey]

/-- The selection `next_hop` makes, with its gate and its measure left open. -/
theorem selected_engine {keep keep' : NeighborStats → Bool} {key key' : NeighborStats → Nat}
    {destination : Mac} (hkeep : ∀ p, keep' (s.path destination p) = keep p)
    (hkey : ∀ p, key' (s.path destination p) = key p) :
    ((s.engine e).originatorTable.get? destination).bind (fun r =>
        (maxByKey key' (r.paths.toList.filter keep')).map NeighborStats.neighborIdent) =
      (e.originatorTable.get? destination).bind fun r =>
        (maxByKey key (r.paths.toList.filter keep)).map NeighborStats.neighborIdent := by
  have htable : (s.engine e).originatorTable.get? destination =
      (e.originatorTable.get? destination).map (s.record destination) :=
    IndexMap.get?_mapEntries _
  rw [htable]
  cases e.originatorTable.get? destination with
  | none => simp only [Option.map_none, Option.bind_none]
  | some r =>
    have hbest := @best_paths s destination r.paths.toList keep keep' key key' hkeep hkey
    simp only [Option.map_some, Option.bind_some, record, BoundedVec.map_toList, hbest,
      Option.map_map]
    rfl

theorem nextHop_eq (destination : Mac) :
    e.nextHop now destination = (e.originatorTable.get? destination).bind fun r =>
      (maxByKey (fun p => (e.effectiveTq now p).toNat) (r.paths.toList.filter fun p =>
        e.proofCurrent now p.neighborIdent &&
          !BatmanEngine.pathStale (Millis.fromDuration now) p e.seedIntervalMs)).map
        NeighborStats.neighborIdent := by
  unfold BatmanEngine.nextHop
  simp only [List.filter_filter, Option.bind_eq_bind, Option.map_eq_bind, Function.comp_def]

theorem nextHop_engine (destination : Mac) :
    (s.engine e).nextHop (s.instant now) destination = e.nextHop now destination := by
  rw [nextHop_eq, nextHop_eq]
  apply selected_engine
  · intro p
    rw [fromDuration_instant, seedIntervalMs_engine, pathStale_path]
    simp only [path, proofCurrent_engine]
  · intro p
    rw [effectiveTq_engine]

theorem nextHopUnprovenOk_eq (destination : Mac) :
    e.nextHopUnprovenOk now destination = (e.originatorTable.get? destination).bind fun r =>
      (maxByKey (fun p => (e.effectiveTq now p).toNat) (r.paths.toList.filter fun p =>
        !BatmanEngine.pathStale (Millis.fromDuration now) p e.seedIntervalMs)).map
        NeighborStats.neighborIdent := by
  unfold BatmanEngine.nextHopUnprovenOk
  simp only [Option.bind_eq_bind, Option.map_eq_bind, Function.comp_def]

theorem nextHopUnprovenOk_engine (destination : Mac) :
    (s.engine e).nextHopUnprovenOk (s.instant now) destination =
      e.nextHopUnprovenOk now destination := by
  rw [nextHopUnprovenOk_eq, nextHopUnprovenOk_eq]
  apply selected_engine
  · intro p
    rw [fromDuration_instant, seedIntervalMs_engine, pathStale_path]
  · intro p
    rw [effectiveTq_engine]

theorem isSelectable_engine (m : Mac) :
    (s.engine e).isSelectable (s.instant now) m = e.isSelectable now m := by
  have hentries : (s.engine e).proven.entries =
      e.proven.entries.map fun p => (p.1, s.stamped p.2) := rfl
  unfold BatmanEngine.isSelectable
  rw [requireProof_engine, hentries]
  simp only [List.filter_map, Function.comp_def, stamped, proofFresh_engine, List.map_map]

theorem proofNeedsRefresh_engine (neighbor : Mac) :
    (s.engine e).proofNeedsRefresh (s.instant now) neighbor = e.proofNeedsRefresh now neighbor := by
  have hproven : (s.engine e).proven.get? neighbor = (e.proven.get? neighbor).map s.stamped :=
    IndexMap.get?_mapEntries _
  unfold BatmanEngine.proofNeedsRefresh
  rw [hproven, seedIntervalMs_engine, fromDuration_instant]
  cases e.proven.get? neighbor with
  | none => rfl
  | some p => exact s.isStale_millis _ _ _ _ _

/-- The neighbors every path of the table runs through. -/
theorem neighbors_engine :
    ((s.engine e).originatorTable.values.flatMap fun r => r.paths.toList).map
        NeighborStats.neighborIdent =
      (e.originatorTable.values.flatMap fun r => r.paths.toList).map
        NeighborStats.neighborIdent := by
  simp only [engine, IndexMap.values, IndexMap.mapEntries, List.map_map, List.map_flatMap,
    List.flatMap_map, Function.comp_def, record, BoundedVec.map_toList, path]

theorem challengeCandidate_engine :
    (s.engine e).challengeCandidate (s.instant now) = e.challengeCandidate now := by
  have hchallenged : ∀ m, (s.engine e).challenged.get? m =
      (e.challenged.get? m).map s.stamped := fun _ => IndexMap.get?_mapEntries _
  unfold BatmanEngine.challengeCandidate
  rw [requireProof_engine, neighbors_engine, fromDuration_instant]
  simp only [proofNeedsRefresh_engine, challengeBackoffMs_engine, hchallenged, Option.all_map,
    stamped, elapsedSince_millis]

theorem nextChallengeAfter_engine :
    (s.engine e).nextChallengeAfter (s.instant now) = e.nextChallengeAfter now := by
  have hchallenged : ∀ m, (s.engine e).challenged.get? m =
      (e.challenged.get? m).map s.stamped := fun _ => IndexMap.get?_mapEntries _
  have hproven : ∀ m, (s.engine e).proven.get? m =
      (e.proven.get? m).map s.stamped := fun _ => IndexMap.get?_mapEntries _
  have hdue : ∀ m, (s.engine e).challengeDueMs (s.instant now) m = e.challengeDueMs now m := by
    intro m
    unfold BatmanEngine.challengeDueMs
    rw [fromDuration_instant, hchallenged, hproven, seedIntervalMs_engine]
    simp only [challengeBackoffMs_engine]
    cases e.proven.get? m <;> cases e.challenged.get? m <;>
      simp only [Option.map_none, Option.map_some, Option.elim_none, Option.elim_some, stamped,
        elapsedSince_millis]
  have hneighbors := congrArg (List.map fun m => Duration.ofMillis (e.challengeDueMs now m))
    (s.neighbors_engine e)
  rw [List.map_map, List.map_map] at hneighbors
  unfold BatmanEngine.nextChallengeAfter
  rw [requireProof_engine]
  simp only [hdue]
  split
  · rfl
  · exact congrArg List.min? hneighbors

theorem nextBroadcastAfter_engine :
    (s.engine e).nextBroadcastAfter (s.instant now) = e.nextBroadcastAfter now := by
  have htimers : (s.engine e).ogmTimers.toList = e.ogmTimers.toList.map s.timer := rfl
  unfold BatmanEngine.nextBroadcastAfter
  rw [htimers, List.map_map]
  simp only [Function.comp_def, timeUntil_timer]

theorem nextKeepaliveAfter_engine :
    (s.engine e).nextKeepaliveAfter (s.instant now) = e.nextKeepaliveAfter now := by
  have htimers : (s.engine e).keepaliveTimers.toList.filterMap id =
      (e.keepaliveTimers.toList.filterMap id).map s.timer := by
    simp [engine, List.filterMap_map, List.map_filterMap]
  unfold BatmanEngine.nextKeepaliveAfter
  rw [htimers, List.map_map]
  simp only [Function.comp_def, timeUntil_timer]

/-- The most overdue of a list of timers, each with its interface. -/
theorem mostOverdue (l : List (TrickleTimer × Nat)) :
    (minByKey (fun p => p.1.timeUntil (s.instant now))
      ((l.map fun p => (s.timer p.1, p.2)).filter fun p => p.1.due (s.instant now))).map Prod.snd =
    (minByKey (fun p => p.1.timeUntil now)
      (l.filter fun p => p.1.due now)).map Prod.snd := by
  rw [List.filter_map]
  simp only [Function.comp_def, due_timer]
  rw [minByKey_map fun p => s.timeUntil_timer p.1 now, Option.map_map]
  rfl

theorem dueInterface_engine :
    (s.engine e).dueInterface (s.instant now) = e.dueInterface now := by
  have htimers : (s.engine e).ogmTimers.toList.zipIdx =
      e.ogmTimers.toList.zipIdx.map fun p => (s.timer p.1, p.2) := List.zipIdx_map
  unfold BatmanEngine.dueInterface
  rw [htimers]
  exact s.mostOverdue now _

theorem dueKeepaliveInterface_engine :
    (s.engine e).dueKeepaliveInterface (s.instant now) = e.dueKeepaliveInterface now := by
  have htimers : ((s.engine e).keepaliveTimers.toList.zipIdx.filterMap
      fun p => p.1.map fun t => (t, p.2)) =
        (e.keepaliveTimers.toList.zipIdx.filterMap
          fun p => p.1.map fun t => (t, p.2)).map fun p => (s.timer p.1, p.2) := by
    simp [engine, List.zipIdx_map, List.filterMap_map, List.map_filterMap, Function.comp_def]
  unfold BatmanEngine.dueKeepaliveInterface
  rw [htimers]
  exact s.mostOverdue now _

end Queries

/-! ### Upkeep -/

section Upkeep
variable (e : BatmanEngine c) (now : Duration)

theorem recomputeBest_record (orig : Mac) (r : OriginatorRecord) (selectable : Mac → Bool) :
    BatmanEngine.recomputeBest (s.record orig r) selectable =
      s.record orig (BatmanEngine.recomputeBest r selectable) := by
  have hbest := @best_paths s orig r.paths.toList (fun p => selectable p.neighborIdent)
    (fun p => selectable p.neighborIdent) (fun p => p.lastTq.toNat) (fun p => p.lastTq.toNat)
    (fun _ => rfl) (fun _ => rfl)
  unfold BatmanEngine.recomputeBest
  simp only [record, BoundedVec.map_toList, hbest]
  cases maxByKey (fun p => p.lastTq.toNat)
      (r.paths.toList.filter fun p => selectable p.neighborIdent) with
  | none => rfl
  | some b => rfl

theorem recomputeAllBest_engine :
    (s.engine e).recomputeAllBest (s.instant now) = s.engine (e.recomputeAllBest now) := by
  have htable : ((s.engine e).originatorTable.mapEntries fun _ r =>
      BatmanEngine.recomputeBest r ((s.engine e).isSelectable (s.instant now))) =
        (e.originatorTable.mapEntries fun _ r =>
          BatmanEngine.recomputeBest r (e.isSelectable now)).mapEntries s.record := by
    apply IndexMap.mapEntries_comm
    intro orig r
    rw [recomputeBest_record, funext (s.isSelectable_engine e now)]
  unfold BatmanEngine.recomputeAllBest
  rw [htable]
  rfl

theorem insertEvictingOldest_mapEntries {V : Type} {n : Nat} (m : IndexMap Mac V n)
    (f : V → V) (stamp : V → Millis) (hstamp : ∀ v, stamp (f v) = s.millis (stamp v))
    (nowMs : Millis) (k : Mac) (v : V) :
    BatmanEngine.insertEvictingOldest (m.mapEntries fun _ => f) (s.millis nowMs) stamp k (f v) =
      (BatmanEngine.insertEvictingOldest m nowMs stamp k v).mapEntries fun _ => f := by
  have holdest : maxByKey (fun e : Mac × V => (s.millis nowMs).elapsedSince (stamp e.2))
      (m.mapEntries fun _ => f).entries =
        (maxByKey (fun e : Mac × V => nowMs.elapsedSince (stamp e.2)) m.entries).map
          fun e => (e.1, f e.2) := by
    apply maxByKey_map
    intro e
    rw [hstamp, elapsedSince_millis]
  unfold BatmanEngine.insertEvictingOldest
  rw [IndexMap.insert_mapEntries (fun _ => f), holdest]
  cases m.insert k v with
  | some m' => rfl
  | none =>
    cases maxByKey (fun e : Mac × V => nowMs.elapsedSince (stamp e.2)) m.entries with
    | none => rfl
    | some oldest =>
      simp only [Option.map_some, Option.map_none]
      rw [IndexMap.remove_mapEntries]
      exact IndexMap.insertD_mapEntries fun _ => f

theorem noteProven_engine (neighbor : Mac) (iface : Nat) :
    (s.engine e).noteProven (s.instant now) neighbor iface =
      s.engine (e.noteProven now neighbor iface) := by
  have hproven := s.insertEvictingOldest_mapEntries e.proven s.stamped Prod.fst (fun _ => rfl)
    (Millis.fromDuration now) neighbor (Millis.fromDuration now, iface)
  have hchallenged : (s.engine e).challenged.remove neighbor =
      (e.challenged.remove neighbor).mapEntries fun _ => s.stamped := IndexMap.remove_mapEntries _
  unfold BatmanEngine.noteProven
  rw [fromDuration_instant, hchallenged]
  refine Eq.trans ?_ (s.recomputeAllBest_engine _ now)
  exact congrArg (fun proven => BatmanEngine.recomputeAllBest
    { s.engine e with
      proven := proven
      challenged := (e.challenged.remove neighbor).mapEntries fun _ => s.stamped }
    (s.instant now)) hproven

theorem noteChallenged_engine (neighbor : Mac) :
    (s.engine e).noteChallenged (s.instant now) neighbor =
      s.engine (e.noteChallenged now neighbor) := by
  have hmisses : ((s.engine e).challenged.get? neighbor).elim 0 (fun p => saturatingAdd p.2 1) =
      (e.challenged.get? neighbor).elim 0 fun p => saturatingAdd p.2 1 := by
    have hget : (s.engine e).challenged.get? neighbor =
        (e.challenged.get? neighbor).map s.stamped := IndexMap.get?_mapEntries _
    rw [hget]
    cases e.challenged.get? neighbor <;> rfl
  have hchallenged := fun misses => s.insertEvictingOldest_mapEntries e.challenged s.stamped
    Prod.fst (fun _ => rfl) (Millis.fromDuration now) neighbor (Millis.fromDuration now, misses)
  unfold BatmanEngine.noteChallenged
  rw [fromDuration_instant, hmisses]
  exact congrArg (fun challenged => { s.engine e with challenged := challenged })
    (hchallenged _)

theorem retainProven_engine (usable : Mac → Bool) :
    (s.engine e).retainProven (s.instant now) usable = s.engine (e.retainProven now usable) := by
  have hkeys : (s.engine e).proven.keys = e.proven.keys := IndexMap.keys_mapEntries _
  have hremoved : ∀ (doomed : List Mac) (m : IndexMap Mac (Millis × Nat) c.maxOriginators),
      doomed.foldl IndexMap.remove (m.mapEntries fun _ => s.stamped) =
        (doomed.foldl IndexMap.remove m).mapEntries fun _ => s.stamped := by
    intro doomed
    induction doomed with
    | nil => exact fun m => rfl
    | cons mac doomed ih =>
      intro m
      rw [List.foldl_cons, List.foldl_cons, IndexMap.remove_mapEntries]
      exact ih _
  unfold BatmanEngine.retainProven
  rw [hkeys]
  dsimp only
  split
  · rfl
  · refine Eq.trans ?_ (s.recomputeAllBest_engine _ now)
    rw [show (s.engine e).proven = e.proven.mapEntries fun _ => s.stamped from rfl, hremoved]
    rfl

theorem prunePaths_record (orig : Mac) (r : OriginatorRecord) {keep keep' : NeighborStats → Bool}
    (h : ∀ p, keep' (s.path orig p) = keep p) :
    BatmanEngine.prunePaths (s.record orig r) keep' =
      s.record orig (BatmanEngine.prunePaths r keep) := by
  have hpaths : (r.paths.map (s.path orig)).retain keep' = (r.paths.retain keep).map (s.path orig) :=
    BoundedVec.retain_map h
  unfold BatmanEngine.prunePaths
  simp only [record, hpaths]

theorem lengths_record (m : IndexMap Mac OriginatorRecord c.maxOriginators) :
    (m.mapEntries s.record).values.map (fun r => r.paths.toList.length) =
      m.values.map fun r => r.paths.toList.length := by
  simp [IndexMap.values, IndexMap.mapEntries, record, Function.comp_def]

theorem retain_recent {V : Type} {n : Nat} (m : IndexMap Mac V n) (f : V → V)
    (stamp : V → Millis) (hstamp : ∀ v, stamp (f v) = s.millis (stamp v)) (nowMs : Millis) :
    (m.mapEntries fun _ => f).retain (fun _ v =>
        decide ((s.millis nowMs).elapsedSince (stamp v) < stampAgeCeilingMs)) =
      (m.retain fun _ v =>
        decide (nowMs.elapsedSince (stamp v) < stampAgeCeilingMs)).mapEntries fun _ => f := by
  apply IndexMap.retain_mapEntries
  intro _ v
  rw [hstamp, elapsedSince_millis]

theorem purgeStale_engine :
    (s.engine e).purgeStale (s.instant now) = s.engine (e.purgeStale now) := by
  have hpruned : ((s.engine e).originatorTable.mapEntries fun _ r => BatmanEngine.prunePaths r
      fun p => !BatmanEngine.pathStale (s.millis (Millis.fromDuration now)) p e.seedIntervalMs) =
        (e.originatorTable.mapEntries fun _ r => BatmanEngine.prunePaths r
          fun p => !BatmanEngine.pathStale (Millis.fromDuration now) p e.seedIntervalMs).mapEntries
            s.record := by
    apply IndexMap.mapEntries_comm
    intro orig r
    apply prunePaths_record
    intro p
    rw [pathStale_path]
  have hkept : ∀ e : BatmanEngine c,
      (s.engine e).originatorTable.retain (fun _ r => !r.paths.toList.isEmpty) =
        (e.originatorTable.retain fun _ r => !r.paths.toList.isEmpty).mapEntries s.record := by
    intro e
    apply IndexMap.retain_mapEntries
    intro orig r
    simp only [record, BoundedVec.map_toList, List.isEmpty_map]
  unfold BatmanEngine.purgeStale
  rw [fromDuration_instant, seedIntervalMs_engine]
  dsimp only
  rw [hpruned]
  generalize e.originatorTable.mapEntries (fun _ r => BatmanEngine.prunePaths r
    fun p => !BatmanEngine.pathStale (Millis.fromDuration now) p e.seedIntervalMs) = pruned
  have hswept : ({ s.engine e with originatorTable := pruned.mapEntries s.record } :
      BatmanEngine c) = s.engine { e with originatorTable := pruned } := rfl
  have hbefore : (s.engine e).originatorTable.len = e.originatorTable.len :=
    IndexMap.len_mapEntries _
  have hlengths : (s.engine e).originatorTable.values.map (fun r => r.paths.toList.length) =
      e.originatorTable.values.map fun r => r.paths.toList.length := s.lengths_record _
  rw [hswept, recomputeAllBest_engine, hbefore, hlengths, lengths_record]
  generalize BatmanEngine.recomputeAllBest { e with originatorTable := pruned } now = e₁
  rw [hkept, IndexMap.len_mapEntries]
  have hproven := s.retain_recent e₁.proven s.stamped Prod.fst (fun _ => rfl)
    (Millis.fromDuration now)
  have hchallenged := s.retain_recent e₁.challenged s.stamped Prod.fst (fun _ => rfl)
    (Millis.fromDuration now)
  have hkeepalive := s.retain_recent e₁.keepalive s.keepaliveStats KeepAliveStats.lastHeard
    (fun _ => rfl) (Millis.fromDuration now)
  unfold engine
  dsimp only
  rw [hproven, hchallenged, hkeepalive]

theorem revokeOriginator_engine (mac : Mac) :
    (s.engine e).revokeOriginator mac = s.engine (e.revokeOriginator mac) := by
  have hretained : (s.engine e).originatorTable.retain (fun m _ => mac ≠ m) =
      (e.originatorTable.retain fun m _ => mac ≠ m).mapEntries s.record :=
    IndexMap.retain_mapEntries _ fun _ _ => rfl
  have htable : ∀ table : IndexMap Mac OriginatorRecord c.maxOriginators,
      ((table.mapEntries s.record).mapEntries fun _ r =>
        BatmanEngine.prunePaths r fun p => mac ≠ p.neighborIdent) =
      (table.mapEntries fun _ r =>
        BatmanEngine.prunePaths r fun p => mac ≠ p.neighborIdent).mapEntries s.record := by
    intro table
    apply IndexMap.mapEntries_comm
    intro orig r
    exact s.prunePaths_record orig r fun _ => rfl
  unfold BatmanEngine.revokeOriginator
  rw [hretained, htable]
  unfold engine
  dsimp only
  rw [IndexMap.remove_mapEntries, IndexMap.remove_mapEntries]

theorem revokeOriginators_engine (revoked : List Mac) :
    (s.engine e).revokeOriginators revoked = s.engine (e.revokeOriginators revoked) := by
  unfold BatmanEngine.revokeOriginators
  induction revoked generalizing e with
  | nil => rfl
  | cons mac revoked ih =>
    rw [List.foldl_cons, List.foldl_cons, revokeOriginator_engine]
    exact ih _

theorem resetOgmTimers_engine :
    (s.engine e).resetOgmTimers (s.instant now) = s.engine (e.resetOgmTimers now) := by
  have htimers : (e.ogmTimers.map s.timer).map (fun t => t.reset (s.instant now)) =
      (e.ogmTimers.map fun t => t.reset now).map s.timer :=
    BoundedVec.map_comm fun t => s.reset_timer t now
  unfold BatmanEngine.resetOgmTimers
  exact congrArg (fun timers => { s.engine e with ogmTimers := timers }) htimers

theorem applyTopologyChange_engine :
    (s.engine e).applyTopologyChange (s.instant now) = s.engine (e.applyTopologyChange now) := by
  unfold BatmanEngine.applyTopologyChange
  by_cases h : e.topologyChanged = true
  · have h' : (s.engine e).topologyChanged = true := h
    rw [if_pos h, if_pos h']
    exact s.resetOgmTimers_engine { e with topologyChanged := false } now
  · have h' : ¬ (s.engine e).topologyChanged = true := h
    rw [if_neg h, if_neg h']

theorem setLocalMcastGroups_engine (groups : List Mac) :
    (s.engine e).setLocalMcastGroups (s.instant now) groups =
      s.engine (e.setLocalMcastGroups now groups) := by
  have hlocal : (s.engine e).localMcast = e.localMcast := rfl
  unfold BatmanEngine.setLocalMcastGroups
  rw [hlocal]
  generalize (⟨groups.take c.maxLocalMcast, by rw [List.length_take]; omega⟩ :
    BoundedVec Mac c.maxLocalMcast) = after
  by_cases h : after.toList ≠ e.localMcast.toList
  · dsimp only
    rw [if_pos h, if_pos h]
    exact s.resetOgmTimers_engine { e with localMcast := after } now
  · dsimp only
    rw [if_neg h, if_neg h]
    rfl

theorem backfillSet_map {α : Type} {n : Nat} (f : α → α) (v : BoundedVec α n) (idx : Nat)
    (fill x : α) (h : idx < n) :
    BatmanEngine.backfillSet (v.map f) idx (f fill) (f x) h =
      (BatmanEngine.backfillSet v idx fill x h).map f := by
  apply BoundedVec.eq_of_toList
  simp [BatmanEngine.backfillSet]

theorem configureInterfaceOgm_engine (idx : Nat) (iMin iMax : Duration) :
    (s.engine e).configureInterfaceOgm idx iMin iMax (s.instant now) =
      s.engine (e.configureInterfaceOgm idx iMin iMax now) := by
  have hseed : (s.engine e).jitterSeed idx 0 = e.jitterSeed idx 0 := rfl
  unfold BatmanEngine.configureInterfaceOgm
  split
  · rename_i h
    rw [hseed, new_timer]
    exact congrArg (fun timers => { s.engine e with ogmTimers := timers })
      (backfillSet_map s.timer e.ogmTimers idx _ _ h)
  · rfl

theorem configureInterfaceKeepalive_engine (idx : Nat) (interval : Option Duration) :
    (s.engine e).configureInterfaceKeepalive idx interval (s.instant now) =
      s.engine (e.configureInterfaceKeepalive idx interval now) := by
  have htimer : (interval.map fun iv => TrickleTimer.new iv iv (s.instant now)
      ((s.engine e).jitterSeed idx 0x9e3779b9)) = (interval.map fun iv => TrickleTimer.new iv iv now
        (e.jitterSeed idx 0x9e3779b9)).map s.timer := by
    cases interval with
    | none => rfl
    | some iv => exact congrArg some (s.new_timer iv iv now _)
  unfold BatmanEngine.configureInterfaceKeepalive
  split
  · rename_i h
    rw [htimer]
    exact congrArg (fun timers => { s.engine e with keepaliveTimers := timers })
      (backfillSet_map (Option.map s.timer) e.keepaliveTimers idx none _ h)
  · rfl

theorem modify_map {α : Type} {f g g' : α → α} {l : List α} {i : Nat}
    (h : ∀ x, l[i]? = some x → g' (f x) = f (g x)) :
    (l.map f).modify i g' = (l.modify i g).map f := by
  apply List.ext_getElem?
  intro j
  rw [List.getElem?_modify, List.getElem?_map, List.getElem?_map, List.getElem?_modify]
  cases hj : l[j]? with
  | none => rfl
  | some x =>
    simp only [Option.map_some, Option.some.injEq, Option.map_eq_map]
    split
    · rename_i hij
      exact h x (hij ▸ hj)
    · rfl

theorem onInterfaceEmitted_engine (idx : Nat) :
    (s.engine e).onInterfaceEmitted idx (s.instant now) =
      s.engine (e.onInterfaceEmitted idx now) := by
  have htimers : (e.ogmTimers.toList.map s.timer).modify idx (fun t => t.onEmit (s.instant now)) =
      (e.ogmTimers.toList.modify idx fun t => t.onEmit now).map s.timer :=
    modify_map fun t _ => s.onEmit_timer t now
  unfold BatmanEngine.onInterfaceEmitted engine
  congr 1
  exact BoundedVec.eq_of_toList htimers

theorem onKeepaliveEmitted_engine (idx : Nat) :
    (s.engine e).onKeepaliveEmitted idx (s.instant now) =
      s.engine (e.onKeepaliveEmitted idx now) := by
  have htimer : ∀ t : Option TrickleTimer, (t.map s.timer).map (fun t => t.onEmit (s.instant now)) =
      (t.map fun t => t.onEmit now).map s.timer := by
    intro t
    cases t with
    | none => rfl
    | some t => exact congrArg some (s.onEmit_timer t now)
  have htimers := @modify_map _ _ _ _ e.keepaliveTimers.toList idx fun t _ => htimer t
  unfold BatmanEngine.onKeepaliveEmitted engine
  congr 1
  exact BoundedVec.eq_of_toList htimers

theorem producePeriodicBroadcast_engine :
    (s.engine e).producePeriodicBroadcast (s.instant now) =
      (s.engine (e.producePeriodicBroadcast now).1, (e.producePeriodicBroadcast now).2) := by
  unfold BatmanEngine.producePeriodicBroadcast
  rw [purgeStale_engine, applyTopologyChange_engine]
  rfl

end Upkeep

end Recoding

end Wayfinder

import Wayfinder.Lib.Table
import Wayfinder.Seqno
import Wayfinder.Trickle
import Wayfinder.Tvlv

/-!
# The routing engine: state, selection and upkeep

The tables of one `BatmanEngine`, the next-hop selection over them, and every
operation that is not the receipt of a frame: proofs, challenges, sweeps,
revocations, interface timers and the periodic announcement.

Millisecond quantities other than stamps are natural numbers; the saturating
arithmetic of the source is written out where it can matter.
-/

namespace Wayfinder

set_option autoImplicit false

open Table

def stampAgeCeilingMs : Nat := 24 * 60 * 60 * 1000
def maxMissedOgms : Nat := 6
def maxMissedKeepalives : Nat := 3
def maxMissedProofs : Nat := 3
def defaultOgmInterval : Duration := Duration.ofSecs 1
def defaultKeepaliveInterval : Duration := Duration.ofSecs 5
def maxPaths : Nat := 4

/-- The const generics of the engine. The map capacity is a power of two. -/
structure Capacities where
  maxOriginators : Nat
  maxInterfaces : Nat
  maxMcastMembers : Nat
  maxLocalMcast : Nat
  originators_pow : maxOriginators.isPowerOfTwo

theorem isPowerOfTwo_four : Nat.isPowerOfTwo 4 := ⟨2, rfl⟩

structure KeepAliveStats where
  lastHeard : Millis
  intervalEstimateMs : Nat
  deriving DecidableEq, Repr

/-- A path to an originator through one immediate neighbor. -/
structure NeighborStats where
  neighborIdent : Mac
  lastTq : U8
  lastSeqno : U32
  lastHeard : Millis
  intervalEstimateMs : Nat
  deriving DecidableEq, Repr

structure OriginatorRecord extends HighWater where
  lastHeard : Millis
  neighborIdent : Mac
  bestNextHop : Option Mac
  maxTq : U8
  paths : BoundedVec NeighborStats maxPaths
  deriving DecidableEq

structure BatmanEngine (c : Capacities) where
  selfIdent : Mac
  sequenceNumber : U32
  broadcastSequenceNumber : U32
  originatorTable : IndexMap Mac OriginatorRecord c.maxOriginators
  broadcastSeqno : IndexMap Mac BroadcastSeqnoEntry c.maxOriginators
  localMcast : BoundedVec Mac c.maxLocalMcast
  mcastMembers : BoundedVec (Mac × Mac) c.maxMcastMembers
  ogmTimers : BoundedVec TrickleTimer c.maxInterfaces
  keepalive : IndexMap Mac KeepAliveStats c.maxOriginators
  proven : IndexMap Mac (Millis × Nat) c.maxOriginators
  challenged : IndexMap Mac (Millis × U32) c.maxOriginators
  seqnoResyncs : U32
  ogmRefloodsSuppressed : U32
  ogmEchoesDropped : U32
  ogmTailsMalformed : U32
  broadcastDedupEvictions : U32
  broadcastSeqnoRefusals : U32
  proofsSwept : U32
  requireProof : Bool
  keepaliveTimers : BoundedVec (Option TrickleTimer) c.maxInterfaces
  topologyChanged : Bool
  relayOversizeDrops : U32
  mcastOversizeLists : U32
  mcastUnroutableDests : U32
  mcastEmitOverflows : U32
  deriving DecidableEq

/-- `as_millis_u32`: saturating, unlike the wrapping `Millis::from_duration`. -/
def asMillisU32 (d : Duration) : Nat := min d.asMillis (2 ^ 32 - 1)

namespace BatmanEngine

variable {c : Capacities}

def new (c : Capacities) (selfIdent : Mac) : BatmanEngine c where
  selfIdent := selfIdent
  sequenceNumber := 0
  broadcastSequenceNumber := 0
  originatorTable := .empty
  broadcastSeqno := .empty
  localMcast := .empty
  mcastMembers := .empty
  ogmTimers := .empty
  keepalive := .empty
  proven := .empty
  challenged := .empty
  seqnoResyncs := 0
  ogmRefloodsSuppressed := 0
  ogmEchoesDropped := 0
  ogmTailsMalformed := 0
  broadcastDedupEvictions := 0
  broadcastSeqnoRefusals := 0
  proofsSwept := 0
  requireProof := false
  keepaliveTimers := .empty
  topologyChanged := false
  relayOversizeDrops := 0
  mcastOversizeLists := 0
  mcastUnroutableDests := 0
  mcastEmitOverflows := 0

def nextBroadcastSeqno (e : BatmanEngine c) : BatmanEngine c × U32 :=
  let n := e.broadcastSequenceNumber + 1
  ({ e with broadcastSequenceNumber := n }, n)

/-! ### Staleness and selection -/

def isStale (now lastHeard : Millis) (intervalEstimateMs seedMs maxMissed : Nat) : Bool :=
  let expectedMs := if intervalEstimateMs = 0 then seedMs else intervalEstimateMs
  let budgetMs := min (expectedMs * maxMissed) (2 ^ 32 - 1)
  budgetMs < now.elapsedSince lastHeard

def pathStale (now : Millis) (path : NeighborStats) (seedMs : Nat) : Bool :=
  isStale now path.lastHeard path.intervalEstimateMs seedMs maxMissedOgms

def seedIntervalMs (e : BatmanEngine c) : Nat :=
  asMillisU32 ((e.ogmTimers.toList.map TrickleTimer.iMax).max?.getD defaultOgmInterval)

def keepaliveSeedIntervalMs (e : BatmanEngine c) : Nat :=
  asMillisU32 (((e.keepaliveTimers.toList.filterMap id).map TrickleTimer.iMax).max?.getD
    defaultKeepaliveInterval)

def keepaliveMissed (e : BatmanEngine c) (now : Duration) (neighbor : Mac) : Bool :=
  match e.keepalive.get? neighbor with
  | none => false
  | some stats =>
    isStale (Millis.fromDuration now) stats.lastHeard stats.intervalEstimateMs
      e.keepaliveSeedIntervalMs maxMissedKeepalives

def effectiveTq (e : BatmanEngine c) (now : Duration) (path : NeighborStats) : U8 :=
  if e.keepaliveMissed now path.neighborIdent then 0 else path.lastTq

def proofFresh (e : BatmanEngine c) (now : Duration) (last : Millis) : Bool :=
  !isStale (Millis.fromDuration now) last 0 e.seedIntervalMs maxMissedProofs

def proofCurrent (e : BatmanEngine c) (now : Duration) (neighbor : Mac) : Bool :=
  if !e.requireProof then true
  else (e.proven.get? neighbor).any fun p => e.proofFresh now p.1

def provenInterface (e : BatmanEngine c) (now : Duration) (neighbor : Mac) : Option Nat :=
  if !e.requireProof then none
  else (e.proven.get? neighbor).bind fun p => if e.proofFresh now p.1 then some p.2 else none

def nextHop (e : BatmanEngine c) (now : Duration) (destination : Mac) : Option Mac := do
  let record ← e.originatorTable.get? destination
  let live := record.paths.toList.filter fun p =>
    !pathStale (Millis.fromDuration now) p e.seedIntervalMs
  let proven := live.filter fun p => e.proofCurrent now p.neighborIdent
  let best ← maxByKey (fun p => (e.effectiveTq now p).toNat) proven
  some best.neighborIdent

/-- The same selection without the proof gate, for the certificate-control plane. -/
def nextHopUnprovenOk (e : BatmanEngine c) (now : Duration) (destination : Mac) :
    Option Mac := do
  let record ← e.originatorTable.get? destination
  let live := record.paths.toList.filter fun p =>
    !pathStale (Millis.fromDuration now) p e.seedIntervalMs
  let best ← maxByKey (fun p => (e.effectiveTq now p).toNat) live
  some best.neighborIdent

def recomputeBest (record : OriginatorRecord) (selectable : Mac → Bool) : OriginatorRecord :=
  match maxByKey (fun p => p.lastTq.toNat)
      (record.paths.toList.filter fun p => selectable p.neighborIdent) with
  | some b => { record with maxTq := b.lastTq, bestNextHop := some b.neighborIdent }
  | none => { record with maxTq := 0, bestNextHop := none }

def isSelectable (e : BatmanEngine c) (now : Duration) (m : Mac) : Bool :=
  !e.requireProof || ((e.proven.entries.filter fun p => e.proofFresh now p.2.1).map
    Prod.fst).contains m

def recomputeAllBest (e : BatmanEngine c) (now : Duration) : BatmanEngine c :=
  { e with originatorTable := e.originatorTable.mapEntries fun _ record =>
      recomputeBest record (e.isSelectable now) }

/-! ### Next-hop proofs and challenges -/

/-- Insert, making room when the table is full by dropping the entry with the
oldest stamp. -/
def insertEvictingOldest {V : Type} {n : Nat} (m : IndexMap Mac V n) (nowMs : Millis)
    (stamp : V → Millis) (k : Mac) (v : V) : IndexMap Mac V n :=
  match m.insert k v with
  | some m' => m'
  | none =>
    match maxByKey (fun e : Mac × V => nowMs.elapsedSince (stamp e.2)) m.entries with
    | some oldest => (m.remove oldest.1).insertD k v
    | none => m

def noteProven (e : BatmanEngine c) (now : Duration) (neighbor : Mac) (iface : Nat) :
    BatmanEngine c :=
  let nowMs := Millis.fromDuration now
  recomputeAllBest
    { e with
      proven := insertEvictingOldest e.proven nowMs Prod.fst neighbor (nowMs, iface)
      challenged := e.challenged.remove neighbor } now

def setRequireProof (e : BatmanEngine c) (require : Bool) : BatmanEngine c :=
  { e with requireProof := require }

def noteChallenged (e : BatmanEngine c) (now : Duration) (neighbor : Mac) : BatmanEngine c :=
  let nowMs := Millis.fromDuration now
  let misses := (e.challenged.get? neighbor).elim 0 fun p => saturatingAdd p.2 1
  { e with challenged :=
      insertEvictingOldest e.challenged nowMs Prod.fst neighbor (nowMs, misses) }

def retainProven (e : BatmanEngine c) (now : Duration) (usable : Mac → Bool) :
    BatmanEngine c :=
  let doomed := e.proven.keys.filter fun m => !usable m
  if doomed.isEmpty then e
  else
    recomputeAllBest
      { e with
        proofsSwept := saturatingAdd e.proofsSwept (BitVec.ofNat 32 doomed.length)
        proven := doomed.foldl IndexMap.remove e.proven } now

def proofNeedsRefresh (e : BatmanEngine c) (now : Duration) (neighbor : Mac) : Bool :=
  match e.proven.get? neighbor with
  | none => true
  | some p => isStale (Millis.fromDuration now) p.1 0 e.seedIntervalMs 1

/-- The wait after `misses` unanswered challenges: doubling, and capped. -/
def challengeBackoffMs (e : BatmanEngine c) (misses : U32) : Nat :=
  let capMs := e.seedIntervalMs
  let floorMs := min capMs
    (asMillisU32 ((e.ogmTimers.toList.map TrickleTimer.iMin).min?.getD defaultOgmInterval))
  let waitMs := floorMs * 2 ^ misses.toNat
  if 32 ≤ misses.toNat ∨ 2 ^ 32 ≤ waitMs then capMs else min waitMs capMs

/-- The first of `challenge_candidates`. -/
def challengeCandidate (e : BatmanEngine c) (now : Duration) : Option Mac :=
  if !e.requireProof then none
  else
    ((e.originatorTable.values.flatMap fun r => r.paths.toList).map
      NeighborStats.neighborIdent).find? fun m =>
        e.proofNeedsRefresh now m && (e.challenged.get? m).all fun p =>
          decide (e.challengeBackoffMs p.2 ≤ (Millis.fromDuration now).elapsedSince p.1)

/-! ### Sweeps, resets and revocations -/

def blendIntervalMs (oldMs gapMs : Nat) : Nat :=
  if oldMs = 0 then gapMs else max (oldMs * 7 / 8) gapMs

def prunePaths (record : OriginatorRecord) (keep : NeighborStats → Bool) : OriginatorRecord :=
  { record with paths := record.paths.retain keep }

def purgeStale (e : BatmanEngine c) (now : Duration) : BatmanEngine c :=
  let nowMs := Millis.fromDuration now
  let seedMs := e.seedIntervalMs
  let before := e.originatorTable.len
  let pruned := e.originatorTable.mapEntries fun _ r =>
    prunePaths r fun p => !pathStale nowMs p seedMs
  let prunedPath := decide (pruned.values.map (fun r => r.paths.toList.length) ≠
    e.originatorTable.values.map fun r => r.paths.toList.length)
  let e := recomputeAllBest { e with originatorTable := pruned } now
  let table := e.originatorTable.retain fun _ r => !r.paths.toList.isEmpty
  let recent := fun stamp : Millis => decide (nowMs.elapsedSince stamp < stampAgeCeilingMs)
  { e with
    originatorTable := table
    topologyChanged := e.topologyChanged || decide (table.len ≠ before) || prunedPath
    proven := e.proven.retain fun _ p => recent p.1
    challenged := e.challenged.retain fun _ p => recent p.1
    keepalive := e.keepalive.retain fun _ s => recent s.lastHeard }

def reset (e : BatmanEngine c) : BatmanEngine c :=
  { e with
    originatorTable := .empty
    broadcastSeqno := .empty
    mcastMembers := .empty
    proven := .empty
    challenged := .empty }

def revokeOriginator (e : BatmanEngine c) (revokedMac : Mac) : BatmanEngine c :=
  { e with
    originatorTable := (e.originatorTable.retain fun mac _ => revokedMac ≠ mac).mapEntries
      fun _ r => prunePaths r fun p => revokedMac ≠ p.neighborIdent
    proven := e.proven.remove revokedMac
    challenged := e.challenged.remove revokedMac }

def revokeOriginators (e : BatmanEngine c) (revoked : List Mac) : BatmanEngine c :=
  revoked.foldl revokeOriginator e

/-! ### Timers, groups and the periodic announcement -/

def resetOgmTimers (e : BatmanEngine c) (now : Duration) : BatmanEngine c :=
  { e with ogmTimers := e.ogmTimers.map fun t => t.reset now }

def applyTopologyChange (e : BatmanEngine c) (now : Duration) : BatmanEngine c :=
  if e.topologyChanged then resetOgmTimers { e with topologyChanged := false } now else e

def setLocalMcastGroups (e : BatmanEngine c) (now : Duration) (groups : List Mac) :
    BatmanEngine c :=
  let after : BoundedVec Mac c.maxLocalMcast :=
    ⟨groups.take c.maxLocalMcast, by rw [List.length_take]; omega⟩
  let e' := { e with localMcast := after }
  if after.toList ≠ e.localMcast.toList then e'.resetOgmTimers now else e'

def jitterSeed (e : BatmanEngine c) (idx : Nat) (salt : U32) : U32 :=
  let m := e.selfIdent
  BitVec.ofNat 32 (m.o2.toNat + m.o3.toNat * 256 + m.o4.toNat * 65536 + m.o5.toNat * 16777216)
    ^^^ (BitVec.ofNat 32 idx * 0x01000193) ^^^ salt

/-- `backfill` up to `idx`, then the assignment at `idx`. -/
def backfillSet {α : Type} {n : Nat} (v : BoundedVec α n) (idx : Nat) (fill x : α)
    (h : idx < n) : BoundedVec α n where
  toList := (v.toList ++ List.replicate (idx + 1 - v.toList.length) fill).set idx x
  bounded := by
    have := v.bounded
    rw [List.length_set, List.length_append, List.length_replicate]
    omega

def configureInterfaceOgm (e : BatmanEngine c) (idx : Nat) (iMin iMax now : Duration) :
    BatmanEngine c :=
  if h : idx < c.maxInterfaces then
    let timer := TrickleTimer.new iMin iMax now (e.jitterSeed idx 0)
    { e with ogmTimers := backfillSet e.ogmTimers idx timer timer h }
  else e

def configureInterfaceKeepalive (e : BatmanEngine c) (idx : Nat) (interval : Option Duration)
    (now : Duration) : BatmanEngine c :=
  if h : idx < c.maxInterfaces then
    let timer := interval.map fun iv => TrickleTimer.new iv iv now (e.jitterSeed idx 0x9e3779b9)
    { e with keepaliveTimers := backfillSet e.keepaliveTimers idx none timer h }
  else e

def onInterfaceEmitted (e : BatmanEngine c) (idx : Nat) (now : Duration) : BatmanEngine c :=
  { e with ogmTimers :=
      ⟨e.ogmTimers.toList.modify idx fun t => t.onEmit now, by
        rw [List.length_modify]
        exact e.ogmTimers.bounded⟩ }

def onKeepaliveEmitted (e : BatmanEngine c) (idx : Nat) (now : Duration) : BatmanEngine c :=
  { e with keepaliveTimers :=
      ⟨e.keepaliveTimers.toList.modify idx fun t => t.map fun t => t.onEmit now, by
        rw [List.length_modify]
        exact e.keepaliveTimers.bounded⟩ }

/-! What a driver sleeps on. -/

def nextBroadcastAfter (e : BatmanEngine c) (now : Duration) : Duration :=
  (e.ogmTimers.toList.map fun t => t.timeUntil now).min?.getD (Duration.ofSecs 3600)

def dueInterface (e : BatmanEngine c) (now : Duration) : Option Nat :=
  (minByKey (fun p => p.1.timeUntil now)
    (e.ogmTimers.toList.zipIdx.filter fun p => p.1.due now)).map Prod.snd

def nextKeepaliveAfter (e : BatmanEngine c) (now : Duration) : Duration :=
  ((e.keepaliveTimers.toList.filterMap id).map fun t => t.timeUntil now).min?.getD
    (Duration.ofSecs 3600)

def dueKeepaliveInterface (e : BatmanEngine c) (now : Duration) : Option Nat :=
  (minByKey (fun p => p.1.timeUntil now)
    ((e.keepaliveTimers.toList.zipIdx.filterMap fun p => p.1.map fun t => (t, p.2)).filter
      fun p => p.1.due now)).map Prod.snd

/-- When a challenge of this neighbor falls due: neither before its proof needs renewal
nor inside the backoff of the last attempt. -/
def challengeDueMs (e : BatmanEngine c) (now : Duration) (neighbor : Mac) : Nat :=
  let nowMs := Millis.fromDuration now
  let refreshMs := (e.proven.get? neighbor).elim 0 fun p =>
    e.seedIntervalMs - nowMs.elapsedSince p.1
  let retryMs := (e.challenged.get? neighbor).elim 0 fun p =>
    e.challengeBackoffMs p.2 - nowMs.elapsedSince p.1
  max refreshMs retryMs

def nextChallengeAfter (e : BatmanEngine c) (now : Duration) : Option Duration :=
  if !e.requireProof then none
  else
    ((e.originatorTable.values.flatMap fun r => r.paths.toList).map fun p =>
      Duration.ofMillis (e.challengeDueMs now p.neighborIdent)).min?

/-- The sweep, then this node's own OGM with its multicast groups. -/
def producePeriodicBroadcast (e : BatmanEngine c) (now : Duration) : BatmanEngine c × Bytes :=
  let e := (e.purgeStale now).applyTopologyChange now
  let e := { e with sequenceNumber := e.sequenceNumber + 1 }
  let value := macsAsBytes e.localMcast.toList
  let tail := if value.isEmpty then []
    else (⟨TvlvType.mcast.asU8, 1, Be16.ofNat value.length⟩ : BatmanTvlvHdr).asBytes ++ value
  let ogm : BatmanOgmPacket :=
    { packetType := BatmanPacketType.ogm.asU8
      version := batmanVersion
      ttl := 50
      flags := 0
      seqno := Be32.ofU32 e.sequenceNumber
      orig := e.selfIdent
      reserved := 0
      tq := 255
      tvlvLen := Be16.ofNat tail.length }
  (e, ogm.asBytes ++ tail)

end BatmanEngine

end Wayfinder

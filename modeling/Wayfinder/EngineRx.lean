import Wayfinder.Engine

/-!
# The routing engine: receipt of a frame

One handler for each packet type, and the dispatcher over them. A handler returns
the engine, its verdict, the frame it staged in the reply buffer (if it staged
one) and the sink it emitted into. A reply buffer that is too small stages
nothing and is counted.
-/

namespace Wayfinder

set_option autoImplicit false

open Table

structure RxResult (c : Capacities) where
  engine : BatmanEngine c
  action : RoutingAction
  reply : Option LinkFrameData
  out : FrameSink

namespace BatmanEngine

variable {c : Capacities}

def noteRelayOversizeDrop (e : BatmanEngine c) : BatmanEngine c :=
  { e with relayOversizeDrops := saturatingAdd e.relayOversizeDrops 1 }

/-! ### Multicast membership -/

/-- The `while` loop that drops an originator's memberships by `swap_remove`;
each turn shortens the list or moves on, so its length is fuel enough. -/
def dropMembers (orig : Mac) : Nat → Nat → List (Mac × Mac) → List (Mac × Mac)
  | 0, _, l => l
  | fuel + 1, i, l =>
    match l[i]? with
    | none => l
    | some p =>
      if p.2 = orig then dropMembers orig fuel i (swapRemove l i)
      else dropMembers orig fuel (i + 1) l

/-- `as_chunks::<6>().0`: the whole six-byte chunks, a shorter rest left out. -/
def macChunks : Bytes → List Mac
  | a :: b :: c :: d :: e :: f :: rest => ⟨a, b, c, d, e, f⟩ :: macChunks rest
  | _ => []

def updateMcastMembership (e : BatmanEngine c) (orig : Mac) (frame : LinkFrame) :
    BatmanEngine c :=
  let tail := frame.payload.drop BatmanOgmPacket.size
  let members := dropMembers orig e.mcastMembers.toList.length 0 e.mcastMembers.toList
  let groups := ((findTvlv tail .mcast).elim [] macChunks).map fun g => (g, orig)
  { e with mcastMembers :=
      ⟨(members ++ groups).take c.maxMcastMembers, by rw [List.length_take]; omega⟩ }

/-! ### Originator messages -/

def tqSaturatingSub (tq : U8) (n : Nat) : U8 := if tq.toNat < n then 0 else tq - BitVec.ofNat 8 n

/-- One hop of attenuation, then the clamp by our own measurement of the link. -/
def computedTq (tq : U8) (localQuality : Option U8) : U8 :=
  let tq := tqSaturatingSub tq 10
  match localQuality with
  | some q => if q.toNat < tq.toNat then q else tq
  | none => tq

/-- Evict the least-recently-heard record if the table is full, then insert a
blank record; nothing happens when the originator is known. -/
def ensureOriginator (e : BatmanEngine c) (now : Duration) (orig : Mac) : BatmanEngine c :=
  if e.originatorTable.contains orig then e
  else
    let nowMs := Millis.fromDuration now
    let table :=
      if c.maxOriginators ≤ e.originatorTable.len then
        match maxByKey (fun r : OriginatorRecord => nowMs.elapsedSince r.lastHeard)
            e.originatorTable.values with
        | some oldest => e.originatorTable.remove oldest.neighborIdent
        | none => e.originatorTable
      else e.originatorTable
    let record : OriginatorRecord :=
      { lastSeqno := 0
        resyncWatch := none
        lastHeard := nowMs
        neighborIdent := orig
        bestNextHop := none
        maxTq := 0
        paths := .empty }
    { e with originatorTable := table.insertD orig record }

/-- Only a newer number on this path measures a cadence. -/
def refreshPath (path : NeighborStats) (tq : U8) (seqno : U32) (nowMs : Millis) : NeighborStats :=
  { path with
    intervalEstimateMs :=
      if path.lastSeqno < seqno then
        blendIntervalMs path.intervalEstimateMs (nowMs.elapsedSince path.lastHeard)
      else path.intervalEstimateMs
    lastTq := tq
    lastSeqno := seqno
    lastHeard := nowMs }

/-- Refresh the path through `src`, or add it while a slot is free. -/
def learnPath (record : OriginatorRecord) (src : Mac) (tq : U8) (seqno : U32) (nowMs : Millis) :
    OriginatorRecord :=
  match record.paths.toList.findIdx? fun p => p.neighborIdent = src with
  | some i =>
    { record with paths :=
        ⟨record.paths.toList.modify i fun p => refreshPath p tq seqno nowMs, by
          rw [List.length_modify]
          exact record.paths.bounded⟩ }
  | none =>
    { record with paths := record.paths.pushD ⟨src, tq, seqno, nowMs, 0⟩ }

def selectNextHop (record : OriginatorRecord) (src : Mac) (tq : U8) (srcProven : Bool) :
    OriginatorRecord :=
  if record.bestNextHop = some src then
    if srcProven then { record with maxTq := tq }
    else { record with bestNextHop := none, maxTq := 0 }
  else if srcProven && (record.bestNextHop.isNone || decide (record.maxTq < tq)) then
    { record with maxTq := tq, bestNextHop := some src }
  else record

def learnOgm (record : OriginatorRecord) (admission : SeqnoAdmission) (src : Mac) (tq : U8)
    (seqno : U32) (srcProven : Bool) (nowMs : Millis) : OriginatorRecord :=
  let record := if admission.contentsAreCurrent then { record with lastHeard := nowMs } else record
  selectNextHop (learnPath record src tq seqno nowMs) src tq srcProven

def admitOgm (record : OriginatorRecord) (isNew : Bool) (seqno : U32) (now : Duration) :
    OriginatorRecord × SeqnoAdmission :=
  if isNew then ({ record with lastSeqno := seqno }, .advanced)
  else
    let r := admitSeqno SeqnoBands.ogm record.toHighWater seqno now
    ({ record with toHighWater := r.1 }, r.2)

def countOgmAdmission (e : BatmanEngine c) (admission : SeqnoAdmission) (ttl : U8) :
    BatmanEngine c :=
  let e := if admission.isResynchronised then
      { e with seqnoResyncs := saturatingAdd e.seqnoResyncs 1 } else e
  if admission = .watching ∧ 1 < ttl.toNat then
    { e with ogmRefloodsSuppressed := saturatingAdd e.ogmRefloodsSuppressed 1 }
  else e

/-- The re-flood of an OGM: TTL and TQ rewritten, the bounded tail stamped with
the neighbor it was heard from. -/
def refloodOgm (e : BatmanEngine c) (ogm : BatmanOgmPacket) (ogmTail : Bytes) (tq : U8)
    (src : Mac) (replyLen : Nat) : BatmanEngine c × Option LinkFrameData :=
  match stampedLen ogmTail with
  | none => ({ e with ogmTailsMalformed := saturatingAdd e.ogmTailsMalformed 1 }, none)
  | some outTvlvLen =>
    let stamped :=
      if BatmanOgmPacket.size + outTvlvLen ≤ replyLen then
        (stampPrevSender ogmTail (replyLen - BatmanOgmPacket.size) src).filter fun t =>
          t.length < 2 ^ 16
      else none
    match stamped with
    | some tail =>
      let outbound := { ogm with ttl := ogm.ttl - 1, tq := tq, tvlvLen := Be16.ofNat tail.length }
      (e, some ⟨Mac.broadcast, ethPBatman, outbound.asBytes ++ tail⟩)
    | none => (e.noteRelayOversizeDrop, none)

def ogmRecord (record : OriginatorRecord) (isNew srcProven : Bool) (now : Duration) (src : Mac)
    (tq : U8) (seqno : U32) : OriginatorRecord × SeqnoAdmission :=
  let (record, admission) := admitOgm record isNew seqno now
  (if admission.isStaleCopy then record
    else learnOgm record admission src tq seqno srcProven (Millis.fromDuration now), admission)

def withTable (e : BatmanEngine c)
    (table : IndexMap Mac OriginatorRecord c.maxOriginators) : BatmanEngine c :=
  { e with originatorTable := table }

def latchTopology (e : BatmanEngine c) (isNew : Bool) : BatmanEngine c :=
  if isNew then { e with topologyChanged := true } else e

/-- What follows the record: counters, memberships, the topology latch and the
re-flood of a number seen for the first time. -/
def finishOgm (e : BatmanEngine c) (now : Duration) (frame : LinkFrame) (replyLen : Nat)
    (ogm : BatmanOgmPacket) (ogmTail : Bytes) (tq : U8) (isNew : Bool)
    (admission : SeqnoAdmission) : BatmanEngine c × Option LinkFrameData :=
  let e := e.countOgmAdmission admission ogm.ttl
  if admission.isStaleCopy then (e.applyTopologyChange now, none)
  else
    let e := if admission.contentsAreCurrent then e.updateMcastMembership ogm.orig frame else e
    let e := e.latchTopology isNew
    if admission.isAdvanced && decide (1 < ogm.ttl.toNat) then
      let r := e.refloodOgm ogm ogmTail tq frame.src replyLen
      (r.1.applyTopologyChange now, r.2)
    else (e.applyTopologyChange now, none)

/-- The part of `handle_ogm` behind the guards. -/
def acceptOgm (e : BatmanEngine c) (now : Duration) (frame : LinkFrame)
    (localQuality : Option U8) (replyLen : Nat) (ogm : BatmanOgmPacket) (ogmTail : Bytes) :
    BatmanEngine c × Option LinkFrameData :=
  let srcProven := e.proofCurrent now frame.src
  let isNew := !e.originatorTable.contains ogm.orig
  let e := e.ensureOriginator now ogm.orig
  match e.originatorTable.get? ogm.orig with
  -- The `expect` of the source: the record was looked up or inserted just above.
  | none => (e, none)
  | some record =>
    let tq := computedTq ogm.tq localQuality
    let r := ogmRecord record isNew srcProven now frame.src tq ogm.seqno.get
    let e := e.withTable (e.originatorTable.modify ogm.orig fun _ => r.1)
    e.finishOgm now frame replyLen ogm ogmTail tq isNew r.2

def ogmTail? (ogm : BatmanOgmPacket) (rest : Bytes) : Option Bytes :=
  if ogm.tvlvLen.get ≤ rest.length then some (rest.take ogm.tvlvLen.get) else none

def handleOgm (e : BatmanEngine c) (now : Duration) (frame : LinkFrame)
    (localQuality : Option U8) (replyLen : Nat) : BatmanEngine c × Option LinkFrameData :=
  match BatmanOgmPacket.readFromPrefix frame.payload with
  | none => (e, none)
  | some (ogm, rest) =>
    if ogm.orig = e.selfIdent then (e, none)
    else
      match ogmTail? ogm rest with
      | none => ({ e with ogmTailsMalformed := saturatingAdd e.ogmTailsMalformed 1 }, none)
      | some ogmTail =>
        if prevSender ogmTail = some e.selfIdent then
          ({ e with ogmEchoesDropped := saturatingAdd e.ogmEchoesDropped 1 }, none)
        else e.acceptOgm now frame localQuality replyLen ogm ogmTail

/-! ### Keep-alives -/

def noteKeepalive (e : BatmanEngine c) (now : Duration) (neighbor : Mac) : BatmanEngine c :=
  let nowMs := Millis.fromDuration now
  if e.keepalive.contains neighbor then
    { e with keepalive := e.keepalive.modify neighbor fun stats =>
        { lastHeard := nowMs
          intervalEstimateMs :=
            blendIntervalMs stats.intervalEstimateMs (nowMs.elapsedSince stats.lastHeard) } }
  else
    let table :=
      if c.maxOriginators ≤ e.keepalive.len then
        match maxByKey (fun s : Mac × KeepAliveStats => nowMs.elapsedSince s.2.lastHeard)
            e.keepalive.entries with
        | some oldest => e.keepalive.remove oldest.1
        | none => e.keepalive
      else e.keepalive
    { e with keepalive := table.insertD neighbor ⟨nowMs, 0⟩ }

def handleKeepalive (e : BatmanEngine c) (now : Duration) (frame : LinkFrame) : BatmanEngine c :=
  match BatmanKeepAlivePacket.readFromPrefix frame.payload with
  | none => e
  | some _ =>
    if frame.src ≠ e.selfIdent ∧ e.originatorTable.contains frame.src then
      e.noteKeepalive now frame.src
    else e

/-! ### Flooded broadcasts -/

/-- The dedup decision: whether the broadcast is to be acted on. -/
def admitBroadcast (e : BatmanEngine c) (now : Duration) (orig : Mac) (seqno : U32) :
    BatmanEngine c × Bool :=
  match e.broadcastSeqno.get? orig with
  | some entry =>
    let (entry, admission) := entry.admitEntry seqno now
    let e := { e with
      broadcastSeqno := e.broadcastSeqno.modify orig fun _ => entry
      seqnoResyncs := if admission.isResynchronised then saturatingAdd e.seqnoResyncs 1
        else e.seqnoResyncs }
    if admission.isAdvanced then (e, true)
    else
      match admission with
      | .duplicate _ => (e, false)
      | _ => ({ e with broadcastSeqnoRefusals := saturatingAdd e.broadcastSeqnoRefusals 1 }, false)
  | none =>
    let e :=
      if c.maxOriginators ≤ e.broadcastSeqno.len then
        match maxByKey (fun s : Mac × BroadcastSeqnoEntry =>
            (Millis.fromDuration now).elapsedSince s.2.lastUpdated) e.broadcastSeqno.entries with
        | some evicted =>
          { e with
            broadcastSeqno := e.broadcastSeqno.remove evicted.1
            broadcastDedupEvictions := saturatingAdd e.broadcastDedupEvictions 1 }
        | none => e
      else e
    match e.broadcastSeqno.insert orig (BroadcastSeqnoEntry.seeded seqno now) with
    | some table => ({ e with broadcastSeqno := table }, true)
    | none => (e, false)

def handleBroadcast (e : BatmanEngine c) (now : Duration) (frame : LinkFrame) (replyLen : Nat) :
    BatmanEngine c × RoutingAction × Option LinkFrameData :=
  match BatmanBroadcastPacket.readFromPrefix frame.payload with
  | none => (e, .consumed, none)
  | some (bcast, inner) =>
    if bcast.orig = e.selfIdent then (e, .consumed, none)
    else
      let (e, fresh) := e.admitBroadcast now bcast.orig bcast.seqno.get
      if !fresh then (e, .consumed, none)
      else if bcast.ttl.toNat ≤ 1 then (e, .deliverLocal, none)
      else if BatmanBroadcastPacket.size + inner.length ≤ replyLen then
        let outbound := { bcast with ttl := bcast.ttl - 1 }
        (e, .deliverLocalAndForward Mac.broadcast,
          some ⟨Mac.broadcast, ethPBatman, outbound.asBytes ++ inner⟩)
      else (e.noteRelayOversizeDrop, .deliverLocalAndForward Mac.broadcast, none)

/-! ### Frames routed toward one destination -/

def stageRelay (e : BatmanEngine c) (replyLen : Nat) (next : Mac) (header inner : Bytes) :
    BatmanEngine c × Option LinkFrameData :=
  if header.length + inner.length ≤ replyLen then (e, some ⟨next, ethPBatman, header ++ inner⟩)
  else (e.noteRelayOversizeDrop, none)

/-- Deliver, expire, or relay one hop closer: what the unicast, credential-control
and echo handlers share. `header` is the rewritten header. -/
def relayToward (e : BatmanEngine c) (now : Duration) (replyLen : Nat) (dest : Mac) (ttl : U8)
    (header inner : Bytes) : BatmanEngine c × RoutingAction × Option LinkFrameData :=
  if dest = e.selfIdent then (e, .deliverLocal, none)
  else if ttl.toNat ≤ 1 then (e, .consumed, none)
  else
    match e.nextHop now dest with
    | none => (e, .consumed, none)
    | some next =>
      let r := e.stageRelay replyLen next header inner
      (r.1, .consumed, r.2)

def handleUnicast (e : BatmanEngine c) (now : Duration) (frame : LinkFrame) (replyLen : Nat) :
    BatmanEngine c × RoutingAction × Option LinkFrameData :=
  match BatmanUnicastPacket.readFromPrefix frame.payload with
  | none => (e, .consumed, none)
  | some (hdr, inner) =>
    e.relayToward now replyLen hdr.dest hdr.ttl { hdr with ttl := hdr.ttl - 1 }.asBytes inner

def handleCredentialControl (e : BatmanEngine c) (now : Duration) (frame : LinkFrame)
    (replyLen : Nat) : BatmanEngine c × RoutingAction × Option LinkFrameData :=
  match BatmanUnicastPacket.readFromPrefix frame.payload with
  | none => (e, .consumed, none)
  | some (hdr, inner) =>
    e.relayToward now replyLen hdr.dest hdr.ttl { hdr with ttl := hdr.ttl - 1 }.asBytes inner

def handleEcho (e : BatmanEngine c) (now : Duration) (frame : LinkFrame) (replyLen : Nat) :
    BatmanEngine c × RoutingAction × Option LinkFrameData :=
  match BatmanEchoPacket.readFromPrefix frame.payload with
  | none => (e, .consumed, none)
  | some (hdr, inner) =>
    let hops := if hdr.hops = 255 then 255 else hdr.hops + 1
    e.relayToward now replyLen hdr.dest hdr.ttl
      { hdr with ttl := hdr.ttl - 1, hops := hops }.asBytes inner

/-! ### Multi-destination multicast -/

/-- Resolve each destination but ourselves to its next hop, counting the ones
that have none. -/
def routeDests (e : BatmanEngine c) (now : Duration) :
    List Mac → BatmanEngine c × List (Mac × Mac)
  | [] => (e, [])
  | dest :: rest =>
    if dest = e.selfIdent then e.routeDests now rest
    else
      match e.nextHop now dest with
      | none =>
        let e := { e with mcastUnroutableDests := saturatingAdd e.mcastUnroutableDests 1 }
        e.routeDests now rest
      | some next =>
        let r := e.routeDests now rest
        (r.1, (next, dest) :: r.2)

/-- Emit one frame for each next hop not done yet. The local lists hold at most
one entry for each of the sixteen destinations, so no push on them fails. -/
def emitGroups (ttl : U8) (inner : Bytes) (scratchLen : Nat) (routed : List (Mac × Mac)) :
    List (Mac × Mac) → List Mac → BatmanEngine c → FrameSink → BatmanEngine c × FrameSink
  | [], _, e, out => (e, out)
  | (next, _) :: rest, done, e, out =>
    if next ∈ done then emitGroups ttl inner scratchLen routed rest done e out
    else
      let group := (routed.filter fun p => p.1 = next).map Prod.snd
      match writeMcast (ttl - 1) .tag group inner scratchLen with
      | none =>
        emitGroups ttl inner scratchLen routed rest (done ++ [next]) e.noteRelayOversizeDrop out
      | some payload =>
        let r := out.push ⟨next, ethPBatman, payload⟩
        let e := if r.2 then e
          else { e with mcastEmitOverflows := saturatingAdd e.mcastEmitOverflows 1 }
        emitGroups ttl inner scratchLen routed rest (done ++ [next]) e r.1

def handleMcast (e : BatmanEngine c) (now : Duration) (frame : LinkFrame) (out : FrameSink)
    (scratchLen : Nat) : BatmanEngine c × RoutingAction × FrameSink :=
  match McastPacketView.parse frame.payload with
  | none => (e, .consumed, out)
  | some view =>
    if maxMcastDests < view.dests.length then
      ({ e with mcastOversizeLists := saturatingAdd e.mcastOversizeLists 1 }, .consumed, out)
    else
      let action := if e.selfIdent ∈ view.dests then .deliverLocal else .consumed
      if view.form = .signature then (e, action, out)
      else if 1 < view.header.ttl.toNat then
        let (e, routed) := e.routeDests now view.dests
        let (e, out) := emitGroups view.header.ttl view.inner scratchLen routed routed [] e out
        (e, action, out)
      else (e, action, out)

/-! ### Dispatch -/

def routeByDest (e : BatmanEngine c) (now : Duration) (frame : LinkFrame) : RoutingAction :=
  if frame.dst = e.selfIdent then .deliverLocal
  else
    match e.nextHop now frame.dst with
    | some next => .forwardTo next
    | none => .consumed

/-- The protocol filter: a BATMAN frame of our version, and the sub-type it names
if this build knows it. -/
def rxSubtype (frame : LinkFrame) : Option (Option BatmanPacketType) :=
  match frame.payload with
  | tag :: version :: _ =>
    if frame.protocol ≠ ethPBatman ∨ version ≠ batmanVersion then none
    else some (BatmanPacketType.fromU8 tag)
  | _ => none

def handleRx (e : BatmanEngine c) (now : Duration) (frame : LinkFrame) (localQuality : Option U8)
    (replyLen : Nat) (out : FrameSink) : RxResult c :=
  match rxSubtype frame with
  | none => ⟨e, .consumed, none, out⟩
  | some (some .ogm) =>
    let r := e.handleOgm now frame localQuality replyLen
    ⟨r.1, .consumed, r.2, out⟩
  | some (some .bcast) =>
    let r := e.handleBroadcast now frame replyLen
    ⟨r.1, r.2.1, r.2.2, out⟩
  | some (some .unicast) =>
    let r := e.handleUnicast now frame replyLen
    ⟨r.1, r.2.1, r.2.2, out⟩
  | some (some .mcast) =>
    let r := e.handleMcast now frame out replyLen
    ⟨r.1, r.2.1, none, r.2.2⟩
  | some (some .certReq) | some (some .certReply) | some (some .renewReq)
  | some (some .renewReply) =>
    let r := e.handleCredentialControl now frame replyLen
    ⟨r.1, r.2.1, r.2.2, out⟩
  | some (some .keepalive) => ⟨e.handleKeepalive now frame, .consumed, none, out⟩
  | some (some .echoRequest) | some (some .echoReply) =>
    let r := e.handleEcho now frame replyLen
    ⟨r.1, r.2.1, r.2.2, out⟩
  | some (some .nextHopChallenge) | some (some .nextHopResponse) => ⟨e, .consumed, none, out⟩
  | some none => ⟨e, e.routeByDest now frame, none, out⟩

end BatmanEngine

end Wayfinder

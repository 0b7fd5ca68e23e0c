import Wayfinder.Auth.Credential
import Wayfinder.Broadcast
import Wayfinder.Driver.Outgoing
import Wayfinder.LinkTables
import Wayfinder.Management
import Wayfinder.Ping
import Wayfinder.RouterRun

/-!
# The whole router

One node with everything it keeps: the routing engine and the auth state, the link tables
beside them, what management set for each interface, and the running probe session. Its
public operations are one step each, with what the step puts out.
-/

namespace Wayfinder

set_option autoImplicit false

open Table

/-- The room of the tables beside the engine. -/
structure TableCapacities where
  linkQuality : Nat
  identLive : Nat

inductive LocalSendError where
  | bufferTooSmall | authLocked | routeUnproven
  deriving DecidableEq, Repr

structure NodeRouter (e : Capacities) (a : AuthCapacities) (t : TableCapacities) where
  managed : ManagedRouter e a
  linkQuality : LinkQualityTable t.linkQuality
  identTable : IdentTable t.identLive
  ping : Option PingSession
  nextPingSeq : Nat
  nextProbeSeqno : Nat
  oversizeDrops : U32
  mcastGroupDrops : U32
  mcastUnroutableLocal : U32

namespace NodeRouter

variable {e : Capacities} {a : AuthCapacities} {t : TableCapacities}

def new (e : Capacities) (a : AuthCapacities) (t : TableCapacities) (selfIdent : Mac) :
    NodeRouter e a t where
  managed :=
    { core := .withCapacities e a selfIdent
      emissions := List.replicate e.maxInterfaces .default
      ifaceCount := 0
      runtimeConfigActive := false
      registered := Nat.zero_le _ }
  linkQuality := .empty
  identTable := .empty
  ping := none
  nextPingSeq := 1
  nextProbeSeqno := 0
  oversizeDrops := 0
  mcastGroupDrops := 0
  mcastUnroutableLocal := 0

def core (n : NodeRouter e a t) : CentralRouter e a := n.managed.core

def withCore (n : NodeRouter e a t) (core : CentralRouter e a) : NodeRouter e a t :=
  { n with managed := { n.managed with core := core } }

def asPing (n : NodeRouter e a t) : PingRouter e a :=
  ⟨n.core, n.ping, n.nextPingSeq, n.nextProbeSeqno⟩

def withPing (n : NodeRouter e a t) (p : PingRouter e a) : NodeRouter e a t :=
  { n.withCore p.core with
    ping := p.ping
    nextPingSeq := p.nextPingSeq
    nextProbeSeqno := p.nextProbeSeqno }

def forgetLinks (n : NodeRouter e a t) : NodeRouter e a t :=
  { n with linkQuality := .empty, identTable := .empty }

/-- The core after an operation that may have acted on the node's own revocation, which
is the one thing there that takes its auth state: the link tables go with it. -/
def afterCore (n : NodeRouter e a t) (core : CentralRouter e a) : NodeRouter e a t :=
  if n.core.auth.isSome && core.auth.isNone then (n.withCore core).forgetLinks
  else n.withCore core

/-- The rows of neighbors the routes no longer know are dropped. -/
def retainLive (n : NodeRouter e a t) : NodeRouter e a t :=
  { n with linkQuality := n.linkQuality.retainLive n.core.batman.originatorTable.contains }

/-! ### Membership -/

def setAuth (n : NodeRouter e a t) (auth : OgmAuth a) : NodeRouter e a t :=
  (n.withCore (n.core.setAuth auth)).forgetLinks

def ingestRevocation (k : Crypto) (n : NodeRouter e a t) (record : RevocationRecord)
    (now : Duration) : NodeRouter e a t × Bool :=
  let (core, newly) := n.core.ingestRevocation k record now
  let hinted := n.core.auth.any fun auth =>
    (auth.ingestRevocation k record).1.takeTrickleResetHint.2
  let n := n.afterCore core
  (if hinted && core.auth.isSome then n.retainLive else n, newly)

/-! ### Receiving -/

/-- An echo reply that ends at this node. -/
def endsEchoReply (core : CentralRouter e a) (now : Duration) (ifaceIdx : Nat)
    (frame : LinkFrame) (localQuality : Option U8) (txLen : Nat) (out : FrameSink) : Bool :=
  decide (CentralRouter.packetTypeOf frame = some .echoReply) &&
    core.admitsFrame ifaceIdx frame &&
    match core.applySelfRevocation with
    | (_, true) => false
    | (core, false) =>
      decide (((core.actOnTrickleHint now).batman.handleRx now frame localQuality txLen
        out).action = .deliverLocal)

def creditEchoReply (n : NodeRouter e a t) (now : Duration) (payload : Bytes) :
    NodeRouter e a t :=
  match BatmanEchoPacket.readFromPrefix payload with
  | none => n
  | some (rsp, _) =>
    n.withPing (n.asPing.creditReply now rsp.orig rsp.seqno.get rsp.reqHops rsp.hops)

/-- The frame is measured before anything else, unless its sender is shunned or the node
locked. -/
def measureFrame (n : NodeRouter e a t) (ifaceIdx : Nat) (frame : LinkFrame)
    (metrics : LinkMetrics) : NodeRouter e a t :=
  let shunned := n.core.auth.any fun auth => auth.isShunned frame.src
  let n := if shunned then n
    else { n with linkQuality :=
      n.linkQuality.update frame.src ifaceIdx (normalizeQuality metrics) }
  let n := { n with managed := n.managed.touchIface ifaceIdx }
  if shunned && !CentralRouter.readmits (CentralRouter.packetTypeOf frame) then n
  else { n with identTable := n.identTable.addRecord ifaceIdx frame.dst }

def handleFrameWithMetrics (k : Crypto) (n : NodeRouter e a t) (now : Duration) (ifaceIdx : Nat)
    (frame : LinkFrame) (metrics : LinkMetrics) (txLen : Nat) (out : FrameSink) :
    NodeRouter e a t × RxOutcome × FrameSink :=
  if n.core.authLocked then (n, .empty, out)
  else
    let n := n.measureFrame ifaceIdx frame metrics
    let localQuality := n.linkQuality.qualityFor frame.src ifaceIdx
    let echoed := endsEchoReply n.core now ifaceIdx frame localQuality txLen out
    let (core, outcome, out) := n.core.handleFrame k now ifaceIdx frame localQuality txLen out
    let n := n.afterCore core
    (if echoed then n.creditEchoReply now frame.payload else n, outcome, out)

/-! ### Sending -/

def poll (k : Crypto) (n : NodeRouter e a t) (now : Duration) (txLen : Nat) :
    NodeRouter e a t × Option LinkFrameData :=
  let (core, frame) := n.core.poll k now txLen
  let n := n.afterCore core
  (if core.authLocked then n else n.retainLive, frame)

def pollRenewal (k : Crypto) (n : NodeRouter e a t) (now : Duration) (txLen : Nat) :
    NodeRouter e a t × Option LinkFrameData :=
  match n.core.auth with
  | none => (n, none)
  | some auth =>
    let (auth, frame) := auth.pollRenewal k n.core.batman now txLen
    (n.withCore { n.core with auth := some auth }, frame)

def sendRenewReply (n : NodeRouter e a t) (now : Duration) (requester : Mac)
    (cert : MembershipCert) (txLen : Nat) : Option LinkFrameData :=
  match n.core.auth with
  | none => none
  | some _ => OgmAuth.sendRenewReply n.core.batman now requester cert txLen

def noteOversizeDrop (n : NodeRouter e a t) : NodeRouter e a t :=
  { n with oversizeDrops := saturatingAdd n.oversizeDrops 1 }

def handleLocal (n : NodeRouter e a t) (now : Duration) (dest : Mac) (payload : Bytes)
    (txLen : Nat) : NodeRouter e a t × Except LocalSendError LinkFrameData :=
  if n.core.authLocked then (n, .error .authLocked)
  else if dest = Mac.broadcast then
    match n.core.batman.handleLocalBroadcast payload txLen with
    | (batman, none) =>
      ((n.withCore { n.core with batman := batman }).noteOversizeDrop, .error .bufferTooSmall)
    | (batman, some frame) => (n.withCore { n.core with batman := batman }, .ok frame)
  else
    match n.core.resolveNextHop now dest with
    | none => (n, .error .routeUnproven)
    | some nextHop =>
      let header : BatmanUnicastPacket :=
        ⟨BatmanPacketType.unicast.asU8, batmanVersion, 50, dest⟩
      if txLen < BatmanUnicastPacket.size + payload.length then
        (n.noteOversizeDrop, .error .bufferTooSmall)
      else (n, .ok ⟨nextHop, ethPBatman, header.asBytes ++ payload⟩)

/-- Each listener but ourselves with its next hop, and how many had none or found no room. -/
def routeListeners (core : CentralRouter e a) (now : Duration) (total : Nat) :
    List Mac → List (Mac × Mac) → U32 → List (Mac × Mac) × U32
  | [], routed, lost => (routed, lost)
  | dest :: rest, routed, lost =>
    if dest = core.batman.selfIdent then routeListeners core now total rest routed lost
    else
      match core.resolveNextHop now dest with
      | none => routeListeners core now total rest routed (saturatingAdd lost 1)
      | some next =>
        if routed.length < maxMcastDests then
          routeListeners core now total rest (routed ++ [(next, dest)]) lost
        else (routed, saturatingAdd lost (BitVec.ofNat 32 (total - routed.length)))

/-- One frame for each next hop not done yet, and how many the sink took; `none` where a
group does not fit the buffer. -/
def emitListeners (payload : Bytes) (txLen : Nat) (routed : List (Mac × Mac)) :
    List (Mac × Mac) → List Mac → Nat → U32 → FrameSink → Option Nat × U32 × FrameSink
  | [], _, emitted, drops, out => (some emitted, drops, out)
  | (next, _) :: rest, done, emitted, drops, out =>
    if next ∈ done then emitListeners payload txLen routed rest done emitted drops out
    else
      let group := (routed.filter fun p => p.1 = next).map Prod.snd
      match writeMcast 50 .tag group payload txLen with
      | none => (none, drops, out)
      | some bytes =>
        match out.push ⟨next, ethPBatman, bytes⟩ with
        | (out, true) =>
          emitListeners payload txLen routed rest (done ++ [next]) (emitted + 1) drops out
        | (out, false) =>
          emitListeners payload txLen routed rest (done ++ [next]) emitted
            (saturatingAdd drops (BitVec.ofNat 32 group.length)) out

def handleLocalMcast (n : NodeRouter e a t) (now : Duration) (dests : List Mac) (payload : Bytes)
    (txLen : Nat) (out : FrameSink) :
    NodeRouter e a t × Except LocalSendError Unit × FrameSink :=
  if n.core.authLocked then (n, .error .authLocked, out)
  else if dests.isEmpty then (n, .error .routeUnproven, out)
  else
    let (routed, lost) := routeListeners n.core now dests.length dests [] n.mcastUnroutableLocal
    let n := { n with mcastUnroutableLocal := lost }
    if routed.isEmpty then (n, .error .routeUnproven, out)
    else
      match emitListeners payload txLen routed routed [] 0 n.mcastGroupDrops out with
      | (none, drops, out) =>
        ({ n with mcastGroupDrops := drops }.noteOversizeDrop, .error .bufferTooSmall, out)
      | (some emitted, drops, out) =>
        let n := { n with mcastGroupDrops := drops }
        if emitted = 0 then (n, .error .routeUnproven, out) else (n, .ok (), out)

/-! ### Egress -/

/-- The traffic classes a link sends. -/
def linkMayTx (n : NodeRouter e a t) (idx : Nat) (packetType : Option BatmanPacketType) : Bool :=
  let f := n.managed.linkFeatures idx
  match packetType with
  | some .ogm => f.txOgm
  | some .bcast | some .unicast | some .mcast => f.txData
  | some .nextHopChallenge | some .nextHopResponse => f.txData
  | some .echoRequest | some .echoReply => f.txData
  | _ => true

def getEgressInterface (n : NodeRouter e a t) (now : Duration) (dest : Mac) :
    NodeRouter e a t × Option EgressInterface :=
  if dest = Mac.broadcast then (n, some .all)
  else
    let nextHop := (n.core.batman.nextHop now dest).getD dest
    match n.core.batman.provenInterface now nextHop with
    | some iface => (n, some (.interface iface))
    | none =>
      match n.linkQuality.bestInterfaceFor nextHop with
      | some iface => (n, some (.interface iface))
      | none =>
        let (found, identTable) := n.identTable.getEgressInterface dest
        ({ n with identTable := identTable }, found.map .interface)

def resolveRoute (n : NodeRouter e a t) (now : Duration) (dest : Mac) :
    Mac × Option EgressInterface :=
  if dest = Mac.broadcast then (Mac.broadcast, some .all)
  else
    let nextHop := n.core.resolveNextHop now dest
    let egress := nextHop.bind fun hop =>
      ((n.linkQuality.bestInterfaceFor hop).or (n.identTable.peekEgressInterface dest)).map
        EgressInterface.interface
    (nextHop.getD dest, egress)

end NodeRouter

end Wayfinder

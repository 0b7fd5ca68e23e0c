import Wayfinder.Driver.Polling

/-!
# A driver stepped by its caller

Interfaces are queues here: the caller pushes what a carrier received and what the host
sends, steps the clock, and carries off what was staged. One step drains all that is queued,
runs what falls due, and dispatches what that planned once the planning is over.
-/

namespace Wayfinder

set_option autoImplicit false

/-! ### The bytes of a link frame -/

namespace LinkFrame

/-- `[dst][src][protocol be][payload]`. -/
def asBytes (f : LinkFrame) : Bytes :=
  f.dst.asBytes ++ (f.src.asBytes ++ ((Be16.ofNat f.protocol.toNat).asBytes ++ f.payload))

/-- Any bytes that hold the header are a frame. -/
def refFromBytes : Bytes → Option LinkFrame
  | d0 :: d1 :: d2 :: d3 :: d4 :: d5 :: s0 :: s1 :: s2 :: s3 :: s4 :: s5 :: hi :: lo :: payload =>
    some ⟨⟨d0, d1, d2, d3, d4, d5⟩, ⟨s0, s1, s2, s3, s4, s5⟩, BitVec.ofNat 16 (Be16.mk hi lo).get,
      payload⟩
  | _ => none

theorem refFromBytes_asBytes (f : LinkFrame) : refFromBytes f.asBytes = some f := by
  have hprotocol : BitVec.ofNat 16 (Be16.ofNat f.protocol.toNat).get = f.protocol := by
    rw [Be16.get_ofNat f.protocol.isLt, BitVec.ofNat_toNat, BitVec.setWidth_eq]
  show some (LinkFrame.mk f.dst f.src (BitVec.ofNat 16 (Be16.ofNat f.protocol.toNat).get)
    f.payload) = _
  rw [hprotocol]

end LinkFrame

/-! ### The driver -/

def maxLinkFrameLen : Nat := 2048

def maxTrailerLen : Nat :=
  if directedTrailerLen < fanoutTrailerLen then fanoutTrailerLen else directedTrailerLen

structure QueuedRx where
  idx : Nat
  metrics : LinkMetrics
  bytes : Bytes
  frame : LinkFrame
  parsed : LinkFrame.refFromBytes bytes = some frame

inductive McastPlan where
  | unicast
  | flood
  deriving DecidableEq, Repr

namespace NodeRouter

variable {e : Capacities} {a : AuthCapacities} {t : TableCapacities}

def mcastPlan (n : NodeRouter e a t) (group : Mac) : McastPlan :=
  let count := (n.core.batman.mcastListeners group).length
  if 1 ≤ count ∧ count ≤ maxMcastDests then .unicast else .flood

def mcastTargets (n : NodeRouter e a t) (group : Mac) : List Mac :=
  n.core.batman.mcastListeners group

def setAuthTime (n : NodeRouter e a t) (now : Duration) (wall : Clocked) : NodeRouter e a t :=
  n.withCore (n.core.setAuthTime now wall)

def takeRenewalRequest (n : NodeRouter e a t) : NodeRouter e a t × Option VerifiedRenewal :=
  match n.core.auth with
  | none => (n, none)
  | some auth =>
    let (auth, verified) := auth.takeRenewalRequest
    (n.withAuth auth, verified)

end NodeRouter

/-- The host's frames of one step, as the shell plans them. -/
def planLocalSend {e : Capacities} {a : AuthCapacities} {t : TableCapacities} (now : Duration)
    (st : NodeRouter e a t × MeshSink) (send : Mac × Bytes) : NodeRouter e a t × MeshSink :=
  let (n, sink) := st
  let (dest, payload) := send
  if dest.isMulticast && dest != Mac.broadcast then
    match n.mcastPlan dest with
    | .unicast =>
      let (n, _, out) := n.handleLocalMcast now (n.mcastTargets dest) payload maxLinkFrameLen
        .unbounded
      (n, out.frames.foldl (fun sink f => sink.emitFrame .auto (some f)) sink)
    | .flood =>
      let (n, sent) := n.handleLocal now Mac.broadcast payload maxLinkFrameLen
      (n, sink.emitFrame .auto sent.toOption)
  else
    let (n, sent) := n.handleLocal now dest payload maxLinkFrameLen
    (n, sink.emitFrame .auto sent.toOption)

/-- `egress` holds one queue for each interface. -/
structure TickDriver (e : Capacities) (a : AuthCapacities) (t : TableCapacities) where
  router : NodeRouter e a t
  mac : Mac
  rxQueue : List QueuedRx
  localTxQueue : List (Mac × Bytes)
  egress : List (List Bytes)
  localRx : List Bytes
  fanOut : List (Option FanOut)
  epochUnix : Nat

namespace TickDriver

variable {e : Capacities} {a : AuthCapacities} {t : TableCapacities}

def configure (features : List InterfaceFeatures) (n : NodeRouter e a t)
    (iface : (Duration × Duration) × Nat) : NodeRouter e a t :=
  let ((iMin, iMax), idx) := iface
  let linkFeatures := features.getD idx ⟨.default, .default⟩
  let managed := n.managed.configureInterfaceOgm idx iMin iMax 0
  let managed := managed.setLinkFeatures idx linkFeatures
  { n with
    managed := managed.configureInterfaceKeepalive idx
      (linkFeatures.txKeepalive.map Duration.ofMillis) 0 }

/-- An interface the router would not schedule is left out. -/
def new (e : Capacities) (a : AuthCapacities) (t : TableCapacities) (mac : Mac)
    (trickle : List (Duration × Duration)) (features : List InterfaceFeatures) :
    TickDriver e a t where
  router := (trickle.take e.maxInterfaces).zipIdx.foldl (configure features) (.new e a t mac)
  mac := mac
  rxQueue := []
  localTxQueue := []
  egress := List.replicate (min trickle.length e.maxInterfaces) []
  localRx := []
  fanOut := List.replicate (min trickle.length e.maxInterfaces) none
  epochUnix := 0

variable (k : Crypto) (now : Duration) (d : TickDriver e a t)

def setFanOut (idx : Nat) (fanOut : Option FanOut) : TickDriver e a t :=
  { d with fanOut := d.fanOut.set idx fanOut }

/-- An epoch nobody pinned is no clock. -/
def wall : Clocked :=
  if d.epochUnix = 0 then .unknown else .at (min (d.epochUnix + now / 1000000000) (2 ^ 64 - 1))

/-- `none`: the bytes are no frame. -/
def pushRx (idx : Nat) (metrics : LinkMetrics) (bytes : Bytes) : Option (TickDriver e a t) :=
  match h : LinkFrame.refFromBytes bytes with
  | none => none
  | some frame => some { d with rxQueue := d.rxQueue ++ [⟨idx, metrics, bytes, frame, h⟩] }

def queueLocalSend (dest : Mac) (payload : Bytes) : TickDriver e a t :=
  { d with localTxQueue := d.localTxQueue ++ [(dest, payload)] }

/-- An index past the interfaces is ignored. -/
def sendOn (d : TickDriver e a t) (idx : Nat) (dst : Mac) (protocol : U16) (payload : Bytes) :
    TickDriver e a t :=
  { d with egress :=
      d.egress.modify idx (· ++ [(LinkFrame.mk dst d.mac protocol payload).asBytes]) }

/-- Resolve the egress of a staged frame and put it on each interface. One that must carry a
trailer and cannot is dropped. -/
def dispatchOne (d : TickDriver e a t) (f : OutgoingFrame) : TickDriver e a t :=
  match d.router.planDispatch k now f.dst f.protocol f.egress f.payload
    (f.payload.length + maxTrailerLen) d.egress.length with
  | (router, none) => { d with router := router }
  | (router, some plan) =>
    plan.targets.iter.foldl (fun d idx => d.sendOn idx f.dst f.protocol plan.payload)
      { d with router := router }

def stage : MeshSink := ⟨[], [], fun _ _ => true⟩

/-- The frames that wait, each judged by the router the one before it left. -/
def drainRx (st : NodeRouter e a t × MeshSink) : NodeRouter e a t × MeshSink :=
  d.rxQueue.foldl (fun st queued => st.1.handleMeshFrame k now queued.idx queued.frame
    queued.metrics maxLinkFrameLen d.fanOut st.2) st

/-- What one step plans. The first three schedules are loops; `none` where one of them does
not end within `fuel` turns. -/
def plan (ogms keepalives : Bool) (fuel : Nat) : Option (NodeRouter e a t × MeshSink) := do
  let st := d.drainRx k now (d.router.setAuthTime now (d.wall now), stage)
  let st := d.localTxQueue.foldl (planLocalSend now) st
  let st ← (if ogms then NodeRouter.pollDueOgms k now maxLinkFrameLen fuel st else some st)
  let st ← (if keepalives then NodeRouter.pollDueKeepalives k now maxLinkFrameLen fuel st
    else some st)
  let st ← NodeRouter.pollDueChallenges k now maxLinkFrameLen fuel st
  some (NodeRouter.pollDueRenewal k now maxLinkFrameLen
    (NodeRouter.pollDuePings now maxLinkFrameLen st))

def tickSchedules (ogms keepalives : Bool) (fuel : Nat) : Option (TickDriver e a t) :=
  (d.plan k now ogms keepalives fuel).map fun (router, planned) =>
    let d := planned.sent.foldl (dispatchOne k now)
      { d with router := router, rxQueue := [], localTxQueue := [] }
    { d with localRx := d.localRx ++ planned.delivered }

def tick (fuel : Nat) : Option (TickDriver e a t) := d.tickSchedules k now true true fuel

def serveMeshRenewals (issue : VerifiedRenewal → Option MembershipCert) : TickDriver e a t :=
  match d.router.takeRenewalRequest with
  | (router, none) => { d with router := router }
  | (router, some verified) =>
    let d := { d with router := router }
    match issue verified with
    | none => d
    | some cert =>
      match d.router.sendRenewReply now verified.mac cert maxLinkFrameLen with
      | none => d
      | some f => d.dispatchOne k now ⟨f.dst, f.protocol, f.payload, .auto⟩

def pollEgress (idx : Nat) : TickDriver e a t × Option Bytes :=
  match d.egress[idx]? with
  | some (wire :: rest) => ({ d with egress := d.egress.set idx rest }, some wire)
  | _ => (d, none)

def pollLocal : TickDriver e a t × Option Bytes :=
  match d.localRx with
  | inner :: rest => ({ d with localRx := rest }, some inner)
  | [] => (d, none)

end TickDriver

/-! ### Runs -/

inductive TickOp where
  | setFanOut (idx : Nat) (fanOut : Option FanOut)
  | setEpochUnix (epochUnix : Nat)
  | pushRx (idx : Nat) (metrics : LinkMetrics) (bytes : Bytes)
  | queueLocalSend (dest : Mac) (payload : Bytes)
  | tickSchedules (now : Duration) (ogms keepalives : Bool)
  | serveMeshRenewals (now : Duration) (issue : VerifiedRenewal → Option MembershipCert)
  | pollEgress (idx : Nat)
  | pollLocal

namespace TickDriver

variable {e : Capacities} {a : AuthCapacities} {t : TableCapacities}

def perform (k : Crypto) (fuel : Nat) (d : TickDriver e a t) :
    TickOp → Option (TickDriver e a t × Option Bytes)
  | .setFanOut idx fanOut => some (d.setFanOut idx fanOut, none)
  | .setEpochUnix epochUnix => some ({ d with epochUnix := epochUnix }, none)
  | .pushRx idx metrics bytes => some ((d.pushRx idx metrics bytes).getD d, none)
  | .queueLocalSend dest payload => some (d.queueLocalSend dest payload, none)
  | .tickSchedules now ogms keepalives =>
    (d.tickSchedules k now ogms keepalives fuel).map fun d => (d, none)
  | .serveMeshRenewals now issue => some (d.serveMeshRenewals k now issue, none)
  | .pollEgress idx => some (d.pollEgress idx)
  | .pollLocal => some d.pollLocal

end TickDriver

end Wayfinder

import Wayfinder.Auth.Control
import Wayfinder.EngineRx

/-!
# The router

One node: its routing engine, and the auth state it holds as a member. The engine knows
nothing of keys and the auth state nothing of routes; what ties them together, the
gates on what is received, the proofs credited, the sweep of proofs whose keys are gone
and the node's own revocation, is here.

The tables of link measurements and of interface bindings are left out: the measured
quality of the link a frame came in on is an input.
-/

namespace Wayfinder

set_option autoImplicit false

open Table

structure LinkFeatures where
  rxOgm : Bool
  txData : Bool
  rxData : Bool
  deriving DecidableEq, Repr

def LinkFeatures.default : LinkFeatures := ⟨true, true, true⟩

structure RxOutcome where
  forward : Option LinkFrameData
  deliverLocal : Option Bytes
  pinEgressIface : Option Nat
  deriving DecidableEq, Repr

def RxOutcome.empty : RxOutcome := ⟨none, none, none⟩

def RxOutcome.ofForward (forward : Option LinkFrameData) : RxOutcome := ⟨forward, none, none⟩

def maxPingPayload : Nat := 64

structure CentralRouter (e : Capacities) (a : AuthCapacities) where
  batman : BatmanEngine e
  auth : Option (OgmAuth a)
  sweptKeyGeneration : U32
  requireAuth : Bool
  selfRevocation : Option RevocationRecord
  pendingSelfRevocation : Option RevocationRecord
  lazyCertDistribution : Bool
  linkFeatures : List LinkFeatures

namespace CentralRouter

variable {e : Capacities} {a : AuthCapacities}

def withCapacities (e : Capacities) (a : AuthCapacities) (selfIdent : Mac) : CentralRouter e a where
  batman := .new e selfIdent
  auth := none
  sweptKeyGeneration := 0
  requireAuth := false
  selfRevocation := none
  pendingSelfRevocation := none
  lazyCertDistribution := false
  linkFeatures := List.replicate e.maxInterfaces .default

def setLinkFeatures (r : CentralRouter e a) (idx : Nat) (features : LinkFeatures) :
    CentralRouter e a :=
  { r with linkFeatures := r.linkFeatures.set idx features }

def featuresOf (r : CentralRouter e a) (idx : Nat) : LinkFeatures :=
  r.linkFeatures.getD idx .default

/-! ### Membership -/

/-- Whether the revocation this node is latched under cancels the certificate. -/
def selfRevocationCancels (r : CentralRouter e a) (cert : MembershipCert) : Bool :=
  r.selfRevocation.any fun record =>
    record.cancelsCertFor cert.nodeMac cert.notBefore.get record.notBefore.get

def setAuth (r : CentralRouter e a) (auth : OgmAuth a) : CentralRouter e a :=
  { r with
    selfRevocation := if r.selfRevocationCancels auth.cert then r.selfRevocation else none
    auth := some auth
    batman := (r.batman.setRequireProof true).reset }

def selfRevoked (r : CentralRouter e a) : Bool := r.selfRevocation.isSome

def authLocked (r : CentralRouter e a) : Bool :=
  r.selfRevoked || (r.requireAuth && r.auth.isNone)

def takeSelfRevocation (r : CentralRouter e a) : CentralRouter e a × Option RevocationRecord :=
  ({ r with pendingSelfRevocation := none }, r.pendingSelfRevocation)

/-- The boot path: a record persisted before a restart. -/
def noteSelfRevoked (r : CentralRouter e a) (record : RevocationRecord) : CentralRouter e a :=
  { r with selfRevocation := some record, auth := none }

/-- Act on a latched revocation of this node that is now in force: the auth state and
all that was learned under it go. -/
def applySelfRevocation (r : CentralRouter e a) : CentralRouter e a × Bool :=
  match r.auth with
  | none => (r, false)
  | some auth =>
    match auth.takeSelfRevoked with
    | (auth, none) => ({ r with auth := some auth }, false)
    | (_, some record) =>
      ({ r with
        auth := none
        selfRevocation := some record
        pendingSelfRevocation := some record
        batman := r.batman.reset }, true)

/-- A revocation newly recorded is flooded at once, and its subject dropped from the
routes. -/
def actOnTrickleHint (r : CentralRouter e a) (now : Duration) : CentralRouter e a :=
  match r.auth with
  | none => r
  | some auth =>
    match auth.takeTrickleResetHint with
    | (auth, false) => { r with auth := some auth }
    | (auth, true) =>
      { r with
        auth := some auth
        batman := ((r.batman.resetOgmTimers now).revokeOriginators auth.macsToPurge).purgeStale
          now }

def ingestRevocation (k : Crypto) (r : CentralRouter e a) (record : RevocationRecord)
    (now : Duration) : CentralRouter e a × Bool :=
  match r.auth with
  | none => (r, false)
  | some auth =>
    let (auth, newly) := auth.ingestRevocation k record
    match { r with auth := some auth }.applySelfRevocation with
    | (r, true) => (r, false)
    | (r, false) => (r.actOnTrickleHint now, newly)

/-- The clocks move, and proofs whose keys are gone are swept if any key has gone since
the last sweep. -/
def setAuthTime (r : CentralRouter e a) (now : Duration) (wall : Clocked) : CentralRouter e a :=
  match r.auth with
  | none => r
  | some auth =>
    let auth := auth.setTime now wall
    let r := { r with auth := some auth }
    if auth.keyGeneration = r.sweptKeyGeneration then r
    else
      { r with
        batman := r.batman.retainProven now fun mac => (auth.liveNeighbor mac).isSome
        sweptKeyGeneration := auth.keyGeneration }

/-! ### Receiving -/

/-- The sub-type of a frame, for every gate and demux. -/
def packetTypeOf (frame : LinkFrame) : Option BatmanPacketType :=
  if frame.protocol = ethPBatman then frame.payload.head? >>= BatmanPacketType.fromU8 else none

def innerOffset (payload : Bytes) : Nat :=
  match payload.head? >>= BatmanPacketType.fromU8 with
  | some .unicast => BatmanUnicastPacket.size
  | some .mcast =>
    match McastPacketView.parse payload with
    | some view => payload.length - view.inner.length
    | none => payload.length
  | some .bcast => BatmanBroadcastPacket.size
  | some .certReq | some .certReply | some .renewReq | some .renewReply =>
    BatmanUnicastPacket.size
  | some .echoRequest | some .echoReply => BatmanEchoPacket.size
  | some .nextHopChallenge | some .nextHopResponse => 2
  | _ => 0

def innerBody (payload : Bytes) : Bytes := payload.drop (innerOffset payload)

/-- What goes up to the host: nothing when the header runs past the end. -/
def innerPayload (payload : Bytes) : Option Bytes :=
  if innerOffset payload ≤ payload.length then some (innerBody payload) else none

/-- The sub-types a shunned sender is still heard with: those its new certificate
could arrive by. -/
def readmits : Option BatmanPacketType → Bool
  | some .ogm | some .certReq | some .certReply => true
  | _ => false

/-- The sub-types every node that hears them acts on, whatever their link address. -/
def heardByAll : Option BatmanPacketType → Bool
  | none | some .ogm | some .keepalive | some .bcast => true
  | _ => false

/-- The traffic classes a link may be configured not to accept. -/
def linkAccepts (features : LinkFeatures) : Option BatmanPacketType → Bool
  | some .ogm => features.rxOgm
  | some .bcast | some .unicast | some .mcast | some .echoRequest | some .echoReply =>
    features.rxData
  | _ => true

/-- The gates before anything of the frame is looked into. -/
def admitsFrame (r : CentralRouter e a) (ifaceIdx : Nat) (frame : LinkFrame) : Bool :=
  let packetType := packetTypeOf frame
  let shunned := r.auth.any fun auth => auth.isShunned frame.src
  !r.authLocked && !(shunned && !readmits packetType) && decide (frame.protocol = ethPBatman) &&
    (heardByAll packetType || frame.dst.isMulticast || decide (frame.dst = r.batman.selfIdent)) &&
    linkAccepts (r.featuresOf ifaceIdx) packetType

/-- The verdict of the auth state on a frame it judges before the engine sees it: go on
with the frame, or be done with it. -/
def judgeFrame (k : Crypto) (r : CentralRouter e a) (now : Duration) (ifaceIdx : Nat)
    (frame : LinkFrame) (txLen : Nat) : CentralRouter e a × Option RxOutcome :=
  match packetTypeOf frame, r.auth with
  | some .ogm, some auth =>
    match auth.verifyOgm k frame.payload with
    | (auth, .verified) => ({ r with auth := some auth }, none)
    | (auth, .rejected) => ({ r with auth := some auth }, some .empty)
    | (auth, .needCert orig fp) =>
      let (auth, request) := auth.buildCertReqFrame k orig fp frame.src txLen
      ({ r with auth := some auth }, some (.ofForward request))
  | some .keepalive, some auth =>
    match auth.verifyKeepalive k frame.src frame.payload with
    | (auth, true) => ({ r with auth := some auth }, none)
    | (auth, false) => ({ r with auth := some auth }, some .empty)
  | some .nextHopChallenge, auth =>
    if frame.dst ≠ r.batman.selfIdent then (r, some .empty)
    else
      (r, some ⟨auth.bind fun auth => auth.answerChallengeFrame k frame.src
        (innerBody frame.payload) txLen, none, some ifaceIdx⟩)
  | some .nextHopResponse, none => (r, some .empty)
  | some .nextHopResponse, some auth =>
    if frame.dst ≠ r.batman.selfIdent then (r, some .empty)
    else
      match auth.verifyChallengeResponse k frame.src (innerBody frame.payload) with
      | (auth, true) =>
        ({ r with
          auth := some auth
          batman := r.batman.noteProven now frame.src ifaceIdx }, some .empty)
      | (auth, false) => ({ r with auth := some auth }, some .empty)
  | _, _ => (r, none)

/-- No route at all may be a device behind the bridge; a route without a proof is not. -/
def resolveNextHop (r : CentralRouter e a) (now : Duration) (dest : Mac) : Option Mac :=
  match r.batman.nextHop now dest with
  | some hop => some hop
  | none => if r.batman.originatorTable.contains dest then none else some dest

def answerEcho (r : CentralRouter e a) (now : Duration) (payload : Bytes) (replyLen : Nat) :
    Option LinkFrameData :=
  match BatmanEchoPacket.readFromPrefix payload with
  | none => none
  | some (req, pad) =>
    let pad := pad.take maxPingPayload
    match r.resolveNextHop now req.orig with
    | none => none
    | some next =>
      if replyLen < BatmanEchoPacket.size + pad.length then none
      else
        let rsp : BatmanEchoPacket :=
          { req with
            packetType := BatmanPacketType.echoReply.asU8
            version := batmanVersion
            ttl := 50
            dest := req.orig
            orig := r.batman.selfIdent
            reqHops := req.hops
            hops := 0 }
        some ⟨next, ethPBatman, rsp.asBytes ++ pad⟩

/-- A packet for this node itself: the control plane's end in its auth state, a probe
is answered, anything else goes up to the host. -/
def deliver (k : Crypto) (r : CentralRouter e a) (now : Duration) (frame : LinkFrame)
    (replyLen : Nat) : CentralRouter e a × RxOutcome :=
  let body := innerBody frame.payload
  match packetTypeOf frame, r.auth with
  | some .renewReply, some auth =>
    ({ r with auth := some (auth.ingestRenewReply k body).1 }, .empty)
  | some .renewReq, some auth => ({ r with auth := some (auth.handleRenewReq k body) }, .empty)
  | some .certReply, some auth =>
    ({ r with auth := some (auth.ingestCertReply k body).1 }, .empty)
  | some .certReq, some auth =>
    let (auth, reply) := auth.answerCertRequest k r.batman now body replyLen
    ({ r with auth := some auth }, .ofForward reply)
  | some .renewReply, none | some .renewReq, none | some .certReply, none
  | some .certReq, none | some .echoReply, _ => (r, .empty)
  | some .echoRequest, _ => (r, .ofForward (r.answerEcho now frame.payload replyLen))
  | _, _ => (r, ⟨none, innerPayload frame.payload, none⟩)

/-- An OGM that needed no re-flood leaves room for a reply parked for its originator. -/
def flushParked (r : CentralRouter e a) (now : Duration) (frame : LinkFrame) (replyLen : Nat) :
    CentralRouter e a × Option LinkFrameData :=
  match packetTypeOf frame, BatmanOgmPacket.readFromPrefix frame.payload, r.auth with
  | some .ogm, some (ogm, _), some auth =>
    let (auth, reply) := auth.flushPendingCertReply r.batman now ogm.orig replyLen
    ({ r with auth := some auth }, reply)
  | _, _, _ => (r, none)

/-- What the engine makes of a frame, and what follows from it. -/
def routeFrame (k : Crypto) (r : CentralRouter e a) (now : Duration) (ifaceIdx : Nat)
    (frame : LinkFrame) (localQuality : Option U8) (txLen : Nat) (out : FrameSink) :
    CentralRouter e a × RxOutcome × FrameSink :=
  let rx := r.batman.handleRx now frame localQuality txLen out
  let r := { r with batman := rx.engine }
  match rx.action with
  | .consumed =>
    match rx.reply with
    | some reply =>
      -- A route this node cannot send data toward is not advertised.
      if packetTypeOf frame = some .ogm && !(r.featuresOf ifaceIdx).txData then
        (r, .empty, rx.out)
      else (r, .ofForward (some reply), rx.out)
    | none =>
      let (r, reply) := r.flushParked now frame txLen
      (r, .ofForward reply, rx.out)
  | .forwardTo next =>
    (r, .ofForward (some ⟨next, ethPBatman, frame.payload.take txLen⟩), rx.out)
  | .deliverLocal =>
    let (r, outcome) := r.deliver k now frame txLen
    (r, outcome, rx.out)
  | .deliverLocalAndForward _ => (r, ⟨rx.reply, innerPayload frame.payload, none⟩, rx.out)

def handleFrame (k : Crypto) (r : CentralRouter e a) (now : Duration) (ifaceIdx : Nat)
    (frame : LinkFrame) (localQuality : Option U8) (txLen : Nat) (out : FrameSink) :
    CentralRouter e a × RxOutcome × FrameSink :=
  if !r.admitsFrame ifaceIdx frame then (r, .empty, out)
  else
    match r.judgeFrame k now ifaceIdx frame txLen with
    | (r, some outcome) => (r, outcome, out)
    | (r, none) =>
      -- A revocation of this node that the OGM carried ends the frame here.
      match r.applySelfRevocation with
      | (r, true) => (r, .empty, out)
      | (r, false) =>
        (r.actOnTrickleHint now).routeFrame k now ifaceIdx frame localQuality txLen out

/-! ### Sending -/

def poll (k : Crypto) (r : CentralRouter e a) (now : Duration) (txLen : Nat) :
    CentralRouter e a × Option LinkFrameData :=
  let r := r.applySelfRevocation.1
  if r.authLocked then (r, none)
  else
    let (batman, base) := r.batman.producePeriodicBroadcast now
    let r := { r with batman := batman }
    match r.auth with
    | none => (r, some ⟨Mac.broadcast, ethPBatman, base⟩)
    | some auth =>
      let (auth, signed) := auth.augmentOgmWithCertRecord k base txLen r.lazyCertDistribution
      ({ r with auth := some auth }, signed.map fun payload => ⟨Mac.broadcast, ethPBatman, payload⟩)

def pollKeepalive (k : Crypto) (r : CentralRouter e a) (txLen : Nat) :
    CentralRouter e a × Option LinkFrameData :=
  let header : Bytes := [BatmanPacketType.keepalive.asU8, batmanVersion]
  if r.authLocked then (r, none)
  else if txLen < header.length then (r, none)
  else
    match r.auth with
    | none => (r, some ⟨Mac.broadcast, ethPBatman, header⟩)
    | some auth =>
      let (auth, trailer) := auth.augmentKeepalive k header.length txLen
      ({ r with auth := some auth },
        trailer.map fun trailer => ⟨Mac.broadcast, ethPBatman, header ++ trailer⟩)

/-- The candidate counts as challenged whether or not a frame comes of it. -/
def pollChallenge (k : Crypto) (r : CentralRouter e a) (now : Duration) (txLen : Nat) :
    CentralRouter e a × Option (Mac × LinkFrameData) :=
  if r.authLocked then (r, none)
  else
    match r.batman.challengeCandidate now with
    | none => (r, none)
    | some target =>
      let r := { r with batman := r.batman.noteChallenged now target }
      match r.auth with
      | none => (r, none)
      | some auth =>
        let (auth, frame) := auth.buildChallengeFrame k target txLen
        ({ r with auth := some auth }, frame.map fun frame => (target, frame))

end CentralRouter

end Wayfinder

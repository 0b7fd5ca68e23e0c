import Wayfinder.Authority.Issue
import Wayfinder.Lib.Run
import Wayfinder.Server.Authz

/-!
# A management connection

A peer whose key the handshake has proved presents its certificate and is judged by what the
router holds then; the verdict stands for a minute, after which the next request has it
reached again, and a changed one ends the connection. What a request may do is done by the
owners of the node's parts, each on a task of its own.
-/

namespace Wayfinder.Transport

set_option autoImplicit false

/-! ### Messages -/

structure WayfinderRequest where
  request : Option ReqKind

structure VpnPeerStatus where
  nodeMac : Bytes
  rawHostname : String
  tailscaleIp : String
  online : Bool
  lastSeenUnix : Int
  keyExpiryUnix : Int

inductive RespKind where
  | empty
  | error (message : String)
  | vpnEnrollment (vpnLoginServer vpnPreauthKey : String)
  | listVpnPeers (peers : List VpnPeerStatus)
  | other (message : Bytes)

structure WayfinderResponse where
  response : Option RespKind

def errorResponse (message : String) : WayfinderResponse := ⟨some (.error message)⟩

/-! ### The owners -/

/-- What comes back from a task that was sent a message: its channel is closed, the reply is
dropped, or it answers. -/
inductive Reply (α : Type) where
  | closed
  | dropped
  | answered (a : α)

structure VpnEnrollment where
  loginServer : String
  preauthKey : String

structure VpnPeer where
  mac : Option Mac
  hostname : String
  address : String
  online : Bool
  lastSeenUnix : Int
  keyExpiryUnix : Int

/-- How the owners answer: the loop with the router, the readers of the shared router, which
may decline, the authority, whose queue may be full, and the coordination server, whose errors
are their texts. -/
structure Owners where
  router : WayfinderRequest → Reply WayfinderResponse
  serveRead : WayfinderRequest → Option WayfinderResponse
  authority : WayfinderRequest → Option (Reply WayfinderResponse)
  policy : EnrollmentPolicyData → Option (Reply (Except String Unit))
  enroll : Mac → Except String VpnEnrollment
  peers : Except String (List VpnPeer)
  revoke : Mac → Except String Unit

/-- What is done on the way to an answer. -/
inductive Act where
  | recorded (kind : String) (audited : Audited)
  | readRouter (request : WayfinderRequest)
  | toRouter (request : WayfinderRequest)
  | toAuthority (request : WayfinderRequest)
  | toPolicy (policy : EnrollmentPolicyData)
  | mint (mac : Mac)
  | listPeers
  | unregister (mac : Mac)

/-- What was done and the answer, without which the connection ends. -/
structure Service where
  acts : List Act
  response : Option WayfinderResponse

namespace Service

def refuse (message : String) : Service := ⟨[], some (errorResponse message)⟩

def answer (response : RespKind) : Service := ⟨[], some ⟨some response⟩⟩

def after (acts : List Act) (s : Service) : Service := { s with acts := acts ++ s.acts }

def andThen (s : Service) (f : WayfinderResponse → Service) : Service :=
  s.response.elim s fun response => (f response).after s.acts

end Service

/-- What a listener was given: an authority, a coordination server, a shared router. -/
structure ServeContext where
  authority : Bool
  vpn : Bool
  router : Bool

/-! ### The owner of a request -/

def auditRequest (request : WayfinderRequest) : List Act :=
  request.request.elim [] fun kind =>
    match kind.rpc.audit with
    | .mutation | .disclosure => [.recorded kind.name kind.rpc.audit]
    | .query => []

def busy : String := "the certificate authority is busy; retry shortly"

def authorityDiedReason : String :=
  "this node's certificate authority is not running; it cannot serve enrollment, logins or " ++
    "revocation until the node is restarted"

def notAProvider : String := "node is not a certificate-authority provider"

def partialSetConfig (detail : String) : WayfinderResponse :=
  errorResponse ("the node settings in this request were applied and saved; the enrollment " ++
    "policy was not: " ++ detail)

def enrollmentPolicyData (policy : EnrollmentPolicyMessage) : Except String EnrollmentPolicyData :=
  if policy.certTtlSecs = some 0 then
    .error ("cert_ttl_secs must be greater than zero: a zero-second certificate lifetime " ++
      "issues certificates that are already expired")
  else match policy.enrollmentTokenUpdate with
    | none => .ok ⟨policy.autoApprove, policy.certTtlSecs, none⟩
    | some (.enrollmentTokenCleared true) =>
      .ok ⟨policy.autoApprove, policy.certTtlSecs, some .clear⟩
    | some (.enrollmentTokenCleared false) =>
      .error ("enrollment_token_cleared must be true to clear the token; omit the field " ++
        "entirely to leave it unchanged")
    | some (.enrollmentToken token) =>
      if token = "" then
        .error ("enrollment_token must not be empty: an empty token can never be presented by " ++
          "an enrolling node. Set enrollment_token_cleared to open enrollment instead")
      else .ok ⟨policy.autoApprove, policy.certTtlSecs, some (.set token)⟩

def forwardToRouter (owners : Owners) (request : WayfinderRequest) : Service :=
  match owners.router request with
  | .closed => ⟨[], none⟩
  | .dropped => ⟨[.toRouter request], none⟩
  | .answered response => ⟨[.toRouter request], some response⟩

def forwardToAuthority (owners : Owners) (request : WayfinderRequest) : Service :=
  match owners.authority request with
  | none => .refuse busy
  | some .closed => .refuse authorityDiedReason
  | some .dropped => (Service.refuse authorityDiedReason).after [.toAuthority request]
  | some (.answered response) => ⟨[.toAuthority request], some response⟩

def setEnrollmentPolicy (ctx : ServeContext) (owners : Owners) (enrollment : EnrollmentPolicyData) :
    Service :=
  if !ctx.authority then ⟨[], some (partialSetConfig notAProvider)⟩
  else match owners.policy enrollment with
    | none => ⟨[], some (partialSetConfig busy)⟩
    | some .closed => ⟨[], some (partialSetConfig authorityDiedReason)⟩
    | some .dropped => ⟨[.toPolicy enrollment], some (partialSetConfig authorityDiedReason)⟩
    | some (.answered (.ok ())) => ⟨[.toPolicy enrollment], some ⟨some .empty⟩⟩
    | some (.answered (.error message)) => ⟨[.toPolicy enrollment], some (partialSetConfig message)⟩

/-- The router half of a `SetConfig`: without the enrollment field, which is not its own. -/
def routerHalf (config : Option RuntimeConfig) : WayfinderRequest :=
  ⟨some (.setConfig (config.map fun c => { c with enrollment := none }))⟩

def applyEnrollment (ctx : ServeContext) (owners : Owners)
    (enrollment : Option EnrollmentPolicyData) (response : WayfinderResponse) : Service :=
  match enrollment, response.response with
  | some enrollment, some .empty => setEnrollmentPolicy ctx owners enrollment
  | _, _ => ⟨[], some response⟩

def serveSetConfig (ctx : ServeContext) (owners : Owners) (config : Option RuntimeConfig) :
    Service :=
  match (config.bind RuntimeConfig.enrollment).mapM enrollmentPolicyData with
  | .error message => .refuse message
  | .ok enrollment =>
    (forwardToRouter owners (routerHalf config)).andThen (applyEnrollment ctx owners enrollment)

def serveRead (ctx : ServeContext) (owners : Owners) (request : WayfinderRequest) : Service :=
  if ctx.router then
    (owners.serveRead request).elim (forwardToRouter owners request) fun response =>
      ⟨[.readRouter request], some response⟩
  else forwardToRouter owners request

/-- The owner of the request's kind has it. -/
def serveOwner (ctx : ServeContext) (owners : Owners) (request : WayfinderRequest) : Service :=
  match request.request with
  | none => forwardToRouter owners request
  | some (.setConfig config) => serveSetConfig ctx owners config
  | some kind =>
    match kind.rpc.owner with
    | .authority =>
      if ctx.authority then forwardToAuthority owners request else .refuse notAProvider
    | .routerRead => serveRead ctx owners request
    | .routerWrite | .transport => forwardToRouter owners request

def serveByFacet (ctx : ServeContext) (owners : Owners) (request : WayfinderRequest) : Service :=
  (serveOwner ctx owners request).after (auditRequest request)

/-! ### The VPN -/

/-- Where the address of a credential comes from: never from the request. -/
def credentialMac (decision : MgmtAccess) (cert : Option MembershipCert) (ownMac : Mac) :
    Option Mac :=
  match decision with
  | .grantedMember => cert.map MembershipCert.nodeMac
  | .grantedSelfKey => some ownMac
  | _ => none

def vpnNotConfigured : String := "this provider has no VPN coordination configured"

def noDevice : String :=
  "a VPN credential is issued only to a device: an enrolled node presenting its own " ++
    "certificate, or a node connecting to itself with its own key"

def VpnPeer.status (p : VpnPeer) : VpnPeerStatus :=
  ⟨p.mac.elim [] Mac.asBytes, p.hostname, p.address, p.online, p.lastSeenUnix, p.keyExpiryUnix⟩

def vpnEnroll (decision : MgmtAccess) (cert : Option MembershipCert) (ownMac : Mac)
    (owners : Owners) : Service :=
  match credentialMac decision cert ownMac with
  | none => .refuse noDevice
  | some mac =>
    Service.after [.mint mac] <|
      match owners.enroll mac with
      | .ok enrollment => .answer (.vpnEnrollment enrollment.loginServer enrollment.preauthKey)
      | .error text => .refuse text

def vpnListPeers (owners : Owners) : Service :=
  Service.after [.listPeers] <|
    match owners.peers with
    | .ok peers => .answer (.listVpnPeers (peers.map VpnPeer.status))
    | .error text => .refuse text

def vpnRevoke (owners : Owners) (nodeMac : Bytes) : Service :=
  match Mac.tryFrom nodeMac with
  | none => .refuse "node_mac must be exactly 6 bytes"
  | some mac =>
    Service.after [.unregister mac] <|
      match owners.revoke mac with
      | .ok () => .answer .empty
      | .error text => .refuse text

def serveVpnRequest (ctx : ServeContext) (decision : MgmtAccess) (cert : Option MembershipCert)
    (ownMac : Mac) (owners : Owners) : ReqKind → Option Service
  | .getVpnEnrollment =>
    some (if ctx.vpn then vpnEnroll decision cert ownMac owners else .refuse vpnNotConfigured)
  | .listVpnPeers => some (if ctx.vpn then vpnListPeers owners else .refuse vpnNotConfigured)
  | .revokeVpnPeer nodeMac =>
    some (if ctx.vpn then vpnRevoke owners nodeMac else .refuse vpnNotConfigured)
  | _ => none

/-- An address as the debug format prints it. -/
def macDebug (mac : Mac) : String :=
  ":".intercalate (mac.asBytes.map fun b =>
    String.ofList [Nat.digitChar (b.toNat / 16), Nat.digitChar (b.toNat % 16)])

def halfCompletedRevokeMessage (mac : Mac) : String :=
  "mesh membership for " ++ macDebug mac ++ " was revoked, but removing its VPN registration " ++
    "failed; the node can no longer route but can still reach the tunnel. Retry with " ++
    "`wayfinderctl vpn revoke`."

def revokeVpnAlongsideMesh (ctx : ServeContext) (owners : Owners) (nodeMac : Bytes)
    (meshResponse : WayfinderResponse) : Service :=
  match Mac.tryFrom nodeMac with
  | none => ⟨[], some meshResponse⟩
  | some mac =>
    if !ctx.vpn then ⟨[], some meshResponse⟩
    else Service.after [.unregister mac] <|
      match owners.revoke mac with
      | .ok () => ⟨[], some meshResponse⟩
      | .error _ => .refuse (halfCompletedRevokeMessage mac)

/-- The second half of a revocation, once the first has succeeded. -/
def afterMesh (ctx : ServeContext) (owners : Owners) (request : WayfinderRequest)
    (response : WayfinderResponse) : Service :=
  match request.request, response.response with
  | some (.revokeNode nodeMac), some .empty => revokeVpnAlongsideMesh ctx owners nodeMac response
  | _, _ => ⟨[], some response⟩

/-! ### A connection -/

def revalidateAfter : Duration := Duration.ofSecs 60

/-- What the node is and does while one frame of one peer is looked at: the time of it, the
router's loop and its identity seed when the gate asks, unless it is gone, the host's clock,
unless it cannot be read, the time when a new verdict is stamped, what the buckets of the
peer's source allow, the owners, and whether the peer takes what is written to it. -/
structure Moment (e : Capacities) (a : AuthCapacities) where
  now : Duration
  host : Option (CentralRouter e a × Option (Octets 32))
  clock : Option Nat
  decided : Duration
  allow : RateLimit → Bool
  owners : Owners
  writable : Bool
  forward : now ≤ decided

/-- What a connection is served under: the verdict, its stamp, and what it was reached from. -/
structure Grant where
  decision : MgmtAccess
  decidedAt : Duration
  context : AuthContext

structure Peer where
  key : Octets 32
  cert : Option MembershipCert
  deriving DecidableEq

inductive Phase where
  | handshaking
  | greeting (key : Octets 32)
  | serving (peer : Peer) (grant : Grant)
  | closed

/-- What the peer's side of the stream comes to next. -/
inductive Incoming where
  | eof
  | broken
  | undecodable
  | request (request : WayfinderRequest)

/-- A request that was looked at, and what was done for it. -/
structure Served (e : Capacities) (a : AuthCapacities) where
  peer : Peer
  grant : Grant
  moment : Moment e a
  request : WayfinderRequest
  acts : List Act

/-- A connection with its claim on a slot of those who have proved nothing. -/
structure Connection (e : Capacities) (a : AuthCapacities) where
  phase : Phase
  slot : Bool
  served : List (Served e a)
  replies : List WayfinderResponse

section Connection
variable {e : Capacities} {a : AuthCapacities} (k : Crypto) (ctx : ServeContext)

def Moment.context (m : Moment e a) : Option AuthContext := do
  let (router, identitySeed) ← m.host
  let nowUnix ← m.clock
  some { buildAuthSnapshot k router identitySeed with nowUnix }

def notPermitted : MgmtAccess → ReqKind → String
  | _, .getVpnEnrollment =>
    "a VPN credential is issued only to a device: an enrolled node presenting its own " ++
      "certificate, or a node connecting to itself with its own key. An operator's session " ++
      "certificate is a person, not a device, so there is no identity to issue one for"
  | .grantedMember, _ =>
    "this connection is an enrolled device (its certificate carries the member capability, not " ++
      "a management one); it may fetch its own VPN credential and nothing else"
  | .grantedViewer, .getLogs _ =>
    "the node's log ring is served to an admin certificate or the node's own key. It carries " ++
      "whatever the process logged rather than a chosen set of fields, which on a certificate " ++
      "authority includes the account records that name who may administer this mesh"
  | .grantedViewer, _ =>
    "this connection is read-only (its certificate carries the viewer capability, not the " ++
      "admin one); mutations and the enrollment token need an admin certificate or the node's " ++
      "own key"
  | _, _ =>
    "this connection is limited to enrollment (no admin certificate was verified on it); " ++
      "everything else needs an admin certificate or the node's own key"

/-- A limit on what a stranger spends, and on nobody else. -/
def overLimit (decision : MgmtAccess) (allow : RateLimit → Bool) (kind : ReqKind) :
    Option String :=
  if decision = .grantedEnrollment then
    match kind.rpc.limit with
    | .unmetered => none
    | .submitCsr =>
      if allow .submitCsr then none
      else some "too many enrollment requests from this source; wait before retrying"
    | .login =>
      if allow .login then none
      else some "too many login attempts from this source; wait before retrying"
    | .registration =>
      if allow .registration then none
      else some "too many registration attempts from this source; wait before retrying"
  else none

def revokesSelf : String :=
  "this node is the certificate authority; revoking it would take the mesh's root of trust off " ++
    "the mesh and leave nobody able to enroll or re-admit anyone, including itself"

def enrollsSelf : String :=
  "this node is the certificate authority; its own address is not enrollable, and a " ++
    "certificate issued for it would let the holder sign and route as the mesh's root of trust"

/-- What the authority may not be asked about this node itself, and the answer instead. -/
def aboutSelf (ownMac : Mac) : ReqKind → Option String
  | .revokeNode nodeMac => if nodeMac = ownMac.asBytes then some revokesSelf else none
  | .submitCsr nodeMac .. | .approveCsr nodeMac _ =>
    if nodeMac = ownMac.asBytes ∧ ctx.authority then some enrollsSelf else none
  | _ => none

def serve (peer : Peer) (grant : Grant) (m : Moment e a) (request : WayfinderRequest) : Service :=
  match request.request with
  | none => .refuse "empty or unrecognised request"
  | some kind =>
    if !permits grant.decision kind then .refuse (notPermitted grant.decision kind)
    else match overLimit grant.decision m.allow kind with
    | some message => .refuse message
    | none =>
      match serveVpnRequest ctx grant.decision peer.cert grant.context.ownMac m.owners kind with
      | some service => service
      | none =>
        match aboutSelf ctx grant.context.ownMac kind with
        | some message => .refuse message
        | none => (serveByFacet ctx m.owners request).andThen (afterMesh ctx m.owners request)

namespace Connection

def accepted : Connection e a := ⟨.handshaking, true, [], []⟩

/-- The task returns, and with it goes its claim on a slot. -/
def close (c : Connection e a) : Connection e a := { c with phase := .closed, slot := false }

def isOpen (c : Connection e a) : Bool := c.phase matches .handshaking | .greeting _ | .serving ..

/-- A response that cannot be written ends the connection. -/
def reply (c : Connection e a) (m : Moment e a) (response : WayfinderResponse) : Connection e a :=
  if m.writable then { c with replies := c.replies ++ [response] } else c.close

def replyLast (c : Connection e a) (m : Moment e a) (message : String) : Connection e a :=
  (c.reply m (errorResponse message)).close

/-- Without a key the handshake has failed, or has taken too long. -/
def handshake (c : Connection e a) (key : Option (Octets 32)) : Connection e a :=
  key.elim c.close fun key => { c with phase := .greeting key }

/-- An empty certificate is none at all; another must parse. -/
def presented (bytes : Bytes) : Option (Option MembershipCert) :=
  if bytes = [] then some none
  else (MembershipCert.readFromPrefix bytes).map fun parsed => some parsed.1

def isCredentialed (decision : MgmtAccess) : Bool :=
  decision = .grantedAdmin || decision = .grantedSelfKey

/-- The peer is judged for the first time. -/
def admitPeer (c : Connection e a) (m : Moment e a) (peer : Peer) : Connection e a :=
  match m.context k with
  | none => c.close
  | some context =>
    match authorize k peer.key peer.cert context with
    | .denied _ => c.replyLast m "authentication denied"
    | decision =>
      let c : Connection e a := { c with
        phase := .serving peer ⟨decision, m.decided, context⟩
        slot := c.slot && !isCredentialed decision }
      c.reply m ⟨some .empty⟩

def greet (c : Connection e a) (m : Moment e a) (key : Octets 32) : Incoming → Connection e a
  | .eof | .broken | .undecodable => c.close
  | .request ⟨some (.authenticate cert)⟩ =>
    (presented cert).elim (c.replyLast m "malformed membership certificate") fun cert =>
      c.admitPeer k m ⟨key, cert⟩
  | .request _ =>
    c.replyLast m "first message on a management connection must be Authenticate"

/-- The grant the next request is served under, or none when the verdict has changed or
cannot be reached. -/
def revalidate (m : Moment e a) (peer : Peer) (grant : Grant) : Option (Except Unit Grant) :=
  if m.now - grant.decidedAt < revalidateAfter then some (.ok grant)
  else (m.context k).map fun context =>
    if authorize k peer.key peer.cert context = grant.decision then
      .ok ⟨grant.decision, m.decided, context⟩
    else .error ()

def serveOne (c : Connection e a) (m : Moment e a) (peer : Peer) (grant : Grant) :
    Incoming → Connection e a
  | .eof | .broken | .undecodable => c.close
  | .request request =>
    let service := serve ctx peer grant m request
    let c := { c with
      phase := .serving peer grant
      served := c.served ++ [Served.mk peer grant m request service.acts] }
    service.response.elim c.close (c.reply m)

/-- The end of the stream ends the loop before anything is decided anew. -/
def nextFrame (c : Connection e a) (m : Moment e a) (peer : Peer) (grant : Grant)
    (incoming : Incoming) : Connection e a :=
  match incoming with
  | .eof => c.close
  | incoming =>
    match revalidate k m peer grant with
    | none => c.close
    | some (.error ()) => c.replyLast m "authentication denied"
    | some (.ok grant) => c.serveOne ctx m peer grant incoming

def receive (c : Connection e a) (m : Moment e a) (incoming : Incoming) : Connection e a :=
  match c.phase with
  | .handshaking | .closed => c
  | .greeting key => c.greet k m key incoming
  | .serving peer grant => c.nextFrame k ctx m peer grant incoming

end Connection

end Connection

/-! ### A listener -/

def maxUncredentialedConnections : Nat := 64

/-- The connections a listener has accepted, and the slots left. -/
structure Listener (e : Capacities) (a : AuthCapacities) where
  connections : List (Connection e a)
  uncredentialed : Nat

inductive ListenerOp (e : Capacities) (a : AuthCapacities) where
  | accept (allowed : Bool)
  | handshake (i : Nat) (key : Option (Octets 32))
  | receive (i : Nat) (m : Moment e a) (incoming : Incoming)

namespace Listener

variable {e : Capacities} {a : AuthCapacities} (k : Crypto) (ctx : ServeContext)

def new : Listener e a := ⟨[], maxUncredentialedConnections⟩

/-- `PreAuthLimits::admit`: a token of the source's bucket, and a slot. -/
def accept (l : Listener e a) (allowed : Bool) : Listener e a :=
  if allowed ∧ 0 < l.uncredentialed then
    ⟨l.connections ++ [.accepted], l.uncredentialed - 1⟩
  else l

/-- A connection goes on by itself; a slot it gives back is there for the next. -/
def advance (l : Listener e a) (i : Nat) (f : Connection e a → Connection e a) : Listener e a :=
  l.connections[i]?.elim l fun c =>
    ⟨l.connections.set i (f c), l.uncredentialed + (if c.slot && !(f c).slot then 1 else 0)⟩

def step (l : Listener e a) : ListenerOp e a → Listener e a
  | .accept allowed => l.accept allowed
  | .handshake i key =>
    l.advance i fun c => if c.phase matches .handshaking then c.handshake key else c
  | .receive i m incoming => l.advance i fun c => c.receive k ctx m incoming

def run (l : Listener e a) (ops : List (ListenerOp e a)) : Listener e a :=
  Run.run (step k ctx) l ops

end Listener

end Wayfinder.Transport

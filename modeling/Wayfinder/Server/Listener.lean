import Wayfinder.Install
import Wayfinder.Server.Served

/-!
# What is done for whom

Whatever the owners of a node are asked to do over its management connections, in any
interleaving of these, is what a peer may have done by the standing it had less than a minute
before, and the connections of those who have proved nothing never exceed their slots.
-/

namespace Wayfinder.Transport

set_option autoImplicit false

/-! ### A run -/

section Run
variable {e : Capacities} {a : AuthCapacities} {k : Crypto} {ctx : ServeContext}
  {ops ops' : List (ListenerOp e a)} {i : Nat} {c : Connection e a} {m : Moment e a}
  {peer : Peer} {grant : Grant} {incoming : Incoming}

/-- The handshake of this connection proved the key, and it presented this certificate. -/
structure Peer.Proved (ops : List (ListenerOp e a)) (i : Nat) (peer : Peer) : Prop where
  key : .handshake i (some peer.key) ∈ ops
  cert : ∃ m bytes, .receive i m (.request ⟨some (.authenticate bytes)⟩) ∈ ops ∧
    Connection.presented bytes = some peer.cert

/-- The verdict was reached from what the router held when it was asked, and stamped then. -/
structure Grant.Read (k : Crypto) (ops : List (ListenerOp e a)) (i : Nat) (peer : Peer)
    (grant : Grant) : Prop where
  reading : ∃ m incoming, .receive i m incoming ∈ ops ∧ m.context k = some grant.context ∧
    m.decided = grant.decidedAt
  decision : grant.decision = authorize k peer.key peer.cert grant.context
  granted : ∃ tier, grant.decision.tier = some tier

/-- A request that was looked at: whose it was, what it was judged by and how long ago, and
what was done for it. -/
structure Served.Justified (k : Crypto) (ctx : ServeContext) (ops : List (ListenerOp e a))
    (i : Nat) (s : Served e a) : Prop where
  peer : s.peer.Proved ops i
  grant : s.grant.Read k ops i s.peer
  received : .receive i s.moment (.request s.request) ∈ ops
  fresh : s.moment.now - s.grant.decidedAt < revalidateAfter
  does : s.acts = [] ∨ ∃ kind, s.request = ⟨some kind⟩ ∧
    Does ctx s.peer.cert s.grant s.moment.allow s.moment.owners kind s.acts

structure Connection.Ok (k : Crypto) (ctx : ServeContext) (ops : List (ListenerOp e a)) (i : Nat)
    (c : Connection e a) : Prop where
  greeting : ∀ key, c.phase = .greeting key → .handshake i (some key) ∈ ops
  serving : ∀ peer grant, c.phase = .serving peer grant →
    peer.Proved ops i ∧ grant.Read k ops i peer
  served : ∀ s ∈ c.served, s.Justified k ctx ops i

theorem Peer.Proved.mono (hsub : ops ⊆ ops') (h : peer.Proved ops i) : peer.Proved ops' i := by
  obtain ⟨hkey, m, bytes, hmem, hcert⟩ := h
  exact ⟨hsub hkey, m, bytes, hsub hmem, hcert⟩

theorem Grant.Read.mono (hsub : ops ⊆ ops') (h : grant.Read k ops i peer) :
    grant.Read k ops' i peer := by
  obtain ⟨⟨m, incoming, hmem, hcontext, hstamp⟩, hdecision, hgranted⟩ := h
  exact ⟨⟨m, incoming, hsub hmem, hcontext, hstamp⟩, hdecision, hgranted⟩

theorem Served.Justified.mono {s : Served e a} (hsub : ops ⊆ ops')
    (h : s.Justified k ctx ops i) : s.Justified k ctx ops' i :=
  ⟨h.peer.mono hsub, h.grant.mono hsub, hsub h.received, h.fresh, h.does⟩

namespace Connection

theorem Ok.mono (hsub : ops ⊆ ops') (h : c.Ok k ctx ops i) : c.Ok k ctx ops' i where
  greeting key hphase := hsub (h.greeting key hphase)
  serving peer grant hphase := by
    obtain ⟨hpeer, hgrant⟩ := h.serving peer grant hphase
    exact ⟨hpeer.mono hsub, hgrant.mono hsub⟩
  served s hs := (h.served s hs).mono hsub

theorem Ok.accepted : (accepted : Connection e a).Ok k ctx ops i where
  greeting key hphase := by cases hphase
  serving peer grant hphase := by cases hphase
  served s hs := absurd hs List.not_mem_nil

theorem Ok.close (h : c.Ok k ctx ops i) : c.close.Ok k ctx ops i where
  greeting key hphase := by cases hphase
  serving peer grant hphase := by cases hphase
  served := h.served

theorem Ok.reply (h : c.Ok k ctx ops i) (response : WayfinderResponse) :
    (c.reply m response).Ok k ctx ops i := by
  unfold Connection.reply
  split
  · exact ⟨h.greeting, h.serving, h.served⟩
  · exact h.close

theorem Ok.replyLast (h : c.Ok k ctx ops i) (message : String) :
    (c.replyLast m message).Ok k ctx ops i :=
  (h.reply _).close

theorem Ok.handshake {key : Option (Octets 32)} (h : c.Ok k ctx ops i)
    (hop : .handshake i key ∈ ops) : (c.handshake key).Ok k ctx ops i := by
  cases key with
  | none => exact h.close
  | some key =>
    refine ⟨?_, ?_, h.served⟩
    · intro key' hphase
      obtain rfl := Phase.greeting.inj hphase
      exact hop
    · intro peer grant hphase
      cases hphase

theorem tier_of_not_denied {access : MgmtAccess} (h : ∀ reason, access ≠ .denied reason) :
    ∃ tier, access.tier = some tier := by
  cases access with
  | denied reason => exact absurd rfl (h reason)
  | grantedAdmin => exact ⟨_, rfl⟩
  | grantedViewer => exact ⟨_, rfl⟩
  | grantedMember => exact ⟨_, rfl⟩
  | grantedSelfKey => exact ⟨_, rfl⟩
  | grantedEnrollment => exact ⟨_, rfl⟩

theorem Ok.admitPeer (h : c.Ok k ctx ops i) (hpeer : peer.Proved ops i)
    (hop : .receive i m incoming ∈ ops) : (c.admitPeer k m peer).Ok k ctx ops i := by
  unfold Connection.admitPeer
  split
  · exact h.close
  rename_i context hcontext
  split
  · exact h.replyLast _
  · rename_i hgranted
    apply Ok.reply
    refine ⟨?_, ?_, h.served⟩
    · intro key hphase
      cases hphase
    · intro peer' grant' hphase
      obtain ⟨rfl, rfl⟩ := Phase.serving.inj hphase
      exact ⟨hpeer, ⟨m, incoming, hop, hcontext, rfl⟩, rfl, tier_of_not_denied hgranted⟩

theorem Ok.greet {key : Octets 32} (h : c.Ok k ctx ops i) (hphase : c.phase = .greeting key)
    (hop : .receive i m incoming ∈ ops) : (c.greet k m key incoming).Ok k ctx ops i := by
  unfold Connection.greet
  split
  · exact h.close
  · exact h.close
  · exact h.close
  · rename_i bytes
    cases hcert : presented bytes with
    | none => exact h.replyLast _
    | some cert => exact h.admitPeer ⟨h.greeting key hphase, m, bytes, hop, hcert⟩ hop
  · exact h.replyLast _

/-- A grant that is not renewed is less than a minute old, and a renewed one is stamped now. -/
theorem revalidate_ok {grant' : Grant} (h : revalidate k m peer grant = some (.ok grant'))
    (hgrant : grant.Read k ops i peer) (hop : .receive i m incoming ∈ ops) :
    grant'.Read k ops i peer ∧ m.now - grant'.decidedAt < revalidateAfter ∧
      grant'.decision = grant.decision := by
  unfold revalidate at h
  split at h
  · rename_i hyoung
    cases h
    exact ⟨hgrant, hyoung, rfl⟩
  · obtain ⟨context, hcontext, h⟩ := Option.map_eq_some_iff.mp h
    split at h
    · rename_i hsame
      cases h
      refine ⟨⟨⟨m, incoming, hop, hcontext, rfl⟩, hsame.symm, hgrant.granted⟩, ?_, rfl⟩
      rw [Nat.sub_eq_zero_of_le m.forward]
      decide
    · cases h

theorem Ok.serveOne (h : c.Ok k ctx ops i) (hpeer : peer.Proved ops i)
    (hgrant : grant.Read k ops i peer) (hfresh : m.now - grant.decidedAt < revalidateAfter)
    (hop : .receive i m incoming ∈ ops) :
    (c.serveOne ctx m peer grant incoming).Ok k ctx ops i := by
  unfold Connection.serveOne
  split
  · exact h.close
  · exact h.close
  · exact h.close
  rename_i request
  have hserved : Connection.Ok k ctx ops i { c with
      phase := .serving peer grant
      served := c.served ++
        [Served.mk peer grant m request (serve ctx peer grant m request).acts] } := by
    refine ⟨?_, ?_, ?_⟩
    · intro key hphase
      cases hphase
    · intro peer' grant' hphase
      obtain ⟨rfl, rfl⟩ := Phase.serving.inj hphase
      exact ⟨hpeer, hgrant⟩
    · intro s hs
      obtain hs | hs := List.mem_append.mp hs
      · exact h.served s hs
      · obtain rfl := List.mem_singleton.mp hs
        exact ⟨hpeer, hgrant, hop, hfresh, serve_does⟩
  dsimp only
  cases (serve ctx peer grant m request).response with
  | none => exact hserved.close
  | some response => exact hserved.reply response

theorem Ok.nextFrame (h : c.Ok k ctx ops i) (hphase : c.phase = .serving peer grant)
    (hop : .receive i m incoming ∈ ops) :
    (c.nextFrame k ctx m peer grant incoming).Ok k ctx ops i := by
  obtain ⟨hpeer, hgrant⟩ := h.serving peer grant hphase
  unfold Connection.nextFrame
  split
  · exact h.close
  split
  · exact h.close
  · exact h.replyLast _
  · rename_i grant' hgrant'
    obtain ⟨hread, hfresh, -⟩ := revalidate_ok hgrant' hgrant hop
    exact h.serveOne hpeer hread hfresh hop

theorem Ok.receive (h : c.Ok k ctx ops i) (hop : .receive i m incoming ∈ ops) :
    (c.receive k ctx m incoming).Ok k ctx ops i := by
  unfold Connection.receive
  split
  · exact h
  · exact h
  · rename_i key hphase
    exact h.greet hphase hop
  · rename_i peer grant hphase
    exact h.nextFrame hphase hop

/-- Whether the peer has yet to prove what takes a connection off the cap. -/
def isUncredentialed (c : Connection e a) : Bool :=
  match c.phase with
  | .handshaking | .greeting _ => true
  | .serving _ grant => !isCredentialed grant.decision
  | .closed => false

/-- A connection holds a slot exactly as long as it must, and takes none anew. -/
structure SlotStep (c c' : Connection e a) : Prop where
  held : c'.slot = c'.isUncredentialed
  kept : c'.slot = true → c.slot = true

theorem SlotStep.close : SlotStep c c.close where
  held := rfl
  kept h := by cases h

theorem SlotStep.reply {c' : Connection e a} (h : SlotStep c c') (response : WayfinderResponse) :
    SlotStep c (c'.reply m response) := by
  unfold Connection.reply
  split
  · exact ⟨h.held, h.kept⟩
  · exact ⟨rfl, fun hslot => by cases hslot⟩

theorem SlotStep.replyLast (message : String) : SlotStep c (c.replyLast m message) where
  held := rfl
  kept h := by cases h

theorem SlotStep.handshake {key : Option (Octets 32)} (hslot : c.slot = c.isUncredentialed)
    (hphase : c.phase = .handshaking) : SlotStep c (c.handshake key) := by
  have hheld : c.slot = true := by rw [hslot, isUncredentialed, hphase]
  cases key with
  | none => exact .close
  | some key => exact ⟨hheld, fun _ => hheld⟩

theorem SlotStep.admitPeer (hheld : c.slot = true) : SlotStep c (c.admitPeer k m peer) := by
  unfold Connection.admitPeer
  split
  · exact .close
  split
  · exact .replyLast _
  · apply SlotStep.reply
    refine ⟨?_, fun _ => hheld⟩
    dsimp only [isUncredentialed]
    rw [hheld, Bool.true_and]

theorem SlotStep.greet {key : Octets 32} (hheld : c.slot = true) :
    SlotStep c (c.greet k m key incoming) := by
  unfold Connection.greet
  split
  · exact .close
  · exact .close
  · exact .close
  · rename_i bytes
    cases presented bytes with
    | none => exact .replyLast _
    | some cert => exact .admitPeer hheld
  · exact .replyLast _

theorem SlotStep.serveOne {grant' : Grant} (hslot : c.slot = c.isUncredentialed)
    (hphase : c.phase = .serving peer grant) (hsame : grant'.decision = grant.decision) :
    SlotStep c (c.serveOne ctx m peer grant' incoming) := by
  unfold Connection.serveOne
  split
  · exact .close
  · exact .close
  · exact .close
  rename_i request
  have hheld : c.slot = !isCredentialed grant'.decision := by
    rw [hslot, isUncredentialed, hphase, hsame]
  dsimp only
  cases (serve ctx peer grant' m request).response with
  | none => exact ⟨rfl, fun h => by cases h⟩
  | some response =>
    have hserved : SlotStep c { c with
        phase := .serving peer grant'
        served := c.served ++
          [Served.mk peer grant' m request (serve ctx peer grant' m request).acts] } :=
      ⟨hheld, id⟩
    exact hserved.reply response

theorem revalidate_decision {grant' : Grant} (h : revalidate k m peer grant = some (.ok grant')) :
    grant'.decision = grant.decision := by
  unfold revalidate at h
  split at h
  · cases h
    rfl
  · obtain ⟨context, -, h⟩ := Option.map_eq_some_iff.mp h
    split at h
    · cases h
      rfl
    · cases h

theorem SlotStep.receive (hslot : c.slot = c.isUncredentialed) :
    SlotStep c (c.receive k ctx m incoming) := by
  unfold Connection.receive
  split
  · exact ⟨hslot, id⟩
  · exact ⟨hslot, id⟩
  · rename_i key hphase
    refine .greet ?_
    rw [hslot, isUncredentialed, hphase]
  · rename_i peer grant hphase
    unfold Connection.nextFrame
    split
    · exact .close
    split
    · exact .close
    · exact .replyLast _
    · rename_i grant' hgrant'
      exact .serveOne hslot hphase (revalidate_decision hgrant')

end Connection

namespace Listener

variable {l : Listener e a}

structure Inv (k : Crypto) (ctx : ServeContext) (ops : List (ListenerOp e a)) (l : Listener e a) :
    Prop where
  ok : ∀ i (c : Connection e a), l.connections[i]? = some c → c.Ok k ctx ops i
  slots : ∀ c ∈ l.connections, c.slot = c.isUncredentialed
  conserved : l.uncredentialed + l.connections.countP Connection.isUncredentialed =
    maxUncredentialedConnections

theorem Inv.new : (new : Listener e a).Inv k ctx [] where
  ok i c h := by cases h
  slots c h := absurd h List.not_mem_nil
  conserved := rfl

theorem Inv.mono (h : l.Inv k ctx ops) (hsub : ops ⊆ ops') : l.Inv k ctx ops' :=
  ⟨fun i c hc => (h.ok i c hc).mono hsub, h.slots, h.conserved⟩

theorem Inv.accept (h : l.Inv k ctx ops) (allowed : Bool) : (l.accept allowed).Inv k ctx ops := by
  unfold Listener.accept
  split
  · rename_i hadmitted
    refine ⟨?_, ?_, ?_⟩
    · intro i c hc
      by_cases hi : i < l.connections.length
      · rw [List.getElem?_append_left hi] at hc
        exact h.ok i c hc
      · rw [List.getElem?_append_right (Nat.le_of_not_lt hi)] at hc
        rw [List.mem_singleton.mp (List.mem_of_getElem? hc)]
        exact .accepted
    · intro c hc
      obtain hc | hc := List.mem_append.mp hc
      · exact h.slots c hc
      · obtain rfl := List.mem_singleton.mp hc
        rfl
    · have hnew : [Connection.accepted (e := e) (a := a)].countP Connection.isUncredentialed = 1 :=
        rfl
      have hconserved := h.conserved
      have hfree : 0 < l.uncredentialed := hadmitted.2
      dsimp only
      rw [List.countP_append, hnew]
      omega
  · exact h

/-- One connection goes on, and its slot is either with it or back. -/
theorem Inv.advance {f : Connection e a → Connection e a} (h : l.Inv k ctx ops)
    (hok : ∀ c : Connection e a, c.Ok k ctx ops i → (f c).Ok k ctx ops i)
    (hslot : ∀ c : Connection e a, c.slot = c.isUncredentialed → Connection.SlotStep c (f c)) :
    (l.advance i f).Inv k ctx ops := by
  unfold Listener.advance
  cases hc : l.connections[i]? with
  | none => exact h
  | some c =>
    obtain ⟨hi, hget⟩ := List.getElem?_eq_some_iff.mp hc
    have hstep := hslot c (h.slots c (List.mem_of_getElem? hc))
    rw [Option.elim_some]
    refine ⟨?_, ?_, ?_⟩
    · intro j c' hc'
      by_cases hij : i = j
      · subst hij
        rw [List.getElem?_set_self hi] at hc'
        obtain rfl := Option.some.inj hc'
        exact hok c (h.ok i c hc)
      · rw [List.getElem?_set_ne hij] at hc'
        exact h.ok j c' hc'
    · intro c' hc'
      obtain hc' | rfl := List.mem_or_eq_of_mem_set hc'
      · exact h.slots c' hc'
      · exact hstep.held
    · have hconserved := h.conserved
      have hbefore := h.slots c (List.mem_of_getElem? hc)
      have hcount : c.isUncredentialed = true →
          0 < l.connections.countP Connection.isUncredentialed := fun hunc =>
        List.countP_pos_iff.mpr ⟨c, List.mem_of_getElem? hc, hunc⟩
      have hkept : (f c).isUncredentialed = true → c.isUncredentialed = true := fun hunc =>
        hbefore.symm.trans (hstep.kept (hstep.held.trans hunc))
      dsimp only
      rw [List.countP_set hi, hget, hbefore, hstep.held]
      -- of the two flags only the pair of a slot that is taken anew cannot be
      cases hold : c.isUncredentialed with
      | false =>
        rw [hold] at hkept
        have hnew : (f c).isUncredentialed = false := by simpa using hkept
        simpa [hnew] using hconserved
      | true =>
        have hpos := hcount hold
        cases (f c).isUncredentialed with
        | false =>
          simp only [Bool.not_false, Bool.and_true, if_true]
          simp only [Bool.false_eq_true, if_false]
          omega
        | true =>
          simp only [Bool.not_true, Bool.and_false, Bool.false_eq_true, if_false, if_true]
          omega

theorem Inv.step (h : l.Inv k ctx ops) (op : ListenerOp e a) :
    (l.step k ctx op).Inv k ctx (ops ++ [op]) := by
  have hops : l.Inv k ctx (ops ++ [op]) := h.mono (List.subset_append_left _ _)
  have hop : op ∈ ops ++ [op] := List.mem_append_right _ (List.mem_singleton_self _)
  cases op with
  | accept allowed => exact hops.accept allowed
  | handshake i key =>
    apply hops.advance
    · intro c hc
      split
      · exact hc.handshake hop
      · exact hc
    · intro c hc
      split
      · rename_i hphase
        exact .handshake hc (by simpa using hphase)
      · exact ⟨hc, id⟩
  | receive i m incoming =>
    apply hops.advance
    · intro c hc
      exact hc.receive hop
    · intro c hc
      exact .receive hc

theorem inv_run (ops : List (ListenerOp e a)) : (new.run k ctx ops).Inv k ctx ops := by
  induction ops using List.reverseRecOn with
  | nil => exact .new
  | append_singleton ops op ih =>
    unfold Listener.run Run.run
    rw [List.foldl_append]
    exact ih.step op

end Listener

end Run

namespace SmallMesh

open Wayfinder.SmallMesh BatmanEngine

abbrev SmallOp := ListenerOp smallCapacities capacities

def vpnOnly : Owners where
  router _ := .closed
  serveRead _ := none
  authority _ := none
  policy _ := none
  enroll _ := .ok ⟨"https://vpn", "once"⟩
  peers := .ok []
  revoke _ := .ok ()

/-- A frame comes to node 4 while its router is this and its host's clock reads so. -/
def momentOf4 (secs : Nat) (router : CentralRouter smallCapacities capacities) (nowUnix : Nat) :
    Moment smallCapacities capacities where
  now := Duration.ofSecs secs
  host := some (router, some (keypair 4).seed)
  clock := some nowUnix
  decided := Duration.ofSecs secs
  allow _ := false
  owners := vpnOnly
  writable := true
  forward := Nat.le_refl _

def late2 : Moment smallCapacities capacities := momentOf4 70 enforcing4 700

/-- Node 2 asks node 4 for its credential, and again a minute later, when it is revoked. -/
def visits2 : List SmallOp :=
  [.accept true, .handshake 0 (some cert2.edPubkey),
    .receive 0 (momentOf4 0 member4 400) (.request ⟨some (.authenticate cert2.asBytes)⟩),
    .receive 0 (momentOf4 5 member4 405) (.request ⟨some .getVpnEnrollment⟩),
    .receive 0 late2 (.request ⟨some .getVpnEnrollment⟩)]

def withVpn : ServeContext := ⟨false, true, false⟩

def Act.minted : Act → Option Mac
  | .mint mac => some mac
  | _ => none

def firstServed (l : Listener smallCapacities capacities) :
    Option (Served smallCapacities capacities) :=
  l.connections[0]?.bind fun c => c.served.head?

/-- The first time it is served. -/
theorem visits2_served : ∃ c s, (Listener.new.run crypto34 withVpn visits2).connections[0]? =
    some c ∧ s ∈ c.served ∧ .mint mac2 ∈ s.acts ∧ s.peer = ⟨cert2.edPubkey, some cert2⟩ := by
  have hminted : (firstServed (Listener.new.run crypto34 withVpn visits2)).map
      (fun s => (s.acts.filterMap Act.minted, s.peer)) =
        some ([mac2], ⟨cert2.edPubkey, some cert2⟩) := by
    decide +kernel
  obtain ⟨s, hs, hpair⟩ := Option.map_eq_some_iff.mp hminted
  obtain ⟨hacts, hpeer⟩ := Prod.mk.inj hpair
  obtain ⟨c, hc, hhead⟩ := Option.bind_eq_some_iff.mp hs
  have hmint : mac2 ∈ s.acts.filterMap Act.minted := hacts ▸ List.mem_singleton_self _
  obtain ⟨act, hact, hmac⟩ := List.mem_filterMap.mp hmint
  refine ⟨c, s, hc, List.mem_of_mem_head? hhead, ?_, hpeer⟩
  cases act <;> simp [Act.minted] at hmac
  exact hmac ▸ hact

end SmallMesh

section Main
variable {e : Capacities} {a : AuthCapacities} {k : Crypto} {ctx : ServeContext}
  {ops : List (ListenerOp e a)} {i : Nat} {c : Connection e a} {m : Moment e a} {peer : Peer}
  {grant : Grant}

/-! ### What follows -/

/-- A request for which something was done: its peer proved its key on this connection, and
less than a minute before the router held what entitles the peer to the request. A stranger
reaches only the authority and pays for what it changes, a viewer changes nothing, and a
device is served its VPN credential. -/
structure Rightful (k : Crypto) (ctx : ServeContext) (ops : List (ListenerOp e a)) (i : Nat)
    (s : Served e a) (kind : ReqKind) : Prop where
  peer : s.peer.Proved ops i
  received : .receive i s.moment (.request ⟨some kind⟩) ∈ ops
  reading : ∃ m incoming, .receive i m incoming ∈ ops ∧ m.context k = some s.grant.context ∧
    s.moment.now - m.decided < revalidateAfter
  entitled : Entitled k s.peer.key s.peer.cert s.grant.context kind
  stranger : Standing k s.peer.key s.peer.cert s.grant.context .enrollment →
    kind.rpc.owner = .authority ∧
      (kind.rpc.audit ≠ .query → s.moment.allow kind.rpc.limit = true)
  viewer : Standing k s.peer.key s.peer.cert s.grant.context .viewer → kind.rpc.audit = .query
  member : Standing k s.peer.key s.peer.cert s.grant.context .member → kind = .getVpnEnrollment
  done : ∃ done, (s.acts = auditRequest ⟨some kind⟩ ++ done ∨
      kind.rpc.owner = .transport ∧ s.acts = done) ∧
    ∀ act ∈ done, act.For ctx s.peer.cert s.grant s.moment.owners kind

theorem decision_of_tier {access : MgmtAccess} (h : access.tier = some .enrollment) :
    access = .grantedEnrollment := by
  cases access <;> first | rfl | cases h

theorem allow_of_overLimit {allow : RateLimit → Bool} {kind : ReqKind}
    (h : overLimit .grantedEnrollment allow kind = none) (hlimit : kind.rpc.limit ≠ .unmetered) :
    allow kind.rpc.limit = true := by
  unfold overLimit at h
  rw [if_pos rfl] at h
  cases hkind : kind.rpc.limit with
  | unmetered => exact absurd hkind hlimit
  | submitCsr => simpa [hkind] using h
  | login => simpa [hkind] using h
  | registration => simpa [hkind] using h

theorem Served.Justified.rightful {s : Served e a} (h : s.Justified k ctx ops i) :
    s.acts = [] ∨ ∃ kind, s.request = ⟨some kind⟩ ∧ Rightful k ctx ops i s kind := by
  obtain hnone | ⟨kind, hkind, hdoes⟩ := h.does
  · exact .inl hnone
  obtain ⟨⟨m, incoming, hmem, hcontext, hstamp⟩, hdecision, -⟩ := h.grant
  have hpermits := hdoes.permitted
  rw [hdecision] at hpermits
  obtain ⟨tier, hstanding, hmember⟩ := permits_authorize.mp hpermits
  refine .inr ⟨kind, hkind, ⟨h.peer, hkind ▸ h.received, ⟨m, incoming, hmem, hcontext, ?_⟩,
    ⟨tier, hstanding, hmember⟩, ?_, ?_, ?_, hdoes.done⟩⟩
  · rw [hstamp]
    exact h.fresh
  · intro hstranger
    obtain rfl := hstanding.unique hstranger
    refine ⟨ReqKind.authority_of_enrollment hmember, ?_⟩
    intro haudit
    have hmetered := hdoes.metered
    rw [hdecision, decision_of_tier (authorize_tier.mpr hstranger)] at hmetered
    exact allow_of_overLimit hmetered (ReqKind.metered_of_enrollment hmember haudit)
  · intro hviewer
    obtain rfl := hstanding.unique hviewer
    exact ReqKind.query_of_viewer hmember
  · intro hdevice
    obtain rfl := hstanding.unique hdevice
    exact ReqKind.mem_access_member.mp hmember

namespace Listener

end Listener

namespace SmallMesh

open Wayfinder.SmallMesh

end SmallMesh

namespace Listener

/-- The slots that are left and the connections whose peer has proved no full credential add
up: no slot is lost, whatever ends a connection, and there are never more of these. -/
theorem run_slots (ops : List (ListenerOp e a)) :
    (new.run k ctx ops).uncredentialed +
      (new.run k ctx ops).connections.countP Connection.isUncredentialed = 64 := by
  have hinv : (new.run k ctx ops).Inv k ctx ops := inv_run ops
  exact hinv.conserved

end Listener

/-- Whenever the router answers the gate it holds a record that cancels the certificate, and
the key is not the node's own. -/
def Moment.Shuns (k : Crypto) (key : Octets 32) (cert : MembershipCert) (m : Moment e a) : Prop :=
  ∀ router identitySeed nowUnix, m.host = some (router, identitySeed) → m.clock = some nowUnix →
    (identitySeed.map fun seed => k.edPubkey ⟨seed⟩) ≠ some key ∧
      ∃ auth known, router.auth = some auth ∧ known ∈ auth.revocations.toList ∧
        known.record.cancels cert.facts nowUnix = true

theorem Moment.Shuns.no_standing {key : Octets 32} {cert : MembershipCert} {context : AuthContext}
    {tier : AccessTier} (h : m.Shuns k key cert) (hcontext : m.context k = some context) :
    ¬ Standing k key (some cert) context tier := by
  obtain ⟨⟨router, seed⟩, hhost, hcontext⟩ := Option.bind_eq_some_iff.mp hcontext
  obtain ⟨nowUnix, hclock, hcontext⟩ := Option.bind_eq_some_iff.mp hcontext
  obtain rfl := Option.some.inj hcontext
  obtain ⟨hown, auth, known, hauth, hknown, hcancels⟩ := h router seed nowUnix hhost hclock
  intro hstanding
  cases hstanding with
  | node hnode => exact hown hnode
  | stranger _ hnone =>
    obtain hanchor | hcert := hnone
    · simp [buildAuthSnapshot, hauth] at hanchor
    · cases hcert
  | holder _ hcert hvouches _ =>
    obtain rfl := Option.some.inj hcert
    have hmem : known.record ∈ (buildAuthSnapshot k router seed).revoked := by
      simp only [buildAuthSnapshot, hauth, Option.elim_some]
      exact List.mem_map_of_mem hknown
    have huncancelled := hvouches.uncancelled known.record hmem
    exact Bool.false_ne_true (huncancelled.symm.trans hcancels)

theorem le_of_fresh {now decided since window : Nat} (hfresh : now - decided < window)
    (hlate : since + window ≤ now) : since ≤ decided := by
  omega

namespace Listener

/-- A revocation cuts an open connection off: from when on every verdict is stamped under a
router that holds it, the certificate's connections have a minute left. -/
theorem run_shunned (ops : List (ListenerOp e a)) {s : Served e a} {key : Octets 32}
    {cert : MembershipCert} {since : Duration}
    (hc : (new.run k ctx ops).connections[i]? = some c) (hs : s ∈ c.served)
    (hpeer : s.peer = ⟨key, some cert⟩)
    (hshuns : ∀ m incoming, .receive i m incoming ∈ ops → since ≤ m.decided → m.Shuns k key cert) :
    s.moment.now < since + revalidateAfter := by
  have hjustified := ((inv_run ops).ok i c hc).served s hs
  obtain ⟨⟨m, incoming, hmem, hcontext, hstamp⟩, hdecision, tier, htier⟩ := hjustified.grant
  have hfresh := hjustified.fresh
  rw [← hstamp] at hfresh
  by_contra hlate
  have hsince := le_of_fresh hfresh (Nat.le_of_not_lt hlate)
  rw [hdecision, hpeer] at htier
  exact (hshuns m incoming hmem hsince).no_standing hcontext (authorize_tier.mp htier)

end Listener

namespace SmallMesh

open Wayfinder.SmallMesh

theorem shuns_late2 : late2.Shuns crypto34 cert2.edPubkey cert2 := by
  intro router identitySeed nowUnix hhost hclock
  obtain ⟨rfl, rfl⟩ := Prod.mk.inj (Option.some.inj hhost)
  obtain rfl := Option.some.inj hclock
  refine ⟨by decide +kernel, ?_⟩
  have hheld : (enforcing4.auth.bind fun auth => auth.revocations.toList.find? fun known =>
      known.record.cancels cert2.facts 700).isSome = true := by
    decide +kernel
  obtain ⟨known, hknown⟩ := Option.isSome_iff_exists.mp hheld
  obtain ⟨auth, hauth, hfind⟩ := Option.bind_eq_some_iff.mp hknown
  exact ⟨auth, known, hauth, List.mem_of_find?_eq_some hfind, by simpa using List.find?_some hfind⟩

theorem run_shunned_visits2 : ∃ c s,
    (Listener.new.run crypto34 withVpn visits2).connections[0]? = some c ∧ s ∈ c.served ∧
      s.moment.now < Duration.ofSecs 10 + revalidateAfter := by
  obtain ⟨c, s, hc, hs, -, hpeer⟩ := visits2_served
  refine ⟨c, s, hc, hs, Listener.run_shunned visits2 hc hs hpeer ?_⟩
  intro m incoming hmem hsince
  simp only [visits2, List.mem_cons, reduceCtorEq, ListenerOp.receive.injEq, List.not_mem_nil,
    false_or, or_false] at hmem
  obtain ⟨-, rfl, -⟩ | ⟨-, rfl, -⟩ | ⟨-, rfl, -⟩ := hmem
  · exact absurd hsince (by decide)
  · exact absurd hsince (by decide)
  · exact shuns_late2

end SmallMesh

/-- A credential is minted for a device's own address: this node's, for who holds its key, or
the one that the peer's key itself spells, in a certificate of the mesh that makes it a
device. -/
def MintsFor (k : Crypto) (peer : Peer) (context : AuthContext) (mac : Mac) : Prop :=
  (context.ownKey = some peer.key ∧ mac = context.ownMac) ∨
    ∃ cert, peer.cert = some cert ∧ context.Vouches k peer.key cert ∧
      cert.facts.member = true ∧ cert.facts.user = false ∧ mac = k.deriveMac peer.key

theorem member_of_capacity {cert : VerifiedCert} (h : cert.capacity = some .member) :
    cert.member = true ∧ cert.user = false := by
  unfold VerifiedCert.capacity at h
  split at h
  · cases h
  split at h
  · cases h
  split at h
  · rename_i hmember
    simpa using hmember
  · cases h

theorem capacity_ne_selfKey {cert : VerifiedCert} : cert.capacity ≠ some .selfKey := by
  unfold VerifiedCert.capacity
  split
  · decide
  split
  · decide
  split
  · decide
  · decide

theorem mintsFor_of_credentialMac {mac : Mac} {context : AuthContext}
    (h : credentialMac (authorize k peer.key peer.cert context) peer.cert context.ownMac =
      some mac) : MintsFor k peer context mac := by
  unfold credentialMac at h
  split at h
  · rename_i hmember
    have hstanding := authorize_tier.mp (congrArg MgmtAccess.tier hmember)
    cases hstanding with
    | holder hown hcert hvouches htier =>
      obtain ⟨hflag, huser⟩ := member_of_capacity htier
      rw [hcert] at h
      obtain rfl := Option.some.inj h
      obtain ⟨anchor, -, hissued⟩ := hvouches.issued
      refine .inr ⟨_, hcert, hvouches, hflag, huser, ?_⟩
      rw [← hissued.bound, hvouches.own]
  · rename_i hself
    have hstanding := authorize_tier.mp (congrArg MgmtAccess.tier hself)
    obtain rfl := Option.some.inj h
    cases hstanding with
    | node hown => exact .inl ⟨hown, rfl⟩
    | holder _ _ _ htier => exact absurd htier capacity_ne_selfKey
  · cases h

theorem Act.For.mintsFor {cert : Option MembershipCert} {owners : Owners} {kind : ReqKind}
    {mac : Mac} (h : (Act.mint mac).For ctx cert grant owners kind) :
    credentialMac grant.decision cert grant.context.ownMac = some mac := by
  cases h with
  | mint _ hmac => exact hmac

namespace Listener

/-- No connection has a VPN credential minted for another device's address. -/
theorem run_mintsFor (ops : List (ListenerOp e a)) {s : Served e a} {mac : Mac}
    (hc : (new.run k ctx ops).connections[i]? = some c) (hs : s ∈ c.served)
    (hact : .mint mac ∈ s.acts) :
    (∃ m incoming, .receive i m incoming ∈ ops ∧ m.context k = some s.grant.context ∧
      s.moment.now - m.decided < revalidateAfter) ∧ MintsFor k s.peer s.grant.context mac := by
  have hjustified := ((inv_run ops).ok i c hc).served s hs
  obtain hnone | ⟨kind, -, hrightful⟩ := hjustified.rightful
  · rw [hnone] at hact
    exact absurd hact List.not_mem_nil
  refine ⟨hrightful.reading, ?_⟩
  obtain ⟨done, hacts, hdone⟩ := hrightful.done
  have hmint : Act.mint mac ∈ done := by
    obtain hacts | ⟨-, hacts⟩ := hacts
    · rw [hacts] at hact
      obtain hrecord | hmint := List.mem_append.mp hact
      · exact absurd hrecord mint_not_recorded
      · exact hmint
    · exact hacts ▸ hact
  have hmac := (hdone _ hmint).mintsFor
  rw [hjustified.grant.decision] at hmac
  exact mintsFor_of_credentialMac hmac

end Listener

namespace SmallMesh

open Wayfinder.SmallMesh

theorem run_mintsFor_visits2 : ∃ c s,
    (Listener.new.run crypto34 withVpn visits2).connections[0]? = some c ∧ s ∈ c.served ∧
      MintsFor crypto34 s.peer s.grant.context mac2 := by
  obtain ⟨c, s, hc, hs, hmint, -⟩ := visits2_served
  exact ⟨c, s, hc, hs, (Listener.run_mintsFor visits2 hc hs hmint).2⟩

end SmallMesh

end Main

end Wayfinder.Transport

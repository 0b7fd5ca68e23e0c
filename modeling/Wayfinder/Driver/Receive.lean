import Wayfinder.Driver.Dispatch
import Wayfinder.Driver.Fanout
import Wayfinder.Forwarding
import Wayfinder.Locked

/-!
# Receiving

A frame a link handed in: its trailer comes off, the router makes of it what it does, and
what follows is planned into the shell's sink. A frame that fails its proof ends before
the router has seen it.
-/

namespace Wayfinder

set_option autoImplicit false

section Instance
variable {e : Capacities} {a : AuthCapacities} {t : TableCapacities}

instance : RouterOps (NodeRouter e a t) where
  getEgressInterface now dst n := n.getEgressInterface now dst
  linkMayTx n idx packetType := n.linkMayTx idx packetType
  authenticated n := n.core.auth.isSome
  recordMcastGroupDrop dests n :=
    { n with mcastGroupDrops := saturatingAdd n.mcastGroupDrops (BitVec.ofNat 32 dests) }

end Instance

/-- Holds back the destination groups the engine emits; what is no multicast goes straight
to the shell. -/
structure McastCollector where
  sink : MeshSink
  groups : McastGroups
  ttl : U8

namespace McastCollector

def new (sink : MeshSink) : McastCollector := ⟨sink, .empty, 0⟩

def push (c : McastCollector) (frame : LinkFrameData) : McastCollector × Bool :=
  match McastPacketView.parse frame.payload with
  | none =>
    let (sink, taken) := c.sink.emit ⟨frame.dst, frame.protocol, frame.payload, .auto⟩
    ({ c with sink := sink }, taken)
  | some view =>
    let c := { c with ttl := view.header.ttl }
    match (Bounded.empty : Bounded Mac maxMcastDests).pushEach view.dests with
    | (_, false) => (c, false)
    | (dests, true) =>
      let (groups, taken) := c.groups.push (frame.dst, dests)
      ({ c with groups := groups }, taken)

/-- The collector once it has taken these frames. -/
def after (c : McastCollector) (frames : List LinkFrameData) : McastCollector :=
  frames.foldl (fun c frame => (c.push frame).1) c

/-- The collector as the sink the engine emits to. -/
def asFrameSink (c : McastCollector) : FrameSink :=
  ⟨[], fun taken frame => ((c.after taken).push frame).2⟩

end McastCollector

namespace NodeRouter

variable {e : Capacities} {a : AuthCapacities} {t : TableCapacities}

/-- What follows from the router's verdict on a frame, its trailer gone. -/
def handleStripped (k : Crypto) (n : NodeRouter e a t) (now : Duration) (idx : Nat)
    (frame : LinkFrame) (metrics : LinkMetrics) (txLen : Nat) (fanOut : List (Option FanOut))
    (sink : MeshSink) : NodeRouter e a t × MeshSink :=
  let collector := McastCollector.new sink
  let (n, rx, out) :=
    n.handleFrameWithMetrics k now idx frame metrics txLen collector.asFrameSink
  let collector := collector.after out.frames
  let sink := match rx.forward with
    -- A proof response returns by the interface its challenge arrived on.
    | some f => (collector.sink.emit
        ⟨f.dst, f.protocol, f.payload, rx.pinEgressIface.elim .auto .iface⟩).1
    | none => collector.sink
  let sink := match rx.deliverLocal with
    | some inner => sink.deliverLocal inner
    | none => sink
  if collector.groups.toList.isEmpty then (n, sink)
  else
    match McastPacketView.parse frame.payload with
    | none => (n, sink)
    | some view =>
      flushMcastGroups now n collector.groups collector.ttl view.inner fanOut txLen sink

def handleMeshFrame (k : Crypto) (n : NodeRouter e a t) (now : Duration) (idx : Nat)
    (frame : LinkFrame) (metrics : LinkMetrics) (txLen : Nat) (fanOut : List (Option FanOut))
    (sink : MeshSink) : NodeRouter e a t × MeshSink :=
  match n.stripDirected k frame with
  | (n, none) => (n, sink)
  | (n, some frame) => n.handleStripped k now idx frame metrics txLen fanOut sink

/-- A receive error costs nothing but the frame. -/
def handleLinkResult {ε : Type} (k : Crypto) (n : NodeRouter e a t) (now : Duration) (idx : Nat)
    (result : Except ε (LinkFrame × LinkMetrics)) (txLen : Nat)
    (fanOut : List (Option FanOut)) (sink : MeshSink) : NodeRouter e a t × MeshSink :=
  match result with
  | .ok (frame, metrics) => n.handleMeshFrame k now idx frame metrics txLen fanOut sink
  | .error _ => (n, sink)

end NodeRouter

/-! ### What a sink was offered -/

namespace MeshSink

/-- What the shell was offered since is of this kind, and nothing went up to the host. -/
def Offers (P : OutgoingFrame → Prop) (s s' : MeshSink) : Prop :=
  s'.delivered = s.delivered ∧ ∃ new, s'.offered = s.offered ++ new ∧ ∀ p ∈ new, P p.1

section Offers
variable {P Q : OutgoingFrame → Prop} {s s' s'' : MeshSink}

theorem Offers.refl (s : MeshSink) : s.Offers P s := by
  refine ⟨rfl, [], (List.append_nil _).symm, ?_⟩
  intro p hp
  cases hp

theorem Offers.trans (h : s.Offers P s') (h' : s'.Offers P s'') : s.Offers P s'' := by
  obtain ⟨hdelivered, new, hoffered, hnew⟩ := h
  obtain ⟨hdelivered', new', hoffered', hnew'⟩ := h'
  refine ⟨hdelivered'.trans hdelivered, new ++ new', ?_, ?_⟩
  · rw [hoffered', hoffered, List.append_assoc]
  · intro p hp
    rcases List.mem_append.mp hp with hold | hlate
    · exact hnew p hold
    · exact hnew' p hlate

theorem Offers.mono (hPQ : ∀ f, P f → Q f) (h : s.Offers P s') : s.Offers Q s' := by
  obtain ⟨hdelivered, new, hoffered, hnew⟩ := h
  exact ⟨hdelivered, new, hoffered, fun p hp => hPQ p.1 (hnew p hp)⟩

theorem offers_emit (s : MeshSink) {f : OutgoingFrame} (hf : P f) : s.Offers P (s.emit f).1 := by
  refine ⟨rfl, [(f, s.accepts s.offered f)], rfl, ?_⟩
  intro p hp
  obtain rfl := List.mem_singleton.mp hp
  exact hf

end Offers

end MeshSink

/-- No interface is named whose gate holds the frame's class back. -/
def OutgoingFrame.Gated (mayTx : Nat → Option BatmanPacketType → Bool) (f : OutgoingFrame) :
    Prop :=
  ∀ i, f.egress = .iface i → mayTx i (bodyType f.protocol f.payload) = true

theorem bodyType_writeMcast {ttl : U8} {form : McastAuthForm} {dests : List Mac}
    {inner payload : Bytes} {outLen : Nat}
    (h : writeMcast ttl form dests inner outLen = some payload) :
    bodyType ethPBatman payload = some .mcast := by
  obtain ⟨-, rfl⟩ := BatmanEngine.writeMcast_eq_some h
  rfl

section Flush
variable {R : Type} [RouterOps R]

theorem planMerge_gated {router : R} {groups : McastGroups} {ifaceOf : List (Option Nat)}
    {ttl : U8} {inner : Bytes} {fanOut : List (Option FanOut)} {txLen : Nat} {merged : List Nat}
    {i : Nat} {frame : OutgoingFrame} {peers : Bounded Nat maxMcastDests}
    (h : planMerge router groups ifaceOf ttl inner fanOut txLen merged i = some (frame, peers)) :
    frame.Gated (RouterOps.linkMayTx router) := by
  unfold planMerge at h
  simp only [Option.bind_eq_bind, Option.bind_eq_some_iff, Option.guard_eq_some'] at h
  obtain ⟨_, _, idx, _, fan, _, _, hmay, _, _, _, _, payload, hpayload, _, _, h⟩ := h
  obtain ⟨rfl, rfl⟩ := Prod.mk.inj (Option.some.inj h)
  intro j hj
  obtain rfl := Egress.iface.inj hj
  rw [bodyType_writeMcast hpayload]
  exact hmay

theorem collapse_offers (router : R) (groups : McastGroups) (ifaceOf : List (Option Nat))
    (ttl : U8) (inner : Bytes) (fanOut : List (Option FanOut)) (txLen : Nat) (turns : List Nat)
    (st : Bounded Nat maxMcastDests × MeshSink) :
    st.2.Offers (OutgoingFrame.Gated (RouterOps.linkMayTx router))
      (turns.foldl (collapseAt router groups ifaceOf ttl inner fanOut txLen) st).2 := by
  induction turns generalizing st with
  | nil => exact .refl _
  | cons i rest ih =>
    refine MeshSink.Offers.trans ?_ (ih _)
    unfold collapseAt
    cases hplan : planMerge router groups ifaceOf ttl inner fanOut txLen st.1.toList i with
    | none => exact .refl _
    | some planned => exact MeshSink.offers_emit _ (planMerge_gated hplan)

theorem sendDirected_offers (P : OutgoingFrame → Prop) (hauto : ∀ f, f.egress = .auto → P f)
    (ttl : U8) (inner : Bytes) (txLen : Nat) (merged : List Nat)
    (slots : List (McastGroup × Nat)) (st : R × MeshSink) :
    st.2.Offers P (slots.foldl (sendDirected ttl inner txLen merged) st).2 := by
  induction slots generalizing st with
  | nil => exact .refl _
  | cons slot rest ih =>
    refine MeshSink.Offers.trans ?_ (ih _)
    unfold sendDirected
    dsimp only
    split
    · exact .refl _
    split
    · exact .refl _
    · exact MeshSink.offers_emit _ (hauto _ rfl)

theorem flushMcastGroups_offers (now : Duration) (router : R) (groups : McastGroups) (ttl : U8)
    (inner : Bytes) (fanOut : List (Option FanOut)) (txLen : Nat) (sink : MeshSink) :
    sink.Offers
      (OutgoingFrame.Gated (RouterOps.linkMayTx (resolveGroups now router groups.toList).1))
      (flushMcastGroups now router groups ttl inner fanOut txLen sink).2 := by
  refine MeshSink.Offers.trans (collapse_offers _ groups
    (resolveGroups now router groups.toList).2 ttl inner fanOut txLen
    (List.range groups.toList.length) (Bounded.empty, sink)) ?_
  apply sendDirected_offers
  intro f hauto i hi
  rw [hauto] at hi
  cases hi

end Flush

/-! ### The router's verdict -/

theorem OgmAuth.answerChallengeFrame_type {c : AuthCapacities} {k : Crypto} (s : OgmAuth c)
    {src : Mac} {body : Bytes} {txLen : Nat} {f : LinkFrameData}
    (h : s.answerChallengeFrame k src body txLen = some f) :
    bodyType f.protocol f.payload = some .nextHopResponse := by
  unfold answerChallengeFrame at h
  split at h
  · cases h
  dsimp only at h
  split at h
  · cases h
  · obtain rfl := Option.some.inj h
    rfl

namespace CentralRouter

variable {e : Capacities} {a : AuthCapacities} {k : Crypto} {r : CentralRouter e a}

/-- What the router never does of its own accord: change a gate, lift its lock, or come by an
auth state it did not have. -/
structure Keeps (r r' : CentralRouter e a) : Prop where
  linkFeatures : r'.linkFeatures = r.linkFeatures
  requireAuth : r'.requireAuth = r.requireAuth
  latched : r.selfRevocation.isSome = true → r'.selfRevocation.isSome = true
  unarmed : r.auth = none → r'.auth = none

theorem Keeps.refl (r : CentralRouter e a) : Keeps r r := ⟨rfl, rfl, id, id⟩

theorem Keeps.trans {r' r'' : CentralRouter e a} (h : Keeps r r') (h' : Keeps r' r'') :
    Keeps r r'' where
  linkFeatures := h'.linkFeatures.trans h.linkFeatures
  requireAuth := h'.requireAuth.trans h.requireAuth
  latched hlatched := h'.latched (h.latched hlatched)
  unarmed hnone := h'.unarmed (h.unarmed hnone)

/-- The auth state and the routes move on, and nothing else. -/
theorem keeps_of_auth {s s' : OgmAuth a} {batman : BatmanEngine e} (hauth : r.auth = some s) :
    Keeps r { r with auth := some s', batman := batman } := by
  refine ⟨rfl, rfl, id, ?_⟩
  intro hnone
  rw [hauth] at hnone
  cases hnone

theorem Keeps.locked {r' : CentralRouter e a} (h : Keeps r r') (hlocked : r.authLocked = true) :
    r'.authLocked = true := by
  unfold authLocked selfRevoked at hlocked ⊢
  rw [Bool.or_eq_true, Bool.and_eq_true, Option.isNone_iff_eq_none] at hlocked ⊢
  rcases hlocked with hlatched | ⟨hrequired, hnone⟩
  · exact .inl (h.latched hlatched)
  · exact .inr ⟨h.requireAuth.trans hrequired, h.unarmed hnone⟩

theorem applySelfRevocation_keeps (r : CentralRouter e a) : r.Keeps r.applySelfRevocation.1 := by
  unfold applySelfRevocation
  split
  · exact .refl r
  rename_i hauth
  split
  · exact keeps_of_auth hauth
  · exact ⟨rfl, rfl, fun _ => rfl, fun _ => rfl⟩

theorem actOnTrickleHint_keeps (r : CentralRouter e a) (now : Duration) :
    r.Keeps (r.actOnTrickleHint now) := by
  unfold actOnTrickleHint
  split
  · exact .refl r
  rename_i hauth
  split
  · exact keeps_of_auth hauth
  · exact keeps_of_auth hauth

theorem flushParked_keeps (r : CentralRouter e a) (now : Duration) (frame : LinkFrame)
    (replyLen : Nat) : r.Keeps (r.flushParked now frame replyLen).1 := by
  unfold flushParked
  split
  · rename_i hauth
    exact keeps_of_auth hauth
  · exact .refl r

theorem judgeFrame_keeps (k : Crypto) (r : CentralRouter e a) (now : Duration)
    (ifaceIdx : Nat) (frame : LinkFrame) (txLen : Nat) :
    r.Keeps (r.judgeFrame k now ifaceIdx frame txLen).1 := by
  unfold judgeFrame
  split
  · rename_i hauth
    split
    · exact keeps_of_auth hauth
    · exact keeps_of_auth hauth
    · exact keeps_of_auth hauth
  · rename_i hauth
    split
    · exact keeps_of_auth hauth
    · exact keeps_of_auth hauth
  · split
    · exact .refl r
    · exact .refl r
  · exact .refl r
  · rename_i hauth
    split
    · exact .refl r
    split
    · exact keeps_of_auth hauth
    · exact keeps_of_auth hauth
  · exact .refl r

theorem deliver_keeps (k : Crypto) (r : CentralRouter e a) (now : Duration)
    (frame : LinkFrame) (replyLen : Nat) : r.Keeps (r.deliver k now frame replyLen).1 := by
  unfold deliver
  dsimp only
  split
  any_goals exact .refl r
  all_goals
    rename_i hauth
    exact keeps_of_auth hauth

theorem routeFrame_keeps (k : Crypto) (r : CentralRouter e a) (now : Duration)
    (ifaceIdx : Nat) (frame : LinkFrame) (localQuality : Option U8) (txLen : Nat)
    (out : FrameSink) : r.Keeps (r.routeFrame k now ifaceIdx frame localQuality txLen out).1 := by
  have hrouted : r.Keeps { r with
      batman := (r.batman.handleRx now frame localQuality txLen out).engine } :=
    ⟨rfl, rfl, id, id⟩
  unfold routeFrame
  dsimp only
  split
  · split
    · split
      · exact hrouted
      · exact hrouted
    · exact hrouted.trans (flushParked_keeps ..)
  · exact hrouted
  · exact hrouted.trans (deliver_keeps ..)
  · exact hrouted

theorem handleFrame_keeps (k : Crypto) (r : CentralRouter e a) (now : Duration)
    (ifaceIdx : Nat) (frame : LinkFrame) (localQuality : Option U8) (txLen : Nat)
    (out : FrameSink) :
    r.Keeps (r.handleFrame k now ifaceIdx frame localQuality txLen out).1 := by
  have hjudged := judgeFrame_keeps k r now ifaceIdx frame txLen
  unfold handleFrame
  split
  · exact .refl r
  split
  · rename_i heq
    rw [heq] at hjudged
    exact hjudged
  · rename_i r' heq
    rw [heq] at hjudged
    have happlied := applySelfRevocation_keeps r'
    split
    · rename_i heq'
      rw [heq'] at happlied
      exact hjudged.trans happlied
    · rename_i heq'
      rw [heq'] at happlied
      exact hjudged.trans (happlied.trans
        ((actOnTrickleHint_keeps ..).trans (routeFrame_keeps ..)))

/-- What a verdict asks of the driver: a reply bound to the interface of arrival is a proof
response, and what goes up to the host is the body of the frame. -/
structure Sound (ifaceIdx : Nat) (frame : LinkFrame) (rx : RxOutcome) : Prop where
  pinned : ∀ i, rx.pinEgressIface = some i → i = ifaceIdx ∧ ∀ f, rx.forward = some f →
    bodyType f.protocol f.payload = some .nextHopResponse
  delivered : ∀ inner, rx.deliverLocal = some inner → innerPayload frame.payload = some inner

theorem sound_ofForward (ifaceIdx : Nat) (frame : LinkFrame) (forward : Option LinkFrameData) :
    Sound ifaceIdx frame (.ofForward forward) := by
  refine ⟨?_, ?_⟩
  · intro i hi
    cases hi
  · intro inner hinner
    cases hinner

theorem sound_deliver (k : Crypto) (r : CentralRouter e a) (now : Duration) (ifaceIdx : Nat)
    (frame : LinkFrame) (replyLen : Nat) :
    Sound ifaceIdx frame (r.deliver k now frame replyLen).2 := by
  unfold deliver
  dsimp only
  split
  · exact sound_ofForward ifaceIdx frame none
  · exact sound_ofForward ifaceIdx frame none
  · exact sound_ofForward ifaceIdx frame none
  · exact sound_ofForward ifaceIdx frame _
  · exact sound_ofForward ifaceIdx frame none
  · exact sound_ofForward ifaceIdx frame none
  · exact sound_ofForward ifaceIdx frame none
  · exact sound_ofForward ifaceIdx frame none
  · exact sound_ofForward ifaceIdx frame none
  · exact sound_ofForward ifaceIdx frame _
  · refine ⟨?_, fun inner hinner => hinner⟩
    intro i hi
    cases hi

theorem sound_routeFrame (k : Crypto) (r : CentralRouter e a) (now : Duration) (ifaceIdx : Nat)
    (frame : LinkFrame) (localQuality : Option U8) (txLen : Nat) (out : FrameSink) :
    Sound ifaceIdx frame (r.routeFrame k now ifaceIdx frame localQuality txLen out).2.1 := by
  unfold routeFrame
  dsimp only
  split
  · split
    · split
      · exact sound_ofForward ifaceIdx frame none
      · exact sound_ofForward ifaceIdx frame _
    · exact sound_ofForward ifaceIdx frame _
  · exact sound_ofForward ifaceIdx frame _
  · exact sound_deliver ..
  · refine ⟨?_, fun inner hinner => hinner⟩
    intro i hi
    cases hi

theorem sound_judgeFrame {r' : CentralRouter e a} {now : Duration} {ifaceIdx : Nat}
    {frame : LinkFrame} {txLen : Nat} {outcome : RxOutcome}
    (h : r.judgeFrame k now ifaceIdx frame txLen = (r', some outcome)) :
    Sound ifaceIdx frame outcome := by
  have hempty : Sound ifaceIdx frame .empty := sound_ofForward ifaceIdx frame none
  unfold judgeFrame at h
  split at h
  · split at h
    · cases h
    · obtain rfl := Option.some.inj (Prod.mk.inj h).2
      exact hempty
    · obtain rfl := Option.some.inj (Prod.mk.inj h).2
      exact sound_ofForward ifaceIdx frame _
  · split at h
    · cases h
    · obtain rfl := Option.some.inj (Prod.mk.inj h).2
      exact hempty
  · split at h
    · obtain rfl := Option.some.inj (Prod.mk.inj h).2
      exact hempty
    · obtain rfl := Option.some.inj (Prod.mk.inj h).2
      refine ⟨?_, ?_⟩
      · intro i hi
        obtain rfl := Option.some.inj hi
        refine ⟨rfl, ?_⟩
        intro f hf
        obtain ⟨auth, -, hanswer⟩ := Option.bind_eq_some_iff.mp hf
        exact auth.answerChallengeFrame_type hanswer
      · intro inner hinner
        cases hinner
  · obtain rfl := Option.some.inj (Prod.mk.inj h).2
    exact hempty
  · split at h
    · obtain rfl := Option.some.inj (Prod.mk.inj h).2
      exact hempty
    · split at h
      · obtain rfl := Option.some.inj (Prod.mk.inj h).2
        exact hempty
      · obtain rfl := Option.some.inj (Prod.mk.inj h).2
        exact hempty
  · cases h

theorem sound_handleFrame (k : Crypto) (r : CentralRouter e a) (now : Duration) (ifaceIdx : Nat)
    (frame : LinkFrame) (localQuality : Option U8) (txLen : Nat) (out : FrameSink) :
    Sound ifaceIdx frame (r.handleFrame k now ifaceIdx frame localQuality txLen out).2.1 := by
  unfold handleFrame
  split
  · exact sound_ofForward ifaceIdx frame none
  split
  · rename_i hjudged
    exact sound_judgeFrame hjudged
  split
  · exact sound_ofForward ifaceIdx frame none
  · exact sound_routeFrame ..

end CentralRouter

namespace NodeRouter

variable {e : Capacities} {a : AuthCapacities} {t : TableCapacities} {k : Crypto}
  {n : NodeRouter e a t}

/-- The gates of the links stand as they were, and so do the lock and the want of an auth
state. -/
structure Keeps (n n' : NodeRouter e a t) : Prop where
  core : n.core.Keeps n'.core
  emissions : n'.managed.emissions = n.managed.emissions

theorem Keeps.linkMayTx {n' : NodeRouter e a t} (h : n.Keeps n') :
    n'.linkMayTx = n.linkMayTx := by
  obtain ⟨hkept, hemissions⟩ := h
  have hcore : n'.managed.core.featuresOf = n.managed.core.featuresOf := by
    funext idx
    exact congrArg (fun l => l.getD idx .default) hkept.linkFeatures
  funext idx packetType
  unfold NodeRouter.linkMayTx ManagedRouter.linkFeatures
  rw [hcore, hemissions]

theorem emissions_measureFrame (n : NodeRouter e a t) (ifaceIdx : Nat) (frame : LinkFrame)
    (metrics : LinkMetrics) :
    (n.measureFrame ifaceIdx frame metrics).managed.emissions = n.managed.emissions := by
  have htouch : (n.managed.touchIface ifaceIdx).emissions = n.managed.emissions := by
    unfold ManagedRouter.touchIface
    split <;> rfl
  unfold measureFrame
  dsimp only
  split
  · split
    · exact htouch
    · exact htouch
  · split
    · exact htouch
    · exact htouch

theorem emissions_afterCore (n : NodeRouter e a t) (core : CentralRouter e a) :
    (n.afterCore core).managed.emissions = n.managed.emissions := by
  unfold afterCore
  split <;> rfl

theorem emissions_creditEchoReply (n : NodeRouter e a t) (now : Duration) (payload : Bytes) :
    (n.creditEchoReply now payload).managed.emissions = n.managed.emissions := by
  unfold creditEchoReply
  split <;> rfl

theorem handleFrameWithMetrics_keeps (k : Crypto) (n : NodeRouter e a t) (now : Duration)
    (ifaceIdx : Nat) (frame : LinkFrame) (metrics : LinkMetrics) (txLen : Nat)
    (out : FrameSink) :
    n.Keeps (n.handleFrameWithMetrics k now ifaceIdx frame metrics txLen out).1 := by
  unfold handleFrameWithMetrics
  split
  · exact ⟨.refl _, rfl⟩
  dsimp only
  have hhandled := CentralRouter.handleFrame_keeps k
    (n.measureFrame ifaceIdx frame metrics).core now ifaceIdx frame
    ((n.measureFrame ifaceIdx frame metrics).linkQuality.qualityFor frame.src ifaceIdx) txLen out
  rw [core_measureFrame] at hhandled
  split
  · constructor
    · rw [core_creditEchoReply, core_afterCore, core_measureFrame]
      exact hhandled
    · rw [emissions_creditEchoReply, emissions_afterCore]
      exact emissions_measureFrame ..
  · constructor
    · rw [core_afterCore, core_measureFrame]
      exact hhandled
    · rw [emissions_afterCore]
      exact emissions_measureFrame ..

theorem handleFrameWithMetrics_sound (k : Crypto) (n : NodeRouter e a t) (now : Duration)
    (ifaceIdx : Nat) (frame : LinkFrame) (metrics : LinkMetrics) (txLen : Nat)
    (out : FrameSink) :
    CentralRouter.Sound ifaceIdx frame
      (n.handleFrameWithMetrics k now ifaceIdx frame metrics txLen out).2.1 := by
  unfold handleFrameWithMetrics
  split
  · exact CentralRouter.sound_ofForward ifaceIdx frame none
  · exact CentralRouter.sound_handleFrame ..

theorem Keeps.refl (n : NodeRouter e a t) : n.Keeps n := ⟨.refl _, rfl⟩

theorem Keeps.trans {n' n'' : NodeRouter e a t} (h : n.Keeps n') (h' : n'.Keeps n'') :
    n.Keeps n'' := ⟨h.core.trans h'.core, h'.emissions.trans h.emissions⟩

theorem getEgressInterface_keeps (n : NodeRouter e a t) (now : Duration) (dest : Mac) :
    n.Keeps (n.getEgressInterface now dest).1 := by
  unfold getEgressInterface
  dsimp only
  repeat' split
  all_goals exact ⟨.refl _, rfl⟩

theorem resolveGroups_keeps (now : Duration) (n : NodeRouter e a t) (groups : List McastGroup) :
    n.Keeps (resolveGroups now n groups).1 := by
  induction groups generalizing n with
  | nil => exact .refl n
  | cons g rest ih => exact (getEgressInterface_keeps n now g.next).trans (ih _)

/-- What the driver makes of a stripped frame: what it offers names an interface only where
the gate was asked, a proof response apart, and what goes up is the frame's body. -/
def Follows (n : NodeRouter e a t) (idx : Nat) (frame : LinkFrame) (s s' : MeshSink) : Prop :=
  (∃ new, s'.offered = s.offered ++ new ∧ ∀ p ∈ new, p.1.Gated n.linkMayTx ∨
    p.1.egress = .iface idx ∧ bodyType p.1.protocol p.1.payload = some .nextHopResponse) ∧
  (s'.delivered = s.delivered ∨
    ∃ inner, CentralRouter.innerPayload frame.payload = some inner ∧
      s'.delivered = s.delivered ++ [inner])

theorem Follows.offers {idx : Nat} {frame : LinkFrame} {s s' s'' : MeshSink}
    (h : Follows n idx frame s s')
    (h' : s'.Offers (fun f => f.Gated n.linkMayTx ∨
      f.egress = .iface idx ∧ bodyType f.protocol f.payload = some .nextHopResponse) s'') :
    Follows n idx frame s s'' := by
  obtain ⟨⟨new, hoffered, hnew⟩, hdelivered⟩ := h
  obtain ⟨hquiet, new', hoffered', hnew'⟩ := h'
  refine ⟨⟨new ++ new', ?_, ?_⟩, ?_⟩
  · rw [hoffered', hoffered, List.append_assoc]
  · intro p hp
    rcases List.mem_append.mp hp with hold | hlate
    · exact hnew p hold
    · exact hnew' p hlate
  · rw [hquiet]
    exact hdelivered

theorem push_offers (c : McastCollector) (frame : LinkFrameData) (P : OutgoingFrame → Prop)
    (hauto : ∀ f, f.egress = .auto → P f) : c.sink.Offers P (c.push frame).1.sink := by
  unfold McastCollector.push
  split
  · exact MeshSink.offers_emit _ (hauto _ rfl)
  dsimp only
  split
  · exact .refl _
  · exact .refl _

theorem after_offers (c : McastCollector) (frames : List LinkFrameData)
    (P : OutgoingFrame → Prop) (hauto : ∀ f, f.egress = .auto → P f) :
    c.sink.Offers P (c.after frames).sink := by
  induction frames generalizing c with
  | nil => exact .refl _
  | cons frame rest ih => exact (push_offers c frame P hauto).trans (ih _)

theorem handleStripped_follows (k : Crypto) (n : NodeRouter e a t) (now : Duration) (idx : Nat)
    (frame : LinkFrame) (metrics : LinkMetrics) (txLen : Nat) (fanOut : List (Option FanOut))
    (sink : MeshSink) :
    Follows n idx frame sink
      (n.handleStripped k now idx frame metrics txLen fanOut sink).2 := by
  have hkept := handleFrameWithMetrics_keeps k n now idx frame metrics txLen
    (McastCollector.new sink).asFrameSink
  have hsound := handleFrameWithMetrics_sound k n now idx frame metrics txLen
    (McastCollector.new sink).asFrameSink
  unfold handleStripped
  dsimp only
  generalize n.handleFrameWithMetrics k now idx frame metrics txLen
    (McastCollector.new sink).asFrameSink = verdict at hkept hsound ⊢
  obtain ⟨n', rx, out⟩ := verdict
  dsimp only at hkept hsound ⊢
  let P : OutgoingFrame → Prop := fun f => f.Gated n.linkMayTx ∨
    f.egress = .iface idx ∧ bodyType f.protocol f.payload = some .nextHopResponse
  have hauto : ∀ f : OutgoingFrame, f.egress = .auto → P f := by
    intro f hf
    left
    intro i hi
    rw [hf] at hi
    cases hi
  have hcollected : sink.Offers P ((McastCollector.new sink).after out.frames).sink :=
    after_offers (McastCollector.new sink) out.frames P hauto
  generalize (McastCollector.new sink).after out.frames = collector at hcollected ⊢
  have hforwarded : sink.Offers P (match rx.forward with
      | some f => (collector.sink.emit
          ⟨f.dst, f.protocol, f.payload, rx.pinEgressIface.elim .auto .iface⟩).1
      | none => collector.sink) := by
    cases hforward : rx.forward with
    | none => exact hcollected
    | some f =>
      refine hcollected.trans (MeshSink.offers_emit _ ?_)
      cases hpin : rx.pinEgressIface with
      | none => exact hauto _ rfl
      | some i =>
        obtain ⟨rfl, htype⟩ := hsound.pinned i hpin
        exact .inr ⟨rfl, htype f hforward⟩
  generalize (match rx.forward with
      | some f => (collector.sink.emit
          ⟨f.dst, f.protocol, f.payload, rx.pinEgressIface.elim .auto .iface⟩).1
      | none => collector.sink) = sent at hforwarded ⊢
  obtain ⟨hquiet, hoffered⟩ := hforwarded
  have hdelivered : Follows n idx frame sink (match rx.deliverLocal with
      | some inner => sent.deliverLocal inner
      | none => sent) := by
    cases hlocal : rx.deliverLocal with
    | none => exact ⟨hoffered, .inl hquiet⟩
    | some inner =>
      refine ⟨hoffered, .inr ⟨inner, hsound.delivered inner hlocal, ?_⟩⟩
      exact congrArg (· ++ [inner]) hquiet
  split
  · exact hdelivered
  split
  · exact hdelivered
  · rename_i view hview
    refine hdelivered.offers ((flushMcastGroups_offers ..).mono ?_)
    intro f hgated
    left
    rw [← (hkept.trans (resolveGroups_keeps now n' collector.groups.toList)).linkMayTx]
    exact hgated

/-! ### What a directed frame must show -/

/-- The sub-types a frame needs no proof for. -/
def exempt : Option BatmanPacketType → Bool
  | some .ogm | some .bcast | some .keepalive | some .certReq | some .certReply => true
  | _ => false

theorem requiredProof_eq_none {payload : Bytes} (h : requiredProof payload = .none) :
    exempt (payload.head? >>= BatmanPacketType.fromU8) = true := by
  unfold requiredProof at h
  cases htype : payload.head? >>= BatmanPacketType.fromU8 with
  | none =>
    rw [htype] at h
    cases h
  | some type =>
    rw [htype] at h
    cases type with
    | mcast =>
      dsimp only at h
      split at h <;> cases h
    | _ => first | rfl | cases h

theorem withAuth_self {s : OgmAuth a} (hauth : n.core.auth = some s) : n.withAuth s = n := by
  unfold withAuth
  rw [← hauth]
  rfl

theorem stripDirected_cases {s : OgmAuth a} {frame : LinkFrame} (hauth : n.core.auth = some s)
    (hproto : frame.protocol = ethPBatman) (hproof : requiredProof frame.payload ≠ .none) :
    (∃ s', OgmAuth.OnlyMarks s s' ∧ n.stripDirected k frame = (n.withAuth s', none)) ∨
      ∃ body trailer s', frame.payload = body ++ trailer ∧
        trailer.length = (requiredProof frame.payload).trailerLen ∧
        OgmAuth.Vouches k s (requiredProof frame.payload) frame.src body trailer ∧
        OgmAuth.OnlyMarks s s' ∧
        n.stripDirected k frame = (n.withAuth s', some { frame with payload := body }) := by
  have hquiet : ∃ s', OgmAuth.OnlyMarks s s' ∧
      (n, (none : Option LinkFrame)) = (n.withAuth s', none) :=
    ⟨s, .refl s, by rw [withAuth_self hauth]⟩
  unfold stripDirected
  rw [hauth]
  dsimp only
  rw [if_neg (not_not.mpr hproto), if_neg hproof]
  split
  · exact .inl hquiet
  split
  · exact .inl hquiet
  split
  · exact .inl hquiet
  · rename_i hlen
    obtain ⟨honly, hvouched⟩ := OgmAuth.verifyProof_spec k s (requiredProof frame.payload)
      frame.src (frame.payload.take
        (frame.payload.length - (requiredProof frame.payload).trailerLen))
      (frame.payload.drop (frame.payload.length - (requiredProof frame.payload).trailerLen))
    split
    · rename_i hok
      refine .inr ⟨_, _, _, (List.take_append_drop _ _).symm, ?_, hvouched hok, honly, rfl⟩
      rw [List.length_drop]
      omega
    · exact .inl ⟨_, honly, rfl⟩

/-- On an authenticated node a frame of a directed sub-type either ends with nothing but the
marks of its sender moved, or it is taken apart into a body and the proof of it by the
neighbor that handed it over: what the router and the shell see then is that body alone. -/
theorem ingress_authenticated (k : Crypto) (n : NodeRouter e a t) (s : OgmAuth a)
    (hauth : n.core.auth = some s) (now : Duration) (idx : Nat) (frame : LinkFrame)
    (hdirected : frame.protocol = ethPBatman ∧
      exempt (CentralRouter.packetTypeOf frame) = false)
    (metrics : LinkMetrics) (txLen : Nat) (fanOut : List (Option FanOut)) (sink : MeshSink) :
    (∃ s', OgmAuth.OnlyMarks s s' ∧
      n.handleMeshFrame k now idx frame metrics txLen fanOut sink = (n.withAuth s', sink)) ∨
      ∃ body trailer s', frame.payload = body ++ trailer ∧
        trailer.length = (requiredProof frame.payload).trailerLen ∧
        OgmAuth.Vouches k s (requiredProof frame.payload) frame.src body trailer ∧
        OgmAuth.OnlyMarks s s' ∧
        n.handleMeshFrame k now idx frame metrics txLen fanOut sink =
          (n.withAuth s').handleStripped k now idx { frame with payload := body } metrics txLen
            fanOut sink ∧
        Follows n idx { frame with payload := body } sink
          (n.handleMeshFrame k now idx frame metrics txLen fanOut sink).2 := by
  obtain ⟨hproto, hexempt⟩ := hdirected
  have hproof : requiredProof frame.payload ≠ .none := by
    intro hnone
    have htype : CentralRouter.packetTypeOf frame =
        frame.payload.head? >>= BatmanPacketType.fromU8 := if_pos hproto
    rw [htype, requiredProof_eq_none hnone] at hexempt
    cases hexempt
  rcases stripDirected_cases (k := k) hauth hproto hproof with
    ⟨s', honly, hstrip⟩ | ⟨body, trailer, s', hpayload, hlen, hvouched, honly, hstrip⟩
  · left
    refine ⟨s', honly, ?_⟩
    unfold handleMeshFrame
    rw [hstrip]
  · right
    have hhandled : n.handleMeshFrame k now idx frame metrics txLen fanOut sink =
        (n.withAuth s').handleStripped k now idx { frame with payload := body } metrics txLen
          fanOut sink := by
      unfold handleMeshFrame
      rw [hstrip]
    refine ⟨body, trailer, s', hpayload, hlen, hvouched, honly, hhandled, ?_⟩
    rw [hhandled]
    exact handleStripped_follows k (n.withAuth s') now idx { frame with payload := body } metrics
      txLen fanOut sink

end NodeRouter

namespace SmallMesh

/-- A router with nothing but its auth state. -/
def routerOf (mac : Mac) (s : OgmAuth capacities) :
    NodeRouter BatmanEngine.smallCapacities capacities ⟨4, 4⟩ :=
  (NodeRouter.new _ _ _ mac).withAuth s

/-- Node 3, with node 2 in its cache. -/
def hearing3 : NodeRouter BatmanEngine.smallCapacities capacities ⟨4, 4⟩ := routerOf mac3 heard2

/-- A frame node 2 tagged for node 3. -/
def tagged5 : LinkFrame := ⟨mac3, mac2, ethPBatman, unicastFrame ++ trailer5⟩

/-- A shell that takes whatever it is offered. -/
def roomySink : MeshSink := ⟨[], [], fun _ _ => true⟩

theorem ingress_authenticated_tagged5 :
    (∃ s', OgmAuth.OnlyMarks heard2 s' ∧
      hearing3.handleMeshFrame pairwiseCrypto 0 0 tagged5 ⟨none, none, none⟩ 64 [] roomySink =
        (hearing3.withAuth s', roomySink)) ∨
      ∃ body trailer s', tagged5.payload = body ++ trailer ∧
        trailer.length = (requiredProof tagged5.payload).trailerLen ∧
        OgmAuth.Vouches pairwiseCrypto heard2 (requiredProof tagged5.payload) mac2 body trailer ∧
        OgmAuth.OnlyMarks heard2 s' ∧
        hearing3.handleMeshFrame pairwiseCrypto 0 0 tagged5 ⟨none, none, none⟩ 64 [] roomySink =
          (hearing3.withAuth s').handleStripped pairwiseCrypto 0 0
            { tagged5 with payload := body } ⟨none, none, none⟩ 64 [] roomySink ∧
        NodeRouter.Follows hearing3 0 { tagged5 with payload := body } roomySink
          (hearing3.handleMeshFrame pairwiseCrypto 0 0 tagged5 ⟨none, none, none⟩ 64 []
            roomySink).2 :=
  NodeRouter.ingress_authenticated pairwiseCrypto hearing3 heard2 rfl 0 0 tagged5 (by decide)
    ⟨none, none, none⟩ 64 [] roomySink

end SmallMesh

end Wayfinder

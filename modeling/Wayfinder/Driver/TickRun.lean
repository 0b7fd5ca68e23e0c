import Mathlib.Data.List.Forall2
import Mathlib.Logic.Relation
import Wayfinder.Driver.Agreement
import Wayfinder.Driver.Tick

/-!
# What a stepped driver puts out

Over every run: a frame on an interface is one its gate lets through, framed with the
driver's own address and, while there is an auth state, with the trailer its router wrote for
it; what goes up to the host is what its router left of frames pushed in, each at most once
and in order; and a locked driver is silent. The router meant is the one of that moment: one
the driver's own came to by what the calls of the run are made of.
-/

namespace Wayfinder

set_option autoImplicit false

/-- A frame an interface took in. -/
abbrev Heard := Nat × LinkFrame

/-! ### The routers of a run -/

namespace NodeRouter

variable {e : Capacities} {a : AuthCapacities} {t : TableCapacities} {k : Crypto}
  {n n' : NodeRouter e a t} {heard heard' : List Heard}

/-- What a driver does with its router, `heard` being the frames it took in. -/
inductive Moves (k : Crypto) (heard : List Heard) : NodeRouter e a t → NodeRouter e a t → Prop
  | setAuthTime (n : NodeRouter e a t) (now : Duration) (wall : Clocked) :
    Moves k heard n (n.setAuthTime now wall)
  | handleMeshFrame (n : NodeRouter e a t) (now : Duration) {h : Heard} (hheard : h ∈ heard)
      (metrics : LinkMetrics) (txLen : Nat) (fanOut : List (Option FanOut)) (sink : MeshSink) :
    Moves k heard n (n.handleMeshFrame k now h.1 h.2 metrics txLen fanOut sink).1
  | planLocalSend (now : Duration) (st : NodeRouter e a t × MeshSink) (send : Mac × Bytes) :
    Moves k heard st.1 (planLocalSend now st send).1
  | ogmTurn (now : Duration) (txLen : Nat) (st : NodeRouter e a t × MeshSink) :
    Moves k heard st.1 (ogmTurn k now txLen st).1.1
  | keepaliveTurn (now : Duration) (txLen : Nat) (st : NodeRouter e a t × MeshSink) :
    Moves k heard st.1 (keepaliveTurn k now txLen st).1.1
  | challengeTurn (now : Duration) (txLen ifaces : Nat) (st : NodeRouter e a t × MeshSink) :
    Moves k heard st.1 (challengeTurn k now txLen ifaces st).1.1
  | pollDuePings (now : Duration) (txLen : Nat) (st : NodeRouter e a t × MeshSink) :
    Moves k heard st.1 (pollDuePings now txLen st).1
  | pollDueRenewal (now : Duration) (txLen : Nat) (st : NodeRouter e a t × MeshSink) :
    Moves k heard st.1 (pollDueRenewal k now txLen st).1
  | takeRenewalRequest (n : NodeRouter e a t) : Moves k heard n n.takeRenewalRequest.1
  | planDispatch (n : NodeRouter e a t) (now : Duration) (dst : Mac) (protocol : U16)
      (egress : Egress) (body : Bytes) (bufLen numInterfaces : Nat) :
    Moves k heard n (n.planDispatch k now dst protocol egress body bufLen numInterfaces).1

/-- The routers a driver's router comes to. -/
abbrev Onward (k : Crypto) (heard : List Heard) : NodeRouter e a t → NodeRouter e a t → Prop :=
  Relation.ReflTransGen (Moves k heard)

theorem Moves.mono (h : Moves k heard n n') (hsub : heard ⊆ heard') : Moves k heard' n n' := by
  cases h with
  | setAuthTime _ now wall => exact .setAuthTime n now wall
  | handleMeshFrame _ now hheard metrics txLen fanOut sink =>
    exact .handleMeshFrame n now (hsub hheard) metrics txLen fanOut sink
  | planLocalSend now st send => exact .planLocalSend now st send
  | ogmTurn now txLen st => exact .ogmTurn now txLen st
  | keepaliveTurn now txLen st => exact .keepaliveTurn now txLen st
  | challengeTurn now txLen ifaces st => exact .challengeTurn now txLen ifaces st
  | pollDuePings now txLen st => exact .pollDuePings now txLen st
  | pollDueRenewal now txLen st => exact .pollDueRenewal now txLen st
  | takeRenewalRequest => exact .takeRenewalRequest n
  | planDispatch _ now dst protocol egress body bufLen numInterfaces =>
    exact .planDispatch n now dst protocol egress body bufLen numInterfaces

theorem Onward.mono (h : Onward k heard n n') (hsub : heard ⊆ heard') : Onward k heard' n n' :=
  Relation.ReflTransGen.mono (fun _ _ (hmove : Moves k heard _ _) => hmove.mono hsub) _ _ h

/-- The payload is what a router on the way left of the frame. -/
def Brings (k : Crypto) (n : NodeRouter e a t) (heard : List Heard) (inner : Bytes) (h : Heard) :
    Prop :=
  ∃ n' frame, Onward k heard n n' ∧ (n'.stripDirected k h.2).2 = some frame ∧
    CentralRouter.innerPayload frame.payload = some inner

theorem Brings.mono {inner : Bytes} {h : Heard} (hbrings : Brings k n' heard inner h)
    (honward : Onward k heard' n n') (hsub : heard ⊆ heard') : Brings k n heard' inner h := by
  obtain ⟨last, frame, hlast, hframe, hinner⟩ := hbrings
  exact ⟨last, frame, honward.trans (hlast.mono hsub), hframe, hinner⟩

end NodeRouter

/-- A planned frame names an interface only where the gate was asked, or is a proof response
that returns where its challenge came from. -/
def OutgoingFrame.Planned (mayTx : Nat → Option BatmanPacketType → Bool) (heard : List Heard)
    (f : OutgoingFrame) : Prop :=
  f.Gated mayTx ∨ ∃ h ∈ heard, f.egress = .iface h.1 ∧
    bodyType f.protocol f.payload = some .nextHopResponse

theorem OutgoingFrame.Planned.mono {mayTx : Nat → Option BatmanPacketType → Bool}
    {heard heard' : List Heard} {f : OutgoingFrame} (h : f.Planned mayTx heard)
    (hsub : heard ⊆ heard') : f.Planned mayTx heard' := by
  rcases h with hgated | ⟨from', hfrom, hback⟩
  · exact .inl hgated
  · exact .inr ⟨from', hsub hfrom, hback⟩

theorem sublistForall₂_imp {α β : Type} {R S : α → β → Prop} (hRS : ∀ x y, R x y → S x y)
    {xs : List α} {ys : List β} (h : List.SublistForall₂ R xs ys) :
    List.SublistForall₂ S xs ys := by
  rw [List.sublistForall₂_iff] at h ⊢
  obtain ⟨zs, hzs, hsub⟩ := h
  exact ⟨zs, hzs.imp hRS, hsub⟩

theorem sublistForall₂_append {α β : Type} {R : α → β → Prop} {xs xs' : List α}
    {ys ys' : List β} (h : List.SublistForall₂ R xs ys) (h' : List.SublistForall₂ R xs' ys') :
    List.SublistForall₂ R (xs ++ xs') (ys ++ ys') := by
  rw [List.sublistForall₂_iff] at h h' ⊢
  obtain ⟨zs, hzs, hsub⟩ := h
  obtain ⟨zs', hzs', hsub'⟩ := h'
  exact ⟨zs ++ zs', List.rel_append hzs hzs', hsub.append hsub'⟩

/-! ### The planning of one step -/

namespace NodeRouter

variable {e : Capacities} {a : AuthCapacities} {t : TableCapacities} {k : Crypto}
  {now : Duration}

/-- Part of the planning, `heard` being the frames it took in. -/
structure Plans (k : Crypto) (heard : List Heard) (st st' : NodeRouter e a t × MeshSink) :
    Prop where
  keeps : st.1.Keeps st'.1
  onward : Onward k heard st.1 st'.1
  offered : ∃ new, st'.2.offered = st.2.offered ++ new ∧
    ∀ p ∈ new, p.1.Planned st.1.linkMayTx heard
  delivered : ∃ up, st'.2.delivered = st.2.delivered ++ up ∧
    List.SublistForall₂ (Brings k st.1 heard) up heard
  inert : st.1.core.Inert → st'.1.core.Inert
  mute : st.1.core.Inert → st.1.core.authLocked = true → st'.2 = st.2

theorem Plans.trans {heard heard' : List Heard} {st st' st'' : NodeRouter e a t × MeshSink}
    (h : Plans k heard st st') (h' : Plans k heard' st' st'') :
    Plans k (heard ++ heard') st st'' where
  keeps := h.keeps.trans h'.keeps
  onward :=
    (h.onward.mono (List.subset_append_left _ _)).trans
      (h'.onward.mono (List.subset_append_right _ _))
  offered := by
    obtain ⟨new, hoffered, hnew⟩ := h.offered
    obtain ⟨new', hoffered', hnew'⟩ := h'.offered
    refine ⟨new ++ new', ?_, ?_⟩
    · rw [hoffered', hoffered, List.append_assoc]
    · intro p hp
      rcases List.mem_append.mp hp with hold | hlate
      · exact (hnew p hold).mono (List.subset_append_left _ _)
      · have hplanned := hnew' p hlate
        rw [h.keeps.linkMayTx] at hplanned
        exact hplanned.mono (List.subset_append_right _ _)
  delivered := by
    obtain ⟨up, hdelivered, hup⟩ := h.delivered
    obtain ⟨up', hdelivered', hup'⟩ := h'.delivered
    have honward := h.onward.mono (List.subset_append_left heard heard')
    refine ⟨up ++ up', ?_, sublistForall₂_append ?_ ?_⟩
    · rw [hdelivered', hdelivered, List.append_assoc]
    · exact sublistForall₂_imp
        (fun _ _ hb => hb.mono .refl (List.subset_append_left _ _)) hup
    · exact sublistForall₂_imp
        (fun _ _ hb => hb.mono honward (List.subset_append_right _ _)) hup'
  inert hinert := h'.inert (h.inert hinert)
  mute hinert hlocked :=
    (h'.mute (h.inert hinert) (h.keeps.core.locked hlocked)).trans (h.mute hinert hlocked)

end NodeRouter

namespace TickDriver

variable {e : Capacities} {a : AuthCapacities} {t : TableCapacities} {k : Crypto}
  {now : Duration}

open NodeRouter

/-- The frames waiting for the next step. -/
def pending (d : TickDriver e a t) : List Heard := d.rxQueue.map fun q => (q.idx, q.frame)

/-- The proof a body must carry once it is in a frame of this protocol. -/
def proofOf (protocol : U16) (body : Bytes) : RequiredProof :=
  if protocol = ethPBatman then requiredProof body else .none

/-- The payload is what this router makes of the body: without an auth state, or where no
proof is due, the body itself; else the body with the trailer written for it and its next hop
behind it. -/
def Carries (k : Crypto) (n : NodeRouter e a t) (dst : Mac) (protocol : U16)
    (body payload : Bytes) : Prop :=
  match n.core.auth with
  | none => payload = body
  | some s => proofOf protocol body = .none ∧ payload = body ∨
    ∃ s' trailer, s.writeProof k (proofOf protocol body) dst body = (s', some trailer) ∧
      payload = body ++ trailer

/-- The bytes are a frame of this driver that the interface lets through, or a proof response
on the interface its challenge came by; a router on the way made its payload, one with an auth
state if the driver is armed yet. -/
def Sent (k : Crypto) (n : NodeRouter e a t) (mac : Mac) (heard : List Heard) (armed : Prop)
    (idx : Nat) (wire : Bytes) : Prop :=
  ∃ n' dst protocol body payload, Onward k heard n n' ∧ (armed → n'.core.auth ≠ none) ∧
    LinkFrame.refFromBytes wire = some ⟨dst, mac, protocol, payload⟩ ∧
    Carries k n' dst protocol body payload ∧
    (n.linkMayTx idx (bodyType protocol body) = true ∨
      bodyType protocol body = some .nextHopResponse ∧ ∃ h ∈ heard, h.1 = idx)

theorem Sent.mono {n n' : NodeRouter e a t} {mac : Mac} {heard heard' : List Heard}
    {armed armed' : Prop} {idx : Nat} {wire : Bytes} (h : Sent k n' mac heard armed idx wire)
    (hkeeps : n.Keeps n') (honward : Onward k heard' n n') (hsub : heard ⊆ heard')
    (harmed : armed' → armed) : Sent k n mac heard' armed' idx wire := by
  obtain ⟨last, dst, protocol, body, payload, hlast, hauth, hwire, hcarries, hgate⟩ := h
  refine ⟨last, dst, protocol, body, payload, honward.trans (hlast.mono hsub),
    fun h => hauth (harmed h), hwire, hcarries, ?_⟩
  rcases hgate with hmay | ⟨htype, from', hfrom, hidx⟩
  · rw [← hkeeps.linkMayTx]
    exact .inl hmay
  · exact .inr ⟨htype, from', hsub hfrom, hidx⟩

/-- What a dispatch leaves of a driver: more on its interfaces, and a router that keeps what it
keeps. -/
structure Puts (k : Crypto) (heard : List Heard) (d d' : TickDriver e a t) : Prop where
  keeps : d.router.Keeps d'.router
  onward : Onward k heard d.router d'.router
  inert : d.router.core.Inert → d'.router.core.Inert
  rest : d' = { d with router := d'.router, egress := d'.egress }
  egress : ∀ idx, ∃ new, d'.egress.getD idx [] = d.egress.getD idx [] ++ new ∧
    ∀ wire ∈ new, Sent k d.router d.mac heard (d'.router.core.auth ≠ none) idx wire

theorem Puts.refl (heard : List Heard) (d : TickDriver e a t) : Puts k heard d d :=
  ⟨.refl _, .refl, id, rfl,
    fun _ => ⟨[], (List.append_nil _).symm, fun _ h => absurd h List.not_mem_nil⟩⟩

theorem Puts.trans {heard : List Heard} {d d' d'' : TickDriver e a t} (h : Puts k heard d d')
    (h' : Puts k heard d' d'') : Puts k heard d d'' where
  keeps := h.keeps.trans h'.keeps
  onward := h.onward.trans h'.onward
  inert hinert := h'.inert (h.inert hinert)
  rest := by
    rw [h'.rest, h.rest]
  egress idx := by
    obtain ⟨new, hqueue, hnew⟩ := h.egress idx
    obtain ⟨new', hqueue', hnew'⟩ := h'.egress idx
    refine ⟨new ++ new', by rw [hqueue', hqueue, List.append_assoc], ?_⟩
    intro wire hwire
    rcases List.mem_append.mp hwire with hold | hlate
    · refine (hnew wire hold).mono (.refl _) .refl (List.Subset.refl _) ?_
      intro harmed hnone
      exact harmed (h'.keeps.core.unarmed hnone)
    · have hsent := hnew' wire hlate
      have hmac : d'.mac = d.mac := by rw [h.rest]
      rw [hmac] at hsent
      exact hsent.mono h.keeps h.onward (List.Subset.refl _) id

theorem getD_sendOn (d : TickDriver e a t) (i : Nat) (dst : Mac) (protocol : U16)
    (payload : Bytes) (idx : Nat) :
    ∃ new, (d.sendOn i dst protocol payload).egress.getD idx [] = d.egress.getD idx [] ++ new ∧
      ∀ wire ∈ new, i = idx ∧
        LinkFrame.refFromBytes wire = some ⟨dst, d.mac, protocol, payload⟩ := by
  unfold sendOn
  dsimp only
  rw [List.getD_eq_getElem?_getD, List.getD_eq_getElem?_getD, List.getElem?_modify]
  cases hqueue : d.egress[idx]? with
  | none =>
    exact ⟨[], by simp, fun _ h => absurd h List.not_mem_nil⟩
  | some queue =>
    by_cases hidx : i = idx
    · refine ⟨[(LinkFrame.mk dst d.mac protocol payload).asBytes], by simp [hidx], ?_⟩
      intro wire hwire
      obtain rfl := List.mem_singleton.mp hwire
      exact ⟨hidx, LinkFrame.refFromBytes_asBytes _⟩
    · exact ⟨[], by simp [hidx], fun _ h => absurd h List.not_mem_nil⟩

theorem Puts.sendOn {heard : List Heard} {d d' : TickDriver e a t} (h : Puts k heard d d')
    {i : Nat} {dst : Mac} {protocol : U16} {payload : Bytes}
    (hsent : (d'.router.core.auth ≠ none → d.router.core.auth ≠ none) → ∀ wire,
      LinkFrame.refFromBytes wire = some ⟨dst, d.mac, protocol, payload⟩ →
        Sent k d.router d.mac heard (d'.router.core.auth ≠ none) i wire) :
    Puts k heard d (d'.sendOn i dst protocol payload) where
  keeps := h.keeps
  onward := h.onward
  inert := h.inert
  rest := congrArg (fun x : TickDriver e a t =>
    { x with egress := (d'.sendOn i dst protocol payload).egress }) h.rest
  egress idx := by
    have hmac : d'.mac = d.mac := by rw [h.rest]
    obtain ⟨new, hqueue, hnew⟩ := h.egress idx
    obtain ⟨last, hlast, hwire⟩ := d'.getD_sendOn i dst protocol payload idx
    refine ⟨new ++ last, by rw [hlast, hqueue, List.append_assoc], ?_⟩
    intro wire hmem
    rcases List.mem_append.mp hmem with hold | hlate
    · exact hnew wire hold
    · obtain ⟨rfl, hparsed⟩ := hwire wire hlate
      rw [hmac] at hparsed
      exact hsent (fun harmed hnone => harmed (h.keeps.core.unarmed hnone)) wire hparsed

/-- What a call hands out of an interface. -/
def carried (idx : Nat) (outs : List (TickOp × Option Bytes)) : List Bytes :=
  outs.filterMap fun p => match p.1 with
    | .pollEgress i => if i = idx then p.2 else none
    | _ => none

/-- What a call hands up to the host. -/
def handedUp (outs : List (TickOp × Option Bytes)) : List Bytes :=
  outs.filterMap fun p => match p.1 with
    | .pollLocal => p.2
    | _ => none

/-- The frames a call hands in; bytes that are no frame are refused. -/
def handedIn (outs : List (TickOp × Option Bytes)) : List Heard :=
  outs.filterMap fun p => match p.1 with
    | .pushRx idx _ bytes => (LinkFrame.refFromBytes bytes).map fun frame => (idx, frame)
    | _ => none

/-- What calls that handed out `outs` leave of a driver: each queue is drained from the front
and filled at the back, an interface with what may be sent there, and the host's with what
frames that were taken in brought; a locked driver fills none. -/
structure Advances (k : Crypto) (d : TickDriver e a t) (outs : List (TickOp × Option Bytes))
    (d' : TickDriver e a t) : Prop where
  keeps : d.router.Keeps d'.router
  onward : Onward k (d.pending ++ handedIn outs) d.router d'.router
  inert : d.router.core.Inert → d'.router.core.Inert
  mac : d'.mac = d.mac
  egress : ∀ idx, ∃ new, carried idx outs ++ d'.egress.getD idx [] = d.egress.getD idx [] ++ new ∧
    (∀ wire ∈ new, Sent k d.router d.mac (d.pending ++ handedIn outs)
      (d'.router.core.auth ≠ none) idx wire) ∧
    (d.router.core.Inert → d.router.core.authLocked = true → new = [])
  host : ∃ up taken, handedUp outs ++ d'.localRx = d.localRx ++ up ∧
    taken ++ d'.pending = d.pending ++ handedIn outs ∧
    List.SublistForall₂ (Brings k d.router (d.pending ++ handedIn outs)) up taken ∧
    (d.router.core.Inert → d.router.core.authLocked = true → up = [])

section Frames
variable {d d' : TickDriver e a t} {outs outs' : List (TickOp × Option Bytes)}

/-- What was there at first or handed in earlier was handed in. -/
theorem heard_earlier : d.pending ++ handedIn outs ⊆ d.pending ++ handedIn (outs ++ outs') := by
  unfold handedIn
  rw [List.filterMap_append, ← List.append_assoc]
  exact List.subset_append_left _ _

theorem Advances.heard_later (h : Advances k d outs d') :
    d'.pending ++ handedIn outs' ⊆ d.pending ++ handedIn (outs ++ outs') := by
  obtain ⟨-, taken, -, htaken, -, -⟩ := h.host
  have hpending : d'.pending ⊆ d.pending ++ handedIn outs := by
    rw [← htaken]
    exact List.subset_append_right _ _
  unfold handedIn at hpending ⊢
  rw [List.filterMap_append, ← List.append_assoc]
  exact List.append_subset.mpr ⟨List.Subset.trans hpending (List.subset_append_left _ _),
    List.subset_append_right _ _⟩

end Frames

theorem Advances.trans {d d' d'' : TickDriver e a t} {outs outs' : List (TickOp × Option Bytes)}
    (h : Advances k d outs d') (h' : Advances k d' outs' d'') :
    Advances k d (outs ++ outs') d'' where
  keeps := h.keeps.trans h'.keeps
  onward := (h.onward.mono heard_earlier).trans (h'.onward.mono h.heard_later)
  inert hinert := h'.inert (h.inert hinert)
  mac := h'.mac.trans h.mac
  egress idx := by
    obtain ⟨new, hqueue, hnew, hmute⟩ := h.egress idx
    obtain ⟨new', hqueue', hnew', hmute'⟩ := h'.egress idx
    refine ⟨new ++ new', ?_, ?_, ?_⟩
    · unfold carried at hqueue hqueue' ⊢
      rw [List.filterMap_append, List.append_assoc, hqueue', ← List.append_assoc, hqueue,
        List.append_assoc]
    · intro wire hwire
      rcases List.mem_append.mp hwire with hold | hlate
      · exact (hnew wire hold).mono (.refl _) .refl heard_earlier fun harmed hnone =>
          harmed (h'.keeps.core.unarmed hnone)
      · have hsent := hnew' wire hlate
        rw [h.mac] at hsent
        exact hsent.mono h.keeps (h.onward.mono heard_earlier) h.heard_later id
    · intro hinert hlocked
      rw [hmute hinert hlocked, hmute' (h.inert hinert) (h.keeps.core.locked hlocked)]
      rfl
  host := by
    obtain ⟨up, taken, hlocal, htaken, hbrings, hmute⟩ := h.host
    obtain ⟨up', taken', hlocal', htaken', hbrings', hmute'⟩ := h'.host
    refine ⟨up ++ up', taken ++ taken', ?_, ?_, sublistForall₂_append ?_ ?_, ?_⟩
    · unfold handedUp at hlocal hlocal' ⊢
      rw [List.filterMap_append, List.append_assoc, hlocal', ← List.append_assoc, hlocal,
        List.append_assoc]
    · unfold handedIn at htaken htaken' ⊢
      rw [List.filterMap_append, List.append_assoc, htaken', ← List.append_assoc, htaken,
        List.append_assoc]
    · exact sublistForall₂_imp (fun _ _ hb => hb.mono .refl heard_earlier) hbrings
    · exact sublistForall₂_imp
        (fun _ _ hb => hb.mono (h.onward.mono heard_earlier) h.heard_later) hbrings'
    · intro hinert hlocked
      rw [hmute hinert hlocked, hmute' (h.inert hinert) (h.keeps.core.locked hlocked)]
      rfl

end TickDriver

namespace SmallMesh

end SmallMesh

end Wayfinder

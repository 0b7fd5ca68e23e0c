import Wayfinder.Forwarding

/-!
# Forwarding a sub-type this build does not know

The link destination of such a frame stands for the node it is meant for, and a relay
routes by it. It forwards the frame under the address of the next hop, so the next hop
finds itself addressed: whatever the chain, the frame ends at the second node on it, cut
to the scratchpad of the first.
-/

namespace Wayfinder

set_option autoImplicit false

open CentralRouter

structure Station where
  e : Capacities
  a : AuthCapacities
  router : CentralRouter e a
  now : Duration
  ifaceIdx : Nat
  localQuality : Option U8
  txLen : Nat

namespace Station

def addr (s : Station) : Mac := s.router.batman.selfIdent

def engine (s : Station) : BatmanEngine s.e :=
  (s.router.applySelfRevocation.1.actOnTrickleHint s.now).batman

def lets (s : Station) (frame : LinkFrame) : Bool :=
  s.router.admitsFrame s.ifaceIdx frame && !s.router.applySelfRevocation.2

def hears (k : Crypto) (s : Station) (frame : LinkFrame) : RxOutcome :=
  (s.router.handleFrame k s.now s.ifaceIdx frame s.localQuality s.txLen .unbounded).2.1

def relayed (s : Station) (next : Mac) (frame : LinkFrame) : LinkFrame :=
  ⟨next, s.addr, ethPBatman, frame.payload.take s.txLen⟩

end Station

/-- The local deliveries a frame comes to along a chain of routers, each of which hears
what the one before it sends. -/
def journey (k : Crypto) : List Station → LinkFrame → List (Mac × Bytes)
  | [], _ => []
  | s :: rest, frame =>
    let outcome := s.hears k frame
    match outcome.deliverLocal, outcome.forward with
    | some inner, _ => [(s.addr, inner)]
    | none, some sent => journey k rest ⟨sent.dst, s.addr, sent.protocol, sent.payload⟩
    | none, none => []

/-- Each router's next hop toward the destination is the next on the chain, and the
destination is the last. -/
structure Consistent (dest : Mac) (chain : List Station) : Prop where
  hops : chain.IsChain fun s s' => s.engine.nextHop s.now dest = some s'.addr
  ends : chain.getLast?.map Station.addr = some dest

theorem BatmanEngine.selfIdent_revokeOriginators {c : Capacities} (e : BatmanEngine c)
    (revoked : List Mac) : (e.revokeOriginators revoked).selfIdent = e.selfIdent := by
  induction revoked generalizing e with
  | nil => rfl
  | cons mac rest ih => exact ih (e.revokeOriginator mac)

namespace Station
variable {k : Crypto} {s : Station} {frame : LinkFrame}

theorem selfIdent_engine : s.engine.selfIdent = s.addr := by
  have hrevoked : s.router.applySelfRevocation.1.batman.selfIdent = s.addr := by
    unfold applySelfRevocation
    split
    · rfl
    split <;> rfl
  rw [← hrevoked]
  unfold engine actOnTrickleHint
  split
  · rfl
  split
  · rfl
  · exact BatmanEngine.selfIdent_revokeOriginators _ _

theorem tags_of_unknown (h : BatmanEngine.rxSubtype frame = some none) :
    frame.protocol = ethPBatman ∧ ∃ tag rest, frame.payload = tag :: batmanVersion :: rest ∧
      BatmanPacketType.fromU8 tag = none := by
  unfold BatmanEngine.rxSubtype at h
  split at h
  · rename_i tag version rest hpayload
    split at h
    · cases h
    rename_i hours
    obtain ⟨hprotocol, hversion⟩ := not_or.mp hours
    exact ⟨not_not.mp hprotocol, tag, rest, by rw [hpayload, not_not.mp hversion],
      Option.some.inj h⟩
  · cases h

theorem packetTypeOf_of_unknown (h : BatmanEngine.rxSubtype frame = some none) :
    packetTypeOf frame = none := by
  obtain ⟨hprotocol, tag, rest, hpayload, htag⟩ := tags_of_unknown h
  unfold packetTypeOf
  rw [if_pos hprotocol, hpayload]
  exact htag

theorem innerPayload_of_unknown (h : BatmanEngine.rxSubtype frame = some none) :
    innerPayload frame.payload = some frame.payload := by
  obtain ⟨_, tag, rest, hpayload, htag⟩ := tags_of_unknown h
  have hoffset : innerOffset frame.payload = 0 := by
    unfold innerOffset
    rw [hpayload, List.head?_cons, Option.bind_eq_bind, Option.bind_some, htag]
  unfold innerPayload innerBody
  rw [hoffset, if_pos (Nat.zero_le _), List.drop_zero]

theorem routeFrame_unknown {e : Capacities} {a : AuthCapacities} (r : CentralRouter e a)
    (h : BatmanEngine.rxSubtype frame = some none) (now : Duration) (ifaceIdx : Nat)
    (localQuality : Option U8) (txLen : Nat) (out : FrameSink) :
    (r.routeFrame k now ifaceIdx frame localQuality txLen out).2.1 =
      if frame.dst = r.batman.selfIdent then ⟨none, some frame.payload, none⟩
      else
        match r.batman.nextHop now frame.dst with
        | some next => .ofForward (some ⟨next, ethPBatman, frame.payload.take txLen⟩)
        | none => .empty := by
  have htype := packetTypeOf_of_unknown h
  have hrx : r.batman.handleRx now frame localQuality txLen out =
      ⟨r.batman, r.batman.routeByDest now frame, none, out⟩ := by
    unfold BatmanEngine.handleRx
    rw [h]
  unfold routeFrame
  rw [hrx]
  unfold BatmanEngine.routeByDest
  by_cases hself : frame.dst = r.batman.selfIdent
  · rw [if_pos hself, if_pos hself]
    unfold CentralRouter.deliver
    simp only [htype, innerPayload_of_unknown h]
  · rw [if_neg hself, if_neg hself]
    cases hnext : r.batman.nextHop now frame.dst with
    | some next => rfl
    | none =>
      unfold flushParked
      simp only [htype]
      rfl

theorem hears_unknown (h : BatmanEngine.rxSubtype frame = some none) :
    s.hears k frame =
      if s.lets frame then
        if frame.dst = s.addr then ⟨none, some frame.payload, none⟩
        else
          match s.engine.nextHop s.now frame.dst with
          | some next => .ofForward (some ⟨next, ethPBatman, frame.payload.take s.txLen⟩)
          | none => .empty
      else .empty := by
  have hjudged : s.router.judgeFrame k s.now s.ifaceIdx frame s.txLen = (s.router, none) := by
    unfold judgeFrame
    rw [packetTypeOf_of_unknown h]
  have hself := @selfIdent_engine s
  unfold engine at hself
  unfold hears handleFrame lets engine
  cases hadmits : s.router.admitsFrame s.ifaceIdx frame with
  | false => rfl
  | true =>
    simp only [Bool.not_true, Bool.false_eq_true, if_false, Bool.true_and, hjudged]
    generalize s.router.applySelfRevocation = applied at hself
    obtain ⟨r, _ | _⟩ := applied
    · rw [← hself]
      exact routeFrame_unknown _ h _ _ _ _ _
    · rfl

end Station

namespace Station
variable {k : Crypto} {s s' : Station} {frame : LinkFrame}

/-- A frame cut to the scratchpad is of the same sub-type, or no BATMAN frame at all. -/
theorem rxSubtype_relayed (h : BatmanEngine.rxSubtype frame = some none) (next : Mac) :
    BatmanEngine.rxSubtype (s.relayed next frame) = if 2 ≤ s.txLen then some none else none := by
  obtain ⟨_, tag, rest, hpayload, htag⟩ := tags_of_unknown h
  unfold relayed BatmanEngine.rxSubtype
  rw [hpayload]
  match s.txLen with
  | 0 => rfl
  | 1 => rfl
  | n + 2 =>
    rw [if_pos (by omega)]
    simp [htag]

theorem packetTypeOf_relayed (h : BatmanEngine.rxSubtype frame = some none) (next : Mac) :
    packetTypeOf (s.relayed next frame) = none := by
  obtain ⟨_, tag, rest, hpayload, htag⟩ := tags_of_unknown h
  unfold relayed packetTypeOf
  rw [if_pos rfl, hpayload]
  match s.txLen with
  | 0 => rfl
  | n + 1 => exact htag

theorem hears_none (htype : packetTypeOf frame = none)
    (hsub : BatmanEngine.rxSubtype frame = none) : s.hears k frame = .empty := by
  have hjudged : s.router.judgeFrame k s.now s.ifaceIdx frame s.txLen = (s.router, none) := by
    unfold judgeFrame
    rw [htype]
  unfold hears handleFrame
  split
  · rfl
  rw [hjudged]
  dsimp only
  split
  · rfl
  · unfold routeFrame BatmanEngine.handleRx
    rw [hsub]
    unfold flushParked
    simp only [htype]
    rfl

end Station

/-! ### Along the chain -/

/-- Whatever is delivered is delivered at the destination, whole. -/
def ArrivesWhole (k : Crypto) (chain : List Station) (frame : LinkFrame) : Prop :=
  ∀ d ∈ journey k chain frame, d = (frame.dst, frame.payload)

/-- Unless one of the first two routers drops the frame, the second is its destination and
the scratchpad of the first holds it whole. -/
def WithinOneRelay : List Station → LinkFrame → Prop
  | s :: s' :: _, frame =>
    s.addr ≠ frame.dst → s.lets frame = true → s'.lets (s.relayed s'.addr frame) = true →
      2 ≤ s.txLen → s'.addr = frame.dst ∧ frame.payload.length ≤ s.txLen
  | _, _ => True

section Chain
variable {k : Crypto} {s s' : Station} {rest : List Station} {frame : LinkFrame}

theorem journey_named (hunknown : BatmanEngine.rxSubtype frame = some none)
    (hnamed : frame.dst = s.addr) :
    journey k (s :: rest) frame = if s.lets frame then [(s.addr, frame.payload)] else [] := by
  rw [journey, Station.hears_unknown hunknown, if_pos hnamed]
  by_cases hlets : s.lets frame = true
  · rw [if_pos hlets, if_pos hlets]
  · rw [if_neg hlets, if_neg hlets]
    rfl

theorem journey_relayed (hunknown : BatmanEngine.rxSubtype frame = some none)
    (hother : frame.dst ≠ s.addr) (hnext : s.engine.nextHop s.now frame.dst = some s'.addr) :
    journey k (s :: rest) frame =
      if s.lets frame then journey k rest (s.relayed s'.addr frame) else [] := by
  rw [journey, Station.hears_unknown hunknown, if_neg hother, hnext]
  by_cases hlets : s.lets frame = true
  · rw [if_pos hlets, if_pos hlets]
    rfl
  · rw [if_neg hlets, if_neg hlets]
    rfl

theorem journey_handed (hunknown : BatmanEngine.rxSubtype frame = some none) :
    journey k (s' :: rest) (s.relayed s'.addr frame) =
      if s'.lets (s.relayed s'.addr frame) ∧ 2 ≤ s.txLen then
        [(s'.addr, frame.payload.take s.txLen)] else [] := by
  have hsub := @Station.rxSubtype_relayed s frame hunknown s'.addr
  by_cases hroom : 2 ≤ s.txLen
  · rw [if_pos hroom] at hsub
    rw [journey_named hsub rfl]
    simp only [hroom, and_true]
    rfl
  · rw [if_neg hroom] at hsub
    rw [if_neg (fun h => hroom h.2), journey,
      Station.hears_none (Station.packetTypeOf_relayed hunknown s'.addr) hsub]
    rfl

end Chain

/-- A frame of an unknown sub-type keeps its meaning along a chain exactly when the chain
has at most the one relay. -/
theorem unknown_arrives_iff (k : Crypto) (chain : List Station) (frame : LinkFrame)
    (hunknown : BatmanEngine.rxSubtype frame = some none)
    (hconsistent : Consistent frame.dst chain) :
    ArrivesWhole k chain frame ↔ WithinOneRelay chain frame := by
  match chain, hconsistent with
  | [], _ => exact ⟨fun _ => trivial, fun _ d hd => nomatch hd⟩
  | [s], hconsistent =>
    have hnamed : frame.dst = s.addr := (Option.some.inj hconsistent.ends).symm
    refine ⟨fun _ => trivial, fun _ d hd => ?_⟩
    rw [journey_named hunknown hnamed] at hd
    split at hd
    · rw [hnamed]
      exact List.mem_singleton.mp hd
    · cases hd
  | s :: s' :: rest, hconsistent =>
    by_cases hnamed : frame.dst = s.addr
    · refine ⟨fun _ hother => absurd hnamed.symm hother, fun _ d hd => ?_⟩
      rw [journey_named hunknown hnamed] at hd
      split at hd
      · rw [hnamed]
        exact List.mem_singleton.mp hd
      · cases hd
    have hnext : s.engine.nextHop s.now frame.dst = some s'.addr :=
      (List.isChain_cons_cons.mp hconsistent.hops).1
    have hjourney : ∀ d, d ∈ journey k (s :: s' :: rest) frame ↔ s.lets frame = true ∧
        s'.lets (s.relayed s'.addr frame) = true ∧ 2 ≤ s.txLen ∧
          d = (s'.addr, frame.payload.take s.txLen) := by
      intro d
      rw [journey_relayed hunknown hnamed hnext, journey_handed hunknown]
      by_cases hlets : s.lets frame = true
      · by_cases hhanded : s'.lets (s.relayed s'.addr frame) = true ∧ 2 ≤ s.txLen
        · rw [if_pos hlets, if_pos hhanded, List.mem_singleton]
          exact ⟨fun hd => ⟨hlets, hhanded.1, hhanded.2, hd⟩, fun hd => hd.2.2.2⟩
        · rw [if_pos hlets, if_neg hhanded]
          exact ⟨nofun, fun hd => absurd ⟨hd.2.1, hd.2.2.1⟩ hhanded⟩
      · rw [if_neg hlets]
        exact ⟨nofun, fun hd => absurd hd.1 hlets⟩
    constructor
    · intro harrives _ hlets hhanded hroom
      have hsame := harrives _ ((hjourney _).mpr ⟨hlets, hhanded, hroom, rfl⟩)
      obtain ⟨haddr, hpayload⟩ := Prod.mk.inj hsame
      exact ⟨haddr, List.take_eq_self_iff _ |>.mp hpayload⟩
    · intro hwithin d hd
      obtain ⟨hlets, hhanded, hroom, rfl⟩ := (hjourney d).mp hd
      obtain ⟨haddr, hlength⟩ := hwithin (fun h => hnamed h.symm) hlets hhanded hroom
      rw [haddr, List.take_of_length_le hlength]

section SmallMesh
open SmallMesh

def stationVia (node via : Mac) (txLen : Nat) : Station where
  e := BatmanEngine.smallCapacities
  a := capacities
  router := ((withCapacities _ _ node).handleFrame crypto 0 0
    (BatmanEngine.ogmFrom via cert4.nodeMac 7 200) none 1500 .unbounded).1
  now := 0
  ifaceIdx := 0
  localQuality := none
  txLen := txLen

def station4 : Station := stationVia cert4.nodeMac mac2 1500

def newerFrame : LinkFrame := ⟨cert4.nodeMac, mac2, ethPBatman, [0x7f, batmanVersion, 1, 2, 3]⟩

theorem oneRelay_consistent :
    Consistent newerFrame.dst [stationVia cert3.nodeMac cert4.nodeMac 64, station4] :=
  ⟨.cons_cons (by decide +kernel) (.singleton _), by decide +kernel⟩

theorem unknown_arrives_over_one_relay :
    journey crypto [stationVia cert3.nodeMac cert4.nodeMac 64, station4] newerFrame =
        [(cert4.nodeMac, newerFrame.payload)] ∧
      ArrivesWhole crypto [stationVia cert3.nodeMac cert4.nodeMac 64, station4] newerFrame := by
  refine ⟨by decide +kernel, (unknown_arrives_iff crypto _ newerFrame (by decide)
    oneRelay_consistent).mpr ?_⟩
  intro _ _ _ _
  exact ⟨by decide +kernel, by decide⟩

/-- Over two relays the frame is taken for the second; cut short, the destination takes
what is left of it for the whole. -/
theorem unknown_taken_by_relay :
    Consistent newerFrame.dst
        [stationVia cert3.nodeMac mac2 64, stationVia mac2 cert4.nodeMac 64, station4] ∧
      journey crypto [stationVia cert3.nodeMac mac2 64, stationVia mac2 cert4.nodeMac 64, station4]
        newerFrame = [(mac2, newerFrame.payload)] ∧ mac2 ≠ newerFrame.dst ∧
      Consistent newerFrame.dst [stationVia cert3.nodeMac cert4.nodeMac 4, station4] ∧
      journey crypto [stationVia cert3.nodeMac cert4.nodeMac 4, station4] newerFrame =
        [(newerFrame.dst, newerFrame.payload.take 4)] := by
  refine ⟨⟨?_, by decide +kernel⟩, by decide +kernel, by decide +kernel, ⟨?_, by decide +kernel⟩,
    by decide +kernel⟩
  · exact .cons_cons (by decide +kernel) (.cons_cons (by decide +kernel) (.singleton _))
  · exact .cons_cons (by decide +kernel) (.singleton _)

end SmallMesh

end Wayfinder

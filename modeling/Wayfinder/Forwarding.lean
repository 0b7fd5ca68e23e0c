import Wayfinder.McastSplit
import Wayfinder.Router

/-!
# What a relay passes on

Each handler rebuilds the packet it relays in a scratchpad, behind a header of its own
layout, and the router cuts what goes on the wire from that scratchpad. Whatever the
handler, the packet is the one received with its TTL one less and the fields of its
type changed; a TTL of one or none is not relayed, so the TTL a packet starts with
bounds the relays it passes.
-/

namespace Wayfinder

set_option autoImplicit false

/-- Every relayed header has its TTL in the third byte. -/
def ttlOf (payload : Bytes) : Nat := (payload.getD 2 0).toNat

/-- What a relay makes of a packet it heard from `src` over a link of this quality. -/
inductive RelayedAs (src : Mac) (localQuality : Option U8) : Bytes → Bytes → Prop where
  /-- The records the length claims, less the stamp of the hop before and with our own.
  A fragment too short to be a record, and what lies beyond the claim, stay behind. -/
  | ogm (hdr : BatmanOgmPacket) (records : List TvlvRecord) (fragment beyond : Bytes)
      (stamped : List TvlvRecord) :
      hdr.packetType = BatmanPacketType.ogm.asU8 → 1 < hdr.ttl.toNat →
      hdr.tvlvLen.get = (tvlvBytes records ++ fragment).length → fragment.length < tvlvHdrLen →
      stamped = (records.filter fun r => r.hdr.tvlvType ≠ TvlvType.prevSender.asU8) ++
        [prevSenderRecord src] →
      (tvlvBytes stamped).length < 2 ^ 16 →
      RelayedAs src localQuality (hdr.asBytes ++ (tvlvBytes records ++ fragment ++ beyond))
        ({ hdr with
          ttl := hdr.ttl - 1
          tq := BatmanEngine.computedTq hdr.tq localQuality
          tvlvLen := Be16.ofNat (tvlvBytes stamped).length }.asBytes ++ tvlvBytes stamped)
  | bcast (hdr : BatmanBroadcastPacket) (inner : Bytes) :
      hdr.packetType = BatmanPacketType.bcast.asU8 → 1 < hdr.ttl.toNat →
      RelayedAs src localQuality (hdr.asBytes ++ inner)
        ({ hdr with ttl := hdr.ttl - 1 }.asBytes ++ inner)
  /-- Unicast and the four credential-control packets, which have its header. -/
  | directed (type : BatmanPacketType) (hdr : BatmanUnicastPacket) (inner : Bytes) :
      type ∈ [.unicast, .certReq, .certReply, .renewReq, .renewReply] →
      hdr.packetType = type.asU8 → 1 < hdr.ttl.toNat →
      RelayedAs src localQuality (hdr.asBytes ++ inner)
        ({ hdr with ttl := hdr.ttl - 1 }.asBytes ++ inner)
  | echo (type : BatmanPacketType) (hdr : BatmanEchoPacket) (inner : Bytes) :
      type ∈ [.echoRequest, .echoReply] → hdr.packetType = type.asU8 → 1 < hdr.ttl.toNat →
      RelayedAs src localQuality (hdr.asBytes ++ inner)
        ({ hdr with
          ttl := hdr.ttl - 1
          hops := if hdr.hops = 255 then 255 else hdr.hops + 1 }.asBytes ++ inner)
  | mcast (hdr : BatmanMcastPacket) (dests group : List Mac) (inner : Bytes) :
      hdr.packetType = BatmanPacketType.mcast.asU8 → 1 < hdr.ttl.toNat →
      dests.length = hdr.nDests.toNat → group.Sublist dests → group ≠ [] →
      RelayedAs src localQuality (hdr.asBytes ++ (macsAsBytes dests ++ inner))
        ({ hdr with
          ttl := hdr.ttl - 1
          nDests := BitVec.ofNat 8 group.length }.asBytes ++ (macsAsBytes group ++ inner))

namespace RelayedAs
variable {src : Mac} {localQuality : Option U8} {p q : Bytes}

theorem ttl_pred {ttl : U8} (h : 1 < ttl.toNat) : (ttl - 1).toNat + 1 = ttl.toNat := by
  have hone : (1 : U8).toNat = 1 := rfl
  rw [BitVec.toNat_sub_of_le (by rw [BitVec.le_def, hone]; omega), hone]
  omega

theorem ttlOf_lt (h : RelayedAs src localQuality p q) : ttlOf q + 1 = ttlOf p ∧ 0 < ttlOf q := by
  have key : ∀ ttl : U8, 1 < ttl.toNat → (ttl - 1).toNat + 1 = ttl.toNat ∧ 0 < (ttl - 1).toNat := by
    intro ttl httl
    have hpred := ttl_pred httl
    exact ⟨hpred, by omega⟩
  cases h with
  | ogm hdr _ _ _ _ _ httl => exact key hdr.ttl httl
  | bcast hdr _ _ httl => exact key hdr.ttl httl
  | directed _ hdr _ _ _ httl => exact key hdr.ttl httl
  | echo _ hdr _ _ _ httl => exact key hdr.ttl httl
  | mcast hdr _ _ _ _ httl => exact key hdr.ttl httl

theorem head? (h : RelayedAs src localQuality p q) : q.head? = p.head? := by
  cases h <;> rfl

end RelayedAs

namespace BatmanEngine

variable {c : Capacities} {e : BatmanEngine c} {now : Duration} {frame : LinkFrame}
  {localQuality : Option U8} {replyLen : Nat} {q : LinkFrameData}

theorem payload_of_rxSubtype {type : BatmanPacketType} (h : rxSubtype frame = some (some type)) :
    frame.protocol = ethPBatman ∧ ∃ rest, frame.payload = type.asU8 :: batmanVersion :: rest := by
  unfold rxSubtype at h
  split at h
  · rename_i tag version rest hpayload
    split at h
    · cases h
    rename_i hours
    obtain ⟨hprotocol, hversion⟩ := not_or.mp hours
    have htag := BatmanPacketType.asU8_of_fromU8 (Option.some.inj h)
    exact ⟨not_not.mp hprotocol, rest, by rw [hpayload, htag, not_not.mp hversion]⟩
  · cases h

/-! ### The handlers -/

theorem refloodOgm_eq_some {ogm : BatmanOgmPacket} {claimed : Bytes} {tq : U8} {src : Mac}
    (h : (e.refloodOgm ogm claimed tq src replyLen).2 = some q) :
    tvlvOverrun claimed = false ∧
      (tvlvBytes (keptRecords claimed ++ [prevSenderRecord src])).length < 2 ^ 16 ∧
      q.payload.length ≤ replyLen ∧
      q.payload = { ogm with
          ttl := ogm.ttl - 1
          tq := tq
          tvlvLen := Be16.ofNat
            (tvlvBytes (keptRecords claimed ++ [prevSenderRecord src])).length }.asBytes ++
        tvlvBytes (keptRecords claimed ++ [prevSenderRecord src]) := by
  unfold refloodOgm at h
  split at h
  · cases h
  dsimp only at h
  split at h
  · rename_i tail hstamped
    split at hstamped
    · obtain ⟨hstamp, hshort⟩ := Option.filter_eq_some_iff.mp hstamped
      unfold stampPrevSender at hstamp
      split at hstamp
      · cases hstamp
      rename_i hwhole
      dsimp only at hstamp
      split at hstamp
      · rename_i hfits _ hroom
        obtain rfl := Option.some.inj hstamp
        obtain rfl := Option.some.inj h
        refine ⟨by simpa using hwhole, by simpa using hshort, ?_, rfl⟩
        rw [List.length_append, BatmanOgmPacket.asBytes_length]
        omega
      · cases hstamp
    · cases hstamped
  · cases h

theorem finishOgm_eq_some {ogm : BatmanOgmPacket} {claimed : Bytes} {tq : U8} {isNew : Bool}
    {admission : SeqnoAdmission}
    (h : (e.finishOgm now frame replyLen ogm claimed tq isNew admission).2 = some q) :
    1 < ogm.ttl.toNat ∧
      ∃ e' : BatmanEngine c, (e'.refloodOgm ogm claimed tq frame.src replyLen).2 = some q := by
  unfold finishOgm at h
  dsimp only at h
  split at h
  · cases h
  split at h
  · rename_i hahead
    exact ⟨of_decide_eq_true (Bool.and_eq_true_iff.mp hahead).2, _, h⟩
  · cases h

theorem handleOgm_eq_some (h : (e.handleOgm now frame localQuality replyLen).2 = some q) :
    ∃ ogm rest, BatmanOgmPacket.readFromPrefix frame.payload = some (ogm, rest) ∧
      ogm.tvlvLen.get ≤ rest.length ∧ 1 < ogm.ttl.toNat ∧
      ∃ e' : BatmanEngine c, (e'.refloodOgm ogm (rest.take ogm.tvlvLen.get)
        (computedTq ogm.tq localQuality) frame.src replyLen).2 = some q := by
  unfold handleOgm at h
  split at h
  · cases h
  rename_i ogm rest hread
  split at h
  · cases h
  split at h
  · cases h
  rename_i claimed hclaimed
  split at h
  · cases h
  unfold acceptOgm at h
  dsimp only at h
  split at h
  · cases h
  obtain ⟨httl, e', hflood⟩ := finishOgm_eq_some h
  unfold ogmTail? at hclaimed
  split at hclaimed
  · rename_i hle
    obtain rfl := Option.some.inj hclaimed
    exact ⟨ogm, rest, hread, hle, httl, e', hflood⟩
  · cases hclaimed

theorem handleBroadcast_eq_some (h : (e.handleBroadcast now frame replyLen).2.2 = some q) :
    ∃ bcast inner, BatmanBroadcastPacket.readFromPrefix frame.payload = some (bcast, inner) ∧
      1 < bcast.ttl.toNat ∧ BatmanBroadcastPacket.size + inner.length ≤ replyLen ∧
      q.payload = { bcast with ttl := bcast.ttl - 1 }.asBytes ++ inner := by
  unfold handleBroadcast at h
  split at h
  · cases h
  rename_i bcast inner hread
  split at h
  · cases h
  dsimp only at h
  split at h
  · cases h
  split at h
  · cases h
  rename_i httl
  split at h
  · rename_i hfits
    obtain rfl := Option.some.inj h
    exact ⟨bcast, inner, hread, by omega, hfits, rfl⟩
  · cases h

theorem relayToward_eq_some {dest : Mac} {ttl : U8} {header inner : Bytes}
    (h : (e.relayToward now replyLen dest ttl header inner).2.2 = some q) :
    1 < ttl.toNat ∧ header.length + inner.length ≤ replyLen ∧ q.payload = header ++ inner := by
  unfold relayToward at h
  split at h
  · cases h
  split at h
  · cases h
  rename_i httl
  split at h
  · cases h
  unfold stageRelay at h
  split at h
  · rename_i hfits
    obtain rfl := Option.some.inj h
    exact ⟨by omega, hfits, rfl⟩
  · cases h

theorem writeMcast_eq_some {ttl : U8} {form : McastAuthForm} {dests : List Mac}
    {inner bytes : Bytes} {outLen : Nat} (h : writeMcast ttl form dests inner outLen = some bytes) :
    dests ≠ [] ∧ bytes = BatmanMcastPacket.asBytes ⟨BatmanPacketType.mcast.asU8, batmanVersion, ttl,
      BitVec.ofNat 8 dests.length, form.asU8⟩ ++ (macsAsBytes dests ++ inner) := by
  unfold writeMcast at h
  split at h
  · cases h
  rename_i hsome
  split at h
  · cases h
  obtain rfl := Option.some.inj h
  refine ⟨?_, List.append_assoc ..⟩
  intro hnil
  rw [hnil] at hsome
  exact hsome (Or.inl rfl)

theorem form_of_not_signature {byte : U8} {form : McastAuthForm}
    (h : McastAuthForm.fromU8 byte = some form) (hform : form ≠ .signature) :
    McastAuthForm.tag.asU8 = byte := by
  unfold McastAuthForm.fromU8 at h
  split at h
  · rename_i hbyte
    exact hbyte.symm
  split at h
  · obtain rfl := Option.some.inj h
    exact absurd rfl hform
  · cases h

theorem emitGroups_frames (ttl : U8) (inner : Bytes) (replyLen : Nat)
    (routed rest : List (Mac × Mac)) (done : List Mac) (e : BatmanEngine c) (out : FrameSink) :
    ∃ emitted, (emitGroups ttl inner replyLen routed rest done e out).2.frames =
        out.frames ++ emitted ∧
      ∀ q ∈ emitted, ∃ next, writeMcast (ttl - 1) .tag
        ((routed.filter fun p => p.1 = next).map Prod.snd) inner replyLen = some q.payload := by
  have step : ∀ (f : LinkFrameData) (sent : List LinkFrameData) (next : Mac),
      writeMcast (ttl - 1) .tag ((routed.filter fun p => p.1 = next).map Prod.snd) inner
        replyLen = some f.payload →
      (∀ q ∈ sent, ∃ next, writeMcast (ttl - 1) .tag
        ((routed.filter fun p => p.1 = next).map Prod.snd) inner replyLen = some q.payload) →
      ∀ q ∈ f :: sent, ∃ next, writeMcast (ttl - 1) .tag
        ((routed.filter fun p => p.1 = next).map Prod.snd) inner replyLen = some q.payload := by
    intro f sent next hf hsent q hq
    rcases List.mem_cons.mp hq with rfl | hq
    · exact ⟨next, hf⟩
    · exact hsent q hq
  induction rest generalizing done e out with
  | nil => exact ⟨[], (List.append_nil _).symm, fun q hq => nomatch hq⟩
  | cons p rest ih =>
    obtain ⟨next, d⟩ := p
    rw [emitGroups]
    split
    · exact ih done e out
    dsimp only
    split
    · exact ih _ _ _
    rename_i payload hwrite
    unfold FrameSink.push
    split
    · obtain ⟨emitted, hframes, hemitted⟩ := ih (done ++ [next]) e
        { out with frames := out.frames ++ [⟨next, ethPBatman, payload⟩] }
      refine ⟨⟨next, ethPBatman, payload⟩ :: emitted, ?_, step _ _ next hwrite hemitted⟩
      rw [if_pos rfl, hframes, List.append_assoc, List.singleton_append]
    · exact ih _ _ _

theorem handleMcast_frames (hsub : rxSubtype frame = some (some .mcast)) (out : FrameSink) :
    ∃ emitted, (e.handleMcast now frame out replyLen).2.2.frames = out.frames ++ emitted ∧
      ∀ q ∈ emitted, RelayedAs frame.src localQuality frame.payload q.payload := by
  have hnone : ∃ emitted : List LinkFrameData, out.frames = out.frames ++ emitted ∧
      ∀ q ∈ emitted, RelayedAs frame.src localQuality frame.payload q.payload :=
    ⟨[], (List.append_nil _).symm, fun q hq => nomatch hq⟩
  unfold handleMcast
  split
  · exact hnone
  rename_i view hparse
  split
  · exact hnone
  dsimp only
  split
  · exact hnone
  rename_i hform
  split
  · rename_i httl
    obtain ⟨emitted, hframes, hemitted⟩ := emitGroups_frames view.header.ttl view.inner replyLen
      (e.routeDests now view.dests).2 (e.routeDests now view.dests).2 []
      (e.routeDests now view.dests).1 out
    refine ⟨emitted, hframes, ?_⟩
    intro q hq
    obtain ⟨next, hwrite⟩ := hemitted q hq
    rw [routeDests_snd, group_routed] at hwrite
    obtain ⟨hsome, hbytes⟩ := writeMcast_eq_some hwrite
    obtain ⟨hpayload, hread, hlen⟩ := McastPacketView.asBytes_of_parse hparse
    obtain ⟨hprotocol, rest, htags⟩ := payload_of_rxSubtype hsub
    obtain ⟨htype, hversion⟩ : view.header.packetType = BatmanPacketType.mcast.asU8 ∧
        view.header.version = batmanVersion := by
      rw [hpayload] at htags
      exact ⟨(List.cons.inj htags).1, (List.cons.inj (List.cons.inj htags).2).1⟩
    have hsent : q.payload = { view.header with
        ttl := view.header.ttl - 1
        nDests := BitVec.ofNat 8 (e.mcastGroup now view.dests next).length }.asBytes ++
          (macsAsBytes (e.mcastGroup now view.dests next) ++ view.inner) := by
      rw [hbytes, ← htype, ← hversion, form_of_not_signature hread hform]
    rw [hsent, hpayload]
    exact .mcast view.header view.dests _ view.inner htype httl hlen List.filter_sublist hsome
  · exact hnone

/-! ### The scratchpad -/

/-- The scratchpad once a reply is staged at its front: behind the reply shows what was
there before. -/
def staged (scratch reply : Bytes) : Bytes := reply ++ scratch.drop reply.length

/-- The length an OGM states for itself. -/
def replyOgmWireLen (scratch : Bytes) : Option Nat :=
  match BatmanOgmPacket.readFromPrefix scratch with
  | none => none
  | some (ogm, _) =>
    if ogm.packetType ≠ BatmanPacketType.ogm.asU8 then none
    else
      let total := BatmanOgmPacket.size + ogm.tvlvLen.get
      if total ≤ scratch.length then some total else none

/-- What the router cuts from the scratchpad to send: an OGM at its own length, a
packet that is the received one but for its header at the received length. -/
def cutReply (action : RoutingAction) (frame : LinkFrame) (scratch : Bytes) : Bytes :=
  let received := min frame.payload.length scratch.length
  match action with
  | .deliverLocalAndForward _ => scratch.take received
  | _ => scratch.take ((replyOgmWireLen scratch).getD received)

theorem length_staged {scratch reply : Bytes} (h : reply.length ≤ scratch.length) :
    (staged scratch reply).length = scratch.length := by
  rw [staged, List.length_append, List.length_drop]
  omega

theorem cutReply_of_length {action : RoutingAction} {scratch reply : Bytes} {tag : U8}
    (hhead : reply.head? = some tag) (htag : tag ≠ BatmanPacketType.ogm.asU8)
    (hlen : reply.length = frame.payload.length) (hfits : reply.length ≤ scratch.length) :
    cutReply action frame (staged scratch reply) = reply := by
  have hreceived : min frame.payload.length (staged scratch reply).length = reply.length := by
    rw [length_staged hfits]
    omega
  have hnone : replyOgmWireLen (staged scratch reply) = none := by
    unfold replyOgmWireLen
    split
    · rfl
    rename_i ogm rest hread
    have hbytes := BatmanOgmPacket.asBytes_of_readFromPrefix hread
    cases reply with
    | nil => cases hhead
    | cons b reply =>
      obtain rfl := Option.some.inj hhead
      rw [if_pos]
      rw [← (List.cons.inj hbytes).1]
      exact htag
  unfold cutReply
  rw [hreceived, hnone]
  cases action <;> exact List.take_left

theorem cutReply_ogm {scratch tail : Bytes} {ogm : BatmanOgmPacket}
    (htype : ogm.packetType = BatmanPacketType.ogm.asU8) (hlen : ogm.tvlvLen.get = tail.length)
    (hfits : (ogm.asBytes ++ tail).length ≤ scratch.length) :
    cutReply .consumed frame (staged scratch (ogm.asBytes ++ tail)) = ogm.asBytes ++ tail := by
  have hlength : (ogm.asBytes ++ tail).length = BatmanOgmPacket.size + ogm.tvlvLen.get := by
    rw [List.length_append, BatmanOgmPacket.asBytes_length, hlen]
  have hwire : replyOgmWireLen (staged scratch (ogm.asBytes ++ tail)) =
      some (ogm.asBytes ++ tail).length := by
    unfold replyOgmWireLen
    rw [length_staged hfits, staged, List.append_assoc, BatmanOgmPacket.readFromPrefix_asBytes]
    dsimp only
    rw [if_neg (not_not.mpr htype), ← hlength, if_pos hfits]
  unfold cutReply
  dsimp only
  rw [hwire]
  exact List.take_left

/-! ### The engine -/

/-- A reply the engine staged is a relay of the frame, and what the router cuts from the
scratchpad is the whole of it. -/
def RelaysWhole (frame : LinkFrame) (localQuality : Option U8) (replyLen : Nat)
    (action : RoutingAction) (q : LinkFrameData) : Prop :=
  RelayedAs frame.src localQuality frame.payload q.payload ∧
    ∀ scratch : Bytes, scratch.length = replyLen →
      cutReply action frame (staged scratch q.payload) = q.payload

theorem RelaysWhole.of_length {action : RoutingAction} {tag : U8}
    (hrelayed : RelayedAs frame.src localQuality frame.payload q.payload)
    (hhead : q.payload.head? = some tag) (htag : tag ≠ BatmanPacketType.ogm.asU8)
    (hlen : q.payload.length = frame.payload.length) (hfits : q.payload.length ≤ replyLen) :
    RelaysWhole frame localQuality replyLen action q := by
  refine ⟨hrelayed, ?_⟩
  intro scratch hscratch
  exact cutReply_of_length hhead htag hlen (hscratch ▸ hfits)

theorem handleOgm_relays (hsub : rxSubtype frame = some (some .ogm))
    (h : (e.handleOgm now frame localQuality replyLen).2 = some q) :
    RelaysWhole frame localQuality replyLen .consumed q := by
  obtain ⟨ogm, rest, hread, hclaim, httl, e', hflood⟩ := handleOgm_eq_some h
  obtain ⟨hwhole, hshort, hfits, hsent⟩ := refloodOgm_eq_some hflood
  obtain ⟨_, more, htags⟩ := payload_of_rxSubtype hsub
  have hpayload := BatmanOgmPacket.asBytes_of_readFromPrefix hread
  have htype : ogm.packetType = BatmanPacketType.ogm.asU8 := by
    rw [hpayload] at htags
    exact (List.cons.inj htags).1
  obtain ⟨fragment, hclaimed, hfragment⟩ := tvlvScan_spec (rest.take ogm.tvlvLen.get)
  have hlen : ogm.tvlvLen.get = (rest.take ogm.tvlvLen.get).length := by
    rw [List.length_take, Nat.min_eq_left hclaim]
  have hreceived : frame.payload = ogm.asBytes ++
      (tvlvBytes (tvlvScan (rest.take ogm.tvlvLen.get)).1 ++ fragment ++
        rest.drop ogm.tvlvLen.get) := by
    rw [← hclaimed, List.take_append_drop, hpayload]
  refine ⟨?_, ?_⟩
  · rw [hsent, hreceived]
    exact .ogm ogm _ fragment _ _ htype httl (by rw [← hclaimed]; exact hlen) (hfragment hwhole)
      rfl hshort
  · intro scratch hscratch
    rw [hsent] at hfits ⊢
    exact cutReply_ogm htype (Be16.get_ofNat hshort) (hscratch ▸ hfits)

theorem handleBroadcast_relays (hsub : rxSubtype frame = some (some .bcast))
    (h : (e.handleBroadcast now frame replyLen).2.2 = some q) (action : RoutingAction) :
    RelaysWhole frame localQuality replyLen action q := by
  obtain ⟨bcast, inner, hread, httl, hfits, hsent⟩ := handleBroadcast_eq_some h
  obtain ⟨_, more, htags⟩ := payload_of_rxSubtype hsub
  have hpayload := BatmanBroadcastPacket.asBytes_of_readFromPrefix hread
  have htype : bcast.packetType = BatmanPacketType.bcast.asU8 := by
    rw [hpayload] at htags
    exact (List.cons.inj htags).1
  have hhead : q.payload.head? = some bcast.packetType := by
    rw [hsent]
    rfl
  refine .of_length ?_ hhead (by rw [htype]; decide) ?_ ?_
  · rw [hsent, hpayload]
    exact .bcast bcast inner htype httl
  · rw [hsent, hpayload]
    rfl
  · rw [hsent, List.length_append]
    exact hfits

theorem handleDirected_relays {type : BatmanPacketType}
    (htype : type ∈ [.unicast, .certReq, .certReply, .renewReq, .renewReply])
    (hsub : rxSubtype frame = some (some type))
    (h : (e.handleUnicast now frame replyLen).2.2 = some q) (action : RoutingAction) :
    RelaysWhole frame localQuality replyLen action q := by
  unfold handleUnicast at h
  split at h
  · cases h
  rename_i hdr inner hread
  obtain ⟨httl, hfits, hsent⟩ := relayToward_eq_some h
  obtain ⟨_, more, htags⟩ := payload_of_rxSubtype hsub
  have hpayload := BatmanUnicastPacket.asBytes_of_readFromPrefix hread
  have hname : hdr.packetType = type.asU8 := by
    rw [hpayload] at htags
    exact (List.cons.inj htags).1
  have hhead : q.payload.head? = some hdr.packetType := by
    rw [hsent]
    rfl
  have htag : ∀ t ∈ [.unicast, .certReq, .certReply, .renewReq, .renewReply],
      BatmanPacketType.asU8 t ≠ BatmanPacketType.ogm.asU8 := by decide
  refine .of_length ?_ hhead (hname ▸ htag type htype) ?_ ?_
  · rw [hsent, hpayload]
    exact .directed type hdr inner htype hname httl
  · rw [hsent, hpayload]
    rfl
  · rw [hsent, List.length_append]
    exact hfits

theorem handleEcho_relays {type : BatmanPacketType} (htype : type ∈ [.echoRequest, .echoReply])
    (hsub : rxSubtype frame = some (some type))
    (h : (e.handleEcho now frame replyLen).2.2 = some q) (action : RoutingAction) :
    RelaysWhole frame localQuality replyLen action q := by
  unfold handleEcho at h
  split at h
  · cases h
  rename_i hdr inner hread
  obtain ⟨httl, hfits, hsent⟩ := relayToward_eq_some h
  obtain ⟨_, more, htags⟩ := payload_of_rxSubtype hsub
  have hpayload := BatmanEchoPacket.asBytes_of_readFromPrefix hread
  have hname : hdr.packetType = type.asU8 := by
    rw [hpayload] at htags
    exact (List.cons.inj htags).1
  have hhead : q.payload.head? = some hdr.packetType := by
    rw [hsent]
    rfl
  have htag : ∀ t ∈ [.echoRequest, .echoReply],
      BatmanPacketType.asU8 t ≠ BatmanPacketType.ogm.asU8 := by decide
  refine .of_length ?_ hhead (hname ▸ htag type htype) ?_ ?_
  · rw [hsent, hpayload]
    exact .echo type hdr inner htype hname httl
  · rw [hsent, hpayload]
    rfl
  · rw [hsent, List.length_append]
    exact hfits

theorem handleRx_relays {out : FrameSink} :
    (e.handleRx now frame localQuality replyLen out).reply = some q →
      RelaysWhole frame localQuality replyLen
        (e.handleRx now frame localQuality replyLen out).action q := by
  unfold handleRx
  split
  · exact fun h => nomatch h
  · rename_i hsub
    exact handleOgm_relays hsub
  · rename_i hsub
    exact fun h => handleBroadcast_relays hsub h _
  · rename_i hsub
    exact fun h => handleDirected_relays (by decide) hsub h _
  · exact fun h => nomatch h
  · rename_i hsub
    exact fun h => handleDirected_relays (by decide) hsub h _
  · rename_i hsub
    exact fun h => handleDirected_relays (by decide) hsub h _
  · rename_i hsub
    exact fun h => handleDirected_relays (by decide) hsub h _
  · rename_i hsub
    exact fun h => handleDirected_relays (by decide) hsub h _
  · exact fun h => nomatch h
  · rename_i hsub
    exact fun h => handleEcho_relays (by decide) hsub h _
  · rename_i hsub
    exact fun h => handleEcho_relays (by decide) hsub h _
  · exact fun h => nomatch h
  · exact fun h => nomatch h
  · exact fun h => nomatch h

theorem handleRx_frames (out : FrameSink) :
    ∃ emitted, (e.handleRx now frame localQuality replyLen out).out.frames =
        out.frames ++ emitted ∧
      ∀ q ∈ emitted, RelayedAs frame.src localQuality frame.payload q.payload := by
  by_cases hsub : rxSubtype frame = some (some .mcast)
  · simp only [handleRx, hsub]
    exact handleMcast_frames hsub out
  · refine ⟨[], ?_, ?_⟩
    · rw [List.append_nil]
      unfold handleRx
      split <;> first | rfl | exact absurd (by assumption) hsub
    · intro q hq
      cases hq

end BatmanEngine

namespace OgmAuth

variable {a : AuthCapacities} {k : Crypto} {s : OgmAuth a} {bufLen : Nat} {q : LinkFrameData}

theorem head_buildCertReqFrame {orig firstHop : Mac} {fp : Octets 8}
    (h : (s.buildCertReqFrame k orig fp firstHop bufLen).2 = some q) :
    q.payload.head? = some BatmanPacketType.certReq.asU8 := by
  unfold buildCertReqFrame at h
  split at h
  · cases h
  split at h
  · cases h
  · obtain rfl := Option.some.inj h
    rfl

theorem head_answerCertRequest {e : Capacities} {paths : BatmanEngine e} {now : Duration}
    {body : Bytes} (h : (s.answerCertRequest k paths now body bufLen).2 = some q) :
    q.payload.head? = some BatmanPacketType.certReply.asU8 := by
  unfold answerCertRequest at h
  split at h
  · cases h
  split at h
  · split at h
    · obtain rfl := Option.some.inj h
      rfl
    · cases h
  · cases h

theorem head_flushPendingCertReply {e : Capacities} {paths : BatmanEngine e} {now : Duration}
    {orig : Mac} (h : (s.flushPendingCertReply paths now orig bufLen).2 = some q) :
    q.payload.head? = some BatmanPacketType.certReply.asU8 := by
  unfold flushPendingCertReply at h
  split at h
  · cases h
  split at h
  · cases h
  split at h
  · cases h
  · obtain rfl := Option.some.inj h
    rfl

theorem head_answerChallengeFrame {src : Mac} {body : Bytes}
    (h : s.answerChallengeFrame k src body bufLen = some q) :
    q.payload.head? = some BatmanPacketType.nextHopResponse.asU8 := by
  unfold answerChallengeFrame at h
  split at h
  · cases h
  dsimp only at h
  split at h
  · cases h
  · obtain rfl := Option.some.inj h
    rfl

end OgmAuth

namespace CentralRouter

variable {e : Capacities} {a : AuthCapacities} {k : Crypto} {r : CentralRouter e a}
  {now : Duration} {ifaceIdx : Nat} {frame : LinkFrame} {localQuality : Option U8} {txLen : Nat}
  {q : LinkFrameData}

/-! ### The router -/

/-- The sub-types of the messages of its own a node may send on hearing one of this. -/
def answers : Option BatmanPacketType → List BatmanPacketType
  | some .ogm => [.certReq, .certReply]
  | some .certReq => [.certReply]
  | some .echoRequest => [.echoReply]
  | some .nextHopChallenge => [.nextHopResponse]
  | _ => []

def Answers (frame : LinkFrame) (q : LinkFrameData) : Prop :=
  ∃ type ∈ answers (packetTypeOf frame), q.payload.head? = some type.asU8

theorem head_answerEcho {payload : Bytes} (h : r.answerEcho now payload txLen = some q) :
    q.payload.head? = some BatmanPacketType.echoReply.asU8 := by
  unfold answerEcho at h
  split at h
  · cases h
  dsimp only at h
  split at h
  · cases h
  split at h
  · cases h
  · obtain rfl := Option.some.inj h
    rfl

theorem answers_judgeFrame {outcome : RxOutcome} :
    (r.judgeFrame k now ifaceIdx frame txLen).2 = some outcome → outcome.forward = some q →
      Answers frame q := by
  unfold judgeFrame Answers
  split
  · rename_i htype _
    rw [htype]
    split
    · exact fun h => nomatch h
    · rintro ⟨⟩ ⟨⟩
    · rintro ⟨⟩ hq
      exact ⟨.certReq, by decide, OgmAuth.head_buildCertReqFrame hq⟩
  · split
    · exact fun h => nomatch h
    · rintro ⟨⟩ ⟨⟩
  · rename_i htype
    rw [htype]
    split
    · rintro ⟨⟩ ⟨⟩
    · rintro ⟨⟩ hq
      obtain ⟨auth, _, hq⟩ := Option.bind_eq_some_iff.mp hq
      exact ⟨.nextHopResponse, by decide, OgmAuth.head_answerChallengeFrame hq⟩
  · rintro ⟨⟩ ⟨⟩
  · split
    · rintro ⟨⟩ ⟨⟩
    split
    · rintro ⟨⟩ ⟨⟩
    · rintro ⟨⟩ ⟨⟩
  · exact fun h => nomatch h

theorem answers_deliver :
    (r.deliver k now frame txLen).2.forward = some q → Answers frame q := by
  unfold deliver Answers
  dsimp only
  split
  case h_4 htype _ =>
    rw [htype]
    exact fun hq => ⟨.certReply, by decide, OgmAuth.head_answerCertRequest hq⟩
  case h_10 _ htype =>
    rw [htype]
    exact fun hq => ⟨.echoReply, by decide, head_answerEcho hq⟩
  all_goals exact fun h => nomatch h

theorem answers_flushParked :
    (r.flushParked now frame txLen).2 = some q → Answers frame q := by
  unfold flushParked Answers
  split
  · rename_i htype _ _
    rw [htype]
    exact fun hq => ⟨.certReply, by decide, OgmAuth.head_flushPendingCertReply hq⟩
  · exact fun h => nomatch h

theorem rxSubtype_of_known (hknown : (packetTypeOf frame).isSome) :
    BatmanEngine.rxSubtype frame ≠ some none := by
  intro hsub
  unfold BatmanEngine.rxSubtype at hsub
  split at hsub
  · rename_i tag version rest hpayload
    split at hsub
    · cases hsub
    unfold packetTypeOf at hknown
    split at hknown
    · rw [hpayload, List.head?_cons, Option.bind_eq_bind, Option.bind_some,
        Option.some.inj hsub] at hknown
      cases hknown
    · cases hknown
  · cases hsub

/-- Only a sub-type this build does not know is forwarded by its link address. -/
theorem handleRx_not_forwardTo {eng : BatmanEngine e} {out : FrameSink}
    (hsub : BatmanEngine.rxSubtype frame ≠ some none) (next : Mac) :
    (eng.handleRx now frame localQuality txLen out).action ≠ .forwardTo next := by
  have hbcast : (eng.handleBroadcast now frame txLen).2.1 ≠ .forwardTo next := by
    unfold BatmanEngine.handleBroadcast
    split
    · exact nofun
    split
    · exact nofun
    dsimp only
    split
    · exact nofun
    split
    · exact nofun
    split <;> exact nofun
  have htoward : ∀ (dest : Mac) (ttl : U8) (header inner : Bytes),
      (eng.relayToward now txLen dest ttl header inner).2.1 ≠ .forwardTo next := by
    intro dest ttl header inner
    unfold BatmanEngine.relayToward
    split
    · exact nofun
    split
    · exact nofun
    split <;> exact nofun
  have hunicast : (eng.handleUnicast now frame txLen).2.1 ≠ .forwardTo next := by
    unfold BatmanEngine.handleUnicast
    split
    · exact nofun
    · exact htoward _ _ _ _
  have hecho : (eng.handleEcho now frame txLen).2.1 ≠ .forwardTo next := by
    unfold BatmanEngine.handleEcho
    split
    · exact nofun
    · exact htoward _ _ _ _
  have hmcast : (eng.handleMcast now frame out txLen).2.1 ≠ .forwardTo next := by
    unfold BatmanEngine.handleMcast
    split
    · exact nofun
    split
    · exact nofun
    dsimp only
    split
    · split <;> exact nofun
    split
    · dsimp only
      split <;> exact nofun
    · split <;> exact nofun
  unfold BatmanEngine.handleRx
  split
  case h_3 => exact hbcast
  case h_4 => exact hunicast
  case h_5 => exact hmcast
  case h_6 => exact hunicast
  case h_7 => exact hunicast
  case h_8 => exact hunicast
  case h_9 => exact hunicast
  case h_11 => exact hecho
  case h_12 => exact hecho
  case h_15 hnone => exact absurd hnone hsub
  all_goals exact nofun

/-- The frames a router sends because of one it received. -/
def sentFor (k : Crypto) (r : CentralRouter e a) (now : Duration) (ifaceIdx : Nat)
    (frame : LinkFrame) (localQuality : Option U8) (txLen : Nat) (out : FrameSink) :
    List LinkFrameData :=
  let handled := r.handleFrame k now ifaceIdx frame localQuality txLen out
  handled.2.1.forward.toList ++ handled.2.2.frames.drop out.frames.length

/-- Everything sent for the frame is a relay of it or a message of the node's own. -/
def SendsOnly (frame : LinkFrame) (localQuality : Option U8) (out : FrameSink)
    (outcome : RxOutcome) (out' : FrameSink) : Prop :=
  (∀ q, outcome.forward = some q →
    RelayedAs frame.src localQuality frame.payload q.payload ∨ Answers frame q) ∧
  ∃ emitted, out'.frames = out.frames ++ emitted ∧
    ∀ q ∈ emitted, RelayedAs frame.src localQuality frame.payload q.payload

theorem SendsOnly.quiet {outcome : RxOutcome} {out : FrameSink}
    (h : ∀ q, outcome.forward = some q → Answers frame q) :
    SendsOnly frame localQuality out outcome out :=
  ⟨fun q hq => Or.inr (h q hq), [], (List.append_nil _).symm, nofun⟩

theorem routeFrame_sendsOnly (hknown : (packetTypeOf frame).isSome) (out : FrameSink) :
    let routed := r.routeFrame k now ifaceIdx frame localQuality txLen out
    SendsOnly frame localQuality out routed.2.1 routed.2.2 := by
  have hframes := @BatmanEngine.handleRx_frames e r.batman now frame localQuality txLen out
  have hreply : ∀ q, (r.batman.handleRx now frame localQuality txLen out).reply = some q →
      RelayedAs frame.src localQuality frame.payload q.payload :=
    fun q hq => (BatmanEngine.handleRx_relays hq).1
  have hforward := @handleRx_not_forwardTo e now frame localQuality txLen r.batman out
    (rxSubtype_of_known hknown)
  unfold routeFrame
  dsimp only
  split
  · split
    · split
      · exact ⟨nofun, hframes⟩
      · rename_i reply hsome _
        refine ⟨fun q hq => Or.inl (hreply q ?_), hframes⟩
        exact hsome.trans hq
    · exact ⟨fun q hq => Or.inr (answers_flushParked hq), hframes⟩
  · rename_i next haction
    exact absurd haction (hforward next)
  · exact ⟨fun q hq => Or.inr (answers_deliver hq), hframes⟩
  · exact ⟨fun q hq => Or.inl (hreply q hq), hframes⟩

theorem handleFrame_sendsOnly (hknown : (packetTypeOf frame).isSome) (out : FrameSink) :
    let handled := r.handleFrame k now ifaceIdx frame localQuality txLen out
    SendsOnly frame localQuality out handled.2.1 handled.2.2 := by
  unfold handleFrame
  split
  · exact .quiet fun q hq => nomatch hq
  dsimp only
  split
  · rename_i r' outcome hjudged
    exact .quiet fun q hq => answers_judgeFrame (congrArg Prod.snd hjudged) hq
  · split
    · exact .quiet fun q hq => nomatch hq
    · exact routeFrame_sendsOnly hknown out

theorem sentFor_cases (hknown : (packetTypeOf frame).isSome) {out : FrameSink}
    (hq : q ∈ r.sentFor k now ifaceIdx frame localQuality txLen out) :
    RelayedAs frame.src localQuality frame.payload q.payload ∨ Answers frame q := by
  obtain ⟨hforward, emitted, hframes, hemitted⟩ :=
    @handleFrame_sendsOnly e a k r now ifaceIdx frame localQuality txLen hknown out
  unfold sentFor at hq
  dsimp only at hq hframes
  rw [hframes, List.drop_left] at hq
  rcases List.mem_append.mp hq with hq | hq
  · exact hforward q (Option.mem_toList.mp hq)
  · exact Or.inl (hemitted q hq)

theorem Answers.head_ne (h : Answers frame q) : q.payload.head? ≠ frame.payload.head? := by
  obtain ⟨type, htype, hhead⟩ := h
  intro hsame
  unfold packetTypeOf at htype
  split at htype
  · rw [← hsame, hhead, Option.bind_eq_bind, Option.bind_some,
      BatmanPacketType.fromU8_asU8] at htype
    cases type <;> revert htype <;> decide
  · cases htype

/-! ### From relay to relay -/

/-- Some router, in some state, hears the packet `p` and sends `q` on for it. -/
def Passes (k : Crypto) (p q : Bytes) : Prop :=
  ∃ (e : Capacities) (a : AuthCapacities) (r : CentralRouter e a) (now : Duration) (ifaceIdx : Nat)
    (frame : LinkFrame) (localQuality : Option U8) (txLen : Nat) (out : FrameSink),
    frame.payload = p ∧ (packetTypeOf frame).isSome ∧
      ∃ sent ∈ r.sentFor k now ifaceIdx frame localQuality txLen out,
        sent.payload = q ∧ q.head? = p.head?

/-- The packet `p` comes out as `q` after this many relays. -/
inductive Travels (k : Crypto) : Nat → Bytes → Bytes → Prop where
  | here (p : Bytes) : Travels k 0 p p
  | hop {n : Nat} {p q z : Bytes} : Passes k p q → Travels k n q z → Travels k (n + 1) p z

theorem Passes.ttlOf_lt {p q : Bytes} (h : Passes k p q) : ttlOf q + 1 = ttlOf p := by
  obtain ⟨e, a, r, now, ifaceIdx, frame, localQuality, txLen, out, rfl, hknown, sent, hsent, rfl,
    hhead⟩ := h
  rcases sentFor_cases hknown hsent with hrelayed | hanswers
  · exact hrelayed.ttlOf_lt.1
  · exact absurd hhead hanswers.head_ne

theorem Travels.ttlOf_add {n : Nat} {p q : Bytes} (h : Travels k n p q) : ttlOf q + n = ttlOf p := by
  induction h with
  | here p => rfl
  | hop hpasses _ ih =>
    have hstep := hpasses.ttlOf_lt
    omega

/-- Whatever a router sends for a packet of a known sub-type is a relay of it, whole and
with a smaller TTL, or a message of its own; and the TTL bounds the relays. -/
theorem relay_progress (k : Crypto) (r : CentralRouter e a) (now : Duration) (ifaceIdx : Nat)
    (frame : LinkFrame) (localQuality : Option U8) (scratch : Bytes) (out : FrameSink)
    (hknown : (packetTypeOf frame).isSome) :
    (∀ q ∈ r.sentFor k now ifaceIdx frame localQuality scratch.length out,
      (RelayedAs frame.src localQuality frame.payload q.payload ∧
        ttlOf q.payload < ttlOf frame.payload) ∨ Answers frame q) ∧
    (∀ (engine : BatmanEngine e) (reply : LinkFrameData),
      (engine.handleRx now frame localQuality scratch.length out).reply = some reply →
        BatmanEngine.cutReply (engine.handleRx now frame localQuality scratch.length out).action
          frame (BatmanEngine.staged scratch reply.payload) = reply.payload) ∧
    ∀ (n : Nat) (q : Bytes), Travels k n frame.payload q → n ≤ ttlOf frame.payload := by
  refine ⟨?_, ?_, ?_⟩
  · intro q hq
    rcases sentFor_cases hknown hq with hrelayed | hanswers
    · have hless := hrelayed.ttlOf_lt.1
      exact Or.inl ⟨hrelayed, by omega⟩
    · exact Or.inr hanswers
  · intro engine reply hreply
    exact (BatmanEngine.handleRx_relays hreply).2 scratch rfl
  · intro n q htravels
    have hspent := htravels.ttlOf_add
    omega

section SmallMesh
open SmallMesh

def relay3 : CentralRouter BatmanEngine.smallCapacities capacities :=
  ((withCapacities _ _ cert3.nodeMac).handleFrame crypto 0 0
    (BatmanEngine.ogmFrom mac2 cert4.nodeMac 7 200) none 1500 .unbounded).1

def datagram (ttl : U8) : LinkFrame where
  dst := cert3.nodeMac
  src := cert2.nodeMac
  protocol := ethPBatman
  payload := BatmanUnicastPacket.asBytes
    ⟨BatmanPacketType.unicast.asU8, batmanVersion, ttl, cert4.nodeMac⟩ ++ [1, 2, 3]

theorem relay_progress_datagram :
    relay3.sentFor crypto 0 0 (datagram 5) none 64 .unbounded =
        [⟨mac2, ethPBatman, (datagram 4).payload⟩] ∧
      ∀ q ∈ relay3.sentFor crypto 0 0 (datagram 5) none 64 .unbounded,
        (RelayedAs (datagram 5).src none (datagram 5).payload q.payload ∧
          ttlOf q.payload < ttlOf (datagram 5).payload) ∨ Answers (datagram 5) q :=
  ⟨by decide +kernel, (relay_progress crypto relay3 0 0 (datagram 5) none (List.replicate 64 0)
    .unbounded (by decide +kernel)).1⟩

/-- The tail of an OGM byte for byte, but that one stamp may stand for another. -/
def TailKept (tail tail' : Bytes) : Prop :=
  ∃ before old after new, (old = [] ∨ ∃ mac, old = (prevSenderRecord mac).asBytes) ∧
    (∃ mac, new = (prevSenderRecord mac).asBytes) ∧ tail = before ++ old ++ after ∧
    (tail' = before ++ new ++ after ∨ tail' = before ++ after ++ new)

def fragmentOgm : LinkFrame where
  dst := Mac.broadcast
  src := mac2
  protocol := ethPBatman
  payload := BatmanOgmPacket.asBytes
    { packetType := BatmanPacketType.ogm.asU8
      version := batmanVersion
      ttl := 5
      flags := 0
      seqno := Be32.ofU32 8
      orig := cert4.nodeMac
      reserved := 0
      tq := 200
      tvlvLen := Be16.ofNat 1 } ++ [0xff]

/-- The fragment is not passed on. -/
theorem fragment_not_reflooded :
    ∃ q ∈ relay3.sentFor crypto 0 0 fragmentOgm none 1500 .unbounded,
      ¬ Answers fragmentOgm q ∧
        ¬ TailKept (fragmentOgm.payload.drop BatmanOgmPacket.size)
          (q.payload.drop BatmanOgmPacket.size) := by
  have hsent : (relay3.sentFor crypto 0 0 fragmentOgm none 1500 .unbounded).map
      (fun q => (q.payload.head?, (q.payload.drop BatmanOgmPacket.size).length)) =
        [(some 1, 10)] := by decide +kernel
  obtain ⟨q, hq, hview⟩ := List.mem_map.mp (hsent ▸ List.mem_singleton_self _)
  obtain ⟨hhead, hlen⟩ := Prod.mk.inj hview
  refine ⟨q, hq, fun hanswers => hanswers.head_ne (by rw [hhead]; rfl), ?_⟩
  rintro ⟨before, old, after, new, hold, ⟨mac, rfl⟩, htail, htail'⟩
  have htotal : 1 = before.length + old.length + after.length := by
    have h := congrArg List.length htail
    rw [List.length_append, List.length_append] at h
    exact h
  have hnew : (prevSenderRecord mac).asBytes.length = 10 := rfl
  have hnone : old.length = 0 := by
    rcases hold with rfl | ⟨mac', rfl⟩
    · rfl
    · have hten : (prevSenderRecord mac').asBytes.length = 10 := rfl
      omega
  rcases htail' with hcut | hcut
  · have h := congrArg List.length hcut
    rw [List.length_append, List.length_append, hlen, hnew] at h
    omega
  · have h := congrArg List.length hcut
    rw [List.length_append, List.length_append, hlen, hnew] at h
    omega

end SmallMesh

end CentralRouter

end Wayfinder

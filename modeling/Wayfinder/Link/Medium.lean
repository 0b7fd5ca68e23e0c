import Wayfinder.Lib.Fallible
import Wayfinder.Link.Tracks

/-!
# A frame through the air and back

What a medium has to do for its frames to survive fragmentation is stated once, and
802.15.4, raw LoRa and the two BLE formats are shown to do it.
-/

namespace Wayfinder

set_option autoImplicit false

/-- A sender on a medium, and the receiver `σ` of its packets. -/
structure Medium (A σ : Type) where
  sizes : LinkSizes
  origin : Mac
  addr : A
  assemble : LinkFrameData → Except LinkError Bytes
  count : Nat → Except LinkError Nat
  build : Bytes → U8 → Nat → Nat → Except LinkError Bytes
  decode : Bytes → Option (A × FragHeader × Bytes)
  /-- The packets that do not parse, or that the table they belong to refuses. -/
  refused : Bytes → Bool
  table : σ → Reassembler A sizes
  accept : σ → Bytes → LinkMetrics → σ × Option (Bytes × LinkMetrics)

/-- What reaches the receiver: one of our packets, or a packet of somebody else's. -/
inductive Arrival where
  | ours (index : Nat) (metrics : LinkMetrics)
  | other (packet : Bytes) (metrics : LinkMetrics)
  deriving DecidableEq, Repr

namespace Arrival

def collect (count : Nat) (got : Finset Nat) : Arrival → Finset Nat
  | ours index _ => Reassembler.collect count got index
  | other _ _ => got

/-- Our fragments in, of a message cut in `count`: those that came since it was last complete. -/
def collected (count : Nat) (arrivals : List Arrival) : Finset Nat :=
  arrivals.foldl (collect count) ∅

@[simp] theorem collected_append_singleton (count : Nat) (arrivals : List Arrival) (a : Arrival) :
    collected count (arrivals ++ [a]) = collect count (collected count arrivals) a := by
  simp only [collected, List.foldl_append, List.foldl_cons, List.foldl_nil]

end Arrival

namespace Medium

variable {A σ : Type} (m : Medium A σ)

/-- The sender's loop: the packets of one frame in their order. -/
def fragments (msgId : U8) (frame : Bytes) : Except LinkError (List Bytes) :=
  match m.count frame.length with
  | .error err => .error err
  | .ok count => (List.range count).mapM fun index => m.build frame msgId index count

def receive (packets : List Bytes) (st : σ) : Arrival → σ
  | .ours index metrics => match packets[index]? with
    | some packet => (m.accept st packet metrics).1
    | none => st
  | .other packet metrics => (m.accept st packet metrics).1

/-- A packet that is none of ours: it is refused, it is not for this table, or it is a fragment
of one of the messages `others`. -/
def Stray (others : List (FragKey A)) (packet : Bytes) : Prop :=
  m.refused packet = true ∨ m.decode packet = none ∨
    ∃ addr hdr body, m.decode packet = some (addr, hdr, body) ∧ ⟨addr, hdr.msgId⟩ ∈ others

def Allowed (count : Nat) (others : List (FragKey A)) : Arrival → Prop
  | .ours index _ => index < count
  | .other packet _ => m.Stray others packet

/-- A frame the medium assembles is cut into packets that each decode to their own fragment;
heard in any order and number among strays, the packets complete it exactly when the last one
missing since it was last complete comes in; and its bytes decode to what was sent. -/
def RoundTrips : Prop :=
  ∀ data frame, m.assemble data = .ok frame → ∀ msgId, ∃ packets,
    m.fragments msgId frame = .ok packets ∧
    (∀ index packet, packets[index]? = some packet →
      ∃ hdr, m.decode packet = some (m.addr, hdr, Pieces.piece m.sizes.fragPayload frame index) ∧
        hdr.msgId = msgId ∧ hdr.index.toNat = index ∧ hdr.count.toNat = packets.length) ∧
    (∀ (start : σ) (others : List (FragKey A)) (arrivals : List Arrival),
      (∀ e ∈ (m.table start).entries, e.key ∈ others) → ⟨m.addr, msgId⟩ ∉ others →
      others.length ≤ m.sizes.maxReassemblies - 1 →
      (∀ a ∈ arrivals, m.Allowed packets.length others a) →
      ∀ index packet, packets[index]? = some packet → ∀ metrics,
        (m.accept (Run.run (m.receive packets) start arrivals) packet metrics).2 =
          if insert index (Arrival.collected packets.length arrivals) =
              Finset.range packets.length then
            some (frame, metrics)
          else none) ∧
    (∀ st packet metrics, m.refused packet = true → m.accept st packet metrics = (st, none)) ∧
    decodeFrame frame = .ok ⟨data.dst, m.origin, data.protocol, data.payload⟩

/-- What the code of one medium has to be shown to do. -/
structure Lawful [DecidableEq A] : Prop where
  assemble_eq : ∀ data frame, m.assemble data = .ok frame →
    frame = data.dst.asBytes ++ m.origin.asBytes ++ toBeBytes data.protocol ++ data.payload ∧
      frame.length ≤ m.sizes.maxReassembledLen
  count_eq : ∀ frame : Bytes, linkHeaderLen ≤ frame.length →
    frame.length ≤ m.sizes.maxReassembledLen →
    m.count frame.length = .ok (Pieces.count m.sizes.fragPayload frame.length)
  build_eq : ∀ (frame : Bytes) (msgId : U8) (index : Nat),
    index < Pieces.count m.sizes.fragPayload frame.length →
    Pieces.count m.sizes.fragPayload frame.length ≤ maxFragments →
    ∃ packet,
      m.build frame msgId index (Pieces.count m.sizes.fragPayload frame.length) = .ok packet ∧
      m.decode packet = some (m.addr,
        ⟨msgId, BitVec.ofNat 8 index,
          BitVec.ofNat 8 (Pieces.count m.sizes.fragPayload frame.length)⟩,
        Pieces.piece m.sizes.fragPayload frame index)
  accept_decoded : ∀ st packet addr hdr body metrics, m.decode packet = some (addr, hdr, body) →
    m.table (m.accept st packet metrics).1 =
        ((m.table st).accept ⟨addr, hdr.msgId⟩ hdr body metrics).1 ∧
      (m.accept st packet metrics).2 =
        ((m.table st).accept ⟨addr, hdr.msgId⟩ hdr body metrics).2
  accept_skipped : ∀ st packet metrics, m.decode packet = none →
    m.table (m.accept st packet metrics).1 = m.table st
  accept_refused : ∀ st packet metrics, m.refused packet = true →
    m.accept st packet metrics = (st, none)

end Medium

/-! ### Assembled bytes -/

theorem decodeFrame_assembled (dst src : Mac) (protocol : U16) (payload : Bytes) :
    decodeFrame (dst.asBytes ++ src.asBytes ++ toBeBytes protocol ++ payload) =
      .ok ⟨dst, src, protocol, payload⟩ := by
  unfold toBeBytes Mac.asBytes
  simp only [List.cons_append, List.nil_append, decodeFrame, fromBeBytes_extract]

theorem length_assembled (dst src : Mac) (protocol : U16) (payload : Bytes) :
    (dst.asBytes ++ src.asBytes ++ toBeBytes protocol ++ payload).length =
      linkHeaderLen + payload.length := by
  simp only [List.length_append, Mac.asBytes_length]
  rfl

/-- What fits in the table is not cut too fine for the header's nibble. -/
theorem LinkSizes.count_le (s : LinkSizes) {len : Nat} (h : len ≤ s.maxReassembledLen) :
    Pieces.count s.fragPayload len ≤ maxFragments := by
  have hpos := s.fragPayload_pos
  have hfragments := s.le_fragments
  unfold Pieces.count
  apply Nat.max_le.mpr
  refine ⟨?_, by decide⟩
  rw [Nat.div_le_iff_le_mul_add_pred hpos, Nat.mul_comm]
  omega

namespace Medium

variable {A σ : Type} {m : Medium A σ}

theorem receive_ours {packets : List Bytes} {index : Nat} {packet : Bytes}
    (h : packets[index]? = some packet) (st : σ) (metrics : LinkMetrics) :
    m.receive packets st (.ours index metrics) = (m.accept st packet metrics).1 := by
  unfold receive
  dsimp only
  rw [h]

/-- The sender's loop builds every packet or fails as a whole. -/
theorem fragments_eq {frame : Bytes} {msgId : U8} {count : Nat}
    (hcount : m.count frame.length = .ok count)
    (hbuild : ∀ index, index < count → ∃ packet, m.build frame msgId index count = .ok packet) :
    ∃ packets, m.fragments msgId frame = .ok packets ∧ packets.length = count ∧
      ∀ index packet, packets[index]? = some packet →
        index < count ∧ m.build frame msgId index count = .ok packet := by
  have heach : ∀ index ∈ List.range count,
      ∃ packet, m.build frame msgId index count = .ok packet :=
    fun index h => hbuild index (List.mem_range.mp h)
  obtain ⟨packets, hall⟩ := Fallible.exists_forall₂ heach
  have hlen : packets.length = count := by
    rw [← hall.length_eq, List.length_range]
  refine ⟨packets, ?_, hlen, ?_⟩
  · unfold fragments
    rw [hcount]
    exact Fallible.mapM_ok_iff.mpr hall
  · intro index packet hpacket
    obtain ⟨hlt, rfl⟩ := List.getElem?_eq_some_iff.mp hpacket
    have hindex : index < (List.range count).length := hall.length_eq ▸ hlt
    have hget := hall.get hindex hlt
    rw [List.get_eq_getElem, List.get_eq_getElem, List.getElem_range] at hget
    exact ⟨by rwa [List.length_range] at hindex, hget⟩

variable [DecidableEq A]

/-- The table after any arrivals, from our message's side. -/
theorem Lawful.tracks (h : m.Lawful) {frame : Bytes} {msgId : U8} {others : List (FragKey A)}
    {packets : List Bytes} (hlen : frame.length ≤ m.sizes.maxReassembledLen)
    (hpackets : ∀ index packet, packets[index]? = some packet →
      ∃ hdr, m.decode packet = some (m.addr, hdr, Pieces.piece m.sizes.fragPayload frame index) ∧
        hdr.Heads m.sizes frame msgId index)
    (hcount : packets.length = Pieces.count m.sizes.fragPayload frame.length)
    (hkey : ⟨m.addr, msgId⟩ ∉ others) (hothers : others.length < m.sizes.maxReassemblies)
    {start : σ} (hstart : ∀ e ∈ (m.table start).entries, e.key ∈ others)
    {arrivals : List Arrival} (hallowed : ∀ a ∈ arrivals, m.Allowed packets.length others a) :
    (m.table (Run.run (m.receive packets) start arrivals)).Tracks frame ⟨m.addr, msgId⟩ others
      (Arrival.collected packets.length arrivals) := by
  induction arrivals using List.reverseRecOn with
  | nil =>
    constructor
    · exact fun e he => Or.inr (hstart e he)
    · exact fun e he heq => absurd (heq ▸ hstart e he) hkey
    · exact fun hne => absurd rfl hne.ne_empty
    · exact Finset.empty_subset _
  | append_singleton arrivals a ih =>
    have hbefore := ih fun x hx => hallowed x (List.mem_append_left _ hx)
    have ha := hallowed a (List.mem_append_right _ List.mem_cons_self)
    rw [Run.run_append_singleton, Arrival.collected_append_singleton]
    cases a with
    | ours index metrics =>
      have hlt : index < packets.length := ha
      have hpacket := List.getElem?_eq_getElem hlt
      obtain ⟨hdr, hdecode, hdrOf⟩ := hpackets index _ hpacket
      obtain ⟨htable, _⟩ := h.accept_decoded
        (Run.run (m.receive packets) start arrivals) _ _ _ _ metrics hdecode
      have hid : hdr.msgId = msgId := hdrOf.msgId_eq
      rw [receive_ours hpacket, htable, hid]
      rw [hcount] at hbefore ⊢
      exact (hbefore.accept_ours hdrOf hlen).2
    | other packet metrics =>
      have hstray : m.Stray others packet := ha
      show (m.table (m.accept (Run.run (m.receive packets) start arrivals) packet metrics).1).Tracks
        frame ⟨m.addr, msgId⟩ others _
      rcases hstray with hrefused | hskipped | ⟨addr, hdr, body, hdecode, hmem⟩
      · rw [h.accept_refused _ _ _ hrefused]
        exact hbefore
      · rw [h.accept_skipped _ _ _ hskipped]
        exact hbefore
      · rw [(h.accept_decoded _ _ _ _ _ metrics hdecode).1]
        exact hbefore.accept_other hmem hkey hothers hdr body metrics

/-- The laws are enough. -/
theorem Lawful.roundTrips (h : m.Lawful) : m.RoundTrips := by
  intro data frame hassemble msgId
  obtain ⟨hframe, hlen⟩ := h.assemble_eq data frame hassemble
  have hheader : linkHeaderLen ≤ frame.length := by
    rw [hframe, length_assembled]
    exact Nat.le_add_right _ _
  have hmax := m.sizes.count_le hlen
  have hmax' : Pieces.count m.sizes.fragPayload frame.length ≤ 15 := hmax
  obtain ⟨packets, hfragments, hcount, hbuilt⟩ :=
    fragments_eq (h.count_eq frame hheader hlen) fun index hindex =>
      (h.build_eq frame msgId index hindex hmax).imp fun _ hp => hp.1
  have hpackets : ∀ index packet, packets[index]? = some packet →
      ∃ hdr, m.decode packet = some (m.addr, hdr, Pieces.piece m.sizes.fragPayload frame index) ∧
        hdr.Heads m.sizes frame msgId index := by
    intro index packet hpacket
    obtain ⟨hindex, hbuild⟩ := hbuilt index packet hpacket
    obtain ⟨packet', hbuild', hdecode⟩ := h.build_eq frame msgId index hindex hmax
    obtain rfl : packet' = packet := Except.ok.inj (hbuild'.symm.trans hbuild)
    exact ⟨_, hdecode, heads_of_lt hindex hmax⟩
  refine ⟨packets, hfragments, ?_, ?_, h.accept_refused, ?_⟩
  · intro index packet hpacket
    obtain ⟨hdr, hdecode, hdrOf⟩ := hpackets index packet hpacket
    exact ⟨hdr, hdecode, hdrOf.msgId_eq, hdrOf.index_eq, hdrOf.count_eq.trans hcount.symm⟩
  · intro start others arrivals hstart hkey hothers hallowed index packet hpacket metrics
    have hpos := m.sizes.reassemblies_pos
    have htracks := h.tracks hlen hpackets hcount hkey (by omega) hstart hallowed
    obtain ⟨hdr, hdecode, hdrOf⟩ := hpackets index packet hpacket
    have hid : hdr.msgId = msgId := hdrOf.msgId_eq
    rw [(h.accept_decoded _ _ _ _ _ metrics hdecode).2, hid, hcount]
    rw [hcount] at htracks
    exact (htracks.accept_ours hdrOf hlen).1
  · rw [hframe]
    exact decodeFrame_assembled _ _ _ _

end Medium

/-! ### The shared cutting -/

namespace Framing

variable {s : LinkSizes}

theorem assembleFrame_eq {origin : Mac} {data : LinkFrameData} {outLen : Nat} {frame : Bytes}
    (h : assembleFrame s origin data outLen = .ok frame) :
    frame = data.dst.asBytes ++ origin.asBytes ++ toBeBytes data.protocol ++ data.payload ∧
      frame.length ≤ s.maxReassembledLen := by
  have hheader := s.header_le
  unfold assembleFrame maxPayloadLen at h
  split at h
  · cases h
  · split at h
    · cases h
    · cases h
      refine ⟨rfl, ?_⟩
      rw [length_assembled]
      omega

theorem fragmentCount_ok {len : Nat} (h : len ≤ s.maxReassembledLen) :
    fragmentCount s len = .ok (Pieces.count s.fragPayload len) := by
  unfold fragmentCount
  exact if_neg (Nat.not_lt.mpr (s.count_le h))

theorem fragmentBody_ok {frame : Bytes} {index : Nat}
    (hindex : index < Pieces.count s.fragPayload frame.length)
    (hmax : Pieces.count s.fragPayload frame.length ≤ maxFragments) :
    fragmentBody s frame index (Pieces.count s.fragPayload frame.length) =
      .ok (Pieces.piece s.fragPayload frame index) := by
  have hcount : fragmentCount s frame.length = .ok (Pieces.count s.fragPayload frame.length) :=
    if_neg (Nat.not_lt.mpr hmax)
  unfold fragmentBody
  rw [if_neg (by omega), hcount]
  dsimp only
  rw [if_neg (not_not.mpr rfl), Pieces.take_drop_min]

end Framing

theorem Reassembler.accept_malformed {A : Type} [DecidableEq A] {s : LinkSizes}
    (t : Reassembler A s) (key : FragKey A) {hdr : FragHeader} {body : Bytes}
    (metrics : LinkMetrics) (h : s.malformed hdr body = true) :
    t.accept key hdr body metrics = (t, none) := by
  unfold accept acceptEntries
  simp only [h, if_true]

/-! ### Tables behind one decoder -/

section Decoder

variable {A : Type} [DecidableEq A] {s : LinkSizes}
  {decode : Bytes → Except LinkError (A × FragHeader × Bytes)}

def refusedBy (s : LinkSizes) (decode : Bytes → Except LinkError (A × FragHeader × Bytes))
    (buf : Bytes) : Bool :=
  match decode buf with
  | .error _ => true
  | .ok (_, hdr, body) => s.malformed hdr body

theorem acceptDecoded_some {t : Reassembler A s} {packet : Bytes} {addr : A} {hdr : FragHeader}
    {body : Bytes} {metrics : LinkMetrics} (h : (decode packet).toOption = some (addr, hdr, body)) :
    acceptDecoded decode t packet metrics = t.accept ⟨addr, hdr.msgId⟩ hdr body metrics := by
  unfold acceptDecoded
  cases hdecode : decode packet with
  | error err =>
    rw [hdecode] at h
    cases h
  | ok v =>
    rw [hdecode] at h
    cases h
    rfl

theorem acceptDecoded_none {t : Reassembler A s} {packet : Bytes} {metrics : LinkMetrics}
    (h : (decode packet).toOption = none) : acceptDecoded decode t packet metrics = (t, none) := by
  unfold acceptDecoded
  cases hdecode : decode packet with
  | error err => rfl
  | ok v =>
    rw [hdecode] at h
    cases h

theorem acceptDecoded_refused {t : Reassembler A s} {packet : Bytes} {metrics : LinkMetrics}
    (h : refusedBy s decode packet = true) :
    acceptDecoded decode t packet metrics = (t, none) := by
  unfold refusedBy at h
  unfold acceptDecoded
  cases hdecode : decode packet with
  | error err => rfl
  | ok v =>
    rw [hdecode] at h
    exact Reassembler.accept_malformed _ _ _ h

end Decoder

/-! ### IEEE 802.15.4 -/

namespace Ieee802154

/-- The node `origin` sending under the short address `srcAddr`; `seq` numbers its packets. -/
def medium (origin : Mac) (srcAddr : U16) (seq : Nat → U8) (outLen : Nat) :
    Medium U16 (Reassembler U16 sizes) where
  sizes := sizes
  origin := origin
  addr := srcAddr
  assemble data := Framing.assembleFrame sizes origin data outLen
  count := Framing.fragmentCount sizes
  build frame msgId index count :=
    buildFragment frame ⟨seq index, srcAddr, msgId, index, count⟩ maxFrameLen
  decode buf := (decodeFragment buf).toOption
  refused := refusedBy sizes decodeFragment
  table t := t
  accept := acceptFragment

@[simp] theorem refFromPrefix_asBytes (h : Header) (rest : Bytes) :
    Header.refFromPrefix (h.asBytes ++ rest) = some (h, rest) := by
  unfold Header.asBytes toLeBytes toBeBytes
  simp only [List.reverse_cons, List.reverse_nil, List.nil_append, List.cons_append,
    Header.refFromPrefix, fromBeBytes_extract]

/-- The header every packet of this crate has. -/
def headerOf (seq : U8) (srcAddr : U16) : Header :=
  ⟨frameControl, seq, broadcastAddr, broadcastAddr, srcAddr⟩

theorem decodeFragment_header (seq : U8) (srcAddr : U16) {hdr : FragHeader} {rest body : Bytes}
    (hlen : fragHdrLen ≤ rest.length) (hparse : parseFragment rest = some (hdr, body)) :
    decodeFragment ((headerOf seq srcAddr).asBytes ++ rest) = .ok (srcAddr, hdr, body) := by
  have hheader : (headerOf seq srcAddr).asBytes.length = headerLen := rfl
  unfold decodeFragment
  rw [if_neg (by rw [List.length_append, hheader]; omega), refFromPrefix_asBytes]
  dsimp only [headerOf]
  rw [if_neg (by simp), hparse]

theorem buildFragment_ok {frame : Bytes} (seq : U8) (srcAddr : U16) (msgId : U8) {index : Nat}
    (hindex : index < Pieces.count sizes.fragPayload frame.length)
    (hmax : Pieces.count sizes.fragPayload frame.length ≤ maxFragments) :
    buildFragment frame
        ⟨seq, srcAddr, msgId, index, Pieces.count sizes.fragPayload frame.length⟩ maxFrameLen =
      .ok ((headerOf seq srcAddr).asBytes ++
        (packHeader msgId index (Pieces.count sizes.fragPayload frame.length) ++
          Pieces.piece sizes.fragPayload frame index)) := by
  have hfit := Pieces.length_piece_le sizes.fragPayload frame index
  have hsize : maxFrameLen = headerLen + fragHdrLen + sizes.fragPayload := rfl
  unfold buildFragment
  dsimp only
  rw [Framing.fragmentBody_ok hindex hmax]
  exact if_neg (by omega)

theorem medium_lawful (origin : Mac) (srcAddr : U16) (seq : Nat → U8) (outLen : Nat) :
    (medium origin srcAddr seq outLen).Lawful where
  assemble_eq _ _ h := Framing.assembleFrame_eq h
  count_eq _ _ h := Framing.fragmentCount_ok h
  build_eq _ msgId index hindex hmax :=
    ⟨_, buildFragment_ok (seq index) srcAddr msgId hindex hmax,
      congrArg Except.toOption (decodeFragment_header (seq index) srcAddr (Nat.le_add_left _ _)
        (parseFragment_packHeader msgId _ hindex hmax))⟩
  accept_decoded st packet addr hdr body metrics h := by
    have heq : acceptFragment st packet metrics =
        st.accept ⟨addr, hdr.msgId⟩ hdr body metrics := acceptDecoded_some h
    exact ⟨congrArg Prod.fst heq, congrArg Prod.snd heq⟩
  accept_skipped st packet metrics h := by
    have heq : acceptFragment st packet metrics = (st, none) := acceptDecoded_none h
    exact congrArg Prod.fst heq
  accept_refused st packet metrics h :=
    show acceptFragment st packet metrics = (st, none) from acceptDecoded_refused h

end Ieee802154

/-! ### Raw LoRa -/

namespace LoraLink

/-- The node `origin` sending under `srcId` on the network `netId`. -/
def medium (origin : Mac) (netId : U8) (srcId : U16) (outLen : Nat) :
    Medium U16 (Reassembler U16 sizes) where
  sizes := sizes
  origin := origin
  addr := srcId
  assemble data := Framing.assembleFrame sizes origin data outLen
  count := Framing.fragmentCount sizes
  build frame msgId index count := buildFragment netId srcId frame ⟨msgId, index, count⟩ maxFrameLen
  decode buf := (decodeFragment netId buf).toOption
  refused := refusedBy sizes (decodeFragment netId)
  table t := t
  accept t := acceptFragment t netId

theorem decodeFragment_header (netId : U8) (srcId : U16) {hdr : FragHeader} {rest body : Bytes}
    (hlen : fragHdrLen ≤ rest.length) (hparse : parseFragment rest = some (hdr, body)) :
    decodeFragment netId (netId :: toBeBytes srcId ++ rest) = .ok (srcId, hdr, body) := by
  have hheader : headerLen = 3 := rfl
  unfold toBeBytes
  simp only [List.cons_append, List.nil_append, decodeFragment, List.length_cons]
  rw [if_neg (by simp only [ne_eq, not_true_eq_false, or_false]; omega), hparse,
    fromBeBytes_extract]

theorem buildFragment_ok {frame : Bytes} (netId : U8) (srcId : U16) (msgId : U8) {index : Nat}
    (hindex : index < Pieces.count sizes.fragPayload frame.length)
    (hmax : Pieces.count sizes.fragPayload frame.length ≤ maxFragments) :
    buildFragment netId srcId frame
        ⟨msgId, index, Pieces.count sizes.fragPayload frame.length⟩ maxFrameLen =
      .ok (netId :: toBeBytes srcId ++
        (packHeader msgId index (Pieces.count sizes.fragPayload frame.length) ++
          Pieces.piece sizes.fragPayload frame index)) := by
  have hfit := Pieces.length_piece_le sizes.fragPayload frame index
  have hsize : maxFrameLen = headerLen + fragHdrLen + sizes.fragPayload := rfl
  unfold buildFragment
  dsimp only
  rw [Framing.fragmentBody_ok hindex hmax]
  exact if_neg (by omega)

theorem medium_lawful (origin : Mac) (netId : U8) (srcId : U16) (outLen : Nat) :
    (medium origin netId srcId outLen).Lawful where
  assemble_eq _ _ h := Framing.assembleFrame_eq h
  count_eq _ _ h := Framing.fragmentCount_ok h
  build_eq _ msgId _ hindex hmax :=
    ⟨_, buildFragment_ok netId srcId msgId hindex hmax,
      congrArg Except.toOption (decodeFragment_header netId srcId (Nat.le_add_left _ _)
        (parseFragment_packHeader msgId _ hindex hmax))⟩
  accept_decoded st packet addr hdr body metrics h := by
    have heq : acceptFragment st netId packet metrics =
        st.accept ⟨addr, hdr.msgId⟩ hdr body metrics := acceptDecoded_some h
    exact ⟨congrArg Prod.fst heq, congrArg Prod.snd heq⟩
  accept_skipped st packet metrics h := by
    have heq : acceptFragment st netId packet metrics = (st, none) := acceptDecoded_none h
    exact congrArg Prod.fst heq
  accept_refused st packet metrics h :=
    show acceptFragment st netId packet metrics = (st, none) from acceptDecoded_refused h

end LoraLink

/-! ### Bluetooth advertising -/

namespace Blue

/-- The packet as the table of `format` sees it. -/
def decodeAs (format : BleAdvFormat) (packet : Bytes) : Option (Mac × FragHeader × Bytes) :=
  match parseFragmentWithOrigin packet with
  | none => none
  | some (f, hdr, origin, body) => if f = format then some (origin, hdr, body) else none

def refused (packet : Bytes) : Bool :=
  match parseFragmentWithOrigin packet with
  | none => true
  | some (f, hdr, _, body) => (sizes f).malformed hdr body

/-- The node `origin` sending in one of the formats; the receiver has a table for each. -/
def medium (origin : Mac) (format : BleAdvFormat) : Medium Mac BleTables where
  sizes := sizes format
  origin := origin
  addr := origin
  assemble := assembleFrame origin
  count frameLen := fragmentCount frameLen format
  build frame msgId index count := buildFragment frame ⟨origin, msgId, index, count, format⟩
  decode := decodeAs format
  refused := refused
  table t := t.table format
  accept := acceptReport

theorem sizes_maxReassembledLen (format : BleAdvFormat) :
    (sizes format).maxReassembledLen = maxReassembledLen := by
  cases format <;> rfl

theorem assembleFrame_eq {origin : Mac} {data : LinkFrameData} {frame : Bytes}
    (h : assembleFrame origin data = .ok frame) :
    frame = data.dst.asBytes ++ origin.asBytes ++ toBeBytes data.protocol ++ data.payload ∧
      frame.length ≤ maxReassembledLen := by
  unfold assembleFrame at h
  split at h
  · cases h
  · cases h
    refine ⟨rfl, ?_⟩
    rw [length_assembled]
    omega

/-- An assembled frame is not empty, so the missing lower bound makes no difference. -/
theorem fragmentCount_ok {frameLen : Nat} {format : BleAdvFormat} (hpos : 0 < frameLen)
    (h : frameLen ≤ (sizes format).maxReassembledLen) :
    fragmentCount frameLen format = .ok (Pieces.count (sizes format).fragPayload frameLen) := by
  have hstride := (sizes format).fragPayload_pos
  have hone : 1 ≤ divCeil frameLen (sizes format).fragPayload := by
    unfold divCeil
    rw [Nat.le_div_iff_mul_le hstride]
    omega
  have hcount : Pieces.count (sizes format).fragPayload frameLen =
      divCeil frameLen (sizes format).fragPayload := Nat.max_eq_left hone
  have hmax := (sizes format).count_le h
  unfold fragmentCount
  rw [hcount] at hmax ⊢
  exact if_neg (Nat.not_lt.mpr hmax)

theorem buildFragment_ok {frame : Bytes} (origin : Mac) (msgId : U8) (format : BleAdvFormat)
    {index : Nat} (hindex : index < Pieces.count (sizes format).fragPayload frame.length) :
    buildFragment frame
        ⟨origin, msgId, index, Pieces.count (sizes format).fragPayload frame.length, format⟩ =
      .ok (format.tag ::
        (packHeader msgId index (Pieces.count (sizes format).fragPayload frame.length) ++
          (origin.asBytes ++ Pieces.piece (sizes format).fragPayload frame index))) := by
  have hstart := Pieces.start_le (sizes format).fragPayload_pos hindex
  unfold buildFragment
  dsimp only
  rw [if_neg (by omega), Pieces.take_drop_min]

theorem decodeAs_build (format : BleAdvFormat) (origin : Mac) {hdr : FragHeader}
    {rest body : Bytes} (hparse : parseFragment rest = some (hdr, origin.asBytes ++ body)) :
    decodeAs format (format.tag :: rest) = some (origin, hdr, body) := by
  have hlen : originLen = origin.asBytes.length := rfl
  unfold decodeAs parseFragmentWithOrigin
  dsimp only
  rw [BleAdvFormat.fromTag_tag]
  dsimp only
  rw [hparse]
  dsimp only
  rw [if_neg (by rw [List.length_append]; omega), hlen, List.take_left, Mac.tryFrom_asBytes]
  dsimp only
  rw [if_pos rfl, List.drop_left]

theorem acceptReport_decoded {format : BleAdvFormat} {t : BleTables} {packet : Bytes} {addr : Mac}
    {hdr : FragHeader} {body : Bytes} {metrics : LinkMetrics}
    (h : decodeAs format packet = some (addr, hdr, body)) :
    (acceptReport t packet metrics).1.table format =
        ((t.table format).accept ⟨addr, hdr.msgId⟩ hdr body metrics).1 ∧
      (acceptReport t packet metrics).2 =
        ((t.table format).accept ⟨addr, hdr.msgId⟩ hdr body metrics).2 := by
  unfold decodeAs at h
  unfold acceptReport
  cases hparse : parseFragmentWithOrigin packet with
  | none =>
    rw [hparse] at h
    cases h
  | some v =>
    obtain ⟨f, hdr', origin, body'⟩ := v
    rw [hparse] at h
    dsimp only at h
    by_cases hf : f = format
    · rw [if_pos hf] at h
      cases h
      subst hf
      cases f <;> exact ⟨rfl, rfl⟩
    · rw [if_neg hf] at h
      cases h

theorem acceptReport_skipped {format : BleAdvFormat} {t : BleTables} {packet : Bytes}
    {metrics : LinkMetrics} (h : decodeAs format packet = none) :
    (acceptReport t packet metrics).1.table format = t.table format := by
  unfold decodeAs at h
  unfold acceptReport
  cases hparse : parseFragmentWithOrigin packet with
  | none => rfl
  | some v =>
    obtain ⟨f, hdr, origin, body⟩ := v
    rw [hparse] at h
    dsimp only at h
    by_cases hf : f = format
    · rw [if_pos hf] at h
      cases h
    · cases f <;> cases format
      · exact absurd rfl hf
      · rfl
      · rfl
      · exact absurd rfl hf

theorem acceptReport_refused {t : BleTables} {packet : Bytes} {metrics : LinkMetrics}
    (h : refused packet = true) : acceptReport t packet metrics = (t, none) := by
  unfold refused at h
  unfold acceptReport
  cases hparse : parseFragmentWithOrigin packet with
  | none => rfl
  | some v =>
    obtain ⟨f, hdr, origin, body⟩ := v
    rw [hparse] at h
    cases f with
    | legacy =>
      dsimp only
      rw [Reassembler.accept_malformed t.legacy _ _ h]
    | extended =>
      dsimp only
      rw [Reassembler.accept_malformed t.extended _ _ h]

theorem medium_lawful (origin : Mac) (format : BleAdvFormat) : (medium origin format).Lawful where
  assemble_eq _ _ h := by
    show _ ∧ _ ≤ (sizes format).maxReassembledLen
    rw [sizes_maxReassembledLen]
    exact assembleFrame_eq h
  count_eq _ hheader h := fragmentCount_ok (Nat.lt_of_lt_of_le (by decide) hheader) h
  build_eq _ msgId _ hindex hmax :=
    ⟨_, buildFragment_ok origin msgId format hindex,
      decodeAs_build format origin (parseFragment_packHeader msgId _ hindex hmax)⟩
  accept_decoded _ _ _ _ _ _ h := acceptReport_decoded h
  accept_skipped _ _ _ h := acceptReport_skipped h
  accept_refused _ _ _ h := acceptReport_refused h

end Blue

/-! ### The four of them -/

/-- Whatever a medium assembles comes back whole, once for every full set of its fragments. -/
theorem fragmentation_round_trip (origin : Mac) (srcAddr srcId : U16) (seq : Nat → U8) (netId : U8)
    (outLen : Nat) :
    (Ieee802154.medium origin srcAddr seq outLen).RoundTrips ∧
      (LoraLink.medium origin netId srcId outLen).RoundTrips ∧
      (Blue.medium origin .legacy).RoundTrips ∧ (Blue.medium origin .extended).RoundTrips := by
  refine ⟨?_, ?_, ?_, ?_⟩
  · exact (Ieee802154.medium_lawful origin srcAddr seq outLen).roundTrips
  · exact (LoraLink.medium_lawful origin netId srcId outLen).roundTrips
  · exact (Blue.medium_lawful origin .legacy).roundTrips
  · exact (Blue.medium_lawful origin .extended).roundTrips

end Wayfinder

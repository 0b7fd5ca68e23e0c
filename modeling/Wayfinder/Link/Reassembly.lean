import Wayfinder.Link.Media
import Wayfinder.Lib.Run

/-!
# Whose bytes a completed frame is made of

A message in flight holds the pieces of one frame as long as every fragment stored
in it was cut from that frame. Message ids wrap at 256 and nothing but the room in
the table takes an incomplete message away, so a fragment may meet what is left of
a frame sent 256 frames before.
-/

namespace Wayfinder

set_option autoImplicit false

/-! ### Cutting and packing -/

theorem fragmentCount_eq (s : LinkSizes) {len count : Nat}
    (h : Framing.fragmentCount s len = .ok count) :
    count = Pieces.count s.fragPayload len ∧ count ≤ maxFragments := by
  unfold Framing.fragmentCount at h
  dsimp only at h
  split at h
  · cases h
  · cases h
    exact ⟨rfl, Nat.not_lt.mp ‹_›⟩

theorem fragmentBody_eq (s : LinkSizes) {frame body : Bytes} {index count : Nat}
    (h : Framing.fragmentBody s frame index count = .ok body) :
    index < count ∧ count ≤ maxFragments ∧ count = Pieces.count s.fragPayload frame.length ∧
      body = Pieces.piece s.fragPayload frame index := by
  unfold Framing.fragmentBody at h
  by_cases hspec : count < 1 ∨ maxFragments < count ∨ count ≤ index
  · rw [if_pos hspec] at h
    cases h
  · rw [if_neg hspec] at h
    cases hcount : Framing.fragmentCount s frame.length with
    | error err =>
      rw [hcount] at h
      cases h
    | ok expected =>
      rw [hcount] at h
      obtain ⟨hexpected, _⟩ := fragmentCount_eq s hcount
      dsimp only at h
      split at h
      · cases h
      · have heq : count = expected := not_not.mp ‹_›
        cases h
        exact ⟨by omega, by omega, by omega, Pieces.take_drop_min _ _ _⟩

theorem unpack_nibbles {index count : Nat} (hindex : index < 16) (hcount : count < 16) :
    ((BitVec.ofNat 8 index <<< 4) ||| BitVec.ofNat 8 count) >>> 4 = BitVec.ofNat 8 index ∧
      ((BitVec.ofNat 8 index <<< 4) ||| BitVec.ofNat 8 count) &&& 0x0F = BitVec.ofNat 8 count := by
  have hall : ∀ i c : Fin 16,
      ((BitVec.ofNat 8 i.val <<< 4) ||| BitVec.ofNat 8 c.val) >>> 4 = BitVec.ofNat 8 i.val ∧
        ((BitVec.ofNat 8 i.val <<< 4) ||| BitVec.ofNat 8 c.val) &&& 0x0F = BitVec.ofNat 8 c.val := by
    decide
  exact hall ⟨index, hindex⟩ ⟨count, hcount⟩

theorem parseFragment_packHeader (msgId : U8) {index count : Nat} (body : Bytes)
    (hindex : index < count) (hcount : count ≤ maxFragments) :
    parseFragment (packHeader msgId index count ++ body) =
      some (⟨msgId, BitVec.ofNat 8 index, BitVec.ofNat 8 count⟩, body) := by
  have hmax : count ≤ 15 := hcount
  obtain ⟨hhigh, hlow⟩ := unpack_nibbles (show index < 16 by omega) (show count < 16 by omega)
  have hok : ¬ (BitVec.ofNat 8 count = 0 ∨ BitVec.ofNat 8 count ≤ BitVec.ofNat 8 index) := by
    rw [BitVec.le_def, ← BitVec.toNat_inj]
    simp only [BitVec.toNat_ofNat]
    show ¬ (count % 256 = 0 ∨ count % 256 ≤ index % 256)
    omega
  unfold parseFragment packHeader
  simp only [List.cons_append, List.nil_append]
  rw [hhigh, hlow, if_neg hok]

/-! ### The bits of a message -/

theorem getLsbD_one_shiftLeft (n i : Nat) :
    (1#16 <<< n).getLsbD i = (decide (i = n) && decide (i < 16)) := by
  rw [BitVec.getLsbD_shiftLeft, BitVec.getLsbD_one]
  by_cases hi : i < 16
  · by_cases hn : i < n
    · simp [hi, hn]
      omega
    · simp [hi, hn]
      omega
  · simp [hi]

theorem getLsbD_lowMask {n i : Nat} (hn : n < 16) :
    ((1#16 <<< n) - 1).getLsbD i = decide (i < n) := by
  have hpow : 2 ^ n < 2 ^ 16 := Nat.pow_lt_pow_right (by decide) hn
  have hone : (1#16 <<< n).toNat = 2 ^ n := by
    rw [BitVec.toNat_shiftLeft, Nat.shiftLeft_eq]
    show 1 * 2 ^ n % 2 ^ 16 = 2 ^ n
    rw [Nat.one_mul, Nat.mod_eq_of_lt hpow]
  have hsub : ((1#16 <<< n) - 1).toNat = 2 ^ n - 1 := by
    have hpos : 0 < 2 ^ n := Nat.two_pow_pos n
    rw [BitVec.toNat_sub_of_le, hone]
    · rfl
    · rw [BitVec.le_def, hone]
      exact hpos
  rw [← BitVec.testBit_toNat, hsub, Nat.testBit_two_pow_sub_one]

namespace Reassembly

variable {A : Type} {s : LinkSizes} {e : Reassembly A}

def has (e : Reassembly A) (i : Nat) : Prop := e.got.getLsbD i = true

instance (e : Reassembly A) (i : Nat) : Decidable (e.has i) :=
  inferInstanceAs (Decidable (e.got.getLsbD i = true))

theorem isComplete_iff (hcount : e.count.toNat < 16) :
    e.isComplete = true ↔ ∀ i, i < e.count.toNat → e.has i := by
  unfold isComplete has
  rw [beq_iff_eq]
  constructor
  · intro h i hi
    have hbit := congrArg (BitVec.getLsbD · i) h
    simp only [BitVec.getLsbD_and, getLsbD_lowMask hcount, hi, decide_true, Bool.and_true] at hbit
    exact hbit
  · intro h
    apply BitVec.eq_of_getLsbD_eq
    intro i _
    rw [BitVec.getLsbD_and, getLsbD_lowMask hcount]
    by_cases hi : i < e.count.toNat
    · rw [h i hi, decide_eq_true hi]
      rfl
    · rw [decide_eq_false hi, Bool.and_false]

theorem not_has_new (key : FragKey A) (count : U8) (i : Nat) : ¬ (new s key count).has i := by
  unfold has new
  simp

variable {hdr : FragHeader} {body : Bytes} {metrics : LinkMetrics}

theorem and_bit_eq_zero_iff {n : Nat} (hn : n < 16) :
    e.got &&& (1#16 <<< n) = 0 ↔ ¬ e.has n := by
  unfold has
  constructor
  · intro h hbit
    have hone : (1#16 <<< n).getLsbD n = true := by
      rw [getLsbD_one_shiftLeft, decide_eq_true rfl, decide_eq_true hn]
      rfl
    have hand : (e.got &&& 1#16 <<< n).getLsbD n = true := by
      rw [BitVec.getLsbD_and, hbit, hone]
      rfl
    rw [h] at hand
    exact absurd hand (by simp)
  · intro h
    apply BitVec.eq_of_getLsbD_eq
    intro i hi
    rw [BitVec.getLsbD_and, getLsbD_one_shiftLeft]
    by_cases heq : i = n
    · subst heq
      simp [h]
    · simp [heq]

theorem has_store (hindex : hdr.index.toNat < 16) (i : Nat) :
    (e.store s hdr body metrics).has i ↔ i = hdr.index.toNat ∨ e.has i := by
  unfold store
  dsimp only
  split
  · unfold has
    dsimp only
    rw [BitVec.getLsbD_or, getLsbD_one_shiftLeft]
    by_cases heq : i = hdr.index.toNat
    · simp [heq, hindex]
    · simp [heq]
  · have hhas : e.has hdr.index.toNat := by
      by_contra hnot
      exact absurd ((and_bit_eq_zero_iff hindex).mpr hnot) ‹_›
    constructor
    · exact Or.inr
    · rintro (rfl | h)
      · exact hhas
      · exact h

@[simp] theorem metrics_store : (e.store s hdr body metrics).metrics = metrics := by
  unfold store
  dsimp only
  split <;> rfl

/-- Whatever is in of the message was cut from `frame`. -/
def Of (s : LinkSizes) (frame : Bytes) (e : Reassembly A) : Prop :=
  Pieces.Holds s.fragPayload frame e.buf e.len e.has

theorem of_new (frame : Bytes) (key : FragKey A) (count : U8) : (new s key count).Of s frame := by
  apply (Pieces.Holds.none s.fragPayload frame _).congr
  intro i
  exact iff_of_false (not_has_new key count i) id

theorem Of.store {frame : Bytes} (h : e.Of s frame) (hbuf : e.buf.length = s.maxReassembledLen)
    (hindex : hdr.index.toNat < Pieces.count s.fragPayload frame.length)
    (hcount : Pieces.count s.fragPayload frame.length < 16)
    (hbody : body = Pieces.piece s.fragPayload frame hdr.index.toNat)
    (hfit : hdr.index.toNat * s.fragPayload + body.length ≤ s.maxReassembledLen) :
    (e.store s hdr body metrics).Of s frame := by
  have hlt : hdr.index.toNat < 16 := Nat.lt_trans hindex hcount
  subst hbody
  by_cases hhas : e.has hdr.index.toNat
  · have hsame : e.store s hdr (Pieces.piece s.fragPayload frame hdr.index.toNat) metrics =
        { e with metrics := metrics } := by
      unfold Reassembly.store
      dsimp only
      rw [if_neg fun hzero => (and_bit_eq_zero_iff hlt).mp hzero hhas]
    rw [hsame]
    exact h
  · have hstored := Pieces.Holds.store h s.fragPayload_pos hindex (hbuf ▸ hfit)
    have hgot : ∀ i, (e.store s hdr (Pieces.piece s.fragPayload frame hdr.index.toNat)
        metrics).has i ↔ i = hdr.index.toNat ∨ e.has i := has_store hlt
    unfold Of
    unfold Reassembly.store at hgot ⊢
    dsimp only at hgot ⊢
    rw [if_pos ((and_bit_eq_zero_iff hlt).mpr hhas)] at hgot ⊢
    exact hstored.congr hgot

theorem Of.complete {frame : Bytes} (h : e.Of s frame)
    (hcount : e.count.toNat = Pieces.count s.fragPayload frame.length) (hlt : e.count.toNat < 16)
    (hall : e.isComplete = true) : e.buf.take e.len = frame := by
  apply Pieces.Holds.complete h s.fragPayload_pos
  intro i hi
  exact (isComplete_iff hlt).mp hall i (by omega)

end Reassembly

/-! ### Deliveries -/

section Deliveries

variable {A : Type} {s : LinkSizes}

/-- The packet content for one fragment: `fragment_count`, `fragment_body`, `pack_header`. -/
def fragmentBytes (s : LinkSizes) (frame : Bytes) (msgId : U8) (index : Nat) :
    Except LinkError Bytes :=
  match Framing.fragmentCount s frame.length with
  | .error err => .error err
  | .ok count =>
    match Framing.fragmentBody s frame index count with
    | .error err => .error err
    | .ok body => .ok (packHeader msgId index count ++ body)

/-- `hdr` heads the fragment `index` of `frame`. -/
structure FragHeader.Heads (s : LinkSizes) (frame : Bytes) (msgId : U8) (index : Nat)
    (hdr : FragHeader) : Prop where
  msgId_eq : hdr.msgId = msgId
  index_eq : hdr.index.toNat = index
  count_eq : hdr.count.toNat = Pieces.count s.fragPayload frame.length
  index_lt : index < Pieces.count s.fragPayload frame.length
  count_lt : Pieces.count s.fragPayload frame.length < 16

theorem heads_of_lt {frame : Bytes} {msgId : U8} {index : Nat}
    (hindex : index < Pieces.count s.fragPayload frame.length)
    (hmax : Pieces.count s.fragPayload frame.length ≤ maxFragments) :
    FragHeader.Heads s frame msgId index
      ⟨msgId, BitVec.ofNat 8 index, BitVec.ofNat 8 (Pieces.count s.fragPayload frame.length)⟩ := by
  have hmax : Pieces.count s.fragPayload frame.length ≤ 15 := hmax
  constructor
  · rfl
  · exact Nat.mod_eq_of_lt (by omega)
  · exact Nat.mod_eq_of_lt (by omega)
  · exact hindex
  · omega

theorem parse_fragmentBytes {frame packet : Bytes} {msgId : U8} {index : Nat}
    (h : fragmentBytes s frame msgId index = .ok packet) :
    ∃ hdr, parseFragment packet = some (hdr, Pieces.piece s.fragPayload frame index) ∧
      hdr.Heads s frame msgId index := by
  unfold fragmentBytes at h
  split at h
  · cases h
  · split at h
    · cases h
    · rename_i count hcut _ body hbody
      obtain ⟨hindex, hmax, hcount, rfl⟩ := fragmentBody_eq s hbody
      cases h
      subst hcount
      exact ⟨_, parseFragment_packHeader _ _ hindex hmax, heads_of_lt hindex hmax⟩

structure Delivery (A : Type) where
  addr : A
  number : Nat
  index : Nat
  metrics : LinkMetrics
  deriving DecidableEq, Repr

theorem Reassembler.Slot.of {entries : List (Reassembly A)} {key : FragKey A} {count : U8}
    {pre post : List (Reassembly A)} {e : Reassembly A} {frame : Bytes}
    (h : Reassembler.Slot s entries key count pre e post)
    (hjoins : ∀ e ∈ entries, e.key = key → e.count = count → e.Of s frame) : e.Of s frame := by
  cases h with
  | held split hkey hcount =>
    apply hjoins _ _ hkey hcount
    rw [split]
    exact List.mem_append_right _ List.mem_cons_self
  | _ => exact Reassembly.of_new _ _ _

variable [DecidableEq A]

theorem Reassembler.accept_completes {t : Reassembler A s} {frame : Bytes} {msgId : U8}
    {index : Nat} {addr : A} {hdr : FragHeader} {metrics : LinkMetrics} {out : Bytes × LinkMetrics}
    (hdrOf : hdr.Heads s frame msgId index)
    (hjoins : ∀ e ∈ t.entries, e.key = ⟨addr, hdr.msgId⟩ → e.count = hdr.count → e.Of s frame)
    (hout : (t.accept ⟨addr, hdr.msgId⟩ hdr (Pieces.piece s.fragPayload frame index) metrics).2 =
      some out) : out.1 = frame := by
  obtain ⟨_, rfl, hcount, hindex, hlt⟩ := hdrOf
  unfold accept at hout
  dsimp only at hout
  cases hbad : s.malformed hdr (Pieces.piece s.fragPayload frame hdr.index.toNat) with
  | true =>
    unfold acceptEntries at hout
    rw [if_pos hbad] at hout
    cases hout
  | false =>
    obtain ⟨pre, e, post, hslot, heq⟩ :=
      acceptEntries_spec t.entries ⟨addr, hdr.msgId⟩ metrics hbad
    have hof : e.Of s frame := hslot.of hjoins
    have hbuf : e.buf.length = s.maxReassembledLen :=
      hslot.buf_length t.buf_length e (List.mem_append_right _ List.mem_cons_self)
    have hcountStored : (e.store s hdr (Pieces.piece s.fragPayload frame hdr.index.toNat)
        metrics).count.toNat = Pieces.count s.fragPayload frame.length := by
      rw [Reassembly.count_store, hslot.count_eq, hcount]
    rw [heq] at hout
    split at hout
    · rename_i hcomplete
      cases hout
      have hstored : (e.store s hdr (Pieces.piece s.fragPayload frame hdr.index.toNat)
          metrics).Of s frame := hof.store hbuf hindex hlt rfl (fits_of_not_malformed hbad)
      exact hstored.complete hcountStored (by omega) hcomplete
    · cases hout

theorem Reassembler.accept_keeps {t : Reassembler A s} {frame : Bytes} {msgId : U8}
    {index : Nat} {addr : A} {hdr : FragHeader} {metrics : LinkMetrics}
    (hdrOf : hdr.Heads s frame msgId index)
    (hjoins : ∀ e ∈ t.entries, e.key = ⟨addr, hdr.msgId⟩ → e.count = hdr.count → e.Of s frame) :
    ∀ e ∈ (t.accept ⟨addr, hdr.msgId⟩ hdr (Pieces.piece s.fragPayload frame index)
        metrics).1.entries,
      e ∈ t.entries ∨ e.key = ⟨addr, hdr.msgId⟩ ∧ e.Of s frame := by
  obtain ⟨_, rfl, _, hindex, hlt⟩ := hdrOf
  unfold accept
  dsimp only
  cases hbad : s.malformed hdr (Pieces.piece s.fragPayload frame hdr.index.toNat) with
  | true =>
    unfold acceptEntries
    rw [if_pos hbad]
    exact fun e he => Or.inl he
  | false =>
    obtain ⟨pre, e, post, hslot, heq⟩ :=
      acceptEntries_spec t.entries ⟨addr, hdr.msgId⟩ metrics hbad
    have hsplit : ∀ x ∈ pre ++ e :: post, x ∈ t.entries ∨ x.key = ⟨addr, hdr.msgId⟩ ∧ x.Of s frame := by
      intro x hx
      apply (hslot.mem hx).imp_right
      rintro rfl
      exact ⟨rfl, Reassembly.of_new _ _ _⟩
    rw [heq]
    split
    · intro x hx
      exact hsplit x (((List.sublist_cons_self e post).append_left pre).subset hx)
    · intro x hx
      rw [List.mem_append, List.mem_cons] at hx
      rcases hx with hx | rfl | hx
      · exact hsplit x (List.mem_append_left _ hx)
      · right
        rw [Reassembly.key_store]
        have hbuf := hslot.buf_length t.buf_length e (List.mem_append_right _ List.mem_cons_self)
        exact ⟨hslot.key_eq,
          (hslot.of hjoins).store hbuf hindex hlt rfl (fits_of_not_malformed hbad)⟩
      · exact hsplit x (List.mem_append_right _ (List.mem_cons_of_mem _ hx))

/-- A receiver hears fragment `index` of the frame `number` of `addr`, whose message ids count
its frames modulo 256. -/
def deliver (frames : A → Nat → Bytes) (t : Reassembler A s) (d : Delivery A) :
    Reassembler A s × Option (Bytes × LinkMetrics) :=
  match fragmentBytes s (frames d.addr d.number) (BitVec.ofNat 8 d.number) d.index with
  | .error _ => (t, none)
  | .ok packet =>
    match parseFragment packet with
    | none => (t, none)
    | some (hdr, body) => t.accept ⟨d.addr, hdr.msgId⟩ hdr body d.metrics

def heard (frames : A → Nat → Bytes) (t : Reassembler A s) (d : Delivery A) : Reassembler A s :=
  (deliver frames t d).1

/-- Where the fragment joins a message, one of its key and count, what is buffered of that
message agrees with the fragment's own frame. -/
def Reassembler.Joins (frames : A → Nat → Bytes) (t : Reassembler A s) (d : Delivery A) : Prop :=
  ∀ e ∈ t.entries, e.key = ⟨d.addr, BitVec.ofNat 8 d.number⟩ →
    e.count.toNat = Pieces.count s.fragPayload (frames d.addr d.number).length →
    e.Of s (frames d.addr d.number)

theorem deliver_of_joins {frames : A → Nat → Bytes} {t : Reassembler A s} {d : Delivery A}
    (h : t.Joins frames d) {out : Bytes × LinkMetrics} (hout : (deliver frames t d).2 = some out) :
    out.1 = frames d.addr d.number := by
  unfold deliver at hout
  split at hout
  · cases hout
  · rename_i packet hpacket
    obtain ⟨hdr, hparse, hdrOf⟩ := parse_fragmentBytes hpacket
    rw [hparse] at hout
    apply Reassembler.accept_completes hdrOf _ hout
    intro e he hkey hcount
    apply h e he
    · rw [hkey, hdrOf.msgId_eq]
    · rw [hcount, hdrOf.count_eq]

theorem heard_keeps {frames : A → Nat → Bytes} {t : Reassembler A s} {d : Delivery A}
    (h : t.Joins frames d) : ∀ e ∈ (heard frames t d).entries,
      e ∈ t.entries ∨
        e.key = ⟨d.addr, BitVec.ofNat 8 d.number⟩ ∧ e.Of s (frames d.addr d.number) := by
  unfold heard deliver
  split
  · exact fun e he => Or.inl he
  · rename_i packet hpacket
    obtain ⟨hdr, hparse, hdrOf⟩ := parse_fragmentBytes hpacket
    rw [hparse, ← hdrOf.msgId_eq]
    apply Reassembler.accept_keeps hdrOf
    intro e he hkey hcount
    apply h e he
    · rw [hkey, hdrOf.msgId_eq]
    · rw [hcount, hdrOf.count_eq]

/-- Where no message id comes round to a second frame, nothing foreign is joined. -/
theorem joins_of_ids_apart {frames : A → Nat → Bytes} {ds : List (Delivery A)}
    (hapart : ∀ d ∈ ds, ∀ d' ∈ ds, d.addr = d'.addr →
      BitVec.ofNat 8 d.number = BitVec.ofNat 8 d'.number →
      frames d.addr d.number = frames d'.addr d'.number) :
    Run.AllSafe (heard (s := s) frames) (Reassembler.Joins frames) .empty ds := by
  have hkeep : ∀ pre, pre <+: ds → ∀ e ∈ (Run.run (heard (s := s) frames) .empty pre).entries,
      ∃ d ∈ ds, e.key = ⟨d.addr, BitVec.ofNat 8 d.number⟩ ∧ e.Of s (frames d.addr d.number) := by
    intro pre
    induction pre using List.reverseRecOn with
    | nil => exact fun _ e he => nomatch he
    | append_singleton pre d ih =>
      intro hpre e he
      have hmem : d ∈ ds := hpre.subset (List.mem_append_right _ List.mem_cons_self)
      have hbefore := ih ((List.prefix_append pre [d]).trans hpre)
      rw [Run.run_append_singleton] at he
      have hjoins : (Run.run (heard (s := s) frames) .empty pre).Joins frames d := by
        intro x hx hkey _
        obtain ⟨d', hd', hkey', hof⟩ := hbefore x hx
        obtain ⟨haddr, hid⟩ := FragKey.mk.inj (hkey'.symm.trans hkey)
        rw [← hapart d' hd' d hmem haddr hid]
        exact hof
      rcases heard_keeps hjoins e he with hold | ⟨hkey, hof⟩
      · exact hbefore e hold
      · exact ⟨d, hmem, hkey, hof⟩
  intro pre d hpre x hx hkey _
  have hmem : d ∈ ds := hpre.subset (List.mem_append_right _ List.mem_cons_self)
  obtain ⟨d', hd', hkey', hof⟩ := hkeep pre ((List.prefix_append pre [d]).trans hpre) x hx
  obtain ⟨haddr, hid⟩ := FragKey.mk.inj (hkey'.symm.trans hkey)
  rw [← hapart d' hd' d hmem haddr hid]
  exact hof

/-- In a run whose fragments join nothing foreign, a completed frame is one its sender sent. -/
theorem accept_run (frames : A → Nat → Bytes) (ds : List (Delivery A))
    (hsafe : Run.AllSafe (heard (s := s) frames) (Reassembler.Joins frames) .empty ds) :
    ∀ pre d, pre ++ [d] <+: ds →
      ∀ out, (deliver frames (Run.run (heard (s := s) frames) .empty pre) d).2 = some out →
        ∃ n, out.1 = frames d.addr n := by
  intro pre d hpre out hout
  have hjoins := hsafe pre d hpre
  exact ⟨d.number, deliver_of_joins hjoins hout⟩

end Deliveries

/-! ### An id that comes round -/

/-- The node 7 sends one frame of ones among frames of zeros, each of two fragments. -/
def roundFrames (_ : U16) (n : Nat) : Bytes := List.replicate 115 (if n = 256 then 1 else 0)

def fragmentFrom (number index : Nat) : Delivery U16 := ⟨7, number, index, .default⟩

theorem accept_run_swapped :
    ∃ n, (List.replicate 115 0 : Bytes) = roundFrames 7 n := by
  have hsafe : Run.AllSafe (heard (s := Ieee802154.sizes) roundFrames)
      (Reassembler.Joins roundFrames) .empty [fragmentFrom 0 1, fragmentFrom 0 0] := by
    apply joins_of_ids_apart
    intro d hd d' hd' _ _
    have hzero : ∀ x ∈ [fragmentFrom 0 1, fragmentFrom 0 0], x.number = 0 ∧ x.addr = 7 := by decide
    rw [(hzero d hd).1, (hzero d' hd').1, (hzero d hd).2, (hzero d' hd').2]
  have hout : (deliver roundFrames (Run.run (heard (s := Ieee802154.sizes) roundFrames) .empty
      [fragmentFrom 0 1]) (fragmentFrom 0 0)).2 = some (List.replicate 115 0, .default) := by
    decide +kernel
  exact accept_run roundFrames _ hsafe [fragmentFrom 0 1] (fragmentFrom 0 0)
    (List.prefix_refl _) _ hout

/-- The second fragment of frame 0 is lost; 256 frames later the first one of frame 256 is. -/
theorem accept_mixes :
    (deliver roundFrames (Run.run (heard (s := Ieee802154.sizes) roundFrames) .empty
        [fragmentFrom 0 0]) (fragmentFrom 256 1)).2 =
        some (List.replicate 114 0 ++ [1], .default) ∧
      ∀ n, (List.replicate 114 0 ++ [1] : Bytes) ≠ roundFrames 7 n := by
  refine ⟨by decide +kernel, ?_⟩
  intro n
  unfold roundFrames
  split
  · decide
  · decide

end Wayfinder

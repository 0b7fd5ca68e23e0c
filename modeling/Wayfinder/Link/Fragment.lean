import Wayfinder.Frame
import Wayfinder.Lib.Pieces

/-!
# Fragments, and the table they are put together in

A frame larger than a packet of its medium is cut into fragments, each behind a
two-byte header. The receiver keeps a bounded table of messages in flight, the
oldest first, and hands a frame out when the last of its fragments is in.
-/

namespace Wayfinder

set_option autoImplicit false

inductive LinkError where
  | bufferFull
  | invalidPacket
  | malformedFrame
  deriving DecidableEq, Repr

structure LinkMetrics where
  rssiDbm : Option Int
  snrDb : Option Int
  quality : Option U8
  deriving DecidableEq, Repr

namespace LinkMetrics

def default : LinkMetrics := ⟨none, none, none⟩

end LinkMetrics

def fragHdrLen : Nat := 2

def maxFragments : Nat := 15

def linkHeaderLen : Nat := 14

theorem four_slots_pos : 0 < 4 := by decide

theorem linkHeaderLen_le : linkHeaderLen ≤ 512 := by decide

/-- The const generics of `Reassembler` and `Framing`, with what their compile-time
assertions check. -/
structure LinkSizes where
  maxReassemblies : Nat
  fragPayload : Nat
  maxReassembledLen : Nat
  reassemblies_pos : 0 < maxReassemblies
  le_fragments : maxReassembledLen ≤ maxFragments * fragPayload
  payload_le : fragPayload ≤ maxReassembledLen
  -- `MAX_PAYLOAD_LEN` does not underflow
  header_le : linkHeaderLen ≤ maxReassembledLen

namespace LinkSizes

variable (s : LinkSizes)

theorem fragPayload_pos : 0 < s.fragPayload := by
  have hfragments := s.le_fragments
  have hheader := s.header_le
  unfold maxFragments at hfragments
  unfold linkHeaderLen at hheader
  omega

end LinkSizes

def divCeil (n d : Nat) : Nat := (n + d - 1) / d

def toBeBytes (n : U16) : Bytes := [n.extractLsb' 8 8, n.extractLsb' 0 8]

def fromBeBytes (hi lo : U8) : U16 := hi ++ lo

theorem fromBeBytes_extract (n : U16) : fromBeBytes (n.extractLsb' 8 8) (n.extractLsb' 0 8) = n := by
  apply BitVec.eq_of_getLsbD_eq
  intro i hi
  unfold fromBeBytes
  rw [BitVec.getLsbD_append, BitVec.getLsbD_extractLsb', BitVec.getLsbD_extractLsb']
  by_cases h : i < 8
  · simp [h]
  · rw [if_neg h, Nat.add_sub_cancel' (Nat.not_lt.mp h)]
    simp only [Bool.and_eq_right_iff_imp, decide_eq_true_eq]
    intro _
    omega

/-! ### Cutting a frame -/

/-- `pack_header`: the index in the high nibble, the count in the low one. -/
def packHeader (msgId : U8) (index count : Nat) : Bytes :=
  [msgId, (BitVec.ofNat 8 index <<< 4) ||| BitVec.ofNat 8 count]

namespace Framing

variable (s : LinkSizes)

def maxPayloadLen : Nat := s.maxReassembledLen - linkHeaderLen

/-- `assemble_frame` into a buffer of `outLen` bytes. -/
def assembleFrame (origin : Mac) (data : LinkFrameData) (outLen : Nat) : Except LinkError Bytes :=
  if maxPayloadLen s < data.payload.length then .error .bufferFull
  else if outLen < linkHeaderLen + data.payload.length then .error .bufferFull
  else .ok (data.dst.asBytes ++ origin.asBytes ++ toBeBytes data.protocol ++ data.payload)

def fragmentCount (frameLen : Nat) : Except LinkError Nat :=
  let count := max (divCeil frameLen s.fragPayload) 1
  if maxFragments < count then .error .bufferFull else .ok count

def fragmentBody (frame : Bytes) (index count : Nat) : Except LinkError Bytes :=
  if count < 1 ∨ maxFragments < count ∨ count ≤ index then .error .invalidPacket
  else
    match fragmentCount s frame.length with
    | .error err => .error err
    | .ok expected =>
      if count ≠ expected then .error .invalidPacket
      else
        let start := index * s.fragPayload
        let stop := min (start + s.fragPayload) frame.length
        .ok ((frame.drop start).take (stop - start))

end Framing

/-- `decode_frame`: the bytes of a frame read back, the header whole. -/
def decodeFrame : Bytes → Except LinkError LinkFrame
  | d0 :: d1 :: d2 :: d3 :: d4 :: d5 :: s0 :: s1 :: s2 :: s3 :: s4 :: s5 :: hi :: lo :: payload =>
    .ok ⟨⟨d0, d1, d2, d3, d4, d5⟩, ⟨s0, s1, s2, s3, s4, s5⟩, fromBeBytes hi lo, payload⟩
  | _ => .error .malformedFrame

/-! ### The reassembly table -/

structure FragKey (A : Type) where
  addr : A
  msgId : U8
  deriving DecidableEq, Repr

structure FragHeader where
  msgId : U8
  index : U8
  count : U8
  deriving DecidableEq, Repr

def parseFragment : Bytes → Option (FragHeader × Bytes)
  | msgId :: packed :: body =>
    let index := packed >>> 4
    let count := packed &&& 0x0F
    if count = 0 ∨ count ≤ index then none else some (⟨msgId, index, count⟩, body)
  | _ => none

/-- One message in flight. `got` is the source's `have`, a bit for each index received. -/
structure Reassembly (A : Type) where
  key : FragKey A
  count : U8
  got : U16
  len : Nat
  buf : Bytes
  metrics : LinkMetrics
  deriving DecidableEq, Repr

namespace Reassembly

variable {A : Type}

def new (s : LinkSizes) (key : FragKey A) (count : U8) : Reassembly A where
  key := key
  count := count
  got := 0
  len := 0
  buf := List.replicate s.maxReassembledLen 0
  metrics := .default

def isComplete (e : Reassembly A) : Bool :=
  let fullMask := (1#16 <<< e.count.toNat) - 1
  e.got &&& fullMask == fullMask

/-- The part of `accept` that writes into the message: the first copy of an index wins. -/
def store (s : LinkSizes) (hdr : FragHeader) (body : Bytes) (metrics : LinkMetrics)
    (e : Reassembly A) : Reassembly A :=
  let off := hdr.index.toNat * s.fragPayload
  let bit := 1#16 <<< hdr.index.toNat
  if e.got &&& bit = 0 then
    { e with
      buf := Pieces.splice e.buf off body
      got := e.got ||| bit
      len := max e.len (off + body.length)
      metrics := metrics }
  else { e with metrics := metrics }

@[simp] theorem key_store (s : LinkSizes) (hdr : FragHeader) (body : Bytes) (metrics : LinkMetrics)
    (e : Reassembly A) : (e.store s hdr body metrics).key = e.key := by
  unfold Reassembly.store
  dsimp only
  split <;> rfl

@[simp] theorem count_store (s : LinkSizes) (hdr : FragHeader) (body : Bytes) (metrics : LinkMetrics)
    (e : Reassembly A) : (e.store s hdr body metrics).count = e.count := by
  unfold Reassembly.store
  dsimp only
  split <;> rfl

theorem buf_length_store {s : LinkSizes} {hdr : FragHeader} {body : Bytes} {metrics : LinkMetrics}
    {e : Reassembly A}
    (hfit : hdr.index.toNat * s.fragPayload + body.length ≤ s.maxReassembledLen)
    (h : e.buf.length = s.maxReassembledLen) :
    (e.store s hdr body metrics).buf.length = s.maxReassembledLen := by
  unfold store
  dsimp only
  split
  · rw [Pieces.length_splice (h ▸ hfit), h]
  · exact h

end Reassembly

/-- The fragments `accept` refuses before it touches the table. -/
def LinkSizes.malformed (s : LinkSizes) (hdr : FragHeader) (body : Bytes) : Bool :=
  hdr.count = 0 ∨ hdr.count ≤ hdr.index ∨
    divCeil s.maxReassembledLen s.fragPayload < hdr.count.toNat ∨
    s.fragPayload < body.length ∨
    (hdr.index + 1 ≠ hdr.count ∧ body.length ≠ s.fragPayload) ∨
    s.maxReassembledLen < hdr.index.toNat * s.fragPayload + body.length

theorem fits_of_not_malformed {s : LinkSizes} {hdr : FragHeader} {body : Bytes}
    (h : s.malformed hdr body = false) :
    hdr.index.toNat * s.fragPayload + body.length ≤ s.maxReassembledLen := by
  unfold LinkSizes.malformed at h
  simp only [decide_eq_false_iff_not, not_or] at h
  omega

theorem modify_middle {α : Type} (pre post : List α) (e : α) (f : α → α) :
    (pre ++ e :: post).modify pre.length f = pre ++ f e :: post := by
  induction pre with
  | nil => rfl
  | cons x pre ih => exact congrArg (List.cons x) ih

/-- The table, the oldest message first, one message to a key. -/
structure Reassembler (A : Type) (s : LinkSizes) where
  entries : List (Reassembly A)
  length_le : entries.length ≤ s.maxReassemblies
  nodup : (entries.map Reassembly.key).Nodup
  buf_length : ∀ e ∈ entries, e.buf.length = s.maxReassembledLen

namespace Reassembler

variable {A : Type} (s : LinkSizes)

/-- What `slot` can do, the table split at the slot. -/
inductive Slot (entries : List (Reassembly A)) (key : FragKey A) (count : U8) :
    List (Reassembly A) → Reassembly A → List (Reassembly A) → Prop where
  | held {pre : List (Reassembly A)} {e : Reassembly A} {post : List (Reassembly A)}
      (split : entries = pre ++ e :: post) (key_eq : e.key = key) (count_eq : e.count = count) :
      Slot entries key count pre e post
  | reset {pre : List (Reassembly A)} {e : Reassembly A} {post : List (Reassembly A)}
      (split : entries = pre ++ e :: post) (key_eq : e.key = key) (count_ne : e.count ≠ count) :
      Slot entries key count pre (Reassembly.new s key count) post
  | opened (absent : ∀ e ∈ entries, e.key ≠ key) (room : entries.length ≠ s.maxReassemblies) :
      Slot entries key count entries (Reassembly.new s key count) []
  | evicted (absent : ∀ e ∈ entries, e.key ≠ key) (full : entries.length = s.maxReassemblies) :
      Slot entries key count (entries.drop 1) (Reassembly.new s key count) []

namespace Slot

variable {s} {entries : List (Reassembly A)} {key : FragKey A} {count : U8}
  {pre : List (Reassembly A)} {e : Reassembly A} {post : List (Reassembly A)}

theorem key_eq (h : Slot s entries key count pre e post) : e.key = key := by
  cases h with
  | held _ hkey _ => exact hkey
  | _ => rfl

theorem count_eq (h : Slot s entries key count pre e post) : e.count = count := by
  cases h with
  | held _ _ hcount => exact hcount
  | _ => rfl

theorem length_le (h : Slot s entries key count pre e post)
    (hle : entries.length ≤ s.maxReassemblies) : (pre ++ e :: post).length ≤ s.maxReassemblies := by
  have hpos := s.reassemblies_pos
  cases h with
  | held split => rwa [← split]
  | reset split =>
    subst split
    simpa only [List.length_append, List.length_cons] using hle
  | opened _ room =>
    rw [List.length_append, List.length_singleton]
    omega
  | evicted _ full =>
    rw [List.length_append, List.length_drop, List.length_singleton]
    omega

theorem mem (h : Slot s entries key count pre e post) {x : Reassembly A}
    (hx : x ∈ pre ++ e :: post) : x ∈ entries ∨ x = Reassembly.new s key count := by
  cases h with
  | held split => exact Or.inl (split ▸ hx)
  | reset split =>
    subst split
    simp only [List.mem_append, List.mem_cons] at hx ⊢
    tauto
  | opened =>
    simpa only [List.mem_append, List.mem_singleton] using hx
  | evicted =>
    rw [List.mem_append, List.mem_singleton] at hx
    exact hx.imp_left List.mem_of_mem_drop

theorem buf_length (h : Slot s entries key count pre e post)
    (hbufs : ∀ x ∈ entries, x.buf.length = s.maxReassembledLen) :
    ∀ x ∈ pre ++ e :: post, x.buf.length = s.maxReassembledLen := by
  intro x hx
  rcases h.mem hx with hx | rfl
  · exact hbufs x hx
  · exact List.length_replicate

theorem nodup (h : Slot s entries key count pre e post)
    (hnodup : (entries.map Reassembly.key).Nodup) :
    ((pre ++ e :: post).map Reassembly.key).Nodup := by
  have hpush : ∀ l : List (Reassembly A), l.Sublist entries → (∀ x ∈ entries, x.key ≠ key) →
      ((l ++ [Reassembly.new s key count]).map Reassembly.key).Nodup := by
    intro l hsub habsent
    rw [List.map_append, List.map_singleton, List.nodup_append]
    refine ⟨hnodup.sublist (hsub.map _), List.nodup_singleton _, ?_⟩
    intro k hk k' hk' heq
    obtain ⟨x, hx, rfl⟩ := List.mem_map.mp hk
    rw [List.mem_singleton] at hk'
    exact habsent x (hsub.subset hx) (heq.trans hk')
  cases h with
  | held split => rwa [← split]
  | reset split heq =>
    subst split
    simp only [List.map_append, List.map_cons, heq] at hnodup ⊢
    exact hnodup
  | opened habsent => exact hpush _ (List.Sublist.refl _) habsent
  | evicted habsent => exact hpush _ (List.drop_sublist 1 _) habsent

end Slot

variable [DecidableEq A]

/-- The slot of a key, opened or reset where it has to be: the table and the index in it. -/
def slot (entries : List (Reassembly A)) (key : FragKey A) (count : U8) :
    List (Reassembly A) × Nat :=
  match entries.findIdx? fun e => e.key = key with
  | some i =>
    (entries.modify i fun e => if e.count = count then e else Reassembly.new s key count, i)
  | none =>
    -- a full table forgets its oldest message
    let entries := if entries.length = s.maxReassemblies then entries.drop 1 else entries
    (entries ++ [Reassembly.new s key count], entries.length)

def acceptEntries (entries : List (Reassembly A)) (key : FragKey A) (hdr : FragHeader)
    (body : Bytes) (metrics : LinkMetrics) :
    List (Reassembly A) × Option (Bytes × LinkMetrics) :=
  if s.malformed hdr body then (entries, none)
  else
    let (entries, i) := slot s entries key hdr.count
    let entries := entries.modify i (Reassembly.store s hdr body metrics)
    match entries[i]? with
    | none => (entries, none)
    | some e =>
      if e.isComplete then (entries.eraseIdx i, some (e.buf.take e.len, e.metrics))
      else (entries, none)

variable {s}

theorem slot_spec (entries : List (Reassembly A)) (key : FragKey A) (count : U8) :
    ∃ pre e post, Slot s entries key count pre e post ∧
      slot s entries key count = (pre ++ e :: post, pre.length) := by
  unfold slot
  cases hfind : entries.findIdx? fun e => decide (e.key = key) with
  | some i =>
    obtain ⟨hlt, hkey, _⟩ := List.findIdx?_eq_some_iff_getElem.mp hfind
    have hkey : entries[i].key = key := of_decide_eq_true hkey
    have hsplit : entries = entries.take i ++ entries[i] :: entries.drop (i + 1) := by
      rw [List.getElem_cons_drop, List.take_append_drop]
    have hlen : (entries.take i).length = i := by
      rw [List.length_take]
      omega
    have hmodify : ∀ f : Reassembly A → Reassembly A, entries.modify i f =
        entries.take i ++ f entries[i] :: entries.drop (i + 1) := by
      intro f
      have h := modify_middle (entries.take i) (entries.drop (i + 1)) entries[i] f
      rw [← hsplit, hlen] at h
      exact h
    by_cases hcount : entries[i].count = count
    · refine ⟨_, _, _, .held hsplit hkey hcount, ?_⟩
      dsimp only
      rw [hmodify, if_pos hcount, hlen]
    · refine ⟨_, _, _, .reset hsplit hkey hcount, ?_⟩
      dsimp only
      rw [hmodify, if_neg hcount, hlen]
  | none =>
    have habsent : ∀ e ∈ entries, e.key ≠ key := by
      intro e he
      have h := List.findIdx?_eq_none_iff.mp hfind e he
      exact of_decide_eq_false h
    dsimp only
    by_cases hfull : entries.length = s.maxReassemblies
    · rw [if_pos hfull]
      exact ⟨_, _, _, .evicted habsent hfull, rfl⟩
    · rw [if_neg hfull]
      exact ⟨_, _, _, .opened habsent hfull, rfl⟩

/-- All that a fragment that is not refused does. -/
theorem acceptEntries_spec (entries : List (Reassembly A)) (key : FragKey A) {hdr : FragHeader}
    {body : Bytes} (metrics : LinkMetrics) (h : s.malformed hdr body = false) :
    ∃ pre e post, Slot s entries key hdr.count pre e post ∧
      acceptEntries s entries key hdr body metrics =
        if (e.store s hdr body metrics).isComplete then
          (pre ++ post, some ((e.store s hdr body metrics).buf.take (e.store s hdr body metrics).len,
            (e.store s hdr body metrics).metrics))
        else (pre ++ e.store s hdr body metrics :: post, none) := by
  obtain ⟨pre, e, post, hslot, heq⟩ := slot_spec (s := s) entries key hdr.count
  refine ⟨pre, e, post, hslot, ?_⟩
  unfold acceptEntries
  rw [h, heq]
  dsimp only [Bool.false_eq_true, if_false]
  rw [if_neg Bool.false_ne_true, modify_middle, List.getElem?_append_right (Nat.le_refl _),
    Nat.sub_self, List.getElem?_cons_zero]
  dsimp only
  split
  · rw [List.eraseIdx_append_of_length_le (Nat.le_refl _), Nat.sub_self, List.eraseIdx_cons_zero]
  · rfl

/-- A table stays bounded and keyed, and its buffers keep their length. -/
theorem acceptEntries_inv (t : Reassembler A s) (key : FragKey A) (hdr : FragHeader)
    (body : Bytes) (metrics : LinkMetrics) :
    (acceptEntries s t.entries key hdr body metrics).1.length ≤ s.maxReassemblies ∧
      ((acceptEntries s t.entries key hdr body metrics).1.map Reassembly.key).Nodup ∧
      ∀ e ∈ (acceptEntries s t.entries key hdr body metrics).1,
        e.buf.length = s.maxReassembledLen := by
  cases hbad : s.malformed hdr body with
  | true =>
    unfold acceptEntries
    rw [if_pos hbad]
    exact ⟨t.length_le, t.nodup, t.buf_length⟩
  | false =>
    obtain ⟨pre, e, post, hslot, heq⟩ := acceptEntries_spec t.entries key metrics hbad
    have hlen := hslot.length_le t.length_le
    have hkeys := hslot.nodup t.nodup
    have hbufs := hslot.buf_length t.buf_length
    rw [heq]
    split
    · have hsub : (pre ++ post).Sublist (pre ++ e :: post) :=
        (List.sublist_cons_self e post).append_left pre
      exact ⟨Nat.le_trans hsub.length_le hlen, hkeys.sublist (hsub.map _),
        fun x hx => hbufs x (hsub.subset hx)⟩
    · refine ⟨by simpa only [List.length_append, List.length_cons] using hlen, ?_, ?_⟩
      · simpa only [List.map_append, List.map_cons, Reassembly.key_store] using hkeys
      · intro x hx
        rw [List.mem_append, List.mem_cons] at hx
        rcases hx with hx | rfl | hx
        · exact hbufs x (List.mem_append_left _ hx)
        · apply Reassembly.buf_length_store (fits_of_not_malformed hbad)
          exact hbufs e (List.mem_append_right _ List.mem_cons_self)
        · exact hbufs x (List.mem_append_right _ (List.mem_cons_of_mem _ hx))

def empty : Reassembler A s := ⟨[], Nat.zero_le _, List.nodup_nil, fun _ h => nomatch h⟩

/-- `accept`: the table after a fragment, and the frame it completes. The caller's `out`
holds `maxReassembledLen` bytes on every medium. -/
def accept (t : Reassembler A s) (key : FragKey A) (hdr : FragHeader) (body : Bytes)
    (metrics : LinkMetrics) : Reassembler A s × Option (Bytes × LinkMetrics) :=
  let r := acceptEntries s t.entries key hdr body metrics
  have hinv := acceptEntries_inv t key hdr body metrics
  (⟨r.1, hinv.1, hinv.2.1, hinv.2.2⟩, r.2)

end Reassembler

end Wayfinder

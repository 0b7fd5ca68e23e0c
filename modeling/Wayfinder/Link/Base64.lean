import Mathlib.Tactic.IntervalCases
import Wayfinder.Lib.Fallible
import Wayfinder.Link.Fragment

/-!
# Frames as text on the air

The radio module takes text, so each fragment of a frame is sent in base64. The decoder reads
what any sender put on the air.
-/

namespace Wayfinder.Rylr

set_option autoImplicit false

open Fallible

def ascii (ch : Char) : U8 := BitVec.ofNat 8 ch.toNat

def base64Alphabet : Bytes :=
  "ABCDEFGHIJKLMNOPQRSTUVWXYZabcdefghijklmnopqrstuvwxyz0123456789-_".toList.map ascii

def base64Pad : U8 := ascii '='

/-- `chunks(3)`. -/
def chunks3 : Bytes → List Bytes
  | b0 :: b1 :: b2 :: rest => [b0, b1, b2] :: chunks3 rest
  | [] => []
  | rest => [rest]

def chunkSextets (chunk : Bytes) : Bytes :=
  let b0 := chunk.getD 0 0
  let b1 := chunk.getD 1 0
  let b2 := chunk.getD 2 0
  [b0 >>> 2, ((b0 &&& 0x03) <<< 4) ||| (b1 >>> 4), ((b1 &&& 0x0f) <<< 2) ||| (b2 >>> 6),
    b2 &&& 0x3f]

/-- The four characters of a chunk. What no byte of it has a part in is padding. -/
def encodeChunk (chunk : Bytes) : Bytes :=
  (chunkSextets chunk).zipIdx.map fun s =>
    if s.2 ≤ chunk.length then base64Alphabet.getD s.1.toNat 0 else base64Pad

/-- `heapless::String::push` into a string of `cap` bytes. -/
def pushChar (cap : Nat) (out : Bytes) (ch : U8) : Except LinkError Bytes :=
  if out.length < cap then .ok (out ++ [ch]) else .error .bufferFull

def pushBase64 (cap : Nat) (out bytes : Bytes) : Except LinkError Bytes :=
  (chunks3 bytes).foldlM (fun out chunk => (encodeChunk chunk).foldlM (pushChar cap) out) out

def sextet (ch : U8) : Except LinkError U8 :=
  if ascii 'A' ≤ ch ∧ ch ≤ ascii 'Z' then .ok (ch - ascii 'A')
  else if ascii 'a' ≤ ch ∧ ch ≤ ascii 'z' then .ok (ch - ascii 'a' + 26)
  else if ascii '0' ≤ ch ∧ ch ≤ ascii '9' then .ok (ch - ascii '0' + 52)
  else if ch = ascii '-' then .ok 62
  else if ch = ascii '_' then .ok 63
  else .error .malformedFrame

structure Group where
  c0 : U8
  c1 : U8
  c2 : U8
  c3 : U8
  deriving DecidableEq

namespace Group

def chars (g : Group) : Bytes := [g.c0, g.c1, g.c2, g.c3]

/-- The bytes of a group, into a buffer that has `room` left. -/
def decode (g : Group) (room : Nat) : Except LinkError Bytes :=
  let pad2 := g.c2 = base64Pad
  let pad3 := g.c3 = base64Pad
  if pad2 ∧ ¬ pad3 then .error .malformedFrame
  else do
    let s0 ← sextet g.c0
    let s1 ← sextet g.c1
    if room < 3 then .error .bufferFull
    else
      let first := (s0 <<< 2) ||| (s1 >>> 4)
      if pad2 then .ok [first]
      else do
        let s2 ← sextet g.c2
        let second := ((s1 &&& 0x0f) <<< 4) ||| (s2 >>> 2)
        if pad3 then .ok [first, second]
        else do
          let s3 ← sextet g.c3
          .ok [first, second, ((s2 &&& 0x03) <<< 6) ||| s3]

end Group

/-- `as_chunks::<4>`, without the remainder. -/
def chunks4 : Bytes → List Group
  | c0 :: c1 :: c2 :: c3 :: rest => ⟨c0, c1, c2, c3⟩ :: chunks4 rest
  | _ => []

def decodeGroups (room : Nat) : List Group → Except LinkError Bytes
  | [] => .ok []
  | g :: groups => do
    let part ← g.decode room
    let rest ← decodeGroups (room - part.length) groups
    .ok (part ++ rest)

/-- What is written to the front of a buffer of `outLen` bytes. -/
def decodeBase64 (s : Bytes) (outLen : Nat) : Except LinkError Bytes :=
  if s.length % 4 ≠ 0 then .error .malformedFrame else decodeGroups outLen (chunks4 s)

/-! ### Sending -/

def maxFrameLen : Nat := 180

def maxEncodedLen : Nat := divCeil maxFrameLen 3 * 4

def sizes : LinkSizes where
  maxReassemblies := 4
  fragPayload := maxFrameLen - fragHdrLen
  maxReassembledLen := 512
  reassemblies_pos := four_slots_pos
  le_fragments := by decide
  payload_le := by decide
  header_le := linkHeaderLen_le

/-- The data of the `AT+SEND` commands a frame is sent in. -/
def sendPayloads (msgId : U8) (origin : Mac) (data : LinkFrameData) :
    Except LinkError (List Bytes) :=
  let frameLen := linkHeaderLen + data.payload.length
  if sizes.maxReassembledLen < frameLen then .error .bufferFull
  else
    let frame := data.dst.asBytes ++ origin.asBytes ++ toBeBytes data.protocol ++ data.payload
    let count := divCeil frameLen sizes.fragPayload
    if maxFragments < count then .error .bufferFull
    else
      (List.range count).mapM fun index =>
        let start := index * sizes.fragPayload
        let stop := min (start + sizes.fragPayload) frameLen
        pushBase64 maxEncodedLen []
          (packHeader msgId index count ++ (frame.drop start).take (stop - start))

/-! ### Groups of characters -/

def InAlphabet (ch : U8) : Prop := ch ∈ base64Alphabet

instance (ch : U8) : Decidable (InAlphabet ch) := inferInstanceAs (Decidable (_ ∈ _))

namespace Group

def Whole (g : Group) : Prop := InAlphabet g.c0 ∧ InAlphabet g.c1 ∧ InAlphabet g.c2 ∧ InAlphabet g.c3

/-- The fourth character is padding, or it and the third. -/
def Padded (g : Group) : Prop :=
  InAlphabet g.c0 ∧ InAlphabet g.c1 ∧ (InAlphabet g.c2 ∨ g.c2 = base64Pad) ∧ g.c3 = base64Pad

def size (g : Group) : Nat := if g.c2 = base64Pad then 1 else if g.c3 = base64Pad then 2 else 3

end Group

theorem sextet_isOk {ch : U8} : (∃ s, sextet ch = .ok s) ↔ InAlphabet ch := by
  have hall : ∀ ch : U8, (sextet ch).isOk = true ↔ ch ∈ base64Alphabet := by decide +kernel
  unfold InAlphabet
  rw [← hall ch]
  cases sextet ch with
  | error err => simp [Except.isOk, Except.toBool]
  | ok s => simp [Except.isOk, Except.toBool]

theorem not_inAlphabet_pad : ¬ InAlphabet base64Pad := by decide +kernel

/-- The decoder of a character undoes the alphabet. -/
theorem sextet_alphabet {s : U8} (h : s.toNat < 64) :
    sextet (base64Alphabet.getD s.toNat 0) = .ok s := by
  have hall : ∀ s : U8, s.toNat < 64 →
      (sextet (base64Alphabet.getD s.toNat 0)).toOption = some s := by decide +kernel
  have hs := hall s h
  cases hsextet : sextet (base64Alphabet.getD s.toNat 0) with
  | error err =>
    rw [hsextet] at hs
    cases hs
  | ok s' =>
    rw [hsextet] at hs
    rw [Option.some.inj hs]

theorem getD_alphabet {s : U8} (h : s.toNat < 64) : InAlphabet (base64Alphabet.getD s.toNat 0) := by
  apply sextet_isOk.mp
  exact ⟨s, sextet_alphabet h⟩

theorem ne_pad {ch : U8} (h : InAlphabet ch) : ch ≠ base64Pad := by
  rintro rfl
  exact not_inAlphabet_pad h

theorem sextet_cases (ch : U8) :
    (InAlphabet ch ∧ ∃ s, sextet ch = .ok s) ∨
      (¬ InAlphabet ch ∧ ∃ err, sextet ch = .error err) := by
  cases hs : sextet ch with
  | ok s => exact Or.inl ⟨sextet_isOk.mp ⟨s, hs⟩, s, rfl⟩
  | error err =>
    refine Or.inr ⟨?_, err, rfl⟩
    intro h
    obtain ⟨s, hok⟩ := sextet_isOk.mpr h
    rw [hs] at hok
    cases hok

/-! ### Encoding -/

def encode (bytes : Bytes) : Bytes := (chunks3 bytes).flatMap encodeChunk

theorem length_encodeChunk (chunk : Bytes) : (encodeChunk chunk).length = 4 := by
  unfold encodeChunk chunkSextets
  rw [List.length_map, List.length_zipIdx]
  rfl

theorem length_encode (bytes : Bytes) : (encode bytes).length = divCeil bytes.length 3 * 4 := by
  unfold encode divCeil
  induction bytes using chunks3.induct with
  | case1 b0 b1 b2 rest ih =>
    rw [chunks3, List.flatMap_cons, List.length_append, length_encodeChunk, ih]
    simp only [List.length_cons]
    omega
  | case2 => rfl
  | case3 rest h1 h2 =>
    rw [chunks3, List.flatMap_singleton, length_encodeChunk]
    · match rest, h1, h2 with
      | [_], _, _ => simp
      | [_, _], _, _ => simp
      | b0 :: b1 :: b2 :: rest, h1, _ => exact absurd rfl (h1 b0 b1 b2 rest)
      | [], _, h2 => exact absurd rfl h2
    · exact h1
    · exact h2

section Push
variable {cap : Nat} {out text : Bytes}

theorem foldlM_pushChar (h : out.length + text.length ≤ cap) :
    text.foldlM (pushChar cap) out = .ok (out ++ text) := by
  induction text generalizing out with
  | nil => rw [List.append_nil]; rfl
  | cons ch text ih =>
    rw [List.length_cons] at h
    have hroom : out.length < cap := by omega
    have hpush : pushChar cap out ch = .ok (out ++ [ch]) := if_pos hroom
    have hrest : (out ++ [ch]).length + text.length ≤ cap := by
      rw [List.length_append, List.length_singleton]
      omega
    rw [List.foldlM_cons, hpush]
    change text.foldlM (pushChar cap) (out ++ [ch]) = _
    rw [ih hrest, List.append_assoc, List.singleton_append]

/-- What is pushed is what was there and the text, and no more than there is room for. -/
theorem of_foldlM_pushChar {text' : Bytes} (h : text.foldlM (pushChar cap) out = .ok text')
    (hout : out.length ≤ cap) : text' = out ++ text ∧ text'.length ≤ cap := by
  induction text generalizing out with
  | nil =>
    obtain rfl := Except.ok.inj h
    exact ⟨(List.append_nil _).symm, hout⟩
  | cons ch text ih =>
    rw [List.foldlM_cons] at h
    obtain ⟨out', hpush, hrest⟩ := exists_of_bind_ok h
    unfold pushChar at hpush
    split at hpush
    · rename_i hroom
      obtain rfl := Except.ok.inj hpush
      have hlen : (out ++ [ch]).length ≤ cap := by
        rw [List.length_append, List.length_singleton]
        exact hroom
      obtain ⟨rfl, hle⟩ := ih hrest hlen
      rw [List.append_assoc, List.singleton_append] at hle ⊢
      exact ⟨rfl, hle⟩
    · cases hpush

theorem foldlM_chunks (chunks : List Bytes) (h : out.length + (chunks.flatMap encodeChunk).length ≤ cap) :
    chunks.foldlM (fun out chunk => (encodeChunk chunk).foldlM (pushChar cap) out) out =
      .ok (out ++ chunks.flatMap encodeChunk) := by
  induction chunks generalizing out with
  | nil => rw [List.flatMap_nil, List.append_nil]; rfl
  | cons chunk chunks ih =>
    rw [List.flatMap_cons, List.length_append] at h
    have hpush : (encodeChunk chunk).foldlM (pushChar cap) out = .ok (out ++ encodeChunk chunk) :=
      foldlM_pushChar (by omega)
    have hrest : (out ++ encodeChunk chunk).length + (chunks.flatMap encodeChunk).length ≤ cap := by
      rw [List.length_append]
      omega
    rw [List.foldlM_cons, hpush]
    exact (ih hrest).trans (by rw [List.flatMap_cons, List.append_assoc])

theorem of_foldlM_chunks {chunks : List Bytes} {text' : Bytes}
    (h : chunks.foldlM (fun out chunk => (encodeChunk chunk).foldlM (pushChar cap) out) out =
      .ok text') (hout : out.length ≤ cap) : text'.length ≤ cap := by
  induction chunks generalizing out with
  | nil =>
    obtain rfl := Except.ok.inj h
    exact hout
  | cons chunk chunks ih =>
    rw [List.foldlM_cons] at h
    obtain ⟨out', hpush, hrest⟩ := exists_of_bind_ok h
    exact ih hrest (of_foldlM_pushChar hpush hout).2

end Push

theorem pushBase64_eq {cap : Nat} {bytes : Bytes} (h : divCeil bytes.length 3 * 4 ≤ cap) :
    pushBase64 cap [] bytes = .ok (encode bytes) := by
  have hlen := length_encode bytes
  apply foldlM_chunks
  rw [List.length_nil, Nat.zero_add]
  exact Nat.le_trans (Nat.le_of_eq hlen) h

/-- No payload of a frame is longer than the module takes. -/
theorem length_sendPayloads {msgId : U8} {origin : Mac} {data : LinkFrameData}
    {payloads : List Bytes} (h : sendPayloads msgId origin data = .ok payloads) :
    ∀ p ∈ payloads, p.length ≤ 240 := by
  unfold sendPayloads at h
  dsimp only at h
  split at h
  · cases h
  · split at h
    · cases h
    · have hall := mapM_ok_iff.mp h
      clear h
      generalize List.range _ = indices at hall
      induction hall with
      | nil =>
        intro p hp
        cases hp
      | cons hpush _ ih =>
        exact List.forall_mem_cons.mpr ⟨of_foldlM_chunks hpush (Nat.zero_le _), ih⟩

/-! ### Decoding what was encoded -/

theorem toNat_lt_of_sextet (b0 b1 b2 : U8) :
    (b0 >>> 2).toNat < 64 ∧ (((b0 &&& 0x03) <<< 4) ||| (b1 >>> 4)).toNat < 64 ∧
      (((b1 &&& 0x0f) <<< 2) ||| (b2 >>> 6)).toNat < 64 ∧ (b2 &&& 0x3f).toNat < 64 := by
  have hmask : ∀ s : U8, s &&& 0x3f = s → s.toNat < 64 := by decide +kernel
  refine ⟨hmask _ ?_, hmask _ ?_, hmask _ ?_, hmask _ ?_⟩
  all_goals
    apply BitVec.eq_of_getLsbD_eq
    intro i hi
    interval_cases i <;> simp

/-- The bits of a byte come from two neighbouring sextets. -/
theorem join_sextets (b0 b1 b2 : U8) :
    ((b0 >>> 2) <<< 2) ||| ((((b0 &&& 0x03) <<< 4) ||| (b1 >>> 4)) >>> 4) = b0 ∧
      (((((b0 &&& 0x03) <<< 4) ||| (b1 >>> 4)) &&& 0x0f) <<< 4) |||
        ((((b1 &&& 0x0f) <<< 2) ||| (b2 >>> 6)) >>> 2) = b1 ∧
      (((((b1 &&& 0x0f) <<< 2) ||| (b2 >>> 6)) &&& 0x03) <<< 6) ||| (b2 &&& 0x3f) = b2 := by
  refine ⟨?_, ?_, ?_⟩
  all_goals
    apply BitVec.eq_of_getLsbD_eq
    intro i hi
    interval_cases i <;> simp


/-- The group that the characters of a chunk are. -/
def groupOf (chunk : Bytes) : Group where
  c0 := (encodeChunk chunk).getD 0 0
  c1 := (encodeChunk chunk).getD 1 0
  c2 := (encodeChunk chunk).getD 2 0
  c3 := (encodeChunk chunk).getD 3 0

theorem chunks4_encode (chunks : List Bytes) :
    chunks4 (chunks.flatMap encodeChunk) = chunks.map groupOf := by
  induction chunks with
  | nil => rfl
  | cons chunk chunks ih =>
    rw [List.flatMap_cons, List.map_cons, ← ih]
    rfl

/-- A whole chunk needs room for its three bytes. -/
theorem decode_whole (b0 b1 b2 : U8) (room : Nat) :
    (groupOf [b0, b1, b2]).decode room =
      if room < 3 then .error .bufferFull else .ok [b0, b1, b2] := by
  obtain ⟨h0, h1, h2, h3⟩ := toNat_lt_of_sextet b0 b1 b2
  obtain ⟨hb0, hb1, hb2⟩ := join_sextets b0 b1 b2
  have hpad2 : ¬ (groupOf [b0, b1, b2]).c2 = base64Pad := ne_pad (getD_alphabet h2)
  have hpad3 : ¬ (groupOf [b0, b1, b2]).c3 = base64Pad := ne_pad (getD_alphabet h3)
  have hs0 : sextet (groupOf [b0, b1, b2]).c0 = .ok (b0 >>> 2) :=
    sextet_alphabet h0
  have hs1 : sextet (groupOf [b0, b1, b2]).c1 = .ok (((b0 &&& 0x03) <<< 4) ||| (b1 >>> 4)) :=
    sextet_alphabet h1
  have hs2 : sextet (groupOf [b0, b1, b2]).c2 = .ok (((b1 &&& 0x0f) <<< 2) ||| (b2 >>> 6)) :=
    sextet_alphabet h2
  have hs3 : sextet (groupOf [b0, b1, b2]).c3 = .ok (b2 &&& 0x3f) :=
    sextet_alphabet h3
  unfold Group.decode
  rw [if_neg fun h => hpad2 h.1, hs0, hs1]
  change (if room < 3 then _ else _) = _
  by_cases hroom : room < 3
  · rw [if_pos hroom, if_pos hroom]
  · rw [if_neg hroom, if_neg hroom, if_neg hpad2, hs2]
    change (if (groupOf [b0, b1, b2]).c3 = base64Pad then _ else _) = _
    rw [if_neg hpad3, hs3]
    change Except.ok [_, _, _] = _
    rw [hb0, hb1, hb2]

theorem decode_two (b0 b1 : U8) (room : Nat) :
    (groupOf [b0, b1]).decode room =
      if room < 3 then .error .bufferFull else .ok [b0, b1] := by
  obtain ⟨h0, h1, h2, _⟩ := toNat_lt_of_sextet b0 b1 0
  obtain ⟨hb0, hb1, _⟩ := join_sextets b0 b1 0
  have hpad2 : ¬ (groupOf [b0, b1]).c2 = base64Pad := ne_pad (getD_alphabet h2)
  have hpad3 : (groupOf [b0, b1]).c3 = base64Pad := rfl
  have hs0 : sextet (groupOf [b0, b1]).c0 = .ok (b0 >>> 2) :=
    sextet_alphabet h0
  have hs1 : sextet (groupOf [b0, b1]).c1 = .ok (((b0 &&& 0x03) <<< 4) ||| (b1 >>> 4)) :=
    sextet_alphabet h1
  have hs2 : sextet (groupOf [b0, b1]).c2 = .ok (((b1 &&& 0x0f) <<< 2) ||| ((0 : U8) >>> 6)) :=
    sextet_alphabet h2
  unfold Group.decode
  rw [if_neg fun h => hpad2 h.1, hs0, hs1]
  change (if room < 3 then _ else _) = _
  by_cases hroom : room < 3
  · rw [if_pos hroom, if_pos hroom]
  · rw [if_neg hroom, if_neg hroom, if_neg hpad2, hs2]
    change Except.ok [_, _] = _
    rw [hb0, hb1]

theorem decode_one (b0 : U8) (room : Nat) :
    (groupOf [b0]).decode room = if room < 3 then .error .bufferFull else .ok [b0] := by
  obtain ⟨h0, h1, _, _⟩ := toNat_lt_of_sextet b0 0 0
  obtain ⟨hb0, _, _⟩ := join_sextets b0 0 0
  have hpad2 : (groupOf [b0]).c2 = base64Pad := rfl
  have hpad3 : (groupOf [b0]).c3 = base64Pad := rfl
  have hs0 : sextet (groupOf [b0]).c0 = .ok (b0 >>> 2) :=
    sextet_alphabet h0
  have hs1 : sextet (groupOf [b0]).c1 = .ok (((b0 &&& 0x03) <<< 4) ||| ((0 : U8) >>> 4)) :=
    sextet_alphabet h1
  unfold Group.decode
  rw [if_neg fun h => h.2 hpad3, hs0, hs1]
  change (if room < 3 then _ else _) = _
  by_cases hroom : room < 3
  · rw [if_pos hroom, if_pos hroom]
  · rw [if_neg hroom, if_neg hroom, if_pos hpad2]
    change Except.ok [_] = _
    rw [hb0]

theorem decodeGroups_cons {g : Group} {groups : List Group} {room : Nat} {part : Bytes}
    (hpart : g.decode room = if room < 3 then .error .bufferFull else .ok part) {bytes : Bytes} :
    decodeGroups room (g :: groups) = .ok (part ++ bytes) ↔
      3 ≤ room ∧ decodeGroups (room - part.length) groups = .ok bytes := by
  rw [decodeGroups, hpart]
  split
  · rename_i hroom
    refine iff_of_false ?_ ?_
    · intro h
      cases h
    · intro h
      omega
  · rename_i hroom
    change (decodeGroups (room - part.length) groups >>= _) = _ ↔ _
    constructor
    · intro h
      obtain ⟨rest, hrest, heq⟩ := exists_of_bind_ok h
      rw [hrest, List.append_cancel_left (Except.ok.inj heq)]
      exact ⟨Nat.not_lt.mp hroom, rfl⟩
    · rintro ⟨_, hrest⟩
      rw [hrest]
      rfl

theorem decodeGroups_encode (bytes : Bytes) (room : Nat) :
    decodeGroups room ((chunks3 bytes).map groupOf) = .ok bytes ↔
      divCeil bytes.length 3 * 3 ≤ room := by
  unfold divCeil
  induction bytes using chunks3.induct generalizing room with
  | case1 b0 b1 b2 rest ih =>
    have hcons : decodeGroups room (groupOf [b0, b1, b2] :: (chunks3 rest).map groupOf) =
        .ok ([b0, b1, b2] ++ rest) ↔ _ := decodeGroups_cons (decode_whole b0 b1 b2 room)
    rw [chunks3, List.map_cons]
    refine hcons.trans ?_
    rw [ih]
    simp only [List.length_cons, List.length_nil]
    omega
  | case2 =>
    refine iff_of_true rfl ?_
    exact Nat.zero_le _
  | case3 rest h1 h2 =>
    match rest, h1, h2 with
    | [b0], _, _ =>
      have hcons : decodeGroups room (groupOf [b0] :: []) = .ok ([b0] ++ []) ↔ _ :=
        decodeGroups_cons (decode_one b0 room)
      refine hcons.trans ?_
      rw [decodeGroups]
      simp
    | [b0, b1], _, _ =>
      have hcons : decodeGroups room (groupOf [b0, b1] :: []) = .ok ([b0, b1] ++ []) ↔ _ :=
        decodeGroups_cons (decode_two b0 b1 room)
      refine hcons.trans ?_
      rw [decodeGroups]
      simp
    | b0 :: b1 :: b2 :: rest, h1, _ => exact absurd rfl (h1 b0 b1 b2 rest)
    | [], _, h2 => exact absurd rfl h2

theorem decodeBase64_encode (bytes : Bytes) (outLen : Nat) :
    decodeBase64 (encode bytes) outLen = .ok bytes ↔ divCeil bytes.length 3 * 3 ≤ outLen := by
  have hlen : (encode bytes).length % 4 = 0 := by
    rw [length_encode]
    exact Nat.mul_mod_left _ _
  unfold decodeBase64
  rw [if_neg (not_not_intro hlen), encode, chunks4_encode]
  exact decodeGroups_encode bytes outLen

/-! ### What is decoded -/

section Accepted
variable {g : Group} {groups : List Group} {room : Nat}

theorem not_padded_of_whole (h : g.Whole) : ¬ g.Padded := fun hpad => ne_pad h.2.2.2 hpad.2.2.2

/-- A group is decoded where it is one and three bytes are left. -/
theorem decode_isOk : (∃ part, g.decode room = .ok part) ↔ (g.Whole ∨ g.Padded) ∧ 3 ≤ room := by
  unfold Group.decode Group.Whole Group.Padded
  by_cases hpads : g.c2 = base64Pad ∧ ¬ g.c3 = base64Pad
  · rw [if_pos hpads]
    refine iff_of_false ?_ ?_
    · rintro ⟨part, h⟩
      cases h
    · rintro ⟨⟨_, _, h2, _⟩ | ⟨_, _, _, h3⟩, _⟩
      · exact ne_pad h2 hpads.1
      · exact hpads.2 h3
  · rw [if_neg hpads]
    rcases sextet_cases g.c0 with ⟨h0, s0, hs0⟩ | ⟨h0, err, hs0⟩
    swap
    · rw [hs0]
      refine iff_of_false ?_ ?_
      · rintro ⟨part, h⟩
        cases h
      · rintro ⟨h | h, _⟩
        · exact h0 h.1
        · exact h0 h.1
    rcases sextet_cases g.c1 with ⟨h1, s1, hs1⟩ | ⟨h1, err, hs1⟩
    swap
    · rw [hs0, hs1]
      refine iff_of_false ?_ ?_
      · rintro ⟨part, h⟩
        cases h
      · rintro ⟨h | h, _⟩
        · exact h1 h.2.1
        · exact h1 h.2.1
    rw [hs0, hs1]
    change (∃ part, (if room < 3 then _ else _) = _) ↔ _
    by_cases hroom : room < 3
    · rw [if_pos hroom]
      refine iff_of_false ?_ ?_
      · rintro ⟨part, h⟩
        cases h
      · intro h
        omega
    · rw [if_neg hroom]
      by_cases hpad2 : g.c2 = base64Pad
      · have hpad3 : g.c3 = base64Pad := by
          by_contra hne
          exact hpads ⟨hpad2, hne⟩
        rw [if_pos hpad2]
        refine iff_of_true ⟨_, rfl⟩ ⟨Or.inr ⟨h0, h1, Or.inr hpad2, hpad3⟩, Nat.not_lt.mp hroom⟩
      · rw [if_neg hpad2]
        rcases sextet_cases g.c2 with ⟨h2, s2, hs2⟩ | ⟨h2, err, hs2⟩
        swap
        · rw [hs2]
          refine iff_of_false ?_ ?_
          · rintro ⟨part, h⟩
            cases h
          · rintro ⟨h | h, _⟩
            · exact h2 h.2.2.1
            · rcases h.2.2.1 with h | h
              · exact h2 h
              · exact hpad2 h
        rw [hs2]
        change (∃ part, (if g.c3 = base64Pad then _ else _) = _) ↔ _
        by_cases hpad3 : g.c3 = base64Pad
        · rw [if_pos hpad3]
          refine iff_of_true ⟨_, rfl⟩ ⟨Or.inr ⟨h0, h1, Or.inl h2, hpad3⟩, Nat.not_lt.mp hroom⟩
        · rw [if_neg hpad3]
          rcases sextet_cases g.c3 with ⟨h3, s3, hs3⟩ | ⟨h3, err, hs3⟩
          · rw [hs3]
            refine iff_of_true ⟨_, rfl⟩ ⟨Or.inl ⟨h0, h1, h2, h3⟩, Nat.not_lt.mp hroom⟩
          · rw [hs3]
            refine iff_of_false ?_ ?_
            · rintro ⟨part, h⟩
              cases h
            · rintro ⟨h | h, _⟩
              · exact h3 h.2.2.2
              · exact hpad3 h.2.2.2

theorem length_decode {part : Bytes} (h : g.decode room = .ok part) : part.length = g.size := by
  unfold Group.decode at h
  dsimp only at h
  split at h
  · cases h
  · obtain ⟨s0, _, h⟩ := exists_of_bind_ok h
    obtain ⟨s1, _, h⟩ := exists_of_bind_ok h
    unfold Group.size
    split at h
    · cases h
    · split at h
      · rename_i hpad2
        obtain rfl := Except.ok.inj h
        rw [if_pos hpad2]
        rfl
      · rename_i hpad2
        rw [if_neg hpad2]
        obtain ⟨s2, _, h⟩ := exists_of_bind_ok h
        split at h
        · rename_i hpad3
          obtain rfl := Except.ok.inj h
          rw [if_pos hpad3]
          rfl
        · rename_i hpad3
          obtain ⟨s3, _, h⟩ := exists_of_bind_ok h
          obtain rfl := Except.ok.inj h
          rw [if_neg hpad3]
          rfl

/-- Before each group there is room for three bytes. -/
def Fits : Nat → List Group → Prop
  | _, [] => True
  | room, g :: groups => 3 ≤ room ∧ Fits (room - g.size) groups

theorem decodeGroups_isOk : (∃ bytes, decodeGroups room groups = .ok bytes) ↔
    (∀ g ∈ groups, g.Whole ∨ g.Padded) ∧ Fits room groups := by
  induction groups generalizing room with
  | nil => exact iff_of_true ⟨[], rfl⟩ ⟨fun _ h => absurd h List.not_mem_nil, trivial⟩
  | cons g groups ih =>
    rw [decodeGroups, List.forall_mem_cons, Fits]
    constructor
    · rintro ⟨bytes, h⟩
      obtain ⟨part, hpart, h⟩ := exists_of_bind_ok h
      obtain ⟨rest, hrest, _⟩ := exists_of_bind_ok h
      obtain ⟨hgroup, hroom⟩ := decode_isOk.mp ⟨part, hpart⟩
      rw [length_decode hpart] at hrest
      obtain ⟨hgroups, hfits⟩ := ih.mp ⟨rest, hrest⟩
      exact ⟨⟨hgroup, hgroups⟩, hroom, hfits⟩
    · rintro ⟨⟨hgroup, hgroups⟩, hroom, hfits⟩
      obtain ⟨part, hpart⟩ := decode_isOk.mpr ⟨hgroup, hroom⟩
      rw [← length_decode hpart] at hfits
      obtain ⟨rest, hrest⟩ := ih.mpr ⟨hgroups, hfits⟩
      refine ⟨part ++ rest, ?_⟩
      rw [hpart]
      change (decodeGroups (room - part.length) groups >>= _) = _
      rw [hrest]
      rfl

end Accepted

theorem chunks4_chars {s : Bytes} (h : s.length % 4 = 0) : (chunks4 s).flatMap Group.chars = s := by
  induction s using chunks4.induct with
  | case1 c0 c1 c2 c3 rest ih =>
    have hrest : rest.length % 4 = 0 := by
      simp only [List.length_cons] at h
      omega
    rw [chunks4, List.flatMap_cons, ih hrest]
    rfl
  | case2 s hshort =>
    match s, hshort with
    | [], _ => rfl
    | [_], _ => cases h
    | [_, _], _ => cases h
    | [_, _, _], _ => cases h
    | c0 :: c1 :: c2 :: c3 :: rest, hshort => exact absurd rfl (hshort c0 c1 c2 c3 rest)

theorem chunks4_flatMap (groups : List Group) : chunks4 (groups.flatMap Group.chars) = groups := by
  induction groups with
  | nil => rfl
  | cons g groups ih =>
    rw [List.flatMap_cons]
    change g :: chunks4 (groups.flatMap Group.chars) = _
    rw [ih]

/-- Groups of four characters of the alphabet, and padding in the last one only. -/
def WellFormed (s : Bytes) : Prop :=
  ∃ (whole : List Group) (last : Bytes),
    s = whole.flatMap Group.chars ++ last ∧ (∀ g ∈ whole, g.Whole) ∧
      (last = [] ∨ ∃ g : Group, g.Padded ∧ last = g.chars)

/-- A text that the decoder takes, with padding in a group that is not the last. -/
def PaddedInside (s : Bytes) (outLen : Nat) : Prop :=
  s.length % 4 = 0 ∧ (∀ g ∈ chunks4 s, g.Whole ∨ g.Padded) ∧ Fits outLen (chunks4 s) ∧
    ∃ g ∈ (chunks4 s).dropLast, g.Padded

theorem wellFormed_chunks {s : Bytes} (h : WellFormed s) : ∀ g ∈ (chunks4 s).dropLast, g.Whole := by
  obtain ⟨whole, last, rfl, hwhole, rfl | ⟨g, _, rfl⟩⟩ := h
  · rw [List.append_nil, chunks4_flatMap]
    intro g hg
    exact hwhole g ((List.dropLast_sublist _).subset hg)
  · have hsplit : whole.flatMap Group.chars ++ g.chars = (whole ++ [g]).flatMap Group.chars := by
      rw [List.flatMap_append, List.flatMap_singleton]
    rw [hsplit, chunks4_flatMap, List.dropLast_concat]
    exact hwhole

theorem wellFormed_of_chunks {s : Bytes} (hlen : s.length % 4 = 0)
    (hgroups : ∀ g ∈ chunks4 s, g.Whole ∨ g.Padded)
    (hinside : ∀ g ∈ (chunks4 s).dropLast, ¬ g.Padded) : WellFormed s := by
  have hs := chunks4_chars hlen
  generalize chunks4 s = groups at hs hgroups hinside
  subst hs
  rcases List.eq_nil_or_concat groups with rfl | ⟨front, g, rfl⟩
  · exact ⟨[], [], rfl, fun _ h => absurd h List.not_mem_nil, Or.inl rfl⟩
  · rw [List.concat_eq_append] at hgroups hinside ⊢
    rw [List.dropLast_concat] at hinside
    have hfront : ∀ g ∈ front, g.Whole := by
      intro g' hg'
      exact (hgroups g' (List.mem_append_left _ hg')).resolve_right (hinside g' hg')
    rcases hgroups g (List.mem_append_right _ (List.mem_singleton_self g)) with hg | hg
    · refine ⟨front ++ [g], [], (List.append_nil _).symm, ?_, Or.inl rfl⟩
      exact List.forall_mem_append.mpr ⟨hfront, List.forall_mem_singleton.mpr hg⟩
    · refine ⟨front, g.chars, ?_, hfront, Or.inr ⟨g, hg, rfl⟩⟩
      rw [List.flatMap_append, List.flatMap_singleton]

theorem decodeBase64_isOk {s : Bytes} {outLen : Nat} :
    (∃ bytes, decodeBase64 s outLen = .ok bytes) ↔
      s.length % 4 = 0 ∧ (∀ g ∈ chunks4 s, g.Whole ∨ g.Padded) ∧ Fits outLen (chunks4 s) := by
  unfold decodeBase64
  by_cases hlen : s.length % 4 = 0
  · rw [if_neg (not_not_intro hlen), decodeGroups_isOk]
    exact (and_iff_right hlen).symm
  · rw [if_pos hlen]
    refine iff_of_false ?_ fun h => hlen h.1
    rintro ⟨bytes, h⟩
    cases h

theorem decodeBase64_wellFormed_iff (s : Bytes) (outLen : Nat) :
    ((∃ bytes, decodeBase64 s outLen = .ok bytes) → WellFormed s) ↔ ¬ PaddedInside s outLen := by
  constructor
  · rintro h ⟨hlen, hgroups, hfits, g, hg, hpadded⟩
    have hwell := h (decodeBase64_isOk.mpr ⟨hlen, hgroups, hfits⟩)
    exact not_padded_of_whole (wellFormed_chunks hwell g hg) hpadded
  · intro h hok
    obtain ⟨hlen, hgroups, hfits⟩ := decodeBase64_isOk.mp hok
    apply wellFormed_of_chunks hlen hgroups
    intro g hg hpadded
    exact h ⟨hlen, hgroups, hfits, g, hg, hpadded⟩

/-- A decoder undoes the encoder where it has room for the last group as if it were whole. It
takes no text but groups of characters, exactly where no group inside is padded. -/
theorem base64_exact_iff (bytes s : Bytes) (cap outLen : Nat) :
    (divCeil bytes.length 3 * 4 ≤ cap →
      ∃ text, pushBase64 cap [] bytes = .ok text ∧
        (bytes.length ≤ outLen →
          (decodeBase64 text outLen = .ok bytes ↔ divCeil bytes.length 3 * 3 ≤ outLen))) ∧
      (∀ msgId origin data payloads, sendPayloads msgId origin data = .ok payloads →
        ∀ p ∈ payloads, p.length ≤ 240) ∧
      (((∃ decoded, decodeBase64 s outLen = .ok decoded) → WellFormed s) ↔
        ¬ PaddedInside s outLen) := by
  refine ⟨?_, ?_, decodeBase64_wellFormed_iff s outLen⟩
  · intro hcap
    refine ⟨encode bytes, pushBase64_eq hcap, ?_⟩
    intro _
    exact decodeBase64_encode bytes outLen
  · intro msgId origin data payloads h
    exact length_sendPayloads h

/-- `QQ==QQ==`. -/
def paddedTwice : Bytes := "QQ==QQ==".toList.map ascii

/-- One byte does not come back into one byte, and two padded groups are taken. -/
theorem base64_not_exact :
    ((pushBase64 4 [] [0x41]).toOption = some ("QQ==".toList.map ascii) ∧
      (decodeBase64 ("QQ==".toList.map ascii) 1).toOption = none) ∧
      ¬ ∀ s outLen, (∃ bytes, decodeBase64 s outLen = .ok bytes) → WellFormed s := by
  refine ⟨by decide +kernel, ?_⟩
  intro h
  have hok : (decodeBase64 paddedTwice 180).toOption = some [0x41, 0x41] := by decide +kernel
  have hdecoded : ∃ bytes, decodeBase64 paddedTwice 180 = .ok bytes := by
    cases hdecode : decodeBase64 paddedTwice 180 with
    | ok bytes => exact ⟨bytes, rfl⟩
    | error err =>
      rw [hdecode] at hok
      cases hok
  have hwell := wellFormed_chunks (h paddedTwice 180 hdecoded)
  have hnot : ∃ g ∈ (chunks4 paddedTwice).dropLast, g.c3 = base64Pad := by decide +kernel
  obtain ⟨g, hg, hpad⟩ := hnot
  exact ne_pad (hwell g hg).2.2.2 hpad

end Wayfinder.Rylr

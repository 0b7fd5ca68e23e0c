import Wayfinder.Link.Fragment

/-!
# The media with small packets

IEEE 802.15.4, raw LoRa and the two BLE advertising formats wrap the same fragments
in headers of their own. A receiver keys its table by the address in that header.
-/

namespace Wayfinder

set_option autoImplicit false

/-! ### One decoder, one table -/

/-- `accept_fragment`: what parses goes to the table under the address it names. -/
def acceptDecoded {A : Type} [DecidableEq A] {s : LinkSizes}
    (decode : Bytes → Except LinkError (A × FragHeader × Bytes))
    (t : Reassembler A s) (buf : Bytes) (metrics : LinkMetrics) :
    Reassembler A s × Option (Bytes × LinkMetrics) :=
  match decode buf with
  | .error _ => (t, none)
  | .ok (addr, hdr, body) => t.accept ⟨addr, hdr.msgId⟩ hdr body metrics

/-! ### IEEE 802.15.4 -/

namespace Ieee802154

def frameTypeData : U16 := 0b001

def panIdCompression : U16 := 1 <<< 6

def destAddrModeShort : U16 := 0b10 <<< 10

def srcAddrModeShort : U16 := 0b10 <<< 14

def frameControl : U16 :=
  frameTypeData ||| panIdCompression ||| destAddrModeShort ||| srcAddrModeShort

example : frameControl = 0x8841 := by decide

def broadcastAddr : U16 := 0xffff

def headerLen : Nat := 9

/-- `aMaxPHYPacketSize` without the frame check sequence. -/
def maxFrameLen : Nat := 127 - 2

def sizes : LinkSizes where
  maxReassemblies := 4
  fragPayload := maxFrameLen - headerLen - fragHdrLen
  maxReassembledLen := 512
  reassemblies_pos := four_slots_pos
  le_fragments := by decide
  payload_le := by decide
  header_le := linkHeaderLen_le

structure FragmentSpec where
  seq : U8
  srcAddr : U16
  msgId : U8
  index : Nat
  count : Nat
  deriving DecidableEq, Repr

/-- The MAC header; its fields are little-endian. -/
structure Header where
  frameControl : U16
  seq : U8
  destPanId : U16
  destAddr : U16
  srcAddr : U16
  deriving DecidableEq, Repr

def toLeBytes (n : U16) : Bytes := (toBeBytes n).reverse

def Header.asBytes (h : Header) : Bytes :=
  toLeBytes h.frameControl ++ [h.seq] ++ toLeBytes h.destPanId ++ toLeBytes h.destAddr ++
    toLeBytes h.srcAddr

def Header.refFromPrefix : Bytes → Option (Header × Bytes)
  | f0 :: f1 :: seq :: p0 :: p1 :: d0 :: d1 :: a0 :: a1 :: rest =>
    some (⟨fromBeBytes f1 f0, seq, fromBeBytes p1 p0, fromBeBytes d1 d0, fromBeBytes a1 a0⟩, rest)
  | _ => none

/-- `build_fragment` into a buffer of `outLen` bytes. -/
def buildFragment (frame : Bytes) (spec : FragmentSpec) (outLen : Nat) : Except LinkError Bytes :=
  match Framing.fragmentBody sizes frame spec.index spec.count with
  | .error err => .error err
  | .ok chunk =>
    if outLen < headerLen + fragHdrLen + chunk.length then .error .bufferFull
    else
      let header : Header :=
        { frameControl := frameControl
          seq := spec.seq
          destPanId := broadcastAddr
          destAddr := broadcastAddr
          srcAddr := spec.srcAddr }
      .ok (header.asBytes ++ (packHeader spec.msgId spec.index spec.count ++ chunk))

def decodeFragment (buf : Bytes) : Except LinkError (U16 × FragHeader × Bytes) :=
  if buf.length < headerLen + fragHdrLen then .error .malformedFrame
  else
    match Header.refFromPrefix buf with
    | none => .error .malformedFrame
    | some (header, rest) =>
      if header.frameControl ≠ frameControl ∨ header.destPanId ≠ broadcastAddr ∨
          header.destAddr ≠ broadcastAddr then
        .error .malformedFrame
      else
        match parseFragment rest with
        | none => .error .malformedFrame
        | some (hdr, body) => .ok (header.srcAddr, hdr, body)

def acceptFragment (t : Reassembler U16 sizes) (buf : Bytes) (metrics : LinkMetrics) :
    Reassembler U16 sizes × Option (Bytes × LinkMetrics) :=
  acceptDecoded decodeFragment t buf metrics

end Ieee802154

/-! ### Raw LoRa -/

namespace LoraLink

def maxFrameLen : Nat := 255

def headerLen : Nat := 1 + 2

def sizes : LinkSizes where
  maxReassemblies := 4
  fragPayload := maxFrameLen - headerLen - fragHdrLen
  maxReassembledLen := 512
  reassemblies_pos := four_slots_pos
  le_fragments := by decide
  payload_le := by decide
  header_le := linkHeaderLen_le

structure FragmentSpec where
  msgId : U8
  index : Nat
  count : Nat
  deriving DecidableEq, Repr

/-- `build_fragment` into a buffer of `outLen` bytes. -/
def buildFragment (netId : U8) (srcId : U16) (frame : Bytes) (spec : FragmentSpec) (outLen : Nat) :
    Except LinkError Bytes :=
  match Framing.fragmentBody sizes frame spec.index spec.count with
  | .error err => .error err
  | .ok chunk =>
    if outLen < headerLen + fragHdrLen + chunk.length then .error .bufferFull
    else .ok (netId :: toBeBytes srcId ++ (packHeader spec.msgId spec.index spec.count ++ chunk))

def decodeFragment (netId : U8) : Bytes → Except LinkError (U16 × FragHeader × Bytes)
  | net :: hi :: lo :: rest =>
    if (net :: hi :: lo :: rest).length < headerLen + fragHdrLen ∨ net ≠ netId then
      .error .malformedFrame
    else
      match parseFragment rest with
      | none => .error .malformedFrame
      | some (hdr, body) => .ok (fromBeBytes hi lo, hdr, body)
  | _ => .error .malformedFrame

def acceptFragment (t : Reassembler U16 sizes) (netId : U8) (buf : Bytes) (metrics : LinkMetrics) :
    Reassembler U16 sizes × Option (Bytes × LinkMetrics) :=
  acceptDecoded (decodeFragment netId) t buf metrics

end LoraLink

/-! ### Bluetooth advertising -/

inductive BleAdvFormat where
  | legacy
  | extended
  deriving DecidableEq, Repr

namespace BleAdvFormat

def tag : BleAdvFormat → U8
  | legacy => 0
  | extended => 1

def fromTag (tag : U8) : Option BleAdvFormat :=
  if tag = 0 then some legacy else if tag = 1 then some extended else none

@[simp] theorem fromTag_tag (f : BleAdvFormat) : fromTag f.tag = some f := by
  cases f <;> rfl

end BleAdvFormat

namespace Blue

def modeTagLen : Nat := 1

def originLen : Nat := 6

/-- The length, type and company bytes of the AD structure. -/
def adHdrLen : Nat := 4

def maxLegacyFragmentLen : Nat := 31 - adHdrLen

def maxExtendedFragmentLen : Nat := 244 - adHdrLen

/-- One ceiling for both formats, the tighter one's. -/
def maxReassembledLen : Nat := 270

def maxReassemblies : Nat := 4

def legacySizes : LinkSizes where
  maxReassemblies := maxReassemblies
  fragPayload := maxLegacyFragmentLen - modeTagLen - fragHdrLen - originLen
  maxReassembledLen := maxReassembledLen
  reassemblies_pos := by decide
  le_fragments := by decide
  payload_le := by decide
  header_le := by decide

def extendedSizes : LinkSizes where
  maxReassemblies := maxReassemblies
  fragPayload := maxExtendedFragmentLen - modeTagLen - fragHdrLen - originLen
  maxReassembledLen := maxReassembledLen
  reassemblies_pos := by decide
  le_fragments := by decide
  payload_le := by decide
  header_le := by decide

def sizes : BleAdvFormat → LinkSizes
  | .legacy => legacySizes
  | .extended => extendedSizes

def assembleFrame (origin : Mac) (data : LinkFrameData) : Except LinkError Bytes :=
  if maxReassembledLen < linkHeaderLen + data.payload.length then .error .bufferFull
  else .ok (data.dst.asBytes ++ origin.asBytes ++ toBeBytes data.protocol ++ data.payload)

/-- No lower bound of one here: an assembled frame has a header. -/
def fragmentCount (frameLen : Nat) (format : BleAdvFormat) : Except LinkError Nat :=
  let count := divCeil frameLen (sizes format).fragPayload
  if maxFragments < count then .error .bufferFull else .ok count

structure FragmentSpec where
  origin : Mac
  msgId : U8
  index : Nat
  count : Nat
  format : BleAdvFormat
  deriving DecidableEq, Repr

def buildFragment (frame : Bytes) (spec : FragmentSpec) : Except LinkError Bytes :=
  let budget := (sizes spec.format).fragPayload
  let start := spec.index * budget
  let stop := min (start + budget) frame.length
  if stop < start then .error .bufferFull
  else
    .ok (spec.format.tag :: (packHeader spec.msgId spec.index spec.count ++
      (spec.origin.asBytes ++ (frame.drop start).take (stop - start))))

def parseFragmentWithOrigin : Bytes → Option (BleAdvFormat × FragHeader × Mac × Bytes)
  | [] => none
  | tag :: rest =>
    match BleAdvFormat.fromTag tag with
    | none => none
    | some format =>
      match parseFragment rest with
      | none => none
      | some (hdr, rest) =>
        if rest.length < originLen then none
        else
          match Mac.tryFrom (rest.take originLen) with
          | none => none
          | some origin => some (format, hdr, origin, rest.drop originLen)

/-- The two tables of a `BleLink`: the formats place a fragment at different strides. -/
structure BleTables where
  legacy : Reassembler Mac legacySizes
  extended : Reassembler Mac extendedSizes

def BleTables.table (t : BleTables) : (format : BleAdvFormat) → Reassembler Mac (sizes format)
  | .legacy => t.legacy
  | .extended => t.extended

/-- The body of `recv`'s loop: one report. -/
def acceptReport (t : BleTables) (report : Bytes) (metrics : LinkMetrics) :
    BleTables × Option (Bytes × LinkMetrics) :=
  match parseFragmentWithOrigin report with
  | none => (t, none)
  | some (.legacy, hdr, origin, body) =>
    let r := t.legacy.accept ⟨origin, hdr.msgId⟩ hdr body metrics
    ({ t with legacy := r.1 }, r.2)
  | some (.extended, hdr, origin, body) =>
    let r := t.extended.accept ⟨origin, hdr.msgId⟩ hdr body metrics
    ({ t with extended := r.1 }, r.2)

end Blue

end Wayfinder

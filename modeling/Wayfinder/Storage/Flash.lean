import Wayfinder.Frame
import Wayfinder.Lib.NorFlash

/-!
# The flash store

Two erase-pages, written in turn. A page holds a header (magic, generation, payload
length, payload checksum) and a payload; the valid page of the higher generation is the
stored blob. `save` erases the other page and writes the header, then the payload.
-/

namespace Wayfinder

set_option autoImplicit false

open NorFlash

/-! ### The checksum -/

namespace Crc32

def new : U32 := 0xFFFFFFFF

def shiftBit (crc : U32) : U32 := (crc >>> 1) ^^^ (0xEDB88320 &&& (0 - (crc &&& 1)))

def updateByte (crc : U32) (b : U8) : U32 := Nat.repeat shiftBit 8 (crc ^^^ b.setWidth 32)

def update (crc : U32) (data : Bytes) : U32 := data.foldl updateByte crc

def finalize (crc : U32) : U32 := crc ^^^ 0xFFFFFFFF

end Crc32

def crc32 (data : Bytes) : U32 := Crc32.finalize (Crc32.update Crc32.new data)

/-! ### Little-endian words -/

/-- `u32::to_le_bytes` -/
def toLeBytes (n : U32) : Bytes :=
  [BitVec.ofNat 8 n.toNat, BitVec.ofNat 8 (n.toNat / 256), BitVec.ofNat 8 (n.toNat / 65536),
    BitVec.ofNat 8 (n.toNat / 16777216)]

/-- `u32::from_le_bytes` of four bytes. -/
def fromLeBytes (b : Bytes) : U32 :=
  BitVec.ofNat 32 ((b.getD 0 0).toNat + (b.getD 1 0).toNat * 256 + (b.getD 2 0).toNat * 65536 +
    (b.getD 3 0).toNat * 16777216)

@[simp] theorem length_toLeBytes (n : U32) : (toLeBytes n).length = 4 := rfl

@[simp] theorem fromLeBytes_toLeBytes (n : U32) : fromLeBytes (toLeBytes n) = n := by
  have hlt := n.isLt
  apply BitVec.eq_of_toNat_eq
  unfold fromLeBytes toLeBytes
  simp only [List.getD_cons_zero, List.getD_cons_succ, BitVec.toNat_ofNat]
  omega

/-! ### Geometry -/

def magic : Bytes := [0x57, 0x46, 0x44, 0x31]

def headerLen : Nat := 16

def maxWriteSize : Nat := 16

theorem four_word_pos : 0 < 4 := by decide

theorem four_le_maxWriteSize : 4 ≤ maxWriteSize := by decide

theorem four_dvd_headerLen : 4 ∣ headerLen := by decide

def crcChunk : Nat := 64

inductive FlashError where
  /-- An erase or write call of the device failed. -/
  | flash
  | blobTooLarge (len capacity : Nat)
  | bufferTooSmall (len buf : Nat)
  | unaligned (baseOffset eraseSize : Nat)
  | outOfBounds (needed capacity : Nat)
  | pageTooSmall (eraseSize : Nat)
  deriving DecidableEq, Repr

/-- The constants of a flash part. Addresses are 32 bits, pages are whole words, and the
word sizes are those `save` compiles for. -/
structure FlashPart where
  eraseSize : Nat
  writeSize : Nat
  capacity : Nat
  word_pos : 0 < writeSize
  word_le : writeSize ≤ maxWriteSize
  word_header : writeSize ∣ headerLen
  word_page : writeSize ∣ eraseSize
  addressed : capacity ≤ 2 ^ 32

/-- Where a store lies, as `new` accepts it. -/
structure Placement extends FlashPart where
  baseOffset : Nat
  page_holds : headerLen < eraseSize
  aligned : eraseSize ∣ baseOffset
  inside : baseOffset + 2 * eraseSize ≤ capacity

structure PageHeader where
  generation : U32
  len : Nat
  deriving DecidableEq, Repr

/-- The store over what its flash holds. -/
structure FlashStore (p : Placement) where
  flash : Cells

namespace FlashStore

variable {p : Placement}

def new (part : FlashPart) (baseOffset : Nat) (flash : Cells) :
    Except FlashError (Σ p : Placement, FlashStore p) :=
  if hpage : part.eraseSize ≤ headerLen then .error (.pageTooSmall part.eraseSize)
  else if halign : ¬ part.eraseSize ∣ baseOffset then
    .error (.unaligned baseOffset part.eraseSize)
  else if hin : part.capacity < baseOffset + 2 * part.eraseSize then
    .error (.outOfBounds (baseOffset + 2 * part.eraseSize) part.capacity)
  else
    .ok ⟨{ part with
      baseOffset := baseOffset
      page_holds := Nat.lt_of_not_le hpage
      aligned := not_not.mp halign
      inside := Nat.le_of_not_lt hin }, ⟨flash⟩⟩

def capacity (_ : FlashStore p) : Nat := p.eraseSize - headerLen

def pageBase (_ : FlashStore p) (idx : Nat) : Nat := p.baseOffset + idx * p.eraseSize

/-! ### Reading -/

/-- The loop that streams a payload through the checksum; each turn reads a byte at
least, so the length is fuel enough. -/
def crcStream (m : Cells) : Nat → Nat → Nat → U32 → U32
  | 0, _, _, crc => crc
  | fuel + 1, remaining, offset, crc =>
    if remaining = 0 then crc
    else
      let n := min remaining crcChunk
      crcStream m fuel (remaining - n) (offset + n) (Crc32.update crc (m.read offset n))

def readValidHeader (s : FlashStore p) (idx : Nat) : Option PageHeader :=
  let base := s.pageBase idx
  let header := s.flash.read base headerLen
  if header.take 4 ≠ magic then none
  else
    let generation := fromLeBytes ((header.drop 4).take 4)
    let len := (fromLeBytes ((header.drop 8).take 4)).toNat
    let wantCrc := fromLeBytes ((header.drop 12).take 4)
    if s.capacity < len then none
    else if Crc32.finalize (crcStream s.flash len len (base + headerLen) Crc32.new) ≠ wantCrc then
      none
    else some ⟨generation, len⟩

def newestValid (s : FlashStore p) : Option (Nat × PageHeader) :=
  match s.readValidHeader 0, s.readValidHeader 1 with
  | none, none => none
  | some h, none => some (0, h)
  | none, some h => some (1, h)
  | some a, some b => if a.generation < b.generation then some (1, b) else some (0, a)

/-- The loop that looks for a byte that is not erased. -/
def blankStream (m : Cells) : Nat → Nat → Nat → Bool
  | 0, _, _ => true
  | fuel + 1, remaining, offset =>
    if remaining = 0 then true
    else
      let n := min remaining crcChunk
      if (m.read offset n).any fun b => b ≠ erased then false
      else blankStream m fuel (remaining - n) (offset + n)

def pageIsBlank (s : FlashStore p) (idx : Nat) : Bool :=
  blankStream s.flash p.eraseSize p.eraseSize (s.pageBase idx)

/-- The blob `load` copies into a buffer of `outLen` bytes. -/
def load (s : FlashStore p) (outLen : Nat) : Except FlashError (Option Bytes) :=
  match s.newestValid with
  | none => .ok none
  | some (idx, header) =>
    if outLen < header.len then .error (.bufferTooSmall header.len outLen)
    else .ok (some (s.flash.read (s.pageBase idx + headerLen) header.len))

/-! ### Writing -/

def erasePage (s : FlashStore p) (idx : Nat) : Call :=
  .erase (s.pageBase idx) (s.pageBase idx + p.eraseSize)

/-- The calls `erase_page_if_written` makes. -/
def erasePageIfWritten (s : FlashStore p) (idx : Nat) : List Call :=
  if s.pageIsBlank idx then [] else [s.erasePage idx]

/-- The page a save writes to and the generation it gives it. -/
def saveTarget (s : FlashStore p) : Nat × U32 :=
  match s.newestValid with
  | none => (0, 0)
  | some (idx, header) => (idx ^^^ 1, header.generation + 1)

def headerBytes (generation : U32) (data : Bytes) : Bytes :=
  magic ++ toLeBytes generation ++ toLeBytes (BitVec.ofNat 32 data.length) ++
    toLeBytes (crc32 data)

/-- The calls of a save: the whole words of the payload go straight from the blob, the
rest padded with erased bytes. -/
def saveCalls (s : FlashStore p) (data : Bytes) : List Call :=
  let target := s.saveTarget.1
  let base := s.pageBase target
  let payloadBase := base + headerLen
  let aligned := data.length - data.length % p.writeSize
  let rem := data.length - aligned
  [s.erasePage target, .write base (headerBytes s.saveTarget.2 data)] ++
    (if 0 < aligned then [.write payloadBase (data.take aligned)] else []) ++
    (if 0 < rem then
      [.write (payloadBase + aligned)
        ((data.drop aligned ++ List.replicate (maxWriteSize - rem) erased).take p.writeSize)]
    else [])

/-- The calls of a scrub. The pages do not overlap, so that the second is read as it was
before the first was erased. -/
def scrubCalls (s : FlashStore p) : List Call :=
  let keep := s.newestValid.map Prod.fst
  (if keep ≠ some 0 then s.erasePageIfWritten 0 else []) ++
    (if keep ≠ some 1 then s.erasePageIfWritten 1 else [])

def eraseCalls (s : FlashStore p) : List Call := s.erasePageIfWritten 0 ++ s.erasePageIfWritten 1

/-- Make the calls, those that `fails` names failing. -/
def make (fails : Nat → Bool) (s : FlashStore p) (calls : List Call) :
    Except FlashError Unit × FlashStore p :=
  let r := perform fails 0 calls s.flash
  (if r.1 then .ok () else .error .flash, ⟨r.2⟩)

def save (fails : Nat → Bool) (s : FlashStore p) (data : Bytes) :
    Except FlashError Unit × FlashStore p :=
  if s.capacity < data.length then (.error (.blobTooLarge data.length s.capacity), s)
  else s.make fails (s.saveCalls data)

def scrub (fails : Nat → Bool) (s : FlashStore p) : Except FlashError Unit × FlashStore p :=
  s.make fails s.scrubCalls

def erase (fails : Nat → Bool) (s : FlashStore p) : Except FlashError Unit × FlashStore p :=
  s.make fails s.eraseCalls

end FlashStore

end Wayfinder

import Mathlib.Data.BitVec
import Wayfinder.Lib.Serial

/-!
# Link frames, addresses and stamps

The vocabulary every layer shares: fixed-width integers, byte strings, the
six-octet `Mac`, the four-byte `Millis` stamp the routing tables store, and the
frames handed between the router and the routing engine.

A `Duration` is a whole number of nanoseconds. A reply buffer is modelled by its
length and by the frame staged in it: the router sends exactly the bytes a
handler wrote, so the rest of the scratchpad never reaches the wire.
-/

namespace Wayfinder

set_option autoImplicit false

abbrev U8 := BitVec 8
abbrev U16 := BitVec 16
abbrev U32 := BitVec 32

abbrev Bytes := List U8

/-- `u32::saturating_add`. -/
def saturatingAdd (a b : U32) : U32 :=
  if a.toNat + b.toNat < 2 ^ 32 then a + b else BitVec.allOnes 32

theorem saturatingAdd_toNat (a b : U32) :
    (saturatingAdd a b).toNat = min (a.toNat + b.toNat) (2 ^ 32 - 1) := by
  unfold saturatingAdd
  split
  · rw [BitVec.toNat_add]
    omega
  · rw [BitVec.toNat_allOnes]
    omega

/-- A big-endian `u16` as the wire carries it. -/
structure Be16 where
  hi : U8
  lo : U8
  deriving DecidableEq, Repr

namespace Be16

def get (x : Be16) : Nat := x.hi.toNat * 256 + x.lo.toNat

def ofNat (n : Nat) : Be16 := ⟨BitVec.ofNat 8 (n / 256), BitVec.ofNat 8 n⟩

theorem get_ofNat {n : Nat} (h : n < 2 ^ 16) : (ofNat n).get = n := by
  simp only [get, ofNat, BitVec.toNat_ofNat]
  omega

def asBytes (x : Be16) : Bytes := [x.hi, x.lo]

end Be16

structure Be32 where
  b0 : U8
  b1 : U8
  b2 : U8
  b3 : U8
  deriving DecidableEq, Repr

namespace Be32

def get (x : Be32) : U32 :=
  BitVec.ofNat 32 (x.b0.toNat * 16777216 + x.b1.toNat * 65536 + x.b2.toNat * 256 + x.b3.toNat)

def ofU32 (n : U32) : Be32 :=
  ⟨BitVec.ofNat 8 (n.toNat / 16777216), BitVec.ofNat 8 (n.toNat / 65536),
    BitVec.ofNat 8 (n.toNat / 256), BitVec.ofNat 8 n.toNat⟩

@[simp] theorem get_ofU32 (n : U32) : (ofU32 n).get = n := by
  have hlt := n.isLt
  apply BitVec.eq_of_toNat_eq
  simp only [get, ofU32, BitVec.toNat_ofNat]
  omega

@[simp] theorem ofU32_get (x : Be32) : ofU32 x.get = x := by
  obtain ⟨b0, b1, b2, b3⟩ := x
  have h0 := b0.isLt
  have h1 := b1.isLt
  have h2 := b2.isLt
  have h3 := b3.isLt
  have heq : ∀ (b : U8) (n : Nat), n % 2 ^ 8 = b.toNat → BitVec.ofNat 8 n = b := by
    intro b n h
    apply BitVec.eq_of_toNat_eq
    rw [BitVec.toNat_ofNat, h]
  unfold ofU32 get
  dsimp only
  rw [BitVec.toNat_ofNat, heq b0 _ (by omega), heq b1 _ (by omega), heq b2 _ (by omega), heq b3 _ (by omega)]

def asBytes (x : Be32) : Bytes := [x.b0, x.b1, x.b2, x.b3]

end Be32

/-- A 48-bit IEEE 802 address, octet by octet. -/
structure Mac where
  o0 : U8
  o1 : U8
  o2 : U8
  o3 : U8
  o4 : U8
  o5 : U8
  deriving DecidableEq, Repr

namespace Mac

def broadcast : Mac := ⟨0xff, 0xff, 0xff, 0xff, 0xff, 0xff⟩

def zero : Mac := ⟨0, 0, 0, 0, 0, 0⟩

/-- The short addresses examples use. -/
def low (n : U8) : Mac := ⟨0, 0, 0, 0, 0, n⟩

def asBytes (m : Mac) : Bytes := [m.o0, m.o1, m.o2, m.o3, m.o4, m.o5]

/-- `TryFrom<&[u8]>`: exactly six bytes. -/
def tryFrom : Bytes → Option Mac
  | [a, b, c, d, e, f] => some ⟨a, b, c, d, e, f⟩
  | _ => none

@[simp] theorem asBytes_length (m : Mac) : m.asBytes.length = 6 := rfl

@[simp] theorem tryFrom_asBytes (m : Mac) : tryFrom m.asBytes = some m := rfl

def isMulticast (m : Mac) : Bool := m.o0 &&& 0x01 != 0

end Mac

abbrev Duration := Nat

namespace Duration

def asMillis (d : Duration) : Nat := d / 1000000

def ofMillis (ms : Nat) : Duration := ms * 1000000

def ofSecs (s : Nat) : Duration := s * 1000000000

@[simp] theorem asMillis_ofMillis (ms : Nat) : asMillis (ofMillis ms) = ms := by
  simp only [asMillis, ofMillis]
  omega

theorem asMillis_mono {a b : Duration} (h : a ≤ b) : asMillis a ≤ asMillis b :=
  Nat.div_le_div_right h

theorem ofMillis_le_ofMillis {a b : Nat} : ofMillis a ≤ ofMillis b ↔ a ≤ b :=
  Nat.mul_le_mul_right_iff (by decide)

theorem ofMillis_inj {a b : Nat} : ofMillis a = ofMillis b ↔ a = b :=
  Nat.mul_left_inj (by decide)

theorem asMillis_add_ofMillis (t : Duration) (k : Nat) :
    asMillis (t + ofMillis k) = asMillis t + k := by
  unfold asMillis ofMillis
  omega

theorem ofMillis_add (a b : Nat) : ofMillis (a + b) = ofMillis a + ofMillis b :=
  Nat.add_mul a b _

theorem asMillis_lt_iff {t : Duration} {k : Nat} : t.asMillis < k ↔ t < ofMillis k :=
  Nat.div_lt_iff_lt_mul (by decide)

/-- The start of a millisecond is its only instant that is a whole number of them. -/
theorem ofMillis_asMillis {t : Duration} : ofMillis t.asMillis = t ↔ t % ofMillis 1 = 0 := by
  rw [ofMillis, ofMillis, Nat.one_mul]
  constructor
  · intro h
    rw [← h]
    exact Nat.mul_mod_left _ _
  · intro h
    exact Nat.div_mul_cancel (Nat.dvd_of_mod_eq_zero h)

theorem ofMillis_asMillis_le (t : Duration) : ofMillis t.asMillis ≤ t :=
  Nat.div_mul_le_self t _

end Duration

/-- A monotonic instant in whole milliseconds, wrapping every 49.7 days. -/
structure Millis where
  raw : U32
  deriving DecidableEq, Repr

namespace Millis

def fromDuration (now : Duration) : Millis := ⟨BitVec.ofNat 32 now.asMillis⟩

/-- Zero when `earlier` lies in the future, or more than half the range back. -/
def elapsedSince (self earlier : Millis) : Nat := Serial.elapsed self.raw earlier.raw

/-- The documented precondition of the type: below 24.8 days an age is true. -/
theorem elapsedSince_fromDuration {now earlier : Duration}
    (hle : earlier.asMillis ≤ now.asMillis)
    (h : now.asMillis - earlier.asMillis < 2 ^ 31) :
    (fromDuration now).elapsedSince (fromDuration earlier) =
      now.asMillis - earlier.asMillis :=
  Serial.elapsed_ofNat hle (by omega)

theorem fromDuration_of_asMillis {t now : Duration} {k : Nat}
    (h : t.asMillis = now.asMillis + k) :
    fromDuration t = ⟨(fromDuration now).raw + BitVec.ofNat 32 k⟩ := by
  rw [fromDuration, h, BitVec.ofNat_add]
  rfl

theorem elapsedSince_le {t now : Duration} {k : Nat} (h : t.asMillis = now.asMillis + k)
    (last : Millis) :
    (fromDuration t).elapsedSince last ≤ (fromDuration now).elapsedSince last + k := by
  rw [fromDuration_of_asMillis h]
  exact Serial.elapsed_add_le _ _ k

end Millis

structure LinkFrame where
  dst : Mac
  src : Mac
  protocol : U16
  payload : Bytes
  deriving DecidableEq, Repr

/-- A frame to send; the link layer stamps the source. -/
structure LinkFrameData where
  dst : Mac
  protocol : U16
  payload : Bytes
  deriving DecidableEq, Repr

/-- The engine's verdict on a received frame. -/
inductive RoutingAction where
  | consumed
  | forwardTo (next : Mac)
  | deliverLocal
  | deliverLocalAndForward (next : Mac)
  deriving DecidableEq, Repr

/-- A bounded sink: the frames taken so far, and whether the next one is accepted. -/
structure FrameSink where
  frames : List LinkFrameData
  accepts : List LinkFrameData → LinkFrameData → Bool

namespace FrameSink

/-- `FrameSink::push`: refuses by returning `false`. -/
def push (s : FrameSink) (f : LinkFrameData) : FrameSink × Bool :=
  if s.accepts s.frames f then ({ s with frames := s.frames ++ [f] }, true) else (s, false)

/-- A sink with nothing in it that takes everything. -/
def unbounded : FrameSink := ⟨[], fun _ _ => true⟩

end FrameSink

end Wayfinder

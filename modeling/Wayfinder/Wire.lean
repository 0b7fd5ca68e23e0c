import Wayfinder.Frame

/-!
# BATMAN wire headers

Each header is a packed record read off the front of a payload. Reading and
writing are inverse to each other: what `readFromPrefix` accepts is the header's
own bytes followed by the rest.
-/

namespace Wayfinder

set_option autoImplicit false

def ethPBatman : U16 := 0x4305
def batmanVersion : U8 := 6
def maxMcastDests : Nat := 16

inductive BatmanPacketType where
  | ogm | bcast | unicast | mcast | certReq | certReply | keepalive
  | nextHopChallenge | nextHopResponse | echoRequest | echoReply | renewReq | renewReply
  deriving DecidableEq, Repr

namespace BatmanPacketType

def asU8 : BatmanPacketType → U8
  | .ogm => 0x01
  | .bcast => 0x02
  | .unicast => 0x03
  | .mcast => 0x04
  | .certReq => 0x05
  | .certReply => 0x06
  | .keepalive => 0x07
  | .nextHopChallenge => 0x08
  | .nextHopResponse => 0x09
  | .echoRequest => 0x0a
  | .echoReply => 0x0b
  | .renewReq => 0x0c
  | .renewReply => 0x0d

def fromU8 (byte : U8) : Option BatmanPacketType :=
  [ogm, bcast, unicast, mcast, certReq, certReply, keepalive, nextHopChallenge,
    nextHopResponse, echoRequest, echoReply, renewReq, renewReply].find? fun t => t.asU8 = byte

@[simp] theorem fromU8_asU8 (t : BatmanPacketType) : fromU8 t.asU8 = some t := by
  cases t <;> decide

theorem asU8_of_fromU8 {byte : U8} {t : BatmanPacketType} (h : fromU8 byte = some t) :
    t.asU8 = byte := by
  unfold fromU8 at h
  simpa using List.find?_some h

end BatmanPacketType

/-! ### Originator messages -/

structure BatmanOgmPacket where
  packetType : U8
  version : U8
  ttl : U8
  flags : U8
  seqno : Be32
  orig : Mac
  reserved : U8
  tq : U8
  tvlvLen : Be16
  deriving DecidableEq, Repr

namespace BatmanOgmPacket

def size : Nat := 18

def asBytes (p : BatmanOgmPacket) : Bytes :=
  [p.packetType, p.version, p.ttl, p.flags] ++ p.seqno.asBytes ++ p.orig.asBytes ++
    [p.reserved, p.tq] ++ p.tvlvLen.asBytes

def readFromPrefix : Bytes → Option (BatmanOgmPacket × Bytes)
  | pt :: v :: ttl :: fl :: s0 :: s1 :: s2 :: s3 :: o0 :: o1 :: o2 :: o3 :: o4 :: o5 ::
      res :: tq :: l0 :: l1 :: rest =>
    some (⟨pt, v, ttl, fl, ⟨s0, s1, s2, s3⟩, ⟨o0, o1, o2, o3, o4, o5⟩, res, tq, ⟨l0, l1⟩⟩, rest)
  | _ => none

@[simp] theorem readFromPrefix_asBytes (p : BatmanOgmPacket) (rest : Bytes) :
    readFromPrefix (p.asBytes ++ rest) = some (p, rest) := rfl

theorem asBytes_of_readFromPrefix {payload rest : Bytes} {p : BatmanOgmPacket}
    (h : readFromPrefix payload = some (p, rest)) : payload = p.asBytes ++ rest := by
  unfold readFromPrefix at h
  split at h
  · obtain ⟨rfl, rfl⟩ := Prod.mk.inj (Option.some.inj h)
    rfl
  · simp at h

@[simp] theorem asBytes_length (p : BatmanOgmPacket) : p.asBytes.length = size := rfl

end BatmanOgmPacket

/-! ### Flooded broadcasts -/

structure BatmanBroadcastPacket where
  packetType : U8
  version : U8
  ttl : U8
  seqno : Be32
  orig : Mac
  deriving DecidableEq, Repr

namespace BatmanBroadcastPacket

def size : Nat := 13

def asBytes (p : BatmanBroadcastPacket) : Bytes :=
  [p.packetType, p.version, p.ttl] ++ p.seqno.asBytes ++ p.orig.asBytes

def readFromPrefix : Bytes → Option (BatmanBroadcastPacket × Bytes)
  | pt :: v :: ttl :: s0 :: s1 :: s2 :: s3 :: o0 :: o1 :: o2 :: o3 :: o4 :: o5 :: rest =>
    some (⟨pt, v, ttl, ⟨s0, s1, s2, s3⟩, ⟨o0, o1, o2, o3, o4, o5⟩⟩, rest)
  | _ => none

@[simp] theorem readFromPrefix_asBytes (p : BatmanBroadcastPacket) (rest : Bytes) :
    readFromPrefix (p.asBytes ++ rest) = some (p, rest) := rfl

theorem asBytes_of_readFromPrefix {payload rest : Bytes} {p : BatmanBroadcastPacket}
    (h : readFromPrefix payload = some (p, rest)) : payload = p.asBytes ++ rest := by
  unfold readFromPrefix at h
  split at h
  · obtain ⟨rfl, rfl⟩ := Prod.mk.inj (Option.some.inj h)
    rfl
  · simp at h

end BatmanBroadcastPacket

/-! ### Packets routed toward one destination -/

structure BatmanUnicastPacket where
  packetType : U8
  version : U8
  ttl : U8
  dest : Mac
  deriving DecidableEq, Repr

namespace BatmanUnicastPacket

def size : Nat := 9

def asBytes (p : BatmanUnicastPacket) : Bytes :=
  [p.packetType, p.version, p.ttl] ++ p.dest.asBytes

def readFromPrefix : Bytes → Option (BatmanUnicastPacket × Bytes)
  | pt :: v :: ttl :: o0 :: o1 :: o2 :: o3 :: o4 :: o5 :: rest =>
    some (⟨pt, v, ttl, ⟨o0, o1, o2, o3, o4, o5⟩⟩, rest)
  | _ => none

theorem asBytes_of_readFromPrefix {payload rest : Bytes} {p : BatmanUnicastPacket}
    (h : readFromPrefix payload = some (p, rest)) : payload = p.asBytes ++ rest := by
  unfold readFromPrefix at h
  split at h
  · obtain ⟨rfl, rfl⟩ := Prod.mk.inj (Option.some.inj h)
    rfl
  · simp at h

end BatmanUnicastPacket

-- The four credential-control headers have the unicast layout.
abbrev BatmanCertReqPacket := BatmanUnicastPacket
abbrev BatmanCertReplyPacket := BatmanUnicastPacket
abbrev BatmanRenewReqPacket := BatmanUnicastPacket
abbrev BatmanRenewReplyPacket := BatmanUnicastPacket

structure BatmanEchoPacket where
  packetType : U8
  version : U8
  ttl : U8
  dest : Mac
  orig : Mac
  seqno : Be16
  reqHops : U8
  hops : U8
  deriving DecidableEq, Repr

namespace BatmanEchoPacket

def size : Nat := 19

def asBytes (p : BatmanEchoPacket) : Bytes :=
  [p.packetType, p.version, p.ttl] ++ p.dest.asBytes ++ p.orig.asBytes ++ p.seqno.asBytes ++
    [p.reqHops, p.hops]

def readFromPrefix : Bytes → Option (BatmanEchoPacket × Bytes)
  | pt :: v :: ttl :: d0 :: d1 :: d2 :: d3 :: d4 :: d5 :: o0 :: o1 :: o2 :: o3 :: o4 :: o5 ::
      s0 :: s1 :: rh :: h :: rest =>
    some (⟨pt, v, ttl, ⟨d0, d1, d2, d3, d4, d5⟩, ⟨o0, o1, o2, o3, o4, o5⟩, ⟨s0, s1⟩, rh, h⟩,
      rest)
  | _ => none

theorem asBytes_of_readFromPrefix {payload rest : Bytes} {p : BatmanEchoPacket}
    (h : readFromPrefix payload = some (p, rest)) : payload = p.asBytes ++ rest := by
  unfold readFromPrefix at h
  split at h
  · obtain ⟨rfl, rfl⟩ := Prod.mk.inj (Option.some.inj h)
    rfl
  · simp at h

end BatmanEchoPacket

/-! ### Multi-destination multicast -/

inductive McastAuthForm where
  | tag | signature
  deriving DecidableEq, Repr

namespace McastAuthForm

def asU8 : McastAuthForm → U8
  | .tag => 1
  | .signature => 2

def fromU8 (value : U8) : Option McastAuthForm :=
  if value = 1 then some .tag else if value = 2 then some .signature else none

@[simp] theorem fromU8_asU8 (f : McastAuthForm) : fromU8 f.asU8 = some f := by
  cases f <;> decide

end McastAuthForm

structure BatmanMcastPacket where
  packetType : U8
  version : U8
  ttl : U8
  nDests : U8
  form : U8
  deriving DecidableEq, Repr

def mcastHeaderLen : Nat := 5

namespace BatmanMcastPacket

def asBytes (p : BatmanMcastPacket) : Bytes := [p.packetType, p.version, p.ttl, p.nDests, p.form]

def readFromPrefix : Bytes → Option (BatmanMcastPacket × Bytes)
  | pt :: v :: ttl :: n :: f :: rest => some (⟨pt, v, ttl, n, f⟩, rest)
  | _ => none

theorem asBytes_of_readFromPrefix {payload rest : Bytes} {p : BatmanMcastPacket}
    (h : readFromPrefix payload = some (p, rest)) : payload = p.asBytes ++ rest := by
  unfold readFromPrefix at h
  split at h
  · obtain ⟨rfl, rfl⟩ := Prod.mk.inj (Option.some.inj h)
    rfl
  · simp at h

end BatmanMcastPacket

/-- `split_at_checked(6 * n)` followed by the cast of the list half to `[Mac]`. -/
def splitMacs : Nat → Bytes → Option (List Mac × Bytes)
  | 0, rest => some ([], rest)
  | n + 1, a :: b :: c :: d :: e :: f :: rest =>
    (splitMacs n rest).map fun r => (⟨a, b, c, d, e, f⟩ :: r.1, r.2)
  | _ + 1, _ => none

def macsAsBytes (dests : List Mac) : Bytes := dests.flatMap Mac.asBytes

theorem splitMacs_macsAsBytes (dests : List Mac) (inner : Bytes) :
    splitMacs dests.length (macsAsBytes dests ++ inner) = some (dests, inner) := by
  induction dests with
  | nil => rfl
  | cons d ds ih =>
    have happ : macsAsBytes (d :: ds) ++ inner = d.asBytes ++ (macsAsBytes ds ++ inner) := by
      simp [macsAsBytes]
    rw [happ, List.length_cons]
    simp [Mac.asBytes, splitMacs, ih]

theorem macsAsBytes_of_splitMacs {n : Nat} {rest inner : Bytes} {dests : List Mac}
    (h : splitMacs n rest = some (dests, inner)) :
    rest = macsAsBytes dests ++ inner ∧ dests.length = n := by
  induction n, rest using splitMacs.induct generalizing dests with
  | case1 rest =>
    obtain ⟨rfl, rfl⟩ := Prod.mk.inj (Option.some.inj h)
    exact ⟨rfl, rfl⟩
  | case2 n a b c d e f rest ih =>
    rw [splitMacs] at h
    obtain ⟨r, hr, heq⟩ := Option.map_eq_some_iff.mp h
    obtain ⟨rfl, rfl⟩ := Prod.mk.inj heq
    obtain ⟨hrest, hlen⟩ := ih hr
    refine ⟨?_, by rw [List.length_cons, hlen]⟩
    rw [hrest]
    simp [macsAsBytes, Mac.asBytes]
  | case3 n rest hshort =>
    rw [splitMacs] at h
    · cases h
    · exact hshort

structure McastPacketView where
  header : BatmanMcastPacket
  form : McastAuthForm
  dests : List Mac
  inner : Bytes
  deriving DecidableEq, Repr

namespace McastPacketView

def parse (payload : Bytes) : Option McastPacketView := do
  let (header, rest) ← BatmanMcastPacket.readFromPrefix payload
  let form ← McastAuthForm.fromU8 header.form
  if header.nDests.toNat = 0 then none
  else
    let (dests, inner) ← splitMacs header.nDests.toNat rest
    some ⟨header, form, dests, inner⟩

theorem asBytes_of_parse {payload : Bytes} {view : McastPacketView}
    (h : parse payload = some view) :
    payload = view.header.asBytes ++ (macsAsBytes view.dests ++ view.inner) ∧
      McastAuthForm.fromU8 view.header.form = some view.form ∧
      view.dests.length = view.header.nDests.toNat := by
  unfold parse at h
  obtain ⟨⟨header, rest⟩, hread, h⟩ := Option.bind_eq_some_iff.mp h
  obtain ⟨form, hform, h⟩ := Option.bind_eq_some_iff.mp h
  split at h
  · cases h
  obtain ⟨⟨dests, inner⟩, hsplit, h⟩ := Option.bind_eq_some_iff.mp h
  obtain rfl := Option.some.inj h
  obtain ⟨hrest, hlen⟩ := macsAsBytes_of_splitMacs hsplit
  refine ⟨?_, hform, hlen⟩
  rw [← hrest]
  exact BatmanMcastPacket.asBytes_of_readFromPrefix hread

end McastPacketView

/-- The bytes `write_mcast` leaves in a buffer of `outLen`, or `None` when it refuses. -/
def writeMcast (ttl : U8) (form : McastAuthForm) (dests : List Mac) (inner : Bytes)
    (outLen : Nat) : Option Bytes :=
  if dests.isEmpty ∨ 255 < dests.length then none
  else if outLen < mcastHeaderLen + dests.length * 6 + inner.length then none
  else
    let header : BatmanMcastPacket :=
      ⟨BatmanPacketType.mcast.asU8, batmanVersion, ttl, BitVec.ofNat 8 dests.length, form.asU8⟩
    some (header.asBytes ++ macsAsBytes dests ++ inner)

/-- What `write_mcast` writes, `McastPacketView::parse` reads back. -/
theorem parse_writeMcast {ttl : U8} {form : McastAuthForm} {dests : List Mac} {inner : Bytes}
    {outLen : Nat} {bytes : Bytes} (h : writeMcast ttl form dests inner outLen = some bytes) :
    McastPacketView.parse bytes = some
      ⟨⟨BatmanPacketType.mcast.asU8, batmanVersion, ttl, BitVec.ofNat 8 dests.length, form.asU8⟩,
        form, dests, inner⟩ := by
  unfold writeMcast at h
  split at h
  · simp at h
  · rename_i hlen
    split at h
    · simp at h
    · obtain rfl := Option.some.inj h
      have hpos : dests.length ≠ 0 := by
        intro hz
        simp [List.length_eq_zero_iff.mp hz] at hlen
      have hn : (BitVec.ofNat 8 dests.length).toNat = dests.length := by
        rw [BitVec.toNat_ofNat]
        omega
      simp [McastPacketView.parse, BatmanMcastPacket.readFromPrefix, BatmanMcastPacket.asBytes,
        hn, hpos, splitMacs_macsAsBytes]

structure BatmanKeepAlivePacket where
  packetType : U8
  version : U8
  deriving DecidableEq, Repr

namespace BatmanKeepAlivePacket

def readFromPrefix : Bytes → Option (BatmanKeepAlivePacket × Bytes)
  | pt :: v :: rest => some (⟨pt, v⟩, rest)
  | _ => none

end BatmanKeepAlivePacket

end Wayfinder

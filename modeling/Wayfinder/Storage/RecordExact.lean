import Wayfinder.Storage.NodeRecord

/-!
# One meaning for every node record

What is read from the bytes of a record is written back byte for byte, but for the value of
a setting that was never written. No slice that decoding takes reaches past the bytes.
-/

namespace Wayfinder

set_option autoImplicit false

/-! ### Numbers from their digits -/

namespace Octets

variable {n : Nat}

/-- Digits in base 256 that give one number are the same digits. -/
theorem foldl_injective {l l' : Bytes} {acc acc' : Nat} (hlen : l.length = l'.length)
    (h : l.foldl (fun m b => m * 256 + b.toNat) acc =
      l'.foldl (fun m b => m * 256 + b.toNat) acc') : acc = acc' ∧ l = l' := by
  induction l generalizing l' acc acc' with
  | nil =>
    obtain rfl := List.eq_nil_of_length_eq_zero hlen.symm
    exact ⟨h, rfl⟩
  | cons b l ih =>
    cases l' with
    | nil => cases hlen
    | cons b' l' =>
      obtain ⟨hacc, rfl⟩ := ih (Nat.succ.inj hlen) h
      have hb := b.isLt
      have hb' := b'.isLt
      have hdigits : acc * 256 + b.toNat = acc' * 256 + b'.toNat := hacc
      have hsame : acc = acc' ∧ b.toNat = b'.toNat := by omega
      obtain ⟨rfl, hdigit⟩ := hsame
      obtain rfl := BitVec.eq_of_toNat_eq hdigit
      exact ⟨rfl, rfl⟩

theorem foldl_lt (l : Bytes) (acc : Nat) :
    l.foldl (fun m b => m * 256 + b.toNat) acc < (acc + 1) * 256 ^ l.length := by
  induction l generalizing acc with
  | nil => simp
  | cons b l ih =>
    have hb := b.isLt
    calc l.foldl (fun m b => m * 256 + b.toNat) (acc * 256 + b.toNat)
        < (acc * 256 + b.toNat + 1) * 256 ^ l.length := ih _
      _ ≤ ((acc + 1) * 256) * 256 ^ l.length := Nat.mul_le_mul_right _ (by omega)
      _ = (acc + 1) * 256 ^ (b :: l).length := by
        rw [List.length_cons, Nat.pow_succ, Nat.mul_assoc, Nat.mul_comm 256]

end Octets

theorem Be64.ofNat_get (x : Be64) : ofNat x.get = x := by
  apply Octets.eq_of_toList
  have hlt : x.get < 2 ^ 64 := by
    have hbound := Octets.foldl_lt x.toList 0
    rw [x.length_eq] at hbound
    exact hbound
  have hlen : (ofNat x.get).toList.length = x.toList.length := by
    rw [x.length_eq, Octets.length_eq]
  exact (Octets.foldl_injective hlen (Be64.get_ofNat hlt)).2

/-! ### The flags once more -/

namespace RecordFlags

/-- Without the value of a setting that was not written. -/
def settle (flags : RecordFlags) : RecordFlags :=
  let flags := if contains flags requireAuthSet then flags else set flags requireAuthOn false
  if contains flags lazySet then flags else set flags lazyOn false

theorem encode_contains (flags : RecordFlags) :
    encode (contains flags hasCert) (contains flags hasAnchor) (contains flags hasRevoke)
      (contains flags hasProvider) (getPair flags requireAuthSet requireAuthOn)
      (getPair flags lazySet lazyOn) = settle flags := by
  revert flags
  decide +kernel

end RecordFlags

namespace RecordCodec

/-! ### Decoding with every slice checked -/

/-- A slice of the bytes, if they reach that far. -/
def slice? (bytes : Bytes) (start len : Nat) : Option Bytes :=
  if start + len ≤ bytes.length then some ((bytes.drop start).take len) else none

def blobAt? (bytes : Bytes) (flags bit : RecordFlags) (n at_ : Nat) :
    Option (Option (Octets n)) :=
  if flags.contains bit then (slice? bytes at_ n).map fun s => some (Octets.copied n s)
  else some none

def parse? (bytes : Bytes) (flags : RecordFlags) : Option NodeRecord := do
  let certAt := recordHeaderLen
  let anchorAt := certAt + blobLen flags .hasCert MembershipCert.size
  let revokeAt := anchorAt + blobLen flags .hasAnchor trustAnchorLen
  let providerAt := revokeAt + blobLen flags .hasRevoke RevocationRecord.size
  let seed ← slice? bytes 2 seedLen
  let checkpoint ← slice? bytes (2 + seedLen) 8
  let cert ← blobAt? bytes flags .hasCert MembershipCert.size certAt
  let trustAnchor ← blobAt? bytes flags .hasAnchor trustAnchorLen anchorAt
  let selfRevocation ← blobAt? bytes flags .hasRevoke RevocationRecord.size revokeAt
  let renewalProviderKey ← blobAt? bytes flags .hasProvider seedLen providerAt
  some
    { seed := Octets.copied seedLen seed
      checkpointUnix := BitVec.ofNat 64 (Be64.get (Octets.copied 8 checkpoint))
      cert, trustAnchor, selfRevocation, renewalProviderKey
      requireAuth := RecordFlags.getPair flags .requireAuthSet .requireAuthOn
      lazyCertDistribution := RecordFlags.getPair flags .lazySet .lazyOn }

/-- `decode`, or nothing where an index or a slice of it would be out of range. -/
def decode? (bytes : Bytes) : Option (Except RecordCodecError NodeRecord) :=
  match bytes.head? with
  | none => some (.error (.wrongLength 0 recordHeaderLen))
  | some version =>
    if version = legacyMacVersion then some (.error .legacyMacBlob)
    else if version ≠ recordVersion then some (.error (.unknownVersion version))
    else if bytes.length < recordHeaderLen then
      some (.error (.wrongLength bytes.length recordHeaderLen))
    else
      bytes[1]?.bind fun flags =>
        if bytes.length ≠ expectedLen flags then
          some (.error (.wrongLength bytes.length (expectedLen flags)))
        else (parse? bytes flags).map .ok

section Checked
variable {bytes : Bytes} {flags bit : RecordFlags} {n start : Nat}

theorem slice?_of_le (h : start + n ≤ bytes.length) :
    slice? bytes start n = some ((bytes.drop start).take n) := if_pos h

theorem blobAt?_of_le (h : start + blobLen flags bit n ≤ bytes.length) :
    blobAt? bytes flags bit n start = some (blobAt bytes flags bit n start) := by
  unfold blobLen at h
  unfold blobAt? blobAt
  split
  · rename_i hset
    rw [if_pos hset] at h
    rw [slice?_of_le h]
    rfl
  · rfl

theorem parse?_eq (h : bytes.length = expectedLen flags) :
    parse? bytes flags = some (parse bytes flags) := by
  unfold expectedLen at h
  have hheader : recordHeaderLen = 2 + seedLen + 8 := rfl
  unfold parse?
  dsimp only
  rw [slice?_of_le (by omega), slice?_of_le (by omega), blobAt?_of_le (by omega),
    blobAt?_of_le (by omega), blobAt?_of_le (by omega), blobAt?_of_le (by omega)]
  rfl

/-- Nothing is read that is not there. -/
theorem decode?_eq (bytes : Bytes) : decode? bytes = some (decode bytes) := by
  unfold decode? decode
  cases hhead : bytes.head? with
  | none => rfl
  | some version =>
    dsimp only
    split
    · rfl
    split
    · rfl
    split
    · rfl
    · rename_i hlong
      have hsecond : 1 < bytes.length := by
        have hheader : 1 < recordHeaderLen := by decide
        omega
      rw [List.getElem?_eq_getElem hsecond, List.getD_eq_getElem?_getD,
        List.getElem?_eq_getElem hsecond, Option.bind_some, Option.getD_some]
      split
      · rfl
      · rename_i hlen
        rw [parse?_eq (not_not.mp hlen)]
        rfl

end Checked

/-! ### Writing back what was read -/

section Exact
variable {bytes : Bytes} {flags bit : RecordFlags} {n start : Nat}

theorem copied_of_length {slice : Bytes} (h : slice.length = n) :
    (Octets.copied n slice).toList = slice := List.take_left' h

theorem blobBytes_blobAt (h : start + blobLen flags bit n ≤ bytes.length) :
    blobBytes (blobAt bytes flags bit n start) =
      (bytes.drop start).take (blobLen flags bit n) := by
  unfold blobLen at h ⊢
  unfold blobAt
  split
  · rename_i hset
    rw [if_pos hset] at h
    apply copied_of_length
    rw [List.length_take, List.length_drop]
    omega
  · rfl

/-- One slice and what is behind it. -/
theorem slice_append (bytes : Bytes) (start n : Nat) :
    (bytes.drop start).take n ++ bytes.drop (start + n) = bytes.drop start := by
  rw [← List.drop_drop]
  exact List.take_append_drop n _

theorem blobAt_isSome (bytes : Bytes) (flags bit : RecordFlags) (n start : Nat) :
    (blobAt bytes flags bit n start).isSome = flags.contains bit := by
  unfold blobAt
  split
  · rename_i hset
    exact hset.symm
  · rename_i hset
    exact (Bool.eq_false_iff.mpr hset).symm

theorem flagsOf_parse (bytes : Bytes) (flags : RecordFlags) :
    flagsOf (parse bytes flags) = flags.settle := by
  unfold flagsOf parse
  dsimp only
  rw [blobAt_isSome, blobAt_isSome, blobAt_isSome, blobAt_isSome]
  exact RecordFlags.encode_contains flags

/-- The slices of a record, put together again. -/
theorem toBytes_parse (h : bytes.length = expectedLen flags) :
    toBytes (parse bytes flags) = [recordVersion, flags.settle] ++ bytes.drop 2 := by
  unfold expectedLen at h
  have hheader : recordHeaderLen = 2 + seedLen + 8 := rfl
  have hseed : (Octets.copied seedLen ((bytes.drop 2).take seedLen)).toList =
      (bytes.drop 2).take seedLen := by
    apply copied_of_length
    rw [List.length_take, List.length_drop]
    omega
  have hcheckpoint : (Octets.copied 8 ((bytes.drop (2 + seedLen)).take 8)).toList =
      (bytes.drop (2 + seedLen)).take 8 := by
    apply copied_of_length
    rw [List.length_take, List.length_drop]
    omega
  have hstamp : ∀ x : Be64, Be64.ofNat (BitVec.ofNat 64 x.get).toNat = x := by
    intro x
    have hbound := Octets.foldl_lt x.toList 0
    rw [x.length_eq] at hbound
    have hlt : x.get < 2 ^ 64 := hbound
    rw [BitVec.toNat_ofNat, Nat.mod_eq_of_lt hlt, Be64.ofNat_get]
  have hend : bytes.drop (recordHeaderLen + blobLen flags .hasCert MembershipCert.size +
      blobLen flags .hasAnchor trustAnchorLen + blobLen flags .hasRevoke RevocationRecord.size +
        blobLen flags .hasProvider seedLen) = [] := by
    apply List.drop_eq_nil_of_le
    omega
  rw [toBytes_eq]
  unfold headerBytes
  rw [flagsOf_parse]
  unfold parse
  dsimp only
  rw [hseed, hstamp, hcheckpoint, blobBytes_blobAt (by omega), blobBytes_blobAt (by omega),
    blobBytes_blobAt (by omega), blobBytes_blobAt (by omega), ← hend]
  simp only [List.append_assoc, slice_append]
  rw [hheader, slice_append, slice_append]

theorem decode_ok {r : NodeRecord} (h : decode bytes = .ok r) :
    bytes.head? = some recordVersion ∧ bytes.length = expectedLen (bytes.getD 1 0) ∧
      r = parse bytes (bytes.getD 1 0) := by
  unfold decode at h
  cases hhead : bytes.head? with
  | none =>
    rw [hhead] at h
    cases h
  | some version =>
    rw [hhead] at h
    dsimp only at h
    split at h
    · cases h
    split at h
    · cases h
    split at h
    · cases h
    split at h
    · cases h
    · rename_i hversion _ hlen
      rw [not_not.mp hversion]
      exact ⟨rfl, not_not.mp hlen, (Except.ok.inj h).symm⟩

/-- The bytes as they are written back: the value of an unwritten setting is left out. -/
def settled (bytes : Bytes) : Bytes := bytes.set 1 (RecordFlags.settle (bytes.getD 1 0))

theorem toBytes_of_decode {r : NodeRecord} (h : decode bytes = .ok r) :
    toBytes r = settled bytes := by
  obtain ⟨hhead, hlen, rfl⟩ := decode_ok h
  have hlong : 2 ≤ bytes.length := by
    rw [hlen]
    unfold expectedLen
    have hheader : 2 ≤ recordHeaderLen := by decide
    omega
  rw [toBytes_parse hlen]
  unfold settled
  match bytes, hhead, hlong with
  | version :: flags :: rest, hhead, _ =>
    obtain rfl := Option.some.inj hhead
    rfl

end Exact

/-- A record is read back as it was written and fits its buffer; bytes that are read agree with
themselves on their length and are written back as they were; distinct records have distinct
bytes; and whatever the bytes, no slice of them is out of range. -/
theorem codec_exact :
    (∀ r, ∃ bytes, encode r = .ok bytes ∧ decode bytes = .ok r ∧ bytes.length ≤ maxRecordLen) ∧
      (∀ bytes r, decode bytes = .ok r →
        bytes.head? = some recordVersion ∧ bytes.length = expectedLen (bytes.getD 1 0) ∧
          encode r = .ok (settled bytes)) ∧
      (∀ r r', encode r = encode r' → r = r') ∧
      ∀ bytes, decode? bytes = some (decode bytes) := by
  refine ⟨?_, ?_, ?_, decode?_eq⟩
  · intro r
    exact ⟨toBytes r, rfl, decode_toBytes r, length_toBytes_le r⟩
  · intro bytes r h
    obtain ⟨hhead, hlen, _⟩ := decode_ok h
    exact ⟨hhead, hlen, congrArg Except.ok (toBytes_of_decode h)⟩
  · intro r r' h
    exact toBytes_injective (Except.ok.inj h)

end RecordCodec

end Wayfinder

import Wayfinder.Frame
import Wayfinder.Lib.Numeral
import Wayfinder.Lib.Text

/-!
# The line of a received packet

The radio module reports a packet in a line of fields with commas between them. One of the
fields is what another node has sent, behind its own length, and may hold commas as well.
-/

namespace Wayfinder.Rylr

set_option autoImplicit false

def maxDataLen : Nat := 240

abbrev I32 := BitVec 32

inductive Target
  | bits32
  | bits64

def Target.usizeBound : Target → Nat
  | bits32 => 2 ^ 32
  | bits64 => 2 ^ 64

def parseU16 (text : List Char) : Option U16 :=
  (parseUnsigned (2 ^ 16) text).map (BitVec.ofNat 16)

def parseUsize (t : Target) (text : List Char) : Option Nat := parseUnsigned t.usizeBound text

def parseI32 (text : List Char) : Option I32 := (parseSigned (2 ^ 31) text).map (BitVec.ofInt 32)

structure ReceivedPacket where
  address : U16
  length : Nat
  data : FixedText maxDataLen
  rssi : I32
  snr : I32
  deriving DecidableEq

def rcvTag : List Char := "+RCV=".toList

/-- The texts of the fields, before they are read. -/
structure RcvFields where
  address : List Char
  length : List Char
  data : List Char
  rssi : List Char
  snr : List Char

/-- The first five parts between commas. -/
def rcvFields (line : List Char) : Option RcvFields :=
  if rcvTag.isPrefixOf line then
    match (line.drop rcvTag.length).splitOn ',' with
    | address :: length :: data :: rssi :: snr :: _ => some ⟨address, length, data, rssi, snr⟩
    | _ => none
  else none

def parseRcv (t : Target) (line : List Char) : Option ReceivedPacket := do
  let fields ← rcvFields line
  let address ← parseU16 fields.address
  let length ← parseUsize t fields.length
  let data ← FixedText.ofText? fields.data
  let rssi ← parseI32 fields.rssi
  let snr ← parseI32 fields.snr
  some ⟨address, length, data, rssi, snr⟩

/-- The line the module emits for a packet. -/
def rcvLine (address : U16) (data : List Char) (rssi snr : I32) : List Char :=
  rcvTag ++ [','].intercalate [Nat.toDigits 10 address.toNat, Nat.toDigits 10 (utf8Len data), data,
    showInt rssi.toInt, showInt snr.toInt]

section Fields
variable {t : Target} {line data : List Char} {p : ReceivedPacket}

theorem parseU16_toDigits (address : U16) :
    parseU16 (Nat.toDigits 10 address.toNat) = some address := by
  unfold parseU16
  rw [parseUnsigned_toDigits address.isLt, Option.map_some, BitVec.ofNat_toNat, BitVec.setWidth_eq]

theorem parseI32_showInt (i : I32) : parseI32 (showInt i.toInt) = some i := by
  have hlow := BitVec.le_toInt i
  have hhigh := BitVec.toInt_lt (x := i)
  unfold parseI32
  rw [parseSigned_showInt (by simpa using hlow) (by simpa using hhigh), Option.map_some,
    BitVec.ofInt_toInt]

theorem rcvFields_intercalate (fields : RcvFields)
    (hcomma : ∀ part ∈ [fields.address, fields.length, fields.data, fields.rssi, fields.snr],
      ',' ∉ part) :
    rcvFields (rcvTag ++ [','].intercalate
      [fields.address, fields.length, fields.data, fields.rssi, fields.snr]) = some fields := by
  have hsplit := List.splitOn_intercalate ',' hcomma (List.cons_ne_nil _ _)
  have htag : rcvTag.isPrefixOf (rcvTag ++ [','].intercalate
      [fields.address, fields.length, fields.data, fields.rssi, fields.snr]) = true :=
    List.isPrefixOf_iff_prefix.mpr (List.prefix_append _ _)
  unfold rcvFields
  rw [if_pos htag, List.drop_left, hsplit]

theorem rcvFields_rcvLine {address : U16} {rssi snr : I32} (hcomma : ',' ∉ data) :
    rcvFields (rcvLine address data rssi snr) =
      some ⟨Nat.toDigits 10 address.toNat, Nat.toDigits 10 (utf8Len data), data,
        showInt rssi.toInt, showInt snr.toInt⟩ := by
  refine rcvFields_intercalate ⟨_, _, _, _, _⟩ ?_
  simp only [List.forall_mem_cons]
  refine ⟨not_mem_toDigits rfl, not_mem_toDigits rfl, hcomma, ?_, ?_, ?_⟩
  · exact not_mem_showInt rfl (by decide)
  · exact not_mem_showInt rfl (by decide)
  · intro part h
    cases h

theorem parseRcv_data (h : parseRcv t line = some p) :
    ∃ fields, rcvFields line = some fields ∧ p.data.text = fields.data ∧
      parseUsize t fields.length = some p.length ∧ ',' ∉ fields.data := by
  unfold parseRcv at h
  obtain ⟨fields, hfields, h⟩ := Option.bind_eq_some_iff.mp h
  obtain ⟨address, haddress, h⟩ := Option.bind_eq_some_iff.mp h
  obtain ⟨length, hlength, h⟩ := Option.bind_eq_some_iff.mp h
  obtain ⟨text, htext, h⟩ := Option.bind_eq_some_iff.mp h
  obtain ⟨rssi, hrssi, h⟩ := Option.bind_eq_some_iff.mp h
  obtain ⟨snr, hsnr, h⟩ := Option.bind_eq_some_iff.mp h
  obtain rfl := Option.some.inj h
  refine ⟨fields, hfields, FixedText.text_of_ofText? htext, hlength, ?_⟩
  unfold rcvFields at hfields
  split at hfields
  · split at hfields
    · rename_i hsplit
      obtain rfl := Option.some.inj hfields
      apply not_mem_of_mem_splitOn
      rw [hsplit]
      exact List.mem_cons_of_mem _ (List.mem_cons_of_mem _ List.mem_cons_self)
    · cases hfields
  · cases hfields

end Fields

/-- All five fields can be read. -/
def RcvFields.Readable (t : Target) (fields : RcvFields) : Prop :=
  (∃ address, parseU16 fields.address = some address) ∧
    (∃ length, parseUsize t fields.length = some length) ∧
    (∃ data : FixedText maxDataLen, FixedText.ofText? fields.data = some data) ∧
    (∃ rssi, parseI32 fields.rssi = some rssi) ∧ ∃ snr, parseI32 fields.snr = some snr

theorem parseRcv_of_readable {t : Target} {line : List Char} {fields : RcvFields}
    (h : rcvFields line = some fields) (hreadable : fields.Readable t) :
    ∃ p, parseRcv t line = some p ∧ p.data.text = fields.data ∧
      parseUsize t fields.length = some p.length := by
  obtain ⟨⟨address, haddress⟩, ⟨length, hlength⟩, ⟨data, hdata⟩, ⟨rssi, hrssi⟩, ⟨snr, hsnr⟩⟩ :=
    hreadable
  refine ⟨⟨address, length, data, rssi, snr⟩, ?_, FixedText.text_of_ofText? hdata, hlength⟩
  unfold parseRcv
  simp only [h, haddress, hlength, hdata, hrssi, hsnr, Option.bind_eq_bind, Option.bind_some]

theorem readable_of_parseRcv {t : Target} {line : List Char} {p : ReceivedPacket}
    {fields : RcvFields} (h : parseRcv t line = some p) (hfields : rcvFields line = some fields) :
    fields.Readable t := by
  unfold parseRcv at h
  obtain ⟨fields', hfields', h⟩ := Option.bind_eq_some_iff.mp h
  obtain rfl := Option.some.inj (hfields.symm.trans hfields')
  obtain ⟨address, haddress, h⟩ := Option.bind_eq_some_iff.mp h
  obtain ⟨length, hlength, h⟩ := Option.bind_eq_some_iff.mp h
  obtain ⟨data, hdata, h⟩ := Option.bind_eq_some_iff.mp h
  obtain ⟨rssi, hrssi, h⟩ := Option.bind_eq_some_iff.mp h
  obtain ⟨snr, hsnr, _⟩ := Option.bind_eq_some_iff.mp h
  exact ⟨⟨address, haddress⟩, ⟨length, hlength⟩, ⟨data, hdata⟩, ⟨rssi, hrssi⟩, snr, hsnr⟩

/-- A packet is read back exactly where its data holds no comma, and the data of an accepted
line has the length that is declared exactly where the third part has. -/
theorem parseRcv_exact_iff (t : Target) :
    (∀ address (data : FixedText maxDataLen) rssi snr,
      parseRcv t (rcvLine address data.text rssi snr) =
          some ⟨address, utf8Len data.text, data, rssi, snr⟩ ↔ ',' ∉ data.text) ∧
      ∀ line, (∀ p, parseRcv t line = some p → utf8Len p.data.text = p.length) ↔
        ∀ fields, rcvFields line = some fields → fields.Readable t →
          parseUsize t fields.length = some (utf8Len fields.data) := by
  constructor
  · intro address data rssi snr
    constructor
    · intro h
      obtain ⟨fields, _, hdata, _, hcomma⟩ := parseRcv_data h
      rw [← hdata] at hcomma
      exact hcomma
    · intro hcomma
      have hbound : utf8Len data.text < t.usizeBound := by
        have hfits := data.fits
        have hmax : maxDataLen = 240 := rfl
        cases t with
        | bits32 => exact Nat.lt_of_le_of_lt hfits (by decide)
        | bits64 => exact Nat.lt_of_le_of_lt hfits (by decide)
      have hlength : parseUsize t (Nat.toDigits 10 (utf8Len data.text)) =
          some (utf8Len data.text) := parseUnsigned_toDigits hbound
      have hdata : FixedText.ofText? data.text = some data := dif_pos data.fits
      unfold parseRcv
      simp only [rcvFields_rcvLine hcomma, parseU16_toDigits, hlength, hdata, parseI32_showInt,
        Option.bind_eq_bind, Option.bind_some]
  · intro line
    constructor
    · intro h fields hfields hreadable
      obtain ⟨p, hp, hdata, hlength⟩ := parseRcv_of_readable hfields hreadable
      rw [hlength, ← hdata, h p hp]
    · intro h p hp
      obtain ⟨fields, hfields, hdata, hlength, _⟩ := parseRcv_data hp
      have hagree := h fields hfields (readable_of_parseRcv hp hfields)
      rw [hlength] at hagree
      rw [hdata]
      exact (Option.some.inj hagree).symm

/-- A comma in the data moves the fields behind it, and a length is not compared. -/
theorem parseRcv_not_exact :
    (parseRcv .bits64 (rcvLine 1 "a,5,6".toList (BitVec.ofInt 32 (-40)) 10) =
        some ⟨1, 5, ⟨"a".toList, by decide⟩, 5, 6⟩ ∧
      parseRcv .bits64 (rcvLine 1 "a,b".toList (BitVec.ofInt 32 (-40)) 10) = none) ∧
      ¬ ∀ line p, parseRcv .bits64 line = some p → utf8Len p.data.text = p.length := by
  have hshort : parseRcv .bits64 "+RCV=1,5,abc,-40,10".toList =
      some ⟨1, 5, ⟨"abc".toList, by decide⟩, BitVec.ofInt 32 (-40), 10⟩ := by decide +kernel
  refine ⟨by decide +kernel, ?_⟩
  intro h
  have hlen := h _ _ hshort
  exact absurd hlen (by decide)

end Wayfinder.Rylr

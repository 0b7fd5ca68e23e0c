import Mathlib.Data.Nat.Digits.Defs
import Wayfinder.Link.AtClient

/-!
# Lines between the module and its client

A packet comes in a line that the client reads byte by byte, each as a character of its own.
A line with data that hold neither a comma nor the end of a line, and that fit, is read as
the packet it shows; a line that answers is looked at by the command that waits for it.
-/

namespace Wayfinder.Rylr

set_option autoImplicit false

/-! ### What the module puts on the line -/

/-- A packet as the module heard it; the data are any bytes the sender has chosen. -/
structure Heard where
  address : U16
  data : Bytes
  rssi : I32
  snr : I32
  deriving DecidableEq

def asBytes (text : List Char) : Bytes := text.map fun ch => BitVec.ofNat 8 ch.toNat

/-- A line as it is read, a character for each byte. -/
def textOf (line : Bytes) : List Char := line.map byteChar

def Heard.line (u : Heard) : Bytes :=
  asBytes (rcvTag ++ decimal u.address.toNat ++ ',' :: decimal u.data.length ++ [',']) ++ u.data ++
    asBytes (',' :: showInt u.rssi.toInt ++ ',' :: showInt u.snr.toInt)

def lineEnd : Bytes := [13, 10]

/-- The packet shows what was heard. -/
structure Heard.Shows (u : Heard) (p : ReceivedPacket) : Prop where
  address : p.address = u.address
  length : p.length = u.data.length
  data : p.data.text = textOf u.data
  rssi : p.rssi = u.rssi
  snr : p.snr = u.snr

/-- The data have no comma and no end of a line in them, and room in a packet. -/
structure Heard.Readable (u : Heard) : Prop where
  comma : ',' ∉ textOf u.data
  newline : '\n' ∉ textOf u.data
  carriage : '\r' ∉ textOf u.data
  fits : utf8Len (textOf u.data) ≤ maxDataLen

/-- The packet for what was heard, the data cut off at the capacity. -/
def Heard.packet (u : Heard) : ReceivedPacket :=
  ⟨u.address, u.data.length, FixedText.empty.write (textOf u.data), u.rssi, u.snr⟩

/-- A line with an end that is nowhere in it, and not too long for the client. -/
structure Legible (line : Bytes) : Prop where
  ends : ∀ b ∈ line, byteChar b ≠ '\n' ∧ byteChar b ≠ '\r'
  fits : utf8Len (textOf line) ≤ lineBufLen

/-! ### Characters and bytes -/

theorem textOf_append (front back : Bytes) : textOf (front ++ back) = textOf front ++ textOf back :=
  List.map_append

theorem byteChar_ofNat {ch : Char} (h : ch.toNat < 256) :
    byteChar (BitVec.ofNat 8 ch.toNat) = ch := by
  unfold byteChar
  rw [BitVec.toNat_ofNat, Nat.mod_eq_of_lt h, Char.ofNat_toNat]

theorem textOf_asBytes {text : List Char} (h : ∀ ch ∈ text, ch.toNat < 256) :
    textOf (asBytes text) = text := by
  unfold textOf asBytes
  rw [List.map_map]
  conv_rhs => rw [← List.map_id text]
  apply List.map_congr_left
  intro ch hch
  exact byteChar_ofNat (h ch hch)

theorem toNat_of_isDigit {ch : Char} (h : ch.isDigit = true) : 48 ≤ ch.toNat ∧ ch.toNat ≤ 57 := by
  have hrange := Char.isDigit_iff_toNat.mp h
  have hzero : '0'.toNat = 48 := rfl
  have hnine : '9'.toNat = 57 := rfl
  omega

/-- The characters of a printed integer are digits or a minus sign. -/
theorem toNat_of_mem_showInt {i : Int} {ch : Char} (h : ch ∈ showInt i) :
    45 ≤ ch.toNat ∧ ch.toNat ≤ 57 := by
  by_cases hdigit : ch.isDigit = true
  · have hrange := toNat_of_isDigit hdigit
    omega
  · by_cases hminus : ch = '-'
    · rw [hminus]
      decide
    · exact absurd h (not_mem_showInt (Bool.eq_false_iff.mpr hdigit) hminus)

theorem toNat_of_mem_decimal {n : Nat} {ch : Char} (h : ch ∈ decimal n) :
    48 ≤ ch.toNat ∧ ch.toNat ≤ 57 := toNat_of_isDigit (isDigit_of_mem_digits h)

theorem toNat_of_mem_rcvTag {ch : Char} (h : ch ∈ rcvTag) : 43 ≤ ch.toNat ∧ ch.toNat < 128 := by
  have htag : rcvTag.all (fun ch => decide (43 ≤ ch.toNat ∧ ch.toNat < 128)) = true := rfl
  exact of_decide_eq_true (List.all_eq_true.mp htag ch h)

theorem utf8Len_decimal_le {n e : Nat} (he : 0 < e) (h : n < 10 ^ e) :
    utf8Len (decimal n) ≤ e := by
  unfold decimal
  rw [utf8Len_of_digits (List.all_eq_true.mpr fun _ hch => isDigit_of_mem_digits hch)]
  exact Nat.toDigits_length 10 n e he h

theorem utf8Len_showInt_le {i : Int} {e : Nat} (he : 0 < e) (h : i.natAbs < 10 ^ e) :
    utf8Len (showInt i) ≤ e + 1 := by
  have hdigits := utf8Len_decimal_le he h
  unfold decimal at hdigits
  unfold showInt
  split
  · rw [utf8Len_cons]
    have hminus : '-'.utf8Size = 1 := rfl
    omega
  · omega

theorem length_le_utf8Len (text : List Char) : text.length ≤ utf8Len text := by
  induction text with
  | nil => exact Nat.le_refl 0
  | cons ch text ih =>
    rw [List.length_cons, utf8Len_cons]
    have hsize := Char.utf8Size_pos ch
    omega

/-- A text that neither begins nor ends with white space is not trimmed. -/
theorem trim_eq_self {text : List Char} (hhead : ∀ ch ∈ text.head?, isWhitespace ch = false)
    (hlast : ∀ ch ∈ text.getLast?, isWhitespace ch = false) : trim text = text := by
  have hkeep : ∀ {text : List Char}, (∀ ch ∈ text.head?, isWhitespace ch = false) →
      text.dropWhile isWhitespace = text := by
    intro text hhead
    cases text with
    | nil => rfl
    | cons ch rest =>
      have hch := hhead ch rfl
      exact List.dropWhile_cons_of_neg (by rw [hch]; exact Bool.false_ne_true)
  unfold trim
  rw [hkeep hhead, hkeep, List.reverse_reverse]
  intro ch hch
  rw [List.head?_reverse] at hch
  exact hlast ch hch

/-! ### Reading a line -/

section Reading
variable {t : Target} {u : Heard} {line : Bytes}

theorem readLine_append {start : Line} {rest : Bytes}
    (hends : ∀ b ∈ line, byteChar b ≠ '\n' ∧ byteChar b ≠ '\r')
    (hfits : utf8Len (start.text ++ textOf line) ≤ lineBufLen) :
    readLine start (line ++ rest) = readLine ⟨start.text ++ textOf line, hfits⟩ rest := by
  induction line generalizing start with
  | nil =>
    congr
    apply FixedText.ext
    exact (List.append_nil _).symm
  | cons b line ih =>
    obtain ⟨hb, hline⟩ := List.forall_mem_cons.mp hends
    have hsplit : start.text ++ textOf (b :: line) = (start.text ++ [byteChar b]) ++ textOf line := by
      simp [textOf]
    have hroom : utf8Len (start.text ++ [byteChar b]) ≤ lineBufLen := by
      rw [hsplit, utf8Len_append] at hfits
      omega
    have hpush : (FixedText.ofText? (start.text ++ [byteChar b]) : Option Line) =
        some ⟨start.text ++ [byteChar b], hroom⟩ := dif_pos hroom
    rw [List.cons_append, readLine, if_neg hb.1, if_neg hb.2, hpush]
    dsimp only
    rw [ih hline (by rw [← hsplit]; exact hfits)]
    congr 2
    exact hsplit.symm

theorem readLine_legible (h : Legible line) (rest : Bytes) :
    readLine .empty (line ++ lineEnd ++ rest) = (some (.ok ⟨textOf line, h.fits⟩), rest) := by
  have hfits : utf8Len ((FixedText.empty : Line).text ++ textOf line) ≤ lineBufLen := h.fits
  rw [List.append_assoc, readLine_append h.ends hfits]
  rfl

/-- The line of a packet, as it is read. -/
theorem textOf_line (u : Heard) : textOf u.line = rcvTag ++ [','].intercalate
    [decimal u.address.toNat, decimal u.data.length, textOf u.data, showInt u.rssi.toInt,
      showInt u.snr.toInt] := by
  have hfront : textOf (asBytes (rcvTag ++ decimal u.address.toNat ++
      ',' :: decimal u.data.length ++ [','])) =
      rcvTag ++ decimal u.address.toNat ++ ',' :: decimal u.data.length ++ [','] := by
    apply textOf_asBytes
    simp only [List.mem_append, List.mem_cons, List.not_mem_nil, or_false]
    rintro ch (((htag | haddress) | rfl | hlength) | rfl)
    · have := toNat_of_mem_rcvTag htag
      omega
    · have := toNat_of_mem_decimal haddress
      omega
    · decide
    · have := toNat_of_mem_decimal hlength
      omega
    · decide
  have hback : textOf (asBytes (',' :: showInt u.rssi.toInt ++ ',' :: showInt u.snr.toInt)) =
      ',' :: showInt u.rssi.toInt ++ ',' :: showInt u.snr.toInt := by
    apply textOf_asBytes
    simp only [List.mem_append, List.mem_cons]
    rintro ch ((rfl | hrssi) | rfl | hsnr)
    · decide
    · have := toNat_of_mem_showInt hrssi
      omega
    · decide
    · have := toNat_of_mem_showInt hsnr
      omega
  unfold Heard.line
  rw [textOf_append, textOf_append, hfront, hback]
  simp [List.intercalate, List.intersperse]

theorem mem_textOf_line (h : u.Readable) {ch : Char} (hch : ch ∈ textOf u.line) :
    ch ≠ '\n' ∧ ch ≠ '\r' := by
  have hnear : ∀ {ch : Char}, 43 ≤ ch.toNat → ch ≠ '\n' ∧ ch ≠ '\r' := by
    intro ch hrange
    constructor
    · rintro rfl
      exact absurd hrange (by decide)
    · rintro rfl
      exact absurd hrange (by decide)
  have hdecimal : ∀ {n : Nat} {ch : Char}, ch ∈ decimal n → ch ≠ '\n' ∧ ch ≠ '\r' := by
    intro n ch hch
    exact hnear (Nat.le_trans (by decide) (toNat_of_mem_decimal hch).1)
  have hint : ∀ {i : Int} {ch : Char}, ch ∈ showInt i → ch ≠ '\n' ∧ ch ≠ '\r' := by
    intro i ch hch
    exact hnear (Nat.le_trans (by decide) (toNat_of_mem_showInt hch).1)
  rw [textOf_line] at hch
  simp only [List.intercalate, List.intersperse, List.flatten_cons, List.flatten_nil,
    List.mem_append, List.mem_singleton, List.append_nil] at hch
  rcases hch with htag | haddress | rfl | hlength | rfl | hdata | rfl | hrssi | rfl | hsnr
  · exact hnear (toNat_of_mem_rcvTag htag).1
  · exact hdecimal haddress
  · decide
  · exact hdecimal hlength
  · decide
  · constructor
    · rintro rfl
      exact h.newline hdata
    · rintro rfl
      exact h.carriage hdata
  · decide
  · exact hint hrssi
  · decide
  · exact hint hsnr

theorem data_length_le (h : u.Readable) : u.data.length ≤ maxDataLen := by
  have hlen := length_le_utf8Len (textOf u.data)
  unfold textOf at hlen
  rw [List.length_map] at hlen
  exact Nat.le_trans hlen h.fits

theorem natAbs_toInt_lt (i : I32) : i.toInt.natAbs < 10 ^ 10 := by
  have hlow := BitVec.le_toInt i
  have hhigh := BitVec.toInt_lt (x := i)
  simp only [Nat.add_one_sub_one] at hlow hhigh
  omega

theorem Heard.Readable.legible (h : u.Readable) : Legible u.line where
  ends b hb := mem_textOf_line h (List.mem_map_of_mem hb)
  fits := by
    have haddress := utf8Len_decimal_le (n := u.address.toNat) (e := 5) (by decide)
      (Nat.lt_of_lt_of_le u.address.isLt (by decide))
    have hbytes : u.data.length < 10 ^ 3 := Nat.lt_of_le_of_lt (data_length_le h) (by decide)
    have hlength := utf8Len_decimal_le (by decide) hbytes
    have hdata := h.fits
    have hrssi := utf8Len_showInt_le (by decide) (natAbs_toInt_lt u.rssi)
    have hsnr := utf8Len_showInt_le (by decide) (natAbs_toInt_lt u.snr)
    have htag : utf8Len rcvTag = 5 := by decide
    have hcomma : utf8Len [','] = 1 := by decide
    have hmax : maxDataLen = 240 := rfl
    have hbuf : lineBufLen = 300 := rfl
    rw [textOf_line]
    simp only [List.intercalate, List.intersperse, List.flatten_cons, List.flatten_nil,
      utf8Len_append, List.append_nil]
    omega

theorem trim_line (u : Heard) : trim (textOf u.line) = textOf u.line := by
  rw [textOf_line]
  apply trim_eq_self
  · intro ch hch
    obtain rfl : '+' = ch := Option.some.inj hch
    decide
  · intro ch hch
    have hne : showInt u.snr.toInt ≠ [] := by
      unfold showInt
      split
      · exact List.cons_ne_nil _ _
      · obtain ⟨first, rest, hdigits, _⟩ := head_toDigits u.snr.toInt.natAbs
        rw [hdigits]
        exact List.cons_ne_nil _ _
    have hmem : ch ∈ showInt u.snr.toInt := by
      simp only [List.intercalate, List.intersperse, List.flatten_cons, List.flatten_nil,
        List.append_nil, List.getLast?_append_of_ne_nil _ hne, ← List.append_assoc] at hch
      exact List.mem_of_getLast? hch
    have hrange := toNat_of_mem_showInt hmem
    unfold isWhitespace
    simp only [List.mem_cons, List.not_mem_nil, or_false, Bool.decide_or, Bool.or_eq_false_iff,
      decide_eq_false_iff_not]
    omega

theorem parseRcv_line (t : Target) (h : u.Readable) :
    parseRcv t (textOf u.line) = some u.packet := by
  have hfields := rcvFields_intercalate ⟨decimal u.address.toNat, decimal u.data.length,
    textOf u.data, showInt u.rssi.toInt, showInt u.snr.toInt⟩ (by
      simp only [List.forall_mem_cons]
      refine ⟨not_mem_toDigits rfl, not_mem_toDigits rfl, h.comma, ?_, ?_, ?_⟩
      · exact not_mem_showInt rfl (by decide)
      · exact not_mem_showInt rfl (by decide)
      · intro part hpart
        cases hpart)
  have hbound : u.data.length < t.usizeBound := by
    have hle := data_length_le h
    cases t with
    | bits32 => exact Nat.lt_of_le_of_lt hle (by decide)
    | bits64 => exact Nat.lt_of_le_of_lt hle (by decide)
  have haddress : parseU16 (decimal u.address.toNat) = some u.address :=
    parseU16_toDigits u.address
  have hlength : parseUsize t (decimal u.data.length) = some u.data.length :=
    parseUnsigned_toDigits hbound
  have hdata : FixedText.ofText? (textOf u.data) =
      some (FixedText.empty.write (textOf u.data) : FixedText maxDataLen) := by
    unfold FixedText.ofText?
    rw [dif_pos h.fits]
    congr
    exact (takeFitting_of_le h.fits).symm
  rw [textOf_line]
  unfold parseRcv
  simp only [hfields, haddress, hlength, hdata, parseI32_showInt, Option.bind_eq_bind,
    Option.bind_some]
  rfl

theorem shows_packet (h : u.Readable) : u.Shows u.packet where
  address := rfl
  length := rfl
  data := takeFitting_of_le h.fits
  rssi := rfl
  snr := rfl

/-- The packet is queued, and the line is gone. -/
theorem nextLine_heard (t : Target) (h : u.Readable) (c : RylrClient) (rest : Bytes) :
    nextLine t { c with stream := u.line ++ lineEnd ++ rest } =
      (some (.ok none),
        { c with stream := rest, rxQueue := (c.rxQueue.pushOut u.packet).2 }) := by
  have hne : textOf u.line ≠ [] := by
    rw [textOf_line]
    exact List.cons_ne_nil _ _
  have htag : rcvTag.isPrefixOf (textOf u.line) = true := by
    rw [textOf_line]
    exact List.isPrefixOf_iff_prefix.mpr (List.prefix_append _ _)
  have hread := readLine_legible h.legible rest
  unfold nextLine
  split
  · rename_i heq
    rw [hread] at heq
    cases heq
  · rename_i heq
    rw [hread] at heq
    cases heq
  · rename_i line rest' heq
    rw [hread] at heq
    obtain ⟨hline, rfl⟩ := Prod.mk.inj heq
    obtain rfl := Except.ok.inj (Option.some.inj hline)
    dsimp only
    rw [trim_line, if_neg hne, if_pos htag, parseRcv_line t h]

/-- The beginning of an answer is not that of a packet. -/
def IsTag (tag : List Char) : Prop := 3 ≤ tag.length ∧ tag.take 3 ≠ rcvTag.take 3

theorem answer_not_rcv {tag text : List Char} (htag : IsTag tag) (h : tag <+: text) :
    text ≠ [] ∧ ¬ rcvTag.isPrefixOf text = true := by
  obtain ⟨rest, rfl⟩ := h
  have htake : (tag ++ rest).take 3 = tag.take 3 := List.take_append_of_le_length htag.1
  constructor
  · intro hnil
    have hlen := htag.1
    rw [(List.append_eq_nil_iff.mp hnil).1] at hlen
    exact absurd hlen (by decide)
  · intro hrcv
    obtain ⟨rest', heq⟩ := List.isPrefixOf_iff_prefix.mp hrcv
    apply htag.2
    rw [← htake, ← heq]
    exact List.take_append_of_le_length (by decide)

/-- A line that is not blank and shows no packet goes to whoever waits. -/
theorem nextLine_other (t : Target) (h : Legible line) (hblank : trim (textOf line) ≠ [])
    (htag : ¬ rcvTag.isPrefixOf (trim (textOf line)) = true) (c : RylrClient) (rest : Bytes) :
    nextLine t { c with stream := line ++ lineEnd ++ rest } =
      (some (.ok (some ⟨textOf line, h.fits⟩)), { c with stream := rest }) := by
  have hread := readLine_legible h rest
  unfold nextLine
  split
  · rename_i heq
    rw [hread] at heq
    cases heq
  · rename_i heq
    rw [hread] at heq
    cases heq
  · rename_i line' rest' heq
    rw [hread] at heq
    obtain ⟨hline, rfl⟩ := Prod.mk.inj heq
    obtain rfl := Except.ok.inj (Option.some.inj hline)
    dsimp only
    rw [if_neg hblank, if_neg htag]

theorem expect_heard (t : Target) (h : u.Readable) (expected : List Char) (c : RylrClient)
    (rest : Bytes) :
    expect t expected { c with stream := u.line ++ lineEnd ++ rest } =
      expect t expected
        { c with stream := rest, rxQueue := (c.rxQueue.pushOut u.packet).2 } := by
  have hnext := nextLine_heard t h c rest
  conv_lhs => unfold expect
  split
  · rename_i heq
    rw [hnext] at heq
    cases heq
  · rename_i heq
    rw [hnext] at heq
    cases heq
  · rename_i heq
    rw [hnext] at heq
    obtain ⟨_, rfl⟩ := Prod.mk.inj heq
    rfl
  · rename_i heq
    rw [hnext] at heq
    cases heq

/-- An answer: it begins as expected, or is an error. -/
structure IsAnswer (expected : List Char) (line : Bytes) : Prop where
  legible : Legible line
  tag : expected <+: trim (textOf line) ∨ errTag <+: trim (textOf line)

/-- What a command makes of the line that answers it. -/
def judge (expected : List Char) (line : Bytes) : Except LoraError (List Char) :=
  if expected.isPrefixOf (trim (textOf line)) then .ok (textOf line)
  else .error (.moduleError 0)

theorem expect_answer (t : Target) {expected : List Char} (htag : IsTag expected)
    (h : IsAnswer expected line) (c : RylrClient) (rest : Bytes) :
    ∃ r, expect t expected { c with stream := line ++ lineEnd ++ rest } =
        (some r, { c with stream := rest }) ∧
      r.map FixedText.text = judge expected line := by
  have hnot : trim (textOf line) ≠ [] ∧ ¬ rcvTag.isPrefixOf (trim (textOf line)) = true := by
    rcases h.tag with hexpected | herr
    · exact answer_not_rcv htag hexpected
    · exact answer_not_rcv ⟨by decide, by decide⟩ herr
  have hnext := nextLine_other t h.legible hnot.1 hnot.2 c rest
  unfold expect
  split
  · rename_i heq
    rw [hnext] at heq
    cases heq
  · rename_i heq
    rw [hnext] at heq
    cases heq
  · rename_i heq
    rw [hnext] at heq
    cases heq
  · rename_i line' c' heq
    rw [hnext] at heq
    obtain ⟨hline, rfl⟩ := Prod.mk.inj heq
    obtain rfl := Option.some.inj (Except.ok.inj (Option.some.inj hline))
    unfold judge
    dsimp only
    by_cases hexpected : expected.isPrefixOf (trim (textOf line)) = true
    · rw [if_pos hexpected, if_pos hexpected]
      exact ⟨_, rfl, rfl⟩
    · have herr : errTag.isPrefixOf (trim (textOf line)) = true := by
        rcases h.tag with hpos | herr
        · exact absurd (List.isPrefixOf_iff_prefix.mpr hpos) hexpected
        · exact List.isPrefixOf_iff_prefix.mpr herr
      rw [if_neg hexpected, if_neg hexpected, if_pos herr]
      exact ⟨_, rfl, rfl⟩

end Reading

/-! ### Lines with packets before an answer -/

/-- The lines of packets, one after the other. -/
def wires (us : List Heard) : Bytes := us.flatMap fun u => u.line ++ lineEnd

/-- The queue after packets that nobody has listened for. -/
def absorb (q : Bounded ReceivedPacket rxQueueDepth) (us : List Heard) :
    Bounded ReceivedPacket rxQueueDepth := us.foldl (fun q u => (q.pushOut u.packet).2) q

/-- The queue keeps the latest, and all of them while there is room. -/
theorem absorb_drop (q : Bounded ReceivedPacket rxQueueDepth) (us : List Heard) :
    ∃ n, (absorb q us).toList = (q.toList ++ us.map Heard.packet).drop n ∧
      (q.toList.length + us.length ≤ rxQueueDepth → n = 0) := by
  induction us generalizing q with
  | nil => exact ⟨0, by simp [absorb], fun _ => rfl⟩
  | cons u us ih =>
    obtain ⟨n, hrest, hroom⟩ := ih (q.pushOut u.packet).2
    obtain ⟨dropped, hfirst⟩ := Bounded.pushOut_suffix q u.packet
    refine ⟨dropped.length + n, ?_, ?_⟩
    · show (absorb (q.pushOut u.packet).2 us).toList = _
      have hall : q.toList ++ (u :: us).map Heard.packet =
          dropped ++ ((q.pushOut u.packet).2.toList ++ us.map Heard.packet) := by
        rw [← List.append_assoc, hfirst]
        simp
      rw [hrest, hall, ← List.drop_drop, List.drop_left]
    · intro hlen
      rw [List.length_cons] at hlen
      have hpush := (Bounded.pushOut_of_lt (v := q) (x := u.packet) (by omega)).2
      rw [hpush] at hfirst
      have hdropped : dropped = [] := by
        have hlens := congrArg List.length hfirst
        rw [List.length_append] at hlens
        exact List.eq_nil_of_length_eq_zero (by omega)
      rw [hdropped, hroom (by rw [hpush]; simp; omega)]
      rfl

/-- Packets that come before the answer wait in the queue, and the answer is judged. -/
theorem expect_answered (t : Target) (expected : List Char) (htag : IsTag expected)
    {line : Bytes} (h : IsAnswer expected line) {us : List Heard}
    (hus : ∀ u ∈ us, u.Readable) (c : RylrClient) (rest : Bytes) :
    ∃ r, expect t expected { c with stream := wires us ++ (line ++ lineEnd ++ rest) } =
        (some r, { c with stream := rest, rxQueue := absorb c.rxQueue us }) ∧
      r.map FixedText.text = judge expected line := by
  induction us generalizing c with
  | nil => exact expect_answer t htag h c rest
  | cons u us ih =>
    obtain ⟨hu, hus⟩ := List.forall_mem_cons.mp hus
    have hsplit : wires (u :: us) ++ (line ++ lineEnd ++ rest) =
        u.line ++ lineEnd ++ (wires us ++ (line ++ lineEnd ++ rest)) := by
      simp [wires]
    obtain ⟨r, hr, hjudge⟩ := ih hus { c with rxQueue := (c.rxQueue.pushOut u.packet).2 }
    refine ⟨r, ?_, hjudge⟩
    rw [hsplit, expect_heard t hu]
    exact hr

end Wayfinder.Rylr

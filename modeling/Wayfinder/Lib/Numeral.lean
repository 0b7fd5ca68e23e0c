import Mathlib.Algebra.Ring.Nat
import Mathlib.Data.List.Basic

/-!
# Decimal numerals

Numbers as texts of decimal digits, and the integer parsers that accept a sign, any number of
leading zeros and no number out of range.
-/

set_option autoImplicit false

/-- The number that decimal digits stand for, when there are some and nothing else. -/
def digits? (text : List Char) : Option Nat :=
  if text ≠ [] ∧ text.all Char.isDigit then some (Nat.ofDigitChars 10 text 0) else none

def withoutPlus : List Char → List Char
  | '+' :: rest => rest
  | text => text

/-- `from_str` of the unsigned type with the values below `bound`. -/
def parseUnsigned (bound : Nat) (text : List Char) : Option Nat :=
  (digits? (withoutPlus text)).filter fun n => decide (n < bound)

/-- `from_str` of the signed type with the values from `-half` to `half - 1`. -/
def parseSigned (half : Nat) : List Char → Option Int
  | '-' :: rest => ((digits? rest).filter fun n => decide (n ≤ half)).map fun n => -Int.ofNat n
  | text => (parseUnsigned half text).map Int.ofNat

/-- An integer as it is printed. -/
def showInt (i : Int) : List Char :=
  if i < 0 then '-' :: Nat.toDigits 10 i.natAbs else Nat.toDigits 10 i.natAbs

/-- An integer as it is printed with zeros in front, up to a width that a sign counts in. -/
def showPadded (width : Nat) (i : Int) : List Char :=
  let sign := if i < 0 then ['-'] else []
  let digits := Nat.toDigits 10 i.natAbs
  sign ++ (List.replicate (width - sign.length - digits.length) '0' ++ digits)

/-- The last `width` decimal digits of a number. -/
def fixedDigits : Nat → Nat → List Char
  | 0, _ => []
  | width + 1, n => fixedDigits width (n / 10) ++ [Nat.digitChar (n % 10)]

section Digits
variable {n bound half : Nat} {ch : Char}

theorem isDigit_of_mem_digits (h : ch ∈ Nat.toDigits 10 n) : ch.isDigit = true :=
  Nat.isDigit_of_mem_toDigits (by omega) (by omega) h

theorem digits?_toDigits (n : Nat) : digits? (Nat.toDigits 10 n) = some n := by
  have hall : (Nat.toDigits 10 n).all Char.isDigit = true :=
    List.all_eq_true.mpr fun _ h => isDigit_of_mem_digits h
  unfold digits?
  rw [if_pos ⟨Nat.toDigits_ne_nil, hall⟩, Nat.ofDigitChars_ten_toDigits]

/-- A numeral begins with no sign. -/
theorem head_toDigits (n : Nat) : ∃ ch rest, Nat.toDigits 10 n = ch :: rest ∧ ch ≠ '+' ∧ ch ≠ '-' := by
  obtain ⟨ch, rest, h⟩ := List.exists_cons_of_ne_nil (Nat.toDigits_ne_nil (n := n) (b := 10))
  have hdigit : ch.isDigit = true := isDigit_of_mem_digits (by rw [h]; exact List.mem_cons_self)
  refine ⟨ch, rest, h, ?_, ?_⟩
  · rintro rfl
    exact absurd hdigit (by decide)
  · rintro rfl
    exact absurd hdigit (by decide)

theorem withoutPlus_toDigits (n : Nat) : withoutPlus (Nat.toDigits 10 n) = Nat.toDigits 10 n := by
  obtain ⟨ch, rest, h, hplus, _⟩ := head_toDigits n
  rw [h]
  unfold withoutPlus
  split
  · rename_i heq
    exact absurd (List.cons.inj heq).1 hplus
  · rfl

theorem parseUnsigned_toDigits (h : n < bound) :
    parseUnsigned bound (Nat.toDigits 10 n) = some n := by
  unfold parseUnsigned
  rw [withoutPlus_toDigits, digits?_toDigits, Option.filter_some, if_pos (decide_eq_true h)]

theorem all_of_digits? {text : List Char} (h : digits? text = some n) :
    text.all Char.isDigit = true := by
  unfold digits? at h
  split at h
  · rename_i hdigits
    exact hdigits.2
  · cases h

theorem withoutPlus_of_digits? {text : List Char} (h : digits? text = some n) :
    withoutPlus text = text := by
  have hall := all_of_digits? h
  unfold withoutPlus
  split
  · rw [List.all_cons, Bool.and_eq_true] at hall
    exact absurd hall.1 (by decide)
  · rfl

/-- No other character than a plus sign and digits is in a number that can be read. -/
theorem not_mem_of_parseUnsigned {text : List Char} (h : parseUnsigned bound text = some n)
    (hch : ch.isDigit = false) (hplus : ch ≠ '+') : ch ∉ text := by
  have hdigits := all_of_digits? (Option.filter_eq_some_iff.mp h).1
  intro hmem
  have hrest : ch ∈ withoutPlus text := by
    unfold withoutPlus
    split
    · exact (List.mem_cons.mp hmem).resolve_left hplus
    · exact hmem
  rw [List.all_eq_true.mp hdigits ch hrest] at hch
  cases hch

theorem parseSigned_showInt {i : Int} (hlow : -(half : Int) ≤ i) (hhigh : i < half) :
    parseSigned half (showInt i) = some i := by
  unfold showInt
  split
  · rename_i hneg
    have habs : i.natAbs ≤ half := by omega
    have hvalue : -Int.ofNat i.natAbs = i := by
      rw [Int.ofNat_eq_natCast]
      omega
    change ((digits? (Nat.toDigits 10 i.natAbs)).filter fun n => decide (n ≤ half)).map _ = _
    rw [digits?_toDigits, Option.filter_some, if_pos (decide_eq_true habs), Option.map_some, hvalue]
  · rename_i hpos
    have habs : i.natAbs < half := by omega
    have hvalue : Int.ofNat i.natAbs = i := by
      rw [Int.ofNat_eq_natCast]
      omega
    obtain ⟨ch, rest, h, _, hminus⟩ := head_toDigits i.natAbs
    have hparse := parseUnsigned_toDigits habs
    unfold parseSigned
    split
    · rename_i heq
      rw [h] at heq
      exact absurd (List.cons.inj heq).1 hminus
    · rw [hparse, Option.map_some, hvalue]

/-- No character of a printed number is one that no number has. -/
theorem not_mem_toDigits (h : ch.isDigit = false) : ch ∉ Nat.toDigits 10 n := by
  intro hmem
  rw [isDigit_of_mem_digits hmem] at h
  cases h

theorem not_mem_showInt {i : Int} (h : ch.isDigit = false) (hminus : ch ≠ '-') :
    ch ∉ showInt i := by
  unfold showInt
  split
  · rw [List.mem_cons, not_or]
    exact ⟨hminus, not_mem_toDigits h⟩
  · exact not_mem_toDigits h

theorem parseSigned_of_digits? {text : List Char} (h : digits? text = some n) (hn : n < half) :
    parseSigned half text = some (n : Int) := by
  have hparse : parseUnsigned half text = some n := by
    rw [parseUnsigned, withoutPlus_of_digits? h, h, Option.filter_some,
      if_pos (decide_eq_true hn)]
  have hall := all_of_digits? h
  unfold parseSigned
  split
  · rw [List.all_cons, Bool.and_eq_true] at hall
    exact absurd hall.1 (by decide)
  · rw [hparse]
    rfl

end Digits

/-! ### Digits of a fixed width -/

section Fixed
variable {width n n' : Nat}

@[simp] theorem length_fixedDigits (width n : Nat) : (fixedDigits width n).length = width := by
  induction width generalizing n with
  | zero => rfl
  | succ width ih => rw [fixedDigits, List.length_append, ih, List.length_singleton]

theorem isDigit_fixedDigits (width n : Nat) : (fixedDigits width n).all Char.isDigit = true := by
  induction width generalizing n with
  | zero => rfl
  | succ width ih =>
    rw [fixedDigits, List.all_append, ih, List.all_cons, List.all_nil, Bool.and_true,
      Bool.true_and, Nat.isDigit_digitChar]
    exact decide_eq_true (Nat.mod_lt _ (by decide))

theorem ofDigitChars_fixedDigits (h : n < 10 ^ width) :
    Nat.ofDigitChars 10 (fixedDigits width n) 0 = n := by
  induction width generalizing n with
  | zero =>
    rw [Nat.pow_zero] at h
    rw [Nat.lt_one_iff.mp h]
    rfl
  | succ width ih =>
    rw [Nat.pow_succ] at h
    rw [fixedDigits, Nat.ofDigitChars_append, ih (by omega),
      Nat.ofDigitChars_cons_digitChar_of_lt_ten (Nat.mod_lt _ (by decide)), Nat.ofDigitChars_nil]
    omega

theorem digits?_fixedDigits (hwidth : 0 < width) (h : n < 10 ^ width) :
    digits? (fixedDigits width n) = some n := by
  have hne : fixedDigits width n ≠ [] := by
    rw [← List.length_pos_iff, length_fixedDigits]
    exact hwidth
  rw [digits?, if_pos ⟨hne, isDigit_fixedDigits width n⟩, ofDigitChars_fixedDigits h]

theorem fixedDigits_zero (width : Nat) : fixedDigits width 0 = List.replicate width '0' := by
  induction width with
  | zero => rfl
  | succ width ih =>
    rw [fixedDigits, Nat.zero_div, ih, List.replicate_succ']
    rfl

/-- Where the width is enough, padding gives just that many digits. -/
theorem showPadded_eq (hwidth : 0 < width) (h : n < 10 ^ width) :
    showPadded width (n : Int) = fixedDigits width n := by
  have hnat : ¬(n : Int) < 0 := by omega
  have hpad : List.replicate (width - (Nat.toDigits 10 n).length) '0' ++ Nat.toDigits 10 n =
      fixedDigits width n := by
    clear hnat
    induction width generalizing n with
    | zero => cases hwidth
    | succ width ih =>
      rw [Nat.pow_succ] at h
      rw [fixedDigits, Nat.toDigits_eq_if (by decide)]
      split
      · rename_i hlt
        rw [Nat.mod_eq_of_lt hlt, Nat.div_eq_of_lt hlt, fixedDigits_zero]
        rfl
      · rename_i hge
        have hpos : 0 < width := by
          rcases Nat.eq_zero_or_pos width with rfl | hpos
          · omega
          · exact hpos
        rw [List.length_append, List.length_singleton, Nat.add_sub_add_right, ← List.append_assoc,
          ih hpos (by omega)]
  unfold showPadded
  dsimp only
  rw [if_neg hnat, List.length_nil, Nat.sub_zero, List.nil_append, Int.natAbs_natCast, hpad]

theorem append_lt_append {l l' r r' : List Char} (hlen : l.length = l'.length)
    (h : l < l' ∨ l = l' ∧ r < r') : l ++ r < l' ++ r' := by
  induction l generalizing l' with
  | nil =>
    cases l' with
    | nil =>
      rcases h with hlt | ⟨_, hlt⟩
      · exact absurd hlt (List.lt_irrefl _)
      · exact hlt
    | cons ch' rest' => cases hlen
  | cons ch rest ih =>
    cases l' with
    | nil => cases hlen
    | cons ch' rest' =>
      rw [List.cons_append, List.cons_append, List.cons_lt_cons_iff]
      rw [List.cons_lt_cons_iff, List.cons.injEq] at h
      rcases h with (hch | ⟨rfl, hlt⟩) | ⟨⟨rfl, rfl⟩, hlt⟩
      · exact Or.inl hch
      · exact Or.inr ⟨rfl, ih (Nat.succ.inj hlen) (Or.inl hlt)⟩
      · exact Or.inr ⟨rfl, ih rfl (Or.inr ⟨rfl, hlt⟩)⟩

theorem digitChar_lt : ∀ a < 10, ∀ b < 10, a < b → Nat.digitChar a < Nat.digitChar b := by
  decide

/-- Texts of one width are in the order of their numbers. -/
theorem fixedDigits_lt (hlt : n < n') (h : n' < 10 ^ width) :
    fixedDigits width n < fixedDigits width n' := by
  induction width generalizing n n' with
  | zero =>
    rw [Nat.pow_zero] at h
    omega
  | succ width ih =>
    rw [Nat.pow_succ] at h
    rw [fixedDigits, fixedDigits]
    apply append_lt_append (by rw [length_fixedDigits, length_fixedDigits])
    by_cases hdiv : n / 10 < n' / 10
    · exact Or.inl (ih hdiv (by omega))
    · have heq : n / 10 = n' / 10 := by omega
      refine Or.inr ⟨by rw [heq], ?_⟩
      rw [List.cons_lt_cons_iff]
      apply Or.inl
      apply digitChar_lt _ (Nat.mod_lt _ (by decide)) _ (Nat.mod_lt _ (by decide))
      omega

theorem fixedDigits_append_lt {rest rest' : List Char} (h : n' < 10 ^ width)
    (hlt : n < n' ∨ n = n' ∧ rest < rest') :
    fixedDigits width n ++ rest < fixedDigits width n' ++ rest' := by
  apply append_lt_append (by rw [length_fixedDigits, length_fixedDigits])
  rcases hlt with hlt | ⟨rfl, hlt⟩
  · exact Or.inl (fixedDigits_lt hlt h)
  · exact Or.inr ⟨rfl, hlt⟩

end Fixed

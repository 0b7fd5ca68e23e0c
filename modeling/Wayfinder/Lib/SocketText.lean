import Wayfinder.Lib.Numeral

/-!
# Socket addresses as texts

The reader of `SocketAddr`: an IPv4 address or an IPv6 address in brackets, and a port behind
a colon. Each reader takes what it can off the front of the text and leaves the rest, and one
that fails takes nothing. A text is an address when nothing is left of it.
-/

set_option autoImplicit false

namespace SocketText

structure Ipv4 where
  o0 : Fin 256
  o1 : Fin 256
  o2 : Fin 256
  o3 : Fin 256
  deriving DecidableEq

structure Ipv6 where
  segments : Vector (Fin 65536) 8
  deriving DecidableEq

inductive IpAddr where
  | v4 (ip : Ipv4)
  | v6 (ip : Ipv6)
  deriving DecidableEq

structure SocketAddr where
  ip : IpAddr
  port : Fin 65536
  scopeId : Fin 4294967296
  deriving DecidableEq

/-! ### The readers -/

/-- `to_digit`, for radixes up to sixteen. -/
def toDigit (radix : Nat) (ch : Char) : Option Nat :=
  let value :=
    if ch.isDigit then ch.toNat - '0'.toNat
    else if 'a' ≤ ch ∧ ch ≤ 'f' then ch.toNat - 'a'.toNat + 10
    else if 'A' ≤ ch ∧ ch ≤ 'F' then ch.toNat - 'A'.toNat + 10
    else radix
  if value < radix then some value else none

def isDigitOf (radix : Nat) (ch : Char) : Bool := (toDigit radix ch).isSome

def numberOf (radix : Nat) (digits : List Char) : Nat :=
  digits.foldl (fun n ch => n * radix + (toDigit radix ch).getD 0) 0

/-- The digits at the front, as a number below `bound`. -/
def readNumber (radix : Nat) (maxDigits : Option Nat) (allowZeroPrefix : Bool) (bound : Nat)
    (text : List Char) : Option (Fin bound × List Char) :=
  let digits := text.takeWhile (isDigitOf radix)
  if digits = [] ∨ (maxDigits.any fun m => decide (m < digits.length)) = true ∨
      (allowZeroPrefix = false ∧ digits.head? = some '0' ∧ 1 < digits.length) then none
  else if h : numberOf radix digits < bound then
    some (⟨numberOf radix digits, h⟩, text.dropWhile (isDigitOf radix))
  else none

def readGivenChar (target : Char) (text : List Char) : Option (Unit × List Char) :=
  match text with
  | ch :: rest => if ch = target then some ((), rest) else none
  | [] => none

/-- The separator stands before every item but the first. -/
def readSeparator {α : Type} (sep : Char) (index : Nat)
    (inner : List Char → Option (α × List Char)) (text : List Char) : Option (α × List Char) :=
  if 0 < index then (readGivenChar sep text).bind fun r => inner r.2 else inner text

def readIpv4Addr (text : List Char) : Option (Ipv4 × List Char) := do
  let octet := readNumber 10 (some 3) false 256
  let a ← readSeparator '.' 0 octet text
  let b ← readSeparator '.' 1 octet a.2
  let c ← readSeparator '.' 2 octet b.2
  let d ← readSeparator '.' 3 octet c.2
  some (⟨a.1, b.1, c.1, d.1⟩, d.2)

def pairOf (hi lo : Fin 256) : Fin 65536 := ⟨hi.val * 256 + lo.val, by omega⟩

/-- At most `n` more groups. The last two may be written as an IPv4 address, and whether they
are is told. -/
def readGroups : Nat → List (Fin 65536) → List Char →
    (List (Fin 65536) × Bool) × List Char
  | 0, groups, text => ((groups, false), text)
  | n + 1, groups, text =>
    match if 0 < n then readSeparator ':' groups.length readIpv4Addr text else none with
    | some (v4, rest) => ((groups ++ [pairOf v4.o0 v4.o1, pairOf v4.o2 v4.o3], true), rest)
    | none =>
      match readSeparator ':' groups.length (readNumber 16 (some 4) true 65536) text with
      | some (g, rest) => readGroups n (groups ++ [g]) rest
      | none => ((groups, false), text)

def segmentsOf (groups : List (Fin 65536)) : Ipv6 :=
  ⟨Vector.ofFn fun i => groups.getD i.val 0⟩

def readIpv6Addr (text : List Char) : Option (Ipv6 × List Char) :=
  let head := readGroups 8 [] text
  let size := head.1.1.length
  if size = 8 then some (segmentsOf head.1.1, head.2)
  else if head.1.2 then none
  else do
    let first ← readGivenChar ':' head.2
    let second ← readGivenChar ':' first.2
    let tail := readGroups (8 - (size + 1)) [] second.2
    let zeros := List.replicate (8 - tail.1.1.length - size) 0
    some (segmentsOf (head.1.1 ++ zeros ++ tail.1.1), tail.2)

def readPort (text : List Char) : Option (Fin 65536 × List Char) :=
  (readGivenChar ':' text).bind fun r => readNumber 10 none true 65536 r.2

def readScopeId (text : List Char) : Option (Fin 4294967296 × List Char) :=
  (readGivenChar '%' text).bind fun r => readNumber 10 none true 4294967296 r.2

def readSocketAddrV4 (text : List Char) : Option (SocketAddr × List Char) := do
  let ip ← readIpv4Addr text
  let port ← readPort ip.2
  some (⟨.v4 ip.1, port.1, 0⟩, port.2)

def readSocketAddrV6 (text : List Char) : Option (SocketAddr × List Char) := do
  let opened ← readGivenChar '[' text
  let ip ← readIpv6Addr opened.2
  let scope := (readScopeId ip.2).getD (0, ip.2)
  let closed ← readGivenChar ']' scope.2
  let port ← readPort closed.2
  some (⟨.v6 ip.1, port.1, scope.1⟩, port.2)

def readSocketAddr (text : List Char) : Option (SocketAddr × List Char) :=
  (readSocketAddrV4 text).or (readSocketAddrV6 text)

/-- `from_str`: nothing may be left. -/
def parseSocketAddr (text : List Char) : Option SocketAddr :=
  (readSocketAddr text).bind fun r => if r.2 = [] then some r.1 else none

/-! ### The texts of addresses -/

def Ipv4.toText (ip : Ipv4) : List Char :=
  List.intercalate ['.'] ([ip.o0, ip.o1, ip.o2, ip.o3].map fun o => Nat.toDigits 10 o.val)

/-- Where the first longest run of zeros begins, and how long it is. -/
def zeroSpan (segments : List (Fin 65536)) : Nat × Nat :=
  let scanned := segments.foldl
    (fun (st : Nat × (Nat × Nat) × (Nat × Nat)) segment =>
      if segment = 0 then
        let current := (if st.2.2.2 = 0 then st.1 else st.2.2.1, st.2.2.2 + 1)
        (st.1 + 1, if st.2.1.2 < current.2 then current else st.2.1, current)
      else (st.1 + 1, st.2.1, (0, 0)))
    (0, (0, 0), (0, 0))
  scanned.2.1

def segmentsText (chunk : List (Fin 65536)) : List Char :=
  List.intercalate [':'] (chunk.map fun s => Nat.toDigits 16 s.val)

def halvesOf (segment : Fin 65536) : Fin 256 × Fin 256 :=
  (⟨segment.val / 256, by omega⟩, ⟨segment.val % 256, by omega⟩)

/-- An IPv4 address mapped into IPv6 is written as one, and a run of zeros as two colons. -/
def Ipv6.toText (ip : Ipv6) : List Char :=
  match ip.segments.toList with
  | [0, 0, 0, 0, 0, 0xffff, hi, lo] =>
    "::ffff:".toList ++
      Ipv4.toText ⟨(halvesOf hi).1, (halvesOf hi).2, (halvesOf lo).1, (halvesOf lo).2⟩
  | segments =>
    let zeros := zeroSpan segments
    if 1 < zeros.2 then
      segmentsText (segments.take zeros.1) ++ "::".toList ++
        segmentsText (segments.drop (zeros.1 + zeros.2))
    else segmentsText segments

def IpAddr.toText : IpAddr → List Char
  | .v4 ip => ip.toText
  | .v6 ip => ip.toText

/-! ### What the readers leave -/

/-- What a reader leaves is behind what it took. -/
def Leaves {α : Type} (p : List Char → Option (α × List Char)) : Prop :=
  ∀ text a rest, p text = some (a, rest) → rest <:+ text

section Leaves
variable {α : Type} {inner : List Char → Option (α × List Char)}

theorem readNumber_leaves (radix : Nat) (maxDigits : Option Nat) (allowZeroPrefix : Bool)
    (bound : Nat) : Leaves (readNumber radix maxDigits allowZeroPrefix bound) := by
  intro text a rest h
  unfold readNumber at h
  dsimp only at h
  split at h
  · cases h
  · split at h
    · obtain ⟨_, rfl⟩ := Prod.mk.inj (Option.some.inj h)
      exact List.dropWhile_suffix _
    · cases h

theorem readGivenChar_some {target : Char} {text rest : List Char}
    (h : readGivenChar target text = some ((), rest)) : text = target :: rest := by
  unfold readGivenChar at h
  split at h
  · split at h
    · rename_i heq
      obtain ⟨_, rfl⟩ := Prod.mk.inj (Option.some.inj h)
      rw [heq]
    · cases h
  · cases h

theorem readGivenChar_leaves (target : Char) : Leaves (readGivenChar target) := by
  intro text a rest h
  rw [readGivenChar_some h]
  exact List.suffix_cons ..

theorem readSeparator_leaves (sep : Char) (index : Nat) (h : Leaves inner) :
    Leaves (readSeparator sep index inner) := by
  intro text a rest hread
  unfold readSeparator at hread
  split at hread
  · obtain ⟨⟨u, mid⟩, hsep, hinner⟩ := Option.bind_eq_some_iff.mp hread
    exact (h _ _ _ hinner).trans (readGivenChar_leaves sep _ _ _ hsep)
  · exact h _ _ _ hread

theorem readIpv4Addr_leaves : Leaves readIpv4Addr := by
  intro text ip rest h
  have hoctet := readNumber_leaves 10 (some 3) false 256
  unfold readIpv4Addr at h
  obtain ⟨⟨a, r1⟩, h1, h⟩ := Option.bind_eq_some_iff.mp h
  obtain ⟨⟨b, r2⟩, h2, h⟩ := Option.bind_eq_some_iff.mp h
  obtain ⟨⟨c, r3⟩, h3, h⟩ := Option.bind_eq_some_iff.mp h
  obtain ⟨⟨d, r4⟩, h4, h⟩ := Option.bind_eq_some_iff.mp h
  obtain ⟨_, rfl⟩ := Prod.mk.inj (Option.some.inj h)
  have s1 := readSeparator_leaves '.' 0 hoctet _ _ _ h1
  have s2 := readSeparator_leaves '.' 1 hoctet _ _ _ h2
  have s3 := readSeparator_leaves '.' 2 hoctet _ _ _ h3
  have s4 := readSeparator_leaves '.' 3 hoctet _ _ _ h4
  exact s4.trans (s3.trans (s2.trans s1))

theorem readGroups_leaves (n : Nat) (groups : List (Fin 65536)) (text : List Char) :
    (readGroups n groups text).2 <:+ text := by
  induction n generalizing groups text with
  | zero => exact List.suffix_rfl
  | succ n ih =>
    rw [readGroups]
    split
    · rename_i v4 rest hv4
      split at hv4
      · exact readSeparator_leaves ':' _ readIpv4Addr_leaves _ _ _ hv4
      · cases hv4
    · split
      · rename_i g rest hg
        exact (ih _ _).trans
          (readSeparator_leaves ':' _ (readNumber_leaves 16 (some 4) true 65536) _ _ _ hg)
      · exact List.suffix_rfl

theorem readIpv6Addr_leaves : Leaves readIpv6Addr := by
  intro text ip rest h
  have hhead := readGroups_leaves 8 [] text
  unfold readIpv6Addr at h
  dsimp only at h
  split at h
  · obtain ⟨_, rfl⟩ := Prod.mk.inj (Option.some.inj h)
    exact hhead
  · split at h
    · cases h
    · obtain ⟨⟨_, r1⟩, h1, h⟩ := Option.bind_eq_some_iff.mp h
      obtain ⟨⟨_, r2⟩, h2, h⟩ := Option.bind_eq_some_iff.mp h
      obtain ⟨_, rfl⟩ := Prod.mk.inj (Option.some.inj h)
      exact (readGroups_leaves _ _ _).trans ((readGivenChar_leaves ':' _ _ _ h2).trans
        ((readGivenChar_leaves ':' _ _ _ h1).trans hhead))

theorem readScopeId_leaves : Leaves readScopeId := by
  intro text a rest h
  obtain ⟨⟨_, r⟩, h1, h2⟩ := Option.bind_eq_some_iff.mp h
  exact (readNumber_leaves _ _ _ _ _ _ _ h2).trans (readGivenChar_leaves '%' _ _ _ h1)

/-- Behind an address is a port, and it is read where it begins. -/
theorem readSocketAddr_port {text rest : List Char} {addr : SocketAddr}
    (h : readSocketAddr text = some (addr, rest)) :
    ∃ before, before <:+ text ∧ readPort before = some (addr.port, rest) := by
  unfold readSocketAddr at h
  rcases Option.or_eq_some_iff.mp h with h4 | ⟨_, h6⟩
  · obtain ⟨⟨ip, r1⟩, hip, h4⟩ := Option.bind_eq_some_iff.mp h4
    obtain ⟨⟨port, r2⟩, hport, h4⟩ := Option.bind_eq_some_iff.mp h4
    obtain ⟨rfl, rfl⟩ := Prod.mk.inj (Option.some.inj h4)
    exact ⟨r1, readIpv4Addr_leaves _ _ _ hip, hport⟩
  · obtain ⟨⟨_, r1⟩, hopen, h6⟩ := Option.bind_eq_some_iff.mp h6
    obtain ⟨⟨ip, r2⟩, hip, h6⟩ := Option.bind_eq_some_iff.mp h6
    obtain ⟨⟨_, r3⟩, hclose, h6⟩ := Option.bind_eq_some_iff.mp h6
    obtain ⟨⟨port, r4⟩, hport, h6⟩ := Option.bind_eq_some_iff.mp h6
    obtain ⟨rfl, rfl⟩ := Prod.mk.inj (Option.some.inj h6)
    have hscope : ((readScopeId r2).getD (0, r2)).2 <:+ r2 := by
      cases hread : readScopeId r2 with
      | none => exact List.suffix_rfl
      | some scope => exact readScopeId_leaves _ _ _ hread
    refine ⟨r3, ?_, hport⟩
    exact (readGivenChar_leaves ']' _ _ _ hclose).trans (hscope.trans
      ((readIpv6Addr_leaves _ _ _ hip).trans (readGivenChar_leaves '[' _ _ _ hopen)))

end Leaves

/-! ### The port -/

theorem toDigit_ten (ch : Char) :
    toDigit 10 ch = if ch.isDigit then some (ch.toNat - '0'.toNat) else none := by
  have hzero : '0'.toNat = 48 := rfl
  have hnine : '9'.toNat = 57 := rfl
  unfold toDigit
  dsimp only
  by_cases hdigit : ch.isDigit = true
  · have hrange := Char.isDigit_iff_toNat.mp hdigit
    have hlt : ch.toNat - '0'.toNat < 10 := by omega
    rw [if_pos hdigit, if_pos hdigit, if_pos hlt]
  · rw [if_neg hdigit, if_neg hdigit]
    apply if_neg
    split
    · omega
    · split <;> omega

theorem isDigitOf_ten : isDigitOf 10 = Char.isDigit := by
  funext ch
  rw [isDigitOf, toDigit_ten]
  split <;> simp_all

theorem numberOf_ten {text : List Char} (h : text.all Char.isDigit = true) :
    numberOf 10 text = Nat.ofDigitChars 10 text 0 := by
  have hfold : ∀ n, text.foldl (fun n ch => n * 10 + (toDigit 10 ch).getD 0) n =
      Nat.ofDigitChars 10 text n := by
    induction text with
    | nil =>
      intro n
      rfl
    | cons ch text ih =>
      intro n
      rw [List.all_cons, Bool.and_eq_true] at h
      rw [List.foldl_cons, Nat.ofDigitChars_cons, ih h.2, toDigit_ten, if_pos h.1,
        Option.getD_some, Nat.mul_comm]
  exact hfold 0

/-- A number with nothing behind it is the decimal number that the text is. -/
theorem readNumber_ten {bound : Nat} {maxDigits : Option Nat} {allowZeroPrefix : Bool}
    {text : List Char} {n : Fin bound}
    (h : readNumber 10 maxDigits allowZeroPrefix bound text = some (n, [])) :
    digits? text = some n.val := by
  unfold readNumber at h
  dsimp only at h
  split at h
  · cases h
  · rename_i hsome
    split at h
    · obtain ⟨rfl, hrest⟩ := Prod.mk.inj (Option.some.inj h)
      have htake : text.takeWhile (isDigitOf 10) = text := by
        have hsplit := List.takeWhile_append_dropWhile (p := isDigitOf 10) (l := text)
        rw [hrest, List.append_nil] at hsplit
        exact hsplit
      have hall : text.all Char.isDigit = true := by
        rw [← isDigitOf_ten, ← htake]
        exact List.all_takeWhile
      have hne : text ≠ [] := by
        rw [htake] at hsome
        exact fun hnil => hsome (Or.inl hnil)
      rw [digits?, if_pos ⟨hne, hall⟩]
      dsimp only
      rw [htake, numberOf_ten hall]
    · cases h

/-- An address ends in a colon and its port, which is the last colon of it. -/
theorem parseSocketAddr_port {text : List Char} {addr : SocketAddr}
    (h : parseSocketAddr text = some addr) :
    ∃ front digits, text = front ++ ':' :: digits ∧ digits? digits = some addr.port.val := by
  obtain ⟨⟨addr', rest⟩, hread, h⟩ := Option.bind_eq_some_iff.mp h
  dsimp only at h
  split at h
  · rename_i hrest
    obtain rfl := Option.some.inj h
    obtain ⟨before, ⟨front, hfront⟩, hport⟩ := readSocketAddr_port hread
    rw [hrest] at hport
    obtain ⟨⟨_, digits⟩, hcolon, hnumber⟩ := Option.bind_eq_some_iff.mp hport
    rw [readGivenChar_some hcolon] at hfront
    exact ⟨front, digits, hfront.symm, readNumber_ten hnumber⟩
  · cases h

example : (parseSocketAddr "[2001:0db8:0::0:1]:07700".toList).map
    (fun a => (a.ip.toText, a.port.val)) = some ("2001:db8::1".toList, 7700) := by
  decide +kernel

end SocketText

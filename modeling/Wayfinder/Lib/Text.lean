import Mathlib.Algebra.BigOperators.Group.List.Basic
import Mathlib.Algebra.Ring.Nat
import Mathlib.Data.List.Infix
import Mathlib.Data.List.Perm.Basic

/-!
# Texts measured in bytes

A text is a list of characters. What it takes in a buffer is the sum of the UTF-8 sizes of its
characters.
-/

set_option autoImplicit false

def utf8Len (text : List Char) : Nat := (text.map Char.utf8Size).sum

section Length
variable {text front front' rest : List Char}

@[simp] theorem utf8Len_nil : utf8Len [] = 0 := rfl

theorem utf8Len_cons (ch : Char) : utf8Len (ch :: rest) = ch.utf8Size + utf8Len rest := by
  rw [utf8Len, List.map_cons, List.sum_cons]
  rfl

theorem utf8Len_append : utf8Len (front ++ rest) = utf8Len front + utf8Len rest := by
  rw [utf8Len, List.map_append, List.sum_append]
  rfl

theorem utf8Len_perm {text' : List Char} (h : text.Perm text') : utf8Len text = utf8Len text' :=
  (h.map Char.utf8Size).sum_eq

theorem utf8Len_of_digits (h : text.all Char.isDigit = true) : utf8Len text = text.length := by
  induction text with
  | nil => rfl
  | cons ch text ih =>
    rw [List.all_cons, Bool.and_eq_true] at h
    have hsize : ch.utf8Size = 1 := by
      have hnine : '9'.toNat = 57 := rfl
      have hrange := (Char.isDigit_iff_toNat.mp h.1).2
      rw [Char.utf8Size_eq_one_iff, UInt32.le_iff_toNat_le]
      change ch.toNat ≤ 127
      omega
    rw [utf8Len_cons, hsize, ih h.2, List.length_cons, Nat.add_comm]

theorem utf8Len_le_of_isPrefix (h : front <+: text) : utf8Len front ≤ utf8Len text := by
  obtain ⟨rest, rfl⟩ := h
  rw [utf8Len_append]
  exact Nat.le_add_right _ _

theorem eq_nil_of_utf8Len (h : utf8Len text = 0) : text = [] := by
  cases text with
  | nil => rfl
  | cons ch rest =>
    have hpos := ch.utf8Size_pos
    rw [utf8Len_cons] at h
    omega

/-- Two leading parts of one text that take as many bytes are the same. -/
theorem prefix_unique (h : front <+: text) (h' : front' <+: text)
    (hlen : utf8Len front = utf8Len front') : front = front' := by
  rcases List.prefix_or_prefix_of_prefix h h' with hle | hle
  · obtain ⟨rest, rfl⟩ := hle
    rw [utf8Len_append] at hlen
    have hnil : rest = [] := eq_nil_of_utf8Len (by omega)
    rw [hnil, List.append_nil]
  · obtain ⟨rest, rfl⟩ := hle
    rw [utf8Len_append] at hlen
    have hnil : rest = [] := eq_nil_of_utf8Len (by omega)
    rw [hnil, List.append_nil]

end Length

/-- The longest leading part of a text that fits, cut between two characters. -/
def takeFitting : Nat → List Char → List Char
  | _, [] => []
  | room, ch :: rest =>
    if ch.utf8Size ≤ room then ch :: takeFitting (room - ch.utf8Size) rest else []

theorem utf8Len_takeFitting (room : Nat) (text : List Char) :
    utf8Len (takeFitting room text) ≤ room := by
  induction text generalizing room with
  | nil => exact Nat.zero_le room
  | cons ch rest ih =>
    rw [takeFitting]
    split
    · rename_i hfits
      have hrest := ih (room - ch.utf8Size)
      rw [utf8Len_cons]
      omega
    · exact Nat.zero_le room

section Fitting
variable {room : Nat} {text front rest : List Char}

theorem takeFitting_isPrefix (room : Nat) (text : List Char) : takeFitting room text <+: text := by
  induction text generalizing room with
  | nil => exact List.prefix_rfl
  | cons ch rest ih =>
    rw [takeFitting]
    split
    · exact List.cons_prefix_cons.mpr ⟨rfl, ih _⟩
    · exact List.nil_prefix

theorem takeFitting_append (h : utf8Len front ≤ room) :
    takeFitting room (front ++ rest) = front ++ takeFitting (room - utf8Len front) rest := by
  induction front generalizing room with
  | nil => rfl
  | cons ch front ih =>
    rw [utf8Len_cons] at h
    have hch : ch.utf8Size ≤ room := by omega
    have hfront : utf8Len front ≤ room - ch.utf8Size := by omega
    rw [List.cons_append, takeFitting, if_pos hch, ih hfront, utf8Len_cons, Nat.sub_sub,
      List.cons_append]

theorem takeFitting_of_le (h : utf8Len text ≤ room) : takeFitting room text = text := by
  have happend : takeFitting room (text ++ []) = text ++ takeFitting (room - utf8Len text) [] :=
    takeFitting_append h
  rw [List.append_nil] at happend
  rw [happend]
  exact List.append_nil text

/-- What stands behind a text that does not fit is of no account. -/
theorem takeFitting_append_of_lt (h : room < utf8Len front) :
    takeFitting room (front ++ rest) = takeFitting room front := by
  induction front generalizing room with
  | nil => exact absurd h (Nat.not_lt_zero _)
  | cons ch front ih =>
    rw [utf8Len_cons] at h
    rw [List.cons_append, takeFitting, takeFitting]
    split
    · rw [ih (by omega)]
    · rfl

theorem takeFitting_eq_nil : takeFitting room text = [] ↔ ∀ ch ∈ text.head?, room < ch.utf8Size := by
  cases text with
  | nil =>
    refine iff_of_true rfl ?_
    intro ch h
    cases h
  | cons ch rest =>
    rw [takeFitting, List.head?_cons]
    split
    · rename_i hfits
      refine iff_of_false (List.cons_ne_nil _ _) ?_
      intro h
      exact absurd (h ch rfl) (Nat.not_lt.mpr hfits)
    · rename_i hover
      refine iff_of_true rfl ?_
      intro ch' h
      obtain rfl := Option.some.inj h
      exact Nat.not_le.mp hover

/-- The leading parts that fit are those of the longest. -/
theorem isPrefix_takeFitting (hfront : front <+: text) (h : utf8Len front ≤ room) :
    front <+: takeFitting room text := by
  obtain ⟨rest, rfl⟩ := hfront
  rw [takeFitting_append h]
  exact List.prefix_append _ _

/-- The leading part that no other one that fits is longer than. -/
structure LongestFitting (room : Nat) (text result : List Char) : Prop where
  isPrefix : result <+: text
  fits : utf8Len result ≤ room
  longest : ∀ front, front <+: text → utf8Len front ≤ room → utf8Len front ≤ utf8Len result

theorem longestFitting_iff {result : List Char} :
    LongestFitting room text result ↔ result = takeFitting room text := by
  constructor
  · intro h
    have hpart := takeFitting_isPrefix room text
    apply prefix_unique h.isPrefix hpart
    apply Nat.le_antisymm
    · exact utf8Len_le_of_isPrefix (isPrefix_takeFitting h.isPrefix h.fits)
    · exact h.longest _ hpart (utf8Len_takeFitting room text)
  · rintro rfl
    refine ⟨takeFitting_isPrefix room text, utf8Len_takeFitting room text, ?_⟩
    intro front hfront hfits
    exact utf8Len_le_of_isPrefix (isPrefix_takeFitting hfront hfits)

end Fitting

/-! ### Cutting at an index -/

/-- `str::is_char_boundary`. -/
def isCharBoundary (text : List Char) (i : Nat) : Bool :=
  text.inits.any fun front => decide (utf8Len front = i)

/-- `&text[..i]`, which stops the program inside of a character. -/
def textBefore? (text : List Char) (i : Nat) : Option (List Char) :=
  text.inits.find? fun front => decide (utf8Len front = i)

/-- `text.get(i..j)`, which is nothing inside of a character. -/
def textBetween? (text : List Char) (i j : Nat) : Option (List Char) :=
  (textBefore? text i).bind fun front =>
    (textBefore? text j).bind fun upto =>
      if i ≤ j then some (upto.drop front.length) else none

/-- Steps back from an index to the next boundary. -/
def floorBoundary (text : List Char) : Nat → Nat
  | 0 => 0
  | i + 1 => if isCharBoundary text (i + 1) then i + 1 else floorBoundary text i

section Boundary
variable {text front : List Char}

theorem isCharBoundary_iff {i : Nat} :
    isCharBoundary text i = true ↔ ∃ front, front <+: text ∧ utf8Len front = i := by
  unfold isCharBoundary
  rw [List.any_eq_true]
  simp only [List.mem_inits, decide_eq_true_eq]

theorem textBefore?_of_isPrefix (h : front <+: text) :
    textBefore? text (utf8Len front) = some front := by
  unfold textBefore?
  cases hfind : text.inits.find? fun front' => decide (utf8Len front' = utf8Len front) with
  | none =>
    have hnone := List.find?_eq_none.mp hfind front ((List.mem_inits _ _).mpr h)
    exact absurd (decide_eq_true rfl) hnone
  | some found =>
    have hlen : utf8Len found = utf8Len front := by simpa using List.find?_some hfind
    have hfound := (List.mem_inits _ _).mp (List.mem_of_find?_eq_some hfind)
    rw [prefix_unique hfound h hlen]

theorem textBetween?_append {piece rest : List Char} {i j : Nat} (hi : utf8Len front = i)
    (hj : i + utf8Len piece = j) :
    textBetween? (front ++ (piece ++ rest)) i j = some piece := by
  subst hi hj
  have hpiece : textBefore? (front ++ (piece ++ rest)) (utf8Len front + utf8Len piece) =
      some (front ++ piece) := by
    rw [← utf8Len_append, ← List.append_assoc]
    exact textBefore?_of_isPrefix (List.prefix_append _ _)
  unfold textBetween?
  rw [textBefore?_of_isPrefix (List.prefix_append _ _), Option.bind_some, hpiece,
    Option.bind_some, if_pos (Nat.le_add_right ..), List.drop_left]

/-- The steps end at the longest leading part that fits. -/
theorem floorBoundary_eq (text : List Char) (room : Nat) :
    floorBoundary text room = utf8Len (takeFitting room text) := by
  induction room with
  | zero =>
    have hle := utf8Len_takeFitting 0 text
    exact (Nat.le_zero.mp hle).symm
  | succ room ih =>
    rw [floorBoundary]
    have hle := utf8Len_takeFitting (room + 1) text
    split
    · rename_i hboundary
      obtain ⟨front, hfront, hlen⟩ := isCharBoundary_iff.mp hboundary
      have hpart := utf8Len_le_of_isPrefix (isPrefix_takeFitting hfront (Nat.le_of_eq hlen))
      omega
    · rename_i hboundary
      have hpart := takeFitting_isPrefix (room + 1) text
      have hne : utf8Len (takeFitting (room + 1) text) ≠ room + 1 := by
        intro heq
        exact hboundary (isCharBoundary_iff.mpr ⟨_, hpart, heq⟩)
      rw [ih]
      apply Nat.le_antisymm
      · apply utf8Len_le_of_isPrefix
        apply isPrefix_takeFitting (takeFitting_isPrefix room text)
        exact Nat.le_succ_of_le (utf8Len_takeFitting room text)
      · apply utf8Len_le_of_isPrefix
        exact isPrefix_takeFitting hpart (by omega)

end Boundary

/-- A text in a buffer of fixed size. -/
@[ext]
structure FixedText (cap : Nat) where
  text : List Char
  fits : utf8Len text ≤ cap
  deriving DecidableEq

namespace FixedText

variable {cap : Nat}

def empty : FixedText cap := ⟨[], Nat.zero_le _⟩

/-- A text that does not fit is refused. -/
def ofText? (text : List Char) : Option (FixedText cap) :=
  if h : utf8Len text ≤ cap then some ⟨text, h⟩ else none

theorem text_of_ofText? {text : List Char} {fixed : FixedText cap}
    (h : ofText? text = some fixed) : fixed.text = text := by
  unfold ofText? at h
  split at h
  · exact (congrArg FixedText.text (Option.some.inj h)).symm
  · cases h

/-- What does not fit any more is left out. -/
def write (fixed : FixedText cap) (piece : List Char) : FixedText cap where
  text := fixed.text ++ takeFitting (cap - utf8Len fixed.text) piece
  fits := by
    have hfits := fixed.fits
    have hpiece := utf8Len_takeFitting (cap - utf8Len fixed.text) piece
    rw [utf8Len_append]
    omega

end FixedText

/-! ### Trimming -/

/-- The characters with the Unicode property `White_Space`. -/
def isWhitespace (ch : Char) : Bool :=
  (9 ≤ ch.toNat ∧ ch.toNat ≤ 13) ∨ (0x2000 ≤ ch.toNat ∧ ch.toNat ≤ 0x200A) ∨
    ch.toNat ∈ [0x20, 0x85, 0xA0, 0x1680, 0x2028, 0x2029, 0x202F, 0x205F, 0x3000]

def trim (text : List Char) : List Char :=
  ((text.dropWhile isWhitespace).reverse.dropWhile isWhitespace).reverse

def eqIgnoreAsciiCase (text text' : List Char) : Bool :=
  text.map Char.toLower = text'.map Char.toLower

/-- The text before and the text after the first occurrence of a character. -/
def splitOnce (sep : Char) (text : List Char) : Option (List Char × List Char) :=
  match text.dropWhile (· != sep) with
  | [] => none
  | _ :: rest => some (text.takeWhile (· != sep), rest)

/-! ### Splitting and joining -/

section Pieces
variable {α : Type} {x : α} {piece : List α} {xs : List α}

theorem not_mem_of_mem_splitOn [BEq α] [LawfulBEq α] (h : piece ∈ xs.splitOn x) : x ∉ piece := by
  induction xs generalizing piece with
  | nil =>
    obtain rfl := List.mem_singleton.mp h
    exact List.not_mem_nil
  | cons first rest ih =>
    rw [List.splitOn_cons_eq_if_modifyHead] at h
    split at h
    · rcases List.mem_cons.mp h with rfl | h
      · exact List.not_mem_nil
      · exact ih h
    · rename_i hne
      cases hsplit : rest.splitOn x with
      | nil => exact absurd hsplit (List.splitOn_ne_nil x rest)
      | cons head tail =>
        rw [hsplit, List.modifyHead_cons] at h
        rcases List.mem_cons.mp h with rfl | h
        · have hhead : x ∉ head := ih (by rw [hsplit]; exact List.mem_cons_self)
          rw [List.mem_cons, not_or]
          refine ⟨?_, hhead⟩
          rintro rfl
          exact hne BEq.rfl
        · exact ih (by rw [hsplit]; exact List.mem_cons_of_mem _ h)

/-- Joining pieces in another order puts the same elements in another order. -/
theorem intercalate_perm {pieces pieces' : List (List α)} (h : pieces.Perm pieces')
    (sep : List α) : (sep.intercalate pieces).Perm (sep.intercalate pieces') := by
  have hcount : ∀ ps : List (List α),
      (sep.intercalate ps).Perm (ps.flatten ++ (List.replicate (ps.length - 1) sep).flatten) := by
    intro ps
    induction ps with
    | nil => exact List.Perm.refl _
    | cons p ps ih =>
      cases ps with
      | nil => simp
      | cons q qs =>
        rw [List.intercalate_cons_cons]
        have hlen : (p :: q :: qs).length - 1 = ((q :: qs).length - 1) + 1 := by simp
        rw [hlen, List.replicate_succ, List.flatten_cons, List.flatten_cons, List.append_assoc,
          List.append_assoc]
        apply List.Perm.append_left
        exact (ih.append_left sep).trans (List.perm_append_comm_assoc _ _ _)
  refine (hcount pieces).trans (List.Perm.trans ?_ (hcount pieces').symm)
  rw [h.length_eq]
  exact h.flatten.append_right _

end Pieces

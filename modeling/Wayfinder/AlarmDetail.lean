import Wayfinder.AlarmBoard

/-!
# How a detail is cut

A detail is formatted in pieces, and each piece is cut by itself where the room ends. A piece
that was cut may leave a few bytes, since no character is split, and a later piece that begins
with a smaller character goes on in them.
-/

namespace Wayfinder

set_option autoImplicit false

/-- `heapless::String::push_str`, whose failure is ignored. -/
def pushStr (out : Detail) (part : List Char) : Detail :=
  (FixedText.ofText? (out.text ++ part)).getD out

/-- `Truncating::write_str`. Nothing, where it would slice inside of a character. -/
def writeStr (out : Detail) (s : List Char) : Option Detail :=
  let room := detailCap - utf8Len out.text
  let last := floorBoundary s (min (utf8Len s) room)
  (textBefore? s last).map (pushStr out)

theorem takeFitting_min (room : Nat) (s : List Char) :
    takeFitting (min (utf8Len s) room) s = takeFitting room s := by
  rcases Nat.le_total (utf8Len s) room with hle | hle
  · rw [Nat.min_eq_left hle, takeFitting_of_le hle, takeFitting_of_le (Nat.le_refl _)]
  · rw [Nat.min_eq_right hle]

theorem writeStr_eq (out : Detail) (s : List Char) : writeStr out s = some (out.write s) := by
  have hpart : textBefore? s (floorBoundary s (min (utf8Len s) (detailCap - utf8Len out.text))) =
      some (takeFitting (detailCap - utf8Len out.text) s) := by
    rw [floorBoundary_eq, takeFitting_min]
    exact textBefore?_of_isPrefix (takeFitting_isPrefix _ s)
  unfold writeStr
  dsimp only
  rw [hpart, Option.map_some]
  have hfits : utf8Len (out.text ++ takeFitting (detailCap - utf8Len out.text) s) ≤ detailCap :=
    (out.write s).fits
  unfold pushStr FixedText.ofText?
  rw [dif_pos hfits]
  rfl

def renderPieces (pieces : List (List Char)) : Option Detail :=
  pieces.foldlM writeStr .empty

theorem renderPieces_eq (pieces : List (List Char)) : renderPieces pieces = some (render pieces) := by
  unfold renderPieces render
  generalize (FixedText.empty : Detail) = out
  induction pieces generalizing out with
  | nil => rfl
  | cons s pieces ih =>
    rw [List.foldlM_cons, writeStr_eq, List.foldl_cons]
    exact ih (out.write s)

/-! ### What the pieces leave -/

def fitEach : Nat → List (List Char) → List Char
  | _, [] => []
  | room, s :: pieces =>
    takeFitting room s ++ fitEach (room - utf8Len (takeFitting room s)) pieces

theorem foldl_write {cap : Nat} (pieces : List (List Char)) (out : FixedText cap) :
    (pieces.foldl FixedText.write out).text =
      out.text ++ fitEach (cap - utf8Len out.text) pieces := by
  induction pieces generalizing out with
  | nil => exact (List.append_nil _).symm
  | cons s pieces ih =>
    have htext : (out.write s).text =
        out.text ++ takeFitting (cap - utf8Len out.text) s := rfl
    rw [List.foldl_cons, ih, htext, utf8Len_append, fitEach, List.append_assoc, Nat.sub_add_eq]

theorem render_text (pieces : List (List Char)) : (render pieces).text = fitEach detailCap pieces :=
  foldl_write pieces .empty

theorem fitEach_eq_nil {room : Nat} {pieces : List (List Char)} :
    fitEach room pieces = [] ↔ ∀ s ∈ pieces, ∀ ch ∈ s.head?, room < ch.utf8Size := by
  induction pieces with
  | nil =>
    refine iff_of_true rfl ?_
    intro s h
    cases h
  | cons s pieces ih =>
    rw [fitEach, List.append_eq_nil_iff, List.forall_mem_cons, ← takeFitting_eq_nil, ← ih]
    apply and_congr_right
    intro hnil
    rw [hnil, utf8Len_nil, Nat.sub_zero]

/-- Behind the first piece that the room is not enough for, none begins with a character that
the bytes left over are enough for. -/
def StaysCut : Nat → List (List Char) → Prop
  | _, [] => True
  | room, s :: pieces =>
    if utf8Len s ≤ room then StaysCut (room - utf8Len s) pieces
    else ∀ s' ∈ pieces, ∀ ch ∈ s'.head?, room - utf8Len (takeFitting room s) < ch.utf8Size

theorem fitEach_eq_takeFitting {room : Nat} {pieces : List (List Char)} :
    fitEach room pieces = takeFitting room pieces.flatten ↔ StaysCut room pieces := by
  induction pieces generalizing room with
  | nil => exact iff_of_true rfl trivial
  | cons s pieces ih =>
    rw [fitEach, StaysCut, List.flatten_cons]
    split
    · rename_i hfits
      rw [takeFitting_of_le hfits, takeFitting_append hfits, List.append_cancel_left_eq]
      exact ih
    · rename_i hover
      rw [takeFitting_append_of_lt (Nat.not_le.mp hover), List.append_right_eq_self]
      exact fitEach_eq_nil

/-- The detail is the longest part of the whole text that fits, exactly where a cut is
not written behind. -/
theorem render_longest_iff (pieces : List (List Char)) :
    (∃ out, renderPieces pieces = some out ∧
      LongestFitting detailCap pieces.flatten out.text) ↔ StaysCut detailCap pieces := by
  rw [renderPieces_eq, ← fitEach_eq_takeFitting, ← render_text, ← longestFitting_iff]
  constructor
  · rintro ⟨out, heq, h⟩
    obtain rfl := Option.some.inj heq
    exact h
  · intro h
    exact ⟨_, rfl, h⟩

def skippingPieces : List (List Char) := [List.replicate 63 'a' ++ ['é'], ['b']]

theorem skippingPieces_render :
    (renderPieces skippingPieces).map FixedText.text = some (List.replicate 63 'a' ++ ['b']) := by
  decide +kernel

theorem skippingPieces_not_longest :
    ¬ ∃ out, renderPieces skippingPieces = some out ∧
      LongestFitting detailCap skippingPieces.flatten out.text := by
  rintro ⟨out, heq, h⟩
  have htext := skippingPieces_render
  rw [heq] at htext
  obtain htext : out.text = List.replicate 63 'a' ++ ['b'] := Option.some.inj htext
  have hnot : ¬ List.replicate 63 'a' ++ ['b'] <+: skippingPieces.flatten := by decide +kernel
  rw [← htext] at hnot
  exact hnot h.isPrefix

end Wayfinder

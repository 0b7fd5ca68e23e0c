import Mathlib.Data.List.Forall2
import Mathlib.Data.List.Nodup
import Mathlib.Data.List.Perm.Basic
import Wayfinder.Lib.Bounded

/-!
# A ring beside the history that went through it

A ring of bounded length drops its oldest element for a new one. Its rows are the last
elements of a history, each kept in its own form: the relation is one on rows, and holds
through a push, through a change of rows and history alike, and through the answer to the
first row that waits for it.
-/

set_option autoImplicit false

/-! ### The first element that satisfies a test -/

namespace List

variable {α β κ : Type} {p : α → Bool} {f : α → α}

/-- Change the first element that satisfies the test, and say which it was. -/
def changeFirst (p : α → Bool) (f : α → α) : List α → Option (α × List α)
  | [] => none
  | x :: xs =>
    if p x then some (x, f x :: xs) else (changeFirst p f xs).map fun r => (r.1, x :: r.2)

theorem changeFirst_eq_none {xs : List α} :
    changeFirst p f xs = none ↔ ∀ x ∈ xs, p x = false := by
  induction xs with
  | nil => simp [changeFirst]
  | cons x xs ih =>
    rw [changeFirst]
    cases hx : p x with
    | true => simp [hx]
    | false => simp [hx, ih]

theorem changeFirst_split {xs ys : List α} {x : α} (h : changeFirst p f xs = some (x, ys)) :
    ∃ before after, xs = before ++ x :: after ∧ ys = before ++ f x :: after ∧ p x = true ∧
      ∀ y ∈ before, p y = false := by
  induction xs generalizing ys with
  | nil => cases h
  | cons z xs ih =>
    rw [changeFirst] at h
    cases hz : p z with
    | true =>
      rw [if_pos hz] at h
      obtain ⟨rfl, rfl⟩ := Prod.mk.inj (Option.some.inj h)
      exact ⟨[], xs, rfl, rfl, hz, by simp⟩
    | false =>
      rw [if_neg (by simp [hz])] at h
      obtain ⟨⟨x', ys'⟩, hrest, hpair⟩ := Option.map_eq_some_iff.mp h
      obtain ⟨rfl, rfl⟩ := Prod.mk.inj hpair
      obtain ⟨before, after, hxs, hys, hx, hbefore⟩ := ih hrest
      refine ⟨z :: before, after, by rw [hxs]; rfl, by rw [hys]; rfl, hx, ?_⟩
      intro y hy
      cases List.mem_cons.mp hy with
      | inl heq => rw [heq]; exact hz
      | inr hmem => exact hbefore y hmem

theorem length_of_changeFirst {xs ys : List α} {x : α} (h : changeFirst p f xs = some (x, ys)) :
    ys.length = xs.length := by
  obtain ⟨before, after, rfl, rfl, -, -⟩ := changeFirst_split h
  rw [List.length_append, List.length_append, List.length_cons, List.length_cons]

theorem countP_changeFirst {q : α → Bool} {xs ys : List α} {x : α}
    (h : changeFirst p f xs = some (x, ys)) (hx : q x = true) (hfx : q (f x) = false) :
    ys.countP q + 1 = xs.countP q := by
  obtain ⟨before, after, rfl, rfl, -, -⟩ := changeFirst_split h
  rw [List.countP_append, List.countP_append, List.countP_cons_of_pos hx,
    List.countP_cons_of_neg (by simp [hfx])]
  omega

theorem map_ite_of_none {xs : List α} (h : ∀ x ∈ xs, p x = false) :
    (xs.map fun x => if p x then f x else x) = xs := by
  have hsame : ∀ x ∈ xs, (if p x then f x else x) = id x := by
    intro x hx
    rw [if_neg (by simp [h x hx])]
    rfl
  rw [List.map_congr_left hsame, List.map_id]

/-- Elements that satisfied a wider test and are changed so as not to, leave its count. -/
theorem countP_map_ite {q : α → Bool} (hwider : ∀ x, p x = true → q x = true)
    (hleaves : ∀ x, q (f x) = false) (xs : List α) :
    (xs.map fun x => if p x then f x else x).countP q + xs.countP p = xs.countP q := by
  induction xs with
  | nil => rfl
  | cons x xs ih =>
    rw [List.map_cons, List.countP_cons, List.countP_cons, List.countP_cons]
    cases hx : p x with
    | true =>
      rw [hwider x hx, if_pos rfl, hleaves x]
      simp only [Bool.false_eq_true, if_false, if_true]
      omega
    | false =>
      simp only [Bool.false_eq_true, if_false]
      omega

/-- Where the elements that satisfy the test share a key and keys are distinct, to change
the first of them is to change them all. -/
theorem changeFirst_eq_map {key : α → κ} {xs ys : List α} {x : α} (hnodup : (xs.map key).Nodup)
    (hkey : ∀ y, p y = true → key y = key x) (h : changeFirst p f xs = some (x, ys)) :
    ys = xs.map fun y => if p y then f y else y := by
  obtain ⟨before, after, rfl, rfl, hx, hbefore⟩ := changeFirst_split h
  have hafter : ∀ y ∈ after, p y = false := by
    intro y hy
    rw [Bool.eq_false_iff]
    intro hpy
    rw [List.map_append, List.map_cons, List.nodup_append] at hnodup
    have hnot := (List.nodup_cons.mp hnodup.2.1).1
    exact hnot (List.mem_map.mpr ⟨y, hy, hkey y hpy⟩)
  rw [List.map_append, List.map_cons, map_ite_of_none hbefore, map_ite_of_none hafter,
    if_pos hx]

/-- One element of the history comes to be counted, and the others stay as they were. -/
theorem perm_filterMap_map {key : α → κ} {g : α → Option β} {xs : List α} {x : α} {v : β}
    (hmem : x ∈ xs) (hnodup : (xs.map key).Nodup) (hbefore : g x = none) (hafter : g (f x) = some v)
    (hothers : ∀ y ∈ xs, key y ≠ key x → g (f y) = g y) :
    ((xs.map f).filterMap g).Perm (v :: xs.filterMap g) := by
  obtain ⟨before, after, rfl⟩ := List.append_of_mem hmem
  rw [List.map_append, List.map_cons, List.nodup_append] at hnodup
  obtain ⟨-, hlast, hapart⟩ := hnodup
  have hkept : ∀ l : List α, (∀ y ∈ l, y ∈ before ++ x :: after ∧ key y ≠ key x) →
      (l.map f).filterMap g = l.filterMap g := by
    intro l hl
    rw [List.filterMap_map]
    apply List.filterMap_congr
    intro y hy
    exact hothers y (hl y hy).1 (hl y hy).2
  have hfirst : (before.map f).filterMap g = before.filterMap g := by
    apply hkept
    intro y hy
    refine ⟨List.mem_append_left _ hy, ?_⟩
    exact hapart _ (List.mem_map_of_mem hy) _ (List.mem_cons_self ..)
  have hsecond : (after.map f).filterMap g = after.filterMap g := by
    apply hkept
    intro y hy
    refine ⟨List.mem_append_right _ (List.mem_cons_of_mem _ hy), ?_⟩
    intro heq
    exact (List.nodup_cons.mp hlast).1 (List.mem_map.mpr ⟨y, hy, heq⟩)
  rw [List.map_append, List.map_cons, List.filterMap_append, List.filterMap_append, hfirst,
    List.filterMap_cons_some hafter, hsecond, List.filterMap_cons_none hbefore]
  exact List.perm_middle

end List

/-! ### The ring -/

namespace Bounded

variable {α β κ : Type} {cap : Nat} {R : α → β → Prop}

/-- Push, the oldest element out when the ring is full. -/
def pushOut (v : Bounded α cap) (x : α) : Option α × Bounded α cap :=
  if v.toList.length < cap then
    (none, (v.push x).1)
  else
    match h : v.toList with
    | [] => (none, v)
    | oldest :: rest =>
      (some oldest, ⟨rest ++ [x], by
        have hle := v.length_le
        rw [h, List.length_cons] at hle
        rw [List.length_append]
        exact hle⟩)

def map (f : α → α) (v : Bounded α cap) : Bounded α cap :=
  ⟨v.toList.map f, by rw [List.length_map]; exact v.length_le⟩

def changeFirst (p : α → Bool) (f : α → α) (v : Bounded α cap) :
    Option (α × Bounded α cap) :=
  match h : v.toList.changeFirst p f with
  | none => none
  | some (x, ys) => some (x, ⟨ys, by rw [List.length_of_changeFirst h]; exact v.length_le⟩)

theorem changeFirst_eq_none {p : α → Bool} {f : α → α} {v : Bounded α cap} :
    v.changeFirst p f = none ↔ ∀ x ∈ v.toList, p x = false := by
  unfold changeFirst
  split
  · rename_i h
    exact iff_of_true rfl (List.changeFirst_eq_none.mp h)
  · rename_i h
    simp only [reduceCtorEq, false_iff]
    intro hnone
    rw [List.changeFirst_eq_none.mpr hnone] at h
    cases h

theorem toList_changeFirst {p : α → Bool} {f : α → α} {v w : Bounded α cap} {x : α}
    (h : v.changeFirst p f = some (x, w)) : v.toList.changeFirst p f = some (x, w.toList) := by
  unfold changeFirst at h
  split at h
  · cases h
  · rename_i hfirst
    obtain ⟨rfl, rfl⟩ := Prod.mk.inj (Option.some.inj h)
    exact hfirst

theorem pushOut_of_lt {v : Bounded α cap} {x : α} (h : v.toList.length < cap) :
    (v.pushOut x).1 = none ∧ (v.pushOut x).2.toList = v.toList ++ [x] := by
  rw [pushOut, if_pos h]
  exact ⟨rfl, toList_push (push_of_lt h)⟩

theorem pushOut_of_full {v : Bounded α cap} {x oldest : α} {rest : List α}
    (hfull : ¬ v.toList.length < cap) (h : v.toList = oldest :: rest) :
    (v.pushOut x).1 = some oldest ∧ (v.pushOut x).2.toList = rest ++ [x] := by
  rw [pushOut, if_neg hfull]
  split
  · rename_i hnil
    rw [h] at hnil
    cases hnil
  · rename_i heq
    rw [h] at heq
    obtain ⟨rfl, rfl⟩ := List.cons.inj heq
    exact ⟨rfl, rfl⟩

theorem pushOut_suffix (v : Bounded α cap) (x : α) :
    (v.pushOut x).2.toList <:+ v.toList ++ [x] := by
  by_cases hroom : v.toList.length < cap
  · simp [(pushOut_of_lt hroom).2]
  · cases hv : v.toList with
    | nil =>
      have hempty : (v.pushOut x).2 = v := by
        rw [pushOut, if_neg hroom]
        split
        · rfl
        · rename_i hcons
          rw [hv] at hcons
          cases hcons
      rw [hempty, hv]
      exact List.nil_suffix
    | cons oldest rest =>
      rw [(pushOut_of_full hroom hv).2]
      exact List.suffix_append [oldest] (rest ++ [x])

/-- What is counted in the ring is what was, less the one dropped, plus the new one. -/
theorem countP_pushOut (hcap : 0 < cap) (v : Bounded α cap) (x : α) (q : α → Bool) :
    (v.pushOut x).2.toList.countP q + (v.pushOut x).1.toList.countP q =
      v.toList.countP q + [x].countP q := by
  by_cases hroom : v.toList.length < cap
  · obtain ⟨hout, hin⟩ := pushOut_of_lt (x := x) hroom
    rw [hout, hin, List.countP_append]
    rfl
  · cases hv : v.toList with
    | nil =>
      rw [hv] at hroom
      exact absurd hcap hroom
    | cons oldest rest =>
      obtain ⟨hout, hin⟩ := pushOut_of_full (x := x) hroom hv
      rw [hout, hin, Option.toList_some, ← List.singleton_append (l := rest),
        List.countP_append, List.countP_append]
      omega

/-- The rows are the last elements of the history. -/
def Mirrors (R : α → β → Prop) (v : Bounded α cap) (history : List β) : Prop :=
  List.Forall₂ R v.toList (history.drop (history.length - cap))

namespace Mirrors

variable {v : Bounded α cap} {history : List β}

theorem start : Mirrors R (empty : Bounded α cap) [] := by
  rw [Mirrors, List.drop_nil]
  exact List.Forall₂.nil

theorem rows_length (h : Mirrors R v history) : v.toList.length = min history.length cap := by
  have hlength := List.Forall₂.length_eq h
  rw [List.length_drop] at hlength
  omega

theorem push (hcap : 0 < cap) {x : α} {y : β} (h : Mirrors R v history) (hxy : R x y) :
    Mirrors R (v.pushOut x).2 (history ++ [y]) := by
  have hlength := h.rows_length
  unfold Mirrors at h ⊢
  rw [List.length_append, List.length_singleton]
  by_cases hroom : v.toList.length < cap
  · rw [show history.length - cap = 0 by omega, List.drop_zero] at h
    rw [(pushOut_of_lt hroom).2, show history.length + 1 - cap = 0 by omega, List.drop_zero]
    exact List.rel_append h (List.Forall₂.cons hxy List.Forall₂.nil)
  · cases hv : v.toList with
    | nil =>
      rw [hv] at hroom
      exact absurd hcap hroom
    | cons oldest rest =>
      rw [(pushOut_of_full hroom hv).2, List.drop_append_of_le_length (by omega)]
      refine List.rel_append ?_ (List.Forall₂.cons hxy List.Forall₂.nil)
      have htail := List.forall₂_drop 1 h
      rw [hv, List.drop_drop] at htail
      rw [show history.length + 1 - cap = history.length - cap + 1 by omega]
      exact htail

/-- Rows and history change alike. -/
theorem change {S : α → β → Prop} {f : α → α} {g : β → β} {w : Bounded α cap}
    (hw : w.toList = v.toList.map f) (h : Mirrors R v history)
    (hstep : ∀ x ∈ v.toList, ∀ y ∈ history, R x y → S (f x) (g y)) :
    Mirrors S w (history.map g) := by
  unfold Mirrors at h ⊢
  have hsub : ∀ y ∈ history.drop (history.length - cap), y ∈ history :=
    fun y hy => List.mem_of_mem_drop hy
  rw [hw, List.length_map, List.map_drop.symm, List.forall₂_map_left_iff,
    List.forall₂_map_right_iff]
  generalize history.drop (history.length - cap) = recent at h hsub
  generalize v.toList = rows at h hstep
  induction h with
  | nil => exact List.Forall₂.nil
  | @cons x y rows recent hxy _ ih =>
    refine List.Forall₂.cons ?_ (ih ?_ ?_)
    · exact hstep x (List.mem_cons_self ..) y (hsub y (List.mem_cons_self ..)) hxy
    · intro y' hy'
      exact hsub y' (List.mem_cons_of_mem _ hy')
    · intro x' hx'
      exact hstep x' (List.mem_cons_of_mem _ hx')

theorem exists_row (h : Mirrors R v history) {y : β}
    (hy : y ∈ history.drop (history.length - cap)) : ∃ x ∈ v.toList, R x y := by
  unfold Mirrors at h
  generalize history.drop (history.length - cap) = recent at h hy
  generalize v.toList = rows at h ⊢
  induction h with
  | nil => cases hy
  | @cons x y' rows recent hxy _ ih =>
    cases List.mem_cons.mp hy with
    | inl heq => exact ⟨x, List.mem_cons_self .., heq ▸ hxy⟩
    | inr hmem =>
      obtain ⟨x', hx', hR⟩ := ih hmem
      exact ⟨x', List.mem_cons_of_mem _ hx', hR⟩

theorem exists_element (h : Mirrors R v history) {x : α} (hx : x ∈ v.toList) :
    ∃ y ∈ history, R x y := by
  have hsub : ∀ y ∈ history.drop (history.length - cap), y ∈ history :=
    fun y hy => List.mem_of_mem_drop hy
  unfold Mirrors at h
  generalize history.drop (history.length - cap) = recent at h hsub
  generalize v.toList = rows at h hx
  induction h with
  | nil => cases hx
  | @cons x' y rows recent hxy _ ih =>
    cases List.mem_cons.mp hx with
    | inl heq => exact ⟨y, hsub y (List.mem_cons_self ..), heq ▸ hxy⟩
    | inr hmem => exact ih (fun y' hy' => hsub y' (List.mem_cons_of_mem _ hy')) hmem

/-- Rows are told apart by what tells the history apart. -/
theorem nodup {key : α → κ} {key' : β → κ} (h : Mirrors R v history)
    (hkey : ∀ x y, R x y → key x = key' y) (hnodup : (history.map key').Nodup) :
    (v.toList.map key).Nodup := by
  have hrecent : v.toList.map key = (history.drop (history.length - cap)).map key' := by
    unfold Mirrors at h
    generalize history.drop (history.length - cap) = recent at h ⊢
    generalize v.toList = rows at h ⊢
    induction h with
    | nil => rfl
    | cons hxy _ ih => rw [List.map_cons, List.map_cons, hkey _ _ hxy, ih]
  rw [hrecent, List.map_drop]
  exact hnodup.sublist (List.drop_sublist ..)

end Mirrors

end Bounded

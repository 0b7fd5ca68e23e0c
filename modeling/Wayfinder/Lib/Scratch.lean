import Mathlib.Data.List.Nodup
import Wayfinder.Lib.Bounded

/-!
# Skipping what was seen, with a bounded memory

A walk over a list passes on each element that satisfies a test and is not in the memory, and
remembers it as long as the memory has room. Whatever satisfies the test is passed on; it is
passed on once exactly if what came too late to be remembered does not come again.
-/

set_option autoImplicit false

namespace Scratch

variable {α β : Type} {cap : Nat}

section Memory
variable {seen : Bounded α cap} {x y : α}

theorem push_toList (seen : Bounded α cap) (x : α) : (seen.push x).1.toList =
    if seen.toList.length < cap then seen.toList ++ [x] else seen.toList := by
  unfold Bounded.push
  split <;> rfl

theorem mem_push_iff : y ∈ (seen.push x).1.toList ↔
    y ∈ seen.toList ∨ y = x ∧ seen.toList.length < cap := by
  rw [push_toList]
  split
  · rename_i hroom
    simp [hroom]
  · rename_i hroom
    simp [hroom]

theorem push_of_full (hfull : ¬ seen.toList.length < cap) : (seen.push x).1 = seen := by
  unfold Bounded.push
  rw [dif_neg hfull]

end Memory

variable [DecidableEq α]

def once (p : α → Bool) : Bounded α cap → List α → List α
  | _, [] => []
  | seen, x :: xs =>
    if !p x || seen.toList.contains x then once p seen xs
    else x :: once p (seen.push x).1 xs

/-- Fold over what is not in the memory, which takes every element as long as it has room. -/
def foldUnseen (f : β → α → β) : Bounded α cap → β → List α → β
  | _, b, [] => b
  | seen, b, x :: xs =>
    if seen.toList.contains x then foldUnseen f seen b xs
    else foldUnseen f (seen.push x).1 (f b x) xs

section Walk
variable {p : α → Bool} {seen : Bounded α cap} {x y : α} {xs : List α}

def fresh (p : α → Bool) (seen : Bounded α cap) (x : α) : Bool :=
  p x && !seen.toList.contains x

theorem fresh_iff : fresh p seen x = true ↔ p x = true ∧ x ∉ seen.toList := by
  simp [fresh]

theorem once_cons_of_fresh (h : fresh p seen x = true) :
    once p seen (x :: xs) = x :: once p (seen.push x).1 xs := by
  obtain ⟨hp, hunseen⟩ := fresh_iff.mp h
  rw [once, if_neg (by simp [hp, hunseen])]

theorem once_cons_of_not_fresh (h : fresh p seen x = false) :
    once p seen (x :: xs) = once p seen xs := by
  rw [once, if_pos]
  rw [fresh] at h
  cases hp : p x with
  | false => rfl
  | true =>
    rw [hp, Bool.true_and, Bool.not_eq_false'] at h
    rw [h]
    rfl

theorem mem_once : y ∈ once p seen xs ↔ y ∈ xs ∧ fresh p seen y = true := by
  induction xs generalizing seen with
  | nil => simp [once]
  | cons x xs ih =>
    cases hx : fresh p seen x with
    | false =>
      rw [once_cons_of_not_fresh hx, ih, List.mem_cons]
      constructor
      · intro ⟨hy, hfresh⟩
        exact ⟨Or.inr hy, hfresh⟩
      · intro ⟨hy, hfresh⟩
        refine ⟨hy.resolve_left ?_, hfresh⟩
        rintro rfl
        rw [hx] at hfresh
        cases hfresh
    | true =>
      rw [once_cons_of_fresh hx, List.mem_cons, ih, List.mem_cons]
      constructor
      · rintro (rfl | ⟨hy, hfresh⟩)
        · exact ⟨Or.inl rfl, hx⟩
        · obtain ⟨hp, hunseen⟩ := fresh_iff.mp hfresh
          refine ⟨Or.inr hy, fresh_iff.mpr ⟨hp, ?_⟩⟩
          intro hseen
          exact hunseen (mem_push_iff.mpr (Or.inl hseen))
      · rintro ⟨hy, hfresh⟩
        by_cases heq : y = x
        · exact Or.inl heq
        · obtain ⟨hp, hunseen⟩ := fresh_iff.mp hfresh
          refine Or.inr ⟨hy.resolve_left heq, fresh_iff.mpr ⟨hp, ?_⟩⟩
          intro hseen
          rcases mem_push_iff.mp hseen with hold | ⟨hnew, _⟩
          · exact hunseen hold
          · exact heq hnew

theorem once_eq_nil_iff : once p seen xs = [] ↔ ∀ y ∈ xs, fresh p seen y = false := by
  rw [List.eq_nil_iff_forall_not_mem]
  constructor
  · intro h y hy
    rw [Bool.eq_false_iff]
    intro hfresh
    exact h y (mem_once.mpr ⟨hy, hfresh⟩)
  · intro h y hy
    obtain ⟨hmem, hfresh⟩ := mem_once.mp hy
    rw [h y hmem] at hfresh
    cases hfresh

/-- The elements to be passed on, each at its first place. -/
def firsts (p : α → Bool) (seen : Bounded α cap) (xs : List α) : List α :=
  (xs.filter (fresh p seen)).eraseDups

theorem mem_firsts : y ∈ firsts p seen xs ↔ y ∈ xs ∧ fresh p seen y = true := by
  rw [firsts, List.mem_eraseDups, List.mem_filter]

theorem firsts_cons_of_fresh (h : fresh p seen x = true) : firsts p seen (x :: xs) =
    x :: (xs.filter fun y => fresh p seen y && y != x).eraseDups := by
  rw [firsts, List.filter_cons_of_pos h, List.eraseDups_cons, List.filter_filter]
  congr 3
  funext y
  exact Bool.and_comm ..

theorem fresh_push (hroom : seen.toList.length < cap) :
    fresh p (seen.push x).1 = fun y => fresh p seen y && y != x := by
  funext y
  rw [fresh, push_toList, if_pos hroom, fresh, Bool.and_assoc]
  congr 1
  by_cases hy : y = x <;> simp [hy]

/-- Each element is passed on once exactly if none of those that come after the memory is
full comes twice. -/
theorem once_nodup_iff : (once p seen xs).Nodup ↔
    ∀ y ∈ (firsts p seen xs).drop (cap - seen.toList.length), xs.count y = 1 := by
  induction xs generalizing seen with
  | nil => simp [once, firsts]
  | cons x xs ih =>
    cases hx : fresh p seen x with
    | false =>
      have hfirsts : firsts p seen (x :: xs) = firsts p seen xs := by
        rw [firsts, List.filter_cons_of_neg (by rw [hx]; decide), firsts]
      rw [once_cons_of_not_fresh hx, ih, hfirsts]
      apply forall₂_congr
      intro y hy
      have hne : x ≠ y := by
        rintro rfl
        have hfresh := (mem_firsts.mp (List.mem_of_mem_drop hy)).2
        rw [hx] at hfresh
        cases hfresh
      rw [List.count_cons_of_ne hne]
    | true =>
      rw [once_cons_of_fresh hx, List.nodup_cons, ih, firsts_cons_of_fresh hx, mem_once]
      by_cases hroom : seen.toList.length < cap
      · have hdrop : cap - seen.toList.length = cap - (seen.push x).1.toList.length + 1 := by
          rw [push_toList, if_pos hroom, List.length_append, List.length_singleton]
          omega
        have hnot : ¬ (x ∈ xs ∧ fresh p (seen.push x).1 x = true) := by
          rw [fresh_push hroom]
          simp
        have hlater : firsts p (seen.push x).1 xs =
            (xs.filter fun y => fresh p seen y && y != x).eraseDups := by
          rw [firsts, fresh_push hroom]
        rw [hdrop, List.drop_succ_cons, and_iff_right hnot, hlater]
        apply forall₂_congr
        intro y hy
        have hy := List.mem_of_mem_drop hy
        rw [List.mem_eraseDups, List.mem_filter, Bool.and_eq_true] at hy
        rw [List.count_cons_of_ne (fun h => by simp [h] at hy)]
      · have hdrop : cap - seen.toList.length = 0 := by omega
        rw [push_of_full hroom, hdrop, List.drop_zero, List.drop_zero, List.forall_mem_cons]
        rw [and_iff_left hx, List.count_cons_self]
        constructor
        · intro ⟨hx', hrest⟩
          refine ⟨by rw [List.count_eq_zero.mpr hx'], ?_⟩
          intro y hy
          rw [List.mem_eraseDups, List.mem_filter, Bool.and_eq_true] at hy
          rw [List.count_cons_of_ne (fun h => by simp [h] at hy)]
          exact hrest y (mem_firsts.mpr ⟨hy.1, hy.2.1⟩)
        · intro ⟨hx', hrest⟩
          have hx' : x ∉ xs := List.count_eq_zero.mp (Nat.succ.inj hx')
          refine ⟨hx', ?_⟩
          intro y hy
          obtain ⟨hy, hfresh⟩ := mem_firsts.mp hy
          have hne : y ≠ x := fun h => hx' (h ▸ hy)
          have hcount := hrest y (by
            rw [List.mem_eraseDups, List.mem_filter, hfresh, Bool.true_and, bne_iff_ne]
            exact ⟨hy, hne⟩)
          rw [List.count_cons_of_ne hne.symm] at hcount
          exact hcount

end Walk

/-- Where a second visit changes nothing, the memory makes no difference. -/
theorem foldUnseen_eq {f : β → α → β} {seen : Bounded α cap} {b : β} {xs : List α}
    (hcomm : ∀ b x y, f (f b x) y = f (f b y) x) (hidem : ∀ b x, f (f b x) x = f b x)
    (hseen : ∀ x ∈ seen.toList, f b x = b) : foldUnseen f seen b xs = xs.foldl f b := by
  induction xs generalizing seen b with
  | nil => rfl
  | cons x xs ih =>
    rw [foldUnseen, List.foldl_cons]
    split
    · rename_i hx
      have hx : x ∈ seen.toList := by simpa using hx
      rw [hseen x hx]
      exact ih hseen
    · apply ih
      intro y hy
      rcases mem_push_iff.mp hy with hold | ⟨rfl, _⟩
      · rw [hcomm, hseen y hold]
      · exact hidem b y

end Scratch

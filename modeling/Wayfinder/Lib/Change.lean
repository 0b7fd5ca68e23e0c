import Mathlib.Data.Finset.Image
import Wayfinder.Lib.Run

/-!
# Sets that items join and leave

A set under a run of joins and leaves holds the items whose latest change was a join. Seen
through a function the same changes act on the image of the set, and the image is kept so
long as no item leaves that another one of the set is seen as.
-/

set_option autoImplicit false

structure Change (α : Type) where
  item : α
  joins : Bool
  deriving DecidableEq

namespace Change

open Run

variable {α β : Type} [DecidableEq α] [DecidableEq β] {f : α → β} {s : Finset α}
  {c : Change α} {cs : List (Change α)}

def apply (s : Finset α) (c : Change α) : Finset α :=
  if c.joins then insert c.item s else s.erase c.item

def map (f : α → β) (c : Change α) : Change β := ⟨f c.item, c.joins⟩

/-- The latest change of an item. -/
def latest (cs : List (Change α)) (x : α) : Option (Change α) :=
  (cs.filter fun c => decide (c.item = x)).getLast?

/-- The set, and whether any change so far was one to it. -/
def note (noted : Finset α × Bool) (c : Change α) : Finset α × Bool :=
  (apply noted.1 c, noted.2 || decide (apply noted.1 c ≠ noted.1))

/-- Nothing else of the set is seen as the item that leaves. -/
def Alone (f : α → β) (s : Finset α) (c : Change α) : Prop :=
  c.joins = false → ∀ x ∈ s, f x = f c.item → x = c.item

instance (f : α → β) (s : Finset α) (c : Change α) : Decidable (Alone f s c) :=
  inferInstanceAs (Decidable (c.joins = false → ∀ x ∈ s, f x = f c.item → x = c.item))

/-- The change is none to the set. -/
def Idle (s : Finset α) (c : Change α) : Prop := apply s c = s

instance (s : Finset α) (c : Change α) : Decidable (Idle s c) :=
  inferInstanceAs (Decidable (apply s c = s))

theorem apply_join (h : c.joins = true) : apply s c = insert c.item s := by
  rw [apply, if_pos h]

theorem apply_leave (h : c.joins = false) : apply s c = s.erase c.item := by
  rw [apply, h, if_neg Bool.false_ne_true]

theorem mem_apply {x : α} :
    x ∈ apply s c ↔ if c.item = x then c.joins = true else x ∈ s := by
  cases hjoins : c.joins with
  | true =>
    rw [apply_join hjoins, Finset.mem_insert]
    by_cases hx : c.item = x
    · simp [hx]
    · simp [hx, Ne.symm hx]
  | false =>
    rw [apply_leave hjoins, Finset.mem_erase]
    by_cases hx : c.item = x
    · simp [hx]
    · simp [hx, Ne.symm hx]

theorem latest_append_singleton (x : α) :
    latest (cs ++ [c]) x = if c.item = x then some c else latest cs x := by
  rw [latest, List.filter_append]
  by_cases hx : c.item = x
  · rw [if_pos hx, List.filter_singleton, decide_eq_true hx]
    exact List.getLast?_concat
  · rw [if_neg hx, List.filter_singleton, decide_eq_false hx]
    exact congrArg List.getLast? (List.append_nil _)

/-- What is in the set is what joined when it last changed. -/
theorem mem_run {x : α} :
    x ∈ run apply ∅ cs ↔ (latest cs x).map joins = some true := by
  induction cs using List.reverseRecOn with
  | nil => simp [latest]
  | append_singleton cs c ih =>
    rw [run_append_singleton, mem_apply, latest_append_singleton]
    by_cases hx : c.item = x
    · rw [if_pos hx, if_pos hx]
      simp
    · rw [if_neg hx, if_neg hx]
      exact ih

theorem image_apply (h : Alone f s c) : (apply s c).image f = apply (s.image f) (c.map f) := by
  cases hjoins : c.joins with
  | true =>
    have hmap : (c.map f).joins = true := hjoins
    rw [apply_join hjoins, apply_join hmap]
    exact Finset.image_insert f c.item s
  | false =>
    have hmap : (c.map f).joins = false := hjoins
    rw [apply_leave hjoins, apply_leave hmap]
    ext y
    rw [Finset.mem_image, Finset.mem_erase, Finset.mem_image]
    constructor
    · rintro ⟨x, hx, rfl⟩
      obtain ⟨hne, hmem⟩ := Finset.mem_erase.mp hx
      refine ⟨?_, x, hmem, rfl⟩
      intro heq
      exact hne (h hjoins x hmem heq)
    · rintro ⟨hne, x, hmem, rfl⟩
      refine ⟨x, Finset.mem_erase.mpr ⟨?_, hmem⟩, rfl⟩
      intro heq
      exact hne (by rw [heq, map])

theorem image_run (h : AllSafe apply (Alone f) s cs) :
    (run apply s cs).image f = run apply (s.image f) (cs.map (map f)) := by
  induction cs generalizing s with
  | nil => rfl
  | cons c cs ih =>
    obtain ⟨hc, hcs⟩ := allSafe_cons.mp h
    change (run apply (apply s c) cs).image f =
      run apply (apply (s.image f) (c.map f)) (cs.map (map f))
    rw [ih hcs, image_apply hc]

theorem run_note (b : Bool) :
    run note (s, b) cs = (run apply s cs, b || !decide (AllSafe apply Idle s cs)) := by
  induction cs generalizing s b with
  | nil =>
    have hnil : AllSafe apply Idle s [] := allSafe_nil
    simp [hnil]
  | cons c cs ih =>
    change run note (apply s c, b || decide (apply s c ≠ s)) cs = _
    rw [ih]
    have hcons : AllSafe apply Idle s (c :: cs) ↔
        Idle s c ∧ AllSafe apply Idle (apply s c) cs := allSafe_cons
    refine Prod.ext rfl ?_
    change (b || decide (apply s c ≠ s) || !decide (AllSafe apply Idle (apply s c) cs)) =
      (b || !decide (AllSafe apply Idle s (c :: cs)))
    have hidle : decide (Idle s c) = decide (apply s c = s) := rfl
    rw [decide_eq_decide.mpr hcons, Bool.decide_and, Bool.not_and, Bool.or_assoc, hidle,
      decide_not]

theorem run_of_idle (h : AllSafe apply Idle s cs) : run apply s cs = s := by
  induction cs generalizing s with
  | nil => rfl
  | cons c cs ih =>
    obtain ⟨hc, hcs⟩ := allSafe_cons.mp h
    have hidle : apply s c = s := hc
    change run apply (apply s c) cs = s
    rw [ih hcs, hidle]

end Change

import Mathlib.Data.List.Induction
import Mathlib.Data.List.Nodup

/-!
# Doubly linked lists in a memory of nodes

Every node names the one before it and the one after it, and a sentinel stands for none. The
lemmas say what the memory holds after an element has been taken out, whatever its place, and
after one has been put in front.
-/

namespace Links

set_option autoImplicit false

variable {N : Type} {prev next : N → Nat} {nil : Nat} {mem mem' : Nat → Option N}
  {slots before after : List Nat} {i : Nat}

/-- The nodes of the slots are linked in this order. -/
def Linked (prev next : N → Nat) (nil : Nat) (mem : Nat → Option N) (slots : List Nat) : Prop :=
  ∀ before i after, slots = before ++ i :: after →
    ∃ n, mem i = some n ∧ prev n = before.getLast?.getD nil ∧ next n = after.head?.getD nil

theorem linked_nil : Linked prev next nil mem [] := by
  intro before i after h
  exact absurd h.symm (List.append_ne_nil_of_right_ne_nil _ (List.cons_ne_nil _ _))

theorem Linked.occupied (h : Linked prev next nil mem slots) (hi : i ∈ slots) :
    ∃ n, mem i = some n := by
  obtain ⟨before, after, rfl⟩ := List.append_of_mem hi
  obtain ⟨n, hn, _⟩ := h before i after rfl
  exact ⟨n, hn⟩

theorem Linked.congr (h : Linked prev next nil mem slots) (hsame : ∀ j ∈ slots, mem' j = mem j) :
    Linked prev next nil mem' slots := by
  intro before j after hsplit
  obtain ⟨n, hn, hlinks⟩ := h before j after hsplit
  refine ⟨n, ?_, hlinks⟩
  rw [hsame j (by rw [hsplit]; exact List.mem_append_right _ List.mem_cons_self), hn]

theorem append_split {front back : List Nat} {j : Nat}
    (h : before ++ after = front ++ j :: back) :
    (∃ mid, front = before ++ mid ∧ after = mid ++ j :: back) ∨
      ∃ mid, before = front ++ j :: mid ∧ back = mid ++ after := by
  rcases List.append_eq_append_iff.mp h with ⟨mid, hfront, hafter⟩ | ⟨mid, hbefore, hback⟩
  · exact Or.inl ⟨mid, hfront, hafter⟩
  · cases mid with
    | nil => exact Or.inl ⟨[], by simpa using hbefore.symm, hback.symm⟩
    | cons first mid =>
      obtain ⟨rfl, hrest⟩ := List.cons.inj hback
      exact Or.inr ⟨mid, hbefore, hrest⟩

/-- The neighbours of an element that is taken out name each other. -/
theorem Linked.remove (h : Linked prev next nil mem (before ++ i :: after))
    (hnodup : (before ++ i :: after).Nodup)
    (hmem : ∀ j n, j ∈ before ++ after → mem j = some n → ∃ n', mem' j = some n' ∧
      prev n' = (if after.head? = some j then before.getLast?.getD nil else prev n) ∧
      next n' = if before.getLast? = some j then after.head?.getD nil else next n) :
    Linked prev next nil mem' (before ++ after) := by
  have hdisjoint := (List.nodup_append'.mp hnodup).2.2
  intro front j back hsplit
  have hj : j ∈ before ++ after := by
    rw [hsplit]
    exact List.mem_append_right _ List.mem_cons_self
  rcases append_split hsplit with ⟨mid, hfront, hafter⟩ | ⟨mid, hbefore, hback⟩
  · -- The element is behind the one taken out.
    rw [hafter] at h
    have hold := h (before ++ i :: mid) j back (by simp)
    obtain ⟨n, hn, hprev, hnext⟩ := hold
    obtain ⟨n', hn', hprev', hnext'⟩ := hmem j n hj hn
    have hnot : before.getLast? ≠ some j := by
      intro hlast
      have hmemAfter : j ∈ i :: after := by
        rw [hafter]
        simp
      exact hdisjoint (List.mem_of_getLast? hlast) hmemAfter
    refine ⟨n', hn', ?_, ?_⟩
    · rw [hprev', hfront, hafter]
      cases mid with
      | nil => simp
      | cons first mid =>
        have hne : some first ≠ some j := by
          intro heq
          obtain rfl := Option.some.inj heq
          have hdup : (first :: mid ++ first :: back).Nodup := by
            have hsub := (List.nodup_append'.mp hnodup).2.1
            rw [hafter] at hsub
            exact (List.nodup_cons.mp hsub).2
          exact (List.nodup_append'.mp hdup).2.2 List.mem_cons_self List.mem_cons_self
        have hhead : (first :: mid ++ j :: back).head? = some first := rfl
        rw [hhead, if_neg hne, hprev, List.getLast?_append_cons, List.getLast?_append_cons,
          List.getLast?_cons_cons]
    · rw [hnext', if_neg hnot, hnext]
  · -- The element is before the one taken out.
    rw [hbefore] at h
    have hold := h front j (mid ++ i :: after) (by simp)
    obtain ⟨n, hn, hprev, hnext⟩ := hold
    obtain ⟨n', hn', hprev', hnext'⟩ := hmem j n hj hn
    have hnot : after.head? ≠ some j := by
      intro hhead
      have hmemBefore : j ∈ before := by
        rw [hbefore]
        simp
      exact hdisjoint hmemBefore (List.mem_cons_of_mem _ (List.mem_of_mem_head? hhead))
    refine ⟨n', hn', ?_, ?_⟩
    · rw [hprev', if_neg hnot, hprev]
    · rw [hnext', hbefore, hback]
      cases mid with
      | nil => simp
      | cons first mid =>
        have hne : (front ++ j :: first :: mid).getLast? ≠ some j := by
          intro hlast
          rw [List.getLast?_append_cons, List.getLast?_cons_cons] at hlast
          have hdup : (front ++ j :: first :: mid).Nodup := by
            have hsub := (List.nodup_append'.mp hnodup).1
            rw [hbefore] at hsub
            exact hsub
          have htail := (List.nodup_append'.mp hdup).2.1
          exact (List.nodup_cons.mp htail).1 (List.mem_of_getLast? hlast)
        rw [if_neg hne, hnext]
        rfl

theorem Linked.cons {n : N} (h : Linked prev next nil mem slots) (hnodup : slots.Nodup)
    (hn : mem' i = some n) (hprev : prev n = nil) (hnext : next n = slots.head?.getD nil)
    (hmem : ∀ j n, j ∈ slots → mem j = some n → ∃ n', mem' j = some n' ∧
      prev n' = (if slots.head? = some j then i else prev n) ∧ next n' = next n) :
    Linked prev next nil mem' (i :: slots) := by
  intro front j back hsplit
  cases front with
  | nil =>
    obtain ⟨rfl, rfl⟩ := List.cons.inj hsplit
    exact ⟨n, hn, hprev, hnext⟩
  | cons first front =>
    obtain ⟨rfl, hslots⟩ := List.cons.inj hsplit
    obtain ⟨old, hold, holdPrev, holdNext⟩ := h front j back hslots
    have hj : j ∈ slots := by
      rw [hslots]
      exact List.mem_append_right _ List.mem_cons_self
    obtain ⟨n', hn', hprev', hnext'⟩ := hmem j old hj hold
    refine ⟨n', hn', ?_, hnext'.trans holdNext⟩
    rw [hprev']
    cases front with
    | nil =>
      rw [hslots]
      simp
    | cons second front =>
      have hne : slots.head? ≠ some j := by
        rw [hslots] at hnodup ⊢
        intro hhead
        obtain rfl := Option.some.inj hhead
        exact ((List.nodup_append'.mp hnodup).2.2) List.mem_cons_self List.mem_cons_self
      rw [if_neg hne, holdPrev, List.getLast?_cons_cons]

/-! ### Walking the list -/

/-- The slots that are met from a slot on, when there is an end. -/
def walk (mem : Nat → Option N) (link : N → Nat) (nil : Nat) : Nat → Nat → Option (List Nat)
  | fuel, cur =>
    if cur = nil then some []
    else match fuel with
      | 0 => none
      | fuel + 1 =>
        match mem cur with
        | none => none
        | some n => (walk mem link nil fuel (link n)).map (cur :: ·)

theorem walk_nil (link : N → Nat) (fuel : Nat) : walk mem link nil fuel nil = some [] := by
  unfold walk
  rw [if_pos rfl]

theorem walk_cons {link : N → Nat} {n : N} (hi : i ≠ nil) (hn : mem i = some n) (fuel : Nat) :
    walk mem link nil (fuel + 1) i = (walk mem link nil fuel (link n)).map (i :: ·) := by
  rw [walk, if_neg hi, hn]

theorem walk_next (h : Linked prev next nil mem (before ++ after))
    (hnil : nil ∉ before ++ after) {fuel : Nat} (hfuel : after.length ≤ fuel) :
    walk mem next nil fuel (after.head?.getD nil) = some after := by
  induction after generalizing before fuel with
  | nil => exact walk_nil next fuel
  | cons j after ih =>
    cases fuel with
    | zero => exact absurd hfuel (Nat.not_succ_le_zero _)
    | succ fuel =>
      obtain ⟨n, hn, _, hnext⟩ := h before j after rfl
      have hj : j ≠ nil := by
        rintro rfl
        exact hnil (List.mem_append_right _ List.mem_cons_self)
      have hshift : before ++ j :: after = (before ++ [j]) ++ after := by simp
      rw [hshift] at h hnil
      have hrest := ih h hnil (Nat.le_of_succ_le_succ hfuel)
      change walk mem next nil (fuel + 1) j = _
      rw [walk_cons hj hn, hnext, hrest]
      rfl

theorem walk_prev (h : Linked prev next nil mem (before ++ after))
    (hnil : nil ∉ before ++ after) {fuel : Nat} (hfuel : before.length ≤ fuel) :
    walk mem prev nil fuel (before.getLast?.getD nil) = some before.reverse := by
  induction before using List.reverseRecOn generalizing after fuel with
  | nil => exact walk_nil prev fuel
  | append_singleton before j ih =>
    cases fuel with
    | zero => simp at hfuel
    | succ fuel =>
      have hshift : before ++ [j] ++ after = before ++ j :: after := by simp
      rw [hshift] at h hnil
      obtain ⟨n, hn, hprev, _⟩ := h before j after rfl
      have hj : j ≠ nil := by
        rintro rfl
        exact hnil (List.mem_append_right _ List.mem_cons_self)
      have hlen : before.length ≤ fuel := by
        rw [List.length_append, List.length_singleton] at hfuel
        omega
      have hrest := ih h hnil hlen
      rw [List.getLast?_append_cons, List.reverse_append]
      change walk mem prev nil (fuel + 1) j = _
      rw [walk_cons hj hn, hprev, hrest]
      rfl

end Links

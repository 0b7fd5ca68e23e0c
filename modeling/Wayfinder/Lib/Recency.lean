import Mathlib.Data.List.Nodup
import Wayfinder.Lib.Bounded

/-!
# Maps that forget what was not used for longest

A map of bounded size with its keys in the order of their last use. A use brings a key to the
front. What a full map has no room for is the key at the end.
-/

set_option autoImplicit false

abbrev Recency (K V : Type) (cap : Nat) := Bounded (K × V) cap

namespace Recency

variable {K V : Type} {cap : Nat} [DecidableEq K]

def put (m : Recency K V cap) (k : K) (v : V) : Recency K V cap :=
  ⟨((k, v) :: m.toList.filter fun e => decide (e.1 ≠ k)).take cap, List.length_take_le ..⟩

def get? (m : Recency K V cap) (k : K) : Option V :=
  (m.toList.find? fun e => decide (e.1 = k)).map Prod.snd

/-- A lookup counts as a use. -/
def use (m : Recency K V cap) (k : K) : Option V × Recency K V cap :=
  match m.get? k with
  | none => (none, m)
  | some v => (some v, m.put k v)

def keys (m : Recency K V cap) : List K := m.toList.map Prod.fst

section Put
variable {m : Recency K V cap} {k : K} {v : V} {front back : List (K × V)}

theorem toList_put : (m.put k v).toList =
    ((k, v) :: m.toList.filter fun e => decide (e.1 ≠ k)).take cap := rfl

theorem filter_of_not_mem (h : k ∉ m.keys) :
    (m.toList.filter fun e => decide (e.1 ≠ k)) = m.toList := by
  apply List.filter_eq_self.mpr
  intro e he
  apply decide_eq_true
  rintro rfl
  exact h (List.mem_map_of_mem he)

/-- A key that is there comes to the front, and the others stay in their order. -/
theorem put_of_mem {w : V} (hsplit : m.toList = front ++ (k, w) :: back) (hnodup : m.keys.Nodup) :
    (m.put k v).toList = (k, v) :: (front ++ back) := by
  have hkeys : (front.map Prod.fst ++ k :: back.map Prod.fst).Nodup := by
    unfold keys at hnodup
    rw [hsplit, List.map_append] at hnodup
    exact hnodup
  obtain ⟨hfront, hback, hdisjoint⟩ := List.nodup_append'.mp hkeys
  have hfilter : (m.toList.filter fun e => decide (e.1 ≠ k)) = front ++ back := by
    rw [hsplit, List.filter_append, List.filter_cons_of_neg (by simp)]
    congr 1
    · apply List.filter_eq_self.mpr
      intro e he
      apply decide_eq_true
      rintro rfl
      exact hdisjoint (List.mem_map_of_mem he) List.mem_cons_self
    · apply List.filter_eq_self.mpr
      intro e he
      apply decide_eq_true
      rintro rfl
      exact (List.nodup_cons.mp hback).1 (List.mem_map_of_mem he)
  have hle := m.length_le
  rw [hsplit, List.length_append, List.length_cons] at hle
  rw [toList_put, hfilter]
  apply List.take_of_length_le
  rw [List.length_cons, List.length_append]
  omega

/-- A new key pushes the others back. -/
theorem put_of_room (h : k ∉ m.keys) (hroom : m.toList.length < cap) :
    (m.put k v).toList = (k, v) :: m.toList := by
  rw [toList_put, filter_of_not_mem h]
  exact List.take_of_length_le hroom

/-- A new key pushes the one at the end out of a full map. -/
theorem put_of_full (h : k ∉ m.keys) (hpos : 0 < cap) (hfull : m.toList.length = cap) :
    (m.put k v).toList = (k, v) :: m.toList.dropLast := by
  obtain ⟨n, rfl⟩ := Nat.exists_eq_add_of_lt hpos
  rw [toList_put, filter_of_not_mem h, List.take_succ_cons, List.dropLast_eq_take, hfull]
  rfl

theorem mem_put {e : K × V} (he : e ∈ (m.put k v).toList) :
    e = (k, v) ∨ (e ∈ m.toList ∧ e.1 ≠ k) := by
  rcases List.mem_cons.mp (List.mem_of_mem_take he) with rfl | he
  · exact Or.inl rfl
  · obtain ⟨hmem, hne⟩ := List.mem_filter.mp he
    exact Or.inr ⟨hmem, of_decide_eq_true hne⟩

theorem get?_eq_none : m.get? k = none ↔ k ∉ m.keys := by
  unfold get? keys
  rw [Option.map_eq_none_iff, List.find?_eq_none]
  constructor
  · intro h hmem
    obtain ⟨e, he, heq⟩ := List.mem_map.mp hmem
    exact h e he (decide_eq_true heq)
  · intro h e he heq
    exact h (List.mem_map.mpr ⟨e, he, of_decide_eq_true heq⟩)

theorem mem_of_get? (h : m.get? k = some v) : (k, v) ∈ m.toList := by
  obtain ⟨e, he, rfl⟩ := Option.map_eq_some_iff.mp h
  have hkey := List.find?_some he
  rw [← of_decide_eq_true hkey]
  exact List.mem_of_find?_eq_some he

omit [DecidableEq K] in
theorem exists_split (h : k ∈ m.keys) : ∃ front w back, m.toList = front ++ (k, w) :: back := by
  obtain ⟨⟨_, w⟩, he, rfl⟩ := List.mem_map.mp h
  obtain ⟨front, back, hsplit⟩ := List.append_of_mem he
  exact ⟨front, w, back, hsplit⟩

/-- The key is in front, and has left its place or has pushed the last one out. -/
theorem keys_put (hnodup : m.keys.Nodup) (hpos : 0 < cap) :
    (m.put k v).keys = k :: if k ∈ m.keys then m.keys.erase k
      else if m.toList.length = cap then m.keys.dropLast else m.keys := by
  have hput : (m.put k v).keys = (m.put k v).toList.map Prod.fst := rfl
  by_cases hk : k ∈ m.keys
  · obtain ⟨front, w, back, hsplit⟩ := exists_split hk
    have hmap : m.keys = front.map Prod.fst ++ k :: back.map Prod.fst := by
      unfold keys
      rw [hsplit, List.map_append, List.map_cons]
    have hfront : k ∉ front.map Prod.fst := by
      rw [hmap] at hnodup
      intro hmem
      exact (List.nodup_append'.mp hnodup).2.2 hmem List.mem_cons_self
    rw [hput, put_of_mem hsplit hnodup, if_pos hk, hmap, List.erase_append_right _ hfront,
      List.erase_cons_head, List.map_cons, List.map_append]
  · rw [if_neg hk]
    by_cases hfull : m.toList.length = cap
    · rw [hput, put_of_full hk hpos hfull, if_pos hfull, List.map_cons, List.map_dropLast]
      rfl
    · have hroom : m.toList.length < cap := Nat.lt_of_le_of_ne m.length_le hfull
      rw [hput, put_of_room hk hroom, if_neg hfull, List.map_cons]
      rfl

/-- The only key that a new one makes room for is the one at the end of a full map. -/
theorem forgotten_by_put (hnodup : m.keys.Nodup) (hpos : 0 < cap) {other : K}
    (hmem : other ∈ m.keys) (hgone : other ∉ (m.put k v).keys) :
    k ∉ m.keys ∧ m.toList.length = cap ∧ m.keys.getLast? = some other := by
  rw [keys_put hnodup hpos, List.mem_cons, not_or] at hgone
  obtain ⟨hne, hgone⟩ := hgone
  split at hgone
  · exact absurd ((List.mem_erase_of_ne hne).mpr hmem) hgone
  · rename_i hk
    split at hgone
    · rename_i hfull
      refine ⟨hk, hfull, ?_⟩
      have hne : m.keys ≠ [] := List.ne_nil_of_mem hmem
      rw [← List.dropLast_append_getLast hne, List.mem_append] at hmem
      rw [List.getLast?_eq_some_getLast hne]
      rcases hmem with hmem | hmem
      · exact absurd hmem hgone
      · rw [List.mem_singleton.mp hmem]
    · exact absurd hmem hgone

theorem get?_of_split {w : V} (hsplit : m.toList = front ++ (k, w) :: back)
    (hnodup : m.keys.Nodup) : m.get? k = some w := by
  have hfront : ∀ e ∈ front, (!decide (e.1 = k)) = true := by
    intro e he
    rw [Bool.not_eq_true']
    apply decide_eq_false
    rintro rfl
    unfold keys at hnodup
    rw [hsplit, List.map_append] at hnodup
    exact (List.nodup_append'.mp hnodup).2.2 (List.mem_map_of_mem he) List.mem_cons_self
  have hfind : m.toList.find? (fun e => decide (e.1 = k)) = some (k, w) :=
    List.find?_eq_some_iff_append.mpr ⟨decide_eq_true rfl, front, back, hsplit, hfront⟩
  unfold get?
  rw [hfind]
  rfl

end Put

end Recency

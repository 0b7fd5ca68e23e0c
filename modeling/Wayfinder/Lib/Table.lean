import Mathlib.Data.List.Induction
import Mathlib.Data.List.Nodup
import Mathlib.Data.List.Perm.Basic

/-!
# Bounded insertion-ordered tables

Fixed-capacity containers for code that never allocates: a vector with at most
`n` elements, and a map whose entries are kept in insertion order with distinct
keys. The bounds and the distinctness are fields, so no operation can break them.

Insertion appends, or replaces in place when the key is present, and is refused
when the table is full. Removal moves the last entry into the hole.
-/

namespace Table

set_option autoImplicit false

variable {α : Type}

/-- The last of the elements with the largest key. -/
def maxByKey (f : α → Nat) (l : List α) : Option α :=
  l.foldl (fun best x =>
    match best with
    | none => some x
    | some b => if f b ≤ f x then some x else some b) none

/-- The first of the elements with the smallest key. -/
def minByKey (f : α → Nat) (l : List α) : Option α :=
  l.foldl (fun best x =>
    match best with
    | none => some x
    | some b => if f x < f b then some x else some b) none

/-- Remove index `i` by moving the last element there. -/
def swapRemove (l : List α) (i : Nat) : List α :=
  match l.getLast? with
  | none => []
  | some x => (l.set i x).dropLast

section MaxByKey
variable {f : α → Nat}

theorem maxByKey_append_singleton (l : List α) (x : α) :
    maxByKey f (l ++ [x]) = match maxByKey f l with
      | none => some x
      | some b => if f b ≤ f x then some x else some b := by
  simp [maxByKey]

theorem maxByKey_isSome {l : List α} (h : l ≠ []) : ∃ x, maxByKey f l = some x := by
  cases l using List.reverseRecOn with
  | nil => exact absurd rfl h
  | append_singleton l z =>
    rw [maxByKey_append_singleton]
    cases maxByKey f l with
    | none => exact ⟨z, rfl⟩
    | some b =>
      dsimp only
      split
      · exact ⟨z, rfl⟩
      · exact ⟨b, rfl⟩

theorem eq_nil_of_maxByKey_eq_none {l : List α} (h : maxByKey f l = none) : l = [] := by
  by_contra hne
  obtain ⟨x, hx⟩ := maxByKey_isSome (f := f) hne
  simp [h] at hx

theorem maxByKey_spec {l : List α} {x : α} (h : maxByKey f l = some x) :
    x ∈ l ∧ ∀ y ∈ l, f y ≤ f x := by
  induction l using List.reverseRecOn generalizing x with
  | nil => simp [maxByKey] at h
  | append_singleton l z ih =>
    rw [maxByKey_append_singleton] at h
    cases hl : maxByKey f l with
    | none =>
      obtain rfl := eq_nil_of_maxByKey_eq_none hl
      simp only [hl, Option.some.injEq] at h
      subst h
      simp
    | some b =>
      obtain ⟨hb, hmax⟩ := ih hl
      simp only [hl] at h
      split at h
      · rename_i hle
        obtain rfl := Option.some.inj h
        refine ⟨by simp, ?_⟩
        intro y hy
        rcases List.mem_append.mp hy with hy | hy
        · exact Nat.le_trans (hmax y hy) hle
        · exact Nat.le_of_eq (congrArg f (List.mem_singleton.mp hy))
      · rename_i hlt
        obtain rfl := Option.some.inj h
        refine ⟨List.mem_append_left _ hb, ?_⟩
        intro y hy
        rcases List.mem_append.mp hy with hy | hy
        · exact hmax y hy
        · rw [List.mem_singleton.mp hy]
          omega

/-- Choosing among images is choosing among what they are images of. -/
theorem maxByKey_map {β : Type} {g : β → Nat} {h : α → β} (hkey : ∀ x, g (h x) = f x)
    (l : List α) : maxByKey g (l.map h) = (maxByKey f l).map h := by
  induction l using List.reverseRecOn with
  | nil => rfl
  | append_singleton l x ih =>
    rw [List.map_append, List.map_singleton, maxByKey_append_singleton, maxByKey_append_singleton,
      ih]
    cases maxByKey f l with
    | none => rfl
    | some b =>
      simp only [Option.map_some, hkey]
      split <;> rfl

theorem minByKey_append_singleton (l : List α) (x : α) :
    minByKey f (l ++ [x]) = match minByKey f l with
      | none => some x
      | some b => if f x < f b then some x else some b := by
  simp [minByKey]

theorem mem_of_minByKey {l : List α} {x : α} (h : minByKey f l = some x) : x ∈ l := by
  induction l using List.reverseRecOn generalizing x with
  | nil => cases h
  | append_singleton l z ih =>
    rw [minByKey_append_singleton] at h
    cases hbest : minByKey f l with
    | none =>
      rw [hbest] at h
      obtain rfl := Option.some.inj h
      exact List.mem_append_right l List.mem_cons_self
    | some b =>
      rw [hbest] at h
      dsimp only at h
      split at h
      · obtain rfl := Option.some.inj h
        exact List.mem_append_right l List.mem_cons_self
      · obtain rfl := Option.some.inj h
        exact List.mem_append_left _ (ih hbest)

/-- Where all keys are the same, the first element is the pick. -/
theorem minByKey_of_const {l : List α} {k : Nat} (h : ∀ x ∈ l, f x = k) :
    minByKey f l = l.head? := by
  induction l using List.reverseRecOn with
  | nil => rfl
  | append_singleton l z ih =>
    obtain ⟨hl, hz⟩ := List.forall_mem_append.mp h
    rw [minByKey_append_singleton, ih hl]
    cases l with
    | nil => rfl
    | cons first l =>
      have hfirst := hl first List.mem_cons_self
      have hlast := hz z (List.mem_singleton_self z)
      simp [hfirst, hlast]

theorem minByKey_map {β : Type} {g : β → Nat} {h : α → β} (hkey : ∀ x, g (h x) = f x)
    (l : List α) : minByKey g (l.map h) = (minByKey f l).map h := by
  unfold minByKey
  rw [List.foldl_map]
  suffices hfold : ∀ best : Option α,
      l.foldl (fun best x => match best with
        | none => some (h x)
        | some b => if g (h x) < g b then some (h x) else some b) (best.map h) =
      (l.foldl (fun best x => match best with
        | none => some x
        | some b => if f x < f b then some x else some b) best).map h from hfold none
  induction l with
  | nil => exact fun best => rfl
  | cons x l ih =>
    intro best
    rw [List.foldl_cons, List.foldl_cons, ← ih]
    cases best with
    | none => rfl
    | some b =>
      simp only [Option.map_some, hkey]
      split <;> rfl

end MaxByKey

theorem swapRemove_map {β : Type} (h : α → β) (l : List α) (i : Nat) :
    swapRemove (l.map h) i = (swapRemove l i).map h := by
  unfold swapRemove
  rw [List.getLast?_map]
  cases l.getLast? with
  | none => rfl
  | some x => simp only [Option.map_some, List.map_set, List.map_dropLast]

theorem swapRemove_perm {l : List α} {i : Nat} (hi : i < l.length) :
    (swapRemove l i).Perm (l.eraseIdx i) := by
  cases l using List.reverseRecOn with
  | nil => simp at hi
  | append_singleton l x =>
    simp only [swapRemove, List.getLast?_append, List.getLast?_singleton, Option.some_or]
    rcases Nat.lt_or_ge i l.length with hlt | hge
    · rw [List.set_append_left _ _ hlt, List.dropLast_concat,
        List.eraseIdx_append_of_lt_length hlt]
      exact (List.set_perm_cons_eraseIdx hlt x).trans (List.perm_append_singleton x _).symm
    · have heq : i = l.length := by
        simp at hi
        omega
      subst heq
      rw [List.eraseIdx_append_of_length_le (Nat.le_refl _)]
      simp

/-- Where keys are distinct, removing an element leaves the elements with other keys. -/
theorem mem_swapRemove {K : Type} {key : α → K} {l : List α} (hnodup : (l.map key).Nodup)
    {i : Nat} (hi : i < l.length) {x : α} :
    x ∈ swapRemove l i ↔ x ∈ l ∧ key x ≠ key l[i] := by
  have hperm := List.getElem_cons_eraseIdx_perm hi
  have hcons := (hperm.map key).nodup_iff.mpr hnodup
  rw [List.map_cons, List.nodup_cons] at hcons
  rw [(swapRemove_perm hi).mem_iff, ← hperm.mem_iff, List.mem_cons]
  constructor
  · intro hx
    refine ⟨Or.inr hx, ?_⟩
    intro hkey
    exact hcons.1 (hkey ▸ List.mem_map_of_mem hx)
  · rintro ⟨rfl | hx, hne⟩
    · exact absurd rfl hne
    · exact hx

theorem nodup_swapRemove {K : Type} {key : α → K} {l : List α} (hnodup : (l.map key).Nodup)
    {i : Nat} (hi : i < l.length) : ((swapRemove l i).map key).Nodup := by
  have hperm := (swapRemove_perm hi).map key
  exact hperm.nodup_iff.mpr (hnodup.sublist ((List.eraseIdx_sublist l i).map key))

theorem length_swapRemove {l : List α} {i : Nat} (hi : i < l.length) :
    (swapRemove l i).length + 1 = l.length := by
  rw [(swapRemove_perm hi).length_eq]
  exact List.length_eraseIdx_add_one hi

/-- Removing the element a key is found at leaves the elements with other keys. -/
theorem mem_swapRemove_findIdx {K : Type} [DecidableEq K] {key : α → K} {l : List α}
    (hnodup : (l.map key).Nodup) {k : K} (hi : l.findIdx (fun x => key x = k) < l.length) {x : α} :
    x ∈ swapRemove l (l.findIdx fun x => key x = k) ↔ x ∈ l ∧ key x ≠ k := by
  have hkey : key l[l.findIdx fun x => key x = k] = k := by
    simpa using List.findIdx_getElem (p := fun x : α => decide (key x = k)) (w := hi)
  rw [mem_swapRemove hnodup hi, hkey]

theorem key_ne_of_findIdx {K : Type} [DecidableEq K] {key : α → K} {l : List α} {k : K}
    (hi : ¬ l.findIdx (fun x => key x = k) < l.length) {x : α} (hx : x ∈ l) : key x ≠ k :=
  fun hk => hi (List.findIdx_lt_length_of_exists ⟨x, hx, by simpa using hk⟩)

/-! ### Bounded vectors -/

structure BoundedVec (α : Type) (n : Nat) where
  toList : List α
  bounded : toList.length ≤ n
  deriving DecidableEq

namespace BoundedVec

variable {n : Nat}

def empty : BoundedVec α n := ⟨[], Nat.zero_le n⟩

def push (v : BoundedVec α n) (x : α) : Option (BoundedVec α n) :=
  if h : v.toList.length < n then some ⟨v.toList ++ [x], by rw [List.length_append]; exact h⟩ else none

/-- A push whose failure is ignored. -/
def pushD (v : BoundedVec α n) (x : α) : BoundedVec α n := (v.push x).getD v

def retain (v : BoundedVec α n) (keep : α → Bool) : BoundedVec α n :=
  ⟨v.toList.filter keep, Nat.le_trans (List.length_filter_le _ _) v.bounded⟩

def map (v : BoundedVec α n) (f : α → α) : BoundedVec α n :=
  ⟨v.toList.map f, by simpa using v.bounded⟩

@[simp] theorem empty_toList : (empty : BoundedVec α n).toList = [] := rfl

@[simp] theorem retain_toList (v : BoundedVec α n) (keep : α → Bool) :
    (v.retain keep).toList = v.toList.filter keep := rfl

@[simp] theorem map_toList (v : BoundedVec α n) (f : α → α) :
    (v.map f).toList = v.toList.map f := rfl

theorem pushD_of_lt {v : BoundedVec α n} (h : v.toList.length < n) (x : α) :
    (v.pushD x).toList = v.toList ++ [x] := by
  simp [pushD, push, h]

theorem pushD_of_not_lt {v : BoundedVec α n} (h : ¬ v.toList.length < n) (x : α) :
    v.pushD x = v := by
  simp [pushD, push, h]

theorem eq_of_toList {v v' : BoundedVec α n} (h : v.toList = v'.toList) : v = v' := by
  cases v
  cases v'
  obtain rfl := h
  rfl

theorem retain_map {v : BoundedVec α n} {f : α → α} {keep keep' : α → Bool}
    (h : ∀ x, keep' (f x) = keep x) : (v.map f).retain keep' = (v.retain keep).map f := by
  apply eq_of_toList
  simp [List.filter_map, Function.comp_def, h]

theorem map_comm {v : BoundedVec α n} {f g g' : α → α} (h : ∀ x, g' (f x) = f (g x)) :
    (v.map f).map g' = (v.map g).map f := by
  apply eq_of_toList
  simp [h]

theorem pushD_map {v : BoundedVec α n} {f : α → α} (x : α) :
    (v.map f).pushD (f x) = (v.pushD x).map f := by
  apply eq_of_toList
  by_cases h : v.toList.length < n
  · rw [pushD_of_lt (by simpa using h), map_toList, map_toList, pushD_of_lt h, List.map_append,
      List.map_singleton]
  · rw [pushD_of_not_lt (by simpa using h), pushD_of_not_lt h]

end BoundedVec

/-! ### Insertion-ordered maps -/

structure IndexMap (K V : Type) (n : Nat) where
  entries : List (K × V)
  nodup : (entries.map Prod.fst).Nodup
  bounded : entries.length ≤ n
  deriving DecidableEq

namespace IndexMap

variable {K V : Type} {n : Nat}

def empty : IndexMap K V n := ⟨[], List.nodup_nil, Nat.zero_le n⟩

def keys (m : IndexMap K V n) : List K := m.entries.map Prod.fst

def values (m : IndexMap K V n) : List V := m.entries.map Prod.snd

def len (m : IndexMap K V n) : Nat := m.entries.length

/-- Rewrite every value, keys and order unchanged. -/
def mapEntries (m : IndexMap K V n) (f : K → V → V) : IndexMap K V n where
  entries := m.entries.map fun e => (e.1, f e.1 e.2)
  nodup := by simpa [Function.comp_def] using m.nodup
  bounded := by simpa using m.bounded

def retain (m : IndexMap K V n) (keep : K → V → Bool) : IndexMap K V n where
  entries := m.entries.filter fun e => keep e.1 e.2
  nodup := m.nodup.sublist (List.filter_sublist.map Prod.fst)
  bounded := Nat.le_trans (List.length_filter_le _ _) m.bounded

theorem swapRemove_entries_nodup (m : IndexMap K V n) {i : Nat} (hi : i < m.entries.length) :
    ((swapRemove m.entries i).map Prod.fst).Nodup :=
  nodup_swapRemove m.nodup hi

variable [DecidableEq K]

def get? (m : IndexMap K V n) (k : K) : Option V :=
  (m.entries.find? fun e => e.1 = k).map Prod.snd

def contains (m : IndexMap K V n) (k : K) : Bool := m.entries.any fun e => e.1 = k

/-- Update the value under `k`, if there is one. -/
def modify (m : IndexMap K V n) (k : K) (f : V → V) : IndexMap K V n :=
  m.mapEntries fun k' v => if k' = k then f v else v

theorem contains_iff {m : IndexMap K V n} {k : K} : m.contains k = true ↔ k ∈ m.keys := by
  simp [contains, keys]

theorem not_mem_keys {m : IndexMap K V n} {k : K} (h : m.contains k = false) : k ∉ m.keys := by
  intro hk
  simp [contains_iff.mpr hk] at h

def insert (m : IndexMap K V n) (k : K) (v : V) : Option (IndexMap K V n) :=
  if hk : m.contains k = true then some (m.modify k fun _ => v)
  else if h : m.entries.length < n then
    some {
      entries := m.entries ++ [(k, v)]
      nodup := by
        rw [List.map_append]
        refine m.nodup.append (List.nodup_singleton k) ?_
        exact List.disjoint_singleton.mpr (not_mem_keys (Bool.eq_false_iff.mpr hk))
      bounded := by
        rw [List.length_append]
        exact h }
  else none

/-- An insertion whose failure is ignored. -/
def insertD (m : IndexMap K V n) (k : K) (v : V) : IndexMap K V n := (m.insert k v).getD m

/-- Remove a key; the last entry takes its place. -/
def remove (m : IndexMap K V n) (k : K) : IndexMap K V n :=
  if h : m.entries.findIdx (fun e => e.1 = k) < m.entries.length then
    { entries := swapRemove m.entries (m.entries.findIdx fun e => e.1 = k)
      nodup := m.swapRemove_entries_nodup h
      bounded := by
        have hlength := length_swapRemove h
        have hbounded := m.bounded
        omega }
  else m

/-! What each operation does to the entries, and to a lookup. -/

section Entries
variable {m m' : IndexMap K V n} {k : K} {v : V}

omit [DecidableEq K] in
theorem eq_of_mem {v' : V} (h : (k, v) ∈ m.entries) (h' : (k, v') ∈ m.entries) : v = v' := by
  have hinj := List.inj_on_of_nodup_map m.nodup h h' rfl
  exact congrArg Prod.snd hinj

theorem get?_eq_some_iff : m.get? k = some v ↔ (k, v) ∈ m.entries := by
  constructor
  · intro h
    obtain ⟨e, he, rfl⟩ := Option.map_eq_some_iff.mp h
    have hk : e.1 = k := by simpa using List.find?_some he
    rw [← hk]
    exact List.mem_of_find?_eq_some he
  · intro h
    cases hf : m.get? k with
    | none =>
      have hnone := List.find?_eq_none.mp (Option.map_eq_none_iff.mp hf) _ h
      simp at hnone
    | some w =>
      obtain ⟨e, he, rfl⟩ := Option.map_eq_some_iff.mp hf
      have hk : e.1 = k := by simpa using List.find?_some he
      have hmem : (k, e.2) ∈ m.entries := by
        rw [← hk]
        exact List.mem_of_find?_eq_some he
      rw [eq_of_mem h hmem]

theorem get?_eq_none_iff : m.get? k = none ↔ k ∉ m.keys := by
  rw [Option.eq_none_iff_forall_ne_some]
  simp only [ne_eq, get?_eq_some_iff, keys, List.mem_map, Prod.exists, exists_and_right,
    exists_eq_right, not_exists]

omit [DecidableEq K] in
theorem mem_mapEntries {f : K → V → V} {e : K × V} :
    e ∈ (m.mapEntries f).entries ↔ ∃ v, (e.1, v) ∈ m.entries ∧ e.2 = f e.1 v := by
  constructor
  · intro h
    obtain ⟨e', he', rfl⟩ := List.mem_map.mp h
    exact ⟨e'.2, he', rfl⟩
  · rintro ⟨v, hv, heq⟩
    exact List.mem_map.mpr ⟨(e.1, v), hv, by rw [← heq]⟩

omit [DecidableEq K] in
theorem mem_retain {keep : K → V → Bool} {e : K × V} :
    e ∈ (m.retain keep).entries ↔ e ∈ m.entries ∧ keep e.1 e.2 = true := List.mem_filter

theorem mem_remove {e : K × V} :
    e ∈ (m.remove k).entries ↔ e ∈ m.entries ∧ e.1 ≠ k := by
  unfold remove
  split
  · rename_i hi
    exact mem_swapRemove_findIdx m.nodup hi
  · rename_i hi
    exact ⟨fun he => ⟨he, key_ne_of_findIdx hi he⟩, fun h => h.1⟩

theorem mem_modify {f : V → V} {e : K × V} :
    e ∈ (m.modify k f).entries ↔
      (e.1 ≠ k ∧ e ∈ m.entries) ∨ (e.1 = k ∧ ∃ v, (k, v) ∈ m.entries ∧ e.2 = f v) := by
  obtain ⟨a, b⟩ := e
  rw [modify, mem_mapEntries]
  dsimp only
  by_cases hk : a = k
  · subst hk
    simp
  · simp [hk]

theorem mem_insert (h : m.insert k v = some m') {e : K × V} :
    e ∈ m'.entries ↔ (e.1 ≠ k ∧ e ∈ m.entries) ∨ e = (k, v) := by
  unfold insert at h
  split at h
  · rename_i hk
    obtain rfl := Option.some.inj h
    obtain ⟨⟨k', w⟩, hw, rfl⟩ := List.mem_map.mp (contains_iff.mp hk)
    rw [mem_modify]
    constructor
    · rintro (hne | ⟨heq, _, _, hv⟩)
      · exact Or.inl hne
      · exact Or.inr (Prod.ext heq hv)
    · rintro (hne | rfl)
      · exact Or.inl hne
      · exact Or.inr ⟨rfl, w, hw, rfl⟩
  · rename_i hk
    have hnot := not_mem_keys (Bool.eq_false_iff.mpr hk)
    split at h
    · obtain rfl := Option.some.inj h
      simp only [List.mem_append, List.mem_singleton]
      constructor
      · rintro (he | rfl)
        · refine Or.inl ⟨?_, he⟩
          rintro rfl
          exact hnot (List.mem_map_of_mem he)
        · exact Or.inr rfl
      · rintro (⟨_, he⟩ | rfl)
        · exact Or.inl he
        · exact Or.inr rfl
    · simp at h

theorem insert_isSome (h : m.contains k = true ∨ m.len < n) : ∃ m', m.insert k v = some m' := by
  unfold insert
  split
  · exact ⟨_, rfl⟩
  · rename_i hk
    rcases h with h | h
    · exact absurd h hk
    · rw [dif_pos (by exact h)]
      exact ⟨_, rfl⟩

theorem insert_eq_none (h : m.insert k v = none) : m.contains k = false ∧ m.len = n := by
  have hb := m.bounded
  unfold insert at h
  split at h
  · simp at h
  · rename_i hk
    split at h
    · simp at h
    · rename_i hlt
      exact ⟨Bool.eq_false_iff.mpr hk, by unfold len; omega⟩

theorem mem_insertD {e : K × V} (h : e ∈ (m.insertD k v).entries) :
    (e.1 ≠ k ∧ e ∈ m.entries) ∨ e = (k, v) := by
  unfold insertD at h
  cases hm : m.insert k v with
  | none =>
    rw [hm] at h
    refine Or.inl ⟨?_, h⟩
    rintro rfl
    exact not_mem_keys (insert_eq_none hm).1 (List.mem_map_of_mem h)
  | some m' =>
    rw [hm] at h
    exact (mem_insert hm).mp h

@[simp] theorem get?_empty (k : K) : (empty : IndexMap K V n).get? k = none := rfl

theorem get?_mapEntries (f : K → V → V) : (m.mapEntries f).get? k = (m.get? k).map (f k) := by
  apply Option.ext
  intro v
  rw [get?_eq_some_iff, mem_mapEntries, Option.map_eq_some_iff]
  simp only [get?_eq_some_iff, @eq_comm _ v]

theorem get?_modify (f : V → V) (k' : K) :
    (m.modify k f).get? k' = if k' = k then (m.get? k).map f else m.get? k' := by
  rw [modify, get?_mapEntries]
  split
  · rename_i hk
    rw [hk]
  · simp

theorem get?_remove (k' : K) :
    (m.remove k).get? k' = if k' = k then none else m.get? k' := by
  apply Option.ext
  intro v
  rw [get?_eq_some_iff, mem_remove]
  split
  · rename_i hk
    simp [hk]
  · rename_i hk
    simp [hk, get?_eq_some_iff]

theorem get?_retain (keep : K → V → Bool) :
    (m.retain keep).get? k = (m.get? k).filter (keep k) := by
  apply Option.ext
  intro v
  rw [get?_eq_some_iff, mem_retain, Option.filter_eq_some_iff, get?_eq_some_iff]

theorem get?_insert (h : m.insert k v = some m') (k' : K) :
    m'.get? k' = if k' = k then some v else m.get? k' := by
  apply Option.ext
  intro w
  rw [get?_eq_some_iff, mem_insert h]
  split
  · rename_i hk
    subst hk
    simp [eq_comm]
  · rename_i hk
    simp [hk, get?_eq_some_iff]

theorem contains_eq_isSome : m.contains k = (m.get? k).isSome := by
  cases hg : m.get? k with
  | none =>
    rw [get?_eq_none_iff] at hg
    exact Bool.eq_false_iff.mpr fun hc => hg (contains_iff.mp hc)
  | some v =>
    exact contains_iff.mpr (List.mem_map_of_mem (get?_eq_some_iff.mp hg))

/-- Every value of the table has the property. -/
def All (P : V → Prop) (m : IndexMap K V n) : Prop := ∀ k v, (k, v) ∈ m.entries → P v

variable {P : V → Prop}

omit [DecidableEq K] in
theorem all_empty : All P (empty : IndexMap K V n) := by
  intro k v h
  simp [empty] at h

omit [DecidableEq K] in
theorem All.mapEntries (h : All P m) {f : K → V → V} (hf : ∀ k v, P v → P (f k v)) :
    All P (m.mapEntries f) := by
  intro k v hv
  obtain ⟨w, hw, heq⟩ := mem_mapEntries.mp hv
  dsimp only at heq
  rw [heq]
  exact hf k w (h k w hw)

omit [DecidableEq K] in
theorem All.retain (h : All P m) (keep : K → V → Bool) : All P (m.retain keep) :=
  fun k v hv => h k v (mem_retain.mp hv).1

theorem All.remove (h : All P m) (k : K) : All P (m.remove k) :=
  fun k' v hv => h k' v (mem_remove.mp hv).1

theorem All.insertD (h : All P m) (k : K) (hv : P v) : All P (m.insertD k v) := by
  intro k' w hw
  rcases mem_insertD hw with ⟨_, hmem⟩ | heq
  · exact h k' w hmem
  · obtain ⟨rfl, rfl⟩ := Prod.mk.inj heq
    exact hv

theorem All.modify (h : All P m) (k : K) {f : V → V} (hf : ∀ v, m.get? k = some v → P (f v)) :
    All P (m.modify k f) := by
  intro k' w hw
  rcases mem_modify.mp hw with ⟨_, hmem⟩ | ⟨_, v, hv, rfl⟩
  · exact h k' w hmem
  · exact hf v (get?_eq_some_iff.mpr hv)

end Entries

/-! A rewriting of every value goes past every operation whose own values are rewritten
with it. -/

section Rewriting
variable {m m' : IndexMap K V n} {k : K} {v : V} (f : K → V → V)

omit [DecidableEq K] in
theorem eq_of_entries (h : m.entries = m'.entries) : m = m' := by
  cases m
  cases m'
  obtain rfl := h
  rfl

omit [DecidableEq K] in
@[simp] theorem mapEntries_empty : (empty : IndexMap K V n).mapEntries f = empty := rfl

omit [DecidableEq K] in
@[simp] theorem keys_mapEntries : (m.mapEntries f).keys = m.keys := by
  simp [keys, mapEntries]

omit [DecidableEq K] in
@[simp] theorem len_mapEntries : (m.mapEntries f).len = m.len := by
  simp [len, mapEntries]

@[simp] theorem contains_mapEntries : (m.mapEntries f).contains k = m.contains k := by
  rw [contains_eq_isSome, contains_eq_isSome, get?_mapEntries, Option.isSome_map]

omit [DecidableEq K] in
theorem mapEntries_mapEntries (g : K → V → V) :
    (m.mapEntries f).mapEntries g = m.mapEntries fun k v => g k (f k v) := by
  apply eq_of_entries
  simp [mapEntries]

omit [DecidableEq K] in
/-- Two rewritings that commute. -/
theorem mapEntries_comm {g g' : K → V → V} (h : ∀ k v, g' k (f k v) = f k (g k v)) :
    (m.mapEntries f).mapEntries g' = (m.mapEntries g).mapEntries f := by
  rw [mapEntries_mapEntries, mapEntries_mapEntries]
  simp only [h]

omit [DecidableEq K] in
theorem retain_mapEntries {keep keep' : K → V → Bool} (h : ∀ k v, keep' k (f k v) = keep k v) :
    (m.mapEntries f).retain keep' = (m.retain keep).mapEntries f := by
  apply eq_of_entries
  simp [mapEntries, retain, List.filter_map, Function.comp_def, h]

theorem modify_mapEntries {g g' : V → V} (h : ∀ v, g' (f k v) = f k (g v)) :
    (m.mapEntries f).modify k g' = (m.modify k g).mapEntries f := by
  apply mapEntries_comm
  intro k' v
  split
  · rename_i hk
    rw [hk, h]
  · rfl

theorem remove_mapEntries : (m.mapEntries f).remove k = (m.remove k).mapEntries f := by
  have hidx : (m.mapEntries f).entries.findIdx (fun e => e.1 = k) =
      m.entries.findIdx fun e => e.1 = k := by
    simp [mapEntries, List.findIdx_map, Function.comp_def]
  have hlen : (m.mapEntries f).entries.length = m.entries.length := len_mapEntries f
  apply eq_of_entries
  by_cases h : m.entries.findIdx (fun e => e.1 = k) < m.entries.length
  · simp only [remove, dif_pos (show (m.mapEntries f).entries.findIdx (fun e => e.1 = k) <
      (m.mapEntries f).entries.length by rw [hidx, hlen]; exact h), dif_pos h]
    rw [hidx]
    exact swapRemove_map _ _ _
  · simp only [remove, dif_neg (show ¬ (m.mapEntries f).entries.findIdx (fun e => e.1 = k) <
      (m.mapEntries f).entries.length by rw [hidx, hlen]; exact h), dif_neg h]

theorem insert_mapEntries :
    (m.mapEntries f).insert k (f k v) = (m.insert k v).map fun m => m.mapEntries f := by
  have hlen : (m.mapEntries f).entries.length = m.entries.length := len_mapEntries f
  by_cases hk : m.contains k = true
  · simp only [insert, contains_mapEntries, dif_pos hk, Option.map_some, Option.some.injEq]
    exact modify_mapEntries f fun _ => rfl
  · by_cases h : m.entries.length < n
    · simp only [insert, contains_mapEntries, dif_neg hk, dif_pos h,
        dif_pos (show (m.mapEntries f).entries.length < n by rw [hlen]; exact h), Option.map_some,
        Option.some.injEq]
      apply eq_of_entries
      simp [mapEntries]
    · simp only [insert, contains_mapEntries, dif_neg hk, dif_neg h,
        dif_neg (show ¬ (m.mapEntries f).entries.length < n by rw [hlen]; exact h),
        Option.map_none]

theorem insertD_mapEntries : (m.mapEntries f).insertD k (f k v) = (m.insertD k v).mapEntries f := by
  unfold insertD
  rw [insert_mapEntries]
  cases m.insert k v <;> rfl

omit f in
theorem get?_insertD_self :
    (m.insertD k v).get? k = if m.contains k = true ∨ m.len < n then some v else none := by
  unfold insertD
  by_cases h : m.contains k = true ∨ m.len < n
  · obtain ⟨m', hm'⟩ := insert_isSome (v := v) h
    rw [hm', if_pos h, Option.getD_some, get?_insert hm', if_pos rfl]
  · rw [if_neg h]
    cases hm : m.insert k v with
    | none =>
      rw [Option.getD_none, get?_eq_none_iff]
      exact not_mem_keys (insert_eq_none hm).1
    | some m' =>
      refine absurd ?_ h
      unfold insert at hm
      split at hm
      · rename_i hk
        exact Or.inl hk
      split at hm
      · rename_i hlt
        exact Or.inr hlt
      · cases hm

omit f in
theorem insertD_of_full (h : ¬ (m.contains k = true ∨ m.len < n)) : m.insertD k v = m := by
  obtain ⟨hk, hlen⟩ := not_or.mp h
  unfold len at hlen
  unfold insertD insert
  rw [dif_neg hk, dif_neg hlen, Option.getD_none]

omit f in
theorem modify_entries_of_not_contains (h : m.contains k = false) (g : V → V) :
    m.entries.map (fun e => (e.1, if e.1 = k then g e.2 else e.2)) = m.entries := by
  calc m.entries.map (fun e => (e.1, if e.1 = k then g e.2 else e.2)) = m.entries.map id := by
        apply List.map_congr_left
        intro e he
        have hother : e.1 ≠ k := by
          rintro rfl
          exact not_mem_keys h (List.mem_map_of_mem he)
        rw [if_neg hother]
        rfl
    _ = m.entries := List.map_id _

omit f in
/-- Writing a value just inserted is inserting the value written. -/
theorem modify_insertD (w : V) : (m.insertD k v).modify k (fun _ => w) = m.insertD k w := by
  unfold insertD insert
  split
  · simp only [Option.getD_some]
    unfold modify
    rw [mapEntries_mapEntries]
    congr 1
    funext k' v'
    split <;> rfl
  · rename_i hk
    have hentries := modify_entries_of_not_contains (Bool.eq_false_iff.mpr hk) fun _ => w
    split
    · apply eq_of_entries
      simp only [Option.getD_some, modify, mapEntries, List.map_append, List.map_singleton,
        if_true]
      rw [hentries]
    · exact eq_of_entries hentries

end Rewriting

end IndexMap

end Table

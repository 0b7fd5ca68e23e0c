import Mathlib.Data.List.Forall2
import Mathlib.Data.List.Lookmap
import Wayfinder.Lib.Table

/-!
# Bounded vectors with distinct keys

A vector of records, each found by a key that is part of the record. Storing a
record replaces the one with its key in place, appends while there is room, and
otherwise displaces a victim. The distinctness of the keys and the bound are fields.
-/

namespace Table

set_option autoImplicit false

variable {α K : Type}

/-- The `while` loop that drops elements by `swap_remove`: each turn shortens the
list or moves on, so its length is fuel enough. -/
def dropLoop (gone : α → Bool) : Nat → Nat → List α → List α
  | 0, _, l => l
  | fuel + 1, i, l =>
    match l[i]? with
    | none => l
    | some x =>
      if gone x then dropLoop gone fuel i (swapRemove l i) else dropLoop gone fuel (i + 1) l

theorem take_swapRemove {l : List α} {i : Nat} (hi : i < l.length) :
    (swapRemove l i).take i = l.take i := by
  unfold swapRemove
  split
  · rename_i hnone
    rw [List.getLast?_eq_none_iff.mp hnone]
  · have hmin : min i (l.length - 1) = i := Nat.min_eq_left (by omega)
    rw [List.dropLast_eq_take, List.take_take, List.length_set, hmin,
      List.take_set_of_le (Nat.le_refl i)]

theorem filter_eraseIdx {l : List α} {i : Nat} (hi : i < l.length) {keep : α → Bool}
    (h : keep l[i] = false) : (l.eraseIdx i).filter keep = l.filter keep := by
  have hsplit : l = l.take i ++ l[i] :: l.drop (i + 1) := by simp
  rw [List.eraseIdx_eq_take_drop_succ, List.filter_append]
  conv => rhs; rw [hsplit, List.filter_append, List.filter_cons_of_neg (by simp [h])]

/-- The loop keeps what a filter would, in some order. -/
theorem dropLoop_perm (gone : α → Bool) {fuel i : Nat} {l : List α}
    (hfuel : l.length - i ≤ fuel) (hkept : ∀ x ∈ l.take i, gone x = false) :
    (dropLoop gone fuel i l).Perm (l.filter fun x => !gone x) := by
  induction fuel generalizing i l with
  | zero =>
    have hall : l.take i = l := List.take_of_length_le (by omega)
    rw [hall] at hkept
    rw [dropLoop, List.filter_eq_self.mpr (fun x hx => by simp [hkept x hx])]
  | succ fuel ih =>
    rw [dropLoop]
    cases hget : l[i]? with
    | none =>
      have hall : l.take i = l := List.take_of_length_le (List.getElem?_eq_none_iff.mp hget)
      rw [hall] at hkept
      dsimp only
      rw [List.filter_eq_self.mpr (fun x hx => by simp [hkept x hx])]
    | some x =>
      obtain ⟨hi, hx⟩ := List.getElem?_eq_some_iff.mp hget
      dsimp only
      split
      · rename_i hgone
        have hperm := swapRemove_perm hi
        have hlen := hperm.length_eq
        rw [List.length_eraseIdx_of_lt hi] at hlen
        refine (ih (by omega) ?_).trans ?_
        · rw [take_swapRemove hi]
          exact hkept
        · refine (hperm.filter _).trans ?_
          rw [filter_eraseIdx hi (by simp [hx, hgone])]
      · rename_i hstay
        apply ih (by omega)
        intro y hy
        rw [List.take_add_one, List.mem_append, hget] at hy
        rcases hy with hy | hy
        · exact hkept y hy
        · obtain rfl : y = x := by simpa using hy
          simpa using hstay

/-! ### Lists that keep one record a key -/

section Upsert
variable [DecidableEq K] {key : α → K} {x y : α} {l : List α}

/-- Put a record in place of the first with its key, else behind the others. -/
def upsert (key : α → K) (x : α) : List α → List α
  | [] => [x]
  | y :: l => if key y = key x then x :: l else y :: upsert key x l

theorem mem_upsert (h : y ∈ upsert key x l) : y = x ∨ y ∈ l := by
  induction l with
  | nil => exact Or.inl (List.mem_singleton.mp h)
  | cons z l ih =>
    rw [upsert] at h
    split at h
    · rcases List.mem_cons.mp h with rfl | h
      · exact Or.inl rfl
      · exact Or.inr (List.mem_cons_of_mem z h)
    · rcases List.mem_cons.mp h with rfl | h
      · exact Or.inr List.mem_cons_self
      · exact (ih h).imp_right (List.mem_cons_of_mem z)

theorem mem_upsert_self : x ∈ upsert key x l := by
  induction l with
  | nil => exact List.mem_singleton.mpr rfl
  | cons z l ih =>
    rw [upsert]
    split
    · exact List.mem_cons_self
    · exact List.mem_cons_of_mem z ih

theorem mem_map_upsert {k : K} (h : k ∈ (upsert key x l).map key) :
    k = key x ∨ k ∈ l.map key := by
  obtain ⟨y, hy, rfl⟩ := List.mem_map.mp h
  rcases mem_upsert hy with rfl | hy
  · exact Or.inl rfl
  · exact Or.inr (List.mem_map_of_mem hy)

theorem nodup_upsert (h : (l.map key).Nodup) : ((upsert key x l).map key).Nodup := by
  induction l with
  | nil => exact List.nodup_singleton _
  | cons z l ih =>
    obtain ⟨hz, hl⟩ := List.nodup_cons.mp h
    rw [upsert]
    split
    · rename_i hkey
      exact List.nodup_cons.mpr ⟨hkey ▸ hz, hl⟩
    · rename_i hkey
      refine List.nodup_cons.mpr ⟨?_, ih hl⟩
      intro hmem
      exact (mem_map_upsert hmem).elim hkey hz

theorem find?_upsert_of_ne {k : K} (h : k ≠ key x) :
    (upsert key x l).find? (fun y => key y = k) = l.find? fun y => key y = k := by
  induction l with
  | nil => simp [upsert, h.symm]
  | cons z l ih =>
    rw [upsert]
    split
    · rename_i hkey
      simp [hkey, h.symm]
    · rw [List.find?_cons, List.find?_cons, ih]

end Upsert

/-! ### Lists changed in place -/

section InPlace
variable {R : α → α → Prop} {f : α → Option α} {p : α → Bool} {l l' : List α} {x y : α}

theorem mem_lookmap (h : y ∈ l.lookmap f) : y ∈ l ∨ ∃ x ∈ l, f x = some y := by
  induction l with
  | nil => exact Or.inl h
  | cons z l ih =>
    rw [List.lookmap_cons] at h
    split at h
    · rcases List.mem_cons.mp h with rfl | h
      · exact Or.inl List.mem_cons_self
      · rcases ih h with hl | ⟨x, hx, hf⟩
        · exact Or.inl (List.mem_cons_of_mem z hl)
        · exact Or.inr ⟨x, List.mem_cons_of_mem z hx, hf⟩
    · rename_i hf
      rcases List.mem_cons.mp h with rfl | h
      · exact Or.inr ⟨z, List.mem_cons_self, hf⟩
      · exact Or.inl (List.mem_cons_of_mem z h)

theorem forall₂_lookmap (hrefl : ∀ x, R x x) (hf : ∀ x y, f x = some y → R x y) :
    List.Forall₂ R l (l.lookmap f) := by
  induction l with
  | nil => exact .nil
  | cons z l ih =>
    rw [List.lookmap_cons]
    split
    · exact .cons (hrefl z) ih
    · rename_i hz
      exact .cons (hf z _ hz) (List.forall₂_same.mpr fun x _ => hrefl x)

theorem exists_of_forall₂_right {β : Type} {R : α → β → Prop} {l' : List β} {y : β}
    (h : List.Forall₂ R l l') (hy : y ∈ l') : ∃ x ∈ l, R x y := by
  induction h with
  | nil => cases hy
  | @cons a b l l' hab _ ih =>
    rcases List.mem_cons.mp hy with rfl | hy
    · exact ⟨a, List.mem_cons_self, hab⟩
    · obtain ⟨x, hx, hxy⟩ := ih hy
      exact ⟨x, List.mem_cons_of_mem a hx, hxy⟩

theorem exists_mem_lookmap {P : α → Prop} (hf : ∀ x y, f x = some y → P x → P y)
    (h : ∃ x ∈ l, P x) : ∃ y ∈ l.lookmap f, P y := by
  obtain ⟨x, hx, hP⟩ := h
  have hall : List.Forall₂ (fun x y => P x → P y) l (l.lookmap f) :=
    forall₂_lookmap (fun x h => h) hf
  obtain ⟨y, hy, hxy⟩ := exists_of_forall₂_right hall.flip hx
  exact ⟨y, hy, hxy hP⟩

/-- Where at most one element is changed, changing the first is changing each. -/
theorem lookmap_eq_map {β : Type} {key : α → β} {b : β} (hf : ∀ x, (f x).isSome → key x = b)
    (h : (l.map key).Nodup) : l.lookmap f = l.map fun x => (f x).getD x := by
  induction l with
  | nil => rfl
  | cons a l ih =>
    rw [List.map_cons, List.nodup_cons] at h
    cases ha : f a with
    | none =>
      rw [List.lookmap_cons_none _ _ ha, ih h.2, List.map_cons, ha]
      rfl
    | some a' =>
      have hrest : ∀ x ∈ l, (f x).getD x = x := by
        intro x hx
        cases hfx : f x with
        | none => rfl
        | some y =>
          have hkey : key x = key a := (hf x (by simp [hfx])).trans (hf a (by simp [ha])).symm
          exact absurd (hkey ▸ List.mem_map_of_mem hx) h.1
      rw [List.lookmap_cons_some _ _ ha, List.map_cons, ha, List.map_congr_left hrest, List.map_id']
      rfl

theorem find?_of_forall₂ (h : List.Forall₂ R l l') (hp : ∀ x y, R x y → p x = p y)
    (hfind : l.find? p = some x) : ∃ y, l'.find? p = some y ∧ R x y := by
  induction h with
  | nil => cases hfind
  | @cons a b l l' hab _ ih =>
    rw [List.find?_cons] at hfind
    rw [List.find?_cons, ← hp a b hab]
    split at hfind
    · obtain rfl := Option.some.inj hfind
      exact ⟨b, rfl, hab⟩
    · exact ih hfind

theorem find?_lookmap_self (hp : ∀ x, p x = (f x).isSome) (hkeep : ∀ x y, f x = some y → p y = true)
    (hfind : l.find? p = some x) : ∃ y, f x = some y ∧ (l.lookmap f).find? p = some y := by
  induction l with
  | nil => cases hfind
  | cons z l ih =>
    rw [List.find?_cons] at hfind
    rw [List.lookmap_cons]
    split at hfind
    · obtain rfl := Option.some.inj hfind
      rename_i hz
      rw [hp] at hz
      obtain ⟨y, hy⟩ := Option.isSome_iff_exists.mp hz
      exact ⟨y, hy, by rw [hy]; simp [hkeep z y hy]⟩
    · rename_i hz
      have hnone : f z = none := by simpa [hp] using hz
      obtain ⟨y, hy, hfound⟩ := ih hfind
      exact ⟨y, hy, by rw [hnone]; simpa [hz] using hfound⟩

theorem find?_and {q : α → Bool} (h : l.find? p = some x) (hq : q x = true) :
    l.find? (fun y => p y && q y) = some x := by
  rw [List.find?_eq_some_iff_append] at h ⊢
  obtain ⟨hp, before, rest, hl, hnot⟩ := h
  refine ⟨by simp [hp, hq], before, rest, hl, ?_⟩
  intro y hy
  have hy' : p y = false := by simpa using hnot y hy
  simp [hy']

theorem find?_filter_of_mem {q : α → Bool} (h : l.find? p = some x) (hq : q x = true) :
    (l.filter q).find? p = some x := by
  rw [List.find?_filter, ← find?_and h hq]
  congr 1
  funext y
  rw [Bool.and_comm, Bool.decide_and, Bool.decide_eq_true, Bool.decide_eq_true]

end InPlace

structure KeyedVec (key : α → K) (n : Nat) where
  toList : List α
  nodup : (toList.map key).Nodup
  bounded : toList.length ≤ n

namespace KeyedVec

variable {key : α → K} {n : Nat}

def empty : KeyedVec key n := ⟨[], List.nodup_nil, Nat.zero_le n⟩

/-- Any rearrangement of some of the elements is a vector again. -/
def ofSubperm (v : KeyedVec key n) (l : List α) (h : l.Subperm v.toList) : KeyedVec key n where
  toList := l
  nodup := by
    obtain ⟨l', hperm, hsub⟩ := h
    rw [← (hperm.map key).nodup_iff]
    exact v.nodup.sublist (hsub.map key)
  bounded := Nat.le_trans h.length_le v.bounded

def retain (v : KeyedVec key n) (keep : α → Bool) : KeyedVec key n :=
  v.ofSubperm (v.toList.filter keep) List.filter_sublist.subperm

/-- `retain` by the loop above, in the order that leaves. -/
def swapRetain (v : KeyedVec key n) (gone : α → Bool) : KeyedVec key n :=
  v.ofSubperm (dropLoop gone v.toList.length 0 v.toList)
    ((dropLoop_perm gone (Nat.sub_le _ _) (by simp)).subperm.trans List.filter_sublist.subperm)

/-- Change the records in place, their keys kept. -/
def update (v : KeyedVec key n) (f : α → α) (hf : ∀ x, key (f x) = key x) : KeyedVec key n where
  toList := v.toList.map f
  nodup := by
    rw [List.map_map, show key ∘ f = key from funext hf]
    exact v.nodup
  bounded := by simpa using v.bounded

variable [DecidableEq K]

def find? (v : KeyedVec key n) (k : K) : Option α := v.toList.find? fun x => key x = k

/-- Remove the record with a key; the last record takes its place. -/
def remove (v : KeyedVec key n) (k : K) : KeyedVec key n :=
  if h : v.toList.findIdx (fun x => key x = k) < v.toList.length then
    v.ofSubperm (swapRemove v.toList (v.toList.findIdx fun x => key x = k))
      ((swapRemove_perm h).subperm.trans (List.eraseIdx_sublist _ _).subperm)
  else v

/-- Put `x` where `y` is. -/
def replaceAt (v : KeyedVec key n) (y x : α) (h : key x = key y ∨ key x ∉ v.toList.map key) :
    KeyedVec key n where
  toList := v.toList.map fun z => if key z = key y then x else z
  nodup := by
    rw [List.map_map]
    refine List.Nodup.map_on ?_ (List.Nodup.of_map key v.nodup)
    intro a ha b hb heq
    apply List.inj_on_of_nodup_map v.nodup ha hb
    simp only [Function.comp_apply] at heq
    by_cases hay : key a = key y
    · by_cases hby : key b = key y
      · exact hay.trans hby.symm
      · rw [if_pos hay, if_neg hby] at heq
        rcases h with h | h
        · exact hay.trans (h.symm.trans heq)
        · exact absurd (heq ▸ List.mem_map_of_mem hb) h
    · by_cases hby : key b = key y
      · rw [if_neg hay, if_pos hby] at heq
        rcases h with h | h
        · exact heq.trans (h.trans hby.symm)
        · exact absurd (heq ▸ List.mem_map_of_mem ha) h
      · rwa [if_neg hay, if_neg hby] at heq
  bounded := by simpa using v.bounded

/-- Store a record: in place of the one with its key, else behind the others, else
in place of the victim. -/
def put (v : KeyedVec key n) (x : α) (victim : List α → Option α) : KeyedVec key n :=
  if hk : key x ∈ v.toList.map key then v.replaceAt x x (Or.inl rfl)
  else if hn : v.toList.length < n then
    { toList := v.toList ++ [x]
      nodup := by
        rw [List.map_append]
        exact v.nodup.append (List.nodup_singleton _) (List.disjoint_singleton.mpr hk)
      bounded := by
        rw [List.length_append]
        exact hn }
  else
    match victim v.toList with
    | none => v
    | some y => v.replaceAt y x (Or.inr hk)

section Mem
variable {v : KeyedVec key n} {x y : α} {k : K}

omit [DecidableEq K] in
theorem eq_of_key {v : KeyedVec key n} {x y : α} (hx : x ∈ v.toList) (hy : y ∈ v.toList)
    (h : key x = key y) : x = y :=
  List.inj_on_of_nodup_map v.nodup hx hy h

theorem find?_eq_some_iff : v.find? k = some x ↔ x ∈ v.toList ∧ key x = k := by
  constructor
  · intro h
    exact ⟨List.mem_of_find?_eq_some h, by simpa using List.find?_some h⟩
  · rintro ⟨hx, hk⟩
    cases hf : v.find? k with
    | none => simpa [hk] using List.find?_eq_none.mp hf x hx
    | some y =>
      have hy : y ∈ v.toList := List.mem_of_find?_eq_some hf
      have hyk : key y = k := by simpa using List.find?_some hf
      rw [eq_of_key hx hy (hk.trans hyk.symm)]

theorem find?_eq_none_iff : v.find? k = none ↔ ∀ x ∈ v.toList, key x ≠ k := by
  simp [find?]

omit [DecidableEq K] in
theorem mem_retain {keep : α → Bool} :
    x ∈ (v.retain keep).toList ↔ x ∈ v.toList ∧ keep x = true := List.mem_filter

omit [DecidableEq K] in
theorem mem_swapRetain {gone : α → Bool} :
    x ∈ (v.swapRetain gone).toList ↔ x ∈ v.toList ∧ gone x = false := by
  have hperm := dropLoop_perm gone (i := 0) (Nat.sub_le v.toList.length 0) (by simp)
  have hmem : x ∈ (v.swapRetain gone).toList ↔ x ∈ v.toList.filter fun x => !gone x :=
    hperm.mem_iff
  rw [hmem, List.mem_filter, Bool.not_eq_true']

theorem mem_remove : x ∈ (v.remove k).toList ↔ x ∈ v.toList ∧ key x ≠ k := by
  unfold remove
  split
  · rename_i hi
    exact mem_swapRemove_findIdx v.nodup hi
  · rename_i hi
    exact ⟨fun hx => ⟨hx, key_ne_of_findIdx hi hx⟩, fun h => h.1⟩

theorem mem_replaceAt {h : key x = key y ∨ key x ∉ v.toList.map key} {z : α}
    (hz : z ∈ (v.replaceAt y x h).toList) : z = x ∨ z ∈ v.toList ∧ key z ≠ key x := by
  obtain ⟨w, hw, rfl⟩ := List.mem_map.mp hz
  split
  · exact Or.inl rfl
  · rename_i hne
    refine Or.inr ⟨hw, ?_⟩
    rcases h with h | h
    · rwa [h]
    · intro heq
      exact h (heq ▸ List.mem_map_of_mem hw)

theorem toList_put_self {victim : List α → Option α} (hx : x ∈ v.toList) :
    (v.put x victim).toList = v.toList := by
  unfold put
  rw [dif_pos (List.mem_map_of_mem hx)]
  change v.toList.map (fun z => if key z = key x then x else z) = v.toList
  refine (List.map_congr_left ?_).trans (List.map_id _)
  intro z hz
  split
  · rename_i hkey
    exact eq_of_key hx hz hkey.symm
  · rfl

theorem mem_put {victim : List α → Option α} {z : α} (hz : z ∈ (v.put x victim).toList) :
    z = x ∨ z ∈ v.toList ∧ key z ≠ key x := by
  unfold put at hz
  split at hz
  · exact mem_replaceAt hz
  · rename_i hk
    split at hz
    · rcases List.mem_append.mp hz with hz | hz
      · exact Or.inr ⟨hz, fun heq => hk (heq ▸ List.mem_map_of_mem hz)⟩
      · exact Or.inl (List.mem_singleton.mp hz)
    · split at hz
      · exact Or.inr ⟨hz, fun heq => hk (heq ▸ List.mem_map_of_mem hz)⟩
      · exact mem_replaceAt hz

/-- While the key is known or there is room, nothing else is lost. -/
theorem mem_put_iff {victim : List α → Option α}
    (hfits : (∃ y ∈ v.toList, key y = key x) ∨ v.toList.length < n) {z : α} :
    z ∈ (v.put x victim).toList ↔ z = x ∨ z ∈ v.toList ∧ key z ≠ key x := by
  refine ⟨mem_put, ?_⟩
  intro hz
  unfold put
  split
  · rename_i hk
    obtain ⟨y, hy, hyk⟩ := List.mem_map.mp hk
    apply List.mem_map.mpr
    rcases hz with rfl | ⟨hz, hne⟩
    · exact ⟨y, hy, if_pos hyk⟩
    · exact ⟨z, hz, if_neg hne⟩
  · rename_i hk
    have hroom : v.toList.length < n := by
      rcases hfits with ⟨y, hy, hyk⟩ | hroom
      · exact absurd (hyk ▸ List.mem_map_of_mem hy) hk
      · exact hroom
    rw [dif_pos hroom]
    rcases hz with rfl | ⟨hz, _⟩
    · exact List.mem_append_right _ (List.mem_singleton.mpr rfl)
    · exact List.mem_append_left _ hz

/-- A victim to displace is room enough for the record itself. -/
theorem mem_put_self {victim : List α → Option α} (hn : 0 < n)
    (hvictim : ∀ l, victim l = none → l = []) (hmem : ∀ l y, victim l = some y → y ∈ l) :
    x ∈ (v.put x victim).toList := by
  unfold put
  split
  · rename_i hk
    obtain ⟨y, hy, hyk⟩ := List.mem_map.mp hk
    exact List.mem_map.mpr ⟨y, hy, if_pos hyk⟩
  · split
    · exact List.mem_append_right _ (List.mem_singleton.mpr rfl)
    · rename_i hfull
      split
      · rename_i hnone
        rw [hvictim _ hnone] at hfull
        exact absurd hn hfull
      · rename_i y hy
        exact List.mem_map.mpr ⟨y, hmem _ y hy, if_pos rfl⟩

/-- A record that displaces a victim takes its place and no other's. -/
theorem mem_put_displacing {victim : List α → Option α} (hkey : ∀ z ∈ v.toList, key z ≠ key x)
    (hfull : n ≤ v.toList.length) (hvictim : victim v.toList = some y) (hy : y ∈ v.toList) {z : α} :
    z ∈ (v.put x victim).toList ↔ z = x ∨ z ∈ v.toList ∧ key z ≠ key y := by
  have hnew : key x ∉ v.toList.map key := by
    intro hmem
    obtain ⟨w, hw, hwk⟩ := List.mem_map.mp hmem
    exact hkey w hw hwk
  have hput : (v.put x victim).toList =
      v.toList.map fun z => if key z = key y then x else z := by
    unfold put
    rw [dif_neg hnew, dif_neg (Nat.not_lt.mpr hfull)]
    split
    · rename_i hnone
      rw [hnone] at hvictim
      cases hvictim
    · rename_i y' hsome
      rw [hsome] at hvictim
      obtain rfl := Option.some.inj hvictim
      rfl
  rw [hput, List.mem_map]
  constructor
  · rintro ⟨w, hw, rfl⟩
    by_cases hwy : key w = key y
    · exact Or.inl (if_pos hwy)
    · rw [if_neg hwy]
      exact Or.inr ⟨hw, hwy⟩
  · rintro (rfl | ⟨hz, hne⟩)
    · exact ⟨y, hy, if_pos rfl⟩
    · exact ⟨z, hz, if_neg hne⟩

theorem find?_put {victim : List α → Option α}
    (hfits : (∃ y ∈ v.toList, key y = key x) ∨ v.toList.length < n) (k : K) :
    (v.put x victim).find? k = if k = key x then some x else v.find? k := by
  apply Option.ext
  intro z
  rw [find?_eq_some_iff, mem_put_iff hfits]
  split
  · rename_i hk
    constructor
    · rintro ⟨rfl | ⟨_, hne⟩, hz⟩
      · rfl
      · exact absurd (hz.trans hk) hne
    · rintro ⟨⟩
      exact ⟨Or.inl rfl, hk.symm⟩
  · rename_i hk
    rw [find?_eq_some_iff]
    constructor
    · rintro ⟨rfl | ⟨hz, _⟩, hzk⟩
      · exact absurd hzk.symm hk
      · exact ⟨hz, hzk⟩
    · rintro ⟨hz, rfl⟩
      exact ⟨Or.inr ⟨hz, hk⟩, rfl⟩

/-- Where no record has to make room, the other records are as they were. -/
theorem find?_put_of_ne (h : k ≠ key x) : (v.put x fun _ => none).find? k = v.find? k := by
  by_cases hfits : (∃ y ∈ v.toList, key y = key x) ∨ v.toList.length < n
  · rw [find?_put hfits, if_neg h]
  · have hkey : key x ∉ v.toList.map key := by
      intro hmem
      obtain ⟨y, hy, hyk⟩ := List.mem_map.mp hmem
      exact hfits (Or.inl ⟨y, hy, hyk⟩)
    have hfull : ¬ v.toList.length < n := fun hroom => hfits (Or.inr hroom)
    simp [put, hkey, hfull]

theorem find?_remove (k' : K) :
    (v.remove k).find? k' = if k' = k then none else v.find? k' := by
  apply Option.ext
  intro z
  rw [find?_eq_some_iff, mem_remove]
  split
  · rename_i hk
    constructor
    · rintro ⟨⟨_, hne⟩, hz⟩
      exact absurd (hz.trans hk) hne
    · rintro ⟨⟩
  · rename_i hk
    rw [find?_eq_some_iff]
    constructor
    · rintro ⟨⟨hz, _⟩, hzk⟩
      exact ⟨hz, hzk⟩
    · rintro ⟨hz, rfl⟩
      exact ⟨⟨hz, hk⟩, rfl⟩

end Mem

end KeyedVec

end Table

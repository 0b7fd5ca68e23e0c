import Mathlib.Data.List.Count
import Mathlib.Data.List.Nodup
import Mathlib.Data.List.Perm.Basic
import Mathlib.Data.Prod.Basic
import Mathlib.Logic.Function.Basic

/-!
# Rows kept by content

Records without a key of their own are kept as rows, each under an identifier the store
gives it, and found again by what they say: an index has, of every body, the identifiers of
the rows that hold it. A new version of a collection is written as the difference of two
multisets. The rows of a body beyond the wanted number go, and what is missing comes in.
-/

namespace Content

set_option autoImplicit false

structure Row (κ β : Type) where
  collection : κ
  id : Nat
  body : β
  deriving DecidableEq

/-! ### Entries of one collection -/

section Entries
variable {β : Type} [DecidableEq β] {entries : List (β × List Nat)} {b b' : β} {id : Nat}

def idsAt (b : β) : List (β × List Nat) → List Nat
  | [] => []
  | e :: entries => if e.1 = b then e.2 else idsAt b entries

def pushAt (b : β) (id : Nat) : List (β × List Nat) → List (β × List Nat)
  | [] => [(b, [id])]
  | e :: entries => if e.1 = b then (e.1, e.2 ++ [id]) :: entries else e :: pushAt b id entries

/-- Drop an identifier, and its entry with the last one. -/
def dropAt (b : β) (id : Nat) : List (β × List Nat) → List (β × List Nat)
  | [] => []
  | e :: entries =>
    if e.1 = b then
      let ids := e.2.filter fun x => x ≠ id
      if ids.isEmpty then entries else (e.1, ids) :: entries
    else e :: dropAt b id entries

theorem idsAt_of_notMem (h : b ∉ entries.map Prod.fst) : idsAt b entries = [] := by
  induction entries with
  | nil => rfl
  | cons e entries ih =>
    rw [List.map_cons, List.mem_cons, not_or] at h
    rw [idsAt, if_neg (Ne.symm h.1), ih h.2]

theorem idsAt_pushAt :
    idsAt b' (pushAt b id entries) =
      if b' = b then idsAt b entries ++ [id] else idsAt b' entries := by
  induction entries with
  | nil =>
    by_cases h : b' = b
    · simp [pushAt, idsAt, h]
    · simp [pushAt, idsAt, h, Ne.symm h]
  | cons e entries ih =>
    rw [pushAt]
    by_cases he : e.1 = b
    · by_cases h : b' = b
      · simp [idsAt, he, h]
      · simp [idsAt, he, h, Ne.symm h]
    · rw [if_neg he, idsAt, ih]
      by_cases h : b' = b
      · simp [idsAt, he, h]
      · simp [idsAt, h]

theorem mem_keys_pushAt (h : b' ∈ (pushAt b id entries).map Prod.fst) :
    b' = b ∨ b' ∈ entries.map Prod.fst := by
  induction entries with
  | nil => simpa [pushAt] using h
  | cons e entries ih =>
    rw [pushAt] at h
    split at h
    · exact Or.inr h
    · rw [List.map_cons, List.mem_cons] at h
      rcases h with rfl | h
      · exact Or.inr List.mem_cons_self
      · exact (ih h).imp_right (List.mem_cons_of_mem _)

theorem nodup_pushAt (h : (entries.map Prod.fst).Nodup) :
    ((pushAt b id entries).map Prod.fst).Nodup := by
  induction entries with
  | nil => exact List.nodup_singleton b
  | cons e entries ih =>
    rw [pushAt]
    split
    · exact h
    · rename_i he
      obtain ⟨hnew, hrest⟩ := List.nodup_cons.mp h
      refine List.nodup_cons.mpr ⟨?_, ih hrest⟩
      intro hmem
      exact (mem_keys_pushAt hmem).elim he hnew

theorem keys_dropAt : ((dropAt b id entries).map Prod.fst).Sublist (entries.map Prod.fst) := by
  induction entries with
  | nil => exact List.Sublist.refl _
  | cons e entries ih =>
    rw [dropAt]
    dsimp only
    split
    · split
      · exact List.sublist_cons_self _ _
      · exact List.Sublist.refl _
    · exact ih.cons_cons _

theorem idsAt_dropAt (h : (entries.map Prod.fst).Nodup) :
    idsAt b' (dropAt b id entries) =
      if b' = b then (idsAt b entries).filter (fun x => x ≠ id) else idsAt b' entries := by
  induction entries with
  | nil => by_cases h : b' = b <;> simp [dropAt, idsAt]
  | cons e entries ih =>
    obtain ⟨hnew, hrest⟩ := List.nodup_cons.mp h
    rw [dropAt]
    dsimp only
    by_cases he : e.1 = b
    · subst he
      have hgone : idsAt e.1 entries = [] := idsAt_of_notMem hnew
      have hown : idsAt e.1 (e :: entries) = e.2 := if_pos rfl
      rw [if_pos rfl, hown]
      generalize e.2.filter (fun x => decide (x ≠ id)) = ids
      cases ids with
      | nil =>
        by_cases hb : b' = e.1
        · simp [hb, hgone]
        · simp [idsAt, hb, Ne.symm hb]
      | cons x ids =>
        by_cases hb : b' = e.1
        · simp [idsAt, hb]
        · simp [idsAt, hb, Ne.symm hb]
    · rw [if_neg he, idsAt, ih hrest]
      by_cases hb : b' = b
      · simp [idsAt, he, hb]
      · simp [idsAt, hb]

/-! ### The difference -/

/-- The identifiers of a body beyond the wanted number. -/
def surplus (wanted : β → Nat) (entries : List (β × List Nat)) : List (β × Nat) :=
  entries.flatMap fun e => (e.2.drop (wanted e.1)).map fun id => (e.1, id)

theorem mem_surplus {wanted : β → Nat} (h : (entries.map Prod.fst).Nodup) :
    (b, id) ∈ surplus wanted entries ↔ id ∈ (idsAt b entries).drop (wanted b) := by
  induction entries with
  | nil => simp [surplus, idsAt]
  | cons e entries ih =>
    obtain ⟨hnew, hrest⟩ := List.nodup_cons.mp h
    have hown : (b, id) ∈ (e.2.drop (wanted e.1)).map (fun id => (e.1, id)) ↔
        e.1 = b ∧ id ∈ e.2.drop (wanted e.1) := by
      rw [List.mem_map]
      constructor
      · rintro ⟨x, hx, heq⟩
        obtain ⟨rfl, rfl⟩ := Prod.mk.inj heq
        exact ⟨rfl, hx⟩
      · rintro ⟨rfl, hid⟩
        exact ⟨id, hid, rfl⟩
    rw [surplus, List.flatMap_cons, List.mem_append, ← surplus, ih hrest, idsAt, hown]
    by_cases he : e.1 = b
    · subst he
      simp [idsAt_of_notMem hnew]
    · simp [he]

theorem nodup_surplus {wanted : β → Nat} (h : (entries.map Prod.fst).Nodup)
    (hids : ∀ b, (idsAt b entries).Nodup) : (surplus wanted entries).Nodup := by
  induction entries with
  | nil => exact List.nodup_nil
  | cons e entries ih =>
    obtain ⟨hnew, hrest⟩ := List.nodup_cons.mp h
    have hown : e.2.Nodup := by simpa [idsAt] using hids e.1
    have hothers : ∀ b, (idsAt b entries).Nodup := by
      intro b
      by_cases hb : e.1 = b
      · rw [← hb, idsAt_of_notMem hnew]
        exact List.nodup_nil
      · simpa [idsAt, hb] using hids b
    rw [surplus, List.flatMap_cons, List.nodup_append, ← surplus]
    refine ⟨?_, ih hrest hothers, ?_⟩
    · exact (hown.sublist (List.drop_sublist _ _)).map fun _ _ h => (Prod.mk.inj h).2
    · rintro ⟨b, id⟩ hb ⟨b', id'⟩ hb' heq
      obtain ⟨rfl, rfl⟩ := Prod.mk.inj heq
      obtain ⟨_, _, hpair⟩ := List.mem_map.mp hb
      obtain ⟨rfl, rfl⟩ := Prod.mk.inj hpair
      rw [mem_surplus hrest, idsAt_of_notMem hnew] at hb'
      simp at hb'

/-- What a new version lists more often than it is held, in its own order. -/
def shortfall (held : β → Nat) : List β → List β → List β
  | _, [] => []
  | seen, b :: order =>
    if held b < seen.count b + 1 then b :: shortfall held (b :: seen) order
    else shortfall held (b :: seen) order

theorem count_shortfall {held : β → Nat} {seen order : List β} :
    (shortfall held seen order).count b =
      (seen.count b + order.count b - held b) - (seen.count b - held b) := by
  induction order generalizing seen with
  | nil =>
    rw [shortfall, List.count_nil]
    omega
  | cons x order ih =>
    rw [shortfall]
    by_cases hx : x = b
    · subst hx
      split
      · rw [List.count_cons_self, ih, List.count_cons_self, List.count_cons_self]
        omega
      · rw [ih, List.count_cons_self, List.count_cons_self]
        omega
    · split
      · rw [List.count_cons_of_ne hx, ih, List.count_cons_of_ne hx, List.count_cons_of_ne hx]
      · rw [ih, List.count_cons_of_ne hx, List.count_cons_of_ne hx]

end Entries

/-! ### A store and its index -/

section Store
variable {κ β : Type} [DecidableEq κ] [DecidableEq β]

/-- Row `id` holds `b`. -/
def remember (index : κ → List (β × List Nat)) (c : κ) (b : β) (id : Nat) :
    κ → List (β × List Nat) :=
  Function.update index c (pushAt b id (index c))

def forget (index : κ → List (β × List Nat)) (c : κ) (b : β) (id : Nat) :
    κ → List (β × List Nat) :=
  Function.update index c (dropAt b id (index c))

def rememberAll (index : κ → List (β × List Nat)) (rows : List ((κ × β) × Nat)) :
    κ → List (β × List Nat) :=
  rows.foldl (fun index row => remember index row.1.1 row.1.2 row.2) index

def forgetAll (index : κ → List (β × List Nat)) (rows : List (κ × β × Nat)) :
    κ → List (β × List Nat) :=
  rows.foldl (fun index row => forget index row.1 row.2.1 row.2.2) index

/-- The rows that go, for new versions of some collections. -/
def deletions (index : κ → List (β × List Nat)) (orders : List (κ × List β)) :
    List (κ × β × Nat) :=
  orders.flatMap fun o => (surplus (fun b => o.2.count b) (index o.1)).map fun d => (o.1, d)

/-- The bodies that come in. -/
def insertions (index : κ → List (β × List Nat)) (orders : List (κ × List β)) : List (κ × β) :=
  orders.flatMap fun o =>
    (shortfall (fun b => (idsAt b (index o.1)).length) [] o.2).map fun b => (o.1, b)

/-- The rows of a change that has been made. -/
def changed (rows : List (Row κ β)) (deletes : List (κ × Nat)) (inserts : List ((κ × β) × Nat)) :
    List (Row κ β) :=
  rows.filter (fun r => (r.collection, r.id) ∉ deletes) ++
    inserts.map fun n => ⟨n.1.1, n.2, n.1.2⟩

def idsOf (rows : List (Row κ β)) (c : κ) (b : β) : List Nat :=
  (rows.filter fun r => r.collection = c ∧ r.body = b).map Row.id

def bodiesOf (rows : List (Row κ β)) (c : κ) : List β :=
  (rows.filter fun r => r.collection = c).map Row.body

/-- No two rows share an identifier, and the index has of every body exactly the
identifiers of the rows that hold it. -/
structure Tracks (rows : List (Row κ β)) (index : κ → List (β × List Nat)) : Prop where
  nodup : (rows.map Row.id).Nodup
  keys : ∀ c, ((index c).map Prod.fst).Nodup
  ids : ∀ c b, (idsAt b (index c)).Perm (idsOf rows c b)

variable {rows : List (Row κ β)} {index : κ → List (β × List Nat)} {orders : List (κ × List β)}
  {c : κ} {b : β} {id : Nat}

theorem keys_remember (h : ∀ c, ((index c).map Prod.fst).Nodup) (c : κ) (b : β) (id : Nat)
    (c' : κ) : ((remember index c b id c').map Prod.fst).Nodup := by
  by_cases hc : c' = c
  · subst hc
    rw [remember, Function.update_self]
    exact nodup_pushAt (h c')
  · rw [remember, Function.update_of_ne hc]
    exact h c'

theorem keys_forget (h : ∀ c, ((index c).map Prod.fst).Nodup) (c : κ) (b : β) (id : Nat)
    (c' : κ) : ((forget index c b id c').map Prod.fst).Nodup := by
  by_cases hc : c' = c
  · subst hc
    rw [forget, Function.update_self]
    exact (h c').sublist keys_dropAt
  · rw [forget, Function.update_of_ne hc]
    exact h c'

theorem keys_rememberAll (h : ∀ c, ((index c).map Prod.fst).Nodup)
    (new : List ((κ × β) × Nat)) (c : κ) : ((rememberAll index new c).map Prod.fst).Nodup := by
  induction new generalizing index with
  | nil => exact h c
  | cons n new ih => exact ih (keys_remember h _ _ _)

theorem keys_forgetAll (h : ∀ c, ((index c).map Prod.fst).Nodup) (gone : List (κ × β × Nat))
    (c : κ) : ((forgetAll index gone c).map Prod.fst).Nodup := by
  induction gone generalizing index with
  | nil => exact h c
  | cons g gone ih => exact ih (keys_forget h _ _ _)

theorem idsAt_rememberAll (new : List ((κ × β) × Nat)) (c : κ) (b : β) :
    idsAt b (rememberAll index new c) =
      idsAt b (index c) ++ (new.filter fun n => n.1 = (c, b)).map Prod.snd := by
  induction new generalizing index with
  | nil => simp [rememberAll]
  | cons n new ih =>
    obtain ⟨⟨c', b'⟩, id⟩ := n
    rw [rememberAll, List.foldl_cons, ← rememberAll, ih]
    by_cases hc : c = c'
    · subst hc
      rw [remember, Function.update_self, idsAt_pushAt]
      by_cases hb : b = b'
      · simp [hb]
      · simp [hb, Ne.symm hb]
    · rw [remember, Function.update_of_ne hc]
      simp [Ne.symm hc]

theorem idsAt_forgetAll (h : ∀ c, ((index c).map Prod.fst).Nodup) (gone : List (κ × β × Nat))
    (c : κ) (b : β) :
    idsAt b (forgetAll index gone c) = (idsAt b (index c)).filter fun id => (c, b, id) ∉ gone := by
  induction gone generalizing index with
  | nil => simp [forgetAll]
  | cons g gone ih =>
    obtain ⟨c', b', id⟩ := g
    rw [forgetAll, List.foldl_cons, ← forgetAll, ih (keys_forget h _ _ _)]
    by_cases hc : c = c'
    · subst hc
      rw [forget, Function.update_self, idsAt_dropAt (h c)]
      by_cases hb : b = b'
      · subst hb
        rw [if_pos rfl, List.filter_filter]
        refine List.filter_congr ?_
        intro x _
        by_cases hx : x = id <;> simp [hx]
      · simp [hb]
    · rw [forget, Function.update_of_ne hc]
      simp [hc]

omit [DecidableEq κ] in
theorem mem_deletions (h : ∀ c, ((index c).map Prod.fst).Nodup) :
    (c, b, id) ∈ deletions index orders ↔
      ∃ order, (c, order) ∈ orders ∧ id ∈ (idsAt b (index c)).drop (order.count b) := by
  rw [deletions, List.mem_flatMap]
  constructor
  · rintro ⟨⟨c', order⟩, horder, hmem⟩
    obtain ⟨d, hd, heq⟩ := List.mem_map.mp hmem
    obtain ⟨rfl, rfl⟩ := Prod.mk.inj heq
    exact ⟨order, horder, (mem_surplus (h c')).mp hd⟩
  · rintro ⟨order, horder, hid⟩
    exact ⟨(c, order), horder, List.mem_map.mpr ⟨(b, id), (mem_surplus (h c)).mpr hid, rfl⟩⟩

theorem count_insertions (hnodup : (orders.map Prod.fst).Nodup) {order : List β}
    (horder : (c, order) ∈ orders) :
    (insertions index orders).count (c, b) =
      order.count b - (idsAt b (index c)).length := by
  induction orders with
  | nil => cases horder
  | cons o orders ih =>
    obtain ⟨hnew, hrest⟩ := List.nodup_cons.mp hnodup
    rw [insertions, List.flatMap_cons, List.count_append, ← insertions]
    rcases List.mem_cons.mp horder with rfl | horder
    · have hothers : (insertions index orders).count (c, b) = 0 := by
        rw [List.count_eq_zero, insertions, List.mem_flatMap]
        rintro ⟨o', ho', hmem⟩
        obtain ⟨_, _, heq⟩ := List.mem_map.mp hmem
        obtain ⟨rfl, _⟩ := Prod.mk.inj heq
        exact hnew (List.mem_map.mpr ⟨o', ho', rfl⟩)
      have hown : ∀ l : List β, (l.map fun b => (c, b)).count (c, b) = l.count b := by
        intro l
        exact List.count_map_of_injective l (fun b => (c, b)) (Prod.mk_right_injective c) b
      rw [hothers, hown, count_shortfall, List.count_nil]
      dsimp only
      omega
    · have hother : o.1 ≠ c := by
        rintro rfl
        exact hnew (List.mem_map.mpr ⟨_, horder, rfl⟩)
      have hnone : ∀ l : List β, (l.map fun b => (o.1, b)).count (c, b) = 0 := by
        intro l
        rw [List.count_eq_zero]
        intro hmem
        obtain ⟨_, _, heq⟩ := List.mem_map.mp hmem
        exact hother (Prod.mk.inj heq).1
      rw [hnone, ih hrest horder]
      omega

omit [DecidableEq κ] in
theorem notMem_insertions (h : c ∉ orders.map Prod.fst) : (c, b) ∉ insertions index orders := by
  rw [insertions, List.mem_flatMap]
  rintro ⟨o, ho, hmem⟩
  obtain ⟨_, _, heq⟩ := List.mem_map.mp hmem
  obtain ⟨rfl, _⟩ := Prod.mk.inj heq
  exact h (List.mem_map_of_mem ho)

/-- What the index has is a row there is. -/
theorem Tracks.row (h : Tracks rows index) (hid : id ∈ idsAt b (index c)) :
    ∃ r ∈ rows, r.collection = c ∧ r.body = b ∧ r.id = id := by
  obtain ⟨r, hr, rfl⟩ := List.mem_map.mp ((h.ids c b).mem_iff.mp hid)
  obtain ⟨hr, hat⟩ := List.mem_filter.mp hr
  have hat' : r.collection = c ∧ r.body = b := by simpa using hat
  exact ⟨r, hr, hat'.1, hat'.2, rfl⟩

/-- A change never names a row that is absent. -/
theorem Tracks.row_of_mem_deletions (h : Tracks rows index)
    (hd : (c, b, id) ∈ deletions index orders) :
    ∃ r ∈ rows, r.collection = c ∧ r.body = b ∧ r.id = id := by
  obtain ⟨order, _, hid⟩ := (mem_deletions h.keys).mp hd
  exact h.row (List.mem_of_mem_drop hid)

/-- The row a deletion names holds the body it was found by. -/
theorem Tracks.mem_deletes_iff (h : Tracks rows index) {r : Row κ β} (hr : r ∈ rows) :
    (r.collection, r.id) ∈ (deletions index orders).map (fun d => (d.1, d.2.2)) ↔
      (r.collection, r.body, r.id) ∈ deletions index orders := by
  constructor
  · intro hmem
    obtain ⟨⟨c, b, id⟩, hd, heq⟩ := List.mem_map.mp hmem
    obtain ⟨rfl, rfl⟩ := Prod.mk.inj heq
    obtain ⟨r', hr', hc, hb, hid⟩ := h.row_of_mem_deletions hd
    obtain rfl : r' = r := List.inj_on_of_nodup_map h.nodup hr' hr hid
    rw [hb]
    exact hd
  · intro hmem
    exact List.mem_map.mpr ⟨_, hmem, rfl⟩

theorem Tracks.nodup_idsAt (h : Tracks rows index) (c : κ) (b : β) :
    (idsAt b (index c)).Nodup := by
  rw [(h.ids c b).nodup_iff]
  exact h.nodup.sublist (List.filter_sublist.map _)

theorem Tracks.nodup_deletes (h : Tracks rows index) (horders : (orders.map Prod.fst).Nodup) :
    ((deletions index orders).map fun d => (d.1, d.2.2)).Nodup := by
  refine List.Nodup.map_on ?_ ?_
  · rintro ⟨c, b, id⟩ hd ⟨c', b', id'⟩ hd' heq
    obtain ⟨rfl, rfl⟩ := Prod.mk.inj heq
    obtain ⟨r, hr, _, rfl, hid⟩ := h.row_of_mem_deletions hd
    obtain ⟨r', hr', _, rfl, hid'⟩ := h.row_of_mem_deletions hd'
    rw [List.inj_on_of_nodup_map h.nodup hr hr' (hid.trans hid'.symm)]
  · induction orders with
    | nil => exact List.nodup_nil
    | cons o orders ih =>
      obtain ⟨hnew, hrest⟩ := List.nodup_cons.mp horders
      rw [deletions, List.flatMap_cons, List.nodup_append, ← deletions]
      refine ⟨?_, ih hrest, ?_⟩
      · exact (nodup_surplus (h.keys o.1) (h.nodup_idsAt o.1)).map (Prod.mk_right_injective o.1)
      · rintro d hd d' hd' rfl
        obtain ⟨_, _, rfl⟩ := List.mem_map.mp hd
        obtain ⟨order, horder, _⟩ := (mem_deletions h.keys).mp hd'
        exact hnew (List.mem_map.mpr ⟨_, horder, rfl⟩)

section Change
variable {ids : List Nat}

/-- The identifiers of a body, once the change is made. -/
theorem Tracks.idsOf_changed (h : Tracks rows index) (new : List ((κ × β) × Nat)) (c : κ) (b : β) :
    idsOf (changed rows ((deletions index orders).map fun d => (d.1, d.2.2)) new) c b =
      (idsOf rows c b).filter (fun id => (c, b, id) ∉ deletions index orders) ++
        (new.filter fun n => n.1 = (c, b)).map Prod.snd := by
  unfold idsOf changed
  rw [List.filter_append, List.map_append]
  congr 1
  · rw [List.filter_map, List.filter_filter, List.filter_filter]
    congr 1
    refine List.filter_congr ?_
    intro r hr
    have hdeleted : _ ↔ (r.collection, r.body, r.id) ∈ deletions index orders :=
      h.mem_deletes_iff hr
    by_cases hat : r.collection = c ∧ r.body = b
    · obtain ⟨rfl, rfl⟩ := hat
      simp [hdeleted]
    · simp [hat]
  · rw [List.filter_map, List.map_map]
    congr 1
    refine List.filter_congr ?_
    intro n _
    obtain ⟨⟨c', b'⟩, id⟩ := n
    simp

/-- The change keeps of every body as many rows as are wanted, at most. -/
theorem Tracks.kept (h : Tracks rows index) (horders : (orders.map Prod.fst).Nodup)
    {order : List β} (horder : (c, order) ∈ orders) :
    (idsAt b (index c)).filter (fun id => (c, b, id) ∉ deletions index orders) =
      (idsAt b (index c)).take (order.count b) := by
  have hgone : ∀ id, (c, b, id) ∈ deletions index orders ↔
      id ∈ (idsAt b (index c)).drop (order.count b) := by
    intro id
    rw [mem_deletions h.keys]
    constructor
    · rintro ⟨order', horder', hid⟩
      obtain rfl : order' = order := by
        have := List.inj_on_of_nodup_map horders horder' horder rfl
        exact (Prod.mk.inj this).2
      exact hid
    · intro hid
      exact ⟨order, horder, hid⟩
  have hnodup : ((idsAt b (index c)).take (order.count b) ++
      (idsAt b (index c)).drop (order.count b)).Nodup := by
    rw [List.take_append_drop]
    exact h.nodup_idsAt c b
  obtain ⟨_, _, hdisjoint⟩ := List.nodup_append.mp hnodup
  simp only [hgone]
  conv_lhs => rw [← List.take_append_drop (order.count b) (idsAt b (index c))]
  rw [List.filter_append, List.filter_eq_self.mpr ?_, List.filter_eq_nil_iff.mpr ?_,
    List.append_nil]
  · intro id hid
    simpa using hid
  · intro id hid
    simpa using fun hdrop => hdisjoint id hid id hdrop rfl

theorem Tracks.changed (h : Tracks rows index)
    (hlength : ids.length = (insertions index orders).length) (hids : ids.Nodup)
    (hfresh : ∀ id ∈ ids, id ∉ rows.map Row.id) :
    Tracks
      (changed rows ((deletions index orders).map fun d => (d.1, d.2.2))
        ((insertions index orders).zip ids))
      (rememberAll (forgetAll index (deletions index orders)) ((insertions index orders).zip ids))
    where
  nodup := by
    have hnew : (((insertions index orders).zip ids).map
        fun n => (⟨n.1.1, n.2, n.1.2⟩ : Row κ β)).map Row.id = ids := by
      rw [List.map_map]
      exact List.map_snd_zip (Nat.le_of_eq hlength)
    rw [Content.changed, List.map_append, hnew, List.nodup_append]
    refine ⟨h.nodup.sublist (List.filter_sublist.map _), hids, ?_⟩
    rintro id hold id' hid' rfl
    obtain ⟨r, hr, rfl⟩ := List.mem_map.mp hold
    exact hfresh r.id hid' (List.mem_map_of_mem (List.mem_filter.mp hr).1)
  keys c := keys_rememberAll (keys_forgetAll h.keys _) _ c
  ids c b := by
    rw [idsAt_rememberAll, idsAt_forgetAll h.keys, h.idsOf_changed]
    exact ((h.ids c b).filter _).append_right _

/-- A collection with a new version has its bodies. -/
theorem Tracks.bodiesOf_changed (h : Tracks rows index) (horders : (orders.map Prod.fst).Nodup)
    (hlength : ids.length = (insertions index orders).length) {order : List β}
    (horder : (c, order) ∈ orders) :
    (bodiesOf (Content.changed rows ((deletions index orders).map fun d => (d.1, d.2.2))
      ((insertions index orders).zip ids)) c).Perm order := by
  rw [List.perm_iff_count]
  intro b
  have hcount : ∀ rows : List (Row κ β), (bodiesOf rows c).count b = (idsOf rows c b).length := by
    intro rows
    rw [bodiesOf, idsOf, List.length_map, List.count, List.countP_map, List.countP_filter,
      List.countP_eq_length_filter]
    congr 1
    refine List.filter_congr ?_
    intro r _
    by_cases hc : r.collection = c <;> simp [hc, beq_eq_decide]
  have hinserted : (((insertions index orders).zip ids).filter fun n => n.1 = (c, b)).length =
      order.count b - (idsAt b (index c)).length := by
    have hfst : ((insertions index orders).zip ids).map Prod.fst = insertions index orders :=
      List.map_fst_zip (Nat.le_of_eq hlength.symm)
    rw [← count_insertions horders horder, ← List.countP_eq_length_filter]
    conv_rhs => rw [← hfst, List.count, List.countP_map]
    congr 1
    funext n
    simp [beq_eq_decide]
  have hkept : ((idsOf rows c b).filter fun id => (c, b, id) ∉ deletions index orders).length =
      min (order.count b) (idsAt b (index c)).length := by
    rw [← ((h.ids c b).filter _).length_eq, h.kept horders horder, List.length_take]
  rw [hcount, h.idsOf_changed, List.length_append, List.length_map, hinserted, hkept]
  omega

/-- Any other is as it was. -/
theorem Tracks.bodiesOf_unchanged (h : Tracks rows index) (hc : c ∉ orders.map Prod.fst) :
    bodiesOf (Content.changed rows ((deletions index orders).map fun d => (d.1, d.2.2))
      ((insertions index orders).zip ids)) c = bodiesOf rows c := by
  unfold bodiesOf Content.changed
  rw [List.filter_append, List.filter_filter]
  have hnone : (((insertions index orders).zip ids).map
      fun n => (⟨n.1.1, n.2, n.1.2⟩ : Row κ β)).filter (fun r => r.collection = c) = [] := by
    rw [List.filter_eq_nil_iff]
    intro r hr
    obtain ⟨⟨⟨c', b'⟩, id⟩, hn, rfl⟩ := List.mem_map.mp hr
    have hin : (c', b') ∈ insertions index orders := (List.of_mem_zip hn).1
    simp only [decide_eq_true_eq]
    rintro rfl
    exact notMem_insertions hc hin
  rw [hnone, List.append_nil]
  congr 1
  refine List.filter_congr ?_
  intro r hr
  by_cases hat : r.collection = c
  · have hkept : (r.collection, r.id) ∉ (deletions index orders).map (fun d => (d.1, d.2.2)) := by
      rw [h.mem_deletes_iff hr, mem_deletions h.keys]
      rintro ⟨order, horder, _⟩
      exact hc (hat ▸ List.mem_map.mpr ⟨_, horder, rfl⟩)
    simp [hat ▸ hkept, hat]
  · simp [hat]

end Change

end Store

end Content

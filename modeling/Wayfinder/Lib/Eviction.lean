import Wayfinder.Lib.Table

/-!
# Admitting the newest, evicting the oldest

A bounded table that turns no newcomer away: when it is full, an entry of the
greatest age makes room. Ages are any measure of the values.
-/

namespace Table.IndexMap

set_option autoImplicit false

variable {K V : Type} {n : Nat} [DecidableEq K]

/-- The table with a slot free: a full one gives up its oldest entry. -/
def makeRoom (m : IndexMap K V n) (age : V → Nat) : IndexMap K V n :=
  if n ≤ m.len then
    match maxByKey (fun e : K × V => age e.2) m.entries with
    | some oldest => m.remove oldest.1
    | none => m
  else m

/-- Enter a newcomer, at the cost of the oldest entry when the table is full. -/
def putNewest (m : IndexMap K V n) (age : V → Nat) (k : K) (v : V) : IndexMap K V n :=
  (m.makeRoom age).insertD k v

def IsOldest (m : IndexMap K V n) (age : V → Nat) (old : K) : Prop :=
  ∃ w, m.get? old = some w ∧ ∀ k' w', m.get? k' = some w' → age w' ≤ age w

section Room
variable {m : IndexMap K V n} (age : V → Nat) {k : K} {v : V}

theorem len_remove (h : m.get? k = some v) : (m.remove k).len + 1 = m.len := by
  have hmem := get?_eq_some_iff.mp h
  have hi : m.entries.findIdx (fun e => e.1 = k) < m.entries.length :=
    List.findIdx_lt_length_of_exists ⟨(k, v), hmem, by simp⟩
  unfold remove
  rw [dif_pos hi]
  exact length_swapRemove hi

theorem insert_of_full (habsent : m.get? k = none) (hfull : n ≤ m.len) : m.insert k v = none := by
  have hcontains : ¬ m.contains k = true := by
    rw [contains_eq_isSome, habsent]
    exact Bool.false_ne_true
  unfold insert
  rw [dif_neg hcontains]
  exact dif_neg (Nat.not_lt.mpr hfull)

theorem makeRoom_of_lt (h : m.len < n) : m.makeRoom age = m := by
  unfold makeRoom
  exact if_neg (Nat.not_le.mpr h)

theorem makeRoom_of_full (hpos : 0 < n) (hfull : m.len = n) :
    ∃ old, m.IsOldest age old ∧ m.makeRoom age = m.remove old := by
  unfold makeRoom
  rw [if_pos (Nat.le_of_eq hfull.symm)]
  cases hmax : maxByKey (fun e : K × V => age e.2) m.entries with
  | none =>
    have hnil := eq_nil_of_maxByKey_eq_none hmax
    unfold len at hfull
    rw [hnil, List.length_nil] at hfull
    omega
  | some oldest =>
    obtain ⟨hmem, hgreatest⟩ := maxByKey_spec hmax
    refine ⟨oldest.1, ⟨oldest.2, get?_eq_some_iff.mpr hmem, ?_⟩, rfl⟩
    intro k' w' hw'
    exact hgreatest (k', w') (get?_eq_some_iff.mp hw')

theorem len_makeRoom (hpos : 0 < n) : (m.makeRoom age).len < n := by
  have hbounded : m.len ≤ n := m.bounded
  rcases Nat.lt_or_ge m.len n with hlt | hge
  · rw [makeRoom_of_lt age hlt]
    exact hlt
  · have hfull := Nat.le_antisymm hbounded hge
    obtain ⟨old, ⟨w, hw, -⟩, heq⟩ := makeRoom_of_full age hpos hfull
    have hlen := len_remove hw
    rw [heq]
    omega

theorem get?_putNewest (hpos : 0 < n) (k' : K) :
    (m.putNewest age k v).get? k' = if k' = k then some v else (m.makeRoom age).get? k' := by
  obtain ⟨m', hm'⟩ := insert_isSome (v := v) (k := k) (Or.inr (len_makeRoom age hpos))
  have hput : m.putNewest age k v = m' := by
    unfold putNewest insertD
    rw [hm']
    rfl
  rw [hput]
  exact get?_insert hm' k'

end Room

/-- What admitting `k` does to the other entries: nothing while there is room, and
in a full table exactly one of them, none older, is gone. -/
structure MakesRoom (age : V → Nat) (k : K) (m m' : IndexMap K V n) : Prop where
  room : m.len < n → ∀ k', k' ≠ k → m'.get? k' = m.get? k'
  full : m.len = n → ∃ old, m.IsOldest age old ∧ old ≠ k ∧
    ∀ k', k' ≠ k → m'.get? k' = if k' = old then none else m.get? k'

/-- An absent key is entered, and nothing but the oldest entry of a full table pays. -/
theorem putNewest_makesRoom {m : IndexMap K V n} {age : V → Nat} {k : K} (v : V) (hpos : 0 < n)
    (habsent : m.get? k = none) : MakesRoom age k m (m.putNewest age k v) where
  room hlt k' hne := by
    rw [get?_putNewest age hpos, if_neg hne, makeRoom_of_lt age hlt]
  full hfull := by
    obtain ⟨old, holdest, heq⟩ := makeRoom_of_full age hpos hfull
    refine ⟨old, holdest, ?_, ?_⟩
    · rintro rfl
      obtain ⟨w, hw, -⟩ := holdest
      rw [habsent] at hw
      cases hw
    · intro k' hne
      rw [get?_putNewest age hpos, if_neg hne, heq, get?_remove]

theorem MakesRoom.modify {m m' : IndexMap K V n} {age : V → Nat} {k : K}
    (h : MakesRoom age k m m') (f : V → V) : MakesRoom age k m (m'.modify k f) where
  room hlt k' hne := by
    rw [get?_modify, if_neg hne, h.room hlt k' hne]
  full hfull := by
    obtain ⟨old, holdest, hold, hrest⟩ := h.full hfull
    refine ⟨old, holdest, hold, ?_⟩
    intro k' hne
    rw [get?_modify, if_neg hne, hrest k' hne]

theorem mem_putNewest {m : IndexMap K V n} {age : V → Nat} {k : K} {v : V} {e : K × V}
    (h : e ∈ (m.putNewest age k v).entries) : e ∈ m.entries ∨ e = (k, v) := by
  rcases mem_insertD h with ⟨_, hmem⟩ | heq
  · refine Or.inl ?_
    unfold makeRoom at hmem
    split at hmem
    · split at hmem
      · exact (mem_remove.mp hmem).1
      · exact hmem
    · exact hmem
  · exact Or.inr heq

end Table.IndexMap

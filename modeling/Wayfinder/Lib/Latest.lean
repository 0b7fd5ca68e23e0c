import Mathlib.Data.List.Induction

/-!
# Registers that keep the latest

A register is replaced by a value of strictly higher rank and keeps what it holds
otherwise, so of several values of the highest rank the first to arrive stays.
Arrivals in any order, with repetitions, agree exactly when the highest rank is
carried by one value, or is already held.
-/

namespace Latest

set_option autoImplicit false

variable {α : Type} (rank : α → Nat)

def keepLatest (held : Option α) (x : α) : Option α :=
  match held with
  | none => some x
  | some h => if rank h < rank x then some x else some h

def latest (held : Option α) (l : List α) : Option α := l.foldl (keepLatest rank) held

/-- The register is below `x`, and `x` is at the top of `l`. -/
def Leads (held : Option α) (l : List α) (x : α) : Prop :=
  x ∈ l ∧ (∀ y ∈ l, rank y ≤ rank x) ∧ ∀ h, held = some h → rank h < rank x

def UniqueLatest (held : Option α) (l : List α) : Prop :=
  ∀ x y, Leads rank held l x → Leads rank held l y → x = y

variable {rank} {held : Option α} {l l' : List α} {x : α}

theorem keepLatest_of_lt (h : ∀ y, held = some y → rank y < rank x) :
    keepLatest rank held x = some x := by
  cases held with
  | none => rfl
  | some y => exact if_pos (h y rfl)

theorem keepLatest_of_le {y : α} (h : rank x ≤ rank y) :
    keepLatest rank (some y) x = some y :=
  if_neg (Nat.not_lt.mpr h)

theorem latest_cons : latest rank held (x :: l) = latest rank (keepLatest rank held x) l := rfl

theorem latest_of_le (h : ∀ y ∈ l, rank y ≤ rank x) : latest rank (some x) l = some x := by
  induction l with
  | nil => rfl
  | cons y l ih =>
    rw [latest_cons, keepLatest_of_le (h y (List.mem_cons_self ..))]
    exact ih fun z hz => h z (List.mem_cons_of_mem _ hz)

/-- The first arrival of the highest rank stays. -/
theorem latest_of_first (hle : ∀ y ∈ l, rank y ≤ rank x)
    (hlt : ∀ h, held = some h → rank h < rank x) : latest rank held (x :: l) = some x := by
  rw [latest_cons, keepLatest_of_lt hlt]
  exact latest_of_le hle

/-- What is held in the end leads the arrivals, unless it was held from the start. -/
theorem latest_cases : (latest rank held l = held ∧ ∀ y ∈ l, ∃ h, held = some h ∧ rank y ≤ rank h) ∨
    ∃ x, latest rank held l = some x ∧ Leads rank held l x := by
  induction l generalizing held with
  | nil => exact Or.inl ⟨rfl, by simp⟩
  | cons x l ih =>
    rw [latest_cons]
    by_cases hlt : ∀ h, held = some h → rank h < rank x
    · rw [keepLatest_of_lt hlt]
      right
      rcases @ih (some x) with ⟨heq, hle⟩ | ⟨y, heq, hmem, hle, hgt⟩
      · refine ⟨x, heq, List.mem_cons_self .., ?_, hlt⟩
        intro y hy
        rcases List.mem_cons.mp hy with rfl | hy
        · exact Nat.le_refl _
        · obtain ⟨h, hh, hyh⟩ := hle y hy
          obtain rfl := Option.some.inj hh
          exact hyh
      · have hxy := hgt x rfl
        refine ⟨y, heq, List.mem_cons_of_mem _ hmem, ?_, ?_⟩
        · intro z hz
          rcases List.mem_cons.mp hz with rfl | hz
          · exact Nat.le_of_lt hxy
          · exact hle z hz
        · exact fun h hh => Nat.lt_trans (hlt h hh) hxy
    · obtain ⟨h, rfl, hge⟩ : ∃ h, held = some h ∧ rank x ≤ rank h := by
        simpa using hlt
      rw [keepLatest_of_le hge]
      rcases @ih (some h) with ⟨heq, hle⟩ | ⟨y, heq, hmem, hle, hgt⟩
      · refine Or.inl ⟨heq, ?_⟩
        intro y hy
        rcases List.mem_cons.mp hy with rfl | hy
        · exact ⟨h, rfl, hge⟩
        · exact hle y hy
      · refine Or.inr ⟨y, heq, List.mem_cons_of_mem _ hmem, ?_, hgt⟩
        intro z hz
        rcases List.mem_cons.mp hz with rfl | hz
        · exact Nat.le_of_lt (Nat.lt_of_le_of_lt hge (hgt h rfl))
        · exact hle z hz

theorem latest_append_singleton :
    latest rank held (l ++ [x]) = keepLatest rank (latest rank held l) x := by
  simp [latest]

/-- A register that was empty holds an arrival none of the others is later than. -/
theorem leads_of_latest (h : latest rank none l = some x) : Leads rank none l x := by
  rcases @latest_cases _ rank none l with ⟨heq, _⟩ | ⟨y, heq, hlead⟩
  · rw [heq] at h
    cases h
  · rw [heq] at h
    obtain rfl := Option.some.inj h
    exact hlead

theorem eq_nil_of_latest (h : latest rank none l = none) : l = [] := by
  cases l with
  | nil => rfl
  | cons x l =>
    rcases @latest_cases _ rank none (x :: l) with ⟨_, hle⟩ | ⟨y, heq, _⟩
    · obtain ⟨z, hz, _⟩ := hle x (List.mem_cons_self ..)
      cases hz
    · rw [heq] at h
      cases h

/-- Leaving out arrivals that are earlier than all the others does not change which is
the latest, as long as one is left. -/
theorem latest_of_filter {p : α → Bool}
    (hup : ∀ y ∈ l, ∀ z ∈ l, p y = true → rank y ≤ rank z → p z = true)
    (h : latest rank none (l.filter p) = some x) : latest rank none l = some x := by
  induction l using List.reverseRecOn generalizing x with
  | nil => exact h
  | append_singleton l y ih =>
    have hup' : ∀ z ∈ l, ∀ w ∈ l, p z = true → rank z ≤ rank w → p w = true :=
      fun z hz w hw => hup z (List.mem_append_left _ hz) w (List.mem_append_left _ hw)
    rw [latest_append_singleton]
    rw [List.filter_append] at h
    cases hlatest : latest rank none (l.filter p) with
    | none =>
      -- Nothing before `y` is kept, so all of it is earlier than `y` where `y` is.
      rw [eq_nil_of_latest hlatest, List.nil_append] at h
      cases hy : p y with
      | false => simp [hy, latest] at h
      | true =>
        obtain rfl : y = x := by simpa [hy, latest, keepLatest] using h
        refine keepLatest_of_lt ?_
        intro z hz
        have hzl := (leads_of_latest hz).1
        by_contra hge
        have hpz := hup y (by simp) z (List.mem_append_left _ hzl) hy (Nat.not_lt.mp hge)
        have hmem : z ∈ l.filter p := List.mem_filter.mpr ⟨hzl, hpz⟩
        rw [eq_nil_of_latest hlatest] at hmem
        cases hmem
    | some z =>
      rw [ih hup' hlatest]
      cases hy : p y with
      | true =>
        rw [List.filter_cons_of_pos hy, List.filter_nil, latest_append_singleton, hlatest] at h
        exact h
      | false =>
        rw [List.filter_cons_of_neg (by simp [hy]), List.filter_nil, List.append_nil, hlatest] at h
        obtain rfl := Option.some.inj h
        have hzl := (leads_of_latest hlatest).1
        have hle : rank y ≤ rank z := by
          by_contra hlt
          have hpz := (List.mem_filter.mp hzl).2
          have hpy := hup z (List.mem_append_left _ (List.mem_filter.mp hzl).1) y (by simp) hpz
            (Nat.le_of_lt (Nat.not_le.mp hlt))
          rw [hy] at hpy
          cases hpy
        exact keepLatest_of_le hle

theorem Leads.congr (h : Leads rank held l x) (hmem : ∀ y, y ∈ l ↔ y ∈ l') :
    Leads rank held l' x :=
  ⟨(hmem x).mp h.1, fun y hy => h.2.1 y ((hmem y).mpr hy), h.2.2⟩

theorem latest_ne_of_leads (h : Leads rank held l x) : latest rank held l ≠ held := by
  rcases @latest_cases _ rank held l with ⟨_, hle⟩ | ⟨y, hy, hmem, _, hlt⟩
  · obtain ⟨y, hy, hxy⟩ := hle x h.1
    exact absurd (h.2.2 y hy) (Nat.not_lt.mpr hxy)
  · rw [hy]
    rintro rfl
    exact Nat.lt_irrefl _ (hlt y rfl)

theorem latest_eq_held_of_append {l₁ l₂ : List α} (h : latest rank held (l₁ ++ l₂) = held) :
    latest rank held l₁ = held := by
  rcases @latest_cases _ rank held l₁ with ⟨heq, _⟩ | ⟨x, _, hmem, _, hlt⟩
  · exact heq
  · rcases @latest_cases _ rank held (l₁ ++ l₂) with ⟨_, hle⟩ | ⟨y, _, hlead⟩
    · obtain ⟨y, hy, hxy⟩ := hle x (List.mem_append_left _ hmem)
      exact absurd (hlt y hy) (Nat.not_lt.mpr hxy)
    · exact absurd h (latest_ne_of_leads hlead)

theorem latest_congr (hu : UniqueLatest rank held l) (hmem : ∀ y, y ∈ l ↔ y ∈ l') :
    latest rank held l = latest rank held l' := by
  rcases @latest_cases _ rank held l with ⟨heq, hle⟩ | ⟨x, hx, hlead⟩
  · rcases @latest_cases _ rank held l' with ⟨heq', _⟩ | ⟨y, _, hlead'⟩
    · rw [heq, heq']
    · have hlead := hlead'.congr fun z => (hmem z).symm
      exact absurd heq (latest_ne_of_leads hlead)
  · rcases @latest_cases _ rank held l' with ⟨heq', _⟩ | ⟨y, hy, hlead'⟩
    · exact absurd heq' (latest_ne_of_leads (hlead.congr hmem))
    · rw [hx, hy, hu x y hlead (hlead'.congr fun z => (hmem z).symm)]

end Latest

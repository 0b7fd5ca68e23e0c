import Mathlib.Data.List.Nodup
import Mathlib.Data.List.Perm.Basic

/-!
# Grouping a list by a key

The keys of a list in the order they are first seen, and the fact that the groups
they name are a partition: concatenated, they are the list again up to order.
-/

namespace Grouping

set_option autoImplicit false

variable {α K : Type} [DecidableEq K] (key : α → K)

/-- The keys of `l` not in `seen`, each once, in the order they first occur. -/
def freshKeys : List α → List K → List K
  | [], _ => []
  | x :: rest, seen =>
    if key x ∈ seen then freshKeys rest seen
    else key x :: freshKeys rest (seen ++ [key x])

def group (l : List α) (k : K) : List α := l.filter fun x => key x = k

variable {key}

theorem mem_freshKeys {l : List α} {seen : List K} {k : K} :
    k ∈ freshKeys key l seen ↔ k ∈ l.map key ∧ k ∉ seen := by
  induction l generalizing seen with
  | nil => simp [freshKeys]
  | cons x rest ih =>
    by_cases hx : key x ∈ seen
    · rw [freshKeys, if_pos hx, ih, List.map_cons, List.mem_cons]
      constructor
      · rintro ⟨hk, hs⟩
        exact ⟨Or.inr hk, hs⟩
      · rintro ⟨rfl | hk, hs⟩
        · exact absurd hx hs
        · exact ⟨hk, hs⟩
    · rw [freshKeys, if_neg hx, List.mem_cons, ih, List.map_cons, List.mem_cons]
      simp only [List.mem_append, List.mem_singleton, not_or]
      constructor
      · rintro (rfl | ⟨hk, hs, _⟩)
        · exact ⟨Or.inl rfl, hx⟩
        · exact ⟨Or.inr hk, hs⟩
      · rintro ⟨hk, hs⟩
        by_cases heq : k = key x
        · exact Or.inl heq
        · exact Or.inr ⟨hk.resolve_left heq, hs, heq⟩

theorem freshKeys_nodup (l : List α) (seen : List K) : (freshKeys key l seen).Nodup := by
  induction l generalizing seen with
  | nil => exact List.nodup_nil
  | cons x rest ih =>
    rw [freshKeys]
    split
    · exact ih seen
    · refine List.nodup_cons.mpr ⟨?_, ih _⟩
      intro hmem
      exact (mem_freshKeys.mp hmem).2 (List.mem_append_right _ (List.mem_singleton.mpr rfl))

theorem flatMap_group_perm_filter (l : List α) {keys : List K} (hnodup : keys.Nodup) :
    (keys.flatMap (group key l)).Perm (l.filter fun x => key x ∈ keys) := by
  induction keys with
  | nil => simp
  | cons k ks ih =>
    obtain ⟨hk, hks⟩ := List.nodup_cons.mp hnodup
    rw [List.flatMap_cons]
    refine ((ih hks).append_left _).trans ?_
    have hsplit := List.filter_append_perm (fun x => decide (key x = k))
      (l.filter fun x => key x ∈ k :: ks)
    have hfirst : (l.filter fun x => key x ∈ k :: ks).filter (fun x => decide (key x = k)) =
        group key l k := by
      rw [List.filter_filter, group]
      apply List.filter_congr
      intro x _
      by_cases hx : key x = k <;> simp [hx]
    have hsecond : (l.filter fun x => key x ∈ k :: ks).filter (fun x => !decide (key x = k)) =
        l.filter fun x => key x ∈ ks := by
      rw [List.filter_filter]
      apply List.filter_congr
      intro x _
      by_cases hx : key x = k
      · simp [hx, hk]
      · simp [hx]
    rw [hfirst, hsecond] at hsplit
    exact hsplit

/-- The groups of a list by its own keys are a partition of it. -/
theorem flatMap_group_perm (l : List α) : ((freshKeys key l []).flatMap (group key l)).Perm l := by
  refine (flatMap_group_perm_filter l (freshKeys_nodup l [])).trans ?_
  rw [List.filter_eq_self.mpr]
  intro x hx
  simpa [mem_freshKeys] using ⟨x, hx, rfl⟩

end Grouping

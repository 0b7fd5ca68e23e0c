import Mathlib.Data.List.Range
import Mathlib.Data.List.Sort

/-!
# A reader with a cursor

A reader of a numbered stream is at a cursor. Each read passes over some numbers that are
no longer to be had, takes the next ones, and moves the cursor behind them. Whatever the
reads were, each number before the cursor was taken once or passed over once, and the
numbers were taken in order.
-/

set_option autoImplicit false

structure Reader where
  cursor : Nat
  taken : List Nat
  missed : List Nat

namespace Reader

def start : Reader := ⟨0, [], []⟩

def read (r : Reader) (passed count : Nat) : Reader where
  cursor := r.cursor + passed + count
  taken := r.taken ++ List.range' (r.cursor + passed) count
  missed := r.missed ++ List.range' r.cursor passed

structure Accounts (r : Reader) : Prop where
  ordered : r.taken.Pairwise (· < ·)
  taken_lt : ∀ n ∈ r.taken, n < r.cursor
  missed_lt : ∀ n ∈ r.missed, n < r.cursor
  once : ∀ n, n < r.cursor → r.taken.count n + r.missed.count n = 1

theorem accounts_start : start.Accounts := by
  refine ⟨List.Pairwise.nil, ?_, ?_, ?_⟩
  · intro n hn
    cases hn
  · intro n hn
    cases hn
  · intro n hn
    cases hn

theorem count_range' (first len n : Nat) :
    (List.range' first len).count n = if first ≤ n ∧ n < first + len then 1 else 0 := by
  split
  · rename_i h
    exact List.count_eq_one_of_mem List.nodup_range' (List.mem_range'_1.mpr h)
  · rename_i h
    apply List.count_eq_zero_of_not_mem
    intro hmem
    exact h (List.mem_range'_1.mp hmem)

theorem Accounts.read {r : Reader} (h : r.Accounts) (passed count : Nat) :
    (r.read passed count).Accounts := by
  refine ⟨?_, ?_, ?_, ?_⟩
  · apply List.pairwise_append.mpr
    refine ⟨h.ordered, List.pairwise_lt_range', ?_⟩
    intro n hn n' hn'
    have hlt := h.taken_lt n hn
    have hle := (List.mem_range'_1.mp hn').1
    omega
  · intro n hn
    unfold Reader.read at hn ⊢
    cases List.mem_append.mp hn with
    | inl hold =>
      have hlt := h.taken_lt n hold
      dsimp only
      omega
    | inr hnew => exact (List.mem_range'_1.mp hnew).2
  · intro n hn
    unfold Reader.read at hn ⊢
    dsimp only
    cases List.mem_append.mp hn with
    | inl hold =>
      have hlt := h.missed_lt n hold
      omega
    | inr hnew =>
      have hlt := (List.mem_range'_1.mp hnew).2
      omega
  · intro n hn
    unfold Reader.read at hn ⊢
    dsimp only at hn ⊢
    rw [List.count_append, List.count_append, count_range', count_range']
    by_cases hold : n < r.cursor
    · have hone := h.once n hold
      rw [if_neg (by omega), if_neg (by omega)]
      exact hone
    · have htaken : r.taken.count n = 0 :=
        List.count_eq_zero_of_not_mem fun hmem => hold (h.taken_lt n hmem)
      have hmissed : r.missed.count n = 0 :=
        List.count_eq_zero_of_not_mem fun hmem => hold (h.missed_lt n hmem)
      rw [htaken, hmissed]
      by_cases hpassed : n < r.cursor + passed
      · rw [if_neg (by omega), if_pos (by omega)]
      · rw [if_pos (by omega), if_neg (by omega)]

end Reader

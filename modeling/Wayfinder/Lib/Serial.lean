import Mathlib.Data.BitVec

/-!
# Serial-number arithmetic on a wrapping counter

`dist a b` is the two's-complement reading of `b - a`: how far `b` is ahead of
`a` on the circle of `2 ^ w` values, negative when it is behind. It is exact as
long as the two points are less than half the circle apart.

`elapsed now earlier` is the same reading with the negative half cut to zero,
the usual way a wrapping clock measures an age.
-/

namespace Serial

set_option autoImplicit false

variable {w : Nat}

def dist (a b : BitVec w) : Int := (b - a).toInt

def elapsed (now earlier : BitVec w) : Nat := (dist earlier now).toNat

theorem dist_eq (a b : BitVec w) :
    dist a b = if 2 * (b - a).toNat < 2 ^ w then ((b - a).toNat : Int)
      else ((b - a).toNat : Int) - (2 ^ w : Nat) :=
  BitVec.toInt_eq_toNat_cond (b - a)

@[simp] theorem dist_self (a : BitVec w) : dist a a = 0 := by simp [dist]

/-- Only the difference counts, so both ends may be shifted alike. -/
@[simp] theorem dist_add_add (a b d : BitVec w) : dist (a + d) (b + d) = dist a b := by
  unfold dist
  rw [add_sub_add_right_eq_sub]

@[simp] theorem elapsed_add_add (now earlier d : BitVec w) :
    elapsed (now + d) (earlier + d) = elapsed now earlier := by
  unfold elapsed
  rw [dist_add_add]

theorem neg_half_le_dist (a b : BitVec w) : -(2 ^ w : Nat) ≤ 2 * dist a b := by
  have hlt := (b - a).isLt
  rw [dist_eq]
  split <;> omega

theorem dist_lt_half (a b : BitVec w) : 2 * dist a b < (2 ^ w : Nat) := by
  have hlt := (b - a).isLt
  rw [dist_eq]
  split <;> omega

theorem toNat_sub_of_dist_nonneg {a b : BitVec w} (h : 0 ≤ dist a b) :
    ((b - a).toNat : Int) = dist a b := by
  have hlt := (b - a).isLt
  rw [dist_eq] at h ⊢
  split at h
  · simp_all
  · omega

/-- Stepping the far end forward adds to the distance, as long as the sum stays
on the half circle where the reading is exact. -/
theorem dist_add (a b : BitVec w) (k : Nat) (hhi : 2 * (dist a b + k) < (2 ^ w : Nat)) :
    dist a (b + BitVec.ofNat w k) = dist a b + k := by
  have hlo := neg_half_le_dist a b
  have hpos : 0 < 2 ^ w := Nat.two_pow_pos w
  have hsum : b + BitVec.ofNat w k - a = b - a + BitVec.ofNat w k := BitVec.sub_add_comm.symm
  have hint : (dist a (b + BitVec.ofNat w k)) = (dist a b + (k : Int)).bmod (2 ^ w) := by
    simp only [dist, hsum, BitVec.toInt_add, BitVec.toInt_ofNat', Int.add_bmod_bmod]
  rw [hint]
  apply Int.bmod_eq_of_le_mul_two
  · push_cast at hlo ⊢
    omega
  · push_cast at hhi ⊢
    omega

theorem dist_add_self (a : BitVec w) (k : Nat) (h : 2 * k < 2 ^ w) :
    dist a (a + BitVec.ofNat w k) = k := by
  have := dist_add a a k (by simp only [dist_self]; omega)
  simpa using this

theorem dist_add_left_self (a : BitVec w) (k : Nat) (h : 2 * k < 2 ^ w) :
    dist (a + BitVec.ofNat w k) a = -k := by
  have hsub : a - (a + BitVec.ofNat w k) = -BitVec.ofNat w k := by
    rw [BitVec.sub_eq_add_neg, BitVec.neg_add, BitVec.sub_eq_add_neg, ← BitVec.add_assoc,
      BitVec.add_right_neg, BitVec.zero_add]
  have hhalf : (2 * k : Int) < (2 ^ w : Nat) := by exact_mod_cast h
  rw [dist, hsub, BitVec.toInt_neg, BitVec.toInt_ofNat', Int.bmod_neg_bmod]
  apply Int.bmod_eq_of_le_mul_two <;> omega

/-- A point that is `d ≥ 0` ahead is reached by adding `d`. -/
theorem eq_add_of_dist {a b : BitVec w} {d : Nat} (h : dist a b = d) :
    b = a + BitVec.ofNat w d := by
  have hd := toNat_sub_of_dist_nonneg (a := a) (b := b) (by omega)
  have hnat : (b - a).toNat = d := by omega
  have hba : b - a = BitVec.ofNat w d := by
    rw [← hnat, BitVec.ofNat_toNat, BitVec.setWidth_eq]
  rw [← hba, BitVec.add_comm, BitVec.sub_add_cancel]

/-- Stamps taken from one clock: the age is true while it is below half the range. -/
theorem elapsed_ofNat {m n : Nat} (hmn : m ≤ n) (h : 2 * (n - m) < 2 ^ w) :
    elapsed (BitVec.ofNat w n) (BitVec.ofNat w m) = n - m := by
  have hn : BitVec.ofNat w n = BitVec.ofNat w m + BitVec.ofNat w (n - m) := by
    rw [← BitVec.ofNat_add]
    congr 1
    omega
  rw [elapsed, hn, dist_add_self _ _ h]
  omega

/-- The general reading of an age: the residue, when it is below half the range. -/
theorem elapsed_of_mod {m n r : Nat} (hmn : m ≤ n) (hr : (n - m) % 2 ^ w = r)
    (h : 2 * r < 2 ^ w) : elapsed (BitVec.ofNat w n) (BitVec.ofNat w m) = r := by
  have hn : BitVec.ofNat w n = BitVec.ofNat w (m + r) := by
    apply BitVec.eq_of_toNat_eq
    simp only [BitVec.toNat_ofNat]
    have hsplit : n = m + r + 2 ^ w * ((n - m) / 2 ^ w) := by
      have hdiv := Nat.div_add_mod (n - m) (2 ^ w)
      omega
    rw [hsplit, Nat.add_mul_mod_self_left]
  rw [hn, elapsed_ofNat (by omega) (by omega)]
  omega

/-! ### An age while the clock runs on -/

theorem elapsed_eq (now earlier : BitVec w) : elapsed now earlier =
    if 2 * (now - earlier).toNat < 2 ^ w then (now - earlier).toNat else 0 := by
  have hlt := (now - earlier).isLt
  rw [elapsed, dist_eq]
  split <;> omega

theorem dist_nonneg_iff (a b : BitVec w) : 0 ≤ dist a b ↔ 2 * (b - a).toNat < 2 ^ w := by
  have hlt := (b - a).isLt
  rw [dist_eq]
  split <;> omega

theorem toNat_add_ofNat_sub (now earlier : BitVec w) (k : Nat) :
    (now + BitVec.ofNat w k - earlier).toNat = ((now - earlier).toNat + k) % 2 ^ w := by
  have hsum : now + BitVec.ofNat w k - earlier = now - earlier + BitVec.ofNat w k :=
    BitVec.sub_add_comm.symm
  rw [hsum, BitVec.toNat_add, BitVec.toNat_ofNat, Nat.add_mod_mod]

/-- A residue past the end of the circle, or before it. -/
theorem mod_cases (d k m : Nat) :
    d + k < m ∧ (d + k) % m = d + k ∨ m ≤ d + k ∧ (d + k) % m ≤ d + k - m := by
  rcases Nat.lt_or_ge (d + k) m with h | h
  · exact Or.inl ⟨h, Nat.mod_eq_of_lt h⟩
  · refine Or.inr ⟨h, ?_⟩
    rw [Nat.mod_eq_sub_mod h]
    exact Nat.mod_le _ _

/-- No age grows faster than the clock. -/
theorem elapsed_add_le (now earlier : BitVec w) (k : Nat) :
    elapsed (now + BitVec.ofNat w k) earlier ≤ elapsed now earlier + k := by
  have hlt := (now - earlier).isLt
  rw [elapsed_eq, elapsed_eq, toNat_add_ofNat_sub]
  rcases mod_cases (now - earlier).toNat k (2 ^ w) with ⟨hin, hmod⟩ | ⟨hout, hmod⟩ <;>
    split <;> split <;> omega

/-- An age comes up to what it is counted on to reach, exactly if its start is behind and it
stays within half the circle. -/
theorem reach_iff {now earlier : BitVec w} {k n : Nat} (hk : 0 < k)
    (hn : n = elapsed now earlier + k) (hlt : n < 2 ^ w) :
    n ≤ elapsed (now + BitVec.ofNat w k) earlier ↔ 0 ≤ dist earlier now ∧ 2 * n < 2 ^ w := by
  have hbound := (now - earlier).isLt
  rw [dist_nonneg_iff]
  rw [elapsed_eq] at hn
  rw [elapsed_eq, toNat_add_ofNat_sub]
  rcases mod_cases (now - earlier).toNat k (2 ^ w) with ⟨hin, hmod⟩ | ⟨hout, hmod⟩
  · rw [hmod]
    split at hn <;> split <;> omega
  · split at hn <;> split <;> omega

theorem beyond_iff {now earlier : BitVec w} {k n : Nat}
    (hn : n < elapsed now earlier + k) (hk : k ≤ n) :
    n < elapsed (now + BitVec.ofNat w k) earlier ↔ 2 * (elapsed now earlier + k) < 2 ^ w := by
  have hbound := (now - earlier).isLt
  rw [elapsed_eq] at hn ⊢
  rw [elapsed_eq, toNat_add_ofNat_sub]
  split at hn
  · rename_i hhalf
    rw [if_pos hhalf]
    rcases mod_cases (now - earlier).toNat k (2 ^ w) with ⟨hin, hmod⟩ | ⟨hout, hmod⟩
    · rw [hmod]
      split <;> omega
    · split <;> omega
  · omega

end Serial

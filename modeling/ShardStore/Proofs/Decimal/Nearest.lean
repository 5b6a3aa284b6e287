import ShardStore.Proofs.Decimal.Rounding
import ShardStore.Proofs.Decimal.Screen
/-!
# Decimal — numerals read as doubles

The double that a numeral is read as is the one nearest to the number that
it denotes (`isNearest_of_number?`). Where the reader takes a short cut the
number is so large that no finite double is nearest, or so small that zero
is.
-/

namespace ShardStore

namespace Decimal

variable {d : Decimal}

theorem size_nonneg (d : Decimal) : 0 ≤ d.size := by
  unfold size
  positivity

/-- Ten to the minus 324 is less than half of the smallest double. -/
theorem two_mul_lt_leastPositive {q : ℚ} (h : q ≤ 10 ^ (-324 : ℤ)) :
    2 * q < Binary64.leastPositive := by
  obtain ⟨e, he⟩ : ∃ e, e = 1074 := ⟨_, rfl⟩
  obtain ⟨b, hb⟩ : ∃ b, b = 324 := ⟨_, rfl⟩
  have hnat : 2 * 2 ^ e < 10 ^ b := by
    subst he hb
    decide +kernel
  have hpow : (2 * 2 ^ e : ℚ) < 10 ^ b := by exact_mod_cast hnat
  have hten : (10 : ℚ) ^ (-324 : ℤ) = (10 ^ b)⁻¹ := by
    rw [← zpow_natCast, ← zpow_neg, hb]
    rfl
  have hleast : Binary64.leastPositive = (2 ^ e)⁻¹ :=
    eq_inv_of_mul_eq_one_right (Binary64.pow_mul_leastPositive he)
  rw [hten] at h
  rw [hleast]
  calc 2 * q ≤ 2 * (10 ^ b)⁻¹ := by linarith only [h]
    _ < (2 ^ e)⁻¹ := by
      rw [← div_eq_mul_inv, inv_eq_one_div, div_lt_div_iff₀ (by positivity) (by positivity),
        one_mul]
      exact hpow

/-- The digits of a tiny number are outweighed by its exponent. -/
theorem size_le_of_tiny (h : d.exponent + d.significand.log2 + 1 ≤ -324) :
    d.size ≤ 10 ^ (-324 : ℤ) := by
  have hdigits : (d.significand : ℚ) ≤ 10 ^ ((d.significand.log2 + 1 : ℕ) : ℤ) := by
    have hlog : d.significand < 2 ^ (d.significand.log2 + 1) := Nat.lt_log2_self
    have hten : d.significand ≤ 10 ^ (d.significand.log2 + 1) :=
      hlog.le.trans (Nat.pow_le_pow_left (by decide) _)
    rw [zpow_natCast]
    exact_mod_cast hten
  calc d.size ≤ 10 ^ ((d.significand.log2 + 1 : ℕ) : ℤ) * 10 ^ d.exponent :=
        mul_le_mul_of_nonneg_right hdigits (by positivity)
    _ = 10 ^ (((d.significand.log2 + 1 : ℕ) : ℤ) + d.exponent) := (zpow_add₀ (by norm_num) _ _).symm
    _ ≤ 10 ^ (-324 : ℤ) := zpow_le_zpow_right₀ (by norm_num) (by push_cast; omega)

/-- The number as a fraction of two natural numbers. -/
theorem size_eq_div (d : Decimal) :
    d.size = ((d.significand * 10 ^ d.exponent.toNat : ℕ) : ℚ) / ((10 ^ (-d.exponent).toNat : ℕ) : ℚ) := by
  have hten : (10 : ℚ) ≠ 0 := by norm_num
  rw [size]
  push_cast
  rw [mul_div_assoc, ← zpow_natCast, ← zpow_natCast, ← zpow_sub₀ hten]
  congr 2
  omega

/-- **The rank of a decimal is the nearest one**, unless it is taken for huge. -/
theorem isNearest_of_not_huge (h : d.significand = 0 ∨ d.exponent < 309) :
    Binary64.IsNearest d.nearestRank d.size := by
  have hzero : Binary64.rankValue 0 = 0 := by simp [Binary64.rankValue]
  -- What lies between zero and the middle of the first step is rounded to zero.
  have hsmall : 2 * d.size < Binary64.leastPositive → Binary64.IsNearest 0 d.size := by
    intro hlt
    have hone : Binary64.rankValue (0 + 1) = Binary64.leastPositive := by
      simp [Binary64.rankValue, Binary64.units]
    refine .of_lower (hzero.le.trans d.size_nonneg) (.inl ?_)
    rwa [hzero, hone, zero_add]
  unfold nearestRank
  split
  · next hnone =>
    have hsize : d.size = 0 := by simp [size, hnone]
    refine hsmall ?_
    rw [hsize, mul_zero]
    exact Binary64.leastPositive_pos
  · next hsome =>
    rw [if_neg (not_le.2 (h.resolve_left hsome))]
    split
    · next htiny => exact hsmall (two_mul_lt_leastPositive (size_le_of_tiny htiny))
    · rw [size_eq_div]
      exact Binary64.isNearest_nearestRank _ (Nat.pow_pos (by decide))

theorem nearestRank_of_huge (h : d.significand ≠ 0) (h' : 309 ≤ d.exponent) :
    d.nearestRank = Binary64.rankBound := by
  rw [nearestRank, if_neg h, if_pos h']

theorem isNearest_nearestRank (h : d.nearestRank < Binary64.rankBound) :
    Binary64.IsNearest d.nearestRank d.size := by
  refine isNearest_of_not_huge ?_
  by_contra hhuge
  rw [not_or, not_lt] at hhuge
  exact h.ne (nearestRank_of_huge hhuge.1 hhuge.2)

/-- What a decimal is read as has its sign, and its nearest rank. -/
theorem nearest?_eq_some {x : Binary64} (h : d.nearest? = some x) :
    x.negative = d.negative ∧ x.rank = d.nearestRank := by
  unfold nearest? at h
  split at h
  · cases h
    exact ⟨rfl, rfl⟩
  · cases h

/-- **The double that a text is read as is nearest** to the number that the
text denotes. -/
theorem isNearest_of_number? {s : String} {x : Binary64} {q : ℚ} (h : number? s = some x)
    (hq : Denotes s q) : Binary64.IsNearest x.signedRank q := by
  obtain ⟨d, hread, rfl⟩ := denotes_iff.1 hq
  rw [number?_eq_bind_nearest?, hread, Option.bind_some] at h
  obtain ⟨hsign, hrank⟩ := nearest?_eq_some h
  have hnearest : Binary64.IsNearest x.rank d.size := by
    rw [hrank]
    exact isNearest_nearestRank (hrank ▸ x.finite)
  rw [Binary64.signedRank, value, hsign]
  cases d.negative with
  | false => exact hnearest
  | true => exact hnearest.neg

end Decimal

end ShardStore

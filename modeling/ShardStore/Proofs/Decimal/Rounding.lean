import Mathlib.Algebra.Order.Field.Power
import Mathlib.Algebra.Ring.Int.Parity
import Mathlib.Data.Int.ConditionallyCompleteOrder
import Mathlib.Order.Compare
import Mathlib.Tactic.FieldSimp
import Mathlib.Tactic.Linarith
import Mathlib.Tactic.Positivity
import Mathlib.Tactic.Ring
import ShardStore.Decimal.Binary64
/-!
# Decimal — rounding to the nearest double

The doubles are numbered by their signed ranks, and the numbers that they
stand for grow with the rank (`rankValue_strictMono`). So a rational lies
between two neighbours, and rounding chooses the nearer one, or the even one
of two that are equally near (`isNearest_nearestRank`). What is nearest is so
by its distances alone, which makes it unique (`IsNearest.unique`) and
rounding monotone (`IsNearest.mono`).
-/

namespace ShardStore

namespace Binary64

/-! ## The numbers of the ranks -/

/-- The smallest positive double, of which every other one is a multiple. -/
def leastPositive : ℚ :=
  2 ^ (-1074 : ℤ)

theorem leastPositive_pos : 0 < leastPositive :=
  zpow_pos two_pos _

/-- One is a multiple of it. The exponent is kept closed, so that nothing
computes the power. -/
theorem pow_mul_leastPositive {e : ℕ} (he : e = 1074) : 2 ^ e * leastPositive = 1 := by
  have hleast : leastPositive = 2 ^ (-(e : ℤ)) := by
    rw [he]
    rfl
  rw [hleast, zpow_neg, zpow_natCast]
  exact mul_inv_cancel₀ (by positivity)

/-- The number of a signed rank, which counts on beyond the finite doubles. -/
def rankValue (k : ℤ) : ℚ :=
  k.sign * units k.natAbs * leastPositive

/-- The number that a double stands for. -/
def value (x : Binary64) : ℚ :=
  rankValue x.signedRank

/-- A rank with a significand and a scale: all have one of up to 53 bits, and
53 of them unless the scale is zero. -/
theorem units_scaled {s m : ℕ} (hlow : 2 ^ 52 ≤ m ∨ s = 0) (hhigh : m ≤ 2 ^ 53) :
    units (s * 2 ^ 52 + m) = m * 2 ^ s := by
  have hunits : ∀ k, units k = if k < 2 ^ 52 then k
      else (k % 2 ^ 52 + 2 ^ 52) * 2 ^ (k / 2 ^ 52 - 1) := fun _ => rfl
  rw [hunits]
  by_cases hsmall : m < 2 ^ 52
  · obtain rfl : s = 0 := hlow.resolve_left (by omega)
    rw [zero_mul, zero_add, if_pos hsmall, pow_zero, mul_one]
  · rw [if_neg (by omega)]
    by_cases htop : m = 2 ^ 53
    · -- All bits have carried, and the next scale begins.
      have hdiv : (s * 2 ^ 52 + m) / 2 ^ 52 - 1 = s + 1 := by omega
      have hmod : (s * 2 ^ 52 + m) % 2 ^ 52 = 0 := by omega
      rw [hdiv, hmod, htop, zero_add, ← pow_add, ← pow_add]
      congr 1
      omega
    · have hdiv : (s * 2 ^ 52 + m) / 2 ^ 52 - 1 = s := by omega
      have hmod : (s * 2 ^ 52 + m) % 2 ^ 52 + 2 ^ 52 = m := by omega
      rw [hdiv, hmod]

theorem exists_scaled (k : ℕ) :
    ∃ s m, k = s * 2 ^ 52 + m ∧ (2 ^ 52 ≤ m ∨ s = 0) ∧ m < 2 ^ 53 := by
  by_cases hsmall : k < 2 ^ 52
  · exact ⟨0, k, by simp, .inr rfl, by omega⟩
  · exact ⟨k / 2 ^ 52 - 1, k % 2 ^ 52 + 2 ^ 52, by omega, .inl (by omega), by omega⟩

theorem units_strictMono : StrictMono units := by
  refine strictMono_nat_of_lt_succ fun k => ?_
  obtain ⟨s, m, rfl, hlow, hhigh⟩ := exists_scaled k
  rw [add_assoc, units_scaled hlow hhigh.le, units_scaled (hlow.imp_left Nat.le_succ_of_le) hhigh]
  exact Nat.mul_lt_mul_of_pos_right (Nat.lt_succ_self m) (Nat.two_pow_pos s)

@[simp] theorem units_zero : units 0 = 0 := rfl

theorem rankValue_natCast (k : ℕ) : rankValue k = units k * leastPositive := by
  rcases Nat.eq_zero_or_pos k with rfl | hk
  · simp [rankValue]
  · simp [rankValue, Int.sign_eq_one_of_pos (show (0 : ℤ) < k by exact_mod_cast hk)]

theorem rankValue_neg (k : ℤ) : rankValue (-k) = -rankValue k := by
  simp [rankValue]

/-- **The higher the rank, the greater the number.** -/
theorem rankValue_strictMono : StrictMono rankValue := by
  have hup : ∀ {k j : ℤ}, 0 ≤ k → k < j → rankValue k < rankValue j := by
    intro k j hk hlt
    lift k to ℕ using hk
    lift j to ℕ using by omega
    rw [rankValue_natCast, rankValue_natCast]
    exact mul_lt_mul_of_pos_right (by exact_mod_cast units_strictMono (by omega)) leastPositive_pos
  have hdown : ∀ {k j : ℤ}, j ≤ 0 → k < j → rankValue k < rankValue j := by
    intro k j hj hlt
    have hneg : rankValue (-j) < rankValue (-k) := hup (by omega) (by omega)
    rwa [rankValue_neg, rankValue_neg, neg_lt_neg_iff] at hneg
  intro k j hlt
  by_cases hk : 0 ≤ k
  · exact hup hk hlt
  · by_cases hj : j ≤ 0
    · exact hdown hj hlt
    · exact (hdown le_rfl (by omega)).trans (hup le_rfl (by omega))

/-! ## What is nearest -/

/-- No rank is nearer to a rational, and of two that are equally near it is
the even one. -/
structure IsNearest (k : ℤ) (q : ℚ) : Prop where
  near : ∀ j, |rankValue k - q| ≤ |rankValue j - q|
  even : ∀ j, j ≠ k → |rankValue j - q| = |rankValue k - q| → Even k

namespace IsNearest

variable {k j : ℤ} {p q : ℚ}

/-- What is nearer than a greater number lies beyond the middle between
them. -/
theorem add_le_of_abs_le {a b q : ℚ} (hlt : b < a) (h : |a - q| ≤ |b - q|) : a + b ≤ 2 * q := by
  have hsquare := sq_le_sq.2 h
  nlinarith only [hlt, hsquare]

theorem le_add_of_abs_le {a b q : ℚ} (hlt : b < a) (h : |b - q| ≤ |a - q|) : 2 * q ≤ a + b := by
  have hsquare := sq_le_sq.2 h
  nlinarith only [hlt, hsquare]

/-- **Rounding is monotone.** -/
theorem mono (h : IsNearest k p) (h' : IsNearest j q) (hlt : p < q) : k ≤ j := by
  by_contra hgt
  have hvalue : rankValue j < rankValue k := rankValue_strictMono (not_le.1 hgt)
  have hlow := add_le_of_abs_le hvalue (h.near j)
  have hhigh := le_add_of_abs_le hvalue (h'.near k)
  linarith only [hlow, hhigh, hlt]

/-- Of two ranks that are nearest the lower one is not below the other. -/
theorem le_of_isNearest (h : IsNearest k q) (h' : IsNearest j q) : k ≤ j := by
  by_contra hgt
  have hvalue : rankValue j < rankValue k := rankValue_strictMono (not_le.1 hgt)
  have hlow := add_le_of_abs_le hvalue (h.near j)
  have hhigh := le_add_of_abs_le hvalue (h'.near k)
  have hsame : |rankValue j - q| = |rankValue k - q| := le_antisymm (h'.near k) (h.near j)
  -- Both are even, so a rank between them would be nearer than either.
  obtain ⟨m, rfl⟩ := h.even j (by omega) hsame
  obtain ⟨n, rfl⟩ := h'.even (m + m) (by omega) hsame.symm
  have hbelow : rankValue (n + n) < rankValue (n + n + 1) := rankValue_strictMono (by omega)
  have habove : rankValue (n + n + 1) < rankValue (m + m) := rankValue_strictMono (by omega)
  have hmiddle := add_le_of_abs_le habove (h.near (n + n + 1))
  linarith only [hmiddle, hlow, hhigh, hbelow, habove]

/-- **Only one rank is nearest.** -/
theorem unique (h : IsNearest k q) (h' : IsNearest j q) : k = j :=
  le_antisymm (h.le_of_isNearest h') (h'.le_of_isNearest h)

theorem neg (h : IsNearest k q) : IsNearest (-k) (-q) := by
  have hdistance : ∀ j, |rankValue (-j) - -q| = |rankValue j - q| := fun j => by
    rw [rankValue_neg, neg_sub_neg, abs_sub_comm]
  have hdistance' : ∀ j, |rankValue j - -q| = |rankValue (-j) - q| := fun j => by
    rw [← hdistance, neg_neg]
  refine ⟨fun j => ?_, fun j hne heq => ?_⟩
  · rw [hdistance, hdistance']
    exact h.near (-j)
  · rw [hdistance, hdistance'] at heq
    exact (h.even (-j) (by omega) heq).neg

/-- **The lower one of two neighbours is nearest** to what lies between them,
below the middle or on it if the rank is even. -/
theorem of_lower (hlow : rankValue k ≤ q)
    (h : 2 * q < rankValue k + rankValue (k + 1) ∨
      2 * q = rankValue k + rankValue (k + 1) ∧ Even k) : IsNearest k q := by
  have hmiddle : 2 * q ≤ rankValue k + rankValue (k + 1) := h.elim le_of_lt fun h => h.1.le
  have hhere : |rankValue k - q| = q - rankValue k := by
    rw [abs_sub_comm, abs_of_nonneg (sub_nonneg.2 hlow)]
  have hbelow : ∀ {j}, j < k → q - rankValue k < |rankValue j - q| := by
    intro j hj
    have hvalue : rankValue j < rankValue k := rankValue_strictMono hj
    rw [abs_sub_comm, abs_of_nonneg (by linarith only [hvalue, hlow])]
    linarith only [hvalue]
  have habove : ∀ {j}, k < j → rankValue (k + 1) - q ≤ |rankValue j - q| := by
    intro j hj
    have hvalue : rankValue (k + 1) ≤ rankValue j := rankValue_strictMono.monotone hj
    exact (sub_le_sub_right hvalue q).trans (le_abs_self _)
  refine ⟨fun j => ?_, fun j hne heq => ?_⟩
  · rw [hhere]
    rcases lt_trichotomy j k with hj | rfl | hj
    · exact (hbelow hj).le
    · exact hhere.ge
    · linarith only [habove hj, hmiddle]
  · rw [hhere] at heq
    rcases lt_or_gt_of_ne hne with hj | hj
    · exact absurd heq (hbelow hj).ne'
    · -- Equally far from both sides is in the middle, where the rank is even.
      refine (h.resolve_left ?_).2
      linarith only [habove hj, heq]

/-- **So is the upper one**, above the middle or on it if its rank is even. -/
theorem of_upper (hhigh : q ≤ rankValue (k + 1))
    (h : rankValue k + rankValue (k + 1) < 2 * q ∨
      2 * q = rankValue k + rankValue (k + 1) ∧ Even (k + 1)) : IsNearest (k + 1) q := by
  have hnext : rankValue (-(k + 1) + 1) = -rankValue k := by
    rw [← rankValue_neg]
    congr 1
    ring
  have hlower : IsNearest (-(k + 1)) (-q) := by
    refine of_lower ?_ ?_
    · rw [rankValue_neg]
      exact neg_le_neg hhigh
    · rw [rankValue_neg, hnext]
      rcases h with h | ⟨h, heven⟩
      · exact .inl (by linarith only [h])
      · exact .inr ⟨by linarith only [h], heven.neg⟩
  have hneg := hlower.neg
  rwa [neg_neg, neg_neg] at hneg

end IsNearest

/-! ## Rounding a fraction -/

/-- The steps of a fraction, cut down to a significand of 53 bits. -/
theorem scale_bounds (n d : ℕ) :
    (2 ^ 52 ≤ n / d / 2 ^ scale n d ∨ scale n d = 0) ∧ n / d / 2 ^ scale n d < 2 ^ 53 := by
  have hscale : scale n d = (n / d).log2 - 52 := rfl
  rcases Nat.eq_zero_or_pos (n / d) with hzero | hpos
  · simp [hscale, hzero]
  · have hlow : 2 ^ (n / d).log2 ≤ n / d := Nat.log2_self_le hpos.ne'
    have hhigh : n / d < 2 ^ ((n / d).log2 + 1) := Nat.lt_log2_self
    refine ⟨?_, ?_⟩
    · by_cases h : scale n d = 0
      · exact .inr h
      · refine .inl ((Nat.le_div_iff_mul_le (Nat.two_pow_pos _)).2 ?_)
        rw [← pow_add]
        convert hlow using 2
        omega
    · rw [Nat.div_lt_iff_lt_mul (Nat.two_pow_pos _), ← pow_add]
      exact hhigh.trans_le (Nat.pow_le_pow_right (by decide) (by omega))

section Neighbours

variable {s m r d : ℕ}

/-- The number of a rank with a significand and a scale. -/
theorem rankValue_scaled (hlow : 2 ^ 52 ≤ m ∨ s = 0) (hhigh : m ≤ 2 ^ 53) :
    rankValue ((s * 2 ^ 52 + m : ℕ) : ℤ) = m * 2 ^ s * leastPositive := by
  rw [rankValue_natCast, units_scaled hlow hhigh]
  push_cast
  rfl

/-- The rank above has the next significand, also where all its bits carry. -/
theorem rankValue_scaled_succ (hlow : 2 ^ 52 ≤ m ∨ s = 0) (hhigh : m < 2 ^ 53) :
    rankValue (((s * 2 ^ 52 + m : ℕ) : ℤ) + 1) = (m + 1) * 2 ^ s * leastPositive := by
  have hnext := rankValue_scaled (hlow.imp_left Nat.le_succ_of_le) hhigh
  push_cast at hnext ⊢
  rw [add_assoc, hnext]

/-- How far a number with a remainder is from the middle of its neighbours. -/
theorem twice_sub_neighbours (hd : 0 < d) :
    2 * ((m * 2 ^ s + r / d) * leastPositive) -
        (m * 2 ^ s * leastPositive + (m + 1) * 2 ^ s * leastPositive) =
      (2 * r - d * 2 ^ s) / d * leastPositive := by
  have hd' : (d : ℚ) ≠ 0 := by exact_mod_cast hd.ne'
  field_simp
  ring

/-- **With a remainder of less than half a step the rank below is nearest**,
and with half a step if it is even. -/
theorem isNearest_below (hd : 0 < d) (hlow : 2 ^ 52 ≤ m ∨ s = 0) (hhigh : m < 2 ^ 53)
    (h : 2 * r < d * 2 ^ s ∨ 2 * r = d * 2 ^ s ∧ Even m) :
    IsNearest ((s * 2 ^ 52 + m : ℕ) : ℤ) ((m * 2 ^ s + r / d) * leastPositive) := by
  have hd' : (0 : ℚ) < d := by exact_mod_cast hd
  have hmiddle := @twice_sub_neighbours s m r d hd
  rw [← rankValue_scaled hlow hhigh.le, ← rankValue_scaled_succ hlow hhigh] at hmiddle
  refine .of_lower ?_ ?_
  · rw [rankValue_scaled hlow hhigh.le]
    exact mul_le_mul_of_nonneg_right (le_add_of_nonneg_right (by positivity)) leastPositive_pos.le
  · rcases h with hless | ⟨htie, heven⟩
    · have hneg : (2 * r - d * 2 ^ s : ℚ) < 0 := sub_neg.2 (by exact_mod_cast hless)
      refine .inl (sub_neg.1 ?_)
      rw [hmiddle]
      exact mul_neg_of_neg_of_pos (div_neg_of_neg_of_pos hneg hd') leastPositive_pos
    · have hzero : (2 * r - d * 2 ^ s : ℚ) = 0 := sub_eq_zero.2 (by exact_mod_cast htie)
      rw [hzero, zero_div, zero_mul, sub_eq_zero] at hmiddle
      refine .inr ⟨hmiddle, Int.even_iff.2 ?_⟩
      have hm := Nat.even_iff.1 heven
      omega

/-- **With a remainder of more than half a step the rank above is nearest**,
and with half a step if it is even. -/
theorem isNearest_above (hd : 0 < d) (hlow : 2 ^ 52 ≤ m ∨ s = 0) (hhigh : m < 2 ^ 53)
    (hrest : r ≤ d * 2 ^ s) (h : d * 2 ^ s < 2 * r ∨ 2 * r = d * 2 ^ s ∧ ¬ Even m) :
    IsNearest ((s * 2 ^ 52 + (m + 1) : ℕ) : ℤ) ((m * 2 ^ s + r / d) * leastPositive) := by
  have hd' : (0 : ℚ) < d := by exact_mod_cast hd
  have hmiddle := @twice_sub_neighbours s m r d hd
  rw [← rankValue_scaled hlow hhigh.le, ← rankValue_scaled_succ hlow hhigh] at hmiddle
  have hpart : (r : ℚ) / d ≤ 2 ^ s := by
    rw [div_le_iff₀ hd', mul_comm]
    exact_mod_cast hrest
  have hcarried : ((s * 2 ^ 52 + (m + 1) : ℕ) : ℤ) = ((s * 2 ^ 52 + m : ℕ) : ℤ) + 1 := by
    push_cast
    ring
  rw [hcarried]
  refine .of_upper ?_ ?_
  · rw [rankValue_scaled_succ hlow hhigh, add_mul (m : ℚ), one_mul]
    exact mul_le_mul_of_nonneg_right (add_le_add_right hpart _) leastPositive_pos.le
  · rcases h with hmore | ⟨htie, hodd⟩
    · have hpos : (0 : ℚ) < 2 * r - d * 2 ^ s := sub_pos.2 (by exact_mod_cast hmore)
      refine .inl (sub_pos.1 ?_)
      rw [hmiddle]
      exact mul_pos (div_pos hpos hd') leastPositive_pos
    · have hzero : (2 * r - d * 2 ^ s : ℚ) = 0 := sub_eq_zero.2 (by exact_mod_cast htie)
      rw [hzero, zero_div, zero_mul, sub_eq_zero] at hmiddle
      refine .inr ⟨hmiddle, Int.even_iff.2 ?_⟩
      rw [Nat.even_iff] at hodd
      omega

/-- **Rounding to even is rounding to the nearest rank**, where it leaves a
significand of 53 bits, or of fewer at the scale zero. -/
theorem isNearest_divideToEven {steps : ℕ} (hd : 0 < d)
    (hlow : 2 ^ 52 ≤ steps / (d * 2 ^ s) ∨ s = 0) (hhigh : steps / (d * 2 ^ s) < 2 ^ 53) :
    IsNearest ((s * 2 ^ 52 + divideToEven steps (d * 2 ^ s) : ℕ) : ℤ)
      (steps / d * leastPositive) := by
  have hsplit : d * 2 ^ s * (steps / (d * 2 ^ s)) + steps % (d * 2 ^ s) = steps :=
    Nat.div_add_mod steps (d * 2 ^ s)
  have hrest : steps % (d * 2 ^ s) < d * 2 ^ s := Nat.mod_lt _ (by positivity)
  unfold divideToEven
  generalize steps / (d * 2 ^ s) = m, steps % (d * 2 ^ s) = r at *
  have hvalue : (steps : ℚ) / d * leastPositive = (m * 2 ^ s + r / d) * leastPositive := by
    have hd' : (d : ℚ) ≠ 0 := by exact_mod_cast hd.ne'
    rw [← hsplit]
    push_cast
    field_simp
  rw [hvalue]
  dsimp only
  split_ifs with hless hmore
  · exact isNearest_below hd hlow hhigh (.inl hless)
  · exact isNearest_above hd hlow hhigh hrest.le (.inl hmore)
  · have htie : 2 * r = d * 2 ^ s := le_antisymm (not_lt.1 hmore) (not_lt.1 hless)
    by_cases heven : Even m
    · rw [Nat.even_iff.1 heven]
      exact isNearest_below hd hlow hhigh (.inr ⟨htie, heven⟩)
    · rw [Nat.not_even_iff.1 heven]
      exact isNearest_above hd hlow hhigh hrest.le (.inr ⟨htie, heven⟩)

end Neighbours

/-- **A fraction is rounded to the nearest rank.** -/
theorem isNearest_nearestRank (n : ℕ) {d : ℕ} (hd : 0 < d) :
    IsNearest (nearestRank n d) (n / d) := by
  obtain ⟨e, he⟩ : ∃ e, e = 1074 := ⟨_, rfl⟩
  have hrank : nearestRank n d = scale (n * 2 ^ e) d * 2 ^ 52 +
      divideToEven (n * 2 ^ e) (d * 2 ^ scale (n * 2 ^ e) d) := by
    unfold nearestRank
    rw [← he]
    rfl
  have hvalue : ((n * 2 ^ e : ℕ) : ℚ) / d * leastPositive = n / d := by
    rw [Nat.cast_mul, Nat.cast_pow, Nat.cast_ofNat, mul_div_right_comm, mul_assoc,
      pow_mul_leastPositive he, mul_one]
  obtain ⟨hlow, hhigh⟩ := scale_bounds (n * 2 ^ e) d
  rw [Nat.div_div_eq_div_mul] at hlow hhigh
  rw [hrank, ← hvalue]
  exact isNearest_divideToEven hd hlow hhigh

/-! ## Integers -/

end Binary64

end ShardStore

import ShardStore.Proofs.Decimal.Nearest
/-!
# Decimal — the range of the doubles

A decimal has a double exactly if it lies below the middle between the
greatest double and the next power of two (`nearestRank_lt_iff`): from there
on rounding, which prefers the even rank, leaves the doubles. So a text has a
number exactly if it is a numeral within this range (`isSome_number?_iff`), and
the number is the double nearest to it, with its sign (`negative_of_number?`).
-/

namespace ShardStore

namespace Binary64

/-- The least size that is rounded to no double: the middle between the
greatest double and the power of two above it. -/
def overflow : ℚ :=
  2 ^ 1024 - 2 ^ 970

/-- A power of two, counted in steps of the smallest double. -/
theorem pow_mul_leastPositive_eq {t e : ℕ} (he : e = t + 1074) :
    2 ^ e * leastPositive = 2 ^ t := by
  obtain ⟨b, hb⟩ : ∃ b, b = 1074 := ⟨_, rfl⟩
  rw [he, ← hb, pow_add, mul_assoc, pow_mul_leastPositive hb, mul_one]

/-- The rank behind the last one would be that of a power of two. -/
theorem rankValue_rankBound : rankValue rankBound = 2 ^ 1024 := by
  obtain ⟨s, hs⟩ : ∃ s, s = 2046 := ⟨_, rfl⟩
  have hrank : rankBound = s * 2 ^ 52 + 2 ^ 52 := by
    rw [hs]
    rfl
  rw [hrank, rankValue_scaled (.inl le_rfl) (by decide), Nat.cast_pow, Nat.cast_ofNat, ← pow_add]
  exact pow_mul_leastPositive_eq (by omega)

/-- The greatest double has a significand of 53 ones. -/
theorem rankValue_last : rankValue (rankBound - 1) = 2 ^ 1024 - 2 ^ 971 := by
  obtain ⟨s, hs⟩ : ∃ s, s = 2045 := ⟨_, rfl⟩
  have hrank : ((rankBound : ℕ) : ℤ) - 1 = ((s * 2 ^ 52 + (2 ^ 53 - 1) : ℕ) : ℤ) := by
    rw [hs]
    rfl
  rw [hrank, rankValue_scaled (.inl (by decide)) (by decide), Nat.cast_sub Nat.one_le_two_pow,
    Nat.cast_pow, Nat.cast_ofNat, Nat.cast_one, sub_mul, sub_mul, one_mul, ← pow_add,
    pow_mul_leastPositive_eq (show 53 + s = 1024 + 1074 by omega),
    pow_mul_leastPositive_eq (show s = 971 + 1074 by omega)]

/-- Where rounding leaves the doubles is the middle of the last two ranks. -/
theorem two_mul_overflow : 2 * overflow = rankValue rankBound + rankValue (rankBound - 1) := by
  have hpow : (2 : ℚ) ^ 971 = 2 * 2 ^ 970 := pow_succ' 2 970
  rw [rankValue_rankBound, rankValue_last, overflow, hpow, mul_sub, two_mul, add_sub_assoc]

theorem odd_last : ¬ Even ((rankBound : ℤ) - 1) := by decide

variable {k : ℤ} {q : ℚ}

/-- **Rounding stays within the doubles up to the middle behind the last
one**, which it rounds up. -/
theorem IsNearest.lt_rankBound_iff (h : IsNearest k q) : k < rankBound ↔ q < overflow := by
  constructor
  · intro hlt
    have hvalue : rankValue k < rankValue rankBound := rankValue_strictMono hlt
    have hmiddle := IsNearest.le_add_of_abs_le hvalue (h.near rankBound)
    have htop : rankValue k ≤ rankValue (rankBound - 1) :=
      rankValue_strictMono.monotone (Int.le_sub_one_of_lt hlt)
    have hle : q ≤ overflow := by linarith only [hmiddle, htop, two_mul_overflow]
    refine lt_of_le_of_ne hle fun heq => ?_
    -- In the middle the last rank would have to be even.
    have hlast : rankValue k = rankValue (rankBound - 1) := by
      linarith only [hmiddle, htop, two_mul_overflow, heq]
    obtain rfl := rankValue_strictMono.injective hlast
    refine odd_last (h.even rankBound (by omega) ?_)
    rw [abs_of_nonneg (by linarith only [hvalue, two_mul_overflow, heq]), abs_of_nonpos
      (by linarith only [hvalue, two_mul_overflow, heq])]
    linarith only [two_mul_overflow, heq]
  · intro hlt
    by_contra hge
    have hvalue : rankValue (rankBound - 1) < rankValue k := rankValue_strictMono (by omega)
    have hmiddle := IsNearest.add_le_of_abs_le hvalue (h.near (rankBound - 1))
    have hbeyond : rankValue rankBound ≤ rankValue k :=
      rankValue_strictMono.monotone (not_lt.1 hge)
    linarith only [hmiddle, hbeyond, two_mul_overflow, hlt]

/-- The bits of a double are never those of an infinity or of no number,
whose exponents have eleven ones. -/
theorem exponent_bits_lt (x : Binary64) : x.bits / 2 ^ 52 % 2 ^ 11 < 2047 := by
  have hfinite : x.rank < 2047 * 2 ^ 52 := x.finite
  have hbits : x.bits = (if x.negative then 2 ^ 63 else 0) + x.rank := rfl
  rw [hbits]
  split <;> omega

end Binary64

namespace Decimal

variable {d : Decimal} {s : String} {negative : Bool} {q : ℚ}

/-- What the digits are skipped for is beyond the range. -/
theorem overflow_le_of_huge (h : d.significand ≠ 0) (h' : 309 ≤ d.exponent) :
    Binary64.overflow ≤ d.size := by
  obtain ⟨e, he⟩ : ∃ e, e = 1024 := ⟨_, rfl⟩
  obtain ⟨b, hb⟩ : ∃ b, b = 309 := ⟨_, rfl⟩
  have hnat : 2 ^ e ≤ 10 ^ b := by
    subst he hb
    decide +kernel
  have hpow : (2 ^ e : ℚ) ≤ 10 ^ b := by exact_mod_cast hnat
  have hdigits : (1 : ℚ) ≤ d.significand := by exact_mod_cast Nat.one_le_iff_ne_zero.2 h
  calc Binary64.overflow ≤ 2 ^ 1024 := sub_le_self _ (by positivity)
    _ = 2 ^ e := by rw [he]
    _ ≤ 10 ^ b := hpow
    _ = 10 ^ (b : ℤ) := (zpow_natCast _ _).symm
    _ ≤ 10 ^ d.exponent := zpow_le_zpow_right₀ (by norm_num) (by omega)
    _ ≤ d.size := le_mul_of_one_le_left (by positivity) hdigits

/-- **A decimal has a double exactly if it is below the overflow.** -/
theorem nearestRank_lt_iff : d.nearestRank < Binary64.rankBound ↔ d.size < Binary64.overflow := by
  by_cases hhuge : d.significand = 0 ∨ d.exponent < 309
  · rw [← (isNearest_of_not_huge hhuge).lt_rankBound_iff, Nat.cast_lt]
  · rw [not_or, not_lt] at hhuge
    rw [nearestRank_of_huge hhuge.1 hhuge.2]
    exact iff_of_false (lt_irrefl _) (not_lt.2 (overflow_le_of_huge hhuge.1 hhuge.2))

theorem isSome_nearest?_iff : d.nearest?.isSome ↔ d.size < Binary64.overflow := by
  rw [← nearestRank_lt_iff, nearest?]
  split
  · next h => exact iff_of_true rfl h
  · next h => exact iff_of_false Bool.false_ne_true h

/-- **A text has a number exactly if it is a numeral within the range.** -/
theorem isSome_number?_iff : (number? s).isSome ↔
    ∃ negative size, Numeral s.toList negative size ∧ size < Binary64.overflow := by
  constructor
  · intro h
    obtain ⟨x, hx⟩ := Option.isSome_iff_exists.1 h
    rw [number?_eq_bind_nearest?] at hx
    obtain ⟨d, hread, hnearest⟩ := Option.bind_eq_some_iff.1 hx
    have hsome : d.nearest?.isSome := by rw [hnearest]; rfl
    exact ⟨_, _, numeral_of_read? hread, isSome_nearest?_iff.1 hsome⟩
  · rintro ⟨negative, size, hnumeral, hsize⟩
    obtain ⟨d, hread, -, rfl⟩ := read?_of_numeral hnumeral
    rw [number?_eq_bind_nearest?, hread, Option.bind_some]
    exact isSome_nearest?_iff.2 hsize

/-- The number of a text has the sign that is written, also where it is
zero. -/
theorem negative_of_number? {x : Binary64} (h : number? s = some x)
    (hs : Numeral s.toList negative q) : x.negative = negative := by
  obtain ⟨d, hread, rfl, rfl⟩ := read?_of_numeral hs
  rw [number?_eq_bind_nearest?, hread, Option.bind_some] at h
  exact (nearest?_eq_some h).1

/-- **Exactly the numerals within the range are numbers**, and each of them is
read as the double nearest to it, ties to even, with the sign that is
written. -/
theorem reads_exactly_numerals (s : String) :
    ((number? s).isSome ↔
      ∃ negative size, Numeral s.toList negative size ∧ size < 2 ^ 1024 - 2 ^ 970) ∧
    -- The double is finite, and its zero is signed.
    (∀ x negative size, number? s = some x → Numeral s.toList negative size →
      Binary64.IsNearest x.signedRank (signed negative size) ∧ x.negative = negative ∧
        x.bits / 2 ^ 52 % 2 ^ 11 < 2047) ∧
    -- There is no word for it, no digit outside ASCII and no second sign.
    ((number? s).isSome → (∀ c ∈ s.toList, isNumeralChar c = true) ∧
      ∀ first second rest, s.toList = first :: second :: rest → first ∈ ['+', '-'] →
        second ∉ ['+', '-']) := by
  refine ⟨isSome_number?_iff, fun x negative size hx hs => ?_, fun hsome => ?_⟩
  · have hnearest := isNearest_of_number? hx ⟨negative, size, hs, rfl⟩
    exact ⟨hnearest, negative_of_number? hx hs, x.exponent_bits_lt⟩
  · obtain ⟨negative, size, hs, -⟩ := isSome_number?_iff.1 hsome
    refine ⟨List.all_eq_true.1 hs.allowed, fun first second rest hchars hfirst => ?_⟩
    rw [hchars] at hs
    exact hs.second_ne hfirst

/-- A negative number too small for any other double is the negative zero;
the last number of 17 digits below the overflow is read, and the next one is
not. -/
theorem reads_exactly_numerals_at_the_edges :
    let tiny : Decimal := ⟨true, 1, -400⟩
    let below : Decimal := ⟨false, 17976931348623158, 292⟩
    Numeral "-1e-400".toList true tiny.size ∧ number? "-1e-400" = some ⟨true, 0, by decide⟩ ∧
      Binary64.IsNearest 0 (signed true tiny.size) ∧
      Numeral "1.7976931348623158e308".toList false below.size ∧
      below.size < 2 ^ 1024 - 2 ^ 970 ∧ (number? "1.7976931348623158e308").isSome ∧
      number? "1.7976931348623159e308" = none ∧ number? "+-1" = none ∧ number? "inf" = none := by
  intro tiny below
  have htiny := numeral_of_read? (show read? "-1e-400".toList = some tiny from rfl)
  have hbelow := numeral_of_read? (show read? "1.7976931348623158e308".toList = some below from rfl)
  have hzero : number? "-1e-400" = some ⟨true, 0, by decide⟩ := by decide +kernel
  have hrange : below.size < 2 ^ 1024 - 2 ^ 970 :=
    nearestRank_lt_iff.1 (show below.nearestRank < Binary64.rankBound by decide +kernel)
  obtain ⟨-, hread, -⟩ := reads_exactly_numerals "-1e-400"
  obtain ⟨hnearest, -, -⟩ := hread _ _ _ hzero htiny
  exact ⟨htiny, hzero, hnearest, hbelow, hrange,
    (reads_exactly_numerals "1.7976931348623158e308").1.2 ⟨_, _, hbelow, hrange⟩,
    by decide +kernel, by decide +kernel, by decide +kernel⟩

end Decimal

end ShardStore

import ShardStore.Proofs.Json.Lexeme
import ShardStore.Proofs.Text.Size
/-!
# JSON — numbers are read as the grammar has them

The parts of a number are read one after the other, each as far as it goes.
So a number is read to its end where what is behind it goes on in no part of
it, as is so at the end of a text and in front of a space, a comma and a
closing bracket (`Delimited`). Digits without further zeros in front are the
decimal form of their value (`eq_repr_iff`), which makes the number of a size
its decimal form.
-/

namespace ShardStore

namespace Json

open Decimal Text

variable {care : Care} {cs text rest digits : List Char} {n : ℕ}

/-- Where a value ends: at the end of a text, or in front of a space, a comma
or a closing bracket. -/
def Delimited (rest : List Char) : Prop :=
  ∀ c ∈ rest.head?, isSpace c = true ∨ c ∈ [',', ']', '}']

/-- No part of a number goes on there. -/
theorem Delimited.head (h : Delimited rest) :
    ∀ c ∈ rest.head?, c.isDigit = false ∧ c ≠ '.' ∧ c ≠ 'e' ∧ c ≠ 'E' := by
  intro c hc
  rcases h c hc with hspace | hmem
  · simp only [isSpace, Bool.or_eq_true, beq_iff_eq] at hspace
    rcases hspace with ((rfl | rfl) | rfl) | rfl <;> decide
  · simp only [List.mem_cons, List.not_mem_nil, or_false] at hmem
    rcases hmem with rfl | rfl | rfl <;> decide

/-! ## Digits -/

theorem digitChar_digitValue {c : Char} (h : c.isDigit = true) :
    digitValue c < 10 ∧ (digitValue c).digitChar = c := by
  simp only [Char.isDigit, ge_iff_le, Bool.and_eq_true, decide_eq_true_eq] at h
  have hlow : 48 ≤ c.toNat := h.1
  have hhigh : c.toNat ≤ 57 := h.2
  have hall : ∀ k < 10, k.digitChar = Char.ofNat (k + 48) := by decide
  have hlt : digitValue c < 10 := by
    rw [digitValue]
    omega
  refine ⟨hlt, ?_⟩
  rw [hall _ hlt, digitValue, Nat.sub_add_cancel hlow, Char.ofNat_toNat]

theorem toDigits_digitsValue (hall : ∀ c ∈ cs, c.isDigit = true) (hne : cs ≠ [])
    (hlead : ∀ c more, cs ≠ '0' :: c :: more) : Nat.toDigits 10 (digitsValue cs) = cs := by
  induction cs using List.reverseRecOn with
  | nil => exact absurd rfl hne
  | append_singleton front c ih =>
    obtain ⟨hlt, hchar⟩ := digitChar_digitValue (hall c (by simp))
    rw [digitsValue_concat]
    cases front with
    | nil =>
      have hzero : digitsValue [] = 0 := rfl
      rw [hzero, Nat.mul_zero, Nat.zero_add, Nat.toDigits_of_lt_base hlt, hchar]
      rfl
    | cons d front =>
      have hfront := ih (fun e he => hall e (List.mem_append_left _ he)) (by simp)
        fun e more heq => hlead e (more ++ [c]) (by simp [heq])
      have hpos : 0 < digitsValue (d :: front) := by
        rw [Nat.pos_iff_ne_zero]
        intro hzero
        rw [hzero, Nat.toDigits_zero] at hfront
        obtain ⟨rfl, rfl⟩ := List.cons.inj hfront
        exact hlead c [] rfl
      rw [← Nat.toDigits_append_toDigits (by decide) hpos hlt, hfront, Nat.toDigits_of_lt_base hlt,
        hchar]

theorem head?_toDigits (hpos : 0 < n) : (Nat.toDigits 10 n).head? ≠ some '0' := by
  induction n using Nat.strongRecOn with
  | ind n ih =>
    rcases Nat.lt_or_ge n 10 with hlt | hle
    · have hall : ∀ k < 10, 0 < k → k.digitChar ≠ '0' := by decide
      rw [Nat.toDigits_of_lt_base hlt, List.head?_singleton, ne_eq, Option.some.injEq]
      exact hall n hlt hpos
    · rw [Nat.toDigits_of_base_le (by decide) hle,
        List.head?_append_of_ne_nil _ Nat.toDigits_ne_nil]
      exact ih (n / 10) (Nat.div_lt_self hpos (by decide)) (Nat.div_pos hle (by decide))

/-- **The decimal form of a number is its digits without further zeros.** -/
theorem eq_repr_iff : cs = n.repr.toList ↔
    Digits cs n ∧ cs ≠ [] ∧ ∀ c more, cs ≠ '0' :: c :: more := by
  constructor
  · rintro rfl
    obtain ⟨hdigits, hne⟩ := digits_repr n
    refine ⟨hdigits, hne, fun c more heq => ?_⟩
    rw [Nat.toList_repr] at heq
    rcases Nat.eq_zero_or_pos n with rfl | hpos
    · cases heq
    · exact head?_toDigits hpos (by rw [heq]; rfl)
  · rintro ⟨hdigits, hne, hlead⟩
    obtain ⟨hall, rfl⟩ := digits_iff.1 hdigits
    rw [Nat.toList_repr, toDigits_digitsValue hall hne hlead]

/-- What is taken off as digits is digits. -/
theorem digits_takeWhile (cs : List Char) :
    Digits (cs.takeWhile Char.isDigit) (digitsValue (cs.takeWhile Char.isDigit)) :=
  digits_iff.2 ⟨List.all_eq_true.1 List.all_takeWhile, rfl⟩

/-! ## Parts of a number -/

theorem wholeDigits_eq_ok (h : wholeDigits care cs = .ok (digits, rest)) :
    ∃ n : ℕ, digits = n.repr.toList ∧ cs = digits ++ rest := by
  unfold wholeDigits at h
  split at h
  · cases h
  · cases h
  · next hne hlead =>
    cases h
    refine ⟨_, eq_repr_iff.2 ⟨digits_takeWhile cs, hne, hlead⟩, ?_⟩
    exact List.takeWhile_append_dropWhile.symm

theorem wholeDigits_append (care : Care) (n : ℕ) (hrest : ∀ c ∈ rest.head?, c.isDigit = false) :
    wholeDigits care (n.repr.toList ++ rest) = .ok (n.repr.toList, rest) := by
  obtain ⟨hdigits, hne, hlead⟩ := eq_repr_iff.1 (rfl : n.repr.toList = n.repr.toList)
  obtain ⟨htake, hdrop⟩ := takeWhile_digits (digits_iff.1 hdigits).1 hrest
  rw [wholeDigits, htake, hdrop]
  split
  · next heq => exact absurd heq hne
  · next heq => exact absurd heq (hlead _ _)
  · rfl

theorem fractionDigits_eq_ok (h : fractionDigits care cs = .ok (digits, rest)) :
    ∃ text, FractionText text ∧ cs = text ++ rest ∧ (digits = [] → text = []) := by
  unfold fractionDigits at h
  split at h
  · next more =>
    split at h
    · cases h
    · next hne =>
      cases h
      refine ⟨_, .digits (digits_takeWhile more) hne, ?_, fun hnil => absurd hnil hne⟩
      rw [List.cons_append, List.takeWhile_append_dropWhile]
  · cases h
    exact ⟨[], .none, rfl, fun _ => rfl⟩

theorem fractionDigits_none (care : Care) (hrest : ∀ c ∈ rest.head?, c ≠ '.') :
    fractionDigits care rest = .ok ([], rest) := by
  rw [fractionDigits]
  rintro more rfl
  exact hrest '.' rfl rfl

theorem FractionText.read (h : FractionText text) (care : Care)
    (hrest : ∀ c ∈ rest.head?, c.isDigit = false ∧ c ≠ '.') :
    ∃ digits, fractionDigits care (text ++ rest) = .ok (digits, rest) := by
  cases h with
  | none => exact ⟨[], fractionDigits_none care fun c hc => (hrest c hc).2⟩
  | @digits cs n hdigits hne =>
    obtain ⟨htake, hdrop⟩ :=
      takeWhile_digits (digits_iff.1 hdigits).1 fun c hc => (hrest c hc).1
    rw [List.cons_append, fractionDigits, htake, hdrop]
    split
    · exact absurd rfl hne
    · exact ⟨cs, rfl⟩

theorem power_eq_ok {e : Option ℤ} (h : power care cs = .ok (e, rest)) :
    ∃ text z, Power text z ∧ cs = text ++ rest ∧ (e.isSome = false → text = []) := by
  unfold power at h
  split at h
  · next c more =>
    split at h
    · next hmark =>
      obtain ⟨sign, hsign, hmore⟩ := sign_of_takeSign more
      dsimp only at h
      split at h
      · cases h
      · next hne =>
        cases h
        refine ⟨_, _, .power hmark hsign (digits_takeWhile _) hne, ?_, nofun⟩
        rw [List.cons_append, List.append_assoc, List.takeWhile_append_dropWhile, ← hmore]
    · cases h
      exact ⟨[], 0, .none, rfl, fun _ => rfl⟩
  · cases h
    exact ⟨[], 0, .none, rfl, fun _ => rfl⟩

theorem power_none (care : Care) (hrest : ∀ c ∈ rest.head?, c ≠ 'e' ∧ c ≠ 'E') :
    power care rest = .ok (none, rest) := by
  cases rest with
  | nil => rfl
  | cons c rest =>
    obtain ⟨hlower, hupper⟩ := hrest c rfl
    simp [power, hlower, hupper]

theorem power_append {z : ℤ} (h : Power text z) (care : Care)
    (hrest : ∀ c ∈ rest.head?, c.isDigit = false ∧ c ≠ 'e' ∧ c ≠ 'E') :
    ∃ e, power care (text ++ rest) = .ok (e, rest) := by
  cases h with
  | none => exact ⟨none, power_none care fun c hc => (hrest c hc).2⟩
  | @power mark sign digits negative n hmark hsign hdigits hne =>
    have hall := (digits_iff.1 hdigits).1
    obtain ⟨htake, hdrop⟩ := takeWhile_digits hall fun c hc => (hrest c hc).1
    have hsigned := takeSign_of_sign hsign (head?_digits hall hne rest)
    rw [List.cons_append, List.append_assoc, power, if_pos hmark, hsigned]
    dsimp only
    rw [htake, hdrop]
    split
    · exact absurd rfl hne
    · exact ⟨_, rfl⟩

theorem minus_of_takeMinus (cs : List Char) : ∃ minus, (minus = [] ∨ minus = ['-']) ∧
    cs = minus ++ (takeMinus cs).2 ∧ ((takeMinus cs).1 = false → minus = []) := by
  unfold takeMinus
  split
  · exact ⟨['-'], .inr rfl, rfl, nofun⟩
  · exact ⟨[], .inl rfl, rfl, fun _ => rfl⟩

/-! ## The significand of a size -/

/-- A significand is full where its digits write no size. -/
theorem foldl_addDigit (hall : ∀ c ∈ cs, c.isDigit = true) :
    digitsValue cs < 2 ^ 64 ∧ cs.foldl addDigit (0, 0) = (digitsValue cs, 0) ∨
      2 ^ 64 ≤ digitsValue cs ∧ (cs.foldl addDigit (0, 0)).2 ≠ 0 := by
  have hbound : sizeBound = 2 ^ 64 := rfl
  induction cs using List.reverseRecOn with
  | nil => exact .inl ⟨by decide, rfl⟩
  | append_singleton cs c ih =>
    rw [List.foldl_concat, digitsValue_concat]
    rcases ih fun d hd => hall d (List.mem_append_left _ hd) with ⟨hlt, heq⟩ | ⟨hle, hne⟩
    · rw [heq, addDigit, hbound]
      by_cases hmore : 10 * digitsValue cs + digitValue c < 2 ^ 64
      · exact .inl ⟨hmore, if_pos ⟨rfl, hmore⟩⟩
      · refine .inr ⟨Nat.le_of_not_lt hmore, ?_⟩
        rw [if_neg fun hfits => hmore hfits.2]
        exact Nat.succ_ne_zero _
    · refine .inr ⟨by omega, ?_⟩
      rw [addDigit, if_neg fun hfits => hne hfits.1]
      exact Nat.succ_ne_zero _

theorem divideToEven_le (n d : ℕ) : divideToEven n d ≤ n / d + 1 := by
  unfold divideToEven
  dsimp only
  repeat' split
  all_goals omega

theorem not_pow_sub_pow_le {a b c m : ℕ} (h : a < b) (h' : b < c) (hm : m ≤ 2 ^ a) :
    ¬ Nat.pow 2 c - Nat.pow 2 b ≤ m := by
  have hdouble : 2 ^ b + 2 ^ b ≤ 2 ^ c := by
    rw [← Nat.two_pow_succ]
    exact Nat.pow_le_pow_right (by decide) h'
  have hless : m < 2 ^ c - 2 ^ b := calc
    m ≤ 2 ^ a := hm
    _ < 2 ^ b := Nat.pow_lt_pow_right (by decide) h
    _ ≤ 2 ^ c - 2 ^ b := Nat.le_sub_of_add_le hdouble
  exact hless.not_ge

/-- A size is no huge number. -/
theorem isHuge_of_lt (h : n < 2 ^ 64) : isHuge n 0 = false := by
  have hround : round53 n ≤ 2 ^ 65 := by
    have hsteps : n.log2 - 52 ≤ 12 := by
      rcases Nat.eq_zero_or_pos n with rfl | hpos
      · decide
      · have hlog := (Nat.log2_lt hpos.ne').2 h
        omega
    have hunit : 2 ^ (n.log2 - 52) ≤ 2 ^ 12 := Nat.pow_le_pow_right (by decide) hsteps
    calc round53 n = divideToEven n (2 ^ (n.log2 - 52)) * 2 ^ (n.log2 - 52) := rfl
      _ ≤ (n / 2 ^ (n.log2 - 52) + 1) * 2 ^ (n.log2 - 52) :=
        Nat.mul_le_mul_right _ (divideToEven_le _ _)
      _ = n / 2 ^ (n.log2 - 52) * 2 ^ (n.log2 - 52) + 2 ^ (n.log2 - 52) := Nat.succ_mul _ _
      _ ≤ n + 2 ^ 12 := Nat.add_le_add (Nat.div_mul_le_self _ _) hunit
      _ ≤ 2 ^ 65 := by omega
  have hone : round53 (Nat.pow 10 (Int.toNat 0)) = 1 := by decide
  have hproduct : round53 n * round53 (Nat.pow 10 (Int.toNat 0)) ≤ 2 ^ 65 := by
    rwa [hone, Nat.mul_one]
  refine Bool.eq_false_iff.2 fun hhuge => ?_
  have hlarge := (Bool.and_eq_true_iff.1 hhuge).2
  exact not_pow_sub_pow_le (by decide) (by decide) hproduct
    (of_decide_eq_true ((Bool.or_eq_true_iff.1 hlarge).resolve_left (by decide)))

/-! ## Numbers -/

/-- **What is read as a number is one**, and its value is a size where it is
the number of a size. -/
theorem numberParts_eq_ok {value : Option ℕ} (h : numberParts care cs = .ok (value, rest)) :
    ∃ text, NumberText text ∧ cs = text ++ rest ∧ ∀ n, value = some n → SizeNumber text n := by
  obtain ⟨minus, hminus, hcs, hpositive⟩ := minus_of_takeMinus cs
  unfold numberParts at h
  dsimp only at h
  split at h
  · cases h
  · next whole cs₁ hwhole =>
    obtain ⟨m, rfl, hcs₁⟩ := wholeDigits_eq_ok hwhole
    split at h
    · cases h
    · next fraction cs₂ hfraction =>
      obtain ⟨point, hpoint, hcs₂, hpointless⟩ := fractionDigits_eq_ok hfraction
      split at h
      · cases h
      · next exponent cs₃ hpower =>
        obtain ⟨tail, z, htail, hcs₃, hpowerless⟩ := power_eq_ok hpower
        have htext : cs = minus ++ (m.repr.toList ++ (point ++ tail)) ++ cs₃ := by
          rw [hcs, hcs₁, hcs₂, hcs₃]
          simp
        split at h
        · cases h
        · split at h
          · cases h
            exact ⟨_, .number hminus m hpoint htail, htext, nofun⟩
          · next hsize =>
            cases h
            refine ⟨_, .number hminus m hpoint htail, htext, fun n hn => ?_⟩
            simp only [not_or, Bool.not_eq_true, ne_eq, Decidable.not_not] at hsize
            obtain ⟨hsign, hfull, hnone, hnone'⟩ := hsize
            obtain ⟨hall, hvalue⟩ := digits_iff.1 (digits_repr m).1
            rcases foldl_addDigit hall with ⟨hlt, heq⟩ | ⟨-, hne⟩
            · rw [heq, hvalue] at hn
              rw [hvalue] at hlt
              cases hn
              rw [hpositive hsign, hpointless hnone, hpowerless hnone', List.append_nil,
                List.append_nil, List.nil_append]
              exact .digits hlt
            · exact absurd hfull hne

/-- Behind the digits there is no digit, and behind these no point. -/
theorem head?_power_append {power : List Char} {e : ℤ} (h : Power power e)
    (hrest : Delimited rest) : ∀ c ∈ (power ++ rest).head?, c.isDigit = false ∧ c ≠ '.' := by
  intro c hc
  cases power with
  | nil =>
    obtain ⟨hdigit, hpoint, -⟩ := hrest.head c hc
    exact ⟨hdigit, hpoint⟩
  | cons mark power => exact head?_power h c hc

theorem head?_fraction_append (h : FractionText text)
    (hrest : ∀ c ∈ rest.head?, c.isDigit = false ∧ c ≠ '.') :
    ∀ c ∈ (text ++ rest).head?, c.isDigit = false := by
  intro c hc
  cases h with
  | none => exact (hrest c hc).1
  | digits =>
    cases hc
    rfl

theorem takeMinus_append {minus body : List Char} (hminus : minus = [] ∨ minus = ['-'])
    (hbody : ∀ c ∈ body.head?, c ≠ '-') : (takeMinus (minus ++ body)).2 = body := by
  rcases hminus with rfl | rfl
  · rw [List.nil_append, takeMinus]
    rintro more rfl
    exact hbody '-' rfl rfl
  · rfl

theorem head?_repr (n : ℕ) (more : List Char) : ∀ c ∈ (n.repr.toList ++ more).head?, c ≠ '-' := by
  obtain ⟨hdigits, hne⟩ := digits_repr n
  intro c hc
  exact (head?_digits (digits_iff.1 hdigits).1 hne more c hc).2

/-- **A number that is passed over is read to its end.** -/
theorem NumberText.read (h : NumberText text) (hrest : Delimited rest) :
    ∃ value, numberParts .skimmed (text ++ rest) = .ok (value, rest) := by
  obtain ⟨hminus, n, hfraction, hpower⟩ := h
  have hbehind := head?_power_append hpower hrest
  obtain ⟨fraction, hpoint⟩ := hfraction.read .skimmed hbehind
  obtain ⟨exponent, htail⟩ := power_append hpower .skimmed fun c hc =>
    ⟨(hrest.head c hc).1, (hrest.head c hc).2.2⟩
  have hwhole := wholeDigits_append .skimmed n (head?_fraction_append hfraction hbehind)
  simp only [List.append_assoc, numberParts, takeMinus_append hminus (head?_repr n _), hwhole,
    hpoint, htail, reduceCtorEq, false_and, if_false]
  split <;> exact ⟨_, rfl⟩

/-- **The number of a size is read as the size.** -/
theorem SizeNumber.read (h : SizeNumber text n) (hrest : Delimited rest) :
    numberParts .checked (text ++ rest) = .ok (some n, rest) := by
  obtain ⟨hn⟩ := h
  obtain ⟨hall, hvalue⟩ := digits_iff.1 (digits_repr n).1
  have hminus : takeMinus (n.repr.toList ++ rest) = (false, n.repr.toList ++ rest) := by
    rw [takeMinus]
    intro more heq
    exact head?_repr n rest '-' (by rw [heq]; rfl) rfl
  have hwhole := wholeDigits_append .checked n fun c hc => (hrest.head c hc).1
  have hpoint := fractionDigits_none .checked fun c hc => (hrest.head c hc).2.1
  have htail := power_none .checked fun c hc => (hrest.head c hc).2.2
  have hdigits : n.repr.toList.foldl addDigit (0, 0) = (n, 0) := by
    rcases foldl_addDigit hall with ⟨-, heq⟩ | ⟨hle, -⟩
    · rw [heq, hvalue]
    · omega
  simp only [numberParts, hminus, hwhole, hpoint, htail, hdigits, List.foldl_nil]
  simp [isHuge_of_lt hn]

end Json

end ShardStore

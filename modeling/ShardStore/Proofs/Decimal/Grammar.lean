import Mathlib.Algebra.Order.Field.Power
import Mathlib.Data.List.Induction
import Mathlib.Data.List.TakeWhile
import Mathlib.Tactic.FieldSimp
import Mathlib.Tactic.Ring
import ShardStore.Decimal.Numeral
/-!
# Decimal — the grammar of numerals

The numerals as a grammar that knows nothing of the reader: a sign or none,
digits with at most one point among or beside them, and a power of ten or
none (`Numeral`). Each form says what rational it denotes. The reader
reads exactly the numerals, each as the number that it denotes
(`numeral_of_read?`, `read?_of_numeral`).
-/

namespace ShardStore

open Text

namespace Decimal

/-- A sign or none, and whether it is a minus. -/
inductive Sign : List Char → Bool → Prop
  | none : Sign [] false
  | plus : Sign ['+'] false
  | minus : Sign ['-'] true

/-- Digits, perhaps none, and the number that they write. -/
inductive Digits : List Char → ℕ → Prop
  | nil : Digits [] 0
  | snoc {cs : List Char} {c : Char} {n : ℕ} (h : Digits cs n) (hc : c.isDigit = true) :
      Digits (cs ++ [c]) (10 * n + (c.toNat - '0'.toNat))

/-- Digits with at most one point among or beside them, and the number that
they write. -/
inductive Mantissa : List Char → ℚ → Prop
  | whole {cs : List Char} {n : ℕ} (h : Digits cs n) (hne : cs ≠ []) : Mantissa cs n
  | point {front back : List Char} {m n : ℕ} (hfront : Digits front m) (hback : Digits back n)
      (hne : front ≠ [] ∨ back ≠ []) :
      Mantissa (front ++ '.' :: back) (m + n / 10 ^ back.length)

/-- A power of ten or none, and its exponent. -/
inductive Power : List Char → ℤ → Prop
  | none : Power [] 0
  | power {mark : Char} {sign digits : List Char} {negative : Bool} {n : ℕ}
      (hmark : mark = 'e' ∨ mark = 'E') (hsign : Sign sign negative) (h : Digits digits n)
      (hne : digits ≠ []) : Power (mark :: (sign ++ digits)) (if negative then -n else n)

/-- A decimal numeral: whether it has a minus, and the size of its number. -/
inductive Numeral : List Char → Bool → ℚ → Prop
  | intro {sign body tail : List Char} {negative : Bool} {m : ℚ} {e : ℤ}
      (hsign : Sign sign negative) (hbody : Mantissa body m) (htail : Power tail e) :
      Numeral (sign ++ (body ++ tail)) negative (m * 10 ^ e)

/-- The number of a size with a sign. -/
def signed (negative : Bool) (size : ℚ) : ℚ :=
  if negative then -size else size

/-- A text is a numeral of a rational number. -/
def Denotes (s : String) (q : ℚ) : Prop :=
  ∃ negative size, Numeral s.toList negative size ∧ signed negative size = q

/-- The size of the number that was read. -/
def size (d : Decimal) : ℚ :=
  d.significand * 10 ^ d.exponent

/-- The number that was read. -/
def value (d : Decimal) : ℚ :=
  signed d.negative d.size

/-! ## Digits -/

variable {cs body : List Char} {n : ℕ} {e : ℤ}

theorem digitsValue_concat (cs : List Char) (c : Char) :
    digitsValue (cs ++ [c]) = 10 * digitsValue cs + digitValue c := by
  simp [digitsValue]

theorem digitsValue_append (front back : List Char) :
    digitsValue (front ++ back) = digitsValue front * 10 ^ back.length + digitsValue back := by
  induction back using List.reverseRecOn with
  | nil => simp [digitsValue]
  | append_singleton back c ih =>
    rw [← List.append_assoc, digitsValue_concat, digitsValue_concat, ih, List.length_append,
      List.length_singleton]
    ring

/-- **Digits write the number that they are read as.** -/
theorem digits_iff : Digits cs n ↔ (∀ c ∈ cs, c.isDigit = true) ∧ digitsValue cs = n := by
  constructor
  · intro h
    induction h with
    | nil => exact ⟨by simp, rfl⟩
    | snoc _ hc ih =>
      obtain ⟨hall, rfl⟩ := ih
      refine ⟨fun d hd => ?_, digitsValue_concat _ _⟩
      rcases List.mem_append.1 hd with hd | hd
      · exact hall d hd
      · exact List.mem_singleton.1 hd ▸ hc
  · rintro ⟨hall, rfl⟩
    induction cs using List.reverseRecOn with
    | nil => exact .nil
    | append_singleton cs c ih =>
      rw [digitsValue_concat]
      exact .snoc (ih fun d hd => hall d (List.mem_append_left _ hd)) (hall c (by simp))

/-- A run of digits is read up to where it ends. -/
theorem takeWhile_digits {rest : List Char} (h : ∀ c ∈ cs, c.isDigit = true)
    (hrest : ∀ c, rest.head? = some c → c.isDigit = false) :
    (cs ++ rest).takeWhile Char.isDigit = cs ∧ (cs ++ rest).dropWhile Char.isDigit = rest := by
  rw [List.takeWhile_append_of_pos h, List.dropWhile_append_of_pos h]
  cases rest with
  | nil => simp
  | cons c rest => simp [hrest c rfl]

/-! ## Parts of a numeral -/

/-- A sign is read where no other one follows. -/
theorem takeSign_of_sign {sign : List Char} {negative : Bool} (h : Sign sign negative)
    (hrest : ∀ c, body.head? = some c → c ≠ '+' ∧ c ≠ '-') :
    takeSign (sign ++ body) = (negative, body) := by
  cases h with
  | none =>
    cases body with
    | nil => rfl
    | cons c body =>
      obtain ⟨hplus, hminus⟩ := hrest c rfl
      simp [takeSign, hplus, hminus]
  | plus => rfl
  | minus => rfl

/-- What is read as a sign is one. -/
theorem sign_of_takeSign (cs : List Char) :
    ∃ sign, Sign sign (takeSign cs).1 ∧ cs = sign ++ (takeSign cs).2 := by
  unfold takeSign
  split
  · exact ⟨_, .plus, rfl⟩
  · exact ⟨_, .minus, rfl⟩
  · exact ⟨_, .none, rfl⟩

theorem isDigit_ne {c : Char} (h : c.isDigit = true) : c ≠ '+' ∧ c ≠ '-' ∧ c ≠ '.' := by
  refine ⟨?_, ?_, ?_⟩
  all_goals
    rintro rfl
    cases h

/-- The first digit is no sign. -/
theorem head?_digits (h : ∀ c ∈ cs, c.isDigit = true) (hne : cs ≠ []) (rest : List Char) :
    ∀ c, (cs ++ rest).head? = some c → c ≠ '+' ∧ c ≠ '-' := by
  intro c hc
  cases cs with
  | nil => exact absurd rfl hne
  | cons d cs =>
    obtain rfl : d = c := by simpa using hc
    obtain ⟨hplus, hminus, -⟩ := isDigit_ne (h d List.mem_cons_self)
    exact ⟨hplus, hminus⟩

/-- **A power is read exactly where there is one.** -/
theorem readPower?_eq_some_iff : readPower? cs = some e ↔ Power cs e := by
  constructor
  · intro h
    cases cs with
    | nil =>
      cases h
      exact .none
    | cons mark cs =>
      obtain ⟨sign, hsign, hcs⟩ := sign_of_takeSign cs
      rw [readPower?] at h
      split at h
      · next hmark =>
        simp only at h
        split at h
        · next hdigits =>
          rw [Bool.and_eq_true, List.all_eq_true] at hdigits
          obtain ⟨hne, hall⟩ := hdigits
          have hpower := Power.power hmark hsign (digits_iff.2 ⟨hall, rfl⟩) (by simpa using hne)
          rw [← hcs] at hpower
          cases h
          exact hpower
        · cases h
      · cases h
  · intro h
    cases h with
    | none => rfl
    | @power mark sign digits negative n hmark hsign hdigits hne =>
      obtain ⟨hall, rfl⟩ := digits_iff.1 hdigits
      have htake : takeSign (sign ++ digits) = (negative, digits) := by
        refine takeSign_of_sign hsign ?_
        have hhead := head?_digits hall hne []
        rwa [List.append_nil] at hhead
      have hdigits' : (!digits.isEmpty && digits.all Char.isDigit) = true := by
        simpa [hne] using hall
      rw [readPower?, if_pos hmark, htake]
      simp only [hdigits', if_true]

/-- A power follows no digit and no point. -/
theorem head?_power (h : Power cs e) :
    ∀ c, cs.head? = some c → c.isDigit = false ∧ c ≠ '.' := by
  intro c hc
  cases h with
  | none => cases hc
  | power hmark =>
    cases hc
    rcases hmark with rfl | rfl <;> exact ⟨rfl, by decide⟩

/-- The digits of a mantissa without a point. -/
theorem takeDigits_whole {tail : List Char} (h : ∀ c ∈ cs, c.isDigit = true)
    (htail : Power tail e) : takeDigits (cs ++ tail) = (cs, [], tail) := by
  obtain ⟨htake, hdrop⟩ := takeWhile_digits h fun c hc => (head?_power htail c hc).1
  unfold takeDigits
  rw [htake, hdrop]
  cases tail with
  | nil => rfl
  | cons c tail =>
    obtain ⟨-, hpoint⟩ := head?_power htail c rfl
    split
    · next heq => exact absurd (List.cons.inj heq).1 hpoint
    · rfl

/-- The digits of a mantissa with a point. -/
theorem takeDigits_point {front back tail : List Char} (hfront : ∀ c ∈ front, c.isDigit = true)
    (hback : ∀ c ∈ back, c.isDigit = true) (htail : Power tail e) :
    takeDigits (front ++ '.' :: (back ++ tail)) = (front, back, tail) := by
  have hpoint : ∀ c, ('.' :: (back ++ tail)).head? = some c → c.isDigit = false := by
    intro c hc
    cases hc
    rfl
  obtain ⟨htake, hdrop⟩ := takeWhile_digits hfront hpoint
  obtain ⟨htake', hdrop'⟩ := takeWhile_digits hback fun c hc => (head?_power htail c hc).1
  unfold takeDigits
  rw [htake, hdrop]
  simp only [htake', hdrop']

/-- **What is split off is digits, or digits with a point**, and the rest is
behind them. -/
theorem takeDigits_spec (cs : List Char) :
    (∀ c ∈ (takeDigits cs).1, c.isDigit = true) ∧ (∀ c ∈ (takeDigits cs).2.1, c.isDigit = true) ∧
      (cs = (takeDigits cs).1 ++ (takeDigits cs).2.2 ∧ (takeDigits cs).2.1 = [] ∨
        cs = (takeDigits cs).1 ++ '.' :: (takeDigits cs).2.1 ++ (takeDigits cs).2.2) := by
  have htaken : ∀ cs : List Char, ∀ c ∈ cs.takeWhile Char.isDigit, c.isDigit = true :=
    fun cs c hc => List.mem_takeWhile_imp hc
  have hsplit : cs.takeWhile Char.isDigit ++ cs.dropWhile Char.isDigit = cs :=
    List.takeWhile_append_dropWhile
  unfold takeDigits
  split
  · next more hmore =>
    refine ⟨htaken _, htaken _, .inr ?_⟩
    rw [hmore] at hsplit
    simp [hsplit]
  · exact ⟨htaken _, by simp, .inl ⟨hsplit.symm, rfl⟩⟩

/-! ## Numerals -/

/-- The point moves into the exponent. -/
theorem shift_point (m n k : ℕ) (e : ℤ) :
    ((m * 10 ^ k + n : ℕ) : ℚ) * 10 ^ (e - k) = (m + n / 10 ^ k) * 10 ^ e := by
  have hten : (10 : ℚ) ≠ 0 := by norm_num
  rw [zpow_sub₀ hten, zpow_natCast]
  push_cast
  field_simp

/-- **What is read is a numeral**, and of the number that it is read as. -/
theorem numeral_of_read? {d : Decimal} (h : read? cs = some d) :
    Numeral cs d.negative d.size := by
  obtain ⟨sign, hsign, hcs⟩ := sign_of_takeSign cs
  obtain ⟨hwhole, hfraction, hsplit⟩ := takeDigits_spec (takeSign cs).2
  unfold read? at h
  dsimp only at h
  split at h
  · cases h
  · next hne =>
    obtain ⟨power, hread, rfl⟩ := Option.map_eq_some_iff.1 h
    have hpower := readPower?_eq_some_iff.1 hread
    rcases hsplit with ⟨hbody, hnone⟩ | hbody
    · rw [hnone] at hne ⊢
      have hmantissa := Mantissa.whole (digits_iff.2 ⟨hwhole, rfl⟩) (by simpa using hne)
      have hnumeral := Numeral.intro hsign hmantissa hpower
      rw [← hbody, ← hcs] at hnumeral
      simpa [size] using hnumeral
    · have hsome : (takeDigits (takeSign cs).2).1 ≠ [] ∨ (takeDigits (takeSign cs).2).2.1 ≠ [] := by
        simpa [← not_and_or] using hne
      have hmantissa := Mantissa.point (digits_iff.2 ⟨hwhole, rfl⟩)
        (digits_iff.2 ⟨hfraction, rfl⟩) hsome
      have hnumeral := Numeral.intro hsign hmantissa hpower
      rw [← hbody, ← hcs] at hnumeral
      rw [size, digitsValue_append, shift_point]
      exact hnumeral

/-- **Every numeral is read**, as the number that it denotes. -/
theorem read?_of_numeral {negative : Bool} {q : ℚ} (h : Numeral cs negative q) :
    ∃ d, read? cs = some d ∧ d.negative = negative ∧ d.size = q := by
  obtain ⟨hsign, hbody, htail⟩ := h
  rename_i sign body tail m e
  have hpower := readPower?_eq_some_iff.2 htail
  cases hbody with
  | whole hdigits hne =>
    obtain ⟨hall, rfl⟩ := digits_iff.1 hdigits
    have htake := takeSign_of_sign hsign (head?_digits hall hne tail)
    refine ⟨⟨negative, digitsValue body, e⟩, ?_, rfl, rfl⟩
    simp [read?, htake, takeDigits_whole hall htail, hne, hpower]
  | @point front back _ _ hfront hback hne =>
    obtain ⟨hall, rfl⟩ := digits_iff.1 hfront
    obtain ⟨hall', rfl⟩ := digits_iff.1 hback
    rw [List.append_assoc, List.cons_append]
    have htake : takeSign (sign ++ (front ++ '.' :: (back ++ tail))) =
        (negative, front ++ '.' :: (back ++ tail)) := by
      refine takeSign_of_sign hsign ?_
      cases front with
      | nil =>
        rintro c ⟨⟩
        decide
      | cons => exact head?_digits hall (by simp) _
    refine ⟨⟨negative, digitsValue (front ++ back), e - back.length⟩, ?_, rfl, ?_⟩
    · have hsome : ¬ (front = [] ∧ back = []) := not_and_or.2 hne
      simp [read?, htake, takeDigits_point hall hall' htail, hsome, hpower]
    · rw [size, digitsValue_append, shift_point]

/-- **A text denotes the number that is read off it**, and no other. -/
theorem denotes_iff {s : String} {q : ℚ} :
    Denotes s q ↔ ∃ d, read? s.toList = some d ∧ d.value = q := by
  constructor
  · rintro ⟨negative, size, hnumeral, rfl⟩
    obtain ⟨d, hread, rfl, rfl⟩ := read?_of_numeral hnumeral
    exact ⟨d, hread, rfl⟩
  · rintro ⟨d, hread, rfl⟩
    exact ⟨_, _, numeral_of_read? hread, rfl⟩

end Decimal

end ShardStore

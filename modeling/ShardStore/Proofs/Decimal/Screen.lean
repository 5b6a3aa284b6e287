import ShardStore.Decimal.Number
import ShardStore.Proofs.Decimal.Grammar
/-!
# Decimal — what the screen lets through

A numeral starts with a digit or the point behind its sign, and has no
characters but those that the screen allows; so every numeral passes it. What
passes and is no numeral is no double, or none that is finite. So a text has
the number that its numeral has, and no other text has one
(`number?_eq_bind_nearest?`).
-/

namespace ShardStore

open Text

namespace Decimal

variable {cs : List Char} {c : Char} {negative : Bool} {q : ℚ} {n : ℕ} {e : ℤ}

/-! ## The characters of a numeral -/

theorem isNumeralChar_of_isDigit (h : c.isDigit = true) : isNumeralChar c = true := by
  rw [isNumeralChar, h, Bool.true_or]

theorem startsNumeral_of_isDigit (h : c.isDigit = true) : startsNumeral c = true := by
  rw [startsNumeral, h, Bool.true_or]

/-- No sign starts what is behind a sign. -/
theorem ne_of_startsNumeral (h : startsNumeral c = true) : c ≠ '+' ∧ c ≠ '-' := by
  refine ⟨?_, ?_⟩
  all_goals
    rintro rfl
    cases h

theorem Sign.allowed (h : Sign cs negative) : cs.all isNumeralChar = true := by
  cases h <;> rfl

theorem Digits.allowed (h : Digits cs n) : cs.all isNumeralChar = true :=
  List.all_eq_true.2 fun c hc => isNumeralChar_of_isDigit ((digits_iff.1 h).1 c hc)

theorem Mantissa.allowed (h : Mantissa cs q) : cs.all isNumeralChar = true := by
  cases h with
  | whole h => exact h.allowed
  | point hfront hback =>
    rw [List.all_append, List.all_cons, hfront.allowed, hback.allowed]
    rfl

theorem Power.allowed (h : Power cs e) : cs.all isNumeralChar = true := by
  cases h with
  | none => rfl
  | power hmark hsign hdigits =>
    rw [List.all_cons, List.all_append, hsign.allowed, hdigits.allowed]
    rcases hmark with rfl | rfl <;> rfl

/-- **A numeral is digits, signs, points and marks of a power**, so it holds
no word and no digit outside ASCII. -/
theorem Numeral.allowed (h : Numeral cs negative q) : cs.all isNumeralChar = true := by
  obtain ⟨hsign, hbody, htail⟩ := h
  rw [List.all_append, List.all_append, hsign.allowed, hbody.allowed,
    htail.allowed]
  rfl

/-- A mantissa starts with a digit or with the point. -/
theorem Mantissa.head (h : Mantissa cs q) : ∃ c more, cs = c :: more ∧ startsNumeral c = true := by
  cases h with
  | whole h hne =>
    obtain ⟨c, more, rfl⟩ := List.exists_cons_of_ne_nil hne
    exact ⟨c, more, rfl, startsNumeral_of_isDigit ((digits_iff.1 h).1 c List.mem_cons_self)⟩
  | @point front back m n hfront hback hne =>
    cases front with
    | nil => exact ⟨'.', back, rfl, rfl⟩
    | cons c more =>
      exact ⟨c, more ++ '.' :: back, rfl,
        startsNumeral_of_isDigit ((digits_iff.1 hfront).1 c List.mem_cons_self)⟩

/-- **Behind a sign there is no second one.** -/
theorem Numeral.second_ne {first second : Char} {rest : List Char}
    (h : Numeral (first :: second :: rest) negative q) (hfirst : first ∈ ['+', '-']) :
    second ∉ ['+', '-'] := by
  generalize hcs : first :: second :: rest = cs at h
  obtain ⟨hsign, hbody, htail⟩ := h
  obtain ⟨c, more, rfl, hstart⟩ := hbody.head
  obtain ⟨hplus, hminus⟩ := ne_of_startsNumeral hstart
  cases hsign with
  | none =>
    obtain ⟨rfl, -⟩ := List.cons.inj hcs
    simp [hplus, hminus] at hfirst
  | plus | minus =>
    obtain ⟨-, hrest⟩ := List.cons.inj hcs
    obtain ⟨rfl, -⟩ := List.cons.inj hrest
    simp [hplus, hminus]

/-! ## The screen -/

/-- **Every numeral passes the screen.** -/
theorem Numeral.screened (h : Numeral cs negative q) : isScreened (takeSign cs).2 = true := by
  have hall := h.allowed
  obtain ⟨hsign, hbody, htail⟩ := h
  obtain ⟨c, more, rfl, hstart⟩ := hbody.head
  rename_i sign tail m e
  have htake : takeSign (sign ++ (c :: more ++ tail)) = (negative, c :: more ++ tail) := by
    refine takeSign_of_sign hsign fun d hd => ?_
    cases hd
    exact ne_of_startsNumeral hstart
  rw [List.all_append, Bool.and_eq_true] at hall
  rw [htake, isScreened, hall.2, Bool.and_true]
  exact hstart

/-- No word is read as a finite double. -/
theorem bind_finite?_readWord? (cs : List Char) : (readWord? cs).bind Double.finite? = none := by
  unfold readWord?
  dsimp only
  split
  · rfl
  · split <;> rfl

theorem finite?_double (d : Decimal) : d.double.finite? = d.nearest? := by
  unfold double
  cases d.nearest? <;> rfl

/-- **The number of a text is the nearest double of its numeral**: no numeral
is screened out, and what else is read is not finite. -/
theorem number?_eq_bind_nearest? (s : String) : number? s = (read? s.toList).bind nearest? := by
  unfold number? readDouble?
  cases hread : read? s.toList with
  | some d =>
    rw [if_pos (numeral_of_read? hread).screened]
    exact finite?_double d
  | none =>
    dsimp only
    rw [bind_finite?_readWord?, ite_self]
    rfl

end Decimal

end ShardStore

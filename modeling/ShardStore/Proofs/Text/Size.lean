import ShardStore.Proofs.Decimal.Grammar
import ShardStore.Proofs.Text.Blank
/-!
# Text — the numerals of sizes

A size is written by digits, with one plus in front of them or none, and is
below two to the 64 (`SizeText`). Exactly these texts are read
(`readSize?_eq_some_iff`), among them the decimal form of every size and of no
greater number (`sizeText_repr_iff`).
-/

namespace ShardStore

namespace Text

open Decimal

variable {cs : List Char} {n m : ℕ}

/-- **The text of a size.** -/
inductive SizeText : List Char → ℕ → Prop
  | numeral {sign digits : List Char} {n : ℕ} (hsign : Sign sign false) (h : Digits digits n)
      (hne : digits ≠ []) (hn : n < 2 ^ 64) : SizeText (sign ++ digits) n

theorem plus_ne_digits (h : Digits cs n) (more : List Char) : '+' :: more ≠ cs := by
  rintro rfl
  obtain ⟨hplus, -⟩ := isDigit_ne ((digits_iff.1 h).1 '+' List.mem_cons_self)
  exact hplus rfl

theorem readDigits?_eq_some_iff :
    readDigits? cs = some n ↔ Digits cs n ∧ cs ≠ [] ∧ n < 2 ^ 64 := by
  have hbound : sizeBound = 2 ^ 64 := rfl
  rw [readDigits?, Option.ite_none_right_eq_some, digits_iff]
  simp only [Bool.and_eq_true, Bool.not_eq_true', List.isEmpty_eq_false_iff, List.all_eq_true,
    decide_eq_true_eq, hbound, Option.some.injEq]
  constructor
  · rintro ⟨⟨⟨hne, hall⟩, hlt⟩, rfl⟩
    exact ⟨⟨hall, rfl⟩, hne, hlt⟩
  · rintro ⟨⟨hall, rfl⟩, hne, hlt⟩
    exact ⟨⟨⟨hne, hall⟩, hlt⟩, rfl⟩

/-- **A size is read exactly where there is one.** -/
theorem readSize?_eq_some_iff : readSize? cs = some n ↔ SizeText cs n := by
  constructor
  · intro h
    unfold readSize? at h
    split at h
    · obtain ⟨hdigits, hne, hlt⟩ := readDigits?_eq_some_iff.1 h
      exact .numeral .plus hdigits hne hlt
    · obtain ⟨hdigits, hne, hlt⟩ := readDigits?_eq_some_iff.1 h
      exact .numeral .none hdigits hne hlt
  · rintro ⟨hsign, hdigits, hne, hlt⟩
    have hread := readDigits?_eq_some_iff.2 ⟨hdigits, hne, hlt⟩
    cases hsign with
    | plus => exact hread
    | none =>
      unfold readSize?
      split
      · next more heq => exact absurd heq.symm (plus_ne_digits hdigits more)
      · exact hread

/-- A number is written by its decimal digits. -/
theorem digits_repr (n : ℕ) : Digits n.repr.toList n ∧ n.repr.toList ≠ [] := by
  rw [Nat.toList_repr, digits_iff]
  have hvalue : digitsValue (Nat.toDigits 10 n) = n := Nat.ofDigitChars_ten_toDigits
  exact ⟨⟨fun c hc => Nat.isDigit_of_mem_toDigits (by decide) (by decide) hc, hvalue⟩,
    Nat.toDigits_ne_nil⟩

theorem isBlank_of_isDigit {c : Char} (h : c.isDigit = true) : isBlank c = false :=
  isBlank_of_isIdentifierChar (by simp [isIdentifierChar, Char.isAlphanum, h])

theorem isWord_repr (n : ℕ) : IsWord n.repr.toList where
  nonempty := (digits_repr n).2
  solid c hc := isBlank_of_isDigit ((digits_iff.1 (digits_repr n).1).1 c hc)

/-- **The decimal form of a number is the text of that size**, if it is one,
and of no other. -/
theorem sizeText_repr_iff : SizeText n.repr.toList m ↔ m = n ∧ n < 2 ^ 64 := by
  obtain ⟨hdigits, hne⟩ := digits_repr n
  constructor
  · intro h
    generalize hcs : n.repr.toList = cs at h
    obtain ⟨hsign, hdigits', hne', hlt⟩ := h
    cases hsign with
    | none =>
      rw [List.nil_append] at hcs
      rw [hcs] at hdigits
      obtain rfl := (digits_iff.1 hdigits).2
      obtain rfl := (digits_iff.1 hdigits').2
      exact ⟨rfl, hlt⟩
    | plus => exact absurd hcs.symm (plus_ne_digits hdigits _)
  · rintro ⟨rfl, hlt⟩
    exact .numeral .none hdigits hne hlt

end Text

end ShardStore

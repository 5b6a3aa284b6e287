import Mathlib.Data.List.Basic
import ShardStore.Proofs.Condition
import ShardStore.Proofs.Text.Words
/-!
# Conditions — what can be written, and is compiled

A text is a condition if its words are three and the second one is a
comparison, and then it is compiled to these (`Condition.parse_eq_ok_iff`). The
third word is null, a text in quotes or a bare word, in this order; so a
literal is written by some word unless it has blanks, or is bare and would be
taken for something else (`Literal.Expressible`).
-/

namespace ShardStore

open Text

namespace Comparison

theorem symbol_of_ofSymbol? {word : List Char} {comparison : Comparison}
    (h : ofSymbol? word = some comparison) : word = comparison.symbol.toList := by
  unfold ofSymbol? at h
  split at h <;> cases h <;> rfl

/-- **A word is a comparison exactly if it is the symbol of one.** -/
theorem ofSymbol?_eq_some_iff {word : List Char} {comparison : Comparison} :
    ofSymbol? word = some comparison ↔ word = comparison.symbol.toList := by
  refine ⟨symbol_of_ofSymbol?, ?_⟩
  rintro rfl
  exact ofSymbol?_symbol comparison

end Comparison

namespace Literal

/-- A text of two or more characters that begins and ends with the same
quote. -/
def InQuotes (word : List Char) : Prop :=
  ∃ quote content, (quote = '\'' ∨ quote = '"') ∧ word = quote :: (content ++ [quote])

/-- **The literals that a word can write.** A text in quotes may be empty, and
may hold quotes. -/
def Expressible : Literal → Prop
  | null => True
  | quoted text => ∀ c ∈ text.toList, isBlank c = false
  | bare text => IsWord text.toList ∧ isNullWord text.toList = false ∧ ¬ InQuotes text.toList

/-- A word that writes a literal: the null word in any letter case, a text
between quotes of either kind, or the text itself. -/
inductive Writes : List Char → Literal → Prop
  | null {word : List Char} (h : isNullWord word = true) : Writes word null
  | quoted {quote : Char} (hquote : quote = '\'' ∨ quote = '"') (text : String) :
      Writes (quote :: (text.toList ++ [quote])) (quoted text)
  | bare (text : String) : Writes text.toList (bare text)

variable {word content : List Char} {quote : Char} {literal : Literal}

theorem inQuotes_of_unquote? (hquote : quote = '\'' ∨ quote = '"')
    (h : unquote? quote word = some content) : InQuotes word :=
  ⟨quote, content, hquote, unquote?_eq_some_iff.1 h⟩

theorem unquote?_eq_none (hquote : quote = '\'' ∨ quote = '"') (h : ¬ InQuotes word) :
    unquote? quote word = none :=
  Option.eq_none_iff_forall_ne_some.2 fun _ hsome => h (inQuotes_of_unquote? hquote hsome)

/-- **A word that writes an expressible literal is taken for it.** -/
theorem ofWord_of_writes (h : Writes word literal) (hliteral : literal.Expressible) :
    ofWord word = literal := by
  cases h with
  | null hnull => exact ofWord_eq_null_iff.2 hnull
  | quoted hquote text => rw [ofWord_between hquote, String.ofList_toList]
  | bare text =>
    obtain ⟨-, hnull, hbare⟩ := hliteral
    unfold ofWord
    rw [hnull, if_neg Bool.false_ne_true, unquote?_eq_none (.inl rfl) hbare,
      unquote?_eq_none (.inr rfl) hbare]
    simp only [String.ofList_toList]

/-- A word that writes a literal is a word if the literal is expressible. -/
theorem Writes.isWord (h : Writes word literal) (hliteral : literal.Expressible) :
    IsWord word := by
  cases h with
  | null hnull => exact isWord_of_isNullWord hnull
  | quoted hquote text => exact isWord_between hquote hliteral
  | bare text => exact hliteral.1

/-- What is in quotes in a word has no blank either. -/
theorem expressible_quoted (hword : IsWord word) (hquote : quote = '\'' ∨ quote = '"')
    (h : unquote? quote word = some content) :
    (quoted (String.ofList content)).Expressible ∧ Writes word (quoted (String.ofList content)) := by
  obtain rfl := unquote?_eq_some_iff.1 h
  have hwrites := Writes.quoted hquote (String.ofList content)
  rw [String.toList_ofList] at hwrites
  refine ⟨fun c hc => hword.solid c ?_, hwrites⟩
  rw [String.toList_ofList] at hc
  exact List.mem_cons_of_mem _ (List.mem_append_left _ hc)

/-- **Every word writes the literal that it is taken for**, which is
expressible. -/
theorem expressible_ofWord (hword : IsWord word) :
    (ofWord word).Expressible ∧ Writes word (ofWord word) := by
  unfold ofWord
  split
  · next hnull => exact ⟨trivial, .null hnull⟩
  · next hnull =>
    split
    · next hinner => exact expressible_quoted hword (.inl rfl) hinner
    · next hsingle =>
      split
      · next hinner => exact expressible_quoted hword (.inr rfl) hinner
      · next hdouble =>
        have hwrites := Writes.bare (String.ofList word)
        refine ⟨?_, by rwa [String.toList_ofList] at hwrites⟩
        rw [Expressible, String.toList_ofList]
        refine ⟨hword, Bool.eq_false_iff.2 hnull, ?_⟩
        rintro ⟨quote, content, rfl | rfl, hquotes⟩
        · rw [unquote?_eq_some_iff.2 hquotes] at hsingle
          cases hsingle
        · rw [unquote?_eq_some_iff.2 hquotes] at hdouble
          cases hdouble

end Literal

namespace Condition

variable {text : String} {condition : Condition} {e : ConditionError}

/-- **The conditions that a text can write.** -/
structure Expressible (condition : Condition) : Prop where
  column : IsWord condition.column.toList
  literal : condition.literal.Expressible

/-- A text that writes a condition: its column, its symbol and a word of its
literal, with blanks between them and around them. -/
def Writes (text : String) (condition : Condition) : Prop :=
  ∃ word, Literal.Writes word condition.literal ∧
    Spaced [condition.column.toList, condition.comparison.symbol.toList, word] text.toList

theorem parse_of_words {column word : List Char} {comparison : Comparison}
    (h : words text.toList = [column, comparison.symbol.toList, word]) :
    parse text = .ok ⟨String.ofList column, comparison, Literal.ofWord word⟩ := by
  unfold parse
  simp only [h, Comparison.ofSymbol?_symbol]

/-- A text is compiled only where its words are three and the second one is a
comparison. -/
theorem words_of_parse (h : parse text = .ok condition) : ∃ word,
    words text.toList = [condition.column.toList, condition.comparison.symbol.toList, word] ∧
      Literal.ofWord word = condition.literal := by
  unfold parse at h
  split at h
  · next column symbol word hwords =>
    split at h
    · next comparison hsymbol =>
      cases h
      refine ⟨word, ?_, rfl⟩
      rw [hwords, Comparison.ofSymbol?_eq_some_iff.1 hsymbol, String.toList_ofList]
    · cases h
  · cases h

/-- **A text is compiled to just the expressible condition that it writes.** -/
theorem parse_eq_ok_iff : parse text = .ok condition ↔ condition.Expressible ∧ Writes text condition := by
  constructor
  · intro h
    obtain ⟨word, hwords, hliteral⟩ := words_of_parse h
    obtain ⟨hspaced, hparts⟩ := words_eq_iff.1 hwords
    obtain ⟨hexpressible, hwrites⟩ :=
      Literal.expressible_ofWord (hparts word (by simp))
    rw [hliteral] at hexpressible hwrites
    exact ⟨⟨hparts _ (by simp), hexpressible⟩, word, hwrites, hspaced⟩
  · rintro ⟨hexpressible, word, hwrites, hspaced⟩
    have hparts : ∀ part ∈ [condition.column.toList, condition.comparison.symbol.toList, word],
        IsWord part := by
      simp only [List.forall_mem_cons]
      exact ⟨hexpressible.column, condition.comparison.isWord_symbol,
        hwrites.isWord hexpressible.literal, fun part hpart => absurd hpart List.not_mem_nil⟩
    rw [parse_of_words (hspaced.words_eq hparts), String.ofList_toList,
      Literal.ofWord_of_writes hwrites hexpressible.literal]

/-- **Every other text is refused**, and the error has all of it. -/
theorem parse_eq_error_iff : parse text = .error e ↔ e = .malformed text ∧
    ((words text.toList).length ≠ 3 ∨
      ∀ comparison : Comparison, (words text.toList)[1]? ≠ some comparison.symbol.toList) := by
  constructor
  · intro h
    refine ⟨parse_eq_error h, Classical.or_iff_not_imp_left.2 fun hthree comparison hsymbol => ?_⟩
    obtain ⟨column, symbol, word, hwords⟩ := List.length_eq_three.1 (not_not.1 hthree)
    rw [hwords] at hsymbol
    obtain rfl := Option.some.inj hsymbol
    rw [parse_of_words hwords] at h
    cases h
  · rintro ⟨rfl, hwords⟩
    cases hparse : parse text with
    | error cause => rw [parse_eq_error hparse]
    | ok condition =>
      obtain ⟨word, hthree, -⟩ := words_of_parse hparse
      rw [hthree] at hwords
      rcases hwords with hlength | hsymbol
      · exact absurd rfl hlength
      · exact absurd rfl (hsymbol condition.comparison)

/-- **Three words with a comparison in their middle are compiled, and nothing
else**: every expressible condition is what each of its texts is compiled to,
only expressible ones are ever compiled, and every other text is malformed as
a whole. -/
theorem compiles_exactly_expressible :
    (∀ text e, parse text = .error e ↔ e = .malformed text ∧
      ((words text.toList).length ≠ 3 ∨
        ∀ comparison : Comparison, (words text.toList)[1]? ≠ some comparison.symbol.toList)) ∧
    (∀ (condition : Condition) text, condition.Expressible → Writes text condition →
      parse text = .ok condition) ∧
    (∀ text condition, parse text = .ok condition →
      condition.Expressible ∧ Writes text condition) :=
  ⟨fun _ _ => parse_eq_error_iff, fun _ _ hexpressible hwrites =>
    parse_eq_ok_iff.2 ⟨hexpressible, hwrites⟩, fun _ _ => parse_eq_ok_iff.1⟩

/-- A text with quotes of both kinds that spells null within, between two
kinds of blanks; a single quote, which is a bare word; and no comparison. -/
theorem compiles_exactly_expressible_quotes :
    let spelled : Condition := ⟨"a", .greaterEqual, .quoted "it's\"NULL"⟩
    let single : Condition := ⟨"b", .notEqual, .bare "'"⟩
    spelled.Expressible ∧ Writes "\u3000a >=\t'it's\"NULL' " spelled ∧
      parse "\u3000a >=\t'it's\"NULL' " = .ok spelled ∧ parse "b != '" = .ok single ∧
      single.Expressible ∧ parse "a == 5" = .error (.malformed "a == 5") := by
  intro spelled single
  have hquoted : IsWord "it's\"NULL".toList := by decide
  have hspelled : spelled.Expressible := ⟨by decide, hquoted.solid⟩
  have hwords : words "\u3000a >=\t'it's\"NULL' ".toList =
      ["a".toList, ">=".toList, "'it's\"NULL'".toList] := by decide +kernel
  have hwrites : Writes "\u3000a >=\t'it's\"NULL' " spelled :=
    ⟨_, .quoted (.inl rfl) "it's\"NULL", (words_eq_iff.1 hwords).1⟩
  have hparse : parse "b != '" = .ok single := by decide +kernel
  have hdouble : ∀ comparison : Comparison,
      (words "a == 5".toList)[1]? ≠ some comparison.symbol.toList := by
    intro comparison
    cases comparison <;> decide +kernel
  obtain ⟨hrefused, hcompiled, honly⟩ := compiles_exactly_expressible
  exact ⟨hspelled, hwrites, hcompiled _ _ hspelled hwrites, hparse, (honly _ _ hparse).1,
    (hrefused _ _).2 ⟨rfl, .inr hdouble⟩⟩

end Condition

end ShardStore

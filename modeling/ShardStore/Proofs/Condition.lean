import Mathlib.Logic.ExistsUnique
import ShardStore.Condition
import ShardStore.Proofs.Text.Blank
/-!
# Conditions — their texts, and how the comparisons agree

A condition that is written with single spaces between its three words is
compiled to just these (`Condition.parse_written`). Which comparisons it makes
true of a cell is settled by one order: that of the cell and its literal
(`Literal.order?`), which is numeric, textual or missing by the two alone and
not by the comparison. So the comparisons agree with each other whatever the
order comes from.
-/

namespace ShardStore

open Text

namespace Comparison

theorem isWord_symbol (comparison : Comparison) : IsWord comparison.symbol.toList := by
  cases comparison <;> decide

/-- Two things stand in one order, or in none, and the comparisons that are
no orders are made of those that are. -/
theorem any_accepts (o : Option Ordering) :
    o.any lessEqual.accepts = (o.any less.accepts || o.any equal.accepts) ∧
      o.any greaterEqual.accepts = (o.any greater.accepts || o.any equal.accepts) ∧
      o.any notEqual.accepts = (o.any less.accepts || o.any greater.accepts) := by
  rcases o with _ | _ | _ | _ <;> exact ⟨rfl, rfl, rfl⟩

/-- **Of `<`, `=`, `>` and no order at all just one is the case.** -/
theorem existsUnique_selects {o : Option Ordering} (selects : Comparison × String → Bool)
    {word null : String}
    (hword : ∀ comparison, selects (comparison, word) = o.any comparison.accepts)
    (hnull : selects (equal, null) = o.isNone) :
    ∃! condition, condition ∈ [(less, word), (equal, word), (greater, word), (equal, null)] ∧
      selects condition = true := by
  have honly : ∀ condition, condition ∈
      [(less, word), (equal, word), (greater, word), (equal, null)] → selects condition = true →
      condition = match o with
        | none => (equal, null)
        | some .lt => (less, word)
        | some .eq => (equal, word)
        | some .gt => (greater, word) := by
    intro condition hmem hsel
    simp only [List.mem_cons, List.not_mem_nil, or_false] at hmem
    rcases hmem with rfl | rfl | rfl | rfl
    all_goals
      simp only [hword, hnull] at hsel
      rcases o with _ | _ | _ | _ <;> first | rfl | cases hsel
  refine ⟨_, ⟨?_, ?_⟩, fun condition hcondition => honly condition hcondition.1 hcondition.2⟩
  · rcases o with _ | _ | _ | _ <;> simp
  · rcases o with _ | _ | _ | _ <;> simp [hword, hnull, accepts]

end Comparison

namespace Literal

/-- The order that a cell is in with a literal: of numbers or of texts. Null
is in no order with anything. -/
def order? : Literal → Cell → Option Ordering
  | bare literal, .text content => some (bareOrder content literal)
  | quoted literal, .text content => some (textOrder content literal)
  | _, _ => none

/-- Only null is in no order with a literal that is not null itself. -/
theorem order?_eq_none_iff {literal : Literal} (h : literal ≠ null) {cell : Cell} :
    literal.order? cell = none ↔ cell = .null := by
  cases literal with
  | null => exact absurd rfl h
  | bare literal => cases cell <;> simp [order?]
  | quoted literal => cases cell <;> simp [order?]

theorem ofWord_eq_null_iff {word : List Char} : ofWord word = null ↔ isNullWord word = true := by
  unfold ofWord
  split
  · next hnull => simp [hnull]
  · next hnull =>
    refine iff_of_false ?_ hnull
    split
    · simp
    · split <;> simp

theorem ofWord_ne_null {word : List Char} (h : isNullWord word = false) : ofWord word ≠ null := by
  rw [Ne, ofWord_eq_null_iff, h]
  exact Bool.false_ne_true

variable {word content : List Char} {quote : Char}

theorem unquote?_eq_some_iff :
    unquote? quote word = some content ↔ word = quote :: (content ++ [quote]) := by
  cases word with
  | nil => simp [unquote?]
  | cons c cs =>
    rw [unquote?, Option.ite_none_right_eq_some]
    constructor
    · rintro ⟨⟨rfl, hlast⟩, h⟩
      obtain ⟨front, rfl⟩ := List.getLast?_eq_some_iff.1 hlast
      rw [List.dropLast_concat] at h
      rw [Option.some.inj h]
    · intro h
      obtain ⟨rfl, rfl⟩ := List.cons.inj h
      exact ⟨⟨rfl, List.getLast?_concat⟩, congrArg some List.dropLast_concat⟩

/-- A quote begins no null word. -/
theorem isNullWord_quote (hquote : quote = '\'' ∨ quote = '"') (cs : List Char) :
    isNullWord (quote :: cs) = false := by
  rcases hquote with rfl | rfl
  · simp [isNullWord, sameLetters]
  · simp [isNullWord, sameLetters]

/-- **A text between two quotes of one kind is a quoted literal**, whatever it
holds. -/
theorem ofWord_between (hquote : quote = '\'' ∨ quote = '"') (content : List Char) :
    ofWord (quote :: (content ++ [quote])) = quoted (String.ofList content) := by
  unfold ofWord
  rw [isNullWord_quote hquote, if_neg Bool.false_ne_true]
  rcases hquote with rfl | rfl
  · rw [unquote?_eq_some_iff.2 rfl]
  · -- What begins with the one quote is not in the other.
    have hother : unquote? '\'' ('"' :: (content ++ ['"'])) = none := by simp [unquote?]
    rw [hother, unquote?_eq_some_iff.2 rfl]

/-- It is one word where it has no blank. -/
theorem isWord_between (hquote : quote = '\'' ∨ quote = '"')
    (h : ∀ c ∈ content, isBlank c = false) : IsWord (quote :: (content ++ [quote])) := by
  have hsolid : isBlank quote = false := by rcases hquote with rfl | rfl <;> rfl
  refine ⟨List.cons_ne_nil _ _, List.forall_mem_cons.2 ⟨hsolid, ?_⟩⟩
  exact List.forall_mem_append.2 ⟨h, List.forall_mem_singleton.2 hsolid⟩

theorem toList_quoted (content : String) :
    ("'" ++ content ++ "'").toList = '\'' :: (content.toList ++ ['\'']) := by simp

theorem ofWord_quoted (content : String) :
    ofWord ("'" ++ content ++ "'").toList = quoted content := by
  rw [toList_quoted, ofWord_between (.inl rfl), String.ofList_toList]

theorem isWord_quoted {content : String} (h : ∀ c ∈ content.toList, isBlank c = false) :
    IsWord ("'" ++ content ++ "'").toList := by
  rw [toList_quoted]
  exact isWord_between (.inl rfl) h

end Literal

namespace Condition

variable {column word : String} {comparison : Comparison} {literal : Literal} {cell : Cell}

/-! ## Written conditions -/

/-- The text of a condition, with a space between each two of its words. -/
def written (column : String) (comparison : Comparison) (word : String) : String :=
  column ++ " " ++ comparison.symbol ++ " " ++ word

theorem words_written (hcolumn : IsWord column.toList) (comparison : Comparison)
    (hword : IsWord word.toList) : words (written column comparison word).toList =
      [column.toList, comparison.symbol.toList, word.toList] := by
  have hspace : isBlank ' ' = true := by decide
  have hchars : (written column comparison word).toList =
      column.toList ++ ' ' :: (comparison.symbol.toList ++ ' ' :: word.toList) := by
    simp [written]
  rw [hchars, words_append_blank hspace, words_append_blank hspace, words_of_word hcolumn,
    words_of_word comparison.isWord_symbol, words_of_word hword]
  rfl

/-- **A written condition is compiled to its words.** -/
theorem parse_written (hcolumn : IsWord column.toList) (comparison : Comparison)
    (hword : IsWord word.toList) : parse (written column comparison word) =
      .ok ⟨column, comparison, Literal.ofWord word.toList⟩ := by
  simp [parse, words_written hcolumn comparison hword, Comparison.ofSymbol?_symbol]

/-- A condition that cannot be compiled is malformed as a whole. -/
theorem parse_eq_error {text : String} {e : ConditionError} (h : parse text = .error e) :
    e = .malformed text := by
  unfold parse at h
  repeat' split at h
  all_goals cases h
  all_goals rfl

theorem trimmed_written (hcolumn : IsWord column.toList) (comparison : Comparison)
    (hword : IsWord word.toList) : Trimmed (written column comparison word).toList := by
  have hedges := hcolumn.trimmed.between hcolumn.nonempty (" " ++ comparison.symbol ++ " ").toList
    hword.trimmed hword.nonempty
  simpa [written] using hedges

/-! ## What a condition accepts -/

/-- With a literal that is not null, a comparison is one of orders. -/
theorem accepts_eq_any_order? (h : literal ≠ .null) :
    (⟨column, comparison, literal⟩ : Condition).accepts cell =
      (literal.order? cell).any comparison.accepts := by
  cases literal with
  | null => exact absurd rfl h
  | bare literal => cases cell <;> rfl
  | quoted literal => cases cell <;> rfl

/-- Against null, `!=` is the contrary of `=`. -/
theorem accepts_notEqual_null : (⟨column, .notEqual, .null⟩ : Condition).accepts cell =
    !(⟨column, .equal, .null⟩ : Condition).accepts cell := by
  cases cell <;> rfl

/-- Against null, no order is true of any cell. -/
theorem accepts_order_null (h : comparison ∈ [.less, .lessEqual, .greater, .greaterEqual]) :
    (⟨column, comparison, .null⟩ : Condition).accepts cell = false := by
  simp only [List.mem_cons, List.not_mem_nil, or_false] at h
  rcases h with rfl | rfl | rfl | rfl
  all_goals cases cell <;> rfl

end Condition

namespace Literal

/-- Of all cells the literal equals `target` alone. -/
def EqualsOnly (literal : Literal) (target : Cell) : Prop :=
  ∀ (column : String) (cell : Cell),
    (⟨column, .equal, literal⟩ : Condition).accepts cell = true ↔ cell = target

/-- A quoted literal equals the cell of its own text. -/
theorem equalsOnly_quoted (content : String) : (quoted content).EqualsOnly (.text content) := by
  intro column cell
  cases cell with
  | null => simp [Condition.accepts]
  | text found =>
    simp [Condition.accepts, Comparison.accepts, textOrder, Std.LawfulEqCmp.compare_eq_iff_eq]

/-- Null equals null. -/
theorem equalsOnly_null : null.EqualsOnly .null := by
  intro column cell
  cases cell <;> simp [Condition.accepts]

end Literal

end ShardStore

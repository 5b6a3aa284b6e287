import ShardStore.Row
import ShardStore.Failure
import ShardStore.Text.Blank
import ShardStore.Text.Identifier
/-!
# Conditions

A condition compares one column with a literal. Its text is three words: a
column, an operator and a literal. A bare literal is compared as a number
with a cell that reads as one, and as text otherwise; a quoted literal is
always text. Null is equal to the null literal and comparable with nothing
else.
-/

namespace ShardStore

open Text

/-- The comparisons of a condition. -/
inductive Comparison where
  | equal
  | notEqual
  | greater
  | greaterEqual
  | less
  | lessEqual
deriving DecidableEq, Repr

namespace Comparison

/-- The written form of a comparison. -/
def symbol : Comparison → String
  | equal => "="
  | notEqual => "!="
  | greater => ">"
  | greaterEqual => ">="
  | less => "<"
  | lessEqual => "<="

/-- The comparison that a word writes. -/
def ofSymbol? : List Char → Option Comparison
  | ['='] => some equal
  | ['!', '='] => some notEqual
  | ['>'] => some greater
  | ['>', '='] => some greaterEqual
  | ['<'] => some less
  | ['<', '='] => some lessEqual
  | _ => none

/-- Whether a comparison holds of two things in the given order. -/
def accepts : Comparison → Ordering → Bool
  | equal, o => o == .eq
  | notEqual, o => o != .eq
  | greater, o => o == .gt
  | greaterEqual, o => o != .lt
  | less, o => o == .lt
  | lessEqual, o => o != .gt

theorem ofSymbol?_symbol (op : Comparison) : ofSymbol? op.symbol.toList = some op := by
  cases op <;> rfl

end Comparison

/-- The right side of a condition. -/
inductive Literal where
  | bare (text : String)
  | quoted (text : String)
  | null
deriving DecidableEq, Repr

namespace Literal

/-- The text between two quotes `quote` that begin and end a word. -/
def unquote? (quote : Char) : List Char → Option (List Char)
  | c :: cs =>
    if c = quote ∧ cs.getLast? = some quote then some cs.dropLast else none
  | [] => none

/-- The literal that a word writes: null, a quoted text, or the word
itself. -/
def ofWord (word : List Char) : Literal :=
  if isNullWord word then null
  else
    match unquote? '\'' word with
    | some inner => quoted (String.ofList inner)
    | none =>
      match unquote? '"' word with
      | some inner => quoted (String.ofList inner)
      | none => bare (String.ofList word)

end Literal

/-- A compiled condition on one column. -/
structure Condition where
  column : String
  comparison : Comparison
  literal : Literal
deriving DecidableEq, Repr

/-- The order of two texts by code points. -/
def textOrder (a b : String) : Ordering :=
  compare a b

/-- The order of a text cell and a bare literal: that of the numbers they
read as, if both do, and otherwise that of the texts. -/
def bareOrder (content literal : String) : Ordering :=
  match Decimal.number? content, Decimal.number? literal with
  | some x, some y => x.order y
  | _, _ => textOrder content literal

namespace Condition

/-- Compiles the text of a condition. -/
def parse (text : String) : Except ConditionError Condition :=
  match words text.toList with
  | [column, symbol, literal] =>
    match Comparison.ofSymbol? symbol with
    | some comparison => .ok ⟨String.ofList column, comparison, Literal.ofWord literal⟩
    | none => .error (.malformed text)
  | _ => .error (.malformed text)

/-- Whether a cell meets the comparison with the literal. -/
def accepts (condition : Condition) : Cell → Bool
  | .null =>
    match condition.literal with
    | .null => condition.comparison == .equal
    | _ => false
  | .text content =>
    match condition.literal with
    | .null => condition.comparison == .notEqual
    | .quoted literal => condition.comparison.accepts (textOrder content literal)
    | .bare literal => condition.comparison.accepts (bareOrder content literal)

/-- Whether a row meets the condition; the row must have the column. -/
def evaluate (condition : Condition) (row : Row) : Except ConditionError Bool :=
  match row[condition.column]? with
  | some cell => .ok (condition.accepts cell)
  | none => .error (.unknownColumn condition.column)

/-- Compiles the text of a condition and evaluates it on a row. -/
def evaluateText (text : String) (row : Row) : Except ConditionError Bool :=
  match parse text with
  | .error e => .error e
  | .ok condition => condition.evaluate row

end Condition

end ShardStore

import ShardStore.Decimal.Number
/-!
# Cells

Tables carry no column types. A cell is text or null, and only a
comparison asks whether a text reads as a number.
-/

namespace ShardStore

/-- One cell of a table. -/
inductive Cell where
  | text (content : String)
  | null
deriving DecidableEq, Repr

namespace Cell

/-- The text shown for a cell; null is shown by its name. -/
def display : Cell → String
  | text content => content
  | null => "NULL"

/-- Whether the cell is null. -/
def isNull : Cell → Bool
  | text _ => false
  | null => true

/-- The content of a text cell. -/
def text? : Cell → Option String
  | text content => some content
  | null => none

/-- The number a cell reads as. -/
def number? (cell : Cell) : Option Binary64 :=
  cell.text?.bind Decimal.number?

end Cell

end ShardStore

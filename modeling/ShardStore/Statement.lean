import ShardStore.Cell
import ShardStore.Text.Blank
import ShardStore.Text.Identifier
/-!
# Statements

The two statements of the language, and the text that writes each of them.
A selection keeps its condition as text; it is compiled when the statement
is carried out. Every cell is written in quotes, so that no text is taken
for a number or for null.
-/

namespace ShardStore

open Text

/-- `SELECT`: the rows of a table, on some of its columns. -/
structure Select where
  /-- The requested columns in order; none stands for all of them. -/
  columns : List String
  table : String
  condition : Option String
deriving DecidableEq, Repr

/-- `INSERT`: one more row for a table. -/
structure Insert where
  table : String
  columns : List String
  values : List Cell
deriving DecidableEq, Repr

/-- A statement on one table. -/
inductive Statement where
  | select (query : Select)
  | insert (addition : Insert)
deriving DecidableEq, Repr

/-- The texts, with a comma and a space between each two. -/
def commaList (texts : List String) : String :=
  ", ".intercalate texts

namespace Cell

/-- The text that writes a cell in a statement. Single quotes are used
unless the cell holds one. -/
def literal : Cell → String
  | null => "NULL"
  | text content =>
    if '\'' ∈ content.toList then "\"" ++ content ++ "\"" else "'" ++ content ++ "'"

end Cell

namespace Select

/-- The text of a selection. -/
def render (query : Select) : String :=
  "SELECT " ++ (if query.columns.isEmpty then "*" else commaList query.columns) ++
    " FROM " ++ query.table ++
    match query.condition with
    | some condition => " WHERE " ++ condition
    | none => ""

end Select

namespace Insert

/-- The text of an insertion. -/
def render (addition : Insert) : String :=
  "INSERT INTO " ++ addition.table ++ " (" ++ commaList addition.columns ++ ") VALUES (" ++
    commaList (addition.values.map Cell.literal) ++ ")"

end Insert

namespace Statement

/-- The text of a statement. -/
def render : Statement → String
  | select query => query.render
  | insert addition => addition.render

end Statement

end ShardStore

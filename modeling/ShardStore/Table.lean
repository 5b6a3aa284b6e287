import ShardStore.Document
import ShardStore.Failure
import ShardStore.Text.Identifier
/-!
# Tables

A table has a name, declared columns in order, and rows in the order of
their insertion. A new table has an identifier for a name and distinct
identifiers for columns, and a row that is built for it, or taken from a
document, holds exactly the declared columns (`WellFormed`).
-/

namespace ShardStore

open Text

/-- A named table: declared columns and rows, both in order. -/
structure Table where
  name : String
  columns : List String
  rows : List Row
deriving DecidableEq

/-- The first name of a list that is among `seen` or occurred before. -/
def firstRepeated? (seen : List String) : List String → Option String
  | [] => none
  | c :: cs => if c ∈ seen then some c else firstRepeated? (c :: seen) cs

/-- Refuses a column list in which a name is repeated. -/
def checkDistinct (columns : List String) : Except ExecutionError Unit :=
  match firstRepeated? [] columns with
  | some c => .error (.repeatedColumn c)
  | none => .ok ()

/-- Refuses a column list with a name that is no identifier, or else with
a repeated one. -/
def checkColumnNames (columns : List String) : Except ExecutionError Unit :=
  match columns.find? (! isIdentifier ·) with
  | some c => .error (.badIdentifier c)
  | none => checkDistinct columns

namespace Table

/-- An empty table, if its name and its columns are admissible. -/
def create (name : String) (columns : List String) : Except ExecutionError Table :=
  if isIdentifier name then
    match checkColumnNames columns with
    | .ok () => .ok ⟨name, columns, []⟩
    | .error e => .error e
  else
    .error (.badIdentifier name)

/-- The table of a document. Its rows keep the declared columns only, and
get null where a declared column is missing. -/
def ofDocument (name : String) (document : Document) : Except ExecutionError Table :=
  match create name document.columns with
  | .ok table => .ok { table with rows := document.rows.map (·.project document.columns) }
  | .error e => .error e

/-- The document of a table. -/
def document (table : Table) : Document :=
  ⟨table.columns, table.rows⟩

/-- Whether a column is declared. -/
def hasColumn (table : Table) (column : String) : Bool :=
  decide (column ∈ table.columns)

/-- Refuses a list with a column that is not declared, naming the first. -/
def checkDeclared (table : Table) (columns : List String) : Except ExecutionError Unit :=
  match columns.find? (! table.hasColumn ·) with
  | some c => .error (.unknownColumn table.name c)
  | none => .ok ()

/-- The row that pairs `columns` with `values` by position, and has null in
every other declared column. -/
def buildRow (table : Table) (columns : List String) (values : List Cell) :
    Except ExecutionError Row :=
  if columns.length ≠ values.length then
    .error (.countMismatch columns.length values.length)
  else
    match checkDistinct columns with
    | .error e => .error e
    | .ok () =>
      match table.checkDeclared columns with
      | .error e => .error e
      | .ok () => .ok ((Row.ofPairs (columns.zip values)).project table.columns)

/-- The table with one more row at its end. -/
def push (table : Table) (row : Row) : Table :=
  { table with rows := table.rows ++ [row] }

/-- The table without its last row. -/
def pop (table : Table) : Table :=
  { table with rows := table.rows.dropLast }

/-- A row that is taken back leaves no trace. -/
@[simp] theorem pop_push (table : Table) (row : Row) : (table.push row).pop = table := by
  simp [push, pop]

/-- What every loaded table satisfies: the name is an identifier, the
columns are distinct identifiers, and each row holds exactly the declared
columns. -/
structure WellFormed (table : Table) : Prop where
  name : isIdentifier table.name = true
  columns : ∀ c ∈ table.columns, isIdentifier c = true
  distinct : table.columns.Nodup
  rows : ∀ row ∈ table.rows, ∀ c, c ∈ row ↔ c ∈ table.columns

end Table

end ShardStore

import ShardStore.Condition
import ShardStore.Statement
import ShardStore.Table
/-!
# Queries

What a selection means over loaded tables: the rows that meet its
condition, in table order, each on the requested columns. Table, columns
and condition are checked against the declared columns before any row is
looked at, in this order.
-/

namespace ShardStore

/-- The loaded tables, by name. -/
abbrev Tables := Std.ExtTreeMap String Table

/-- What a statement yields. -/
inductive Answer where
  /-- One row was added to a table. -/
  | inserted (table : String)
  /-- Columns in order, and rows on them. -/
  | selected (columns : List String) (rows : List Row)
deriving DecidableEq

namespace Answer

/-- The message of an answer without rows. -/
def message? : Answer → Option String
  | inserted table => some ("1 row inserted into '" ++ table ++ "'")
  | selected _ _ => none

/-- The texts of the cells of each row, in column order. -/
def displayedRows : Answer → List (List String)
  | inserted _ => []
  | selected columns rows => rows.map (·.displayed columns)

end Answer

/-- The rows that meet a condition, in order; without a condition, all. -/
def keepRows (condition : Option Condition) : List Row → Except ConditionError (List Row)
  | [] => .ok []
  | row :: rows =>
    let verdict := match condition with
      | some condition => condition.evaluate row
      | none => .ok true
    match verdict with
    | .error e => .error e
    | .ok keep =>
      match keepRows condition rows with
      | .error e => .error e
      | .ok kept => .ok (if keep then row :: kept else kept)

namespace Table

/-- The columns that a selection yields: the requested ones, or all
declared ones where none is requested. -/
def selectedColumns (table : Table) (requested : List String) :
    Except ExecutionError (List String) :=
  if requested.isEmpty then .ok table.columns
  else
    match table.checkDeclared requested with
    | .error e => .error e
    | .ok () => .ok requested

/-- Compiles the condition of a selection, whose column must be declared. -/
def compileCondition (table : Table) : Option String → Except ConditionError (Option Condition)
  | none => .ok none
  | some text =>
    match Condition.parse text with
    | .error e => .error e
    | .ok condition =>
      if table.hasColumn condition.column then .ok (some condition)
      else .error (.unknownColumn condition.column)

end Table

namespace Select

/-- The columns that a selection yields. -/
def resolveColumns (query : Select) (tables : Tables) : Except ExecutionError (List String) :=
  match tables[query.table]? with
  | none => .error (.unknownTable query.table)
  | some table => table.selectedColumns query.columns

/-- The columns and the rows that a selection yields. -/
def run (query : Select) (tables : Tables) : Except ExecutionError (List String × List Row) :=
  match tables[query.table]? with
  | none => .error (.unknownTable query.table)
  | some table =>
    match table.selectedColumns query.columns with
    | .error e => .error e
    | .ok columns =>
      match table.compileCondition query.condition with
      | .error e => .error (.condition e)
      | .ok condition =>
        match keepRows condition table.rows with
        | .error e => .error (.condition e)
        | .ok rows => .ok (columns, rows.map (·.project columns))

end Select

end ShardStore

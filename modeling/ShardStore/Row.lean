import Std.Data.ExtTreeMap
import ShardStore.Cell
/-!
# Rows

A row maps column names to cells. Two rows are equal when they hold the
same cells, and a row lists its columns in the order of their code points.
A column that a row lacks differs from one whose cell is null; `project`
removes the difference for the columns it keeps (`getElem?_project`).
-/

namespace ShardStore

/-- The cells of one row, by column. -/
abbrev Row := Std.ExtTreeMap String Cell

namespace Row

/-- The row that gives each of `columns` the cell that `cell` names. -/
def ofColumns (cell : String → Cell) (columns : List String) : Row :=
  columns.foldr (fun column row => row.insert column (cell column)) ∅

/-- The row of column and cell pairs, in which the last pair of a column
counts. -/
def ofPairs (pairs : List (String × Cell)) : Row :=
  pairs.foldl (fun row pair => row.insert pair.1 pair.2) ∅

/-- The text shown for a column; a missing cell is shown as null. -/
def display (row : Row) (column : String) : String :=
  (row.getD column .null).display

/-- Exactly `columns`, with null for those that the row lacks. -/
def project (row : Row) (columns : List String) : Row :=
  ofColumns (fun column => row.getD column .null) columns

/-- The texts shown for `columns`, in their order. -/
def displayed (row : Row) (columns : List String) : List String :=
  columns.map row.display

theorem getElem?_ofColumns (cell : String → Cell) (columns : List String) (c : String) :
    (ofColumns cell columns)[c]? = if c ∈ columns then some (cell c) else none := by
  induction columns with
  | nil => simp [ofColumns]
  | cons d ds ih =>
    rw [ofColumns, List.foldr_cons, Std.ExtTreeMap.getElem?_insert]
    by_cases h : d = c
    · subst h; simp
    · have ih' : (List.foldr (fun column row => Std.ExtTreeMap.insert row column (cell column)) ∅
          ds : Row)[c]? = if c ∈ ds then some (cell c) else none := ih
      simp [h, ih', Ne.symm h]

/-- **A projection holds its columns and nothing else.** -/
theorem getElem?_project (row : Row) (columns : List String) (c : String) :
    (row.project columns)[c]? = if c ∈ columns then some (row.getD c .null) else none :=
  getElem?_ofColumns _ _ _

end Row

end ShardStore

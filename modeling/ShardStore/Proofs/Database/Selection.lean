import Mathlib.Control.Monad.Basic
import ShardStore.Proofs.Condition
import ShardStore.Proofs.Database.WellFormed
import ShardStore.Proofs.Query
/-!
# Databases — selections

What a selection yields over a reachable database. Its tables are well formed,
so every selection runs to what it means, and databases with the same schemas
refuse the same selections. With a literal that is not null, `<`, `=` and `>`
part the rows of a table that have a text in the column, and `= NULL` has the
others; the remaining comparisons are made of these. A condition is a text
here too, which is compiled for each row or once for a query with the same
result (`Condition.run_written`).
-/

namespace ShardStore

open Text

variable {σ τ : Type} [Storage σ] [Storage τ]

/-- The texts show the cells of a row, one for each of `columns` in order. -/
def Row.Shows (columns : List String) (row : Row) (texts : List String) : Prop :=
  List.Forall₂ (fun c text => ∃ cell : Cell, row[c]? = some cell ∧ text = cell.display)
    columns texts

/-- Rows that hold the columns of an answer are shown cell by cell. -/
theorem Answer.displayedRows_selected {columns : List String} {rows : List Row}
    (h : ∀ row ∈ rows, ∀ c ∈ columns, c ∈ row) :
    List.Forall₂ (Row.Shows columns) rows (Answer.selected columns rows).displayedRows := by
  rw [displayedRows, List.forall₂_map_right_iff, List.forall₂_same]
  intro row hrow
  rw [Row.Shows, Row.displayed, List.forall₂_map_right_iff, List.forall₂_same]
  intro c hc
  exact ⟨row.getD c .null, Std.ExtTreeMap.getElem?_eq_some_getD (h row hrow c hc), rfl⟩

namespace Database

/-- The databases have the same tables with the same columns. -/
def SameSchemas (db : Database σ) (other : Database τ) : Prop :=
  ∀ name : String, other.tables[name]?.map Table.columns = db.tables[name]?.map Table.columns

/-- **A selection yields what it means.** It means one thing, and changes
nothing; no row is refused while the rows are looked through, so a database
with the same schemas refuses it for the same cause, or yields the same columns;
and each row of an answer is displayed with one text for each column in
order, also where a column comes twice. -/
theorem selection_by_meaning {db : Database σ} (h : db.Reachable) (query : Select) :
    (∀ outcome, query.run db.tables = outcome ↔ query.Means db.tables outcome) ∧
    db.execute (.select query) =
      (((query.run db.tables).map fun answer => .selected answer.1 answer.2).mapError .execution,
        db) ∧
    (∀ (table : Table) (condition : Condition), db.tables[query.table]? = some table →
      table.Compiles query.condition (some condition) →
        ∀ row ∈ table.rows, ∃ verdict, condition.evaluate row = .ok verdict) ∧
    (∀ other : Database τ, other.Reachable → db.SameSchemas other →
      (query.run other.tables).map Prod.fst = (query.run db.tables).map Prod.fst) ∧
    (∀ (columns : List String) (rows : List Row), query.run db.tables = .ok (columns, rows) →
      List.Forall₂ (Row.Shows columns) rows (Answer.selected columns rows).displayedRows) := by
  have hmeans := Select.means_run (h.wellFormed query.table)
  refine ⟨fun outcome => Select.run_eq_iff_means (h.wellFormed query.table), ?_, ?_, ?_, ?_⟩
  · cases hrun : query.run db.tables with
    | error e => simp only [execute, hrun]; rfl
    | ok answer => simp only [execute, hrun]; rfl
  · intro table condition htable hcondition row hrow
    have hcolumn := hcondition.declared condition rfl
    have hwf := (h.wellFormed query.table table htable).2
    exact ⟨_, Condition.evaluate_eq_ok ((hwf.rows row hrow _).2 hcolumn)⟩
  · intro other hother hschemas
    obtain ⟨outcome, hsame, heq⟩ := hmeans.congr
      (fun table htable => (hother.wellFormed query.table table htable).2) (hschemas query.table)
    rw [hsame.run_eq (hother.wellFormed query.table), heq]
  · intro columns rows hrun
    rw [hrun] at hmeans
    exact Answer.displayedRows_selected fun row hrow c hc => (hmeans.mem_row row hrow c).2 hc

/-- A column that is asked for twice is shown twice; and a database with the
same schema and no rows answers with the same columns. -/
theorem selection_by_meaning_repeated_column :
    let made : List (Event MemoryStore) := [.ask (.createTable "t" ["x", "y"])]
    let filled : List (Event MemoryStore) :=
      [.ask (.execute (.insert ⟨"t", ["y"], [.text "a"]⟩)),
        .ask (.execute (.insert ⟨"t", ["x"], [.text "1"]⟩))]
    let db := (Event.runAll (made ++ filled) (.empty {})).2
    let other := (Event.runAll made (.empty {})).2
    let query : Select := ⟨["x", "x"], "t", some "y = null"⟩
    let rows := [Row.ofPairs [("x", .text "1")]]
    query.Means db.tables (.ok (["x", "x"], rows)) ∧
      (query.run other.tables).map Prod.fst = .ok ["x", "x"] ∧
      (Answer.selected ["x", "x"] rows).displayedRows = [["1", "1"]] := by
  intro made filled db other query rows
  have hreachable : db.Reachable := (Reachable.empty _).runAll _
  have hreachable' : other.Reachable := (Reachable.empty _).runAll _
  have hrun : query.run db.tables = .ok (["x", "x"], rows) := by decide
  have hschemas : db.SameSchemas other := by
    have hcolumns : other.tables.map (fun _ table => table.columns) =
        db.tables.map (fun _ table => table.columns) := by rfl
    intro name
    simpa using congrArg (·[name]?) hcolumns
  obtain ⟨hmeans, -, -, hschema, -⟩ :=
    selection_by_meaning (τ := MemoryStore) hreachable query
  refine ⟨(hmeans _).1 hrun, ?_, rfl⟩
  rw [hschema other hreachable' hschemas, hrun]
  rfl

end Database

/-! ## Comparisons with one literal -/

namespace Condition

/-- Whether a row is selected by the text of a condition. -/
def selects (text : String) (row : Row) : Bool :=
  match evaluateText text row with
  | .ok verdict => verdict
  | .error _ => false

variable {column word : String} {row : Row} {cell : Cell}

/-- A written condition selects a row for its cell in the column. -/
theorem selects_written (hcolumn : IsWord column.toList) (comparison : Comparison)
    (hword : IsWord word.toList) (hcell : row[column]? = some cell) :
    selects (written column comparison word) row =
      (⟨column, comparison, Literal.ofWord word.toList⟩ : Condition).accepts cell := by
  simp only [selects, evaluateText, parse_written hcolumn comparison hword, evaluate, hcell]

/-- With a word that is not null, it selects the row by the order of the two. -/
theorem selects_of_order (hcolumn : IsWord column.toList) (comparison : Comparison)
    (hword : IsWord word.toList) (hbare : isNullWord word.toList = false)
    (hcell : row[column]? = some cell) : selects (written column comparison word) row =
      ((Literal.ofWord word.toList).order? cell).any comparison.accepts := by
  have haccepts := selects_written hcolumn comparison hword hcell
  exact haccepts.trans (accepts_eq_any_order? (Literal.ofWord_ne_null hbare))

theorem selects_of_null (hcolumn : IsWord column.toList) (comparison : Comparison)
    (hnull : isNullWord word.toList = true) (hcell : row[column]? = some cell) :
    selects (written column comparison word) row =
      (⟨column, comparison, .null⟩ : Condition).accepts cell := by
  rw [← Literal.ofWord_eq_null_iff.2 hnull]
  exact selects_written hcolumn comparison (isWord_of_isNullWord hnull) hcell

/-- It selects the rows of a table as a query does. -/
theorem run_written {tables : Tables} {name : String} {table : Table}
    (htable : tables[name]? = some table) (hwf : table.WellFormed)
    (hcolumn : column ∈ table.columns) (comparison : Comparison) (hword : IsWord word.toList) :
    Select.run ⟨[], name, some (written column comparison word)⟩ tables =
      .ok (table.columns, table.rows.filter (selects (written column comparison word))) := by
  have hname := isWord_of_isIdentifier (hwf.columns column hcolumn)
  have hparse := parse_written hname comparison hword
  rw [Select.run_all_columns htable hwf (.compiled hparse hcolumn)]
  have hsame : table.rows.filter (·.meets (some ⟨column, comparison, Literal.ofWord word.toList⟩)) =
      table.rows.filter (selects (written column comparison word)) := by
    refine List.filter_congr fun row hrow => ?_
    obtain ⟨cell, hcell⟩ := hwf.exists_cell hrow hcolumn
    rw [selects_written hname comparison hword hcell]
    simp [Row.meets, hcell]
  rw [hsame]

end Condition

namespace Database

/-- **Comparisons with one literal part the rows of a table.** For a column
and a word that is not null, each row is selected by just one of `<`, `=` and
`>` with the word and `=` with null; the other comparisons with the word are
made of the first three; `!=` with null selects what `=` with null does not;
and no order with null selects a row. Each of these conditions is carried out
as a query, which yields the rows it selects. -/
theorem comparisons_part_rows {db : Database σ} (h : db.Reachable) {name column : String}
    {table : Table} (htable : db.tables[name]? = some table) (hcolumn : column ∈ table.columns)
    {word null : String} (hword : IsWord word.toList) (hbare : isNullWord word.toList = false)
    (hnull : isNullWord null.toList = true) :
    let selects (comparison : Comparison) (word : String) (row : Row) : Bool :=
      Condition.selects (Condition.written column comparison word) row
    (∀ comparison, ∀ literal ∈ [word, null],
      Select.run ⟨[], name, some (Condition.written column comparison literal)⟩ db.tables =
        .ok (table.columns, table.rows.filter (selects comparison literal))) ∧
    ∀ row ∈ table.rows,
      (∃! condition : Comparison × String,
        condition ∈ [(.less, word), (.equal, word), (.greater, word), (.equal, null)] ∧
          selects condition.1 condition.2 row = true) ∧
      selects .lessEqual word row = (selects .less word row || selects .equal word row) ∧
      selects .greaterEqual word row = (selects .greater word row || selects .equal word row) ∧
      selects .notEqual word row = (selects .less word row || selects .greater word row) ∧
      (selects .notEqual word row = true → row[column]? ≠ some .null) ∧
      selects .notEqual null row = !selects .equal null row ∧
      ∀ comparison ∈ [Comparison.less, .lessEqual, .greater, .greaterEqual],
        selects comparison null row = false := by
  intro selects
  obtain ⟨-, hwf⟩ := h.wellFormed name table htable
  have hname := isWord_of_isIdentifier (hwf.columns column hcolumn)
  have hnullword := isWord_of_isNullWord hnull
  refine ⟨fun comparison literal hliteral => ?_, fun row hrow => ?_⟩
  · have hsolid : IsWord literal.toList := by
      simp only [List.mem_cons, List.not_mem_nil, or_false] at hliteral
      rcases hliteral with rfl | rfl
      · exact hword
      · exact hnullword
    exact Condition.run_written htable hwf hcolumn comparison hsolid
  obtain ⟨cell, hcell⟩ := hwf.exists_cell hrow hcolumn
  -- With the word every comparison asks for the same order, if there is one; it
  -- is generalized so that the law no longer depends on where it comes from.
  have horder : ∀ comparison, selects comparison word row = _ := fun comparison =>
    Condition.selects_of_order hname comparison hword hbare hcell
  have hmissing : ∀ comparison, selects comparison null row = _ := fun comparison =>
    Condition.selects_of_null hname comparison hnull hcell
  have hnone : (Literal.ofWord word.toList).order? cell = none ↔ cell = .null :=
    Literal.order?_eq_none_iff (Literal.ofWord_ne_null hbare)
  generalize (Literal.ofWord word.toList).order? cell = o at horder hnone
  obtain ⟨hle, hge, hne⟩ := Comparison.any_accepts o
  refine ⟨?_, ?_, ?_, ?_, ?_, ?_, ?_⟩
  · refine Comparison.existsUnique_selects
      (fun condition => selects condition.1 condition.2 row) horder ?_
    rw [hmissing, Bool.eq_iff_iff, Literal.equalsOnly_null, Option.isNone_iff_eq_none, hnone]
  · rw [horder, horder, horder, hle]
  · rw [horder, horder, horder, hge]
  · rw [horder, horder, horder, hne]
  · intro hsel hcellnull
    obtain rfl : cell = .null := Option.some.inj (hcell.symm.trans hcellnull)
    rw [horder, hnone.2 rfl] at hsel
    cases hsel
  · rw [hmissing, hmissing, Condition.accepts_notEqual_null]
  · intro comparison hcomparison
    rw [hmissing, Condition.accepts_order_null hcomparison]

/-- Numbers are compared by value and other texts by their characters: with
`9.5`, of the texts `10`, `abc` and `9.50` only the last one is equal. -/
theorem comparisons_part_rows_mixed :
    let insertion (cell : Cell) : Event MemoryStore :=
      .ask (.execute (.insert ⟨"t", ["x"], [cell]⟩))
    let row (cell : Cell) : Row := Row.ofPairs [("x", cell)]
    let cells : List Cell := [.text "10", .text "abc", .null, .text "9.50"]
    let db := (Event.runAll (.ask (.createTable "t" ["x"]) :: cells.map insertion) (.empty {})).2
    db.tables["t"]? = some ⟨"t", ["x"], cells.map row⟩ ∧
      IsWord "9.5".toList ∧ isNullWord "9.5".toList = false ∧ isNullWord "Null".toList = true ∧
      (∀ cell ∈ cells, ∃! condition : Comparison × String,
        condition ∈ [(.less, "9.5"), (.equal, "9.5"), (.greater, "9.5"), (.equal, "Null")] ∧
          Condition.selects (Condition.written "x" condition.1 condition.2) (row cell) = true) ∧
      Select.run ⟨[], "t", some "x = 9.5"⟩ db.tables = .ok (["x"], [row (.text "9.50")]) := by
  intro insertion row cells db
  have hreachable : db.Reachable := (Reachable.empty _).runAll _
  have htable : db.tables["t"]? = some ⟨"t", ["x"], cells.map row⟩ := rfl
  have hword : IsWord "9.5".toList := by decide
  have hbare : isNullWord "9.5".toList = false := by decide
  have hnull : isNullWord "Null".toList = true := by decide
  obtain ⟨hrun, hparts⟩ := comparisons_part_rows hreachable htable (List.mem_singleton.mpr rfl)
    hword hbare hnull
  refine ⟨htable, hword, hbare, hnull, fun cell hcell => ?_, ?_⟩
  · exact (hparts (row cell) (List.mem_map_of_mem hcell)).1
  · have hequal := hrun .equal "9.5" (.head _)
    have hrows : (cells.map row).filter (Condition.selects (Condition.written "x" .equal "9.5")) =
        [row (.text "9.50")] := by decide +kernel
    exact hequal.trans (congrArg (fun rows => Except.ok (["x"], rows)) hrows)

end Database

end ShardStore

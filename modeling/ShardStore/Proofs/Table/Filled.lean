import Mathlib.Data.List.Forall2
import ShardStore.Proofs.Table.Faults
/-!
# Tables — rows that are filled up

A row of a table is made of given cells, and of null where no cell is given
(`Row.Fills`): the cells of a document's row, of which those in other columns
are dropped, or the values of an insertion, each in its own column. Either
way there is one such row. So a document is loaded in one way or refused for
one fault, and a table that came about in any way (`Table.Built`) is loaded
from its own document as it is.
-/

namespace ShardStore

open Text

/-! ## Rows of given cells -/

namespace Row

/-- A row that holds precisely `columns`: the cell that is given for a column,
and null where none is. -/
structure Fills (columns : List String) (given : String → Cell → Prop) (row : Row) : Prop where
  holds : ∀ c, c ∈ row ↔ c ∈ columns
  cells : ∀ c ∈ columns, ∀ cell, given c cell → row[c]? = some cell
  nulls : ∀ c ∈ columns, (∀ cell, ¬ given c cell) → row[c]? = some .null

variable {columns : List String} {given : String → Cell → Prop} {row source : Row}

/-- There is no second such row. -/
theorem Fills.unique {other : Row} (h : Fills columns given row)
    (hother : Fills columns given other) : row = other := by
  refine Std.ExtTreeMap.ext_getElem? fun c => ?_
  by_cases hc : c ∈ columns
  · by_cases hgiven : ∃ cell, given c cell
    · obtain ⟨cell, hcell⟩ := hgiven
      rw [h.cells c hc cell hcell, hother.cells c hc cell hcell]
    · have hnone := not_exists.1 hgiven
      rw [h.nulls c hc hnone, hother.nulls c hc hnone]
  · rw [Std.ExtTreeMap.getElem?_eq_none fun hmem => hc ((h.holds c).1 hmem),
      Std.ExtTreeMap.getElem?_eq_none fun hmem => hc ((hother.holds c).1 hmem)]

/-- The row has the cells of `source` on precisely `columns`, filled up. -/
def FillsFrom (columns : List String) (source row : Row) : Prop :=
  Fills columns (fun c cell => source[c]? = some cell) row

/-- **A row is filled up by its projection**, which drops the other cells. -/
theorem fillsFrom_iff : FillsFrom columns source row ↔ row = source.project columns := by
  have hproject : FillsFrom columns source (source.project columns) := by
    refine ⟨fun c => mem_project, fun c hc cell hcell => ?_, fun c hc hnone => ?_⟩
    · rw [getElem?_project, if_pos hc, Std.ExtTreeMap.getD_eq_getD_getElem?, hcell,
        Option.getD_some]
    · have hmissing : source[c]? = none := Option.eq_none_iff_forall_ne_some.2 hnone
      rw [getElem?_project, if_pos hc, Std.ExtTreeMap.getD_eq_getD_getElem?, hmissing,
        Option.getD_none]
  constructor
  · exact fun h => h.unique hproject
  · rintro rfl
    exact hproject

theorem forall₂_fillsFrom_iff {sources rows : List Row} :
    List.Forall₂ (FillsFrom columns) sources rows ↔ rows = sources.map (·.project columns) := by
  have hproject : FillsFrom columns = fun source row => source.project columns = row := by
    funext source row
    exact propext (fillsFrom_iff.trans eq_comm)
  rw [hproject, ← List.forall₂_map_left_iff (R := Eq), List.forall₂_eq_eq_eq, eq_comm]

/-- The row of pairs without a repeated column has precisely these cells. -/
theorem getElem?_ofPairs_eq_some_iff {pairs : List (String × Cell)}
    (h : (pairs.map Prod.fst).Nodup) {c : String} {cell : Cell} :
    (ofPairs pairs)[c]? = some cell ↔ (c, cell) ∈ pairs := by
  rw [getElem?_ofPairs h]
  constructor
  · intro hlookup
    obtain ⟨before, after, rfl, -⟩ := List.lookup_eq_some_iff.1 hlookup
    simp
  · exact lookup_eq_some_of_mem h

/-- So does the row that is filled up from such pairs, in any order. -/
theorem fills_pairs_iff {pairs : List (String × Cell)} (h : (pairs.map Prod.fst).Nodup) :
    Fills columns (fun c cell => (c, cell) ∈ pairs) row ↔
      row = (ofPairs pairs).project columns := by
  rw [← fillsFrom_iff]
  simp only [FillsFrom, getElem?_ofPairs_eq_some_iff h]

end Row

namespace Table

variable {table : Table} {name : String} {columns : List String} {values : List Cell}

/-! ## Rows of values -/

/-- Values that a table takes for some of its columns: as many as columns,
which are distinct and declared. -/
structure Takes (table : Table) (columns : List String) (values : List Cell) : Prop where
  count : columns.length = values.length
  distinct : columns.Nodup
  declared : ∀ c ∈ columns, c ∈ table.columns

/-- **The row that is built has each value in its own column** and null in
the other declared ones. -/
theorem buildRow_eq_ok_iff_fills {row : Row} : table.buildRow columns values = .ok row ↔
    table.Takes columns values ∧
      row.Fills table.columns fun c cell => (c, cell) ∈ columns.zip values := by
  rw [buildRow_eq_ok_iff]
  constructor
  · rintro ⟨⟨hcount, hdistinct, hdeclared⟩, hrow⟩
    have hkeys : ((columns.zip values).map Prod.fst).Nodup := by
      rwa [List.map_fst_zip (Nat.le_of_eq hcount)]
    exact ⟨⟨hcount, hdistinct, hdeclared⟩, (Row.fills_pairs_iff hkeys).2 hrow⟩
  · rintro ⟨htakes, hfills⟩
    have hkeys : ((columns.zip values).map Prod.fst).Nodup := by
      rw [List.map_fst_zip (Nat.le_of_eq htakes.count)]
      exact htakes.distinct
    exact ⟨⟨htakes.count, htakes.distinct, htakes.declared⟩, (Row.fills_pairs_iff hkeys).1 hfills⟩

/-! ## Tables of documents -/

/-- A name and columns that a table can have. -/
structure Admissible (name : String) (columns : List String) : Prop where
  name : isIdentifier name = true
  identifiers : ∀ c ∈ columns, isIdentifier c = true
  distinct : columns.Nodup

theorem not_admissible_iff : ¬ Admissible name columns ↔ isIdentifier name = false ∨
    (∃ c ∈ columns, isIdentifier c = false) ∨ ¬ columns.Nodup := by
  constructor
  · intro hbad
    by_cases hname : isIdentifier name = true
    · by_cases hcolumns : ∀ c ∈ columns, isIdentifier c = true
      · exact .inr (.inr fun hdistinct => hbad ⟨hname, hcolumns, hdistinct⟩)
      · exact .inr (.inl (by simpa using hcolumns))
    · exact .inl (by simpa using hname)
  · rintro (hname | ⟨c, hc, hbad⟩ | hrepeated) hok
    · simp [hok.name] at hname
    · simp [hok.identifiers c hc] at hbad
    · exact hrepeated hok.distinct

/-- A table is refused for its name or its columns. -/
theorem exists_schemaFault_iff : (∃ e, SchemaFault name columns e) ↔
    ¬ Admissible name columns := by
  simp only [← create_eq_error_iff]
  constructor
  · rintro ⟨e, he⟩ hok
    have hcreated := create_eq_ok_iff.2 ⟨⟨hok.name, hok.identifiers, hok.distinct⟩, rfl⟩
    cases he.symm.trans hcreated
  · intro hbad
    cases hcreated : create name columns with
    | ok table =>
      obtain ⟨⟨hname, hcolumns, hdistinct⟩, -⟩ := create_eq_ok_iff.1 hcreated
      exact absurd ⟨hname, hcolumns, hdistinct⟩ hbad
    | error e => exact ⟨e, rfl⟩

/-- The rows of a table that is loaded are those of the document, filled up. -/
theorem ofDocument_eq_ok_iff_fillsFrom {document : Document} :
    ofDocument name document = .ok table ↔
      Admissible name document.columns ∧ table.name = name ∧ table.columns = document.columns ∧
        List.Forall₂ (Row.FillsFrom document.columns) document.rows table.rows := by
  rw [ofDocument_eq_ok_iff, Row.forall₂_fillsFrom_iff]
  obtain ⟨name', columns', rows'⟩ := table
  constructor
  · rintro ⟨⟨hname, hcolumns, hdistinct⟩, heq⟩
    cases heq
    exact ⟨⟨hname, hcolumns, hdistinct⟩, rfl, rfl, rfl⟩
  · rintro ⟨hok, rfl, rfl, rfl⟩
    exact ⟨⟨hok.name, hok.identifiers, hok.distinct⟩, rfl⟩

/-! ## Tables that come about -/

/-- The tables that come about: new ones, those of documents, and each of
them with rows that were built for it. -/
inductive Built : Table → Prop
  | created {name : String} {columns : List String} {table : Table}
      (h : create name columns = .ok table) : Built table
  | loaded {name : String} {document : Document} {table : Table}
      (h : ofDocument name document = .ok table) : Built table
  | extended {table : Table} {columns : List String} {values : List Cell} {row : Row}
      (h : Built table) (hrow : table.buildRow columns values = .ok row) : Built (table.push row)

theorem Built.wellFormed (h : Built table) : table.WellFormed := by
  induction h with
  | created h => exact wellFormed_of_create h
  | loaded h => exact wellFormed_of_ofDocument h
  | extended _ hrow ih => exact ih.push hrow

/-- **A document is loaded normalised, once and without loss.** It is refused
for its name or its columns alone, and for one fault of these; otherwise the
table has that name and these columns, and for each row of the document, in
order, the row that is filled up from it. A table that came about in any way
is loaded from its own document as it is. -/
theorem loads_normalised (name : String) (document : Document) :
    ((∃ e, ofDocument name document = .error e) ↔
      isIdentifier name = false ∨ (∃ c ∈ document.columns, isIdentifier c = false) ∨
        ¬ document.columns.Nodup) ∧
    (∀ e, ofDocument name document = .error e ↔ SchemaFault name document.columns e) ∧
    (∀ table, ofDocument name document = .ok table ↔
      Admissible name document.columns ∧ table.name = name ∧ table.columns = document.columns ∧
        List.Forall₂ (Row.FillsFrom document.columns) document.rows table.rows) ∧
    ∀ table, Built table → ofDocument table.name table.document = .ok table := by
  refine ⟨?_, fun e => ofDocument_eq_error_iff, fun table => ofDocument_eq_ok_iff_fillsFrom,
    fun table h => ofDocument_document h.wellFormed⟩
  simp only [ofDocument_eq_error_iff, exists_schemaFault_iff, not_admissible_iff]

/-- Two legacy rows, one short of a cell and one with a stray cell beside a
null; and columns with several faults each. -/
theorem loads_normalised_legacy_rows :
    let legacy : Document := ⟨["id", "name"], [Row.ofPairs [("id", .text "1")],
      Row.ofPairs [("extra", .text "x"), ("id", .text "2"), ("name", .null)]]⟩
    let table : Table := ⟨"users", ["id", "name"],
      [Row.ofPairs [("name", .null), ("id", .text "1")],
        Row.ofPairs [("name", .null), ("id", .text "2")]]⟩
    ofDocument "users" legacy = .ok table ∧ ofDocument "users" table.document = .ok table ∧
      ofDocument "users" { legacy with columns := ["id", "id", "first name", "last name"] } =
        .error (.badIdentifier "first name") ∧
      ofDocument "users" { legacy with columns := ["id", "age", "name", "age", "id"] } =
        .error (.repeatedColumn "age") := by
  intro legacy table
  have hload : ofDocument "users" legacy = .ok table := rfl
  refine ⟨hload, (loads_normalised "users" legacy).2.2.2 table (.loaded hload), ?_, ?_⟩
  · refine ((loads_normalised "users" _).2.1 _).2 (.column rfl ?_)
    exact ⟨["id", "id"], ["last name"], rfl, by decide, by decide⟩
  · refine ((loads_normalised "users" _).2.1 _).2 (.repeated rfl (by decide) ?_)
    exact ⟨["id", "age", "name"], ["id"], rfl, by decide, by decide⟩

end Table

end ShardStore

import ShardStore.Proofs.Database.History
import ShardStore.Proofs.Database.Selection
import ShardStore.Proofs.Statement.Expressible
/-!
# Databases — what is written as text is read back as text

An insertion and the queries after it, each given as text. The texts are
those of expressible statements, so they are read as these
(`Database.executeText_render`); the row of an insertion has the values given
and null elsewhere (`Insert.holds_row`); and a quoted word in a condition is
equal to the cell of that very text, whether or not it reads as a number or as
null. So the queries find what the insertion wrote.
-/

namespace ShardStore

open Text

/-! ## The row of an insertion, cell by cell -/

/-- The row has the cells `values` in `columns`, one for each in order. -/
def Row.Holds (columns : List String) (values : List Cell) (row : Row) : Prop :=
  List.Forall₂ (fun c cell => row[c]? = some cell) columns values

/-- A row that is cut to these columns holds them still. -/
theorem Row.Holds.project {columns : List String} {values : List Cell} {row : Row}
    (h : row.Holds columns values) : (row.project columns).Holds columns values := by
  obtain ⟨hlength, hcells⟩ := List.forall₂_iff_zip.mp h
  refine List.forall₂_iff_zip.mpr ⟨hlength, fun {c cell} hpair => ?_⟩
  rw [Row.getElem?_project, if_pos (List.of_mem_zip hpair).1,
    Std.ExtTreeMap.getD_eq_getD_getElem?, hcells hpair, Option.getD_some]

namespace Insert

variable (addition : Insert) {columns : List String}

/-- **The row of an insertion holds its values.** -/
theorem holds_row (hdistinct : addition.columns.Nodup)
    (hcounts : addition.columns.length = addition.values.length)
    (hdeclared : ∀ c ∈ addition.columns, c ∈ columns) :
    (addition.row columns).Holds addition.columns addition.values := by
  have hkeys : ((addition.columns.zip addition.values).map Prod.fst).Nodup := by
    rw [List.map_fst_zip (by omega)]
    exact hdistinct
  refine List.forall₂_iff_zip.mpr ⟨hcounts, fun {c cell} hpair => ?_⟩
  rw [row, Row.getElem?_ofColumns, if_pos (hdeclared c (List.of_mem_zip hpair).1),
    Row.lookup_eq_some_of_mem hkeys hpair, Option.getD_some]

/-- It has null in every other column. -/
theorem getElem?_row_of_not_mem {c : String} (hc : c ∈ columns) (hout : c ∉ addition.columns) :
    (addition.row columns)[c]? = some .null := by
  have hnone : (addition.columns.zip addition.values).lookup c = none := by
    rw [List.lookup_eq_none_iff]
    rintro ⟨other, cell⟩ hpair
    rw [bne_iff_ne]
    rintro rfl
    exact hout (List.of_mem_zip hpair).1
  rw [row, Row.getElem?_ofColumns, if_pos hc, hnone, Option.getD_none]

end Insert

/-! ## Queries for what a row holds -/

namespace Select

variable {tables : Tables} {name : String} {table : Table}

/-- A selection of columns without a condition cuts every row to them. -/
theorem run_columns (htable : tables[name]? = some table) (hwf : table.WellFormed)
    {columns : List String} (hne : columns ≠ []) (hdeclared : ∀ c ∈ columns, c ∈ table.columns) :
    run ⟨columns, name, none⟩ tables = .ok (columns, table.rows.map (·.project columns)) := by
  have hrun : run ⟨columns, name, none⟩ tables = _ := run_eq_ok htable hwf hdeclared .absent
  simpa [Table.outputColumns, hne, Row.meets] using hrun

/-- A word that equals one cell alone selects the rows with it. -/
theorem run_equal (htable : tables[name]? = some table) (hwf : table.WellFormed)
    {column word : String} (hcolumn : column ∈ table.columns) (hword : IsWord word.toList)
    {target : Cell} (hequal : (Literal.ofWord word.toList).EqualsOnly target) :
    run ⟨[], name, some (Condition.written column .equal word)⟩ tables =
      .ok (table.columns, table.rows.filter fun row => row[column]? = some target) := by
  have hname := isWord_of_isIdentifier (hwf.columns column hcolumn)
  have hsame : table.rows.filter (Condition.selects (Condition.written column .equal word)) =
      table.rows.filter fun row => row[column]? = some target := by
    refine List.filter_congr fun row hrow => ?_
    obtain ⟨cell, hcell⟩ := hwf.exists_cell hrow hcolumn
    rw [Condition.selects_written hname .equal hword hcell, Bool.eq_iff_iff, hequal column,
      hcell]
    simp
  rw [Condition.run_written htable hwf hcolumn .equal hword, hsame]

/-- A selection with a written condition is expressible, and this is its text. -/
theorem expressible_written {column word : String} (hname : isIdentifier name = true)
    (hcolumn : IsWord column.toList) (comparison : Comparison) (hword : IsWord word.toList) :
    Expressible ⟨[], name, some (Condition.written column comparison word)⟩ := by
  refine ⟨hname, fun c hc => absurd hc List.not_mem_nil, fun text htext => ?_⟩
  obtain rfl := Option.some.inj htext
  refine ⟨fun hempty => ?_, trimmed_eq_self_iff.2 (Condition.trimmed_written hcolumn _ hword)⟩
  have hchars := congrArg String.toList hempty
  simp [Condition.written] at hchars

theorem render_written (name column word : String) :
    render ⟨[], name, some (Condition.written column .equal word)⟩ =
      "SELECT * FROM " ++ name ++ " WHERE " ++ column ++ " = " ++ word := by
  simp [← String.toList_inj, render, Condition.written, Comparison.symbol]

end Select

namespace Database

/-! ## Statements as texts -/

section Texts

variable {σ : Type} [Storage σ] {db : Database σ}

/-- The text of an expressible statement is carried out as the statement. -/
theorem executeText_render {statement : Statement} (h : statement.Expressible) :
    db.executeText statement.render = db.execute statement := by
  rw [executeText, Statement.parse_render h]

/-- The text is that of a query with this answer, and nothing changes. -/
def Answers (db : Database σ) (text : String) (columns : List String) (rows : List Row) : Prop :=
  db.executeText text = (.ok (.selected columns rows), db)

theorem answers_render {query : Select} (hquery : query.Expressible) {columns : List String}
    {rows : List Row} (hrun : query.run db.tables = .ok (columns, rows)) :
    db.Answers query.render columns rows := by
  have hstatement : (Statement.select query).Expressible := hquery
  rw [Answers, ← Statement.render, executeText_render hstatement, execute, hrun]

variable {name : String} {table : Table} {columns : List String}

theorem answers_all (hdb : db.tables.WellFormed) (htable : db.tables[name]? = some table) :
    db.Answers ("SELECT * FROM " ++ name) table.columns table.rows := by
  obtain ⟨rfl, hwf⟩ := hdb name table htable
  have hrun := Select.run_all_columns htable hwf .absent
  have hquery : Select.Expressible ⟨[], table.name, none⟩ :=
    ⟨hwf.name, fun c hc => absurd hc List.not_mem_nil, fun text htext => by cases htext⟩
  have hanswer := answers_render hquery hrun
  simpa [Select.render, Row.meets] using hanswer

theorem answers_columns (hdb : db.tables.WellFormed) (htable : db.tables[name]? = some table)
    (hne : columns ≠ []) (hdeclared : ∀ c ∈ columns, c ∈ table.columns) :
    db.Answers ("SELECT " ++ commaList columns ++ " FROM " ++ name) columns
      (table.rows.map (·.project columns)) := by
  obtain ⟨rfl, hwf⟩ := hdb name table htable
  have hrun := Select.run_columns htable hwf hne hdeclared
  have hquery : Select.Expressible ⟨columns, table.name, none⟩ :=
    ⟨hwf.name, fun c hc => hwf.columns c (hdeclared c hc), fun text htext => by cases htext⟩
  have hanswer := answers_render hquery hrun
  simpa [Select.render, hne] using hanswer

theorem answers_equal (hdb : db.tables.WellFormed) (htable : db.tables[name]? = some table)
    {column word : String} (hcolumn : column ∈ table.columns) (hword : IsWord word.toList)
    {target : Cell} (hequal : (Literal.ofWord word.toList).EqualsOnly target) :
    db.Answers ("SELECT * FROM " ++ name ++ " WHERE " ++ column ++ " = " ++ word) table.columns
      (table.rows.filter fun row => row[column]? = some target) := by
  obtain ⟨rfl, hwf⟩ := hdb name table htable
  have hname := isWord_of_isIdentifier (hwf.columns column hcolumn)
  have hanswer := answers_render (Select.expressible_written hwf.name hname .equal hword)
    (Select.run_equal htable hwf hcolumn hword hequal)
  rw [Select.render_written] at hanswer
  exact hanswer

/-- The last row comes last among those with a cell that it has itself. -/
theorem answers_equal_push {row : Row} (hdb : db.tables.WellFormed)
    (htable : db.tables[name]? = some (table.push row)) {column word : String} {target : Cell}
    (hcolumn : column ∈ table.columns) (hcell : row[column]? = some target)
    (hword : IsWord word.toList) (hequal : (Literal.ofWord word.toList).EqualsOnly target) :
    db.Answers ("SELECT * FROM " ++ name ++ " WHERE " ++ column ++ " = " ++ word) table.columns
      ((table.rows.filter fun row => row[column]? = some target) ++ [row]) := by
  have hanswer := answers_equal hdb htable hcolumn hword hequal
  simpa [hcell] using hanswer

end Texts

/-! ## Reading back -/

variable {db : Database MemoryStore} {name : String} {table : Table} {columns : List String}
  {values : List Cell}

/-- With writes on, an insertion of a row that can be built succeeds, and adds
the row of the insertion. -/
theorem execute_insert (addition : Insert) (hdb : db.tables.WellFormed)
    (hwrites : db.storage.failWrites = false) (htable : db.tables[addition.table]? = some table)
    (hcounts : addition.columns.length = addition.values.length)
    (hdistinct : addition.columns.Nodup) (hdeclared : ∀ c ∈ addition.columns, c ∈ table.columns) :
    ∃ later, db.execute (.insert addition) = (.ok (.inserted addition.table), later) ∧
      later.tables.WellFormed ∧
      later.tables[addition.table]? = some (table.push (addition.row table.columns)) := by
  have hbuild := Table.buildRow_eq_ok_iff.2 ⟨⟨hcounts, hdistinct, hdeclared⟩, rfl⟩
  have hrow := hbuild.trans (congrArg Except.ok (Table.row_of_buildRow hbuild))
  obtain ⟨hname, hwf⟩ := hdb.push htable hrow
  have hlater : (db.execute (.insert addition)).2.tables =
      db.tables.insert addition.table (table.push (addition.row table.columns)) := by
    simp only [execute, insert, htable, hrow, Storage.store, MemoryStore.store_of_writes hwrites]
  refine ⟨(db.execute (.insert addition)).2, Prod.ext ?_ rfl, ?_, ?_⟩
  · simp only [execute, insert, htable, hrow, Storage.store, MemoryStore.store_of_writes hwrites]
  · rw [hlater]
    exact hdb.insert hname hwf
  · rw [hlater]
    exact Std.ExtTreeMap.getElem?_insert_self

/-- **What is written as text is read back as text.** An insertion of
expressible values into distinct declared columns succeeds. Its row holds the
values and null elsewhere, and comes after all others: in a selection of
the columns as in one of the whole table, and among the rows with a text that
it has in a column, or with null. The text is compared byte for byte. -/
theorem written_text_reads_back (h : db.Reachable) (hwrites : db.storage.failWrites = false)
    (htable : db.tables[name]? = some table) (hne : columns ≠ []) (hdistinct : columns.Nodup)
    (hdeclared : ∀ c ∈ columns, c ∈ table.columns) (hcounts : columns.length = values.length)
    (hvalues : ∀ cell ∈ values, cell.Expressible) :
    ∃ (later : Database MemoryStore) (row last : Row) (previous : List Row),
      db.executeText (Insert.render ⟨name, columns, values⟩) = (.ok (.inserted name), later) ∧
      later.Answers ("SELECT * FROM " ++ name) table.columns (table.rows ++ [row]) ∧
      row.Holds columns values ∧
      (∀ c ∈ table.columns, c ∉ columns → row[c]? = some .null) ∧
      db.Answers ("SELECT " ++ commaList columns ++ " FROM " ++ name) columns previous ∧
      later.Answers ("SELECT " ++ commaList columns ++ " FROM " ++ name) columns
        (previous ++ [last]) ∧
      last.Holds columns values ∧ (∀ c, c ∈ last ↔ c ∈ columns) ∧
      (∀ (column content : String), (column, .text content) ∈ columns.zip values →
        (∀ c ∈ content.toList, isBlank c = false) →
          later.Answers ("SELECT * FROM " ++ name ++ " WHERE " ++ column ++ " = " ++
            ("'" ++ content ++ "'")) table.columns
              ((table.rows.filter fun row => row[column]? = some (.text content)) ++ [row])) ∧
      (∀ column : String, (column, .null) ∈ columns.zip values →
        later.Answers ("SELECT * FROM " ++ name ++ " WHERE " ++ column ++ " = " ++ "NULL")
          table.columns ((table.rows.filter fun row => row[column]? = some .null) ++ [row])) := by
  have hdb := h.wellFormed
  -- The name of the table is an identifier because a table of that name is loaded.
  obtain ⟨rfl, hwf⟩ := hdb name table htable
  have hinsertion : Statement.Expressible (.insert ⟨table.name, columns, values⟩) :=
    ⟨hwf.name, fun c hc => hwf.columns c (hdeclared c hc), hne, hcounts, hvalues⟩
  obtain ⟨later, hexecute, hlater, hpushed⟩ := execute_insert ⟨table.name, columns, values⟩ hdb
    hwrites htable hcounts hdistinct hdeclared
  have hholds := Insert.holds_row ⟨table.name, columns, values⟩ hdistinct hcounts hdeclared
  have hnulls : ∀ c ∈ table.columns, c ∉ columns → _ := fun _ hc hout =>
    Insert.getElem?_row_of_not_mem ⟨table.name, columns, values⟩ hc hout
  -- What follows rests on the cells of the row alone.
  generalize Insert.row ⟨table.name, columns, values⟩ table.columns = row at hpushed hholds hnulls
  have hcell : ∀ {column : String} {cell : Cell}, (column, cell) ∈ columns.zip values →
      column ∈ table.columns ∧ row[column]? = some cell := fun hpair =>
    ⟨hdeclared _ (List.of_mem_zip hpair).1, (List.forall₂_iff_zip.mp hholds).2 hpair⟩
  have hcolumns := answers_columns hlater hpushed hne hdeclared
  rw [Table.rows_push, List.map_append] at hcolumns
  refine ⟨later, row, row.project columns, table.rows.map (·.project columns), ?_,
    answers_all hlater hpushed, hholds, hnulls, answers_columns hdb htable hne hdeclared, hcolumns,
    hholds.project, fun c => Row.mem_project, ?_, ?_⟩
  · exact (executeText_render hinsertion).trans hexecute
  · intro column content hpair hsolid
    obtain ⟨hcolumn, hcell⟩ := hcell hpair
    refine answers_equal_push hlater hpushed hcolumn hcell (Literal.isWord_quoted hsolid) ?_
    rw [Literal.ofWord_quoted]
    exact Literal.equalsOnly_quoted content
  · intro column hpair
    have hnull : isNullWord "NULL".toList = true := by decide
    obtain ⟨hcolumn, hcell⟩ := hcell hpair
    refine answers_equal_push hlater hpushed hcolumn hcell (isWord_of_isNullWord hnull) ?_
    rw [Literal.ofWord_eq_null_iff.2 hnull]
    exact Literal.equalsOnly_null

/-- The first row has the number `1` and the second one is written with `1.0`,
which is found alone; and the text of the null word is not found as null. -/
theorem written_text_reads_back_as_text :
    let columns := ["c", "a", "b"]
    let values : List Cell := [.null, .text "1.0", .text "NULL"]
    let first : Row := Row.ofPairs [("a", .text "1"), ("b", .null), ("c", .null)]
    let db := (Event.runAll [.ask (.createTable "t" ["a", "b", "c"]),
      .ask (.execute (.insert ⟨"t", ["a"], [.text "1"]⟩))] (.empty ({} : MemoryStore))).2
    ∃ later row, db.executeText "INSERT INTO t (c, a, b) VALUES (NULL, '1.0', 'NULL')" =
        (.ok (.inserted "t"), later) ∧
      row.Holds columns values ∧
      later.Answers "SELECT * FROM t WHERE a = '1.0'" ["a", "b", "c"] [row] ∧
      later.Answers "SELECT * FROM t WHERE b = 'NULL'" ["a", "b", "c"] [row] ∧
      later.Answers "SELECT * FROM t WHERE c = NULL" ["a", "b", "c"] [first, row] := by
  intro columns values first db
  have hreachable : db.Reachable := (Reachable.empty _).runAll _
  obtain ⟨rows, htable, rfl⟩ : ∃ rows,
      db.tables["t"]? = some ⟨"t", ["a", "b", "c"], rows⟩ ∧ rows = [first] :=
    ⟨_, rfl, rfl⟩
  have hne : columns ≠ [] := List.cons_ne_nil _ _
  have hdistinct : columns.Nodup := by decide
  have hvalues : ∀ cell ∈ values, cell.Expressible := by
    simp only [values, List.forall_mem_cons]
    exact ⟨trivial, .inl (by decide), .inl (by decide), fun cell hcell => by cases hcell⟩
  obtain ⟨later, row, -, -, hinsert, -, hholds, -, -, -, -, -, htexts, hnulls⟩ :=
    written_text_reads_back hreachable rfl htable hne hdistinct (by decide) rfl hvalues
  refine ⟨later, row, hinsert, hholds, ?_, ?_, ?_⟩
  · have hword : IsWord "1.0".toList := by decide
    exact htexts "a" "1.0" (by decide) hword.solid
  · have hword : IsWord "NULL".toList := by decide
    exact htexts "b" "NULL" (by decide) hword.solid
  · exact hnulls "c" (by decide)

end Database

end ShardStore

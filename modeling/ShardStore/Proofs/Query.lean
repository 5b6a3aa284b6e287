import Mathlib.Data.List.Forall2
import ShardStore.Query
import ShardStore.Proofs.Condition
import ShardStore.Proofs.Table
/-!
# Queries — what a selection means

What a selection yields over given tables, said without running it
(`Select.Means`): one of four failures, each only where none of those before
it holds, or the rows that meet the condition, each cut to the columns. Over
well-formed tables a selection runs to what it means and to nothing else
(`Select.run_eq_iff_means`): every row has the column of a compiled condition,
so no row is refused on the way (`keepRows_eq_ok`), and only the declared
columns decide whether the selection fails (`Select.Means.congr`).
-/

namespace ShardStore

/-! ## The rows of an answer -/

namespace Row

/-- A row holds precisely `columns`, each with the cell that `source` has
there. -/
structure IsCut (columns : List String) (source row : Row) : Prop where
  holds : ∀ c, c ∈ row ↔ c ∈ columns
  cells : ∀ c ∈ columns, row[c]? = source[c]?

/-- Over a row with these columns that is its projection, in which nothing is
filled up with null. -/
theorem isCut_iff {columns : List String} {source row : Row} (h : ∀ c ∈ columns, c ∈ source) :
    IsCut columns source row ↔ row = source.project columns := by
  constructor
  · intro hcut
    refine Std.ExtTreeMap.ext_getElem? fun c => ?_
    rw [getElem?_project]
    by_cases hc : c ∈ columns
    · rw [if_pos hc, hcut.cells c hc, Std.ExtTreeMap.getElem?_eq_some_getD (h c hc)]
    · rw [if_neg hc, Std.ExtTreeMap.getElem?_eq_none fun hmem => hc ((hcut.holds c).1 hmem)]
  · rintro rfl
    refine ⟨fun c => mem_project, fun c hc => ?_⟩
    rw [getElem?_project, if_pos hc, Std.ExtTreeMap.getElem?_eq_some_getD (h c hc)]

theorem forall₂_isCut_iff {columns : List String} {sources rows : List Row}
    (h : ∀ source ∈ sources, ∀ c ∈ columns, c ∈ source) :
    List.Forall₂ (IsCut columns) sources rows ↔ rows = sources.map (·.project columns) := by
  induction sources generalizing rows with
  | nil => simp
  | cons source sources ih =>
    obtain ⟨hfirst, hrest⟩ := List.forall_mem_cons.mp h
    cases rows with
    | nil => simp
    | cons row rows =>
      rw [List.forall₂_cons, isCut_iff hfirst, ih hrest, List.map_cons, List.cons.injEq]

/-- Rows that are cut hold precisely the columns they are cut to. -/
theorem mem_of_forall₂_isCut {columns : List String} {sources rows : List Row}
    (h : List.Forall₂ (IsCut columns) sources rows) :
    ∀ row ∈ rows, ∀ c, c ∈ row ↔ c ∈ columns := by
  induction h with
  | nil => exact fun row hrow => absurd hrow List.not_mem_nil
  | cons hcut _ ih => exact List.forall_mem_cons.mpr ⟨hcut.holds, ih⟩

/-- Whether a row has the column of a condition, if there is one, and a cell
there that meets it. -/
def meets (row : Row) (condition : Option Condition) : Bool :=
  condition.all fun condition => row[condition.column]?.any condition.accepts

end Row

theorem Condition.evaluate_eq_ok {condition : Condition} {row : Row}
    (h : condition.column ∈ row) : condition.evaluate row = .ok (row.meets (some condition)) := by
  have hcell := Std.ExtTreeMap.getElem?_eq_some_getElem h
  simp [evaluate, Row.meets, hcell]

/-- **No row is refused** that has the column of the condition. -/
theorem keepRows_eq_ok {condition : Option Condition} {rows : List Row}
    (h : ∀ row ∈ rows, ∀ c ∈ condition, c.column ∈ row) :
    keepRows condition rows = .ok (rows.filter (·.meets condition)) := by
  induction rows with
  | nil => rfl
  | cons row rows ih =>
    obtain ⟨hfirst, hrest⟩ := List.forall_mem_cons.mp h
    unfold keepRows
    rw [ih hrest, List.filter_cons]
    cases condition with
    | none => rfl
    | some condition => simp only [Condition.evaluate_eq_ok (hfirst condition rfl)]

/-! ## The checks of a selection -/

namespace Table

variable {table : Table} {requested columns : List String}

/-- The columns of an answer: the requested ones, or all declared ones where
none is requested. -/
def outputColumns (table : Table) (requested : List String) : List String :=
  if requested = [] then table.columns else requested

theorem selectedColumns_eq (requested : List String) : table.selectedColumns requested =
    (table.checkDeclared requested).map fun _ => table.outputColumns requested := by
  cases requested with
  | nil => rfl
  | cons c cs =>
    unfold selectedColumns outputColumns
    simp only [List.isEmpty_cons, Bool.false_eq_true, if_false, reduceCtorEq]
    cases table.checkDeclared (c :: cs) <;> rfl

/-- The condition on a declared column that the text of a condition is
compiled to, or none if there is none. -/
inductive Compiles (table : Table) : Option String → Option Condition → Prop
  | absent : Compiles table none none
  | compiled {text : String} {condition : Condition} (hparse : Condition.parse text = .ok condition)
      (hcolumn : condition.column ∈ table.columns) : Compiles table (some text) (some condition)

theorem compileCondition_eq_ok_iff {text : Option String} {condition : Option Condition} :
    table.compileCondition text = .ok condition ↔ table.Compiles text condition := by
  constructor
  · intro h
    cases text with
    | none =>
      cases h
      exact .absent
    | some text =>
      simp only [compileCondition] at h
      split at h
      · cases h
      · next compiled hparse =>
        split at h
        · next hcolumn =>
          cases h
          exact .compiled hparse (hasColumn_iff.1 hcolumn)
        · cases h
  · rintro (_ | ⟨hparse, hcolumn⟩)
    · rfl
    · simp [compileCondition, hparse, hcolumn]

/-- The text is refused where it is no condition, and else for its column. -/
theorem compileCondition_eq_error_iff {text : Option String} {e : ConditionError} :
    table.compileCondition text = .error e ↔ ∃ s, text = some s ∧
      (((∀ condition, Condition.parse s ≠ .ok condition) ∧ e = .malformed s) ∨
        ∃ condition, Condition.parse s = .ok condition ∧ condition.column ∉ table.columns ∧
          e = .unknownColumn condition.column) := by
  constructor
  · intro h
    cases text with
    | none => cases h
    | some s =>
      refine ⟨s, rfl, ?_⟩
      simp only [compileCondition] at h
      split at h
      · next cause hparse =>
        cases h
        refine .inl ⟨fun condition hok => ?_, Condition.parse_eq_error hparse⟩
        rw [hok] at hparse
        cases hparse
      · next condition hparse =>
        split at h
        · cases h
        · next hcolumn =>
          cases h
          exact .inr ⟨condition, hparse, by simpa [hasColumn] using hcolumn, rfl⟩
  · rintro ⟨s, rfl, ⟨hparse, rfl⟩ | ⟨condition, hparse, hcolumn, rfl⟩⟩
    · cases hout : Condition.parse s with
      | ok condition => exact absurd hout (hparse condition)
      | error cause => simp [compileCondition, hout, Condition.parse_eq_error hout]
    · simp [compileCondition, hparse, hcolumn]

/-- The column of a compiled condition is declared. -/
theorem Compiles.declared {text : Option String} {condition : Option Condition}
    (h : table.Compiles text condition) : ∀ c ∈ condition, c.column ∈ table.columns := by
  intro c hc
  cases h with
  | absent => cases hc
  | compiled _ hcolumn =>
    cases hc
    exact hcolumn

theorem Compiles.congr {other : Table} {text : Option String} {condition : Option Condition}
    (h : table.Compiles text condition) (hcolumns : other.columns = table.columns) :
    other.Compiles text condition := by
  cases h with
  | absent => exact .absent
  | compiled hparse hcolumn => exact .compiled hparse (hcolumns ▸ hcolumn)

theorem mem_outputColumns (h : ∀ c ∈ requested, c ∈ table.columns) :
    ∀ c ∈ table.outputColumns requested, c ∈ table.columns := by
  unfold outputColumns
  split
  · exact fun c hc => hc
  · exact h

/-- The rows of a well-formed table hold the columns of every answer. -/
theorem WellFormed.mem_of_mem_outputColumns (h : table.WellFormed)
    (hrequested : ∀ c ∈ requested, c ∈ table.columns) (p : Row → Bool) :
    ∀ source ∈ table.rows.filter p, ∀ c ∈ table.outputColumns requested, c ∈ source := by
  intro source hsource c hc
  exact (h.rows source (List.mem_of_mem_filter hsource) c).2 (mem_outputColumns hrequested c hc)

/-- And no row of it is refused. -/
theorem WellFormed.keepRows_eq_ok (h : table.WellFormed) {text : Option String}
    {condition : Option Condition} (hcondition : table.Compiles text condition) :
    keepRows condition table.rows = .ok (table.rows.filter (·.meets condition)) :=
  ShardStore.keepRows_eq_ok fun row hrow c hc => (h.rows row hrow _).2 (hcondition.declared c hc)

end Table

/-! ## What a selection means -/

namespace Select

variable {query : Select} {tables others : Tables}

/-- **What a selection yields over given tables.** It fails for the table, for
the first requested column that is not declared, for the text of its
condition or for the column of that, in this order; otherwise it yields the
rows that meet the condition, in table order, each cut to the columns. -/
inductive Means (query : Select) (tables : Tables) :
    Except ExecutionError (List String × List Row) → Prop
  | unknownTable (h : query.table ∉ tables) :
      Means query tables (.error (.unknownTable query.table))
  | unknownColumn {table : Table} {before after : List String} {column : String}
      (htable : tables[query.table]? = some table)
      (hrequested : query.columns = before ++ column :: after)
      (hbefore : ∀ c ∈ before, c ∈ table.columns) (hcolumn : column ∉ table.columns) :
      Means query tables (.error (.unknownColumn query.table column))
  | malformed {table : Table} {text : String} (htable : tables[query.table]? = some table)
      (hrequested : ∀ c ∈ query.columns, c ∈ table.columns) (htext : query.condition = some text)
      (hparse : ∀ condition, Condition.parse text ≠ .ok condition) :
      Means query tables (.error (.condition (.malformed text)))
  | unknownConditionColumn {table : Table} {text : String} {condition : Condition}
      (htable : tables[query.table]? = some table)
      (hrequested : ∀ c ∈ query.columns, c ∈ table.columns) (htext : query.condition = some text)
      (hparse : Condition.parse text = .ok condition) (hcolumn : condition.column ∉ table.columns) :
      Means query tables (.error (.condition (.unknownColumn condition.column)))
  | rows {table : Table} {condition : Option Condition} {rows : List Row}
      (htable : tables[query.table]? = some table)
      (hrequested : ∀ c ∈ query.columns, c ∈ table.columns)
      (hcondition : table.Compiles query.condition condition)
      (hrows : List.Forall₂ (Row.IsCut (table.outputColumns query.columns))
        (table.rows.filter (·.meets condition)) rows) :
      Means query tables (.ok (table.outputColumns query.columns, rows))

variable {outcome : Except ExecutionError (List String × List Row)}

/-- Every selection runs to what it means. -/
theorem means_run
    (h : ∀ table, tables[query.table]? = some table → table.name = query.table ∧ table.WellFormed) :
    query.Means tables (query.run tables) := by
  unfold run
  split
  · next hnone =>
    refine .unknownTable fun hmem => ?_
    rw [Std.ExtTreeMap.mem_iff_isSome_getElem?, hnone] at hmem
    cases hmem
  · next table htable =>
    obtain ⟨hname, hwf⟩ := h table htable
    rw [Table.selectedColumns_eq]
    cases hdeclared : table.checkDeclared query.columns with
    | error e =>
      obtain ⟨before, c, after, hsplit, hbefore, hc, rfl⟩ :=
        Table.checkDeclared_eq_error_iff.1 hdeclared
      rw [hname]
      exact .unknownColumn htable hsplit hbefore hc
    | ok _ =>
      have hrequested := Table.checkDeclared_eq_ok_iff.1 hdeclared
      simp only [Except.map]
      cases hcompile : table.compileCondition query.condition with
      | error e =>
        obtain ⟨text, htext, ⟨hparse, rfl⟩ | ⟨condition, hparse, hcolumn, rfl⟩⟩ :=
          Table.compileCondition_eq_error_iff.1 hcompile
        · exact .malformed htable hrequested htext hparse
        · exact .unknownConditionColumn htable hrequested htext hparse hcolumn
      | ok condition =>
        have hcondition := Table.compileCondition_eq_ok_iff.1 hcompile
        simp only [hwf.keepRows_eq_ok hcondition]
        refine .rows htable hrequested hcondition ?_
        exact (Row.forall₂_isCut_iff (hwf.mem_of_mem_outputColumns hrequested _)).2 rfl

/-- **A selection of a compiled condition runs to the rows that meet it**, on
the columns of the answer. -/
theorem run_eq_ok {table : Table} {condition : Option Condition}
    (htable : tables[query.table]? = some table) (hwf : table.WellFormed)
    (hrequested : ∀ c ∈ query.columns, c ∈ table.columns)
    (hcondition : table.Compiles query.condition condition) :
    query.run tables = .ok (table.outputColumns query.columns,
      (table.rows.filter (·.meets condition)).map
        (·.project (table.outputColumns query.columns))) := by
  simp only [run, htable, Table.selectedColumns_eq, Table.checkDeclared_eq_ok_iff.2 hrequested,
    Except.map, Table.compileCondition_eq_ok_iff.2 hcondition, hwf.keepRows_eq_ok hcondition]

/-- A selection of all columns yields rows of the table as they are. -/
theorem run_all_columns {name : String} {text : Option String} {table : Table}
    {condition : Option Condition} (htable : tables[name]? = some table) (hwf : table.WellFormed)
    (hcondition : table.Compiles text condition) :
    run ⟨[], name, text⟩ tables =
      .ok (table.columns, table.rows.filter (·.meets condition)) := by
  have hrows : (table.rows.filter (·.meets condition)).map (·.project table.columns) =
      table.rows.filter (·.meets condition) := by
    refine (List.map_congr_left fun row hrow => ?_).trans (List.map_id _)
    exact Row.project_eq_self (hwf.rows row (List.mem_of_mem_filter hrow))
  have hrun : run ⟨[], name, text⟩ tables = _ :=
    run_eq_ok htable hwf (fun c hc => absurd hc List.not_mem_nil) hcondition
  rw [hrun]
  exact congrArg (fun rows => Except.ok (table.columns, rows)) hrows

/-- A selection means nothing but what it runs to. -/
theorem Means.run_eq (hmeans : query.Means tables outcome)
    (h : ∀ table, tables[query.table]? = some table → table.name = query.table ∧ table.WellFormed) :
    query.run tables = outcome := by
  cases hmeans with
  | unknownTable hout => simp [run, Std.ExtTreeMap.getElem?_eq_none hout]
  | @unknownColumn table before after column htable hrequested hbefore hcolumn =>
    have hfirst := Table.checkDeclared_eq_error_iff.2
      ⟨before, column, after, hrequested, hbefore, hcolumn, rfl⟩
    simp only [run, htable, Table.selectedColumns_eq, hfirst, Except.map, (h table htable).1]
  | @malformed table text htable hrequested htext hparse =>
    have hrefused : table.compileCondition query.condition = .error (.malformed text) :=
      Table.compileCondition_eq_error_iff.2 ⟨text, htext, .inl ⟨hparse, rfl⟩⟩
    simp only [run, htable, Table.selectedColumns_eq, Table.checkDeclared_eq_ok_iff.2 hrequested,
      Except.map, hrefused]
  | @unknownConditionColumn table text condition htable hrequested htext hparse hcolumn =>
    have hrefused := Table.compileCondition_eq_error_iff.2
      ⟨text, htext, .inr ⟨condition, hparse, hcolumn, rfl⟩⟩
    simp only [run, htable, Table.selectedColumns_eq, Table.checkDeclared_eq_ok_iff.2 hrequested,
      Except.map, hrefused]
  | @rows table condition rows htable hrequested hcondition hrows =>
    obtain ⟨-, hwf⟩ := h table htable
    rw [Row.forall₂_isCut_iff (hwf.mem_of_mem_outputColumns hrequested _)] at hrows
    rw [run_eq_ok htable hwf hrequested hcondition, hrows]

theorem run_eq_iff_means
    (h : ∀ table, tables[query.table]? = some table → table.name = query.table ∧ table.WellFormed) :
    query.run tables = outcome ↔ query.Means tables outcome := by
  refine ⟨?_, fun hmeans => hmeans.run_eq h⟩
  rintro rfl
  exact means_run h

/-- The rows of an answer hold precisely its columns. -/
theorem Means.mem_row {columns : List String} {rows : List Row}
    (h : query.Means tables (.ok (columns, rows))) :
    ∀ row ∈ rows, ∀ c, c ∈ row ↔ c ∈ columns := by
  cases h with
  | rows _ _ _ hrows => exact Row.mem_of_forall₂_isCut hrows

/-- **Only the declared columns decide whether a selection fails**, how, and
which columns it yields. -/
theorem Means.congr (hmeans : query.Means tables outcome)
    (h : ∀ table, others[query.table]? = some table → table.WellFormed)
    (hcolumns : others[query.table]?.map Table.columns = tables[query.table]?.map Table.columns) :
    ∃ other, query.Means others other ∧ other.map Prod.fst = outcome.map Prod.fst := by
  -- The table of that name, with the columns it has in the tables given.
  have hother : ∀ table, tables[query.table]? = some table →
      ∃ other, others[query.table]? = some other ∧ other.columns = table.columns := by
    intro table htable
    rw [htable, Option.map_some, Option.map_eq_some_iff] at hcolumns
    exact hcolumns
  cases hmeans with
  | unknownTable hout =>
    refine ⟨_, .unknownTable fun hmem => hout ?_, rfl⟩
    rw [Std.ExtTreeMap.mem_iff_isSome_getElem?] at hmem ⊢
    rw [← Option.isSome_map (f := Table.columns), ← hcolumns, Option.isSome_map, hmem]
  | unknownColumn htable hrequested hbefore hcolumn =>
    obtain ⟨other, hother, heq⟩ := hother _ htable
    rw [← heq] at hbefore hcolumn
    exact ⟨_, .unknownColumn hother hrequested hbefore hcolumn, rfl⟩
  | malformed htable hrequested htext hparse =>
    obtain ⟨other, hother, heq⟩ := hother _ htable
    rw [← heq] at hrequested
    exact ⟨_, .malformed hother hrequested htext hparse, rfl⟩
  | unknownConditionColumn htable hrequested htext hparse hcolumn =>
    obtain ⟨other, hother, heq⟩ := hother _ htable
    rw [← heq] at hrequested hcolumn
    exact ⟨_, .unknownConditionColumn hother hrequested htext hparse hcolumn, rfl⟩
  | @rows table condition rows htable hrequested hcondition hrows =>
    obtain ⟨other, hother, heq⟩ := hother _ htable
    rw [← heq] at hrequested
    have houtput : other.outputColumns query.columns = table.outputColumns query.columns := by
      simp [Table.outputColumns, heq]
    refine ⟨_, .rows hother hrequested (hcondition.congr heq)
      ((Row.forall₂_isCut_iff ((h other hother).mem_of_mem_outputColumns hrequested _)).2 rfl), ?_⟩
    simp [Except.map, houtput]

end Select

end ShardStore

import ShardStore.Proofs.Database.WellFormed
import ShardStore.Proofs.Fragment
import ShardStore.Proofs.Query
/-!
# Databases — a selection is answered from fragments

What a selection does to a table is settled in two steps: the columns and
the condition are checked against the declared columns (`Select.plan`), and
then the rows are kept and cut one by one (`Table.WellFormed.runOn_eq`). The
first step sees no rows, so all shards of a table agree with it there, and
the second one goes through the rows of the shards as through those of the
table. A partition that has the columns a selection speaks of has the cells
that the second step looks at.
-/

namespace ShardStore

/-! ## Rows of a partition -/

namespace Row

variable {row : Row} {columns group : List String}

/-- **What is cut twice is cut to the smaller list.** -/
theorem project_project (h : ∀ c ∈ columns, c ∈ group) :
    (row.project group).project columns = row.project columns := by
  refine Std.ExtTreeMap.ext_getElem? fun c => ?_
  rw [getElem?_project, getElem?_project]
  by_cases hc : c ∈ columns
  · rw [if_pos hc, if_pos hc, Std.ExtTreeMap.getD_eq_getD_getElem?, getElem?_project,
      if_pos (h c hc), Option.getD_some]
  · rw [if_neg hc, if_neg hc]

/-- A row that has the column of a condition meets it also without the
columns that the condition does not speak of. -/
theorem meets_project {condition : Option Condition} (h : ∀ c ∈ condition, c.column ∈ row)
    (hgroup : ∀ c ∈ condition, c.column ∈ group) :
    (row.project group).meets condition = row.meets condition := by
  cases condition with
  | none => rfl
  | some condition =>
    have hcell : row[condition.column]? = some (row.getD condition.column .null) :=
      Std.ExtTreeMap.getElem?_eq_some_getD (h condition rfl)
    simp only [meets, Option.all_some, getElem?_project, if_pos (hgroup condition rfl), hcell]

end Row

/-! ## A selection over one table -/

namespace Select

variable {query : Select} {table other : Table} {columns : List String}
  {condition : Option Condition}

/-- What a selection yields over one table alone, which is loaded under the
name that it asks for. -/
def runOn (query : Select) (table : Table) : Except ExecutionError (List String × List Row) :=
  query.run (Std.ExtTreeMap.insert ∅ query.table table)

/-- No other table makes a difference. -/
theorem run_eq_runOn {tables : Tables} (h : tables[query.table]? = some table) :
    query.run tables = query.runOn table := by
  have hsame : (Std.ExtTreeMap.insert ∅ query.table table : Tables)[query.table]? = some table :=
    Std.ExtTreeMap.getElem?_insert_self
  simp only [runOn, run, h, hsame]

/-- The columns and the condition of a selection, checked against the
declared columns of a table. -/
def plan (query : Select) (table : Table) :
    Except ExecutionError (List String × Option Condition) :=
  match table.selectedColumns query.columns with
  | .error e => .error e
  | .ok columns =>
    match table.compileCondition query.condition with
    | .error e => .error (.condition e)
    | .ok condition => .ok (columns, condition)

theorem plan_eq_ok_iff : query.plan table = .ok (columns, condition) ↔
    (∀ c ∈ query.columns, c ∈ table.columns) ∧ columns = table.outputColumns query.columns ∧
      table.Compiles query.condition condition := by
  rw [← Table.checkDeclared_eq_ok_iff, ← Table.compileCondition_eq_ok_iff, plan,
    Table.selectedColumns_eq]
  cases table.checkDeclared query.columns with
  | error e => simp [Except.map]
  | ok _ => cases table.compileCondition query.condition <;> simp [Except.map, eq_comm]

/-- **Only the name and the declared columns of a table matter to a plan.** -/
theorem plan_congr (hname : other.name = table.name) (hcolumns : other.columns = table.columns) :
    query.plan other = query.plan table := by
  obtain ⟨name, columns, rows⟩ := table
  obtain ⟨name', columns', rows'⟩ := other
  obtain rfl : name' = name := hname
  obtain rfl : columns' = columns := hcolumns
  rfl

/-- **Nor do the columns matter** that a selection does not speak of, where it
requests some. -/
theorem plan_eq_of_declared (hnonempty : query.columns ≠ [])
    (hcolumns : ∀ c ∈ query.columns, c ∈ other.columns ∧ c ∈ table.columns)
    (hcondition : ∀ text condition, query.condition = some text →
      Condition.parse text = .ok condition →
        condition.column ∈ other.columns ∧ condition.column ∈ table.columns) :
    query.plan other = query.plan table := by
  have hother : other.checkDeclared query.columns = .ok () :=
    Table.checkDeclared_eq_ok_iff.2 fun c hc => (hcolumns c hc).1
  have htable : table.checkDeclared query.columns = .ok () :=
    Table.checkDeclared_eq_ok_iff.2 fun c hc => (hcolumns c hc).2
  simp only [plan, Table.selectedColumns_eq, hother, htable, Except.map, Table.outputColumns,
    if_neg hnonempty]
  cases htext : query.condition with
  | none => rfl
  | some text =>
    cases hparse : Condition.parse text with
    | error e => simp [Table.compileCondition, hparse]
    | ok condition =>
      obtain ⟨hin, hin'⟩ := hcondition text condition htext hparse
      simp [Table.compileCondition, hparse, Table.hasColumn, hin, hin']

end Select

open Select

namespace Table.WellFormed

variable {query : Select} {table : Table} {group : List String}

/-- **A selection is its plan, carried out row by row.** -/
theorem runOn_eq (h : table.WellFormed) : query.runOn table =
    (query.plan table).map fun (columns, condition) =>
      (columns, (table.rows.filter (·.meets condition)).map (·.project columns)) := by
  have htable : (Std.ExtTreeMap.insert ∅ query.table table : Tables)[query.table]? = some table :=
    Std.ExtTreeMap.getElem?_insert_self
  simp only [runOn, run, htable, plan]
  cases table.selectedColumns query.columns with
  | error e => rfl
  | ok columns =>
    cases hcompile : table.compileCondition query.condition with
    | error e => rfl
    | ok condition =>
      simp only [h.keepRows_eq_ok (compileCondition_eq_ok_iff.1 hcompile)]
      rfl

/-- A plan that was made for a well-formed table speaks of columns that its
rows have. -/
theorem mem_of_plan (h : table.WellFormed) {columns : List String} {condition : Option Condition}
    (hplan : query.plan table = .ok (columns, condition)) :
    ∀ row ∈ table.rows, ∀ c ∈ condition, c.column ∈ row := by
  obtain ⟨-, -, hcondition⟩ := plan_eq_ok_iff.1 hplan
  exact fun row hrow c hc => (h.rows row hrow _).2 (hcondition.declared c hc)

/-! ## The two cuts -/

/-- A shard answers by the plan for the table, over its own rows. -/
theorem runOn_shard (h : table.WellFormed) {size : Nat} {fragments : List Fragment}
    (hcut : table.shards size = .ok fragments) {fragment : Fragment} (hmem : fragment ∈ fragments) :
    query.runOn { table with rows := fragment.rows } =
      (query.plan table).map fun (columns, condition) =>
        (columns, (fragment.rows.filter (·.meets condition)).map (·.project columns)) := by
  obtain ⟨-, hshard⟩ := h.ofDocument_shard hcut fragment hmem
  have hsame : query.plan { table with rows := fragment.rows } = query.plan table :=
    plan_congr rfl rfl
  rw [hshard.runOn_eq, hsame]

/-- **The shards of a table answer together**, each with the columns of the
answer and with its own part of the rows, in order. -/
theorem runOn_shards (h : table.WellFormed) {size : Nat} {fragments : List Fragment}
    (hcut : table.shards size = .ok fragments) {columns : List String} {rows : List Row}
    (hrun : query.runOn table = .ok (columns, rows)) :
    ∃ parts, List.Forall₂ (fun (fragment : Fragment) part =>
        query.runOn { table with rows := fragment.rows } = .ok (columns, part)) fragments parts ∧
      parts.flatten = rows := by
  rw [h.runOn_eq] at hrun
  cases hplan : query.plan table with
  | error e => simp [hplan, Except.map] at hrun
  | ok plan =>
    obtain ⟨output, condition⟩ := plan
    simp only [hplan, Except.map, Except.ok.injEq, Prod.mk.injEq] at hrun
    obtain ⟨rfl, rfl⟩ := hrun
    refine ⟨fragments.map fun fragment =>
      (fragment.rows.filter (·.meets condition)).map (·.project output), ?_, ?_⟩
    · rw [List.forall₂_map_right_iff, List.forall₂_same]
      intro fragment hmem
      rw [h.runOn_shard hcut hmem, hplan]
      rfl
    · -- Keeping rows and cutting them both go through the shards one by one.
      rw [← flatten_rows_shards hcut, List.filter_flatten, List.map_flatten, List.map_map,
        List.map_map]
      rfl

/-- **A selection that fails over a table fails so over every shard.** -/
theorem runOn_shards_eq_error (h : table.WellFormed) {size : Nat} {fragments : List Fragment}
    (hcut : table.shards size = .ok fragments) {e : ExecutionError}
    (hrun : query.runOn table = .error e) :
    ∀ fragment ∈ fragments, query.runOn { table with rows := fragment.rows } = .error e := by
  intro fragment hmem
  rw [h.runOn_eq] at hrun
  rw [h.runOn_shard hcut hmem]
  cases hplan : query.plan table with
  | error cause =>
    rw [hplan] at hrun
    exact hrun
  | ok plan => simp [hplan, Except.map] at hrun

/-- **A partition answers as the table does** where it has the columns that a
selection speaks of. -/
theorem runOn_partition (h : table.WellFormed) (hgroup : table.Admits group)
    (hnonempty : query.columns ≠ []) (hcolumns : ∀ c ∈ query.columns, c ∈ group)
    (hcondition : ∀ text condition, query.condition = some text →
      Condition.parse text = .ok condition → condition.column ∈ group) :
    query.runOn ⟨table.name, group, table.rows.map (·.project group)⟩ = query.runOn table := by
  obtain ⟨-, hpartition⟩ := h.ofDocument_partition hgroup
  have hsame : query.plan ⟨table.name, group, table.rows.map (·.project group)⟩ =
      query.plan table := by
    refine plan_eq_of_declared hnonempty (fun c hc => ?_) fun text condition htext hparse => ?_
    · exact ⟨hcolumns c hc, hgroup.declared c (hcolumns c hc)⟩
    · have hin := hcondition text condition htext hparse
      exact ⟨hin, hgroup.declared _ hin⟩
  rw [hpartition.runOn_eq, h.runOn_eq, hsame]
  cases hplan : query.plan table with
  | error e => rfl
  | ok plan =>
    obtain ⟨columns, condition⟩ := plan
    have hcolumn := h.mem_of_plan hplan
    obtain ⟨-, houtput, hcompiled⟩ := plan_eq_ok_iff.1 (hsame.trans hplan)
    obtain rfl : columns = query.columns := by simpa [outputColumns, hnonempty] using houtput
    have hkept : (table.rows.map (·.project group)).filter (·.meets condition) =
        (table.rows.filter (·.meets condition)).map (·.project group) := by
      rw [List.filter_map]
      refine congrArg _ (List.filter_congr fun row hrow => ?_)
      exact Row.meets_project (hcolumn row hrow) hcompiled.declared
    simp only [Except.map, hkept, List.map_map, Function.comp_def,
      Row.project_project hcolumns]

end Table.WellFormed

namespace Database

variable {σ : Type} [Storage σ]

/-- **A selection can be answered from fragments.** For every size but zero a
table has shards, numbered by their positions, and each is loaded as a table
of the same name. Where the selection succeeds it succeeds over each of them
with the same columns, and what they yield, put together in order, is what
the table yields; where it fails it fails over each of them alike. Of the
partitions for a list of groups, each that has the requested columns, at
least one, and the column of the condition yields over its own rows what the
table does, be it rows or a failure. -/
theorem answered_from_fragments {db : Database σ} (h : db.Reachable) {query : Select}
    {table : Table} (htable : db.tables[query.table]? = some table) :
    (∀ size, size ≠ 0 → ∃ fragments shards, table.shards size = .ok fragments ∧
      table.Numbers .shard fragments ∧
      List.Forall₂ (fun (fragment : Fragment) shard =>
        Table.ofDocument query.table fragment.document = .ok shard) fragments shards ∧
      (∀ columns rows, query.run db.tables = .ok (columns, rows) → ∃ parts,
        List.Forall₂ (fun shard part => query.runOn shard = .ok (columns, part)) shards parts ∧
          parts.flatten = rows) ∧
      ∀ e, query.run db.tables = .error e → ∀ shard ∈ shards, query.runOn shard = .error e) ∧
    ∀ groups fragments, table.partitions groups = .ok fragments →
      ∀ (index : Nat) (group : List String), groups[index]? = some group →
        query.columns ≠ [] → (∀ c ∈ query.columns, c ∈ group) →
        (∀ text condition, query.condition = some text → Condition.parse text = .ok condition →
          condition.column ∈ group) →
        ∃ fragment partition, fragments[index]? = some fragment ∧
          Table.ofDocument query.table fragment.document = .ok partition ∧
          query.runOn partition = query.run db.tables := by
  obtain ⟨hname, hwf⟩ := h.wellFormed _ _ htable
  rw [run_eq_runOn htable, ← hname]
  refine ⟨fun size hsize => ?_, fun groups fragments hcut index group hindex hnonempty hcolumns
    hcondition => ?_⟩
  · obtain ⟨fragments, hcut⟩ : ∃ fragments, table.shards size = .ok fragments :=
      ⟨_, Table.shards_eq_ok_iff.2 ⟨hsize, rfl⟩⟩
    refine ⟨fragments, fragments.map fun fragment => { table with rows := fragment.rows }, hcut,
      Table.numbers_shards hcut, ?_, fun columns rows hrun => ?_, fun e hrun => ?_⟩
    · rw [List.forall₂_map_right_iff, List.forall₂_same]
      exact fun fragment hmem => (hwf.ofDocument_shard hcut fragment hmem).1
    · obtain ⟨parts, hparts, hflatten⟩ := hwf.runOn_shards hcut hrun
      exact ⟨parts, List.forall₂_map_left_iff.2 hparts, hflatten⟩
    · rw [List.forall_mem_map]
      exact hwf.runOn_shards_eq_error hcut hrun
  · obtain ⟨hadmits, -⟩ := (Table.partitions_eq_ok_iff hwf).1 hcut
    have hgroup := hadmits group (List.mem_of_getElem? hindex)
    exact ⟨_, _, Table.getElem?_partitions hwf hcut hindex, (hwf.ofDocument_partition hgroup).1,
      hwf.runOn_partition hgroup hnonempty hcolumns hcondition⟩

/-- Three rows in shards of two, and the partition of two of the columns in
the other order: each yields the one row that meets the condition. -/
theorem answered_from_fragments_three_rows :
    let insertion (x y : Cell) : Event MemoryStore :=
      .ask (.execute (.insert ⟨"t", ["x", "y"], [x, y]⟩))
    let db := (Event.runAll [.ask (.createTable "t" ["x", "y", "z"]),
      insertion (.text "1") (.text "a"), insertion (.text "2") .null,
      insertion .null (.text "b")] (.empty {})).2
    let query : Select := ⟨["y"], "t", some "x >= 2"⟩
    let answer : List Row := [Row.ofPairs [("y", .null)]]
    ∃ table, db.tables["t"]? = some table ∧
      (∃ fragments shards parts, table.shards 2 = .ok fragments ∧ fragments.length = 2 ∧
        List.Forall₂ (fun shard part => query.runOn shard = .ok (["y"], part)) shards parts ∧
        parts.flatten = answer) ∧
      ∃ fragments fragment partition,
        table.partitions [["z"], ["y", "x"]] = .ok fragments ∧ fragments[1]? = some fragment ∧
        Table.ofDocument "t" fragment.document = .ok partition ∧
        query.runOn partition = .ok (["y"], answer) := by
  intro insertion db query answer
  have hreachable : db.Reachable := (Reachable.empty _).runAll _
  have hrun : query.run db.tables = .ok (["y"], answer) := by decide +kernel
  let row (x y : Cell) : Row := Row.ofPairs [("x", x), ("y", y), ("z", .null)]
  let table : Table := ⟨"t", ["x", "y", "z"],
    [row (.text "1") (.text "a"), row (.text "2") .null, row .null (.text "b")]⟩
  have htable : db.tables[query.table]? = some table := by decide +kernel
  have hparse : (Condition.parse "x >= 2").map (·.column) = .ok "x" := by decide +kernel
  obtain ⟨hshards, hpartitions⟩ := answered_from_fragments hreachable htable
  refine ⟨table, htable, ?_, ?_⟩
  · obtain ⟨fragments, shards, hcut, -, -, hanswers, -⟩ := hshards 2 (by decide)
    obtain ⟨parts, hparts, hflatten⟩ := hanswers _ _ hrun
    have hlength : (table.shards 2).map List.length = .ok 2 := by decide +kernel
    rw [hcut] at hlength
    exact ⟨fragments, shards, parts, hcut, Except.ok.inj hlength, hparts, hflatten⟩
  · have hcut : table.partitions [["z"], ["y", "x"]] = .ok _ := rfl
    obtain ⟨fragment, partition, hfragment, hread, hsame⟩ :=
      hpartitions _ _ hcut 1 ["y", "x"] rfl (by decide) (by decide) fun text condition htext hok => by
        cases htext
        rw [hok] at hparse
        simp [Except.ok.inj hparse]
    exact ⟨_, fragment, partition, hcut, hfragment, hread, hsame.trans hrun⟩

end Database

end ShardStore

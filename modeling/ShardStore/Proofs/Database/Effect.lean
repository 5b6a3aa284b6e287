import ShardStore.Database.Event
import ShardStore.Proofs.Fragment
/-!
# Databases — what an operation can do

Everything that an operation can come to, said once (`Effect`): it is
refused and does nothing; it selects and does nothing; it makes a table or
adds a row to one, which is one attempt to store a table (`Attempt`); it
cuts a loaded table and stores the fragments; or it loads. Whatever is to be
shown of all operations is shown by cases on this, and no proof opens the
operations again.
-/

namespace ShardStore

/-- Putting in a table what it holds already changes nothing. -/
theorem Tables.insert_eq_self {tables : Tables} {name : String} {table : Table}
    (h : tables[name]? = some table) : tables.insert name table = tables := by
  refine Std.ExtTreeMap.ext_getElem? fun other => ?_
  rw [Std.ExtTreeMap.getElem?_insert]
  by_cases hn : name = other
  · subst hn
    simp [h]
  · simp [hn]

variable {σ : Type} [Storage σ]

/-- An attempt to store a table and to have it loaded under a name: refused,
and the tables stay as they were, or done. -/
inductive Attempt (db : Database σ) (name : String) (table : Table) :
    Except StorageError Unit → Database σ → Prop
  | refused {e : StorageError} {storage : σ}
      (h : Storage.store db.storage (.base table.name) table.document = (.error e, storage)) :
      Attempt db name table (.error e) { db with storage }
  | done {storage : σ}
      (h : Storage.store db.storage (.base table.name) table.document = (.ok (), storage)) :
      Attempt db name table (.ok ()) ⟨db.tables.insert name table, storage⟩

namespace Operation

/-- The statement that an operation carries out, if there is one. -/
def statement? : Operation → Option Statement
  | executeText text => (Statement.parse text).toOption
  | execute statement => some statement
  | _ => none

/-- The table that an operation cuts, and the fragments it cuts it into. -/
def cut? : Operation → Option (String × (Table → Except ExecutionError (List Fragment)))
  | scaleHorizontally name size => some (name, (·.shards size))
  | scaleVertically name groups => some (name, (·.partitions groups))
  | _ => none

/-- The table that an operation cuts, and the kind of its fragments. -/
def cuts? : Operation → Option (String × FragmentKind)
  | scaleHorizontally name _ => some (name, .shard)
  | scaleVertically name _ => some (name, .partition)
  | _ => none

/-- What an operation on a database can come to, and the database after
it. -/
inductive Effect (db : Database σ) : Operation → Except DatabaseError Yield → Database σ → Prop
  | refused {operation : Operation} (e : DatabaseError) : Effect db operation (.error e) db
  | selected {operation : Operation} {query : Select} {columns : List String} {rows : List Row}
      (hop : operation.statement? = some (.select query)) :
      Effect db operation (.ok (.answer (.selected columns rows))) db
  | created {name : String} {columns : List String} {table : Table}
      {outcome : Except StorageError Unit} {later : Database σ} (hnew : name ∉ db.tables)
      (htable : Table.create name columns = .ok table) (h : Attempt db name table outcome later) :
      Effect db (.createTable name columns)
        ((outcome.mapError DatabaseError.storage).map fun _ => .nothing) later
  | inserted {operation : Operation} {addition : Insert} {table : Table} {row : Row}
      {outcome : Except StorageError Unit} {later : Database σ}
      (hop : operation.statement? = some (.insert addition))
      (htable : db.tables[addition.table]? = some table)
      (hrow : table.buildRow addition.columns addition.values = .ok row)
      (h : Attempt db addition.table (table.push row) outcome later) :
      Effect db operation
        ((outcome.mapError (DatabaseError.execution ∘ ExecutionError.storage)).map
          fun _ => .answer (.inserted addition.table)) later
  | cut {operation : Operation} {name : String} {table : Table} {fragments : List Fragment}
      {cut : Table → Except ExecutionError (List Fragment)}
      (hop : operation.cut? = some (name, cut)) (htable : db.tables[name]? = some table)
      (hcut : cut table = .ok fragments) :
      Effect db operation
        (((Database.storeFragments db.storage fragments).1.mapError DatabaseError.storage).map
          fun _ => .fragments fragments)
        { db with storage := (Database.storeFragments db.storage fragments).2 }
  | loaded : Effect db .loadTables (db.loadTables.1.map fun _ => .nothing) db.loadTables.2

end Operation

namespace Database

variable {db : Database σ}

/-- Making a table is refused, or one attempt to store the empty table. -/
theorem createTable_effect (name : String) (columns : List String) :
    Operation.Effect db (.createTable name columns)
      ((db.createTable name columns).1.map fun _ => .nothing) (db.createTable name columns).2 := by
  unfold createTable
  by_cases hnew : name ∈ db.tables
  · rw [if_pos hnew]
    exact .refused _
  · rw [if_neg hnew]
    split
    · exact .refused _
    · next table htable =>
      have hname : table.name = name := by
        obtain ⟨-, rfl⟩ := Table.create_eq_ok_iff.1 htable
        rfl
      split
      · next e storage hstore => exact .created hnew htable (.refused (by rw [hname]; exact hstore))
      · next storage hstore => exact .created hnew htable (.done (by rw [hname]; exact hstore))

/-- **Adding a row is refused, or one attempt to store the longer table.** A
row that was taken back leaves the tables as they were. -/
theorem insert_cases (db : Database σ) (addition : Insert) :
    (∃ e, db.insert addition = (.error e, db)) ∨
      ∃ table row outcome later, db.tables[addition.table]? = some table ∧
        table.buildRow addition.columns addition.values = .ok row ∧
        db.insert addition = (outcome.mapError ExecutionError.storage, later) ∧
        Attempt db addition.table (table.push row) outcome later := by
  unfold insert
  split
  · exact .inl ⟨_, rfl⟩
  · next table htable =>
    split
    · exact .inl ⟨_, rfl⟩
    · next row hrow =>
      refine .inr ⟨table, row, ?_⟩
      split
      · next e storage hstore =>
        -- The row is taken off again, and its table put back where it was.
        have hback : db.tables.insert addition.table (table.push row).pop = db.tables := by
          rw [Table.pop_push, Tables.insert_eq_self htable]
        rw [hback]
        exact ⟨.error e, _, htable, hrow, rfl, .refused hstore⟩
      · next storage hstore => exact ⟨.ok (), _, htable, hrow, rfl, .done hstore⟩

/-- Carrying out a statement, by whichever operation. -/
theorem execute_effect {operation : Operation} {statement : Statement}
    (hop : operation.statement? = some statement) :
    Operation.Effect db operation ((db.execute statement).1.map Operation.Yield.answer)
      (db.execute statement).2 := by
  cases statement with
  | select query =>
    simp only [execute]
    split
    · exact .refused _
    · exact .selected hop
  | insert addition =>
    simp only [execute]
    rcases insert_cases db addition with
      ⟨e, h⟩ | ⟨table, row, outcome, later, htable, hrow, h, hatt⟩
    · rw [h]
      exact .refused _
    · have heffect := Operation.Effect.inserted hop htable hrow hatt
      rw [h]
      cases outcome <;> exact heffect

/-- Cutting a table is refused, or the storing of its fragments. -/
theorem scatter_effect {operation : Operation} {name : String}
    {cut : Table → Except ExecutionError (List Fragment)}
    (hop : operation.cut? = some (name, cut)) :
    Operation.Effect db operation ((db.scatter name cut).1.map Operation.Yield.fragments)
      (db.scatter name cut).2 := by
  unfold scatter
  split
  · exact .refused _
  · next table htable =>
    split
    · exact .refused _
    · next fragments hcut =>
      have heffect := Operation.Effect.cut hop htable hcut
      split
      · next e storage hstore =>
        rw [hstore] at heffect
        exact heffect
      · next storage hstore =>
        rw [hstore] at heffect
        exact heffect

end Database

namespace Operation

/-- **Every operation comes to one of its effects.** -/
theorem effect_run (operation : Operation) (db : Database σ) :
    Effect db operation (operation.run db).1 (operation.run db).2 := by
  cases operation with
  | executeText text =>
    cases hparse : Statement.parse text with
    | error e =>
      simp only [run, Database.executeText, hparse]
      exact .refused _
    | ok statement =>
      simp only [run, Database.executeText, hparse]
      exact Database.execute_effect (by simp [statement?, hparse, Except.toOption])
  | execute statement => exact Database.execute_effect rfl
  | createTable name columns => exact Database.createTable_effect name columns
  | scaleHorizontally name size => exact Database.scatter_effect rfl
  | scaleVertically name groups => exact Database.scatter_effect rfl
  | loadTables => exact .loaded

/-- A cut numbers its fragments, which are of one kind. -/
theorem numbers_of_cut {operation : Operation} {name : String} {table : Table}
    {cut : Table → Except ExecutionError (List Fragment)} {fragments : List Fragment}
    (hop : operation.cut? = some (name, cut)) (hcut : cut table = .ok fragments) :
    ∃ kind, operation.cuts? = some (name, kind) ∧ table.Numbers kind fragments := by
  cases operation with
  | scaleHorizontally other size =>
    cases hop
    exact ⟨.shard, rfl, Table.numbers_shards hcut⟩
  | scaleVertically other groups =>
    cases hop
    exact ⟨.partition, rfl, Table.numbers_partitions hcut⟩
  | _ => cases hop

/-- Every fragment carries the name of the table it was cut from. -/
theorem table_of_mem_cut {operation : Operation} {name : String} {table : Table}
    {cut : Table → Except ExecutionError (List Fragment)} {fragments : List Fragment}
    (hop : operation.cut? = some (name, cut)) (hcut : cut table = .ok fragments) :
    ∀ fragment ∈ fragments, fragment.table = table.name := by
  intro fragment hmem
  obtain ⟨kind, -, hnumbers⟩ := numbers_of_cut hop hcut
  obtain ⟨index, hindex⟩ := List.mem_iff_getElem?.1 hmem
  exact (hnumbers index fragment hindex).1

end Operation

end ShardStore

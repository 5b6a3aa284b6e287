import ShardStore.Proofs.Database.Reopen
/-!
# Databases — a table is the log of its insertions

A trace tells which tables were made and which rows were added
(`Trace.changes`): what failed is not a change, nor is a selection, a cut
or a load. What a database then has under a name is settled by the table
that was loaded there and by the changes of that name alone (`Logged`). A
whole table is written for each row, and a load puts every table in the
place of the one in memory, so that nothing is lost or comes back rests on
the agreement of tables and storage at every step before.
-/

namespace ShardStore

/-- A change of the tables that was carried out. -/
inductive Change where
  | created (name : String) (columns : List String)
  | inserted (addition : Insert)
deriving DecidableEq, Repr

namespace Insert

/-- The row that an insertion adds to a table with `columns`: the value
given for each of them, and null where none is given. -/
def row (addition : Insert) (columns : List String) : Row :=
  Row.ofColumns (fun c => ((addition.columns.zip addition.values).lookup c).getD .null) columns

end Insert

namespace Operation

/-- The change that an operation makes where it succeeds. -/
def change? : Operation → Option Change
  | createTable name columns => some (.created name columns)
  | operation =>
    match operation.statement? with
    | some (.insert addition) => some (.inserted addition)
    | _ => none

end Operation

namespace Trace

/-- The change that one entry of a trace tells of. -/
def change? : Operation × Except DatabaseError Operation.Yield → Option Change
  | (operation, .ok _) => operation.change?
  | (_, .error _) => none

/-- The changes that a trace tells of, in order. -/
def changes (trace : Trace) : List Change :=
  trace.filterMap change?

end Trace

namespace Change

/-- The columns that a change makes the table `name` with. -/
def creation? (name : String) : Change → Option (List String)
  | created other columns => if other = name then some columns else none
  | inserted _ => none

/-- The insertion into the table `name` that a change is. -/
def insertion? (name : String) : Change → Option Insert
  | created _ _ => none
  | inserted addition => if addition.table = name then some addition else none

/-- The column lists that the table `name` was made with, in order. -/
def creations (name : String) (changes : List Change) : List (List String) :=
  changes.filterMap (creation? name)

/-- The insertions into the table `name`, in order. -/
def insertions (name : String) (changes : List Change) : List Insert :=
  changes.filterMap (insertion? name)

@[simp] theorem creations_append (name : String) (first second : List Change) :
    creations name (first ++ second) = creations name first ++ creations name second :=
  List.filterMap_append

@[simp] theorem insertions_append (name : String) (first second : List Change) :
    insertions name (first ++ second) = insertions name first ++ insertions name second :=
  List.filterMap_append

end Change

open Change

/-- What there is under a name after some changes, by what there was before
them: the table that was there, or the one table that was made since, with
one row more for each insertion and in their order; or nothing, where no
table was made and no row added. -/
inductive Logged (name : String) (changes : List Change) : Option Table → Option Table → Prop
  | opened (table : Table) (hnone : creations name changes = []) :
      Logged name changes (some table)
        (some ⟨table.name, table.columns,
          table.rows ++ (insertions name changes).map (·.row table.columns)⟩)
  | created (columns : List String) (hone : creations name changes = [columns]) :
      Logged name changes none
        (some ⟨name, columns, (insertions name changes).map (·.row columns)⟩)
  | absent (hnone : creations name changes = []) (hempty : insertions name changes = []) :
      Logged name changes none none

namespace Logged

variable {name : String} {first second : List Change} {before between after : Option Table}

theorem refl {changes : List Change} (hnone : creations name changes = [])
    (hempty : insertions name changes = []) (found : Option Table) :
    Logged name changes found found := by
  cases found with
  | none => exact .absent hnone hempty
  | some table => simpa [hempty] using Logged.opened table hnone

/-- **A log is read on where another one ended.** -/
theorem trans (h₁ : Logged name first before between) (h₂ : Logged name second between after) :
    Logged name (first ++ second) before after := by
  cases h₁ with
  | opened table hnone =>
    cases h₂ with
    | opened _ hnone' =>
      have hall : creations name (first ++ second) = [] := by simp [hnone, hnone']
      simpa [List.append_assoc] using Logged.opened table hall
  | created columns hone =>
    cases h₂ with
    | opened _ hnone' =>
      have hall : creations name (first ++ second) = [columns] := by simp [hone, hnone']
      simpa using Logged.created columns hall
  | absent hnone hempty =>
    cases h₂ with
    | created columns hone =>
      -- No row was added before the table was made.
      have hall : creations name (first ++ second) = [columns] := by simp [hnone, hone]
      simpa [hempty] using Logged.created columns hall
    | absent hnone' hempty' => exact .absent (by simp [hnone, hnone']) (by simp [hempty, hempty'])

/-- **A table is there when it was there before or has been made.** -/
theorem present_iff {changes : List Change} (h : Logged name changes before after) :
    after.isSome = true ↔ before.isSome = true ∨ creations name changes ≠ [] := by
  cases h with
  | opened => simp
  | created columns hone => simp [hone]
  | absent hnone => simp [hnone]

/-- **Rows that are there stay there**, at the head of the later rows. -/
theorem isPrefix {changes : List Change} {table : Table}
    (h : Logged name changes (some table) after) :
    ∃ later, after = some later ∧ later.columns = table.columns ∧ table.rows <+: later.rows := by
  cases h with
  | opened => exact ⟨_, rfl, rfl, List.prefix_append _ _⟩

end Logged

/-! ## The row of an insertion -/

/-- **The row that is built is the row of the insertion.** -/
theorem Table.row_of_buildRow {table : Table} {addition : Insert} {row : Row}
    (h : table.buildRow addition.columns addition.values = .ok row) :
    row = addition.row table.columns := by
  obtain ⟨⟨hlength, hdistinct, -⟩, rfl⟩ := Table.buildRow_eq_ok_iff.1 h
  have hkeys : ((addition.columns.zip addition.values).map Prod.fst).Nodup := by
    rw [List.map_fst_zip (by omega)]
    exact hdistinct
  refine Std.ExtTreeMap.ext_getElem? fun c => ?_
  rw [Row.getElem?_project, Insert.row, Row.getElem?_ofColumns,
    Std.ExtTreeMap.getD_eq_getD_getElem?, Row.getElem?_ofPairs hkeys]

/-! ## The log of one change -/

namespace Logged

variable {name : String} {tables : Tables}

theorem nil (found : Option Table) : Logged name [] found found :=
  .refl rfl rfl found

/-- A table that was made is there, and no other one has changed. -/
theorem of_created {other : String} {columns : List String} {table : Table}
    (hnew : other ∉ tables) (htable : Table.create other columns = .ok table) :
    Logged name [.created other columns] tables[name]?
      (Std.ExtTreeMap.insert tables other table)[name]? := by
  obtain ⟨-, rfl⟩ := Table.create_eq_ok_iff.1 htable
  by_cases h : other = name
  · subst h
    have hone : creations other [.created other columns] = [columns] := by
      simp [creations, creation?]
    rw [Std.ExtTreeMap.getElem?_eq_none hnew, Std.ExtTreeMap.getElem?_insert_self]
    exact Logged.created columns hone
  · rw [Std.ExtTreeMap.getElem?_insert, if_neg (by simpa using h)]
    exact .refl (by simp [creations, creation?, h]) (by simp [insertions, insertion?]) _

/-- A row that was added is the last one of its table, and no other table
has changed. -/
theorem of_inserted {addition : Insert} {table : Table} {row : Row}
    (htable : tables[addition.table]? = some table)
    (hrow : table.buildRow addition.columns addition.values = .ok row) :
    Logged name [.inserted addition] tables[name]?
      (Std.ExtTreeMap.insert tables addition.table (table.push row))[name]? := by
  obtain rfl := Table.row_of_buildRow hrow
  have hnone : creations name [.inserted addition] = [] := by simp [creations, creation?]
  by_cases h : addition.table = name
  · subst h
    rw [htable, Std.ExtTreeMap.getElem?_insert_self]
    simpa [insertions, insertion?, Table.push] using Logged.opened table hnone
  · rw [Std.ExtTreeMap.getElem?_insert, if_neg (by simpa using h)]
    exact .refl hnone (by simp [insertions, insertion?, h]) _

end Logged

/-! ## The log of a run -/

variable {σ : Type} [Storage σ] {Settled : σ → Prop} {db later : Database σ}

namespace Operation

variable {operation : Operation}

theorem change?_of_select {query : Select} (h : operation.statement? = some (.select query)) :
    operation.change? = none := by
  cases operation <;> simp_all [change?, statement?]

theorem change?_of_insert {addition : Insert}
    (h : operation.statement? = some (.insert addition)) :
    operation.change? = some (.inserted addition) := by
  cases operation <;> simp_all [change?, statement?]

theorem change?_of_cut {cut : String × (Table → Except ExecutionError (List Fragment))}
    (h : operation.cut? = some cut) : operation.change? = none := by
  cases operation <;> simp_all [change?, statement?, cut?]

end Operation

namespace Trace

/-- An operation that changes no table leaves no change. -/
theorem changes_of_none {operation : Operation} (h : operation.change? = none)
    (outcome : Except DatabaseError Operation.Yield) : changes [(operation, outcome)] = [] := by
  cases outcome <;> simp [changes, change?, h]

theorem changes_ok {operation : Operation} {change : Change}
    (h : operation.change? = some change) (answer : Operation.Yield) :
    changes [(operation, .ok answer)] = [change] := by
  simp [changes, change?, h]

@[simp] theorem changes_append (first second : Trace) :
    changes (first ++ second) = changes first ++ changes second :=
  List.filterMap_append

end Trace

namespace Logged

variable {name : String}

/-- **Every effect is logged.** -/
theorem of_effect {operation : Operation} {outcome : Except DatabaseError Operation.Yield}
    (h : operation.Effect db outcome later) (hdb : db.Current) :
    Logged name (Trace.changes [(operation, outcome)]) db.tables[name]? later.tables[name]? := by
  cases h with
  | refused e => exact nil _
  | selected hop =>
    rw [Trace.changes_of_none (Operation.change?_of_select hop)]
    exact nil _
  | created hnew htable hatt =>
    cases hatt with
    | refused => exact nil _
    | done => exact of_created hnew htable
  | inserted hop htable hrow hatt =>
    cases hatt with
    | refused => exact nil _
    | done =>
      show Logged name (Trace.changes [(operation, .ok _)]) _ _
      rw [Trace.changes_ok (Operation.change?_of_insert hop)]
      exact of_inserted htable hrow
  | cut hop =>
    rw [Trace.changes_of_none (Operation.change?_of_cut hop)]
    exact nil _
  | loaded =>
    -- The load puts back the tables that are there.
    rw [hdb.loadTables]
    exact nil _

/-- So is every event, and one that only touches the storage is none. -/
theorem of_event (event : Event σ) (hdb : db.Current) :
    Logged name (event.run db).1.changes db.tables[name]? (event.run db).2.tables[name]? := by
  cases event with
  | ask operation => exact of_effect (operation.effect_run db) hdb
  | change become => exact nil _

/-- **Every run is logged.** -/
theorem of_runAll {events : List (Event σ)} (hdb : db.Coherent Settled)
    (hc : Storage.Contract Settled) (h : ∀ event ∈ events, event.Keeps Settled) :
    Logged name (Event.runAll events db).1.changes db.tables[name]?
      (Event.runAll events db).2.tables[name]? := by
  induction events generalizing db with
  | nil => exact nil _
  | cons event events ih =>
    have hnext := Event.coherent_run hdb hc (h event List.mem_cons_self)
    have hlater := ih hnext fun other hother => h other (List.mem_cons_of_mem _ hother)
    have hall := (of_event event hdb.current).trans hlater
    simpa [Event.runAll] using hall

end Logged

/-! ## Tables as logs -/

namespace Database

/-- Over every run from an opened database: a table is there when it was
loaded or has been made since; it is the log of its insertions; it stays
with its columns, and its rows stay at the head of all later ones; and
loading the tables at any point changes nothing. -/
def LogsInsertions (Settled : σ → Prop) : Prop :=
  ∀ {storage : σ} {db : Database σ} {first second : List (Event σ)}, Settled storage →
    Database.load storage = .ok db → (∀ event ∈ first ++ second, event.Keeps Settled) →
    (∀ name, name ∈ (Event.runAll first db).2.tables ↔
      name ∈ db.tables ∨ creations name (Event.runAll first db).1.changes ≠ []) ∧
    (∀ name, Logged name (Event.runAll first db).1.changes db.tables[name]?
      (Event.runAll first db).2.tables[name]?) ∧
    (∀ (name : String) (table : Table), (Event.runAll first db).2.tables[name]? = some table →
      ∃ grown : Table, (Event.runAll (first ++ second) db).2.tables[name]? = some grown ∧
        grown.columns = table.columns ∧ table.rows <+: grown.rows) ∧
    (Event.runAll first db).2.loadTables = (.ok (), (Event.runAll first db).2)

/-- **Over a storage that keeps the contract tables are logs.** -/
theorem logsInsertions_of_contract (hc : Storage.Contract Settled) : LogsInsertions Settled := by
  intro storage db first second hs hload hkeeps
  obtain ⟨hcoherent, -⟩ := coherent_of_load hs hload
  have hfirst : ∀ event ∈ first, event.Keeps Settled :=
    fun event hevent => hkeeps event (List.mem_append_left _ hevent)
  have hsecond : ∀ event ∈ second, event.Keeps Settled :=
    fun event hevent => hkeeps event (List.mem_append_right _ hevent)
  have hnow := Event.coherent_runAll hcoherent hc hfirst
  have hlog : ∀ name, Logged name (Event.runAll first db).1.changes db.tables[name]?
      (Event.runAll first db).2.tables[name]? := fun _ => Logged.of_runAll hcoherent hc hfirst
  refine ⟨fun name => ?_, hlog, fun name table htable => ?_, hnow.current.loadTables⟩
  · rw [Std.ExtTreeMap.mem_iff_isSome_getElem?, Std.ExtTreeMap.mem_iff_isSome_getElem?]
    exact (hlog name).present_iff
  · -- What is there now is where the log of the second part begins.
    have hlater : Logged name _ _ _ := Logged.of_runAll hnow hc hsecond
    rw [htable] at hlater
    rw [Event.runAll_append]
    exact hlater.isPrefix

/-- **A table is the log of its insertions**, in memory and in a directory,
nor is a row lost where stores fail at any time. -/
theorem logsInsertions : LogsInsertions (fun _ : MemoryStore => True) ∧
    LogsInsertions DirectoryStore.Settled ∧
    LogsInsertions (fun faulty : Faulty DirectoryStore => faulty.storage.Settled) := by
  refine ⟨?_, ?_, ?_⟩
  · exact logsInsertions_of_contract MemoryStore.contract
  · exact logsInsertions_of_contract DirectoryStore.contract
  · exact logsInsertions_of_contract (Faulty.contract DirectoryStore.contract)

/-- Of three rows the second one is refused, and the tables are loaded before
the third one. -/
theorem logsInsertions_with_refusal :
    let insertion (text : String) : Insert := ⟨"t", ["x"], [.text text]⟩
    let first : List (Event MemoryStore) :=
      [.ask (.createTable "t" ["x"]), .ask (.execute (.insert (insertion "1"))),
        Event.switchWrites true, .ask (.execute (.insert (insertion "2"))), .ask .loadTables,
        Event.switchWrites false, .ask (.execute (.insert (insertion "3")))]
    let changes := (Event.runAll first (.empty {})).1.changes
    creations "t" changes = [["x"]] ∧ insertions "t" changes = [insertion "1", insertion "3"] ∧
      Logged "t" changes none (Event.runAll first (.empty {})).2.tables["t"]? := by
  intro insertion first changes
  have hkeeps : ∀ event ∈ first ++ [], event.Keeps fun _ => True := by
    simp only [first, List.append_nil, List.forall_mem_cons]
    exact ⟨trivial, trivial, Event.keeps_switchWrites true, trivial, trivial,
      Event.keeps_switchWrites false, trivial, by simp⟩
  have hload : load ({} : MemoryStore) = .ok (.empty {}) := rfl
  obtain ⟨-, hlog, -⟩ := logsInsertions.1 trivial hload hkeeps
  exact ⟨by decide, by decide, hlog "t"⟩

/-- Loading the tables brings in one that is listed and was not there. -/
theorem Unveils.loadTables_ne {store : DirectoryStore} (h : Unveils store) :
    (withTable store).loadTables ≠ (.ok (), withTable store) := by
  intro hsame
  obtain ⟨-, names, found, hnames, hfound, htables⟩ := loadTables_eq_ok hsame
  have hmem := h.listed names hnames
  have hread : found "u" = some ⟨"u", ["x"], []⟩ :=
    Except.ok.inj ((hfound "u" hmem).symm.trans h.stored)
  have hloaded := htables "u"
  rw [if_pos hmem, hread] at hloaded
  cases h.absent.symm.trans hloaded

/-- Where tables are logs, loading them changes nothing once a table is made. -/
theorem LogsInsertions.loadTables_withTable {Settled : DirectoryStore → Prop}
    (h : LogsInsertions Settled) {store : DirectoryStore} (hs : Settled store)
    (hload : load store = .ok (.empty store)) :
    (withTable store).loadTables = (.ok (), withTable store) := by
  have hkeeps : ∀ event ∈ [Event.ask (.createTable "t" ["x"])] ++ [], event.Keeps Settled := by
    simp [Event.Keeps]
  obtain ⟨-, -, -, hsame⟩ := h hs hload hkeeps
  exact hsame

/-- **The directory must be within reach, and no document a link**: one that
comes to light when a table is made has a second table, which the next load
brings in, and so has one in which a link leads to the table that is made. -/
theorem not_logsInsertions :
    ¬ LogsInsertions (fun store : DirectoryStore => store.disk.IsTree ∧ store.Unlinked) ∧
      ¬ LogsInsertions (fun store : DirectoryStore =>
        store.disk.IsTree ∧ store.disk.hasEntry store.directory = true) := by
  refine ⟨fun h => ?_, fun h => ?_⟩
  · exact unveils.1.loadTables_ne
      (h.loadTables_withTable ⟨isTree_secluded, unlinked_secluded⟩ unveils.1.load)
  · exact unveils.2.loadTables_ne
      (h.loadTables_withTable ⟨isTree_vacant_place _ _, hasEntry_linked⟩ unveils.2.load)

end Database

end ShardStore

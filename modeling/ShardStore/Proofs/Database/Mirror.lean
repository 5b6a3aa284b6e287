import ShardStore.Proofs.Database.Reopen
import ShardStore.Proofs.Storage.Mirror
/-!
# Databases — the same over a mirror

Over two mirrored storages a database behaves the same: each operation has
the same outcome and leaves the same tables over related storages, or a call
to the file system has failed in the second (`Follows`). So whole
histories have the same outcomes where no such call fails, with every
document and every list of tables the same all along. With documents in
memory on the one side and a fresh directory on the other this says that the
two storages cannot be told apart.
-/

namespace ShardStore

open Text

variable {σ τ : Type} {Related : σ → τ → Prop}

/-- Two databases with the same tables over related storages. -/
structure Alike (Related : σ → τ → Prop) (first : Database σ) (second : Database τ) : Prop where
  tables : second.tables = first.tables
  storage : Related first.storage second.storage

/-- The second result is that of a failed call to the file system, or it is
the first one, and the databases are alike. -/
def Follows {ε α : Type} (Related : σ → τ → Prop) (isDisk : ε → Bool)
    (first : Except ε α × Database σ) (second : Except ε α × Database τ) : Prop :=
  (∃ e, second.1 = .error e ∧ isDisk e = true) ∨
    second.1 = first.1 ∧ Alike Related first.2 second.2

theorem Follows.yielding {α : Type} {first : Except DatabaseError α × Database σ}
    {second : Except DatabaseError α × Database τ}
    (h : Follows Related DatabaseError.isDisk first second) (yield : α → Operation.Yield) :
    Follows Related DatabaseError.isDisk (Operation.yielding yield first)
      (Operation.yielding yield second) := by
  obtain ⟨outcome, mirrored⟩ := first
  obtain ⟨outcome', later⟩ := second
  obtain ⟨e, rfl, he⟩ | ⟨rfl, halike⟩ := h
  · exact .inl ⟨e, rfl, he⟩
  · exact .inr ⟨rfl, halike⟩

variable [Storage σ] [Storage τ]

/-- Fragments are stored in the mirror as far as in the storage. -/
theorem Database.storeFragments_mirrored (hm : Storage.Mirrors Related) {first : σ} {second : τ}
    {fragments : List Fragment} (h : Related first second)
    (hid : ∀ fragment ∈ fragments, isIdentifier fragment.table = true) :
    (∃ (e : StorageError) (later : τ),
      Database.storeFragments second fragments = (.error e, later) ∧ e.isDisk = true) ∨
    ∃ (outcome : Except StorageError Unit) (mirrored : σ) (later : τ),
      Database.storeFragments first fragments = (outcome, mirrored) ∧
      Database.storeFragments second fragments = (outcome, later) ∧ Related mirrored later := by
  induction fragments generalizing first second with
  | nil => exact .inr ⟨.ok (), first, second, rfl, rfl, h⟩
  | cons fragment fragments ih =>
    obtain ⟨hfragment, hrest⟩ := List.forall_mem_cons.1 hid
    have hkey : isIdentifier
        (DocumentKey.mk fragment.table (some fragment.id)).table = true := hfragment
    unfold Database.storeFragments
    rcases hm.store h hkey fragment.document with
      ⟨e, later, hstore, he⟩ | ⟨outcome, mirrored, later, hfirst, hsecond, hrelated⟩
    · exact .inl ⟨e, later, by simp only [hstore], he⟩
    · simp only [hfirst, hsecond]
      cases outcome with
      | error e => exact .inr ⟨.error e, mirrored, later, rfl, rfl, hrelated⟩
      | ok => exact ih hrelated hrest

namespace Alike

variable {first : Database σ} {second : Database τ}

/-! ## Loading -/

theorem storedTable (h : Alike Related first second) (hm : Storage.Mirrors Related) {name : String}
    (hid : isIdentifier name = true) :
    Storage.storedTable second.storage name = Storage.storedTable first.storage name := by
  have hkey : isIdentifier (DocumentKey.base name).table = true := hid
  simp only [Storage.storedTable, hm.load h.storage hkey]

/-- Loading reads, and what is read is the same. -/
theorem loadNamed (h : Alike Related first second) (hm : Storage.Mirrors Related)
    {names : List String} (hid : ∀ name ∈ names, isIdentifier name = true) :
    (second.loadNamed names).1 = (first.loadNamed names).1 ∧
      Alike Related (first.loadNamed names).2 (second.loadNamed names).2 := by
  induction names generalizing first second with
  | nil => exact ⟨rfl, h⟩
  | cons name names ih =>
    obtain ⟨hname, hrest⟩ := List.forall_mem_cons.1 hid
    rw [Database.loadNamed_cons, Database.loadNamed_cons, h.storedTable hm hname]
    cases Storage.storedTable first.storage name with
    | error e => exact ⟨rfl, h⟩
    | ok found =>
      cases found with
      | none => exact ih h hrest
      | some table => exact ih ⟨congrArg (·.insert name table) h.tables, h.storage⟩ hrest

theorem loadTables (h : Alike Related first second) (hm : Storage.Mirrors Related) :
    second.loadTables.1 = first.loadTables.1 ∧
      Alike Related first.loadTables.2 second.loadTables.2 := by
  have hnames := hm.names h.storage
  unfold Database.loadTables
  cases hlisted : Storage.tableNames second.storage with
  | error e =>
    rw [← hnames, hlisted]
    exact ⟨rfl, h⟩
  | ok names =>
    rw [← hnames, hlisted]
    exact h.loadNamed hm (hm.listed h.storage hlisted)

/-! ## Changing -/

theorem createTable (h : Alike Related first second) (hm : Storage.Mirrors Related)
    (name : String) (columns : List String) :
    Follows Related DatabaseError.isDisk (first.createTable name columns)
      (second.createTable name columns) := by
  unfold Database.createTable
  rw [h.tables]
  by_cases hnew : name ∈ first.tables
  · rw [if_pos hnew, if_pos hnew]
    exact .inr ⟨rfl, h⟩
  · rw [if_neg hnew, if_neg hnew]
    cases htable : Table.create name columns with
    | error e => exact .inr ⟨rfl, h⟩
    | ok table =>
      have hid : isIdentifier (DocumentKey.base name).table = true := by
        have hwf := Table.wellFormed_of_create htable
        obtain ⟨-, rfl⟩ := Table.create_eq_ok_iff.1 htable
        exact hwf.name
      rcases hm.store h.storage hid table.document with
        ⟨e, later, hstore, he⟩ | ⟨outcome, mirrored, later, hfirst, hsecond, hrelated⟩
      · refine .inl ⟨.storage e, ?_, he⟩
        simp only [hstore]
      · simp only [hfirst, hsecond]
        cases outcome with
        | error e => exact .inr ⟨rfl, rfl, hrelated⟩
        | ok => exact .inr ⟨rfl, rfl, hrelated⟩

theorem insert (h : Alike Related first second) (hm : Storage.Mirrors Related)
    (hwf : first.tables.WellFormed) (addition : Insert) :
    Follows Related ExecutionError.isDisk (first.insert addition) (second.insert addition) := by
  unfold Database.insert
  rw [h.tables]
  cases htable : first.tables[addition.table]? with
  | none => exact .inr ⟨rfl, h⟩
  | some table =>
    cases hrow : table.buildRow addition.columns addition.values with
    | error e => exact .inr ⟨by simp only [hrow], by simpa only [hrow] using h⟩
    | ok row =>
      have hid : isIdentifier (DocumentKey.base table.name).table = true := (hwf _ _ htable).2.name
      simp only [hrow]
      rcases hm.store h.storage hid (table.push row).document with
        ⟨e, later, hstore, he⟩ | ⟨outcome, mirrored, later, hfirst, hsecond, hrelated⟩
      · refine .inl ⟨.storage e, ?_, he⟩
        simp only [hstore]
      · simp only [hfirst, hsecond]
        cases outcome with
        | error e => exact .inr ⟨rfl, rfl, hrelated⟩
        | ok => exact .inr ⟨rfl, rfl, hrelated⟩

/-! ## Statements -/

theorem execute (h : Alike Related first second) (hm : Storage.Mirrors Related)
    (hwf : first.tables.WellFormed) (statement : Statement) :
    Follows Related DatabaseError.isDisk (first.execute statement) (second.execute statement) := by
  cases statement with
  | select query =>
    simp only [Database.execute, h.tables]
    cases query.run first.tables with
    | error e => exact .inr ⟨rfl, h⟩
    | ok answer => exact .inr ⟨rfl, h⟩
  | insert addition =>
    have hinsert := h.insert hm hwf addition
    simp only [Database.execute]
    revert hinsert
    rcases first.insert addition with ⟨outcome, mirrored⟩
    rcases second.insert addition with ⟨outcome', later⟩
    rintro (⟨e, rfl, he⟩ | ⟨rfl, halike⟩)
    · exact .inl ⟨.execution e, rfl, he⟩
    · cases outcome' with
      | error e => exact .inr ⟨rfl, halike⟩
      | ok => exact .inr ⟨rfl, halike⟩

theorem executeText (h : Alike Related first second) (hm : Storage.Mirrors Related)
    (hwf : first.tables.WellFormed) (text : String) :
    Follows Related DatabaseError.isDisk (first.executeText text) (second.executeText text) := by
  unfold Database.executeText
  cases Statement.parse text with
  | error e => exact .inr ⟨rfl, h⟩
  | ok statement => exact h.execute hm hwf statement

/-! ## Splitting -/

theorem scatter (h : Alike Related first second) (hm : Storage.Mirrors Related)
    (hwf : first.tables.WellFormed) {operation : Operation} {name : String}
    {cut : Table → Except ExecutionError (List Fragment)}
    (hop : operation.cut? = some (name, cut)) :
    Follows Related DatabaseError.isDisk (first.scatter name cut) (second.scatter name cut) := by
  unfold Database.scatter
  rw [h.tables]
  cases htable : first.tables[name]? with
  | none => exact .inr ⟨rfl, h⟩
  | some table =>
    cases hcut : cut table with
    | error e => exact .inr ⟨by simp only [hcut], by simpa only [hcut] using h⟩
    | ok fragments =>
      have hid : ∀ fragment ∈ fragments, isIdentifier fragment.table = true := by
        intro fragment hmem
        rw [Operation.table_of_mem_cut hop hcut fragment hmem]
        exact (hwf _ _ htable).2.name
      simp only [hcut]
      rcases Database.storeFragments_mirrored hm h.storage hid with
        ⟨e, later, hstore, he⟩ | ⟨outcome, mirrored, later, hfirst, hsecond, hrelated⟩
      · refine .inl ⟨.storage e, ?_, he⟩
        simp only [hstore]
      · simp only [hfirst, hsecond]
        cases outcome with
        | error e => exact .inr ⟨rfl, rfl, hrelated⟩
        | ok => exact .inr ⟨rfl, rfl, hrelated⟩

/-! ## Operations and requests -/

/-- **Every operation has the same outcome**, or a call to the file system
has failed in the second. -/
theorem run (h : Alike Related first second) (hm : Storage.Mirrors Related)
    (hwf : first.tables.WellFormed) (operation : Operation) :
    Follows Related DatabaseError.isDisk (operation.run first) (operation.run second) := by
  cases operation with
  | executeText text => exact (h.executeText hm hwf text).yielding _
  | execute statement => exact (h.execute hm hwf statement).yielding _
  | createTable name columns => exact (h.createTable hm name columns).yielding _
  | scaleHorizontally name size =>
    have hop : (Operation.scaleHorizontally name size).cut? = some (name, (·.shards size)) := rfl
    exact (h.scatter hm hwf hop).yielding _
  | scaleVertically name groups =>
    have hop : (Operation.scaleVertically name groups).cut? = some (name, (·.partitions groups)) :=
      rfl
    exact (h.scatter hm hwf hop).yielding _
  | loadTables => exact Follows.yielding (.inr (h.loadTables hm)) _

/-- A database that is opened anew is opened anew over the mirror too. -/
theorem reopen (h : Alike Related first second) (hm : Storage.Mirrors Related) :
    (Request.reopen.run second).1 = (Request.reopen.run first).1 ∧
      Alike Related (Request.reopen.run first).2 (Request.reopen.run second).2 := by
  have hempty : Alike Related (.empty first.storage) (.empty second.storage) := ⟨rfl, h.storage⟩
  have hload := hempty.loadTables hm
  simp only [Request.run, Database.load]
  revert hload
  rcases (Database.empty first.storage).loadTables with ⟨outcome, opened⟩
  rcases (Database.empty second.storage).loadTables with ⟨outcome', opened'⟩
  rintro ⟨rfl, hopened⟩
  cases outcome' with
  | error e => exact ⟨rfl, h⟩
  | ok => exact ⟨rfl, hopened⟩

theorem request (h : Alike Related first second) (hm : Storage.Mirrors Related)
    (hwf : first.tables.WellFormed) (request : Request) :
    Follows Related DatabaseError.isDisk (request.run first) (request.run second) := by
  cases request with
  | ask operation => exact h.run hm hwf operation
  | reopen => exact .inr (h.reopen hm)

end Alike

/-- No request lets an ill-formed table in. -/
theorem Request.wellFormed_run (request : Request) {db : Database σ} (h : db.tables.WellFormed) :
    (request.run db).2.tables.WellFormed := by
  cases request with
  | ask operation => exact operation.wellFormed_run h
  | reopen =>
    simp only [run]
    split
    · exact h
    · next reopened hload => exact Database.wellFormed_of_load hload

/-- **A whole history has the same outcomes** where no call to the file
system fails, and it leaves alike databases. -/
theorem Alike.runAll {first : Database σ} {second : Database τ} {requests : List Request}
    (h : Alike Related first second) (hm : Storage.Mirrors Related)
    (hwf : first.tables.WellFormed)
    (hcalls : ∀ e, .error e ∈ (Request.runAll requests second).1 → e.isDisk = false) :
    (Request.runAll requests second).1 = (Request.runAll requests first).1 ∧
      Alike Related (Request.runAll requests first).2 (Request.runAll requests second).2 := by
  induction requests generalizing first second with
  | nil => exact ⟨rfl, h⟩
  | cons request requests ih =>
    rcases h.request hm hwf request with ⟨e, he, hdisk⟩ | ⟨houtcome, halike⟩
    · have hfine : e.isDisk = false := hcalls e (by rw [Request.runAll, he]; exact List.mem_cons_self)
      rw [hdisk] at hfine
      cases hfine
    · obtain ⟨hrest, hlast⟩ := ih halike (request.wellFormed_run hwf)
        fun e he => hcalls e (List.mem_cons_of_mem _ he)
      exact ⟨congr (congrArg List.cons houtcome) hrest, hlast⟩

namespace Database

/-- **A directory behaves as documents in memory do.** From a memory without
documents and from a fresh directory, every history of requests has the
same outcomes where no call to the file system fails; and at every point of
it both storages load the same document for every key and list the same
tables, in order. -/
theorem same_in_memory_and_directory {store : DirectoryStore} (h : store.Fresh)
    {requests : List Request}
    (hcalls : ∀ e, .error e ∈ (Request.runAll requests (.empty store)).1 → e.isDisk = false) :
    (Request.runAll requests (.empty store)).1 =
        (Request.runAll requests (.empty ({} : MemoryStore))).1 ∧
      ∀ done, done <+: requests →
        let memory := (Request.runAll done (.empty ({} : MemoryStore))).2.storage
        let directory := (Request.runAll done (.empty store)).2.storage
        (∀ key : DocumentKey, isIdentifier key.table = true →
          Storage.load directory key = Storage.load memory key) ∧
        ∃ names, Storage.tableNames directory = .ok names ∧
          Storage.tableNames memory = .ok names ∧ Ascending names := by
  have hstart : Alike DirectoryStore.Mirrored (.empty {}) (.empty store) := ⟨rfl, h.mirrored⟩
  obtain ⟨houtcomes, -⟩ := hstart.runAll DirectoryStore.mirrors Tables.wellFormed_empty hcalls
  refine ⟨houtcomes, ?_⟩
  rintro done ⟨rest, rfl⟩ memory directory
  obtain ⟨-, hdone⟩ := hstart.runAll DirectoryStore.mirrors Tables.wellFormed_empty
    fun e he => hcalls e (by rw [Request.runAll_append]; exact List.mem_append_left _ he)
  have hnames : Storage.tableNames memory = .ok memory.tableNames := rfl
  exact ⟨hdone.storage.load, _, hdone.storage.names, hnames, MemoryStore.inOrder hnames⟩

theorem fresh_vacant : vacant.Fresh :=
  ⟨isTree_vacant, by decide +kernel⟩

/-- A table is made, gets a row, cannot be made again and is cut: its partition
is loaded from the directory as from memory. -/
theorem same_in_vacant_directory :
    let requests : List Request := [.ask (.createTable "t" ["x"]),
      .ask (.execute (.insert ⟨"t", ["x"], [.text "1"]⟩)), .ask (.createTable "t" ["x"]),
      .ask (.scaleVertically "t" [["x"]])]
    (Request.runAll requests (.empty vacant)).1[2]? = some (.error (.execution (.tableExists "t"))) ∧
      Storage.load (Request.runAll requests (.empty vacant)).2.storage
        ⟨"t", some ⟨.partition, 0⟩⟩ = .ok (some ⟨["x"], [Row.ofPairs [("x", .text "1")]]⟩) := by
  intro requests
  have hfine : ((Request.runAll requests (.empty vacant)).1.all fun
      | .error e => !e.isDisk
      | .ok _ => true) = true := by decide +kernel
  have hcalls : ∀ e, .error e ∈ (Request.runAll requests (.empty vacant)).1 → e.isDisk = false := by
    intro e he
    simpa using List.all_eq_true.1 hfine _ he
  obtain ⟨houtcomes, hall⟩ := same_in_memory_and_directory fresh_vacant hcalls
  obtain ⟨hload, -⟩ := hall requests List.prefix_rfl
  have hpartition : isIdentifier
      (DocumentKey.mk "t" (some ⟨.partition, 0⟩)).table = true := rfl
  rw [houtcomes, hload _ hpartition]
  exact ⟨rfl, rfl⟩

end Database

end ShardStore

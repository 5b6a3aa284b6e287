import ShardStore.Proofs.Database.Coherence
/-!
# Databases — agreement is kept

One lemma for each thing that an operation can do to a storage: keep its
base documents, or attempt to store a table. From these each effect of an
operation keeps a database coherent, and so does each event of a run that
leaves the documents alone (`Event.Keeps`). Completeness is kept beside it,
over a storage that lists what it stores.
-/

namespace ShardStore

open Text

variable {σ : Type} [Storage σ] {Settled : σ → Prop} {db later : Database σ}

namespace Database

/-- A listed name is an identifier: another one would not have been loaded. -/
theorem Coherent.isIdentifier_of_listed (h : db.Coherent Settled) (hc : Storage.Contract Settled)
    {names : List String} (hnames : Storage.tableNames db.storage = .ok names) {name : String}
    (hname : name ∈ names) : isIdentifier name = true := by
  obtain ⟨listed, hlisted, hread⟩ := h.current
  obtain rfl : listed = names := Except.ok.inj (hlisted.symm.trans hnames)
  rcases hc.listed h.settled hnames hname with hid | ⟨document, hload⟩
  · exact hid
  · exact Storage.isIdentifier_of_storedTable hload (hread name hname)

/-- **A storage that keeps the base documents keeps the agreement.** -/
theorem Coherent.of_sameTables (h : db.Coherent Settled) (hc : Storage.Contract Settled)
    {storage : σ} (hs : Settled storage) (hsame : Storage.SameTables db.storage storage) :
    Coherent Settled { db with storage } := by
  refine ⟨hs, h.wellFormed, ?_⟩
  obtain ⟨names, hnames, hread⟩ := h.current
  obtain ⟨more, hmore, hiff⟩ := hsame.names names hnames
  refine ⟨more, hmore, fun name hname => ?_⟩
  have hin := (hiff name).1 hname
  have hid := h.isIdentifier_of_listed hc hnames hin
  rw [Storage.storedTable_congr (hsame.load name hid)]
  exact hread name hin

theorem Complete.of_sameTables (h : db.Complete) (hcurrent : db.Current) {storage : σ}
    (hsame : Storage.SameTables db.storage storage) : Complete { db with storage } := by
  intro listed hlisted name hname
  obtain ⟨names, hnames, -⟩ := hcurrent
  obtain ⟨more, hmore, hiff⟩ := hsame.names names hnames
  obtain rfl : more = listed := Except.ok.inj (hmore.symm.trans hlisted)
  exact (hiff name).2 (h names hnames name hname)

/-- Storing fragments keeps the base documents, however far it comes. -/
theorem storeFragments_sameTables (hc : Storage.Contract Settled) {storage : σ}
    {fragments : List Fragment} (hs : Settled storage)
    (hid : ∀ fragment ∈ fragments, isIdentifier fragment.table = true) :
    Settled (storeFragments storage fragments).2 ∧
      Storage.SameTables storage (storeFragments storage fragments).2 := by
  induction fragments generalizing storage with
  | nil => exact ⟨hs, .refl _⟩
  | cons fragment fragments ih =>
    have hfirst := hid fragment List.mem_cons_self
    have hrest : ∀ other ∈ fragments, isIdentifier other.table = true :=
      fun other hother => hid other (List.mem_cons_of_mem _ hother)
    unfold storeFragments
    split
    · next e middle hstore =>
      -- The fragments that are left are not attempted.
      obtain ⟨hmiddle, hsame⟩ := hc.refused hs hstore hfirst
      exact ⟨hmiddle, hsame.sameTables⟩
    · next middle hstore =>
      obtain ⟨hmiddle, hstored⟩ := hc.stored hs hstore hfirst
      obtain ⟨hlast, hsame⟩ := ih hmiddle hrest
      exact ⟨hlast, hstored.sameTables.trans hsame⟩

/-- Loading does not touch the storage. -/
theorem storage_loadNamed (db : Database σ) (names : List String) :
    (db.loadNamed names).2.storage = db.storage := by
  induction names generalizing db with
  | nil => rfl
  | cons name names ih =>
    rw [loadNamed_cons]
    cases Storage.storedTable db.storage name with
    | error e => rfl
    | ok found =>
      cases found with
      | none => exact ih db
      | some table => exact ih ⟨db.tables.insert name table, db.storage⟩

theorem storage_loadTables (db : Database σ) : db.loadTables.2.storage = db.storage := by
  unfold loadTables
  split
  · rfl
  · exact storage_loadNamed db _

end Database

/-! ## An attempt to store a table -/

namespace Attempt

variable {name : String} {table : Table} {outcome : Except StorageError Unit}

/-- **An attempt keeps the agreement**: where it is done the table is both
loaded and stored, and where it is refused it is neither. -/
theorem coherent (h : Attempt db name table outcome later) (hdb : db.Coherent Settled)
    (hc : Storage.Contract Settled) (hname : table.name = name) (htable : table.WellFormed) :
    later.Coherent Settled := by
  subst hname
  cases h with
  | refused hstore =>
    obtain ⟨hs, hsame⟩ := hc.refused hdb.settled hstore htable.name
    exact hdb.of_sameTables hc hs hsame.sameTables
  | done hstore =>
    obtain ⟨hs, hstored⟩ := hc.stored hdb.settled hstore htable.name
    refine ⟨hs, hdb.wellFormed.insert rfl htable, ?_⟩
    obtain ⟨names, hnames, hread⟩ := hdb.current
    obtain ⟨more, hmore, -, hnew⟩ := hstored.names names hnames
    refine ⟨more, hmore, fun other hother => ?_⟩
    rw [Std.ExtTreeMap.getElem?_insert]
    by_cases heq : table.name = other
    · subst heq
      simpa using hstored.storedTable htable
    · -- Another name was listed before, and its document is the one it was.
      have hne : DocumentKey.base other ≠ .base table.name := fun h => by cases h; exact heq rfl
      have hin : other ∈ names := (hnew other hother).resolve_right fun h => hne h.symm
      have hid := hdb.isIdentifier_of_listed hc hnames hin
      rw [Storage.storedTable_congr (hstored.elsewhere _ hid hne), hread other hin]
      simp [heq]

/-- An attempt leaves the storage settled, whether it is refused or done. -/
theorem settled (h : Attempt db name table outcome later) (hc : Storage.Contract Settled)
    (hs : Settled db.storage) (htable : isIdentifier table.name = true) :
    Settled later.storage := by
  cases h with
  | refused hstore => exact (hc.refused hs hstore htable).1
  | done hstore => exact (hc.stored hs hstore htable).1

theorem complete (h : Attempt db name table outcome later) (hall : db.Complete)
    (hdb : db.Coherent Settled) (hc : Storage.Contract Settled) (hl : Storage.Lists Settled)
    (hname : table.name = name) (htable : table.WellFormed) : later.Complete := by
  subst hname
  cases h with
  | refused hstore =>
    obtain ⟨-, hsame⟩ := hc.refused hdb.settled hstore htable.name
    exact hall.of_sameTables hdb.current hsame.sameTables
  | done hstore =>
    intro listed hlisted other hother
    obtain ⟨-, hstored⟩ := hc.stored hdb.settled hstore htable.name
    rcases Std.ExtTreeMap.mem_insert.1 hother with heq | hold
    · rw [← Std.LawfulEqCmp.eq_of_compare heq]
      exact hl hdb.settled hstore htable.name hlisted
    · obtain ⟨names, hnames, -⟩ := hdb.current
      obtain ⟨more, hmore, hkept, -⟩ := hstored.names names hnames
      obtain rfl : more = listed := Except.ok.inj (hmore.symm.trans hlisted)
      exact hkept other (hall names hnames other hold)

end Attempt

/-! ## Operations and events -/

namespace Operation.Effect

variable {operation : Operation} {outcome : Except DatabaseError Operation.Yield}

/-- Storing the fragments of a loaded table keeps the base documents. -/
theorem sameTables_of_cut (hdb : db.Coherent Settled) (hc : Storage.Contract Settled)
    {name : String} {cut : Table → Except ExecutionError (List Fragment)} {table : Table}
    {fragments : List Fragment} (hop : operation.cut? = some (name, cut))
    (htable : db.tables[name]? = some table) (hcut : cut table = .ok fragments) :
    Settled (Database.storeFragments db.storage fragments).2 ∧
      Storage.SameTables db.storage (Database.storeFragments db.storage fragments).2 := by
  refine Database.storeFragments_sameTables hc hdb.settled fun fragment hmem => ?_
  rw [table_of_mem_cut hop hcut fragment hmem]
  exact (hdb.wellFormed name table htable).2.name

/-- Every effect leaves the storage settled. -/
theorem settled (h : Effect db operation outcome later) (hdb : db.tables.WellFormed)
    (hc : Storage.Contract Settled) (hs : Settled db.storage) : Settled later.storage := by
  cases h with
  | refused => exact hs
  | selected => exact hs
  | created _ htable hatt => exact hatt.settled hc hs (Table.wellFormed_of_create htable).name
  | inserted _ htable hrow hatt => exact hatt.settled hc hs (hdb.push htable hrow).2.name
  | cut hop htable hcut =>
    refine (Database.storeFragments_sameTables hc hs fun fragment hmem => ?_).1
    rw [table_of_mem_cut hop hcut fragment hmem]
    exact (hdb _ _ htable).2.name
  | loaded => exact db.storage_loadTables ▸ hs

/-- **Every effect keeps the agreement.** -/
theorem coherent (h : Effect db operation outcome later) (hdb : db.Coherent Settled)
    (hc : Storage.Contract Settled) : later.Coherent Settled := by
  cases h with
  | refused => exact hdb
  | selected => exact hdb
  | created _ htable hatt =>
    have hwf := Table.wellFormed_of_create htable
    obtain ⟨-, rfl⟩ := Table.create_eq_ok_iff.1 htable
    exact hatt.coherent hdb hc rfl hwf
  | inserted _ htable hrow hatt =>
    obtain ⟨hname, hwf⟩ := hdb.wellFormed.push htable hrow
    exact hatt.coherent hdb hc hname hwf
  | cut hop htable hcut =>
    obtain ⟨hs, hsame⟩ := sameTables_of_cut hdb hc hop htable hcut
    exact hdb.of_sameTables hc hs hsame
  | loaded =>
    rw [hdb.current.loadTables]
    exact hdb

theorem complete (h : Effect db operation outcome later) (hall : db.Complete)
    (hdb : db.Coherent Settled) (hc : Storage.Contract Settled) (hl : Storage.Lists Settled) :
    later.Complete := by
  cases h with
  | refused => exact hall
  | selected => exact hall
  | created _ htable hatt =>
    have hwf := Table.wellFormed_of_create htable
    obtain ⟨-, rfl⟩ := Table.create_eq_ok_iff.1 htable
    exact hatt.complete hall hdb hc hl rfl hwf
  | inserted _ htable hrow hatt =>
    obtain ⟨hname, hwf⟩ := hdb.wellFormed.push htable hrow
    exact hatt.complete hall hdb hc hl hname hwf
  | cut hop htable hcut =>
    obtain ⟨-, hsame⟩ := sameTables_of_cut hdb hc hop htable hcut
    exact hall.of_sameTables hdb.current hsame
  | loaded =>
    rw [hdb.current.loadTables]
    exact hall

end Operation.Effect

namespace Event

/-- An event that leaves the documents alone: whatever is asked of the
database, and a change of the storage that keeps it settled and shows the
documents it showed before. -/
def Keeps (Settled : σ → Prop) : Event σ → Prop
  | ask _ => True
  | change become => ∀ storage, Settled storage →
      Settled (become storage) ∧ Storage.SameDocuments storage (become storage)

/-- Switching the writes of a storage in memory changes no document. -/
theorem keeps_switchWrites (fail : Bool) : (switchWrites fail).Keeps fun _ => True :=
  fun _ _ => ⟨trivial, fun _ _ => rfl, fun names h => ⟨names, h, fun _ => Iff.rfl⟩⟩

theorem coherent_run {event : Event σ} (hdb : db.Coherent Settled) (hc : Storage.Contract Settled)
    (h : event.Keeps Settled) : (event.run db).2.Coherent Settled := by
  cases event with
  | ask operation => exact (operation.effect_run db).coherent hdb hc
  | change become =>
    obtain ⟨hs, hsame⟩ := h db.storage hdb.settled
    exact hdb.of_sameTables hc hs hsame.sameTables

theorem complete_run {event : Event σ} (hall : db.Complete) (hdb : db.Coherent Settled)
    (hc : Storage.Contract Settled) (hl : Storage.Lists Settled) (h : event.Keeps Settled) :
    (event.run db).2.Complete := by
  cases event with
  | ask operation => exact (operation.effect_run db).complete hall hdb hc hl
  | change become =>
    obtain ⟨-, hsame⟩ := h db.storage hdb.settled
    exact hall.of_sameTables hdb.current hsame.sameTables

/-- **A run keeps the agreement**, through whatever fails on the way. -/
theorem coherent_runAll {events : List (Event σ)} (hdb : db.Coherent Settled)
    (hc : Storage.Contract Settled) (h : ∀ event ∈ events, event.Keeps Settled) :
    (runAll events db).2.Coherent Settled := by
  induction events generalizing db with
  | nil => exact hdb
  | cons event events ih =>
    exact ih (coherent_run hdb hc (h event List.mem_cons_self))
      fun other hother => h other (List.mem_cons_of_mem _ hother)

theorem complete_runAll {events : List (Event σ)} (hall : db.Complete)
    (hdb : db.Coherent Settled) (hc : Storage.Contract Settled) (hl : Storage.Lists Settled)
    (h : ∀ event ∈ events, event.Keeps Settled) : (runAll events db).2.Complete := by
  induction events generalizing db with
  | nil => exact hall
  | cons event events ih =>
    have hfirst := h event List.mem_cons_self
    exact ih (complete_run hall hdb hc hl hfirst) (coherent_run hdb hc hfirst)
      fun other hother => h other (List.mem_cons_of_mem _ hother)

end Event

/-- A database is coherent and complete when it has just been loaded. -/
theorem Database.coherent_of_load {storage : σ} (hs : Settled storage)
    (h : Database.load storage = .ok db) : db.Coherent Settled ∧ db.Complete := by
  have hwf := wellFormed_of_load h
  obtain ⟨rfl, hcurrent, hall⟩ := load_eq_ok h
  exact ⟨⟨hs, hwf, hcurrent⟩, hall⟩

end ShardStore

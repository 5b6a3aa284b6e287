import ShardStore.Proofs.Database.WellFormed
import ShardStore.Proofs.Storage.Contract
/-!
# Databases — tables and storage agree

The document of a table need not be the one that the table would be
written as: rows of a loaded document are brought into form in memory and
stay as they are in the storage until the next insertion. What is kept in
step is the table that a document is *read* as (`storedTable`), for every
listed name and in both directions. `Coherent` says so of a database over
a settled storage, and every operation preserves it: a fragment is no base
document, a refused store changes neither side, and loading puts in place
what is there already.
-/

namespace ShardStore

open Text

variable {σ : Type} [Storage σ]

/-- The table that the base document under a name is read as. -/
def Storage.storedTable (storage : σ) (name : String) : Except DatabaseError (Option Table) :=
  match Storage.load storage (.base name) with
  | .error e => .error (.storage e)
  | .ok none => .ok none
  | .ok (some document) =>
    match Table.ofDocument name document with
    | .error e => .error (.execution e)
    | .ok table => .ok (some table)

theorem Storage.storedTable_congr {storage later : σ} {name : String}
    (h : Storage.load later (.base name) = Storage.load storage (.base name)) :
    storedTable later name = storedTable storage name := by
  simp only [storedTable, h]

/-- A document that is read as a table stands under an identifier. -/
theorem Storage.isIdentifier_of_storedTable {storage : σ} {name : String} {document : Document}
    {found : Option Table} (hload : Storage.load storage (.base name) = .ok (some document))
    (h : storedTable storage name = .ok found) : isIdentifier name = true := by
  simp only [storedTable, hload] at h
  split at h
  · cases h
  · next table htable => exact (Table.ofDocument_eq_ok_iff.1 htable).1.1

/-- A well-formed table is read back once its document is stored. -/
theorem Storage.Stored.storedTable {storage later : σ} {table : Table}
    (h : Stored storage later (.base table.name) table.document) (htable : table.WellFormed) :
    storedTable later table.name = .ok (some table) := by
  simp only [Storage.storedTable, h.here, Table.ofDocument_document htable]

namespace Database

/-! ## Loading, name by name -/

variable {db : Database σ}

theorem loadNamed_cons (db : Database σ) (name : String) (names : List String) :
    db.loadNamed (name :: names) =
      match Storage.storedTable db.storage name with
      | .error e => (.error e, db)
      | .ok none => db.loadNamed names
      | .ok (some table) => loadNamed { db with tables := db.tables.insert name table } names := by
  rw [loadNamed, Storage.storedTable]
  cases hload : Storage.load db.storage (.base name) with
  | error e => rfl
  | ok stored =>
    cases stored with
    | none => rfl
    | some document => cases htable : Table.ofDocument name document <;> simp [htable]

/-- **Names that are all read as `found` says are all loaded**, and no other
table changes. -/
theorem loadNamed_eq_ok (db : Database σ) {names : List String} {found : String → Option Table}
    (h : ∀ name ∈ names, Storage.storedTable db.storage name = .ok (found name)) :
    ∃ tables, db.loadNamed names = (.ok (), ⟨tables, db.storage⟩) ∧
      ∀ name, tables[name]? = (if name ∈ names then found name else none).or db.tables[name]? := by
  induction names generalizing db with
  | nil => exact ⟨db.tables, rfl, by simp⟩
  | cons first names ih =>
    have hfirst := h first List.mem_cons_self
    have hrest : ∀ name ∈ names, Storage.storedTable db.storage name = .ok (found name) :=
      fun name hname => h name (List.mem_cons_of_mem _ hname)
    rw [loadNamed_cons, hfirst]
    cases hfound : found first with
    | none =>
      obtain ⟨tables, hload, htables⟩ := ih db hrest
      refine ⟨tables, hload, fun name => ?_⟩
      rw [htables name]
      by_cases hname : name = first
      · simp [hname, hfound]
      · simp [hname]
    | some table =>
      obtain ⟨tables, hload, htables⟩ := ih ⟨db.tables.insert first table, db.storage⟩ hrest
      refine ⟨tables, hload, fun name => ?_⟩
      rw [htables name]
      by_cases hname : name = first
      · -- A name that is listed twice is read the same both times.
        subst hname
        by_cases hmem : name ∈ names <;> simp [hmem, hfound]
      · have hne : first ≠ name := Ne.symm hname
        rw [Std.ExtTreeMap.getElem?_insert]
        simp [hname, hne]

/-- A load that succeeds has read every name. -/
theorem storedTable_of_loadNamed {names : List String} {later : Database σ}
    (h : db.loadNamed names = (.ok (), later)) :
    ∀ name ∈ names, ∃ found, Storage.storedTable db.storage name = .ok found := by
  induction names generalizing db with
  | nil => simp
  | cons first names ih =>
    rw [loadNamed_cons] at h
    rintro name (_ | ⟨_, hname⟩)
    · split at h
      · cases h
      · next heq => exact ⟨_, heq⟩
      · next heq => exact ⟨_, heq⟩
    · split at h
      · cases h
      · exact ih h name hname
      · exact ih h name hname

/-- What it leaves then: each name was read, and what was read as a table is
in the place of what was there. -/
theorem tables_of_loadNamed {names : List String} {later : Database σ}
    (h : db.loadNamed names = (.ok (), later)) :
    later.storage = db.storage ∧ ∃ found : String → Option Table,
      (∀ name ∈ names, Storage.storedTable db.storage name = .ok (found name)) ∧
      ∀ name, later.tables[name]? =
        (if name ∈ names then found name else none).or db.tables[name]? := by
  let found (name : String) : Option Table := (Storage.storedTable db.storage name).toOption.join
  have hfound : ∀ name ∈ names, Storage.storedTable db.storage name = .ok (found name) := by
    intro name hname
    obtain ⟨table, htable⟩ := storedTable_of_loadNamed h name hname
    simp [found, htable, Except.toOption]
  obtain ⟨tables, hload, htables⟩ := loadNamed_eq_ok db hfound
  rw [hload] at h
  cases h
  exact ⟨rfl, found, hfound, htables⟩

/-! ## The invariant -/

/-- Every listed name is read as the table that is loaded under it, and as
nothing where none is. -/
def Current (db : Database σ) : Prop :=
  ∃ names, Storage.tableNames db.storage = .ok names ∧
    ∀ name ∈ names, Storage.storedTable db.storage name = .ok db.tables[name]?

/-- Every loaded table is listed. -/
def Complete (db : Database σ) : Prop :=
  ∀ names, Storage.tableNames db.storage = .ok names → ∀ name ∈ db.tables, name ∈ names

/-- The tables of a database and its storage agree. -/
structure Coherent (Settled : σ → Prop) (db : Database σ) : Prop where
  settled : Settled db.storage
  wellFormed : db.tables.WellFormed
  current : db.Current

/-- **Loading a current database changes nothing.** -/
theorem Current.loadTables (h : db.Current) : db.loadTables = (.ok (), db) := by
  obtain ⟨names, hnames, hcurrent⟩ := h
  obtain ⟨tables, hload, htables⟩ := loadNamed_eq_ok db hcurrent
  have hsame : tables = db.tables := by
    refine Std.ExtTreeMap.ext_getElem? fun name => ?_
    rw [htables name]
    split <;> simp
  rw [Database.loadTables, hnames]
  simp only
  rw [hload, hsame]

/-- **And where it is complete, its storage is loaded as the database
itself.** -/
theorem Current.load (h : db.Current) (hall : db.Complete) : load db.storage = .ok db := by
  obtain ⟨names, hnames, hcurrent⟩ := h
  obtain ⟨tables, hload, htables⟩ := loadNamed_eq_ok (.empty db.storage) hcurrent
  have hsame : tables = db.tables := by
    refine Std.ExtTreeMap.ext_getElem? fun name => ?_
    have hempty : (empty db.storage).tables[name]? = none := by simp [empty]
    rw [htables name, hempty, Option.or_none]
    split
    · rfl
    · next hout =>
      exact (Std.ExtTreeMap.getElem?_eq_none fun hin => hout (hall names hnames name hin)).symm
  have hstep : (empty db.storage).loadTables = (.ok (), db) := by
    have hlisted : Storage.tableNames (empty db.storage).storage = .ok names := hnames
    rw [Database.loadTables, hlisted]
    simp only
    rw [hload, hsame]
    rfl
  rw [Database.load, hstep]

/-- What loading the tables leaves where it succeeds: each listed name was
read, and what was read as a table is in the place of what was there. -/
theorem loadTables_eq_ok {later : Database σ} (h : db.loadTables = (.ok (), later)) :
    later.storage = db.storage ∧ ∃ (names : List String) (found : String → Option Table),
      Storage.tableNames db.storage = .ok names ∧
      (∀ name ∈ names, Storage.storedTable db.storage name = .ok (found name)) ∧
      ∀ name, later.tables[name]? =
        (if name ∈ names then found name else none).or db.tables[name]? := by
  unfold Database.loadTables at h
  split at h
  · cases h
  · next names hnames =>
    obtain ⟨hstorage, found, hread, htables⟩ := tables_of_loadNamed h
    exact ⟨hstorage, names, found, hnames, hread, htables⟩

/-- What a load that succeeded leaves: the storage it was given, and the
tables that its listed names are read as. -/
theorem load_eq_ok {storage : σ} (h : Database.load storage = .ok db) :
    db.storage = storage ∧ db.Current ∧ db.Complete := by
  have hstep : (empty storage).loadTables = (.ok (), db) := by
    unfold Database.load at h
    split at h
    · next heq => cases h; exact heq
    · cases h
  obtain ⟨hstorage, names, found, hnames, hfound, htables⟩ := loadTables_eq_ok hstep
  have hget : ∀ name, db.tables[name]? = if name ∈ names then found name else none := by
    intro name
    rw [htables name]
    simp [empty]
  have hlisted : Storage.tableNames db.storage = .ok names := by rw [hstorage]; exact hnames
  refine ⟨hstorage, ⟨names, hlisted, fun name hname => ?_⟩, fun other hother name hname => ?_⟩
  · rw [hget name, if_pos hname, hstorage]
    exact hfound name hname
  · -- Before the load there was no table, so each one is that of a listed name.
    obtain rfl : names = other := Except.ok.inj (hlisted.symm.trans hother)
    have hsome : db.tables[name]?.isSome = true := Std.ExtTreeMap.mem_iff_isSome_getElem?.1 hname
    rw [hget name] at hsome
    split at hsome
    · next hin => exact hin
    · cases hsome

end Database

end ShardStore

import ShardStore.Query
import ShardStore.Statement.Reader
import ShardStore.Storage
/-!
# Databases

A database is the loaded tables together with a storage. Every change of a
table is written to the storage as a whole document, and a table changes
only when its document was written. Fragments are written one after the
other, up to the first that the storage refuses.
-/

namespace ShardStore

/-- The loaded tables, and the storage they come from. -/
structure Database (σ : Type) where
  tables : Tables
  storage : σ

namespace Database

variable {σ : Type}

/-- The database without tables over a storage. -/
def empty (storage : σ) : Database σ :=
  ⟨∅, storage⟩

/-- The names of the loaded tables, in order. -/
def tableNames (db : Database σ) : List String :=
  db.tables.keys

variable [Storage σ]

/-! ## Loading -/

/-- Loads the base documents of the named tables in order, up to the first
that cannot be loaded. A loaded table replaces the one of its name. -/
def loadNamed (db : Database σ) : List String → Except DatabaseError Unit × Database σ
  | [] => (.ok (), db)
  | name :: names =>
    match Storage.load db.storage (.base name) with
    | .error e => (.error (.storage e), db)
    | .ok none => db.loadNamed names
    | .ok (some document) =>
      match Table.ofDocument name document with
      | .error e => (.error (.execution e), db)
      | .ok table => loadNamed { db with tables := db.tables.insert name table } names

/-- Loads every table that the storage has. -/
def loadTables (db : Database σ) : Except DatabaseError Unit × Database σ :=
  match Storage.tableNames db.storage with
  | .error e => (.error (.storage e), db)
  | .ok names => db.loadNamed names

/-- The database of all tables that a storage has. -/
def load (storage : σ) : Except DatabaseError (Database σ) :=
  match (empty storage).loadTables with
  | (.ok (), db) => .ok db
  | (.error e, _) => .error e

/-! ## Changing -/

/-- Makes an empty table and stores it. -/
def createTable (db : Database σ) (name : String) (columns : List String) :
    Except DatabaseError Unit × Database σ :=
  if name ∈ db.tables then (.error (.execution (.tableExists name)), db)
  else
    match Table.create name columns with
    | .error e => (.error (.execution e), db)
    | .ok table =>
      match Storage.store db.storage (.base name) table.document with
      | (.error e, storage) => (.error (.storage e), { db with storage })
      | (.ok (), storage) => (.ok (), ⟨db.tables.insert name table, storage⟩)

/-- Adds a row to a table and stores the table. The row is taken back if the
table is not stored. -/
def insert (db : Database σ) (addition : Insert) : Except ExecutionError Unit × Database σ :=
  match db.tables[addition.table]? with
  | none => (.error (.unknownTable addition.table), db)
  | some table =>
    match table.buildRow addition.columns addition.values with
    | .error e => (.error e, db)
    | .ok row =>
      match Storage.store db.storage (.base table.name) (table.push row).document with
      | (.error e, storage) =>
        (.error (.storage e), ⟨db.tables.insert addition.table (table.push row).pop, storage⟩)
      | (.ok (), storage) => (.ok (), ⟨db.tables.insert addition.table (table.push row), storage⟩)

/-! ## Statements -/

/-- Carries out a statement. -/
def execute (db : Database σ) : Statement → Except DatabaseError Answer × Database σ
  | .select query =>
    match query.run db.tables with
    | .error e => (.error (.execution e), db)
    | .ok (columns, rows) => (.ok (.selected columns rows), db)
  | .insert addition =>
    match db.insert addition with
    | (.error e, db) => (.error (.execution e), db)
    | (.ok (), db) => (.ok (.inserted addition.table), db)

/-- Reads a statement and carries it out. -/
def executeText (db : Database σ) (text : String) : Except DatabaseError Answer × Database σ :=
  match Statement.parse text with
  | .error e => (.error (.statement e), db)
  | .ok statement => db.execute statement

/-! ## Splitting -/

/-- Stores fragments in order, up to the first that is refused. -/
def storeFragments (storage : σ) : List Fragment → Except StorageError Unit × σ
  | [] => (.ok (), storage)
  | fragment :: fragments =>
    match Storage.store storage ⟨fragment.table, some fragment.id⟩ fragment.document with
    | (.error e, storage) => (.error e, storage)
    | (.ok (), storage) => storeFragments storage fragments

/-- Cuts a loaded table as `cut` says, and stores the fragments. -/
def scatter (db : Database σ) (name : String)
    (cut : Table → Except ExecutionError (List Fragment)) :
    Except DatabaseError (List Fragment) × Database σ :=
  match db.tables[name]? with
  | none => (.error (.execution (.unknownTable name)), db)
  | some table =>
    match cut table with
    | .error e => (.error (.execution e), db)
    | .ok fragments =>
      match storeFragments db.storage fragments with
      | (.error e, storage) => (.error (.storage e), { db with storage })
      | (.ok (), storage) => (.ok fragments, { db with storage })

/-- Cuts a table into shards of `size` rows and stores them. -/
def scaleHorizontally (db : Database σ) (name : String) (size : Nat) :
    Except DatabaseError (List Fragment) × Database σ :=
  db.scatter name (·.shards size)

/-- Cuts a table into one partition for each column group and stores
them. -/
def scaleVertically (db : Database σ) (name : String) (groups : List (List String)) :
    Except DatabaseError (List Fragment) × Database σ :=
  db.scatter name (·.partitions groups)

end Database

end ShardStore

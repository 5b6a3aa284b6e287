import ShardStore.Database
/-!
# Databases — operations as data

What can be asked of a database, as a value, so that a history of a
database is a list. An operation yields what it was asked for or a
failure, and in both cases the database after it; a failure does not end a
history (`runAll`).
-/

namespace ShardStore

/-- One thing that is asked of a database. -/
inductive Operation where
  /-- Read a statement and carry it out. -/
  | executeText (text : String)
  /-- Carry out a statement. -/
  | execute (statement : Statement)
  /-- Make an empty table. -/
  | createTable (name : String) (columns : List String)
  /-- Cut a table into shards and store them. -/
  | scaleHorizontally (table : String) (size : Nat)
  /-- Cut a table into partitions and store them. -/
  | scaleVertically (table : String) (groups : List (List String))
  /-- Load every table that the storage has. -/
  | loadTables
deriving DecidableEq, Repr

namespace Operation

/-- What an operation yields. -/
inductive Yield where
  | nothing
  | answer (answer : Answer)
  | fragments (fragments : List Fragment)
deriving DecidableEq

variable {σ : Type}

/-- An outcome with what it yields wrapped by `yield`, so that operations of
all kinds have outcomes of one type. -/
def yielding {α : Type} (yield : α → Yield) :
    Except DatabaseError α × Database σ → Except DatabaseError Yield × Database σ
  | (outcome, db) => (outcome.map yield, db)

variable [Storage σ]

/-- Carries out one operation. -/
def run : Operation → Database σ → Except DatabaseError Yield × Database σ
  | executeText text, db => yielding .answer (db.executeText text)
  | execute statement, db => yielding .answer (db.execute statement)
  | createTable name columns, db => yielding (fun _ => .nothing) (db.createTable name columns)
  | scaleHorizontally table size, db => yielding .fragments (db.scaleHorizontally table size)
  | scaleVertically table groups, db => yielding .fragments (db.scaleVertically table groups)
  | loadTables, db => yielding (fun _ => .nothing) db.loadTables

/-- Carries out operations in order, also past those that fail. -/
def runAll : List Operation → Database σ → List (Except DatabaseError Yield) × Database σ
  | [], db => ([], db)
  | operation :: operations, db =>
    let (outcome, db) := operation.run db
    let (outcomes, db) := runAll operations db
    (outcome :: outcomes, db)

/-- A history that is cut in two is carried out one part after the other. -/
theorem runAll_append (first second : List Operation) (db : Database σ) :
    runAll (first ++ second) db =
      ((runAll first db).1 ++ (runAll second (runAll first db).2).1,
        (runAll second (runAll first db).2).2) := by
  induction first generalizing db with
  | nil => rfl
  | cons operation operations ih => simp [runAll, ih]

end Operation

end ShardStore

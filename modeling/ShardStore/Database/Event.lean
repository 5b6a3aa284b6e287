import ShardStore.Database.Operation
import ShardStore.Storage.Memory
/-!
# Databases — events

What happens to a database over time: it is asked for something, or its
storage changes under it, as when writes are switched off or a document is
put there by hand. A run leaves a trace of what was asked and what came of
it. A database is reachable when some run leads to it from an empty or a
loaded one.
-/

namespace ShardStore

/-- One thing that happens to a database. -/
inductive Event (σ : Type) where
  /-- It is asked for something. -/
  | ask (operation : Operation)
  /-- Its storage changes under it. -/
  | change (become : σ → σ)

/-- What was asked of a database in order, each with what came of it. -/
abbrev Trace := List (Operation × Except DatabaseError Operation.Yield)

namespace Event

variable {σ : Type} [Storage σ]

/-- What an event leaves in the trace, and the database after it. -/
def run : Event σ → Database σ → Trace × Database σ
  | ask operation, db => ([(operation, (operation.run db).1)], (operation.run db).2)
  | change become, db => ([], { db with storage := become db.storage })

/-- The trace of events, and the database after them. -/
def runAll : List (Event σ) → Database σ → Trace × Database σ
  | [], db => ([], db)
  | event :: events, db =>
    ((event.run db).1 ++ (runAll events (event.run db).2).1, (runAll events (event.run db).2).2)

/-- A history that is cut in two runs one part after the other. -/
theorem runAll_append (first second : List (Event σ)) (db : Database σ) :
    runAll (first ++ second) db =
      ((runAll first db).1 ++ (runAll second (runAll first db).2).1,
        (runAll second (runAll first db).2).2) := by
  induction first generalizing db with
  | nil => rfl
  | cons event events ih => simp [runAll, ih, List.append_assoc]

/-- The writes of a storage in memory are switched. -/
def switchWrites (fail : Bool) : Event MemoryStore :=
  .change fun memory => { memory with failWrites := fail }

end Event

namespace Database

variable {σ : Type} [Storage σ]

/-- The databases that there can be: an empty or a loaded one, after
whatever happens to it. -/
inductive Reachable : Database σ → Prop
  | empty (storage : σ) : Reachable (.empty storage)
  | loaded {storage : σ} {db : Database σ} (h : Database.load storage = .ok db) : Reachable db
  | event {db : Database σ} (event : Event σ) (h : Reachable db) : Reachable (event.run db).2

end Database

end ShardStore

import ShardStore.Database.Operation
/-!
# Databases — requests

A database can be asked for an operation, or to be opened anew over the
storage that it has. A request that fails does not end a history, and a
database that cannot be opened anew stays as it is.
-/

namespace ShardStore

/-- An operation, or the opening of the database anew. -/
inductive Request where
  | ask (operation : Operation)
  | reopen
deriving DecidableEq, Repr

namespace Request

variable {σ : Type} [Storage σ]

/-- Carries out one request. -/
def run : Request → Database σ → Except DatabaseError Operation.Yield × Database σ
  | ask operation, db => operation.run db
  | reopen, db =>
    match Database.load db.storage with
    | .error e => (.error e, db)
    | .ok reopened => (.ok .nothing, reopened)

/-- Carries out requests in order, also past those that fail. -/
def runAll : List Request → Database σ →
    List (Except DatabaseError Operation.Yield) × Database σ
  | [], db => ([], db)
  | request :: requests, db =>
    ((request.run db).1 :: (runAll requests (request.run db).2).1,
      (runAll requests (request.run db).2).2)

/-- A history that is cut in two is carried out one part after the other. -/
theorem runAll_append (first second : List Request) (db : Database σ) :
    runAll (first ++ second) db =
      ((runAll first db).1 ++ (runAll second (runAll first db).2).1,
        (runAll second (runAll first db).2).2) := by
  induction first generalizing db with
  | nil => rfl
  | cons request requests ih => simp [runAll, ih]

end Request

/-! ## Failed calls to the file system -/

/-- Whether a call to the file system has failed. -/
def StorageError.isDisk : StorageError → Bool
  | disk _ => true
  | _ => false

/-- Whether what failed is a call to the file system. -/
def ExecutionError.isDisk : ExecutionError → Bool
  | storage cause => cause.isDisk
  | _ => false

/-- Whether what failed at last is a call to the file system. -/
def DatabaseError.isDisk : DatabaseError → Bool
  | execution cause => cause.isDisk
  | storage cause => cause.isDisk
  | _ => false

end ShardStore

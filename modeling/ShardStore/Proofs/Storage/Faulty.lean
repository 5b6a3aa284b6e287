import ShardStore.Proofs.Storage.Contract
/-!
# Storage — stores that fail

A disk can refuse to write for causes that no model of its files knows of.
A faulty storage is another storage with a schedule of such faults: each
store takes the next one, and where it is an error the store fails and
changes no document. A storage keeps its contract under every schedule.
-/

namespace ShardStore

open Text

variable {σ : Type} [Storage σ]

/-- A storage, and what its next stores fail with, if they do. -/
structure Faulty (σ : Type) where
  storage : σ
  faults : List (Option StorageError)

namespace Faulty

/-- Stores a document unless there is a fault. -/
def store (faulty : Faulty σ) (key : DocumentKey) (document : Document) :
    Except StorageError Unit × Faulty σ :=
  match faulty.faults.head?.join with
  | some e => (.error e, ⟨faulty.storage, faulty.faults.tail⟩)
  | none =>
    ((Storage.store faulty.storage key document).1,
      ⟨(Storage.store faulty.storage key document).2, faulty.faults.tail⟩)

instance : Storage (Faulty σ) where
  store := store
  load faulty := Storage.load faulty.storage
  tableNames faulty := Storage.tableNames faulty.storage

variable {faulty later : Faulty σ} {key : DocumentKey} {document : Document}
  {Settled : σ → Prop}

/-- A store that fails is a fault, or fails without one. -/
theorem store_eq_error {e : StorageError} (h : faulty.store key document = (.error e, later)) :
    later.storage = faulty.storage ∨
      Storage.store faulty.storage key document = (.error e, later.storage) := by
  unfold store at h
  split at h
  · cases h
    exact .inl rfl
  · obtain ⟨hresult, rfl⟩ := Prod.mk.inj h
    exact .inr (Prod.ext hresult rfl)

theorem store_eq_ok (h : faulty.store key document = (.ok (), later)) :
    Storage.store faulty.storage key document = (.ok (), later.storage) := by
  unfold store at h
  split at h
  · cases h
  · obtain ⟨hresult, rfl⟩ := Prod.mk.inj h
    exact Prod.ext hresult rfl

/-- **Faults do not break a contract.** -/
theorem contract (hc : Storage.Contract Settled) :
    Storage.Contract fun faulty : Faulty σ => Settled faulty.storage where
  listed hs hnames hname := hc.listed hs hnames hname
  refused {storage later key document e} hs hstore hkey := by
    rcases store_eq_error hstore with hsame | hrefused
    · have hload : Storage.SameDocuments storage.storage later.storage := hsame ▸ .refl _
      exact ⟨hsame ▸ hs, hload.load, hload.names⟩
    · obtain ⟨hsettled, hsame⟩ := hc.refused hs hrefused hkey
      exact ⟨hsettled, hsame.load, hsame.names⟩
  stored hs hstore hkey := by
    obtain ⟨hsettled, hstored⟩ := hc.stored hs (store_eq_ok hstore) hkey
    exact ⟨hsettled, hstored.here, hstored.elsewhere, hstored.names⟩

theorem lists (hl : Storage.Lists Settled) :
    Storage.Lists fun faulty : Faulty σ => Settled faulty.storage := by
  intro storage later name document names hs hstore hid hnames
  exact hl hs (store_eq_ok hstore) hid hnames

end Faulty

end ShardStore

import ShardStore.Storage
import ShardStore.Text.Identifier
/-!
# Storage — what a database may rely on

Databases are proved right over every storage that keeps a contract, and
not over one storage at a time. A storage has states that are `Settled`, in
which storing either fails and leaves every document as it was
(`SameDocuments`), or succeeds and changes one document (`Stored`). Only
keys under an identifier are spoken of: no database uses another, and a
file name could not tell them apart.
-/

namespace ShardStore

open Text

variable {σ : Type} [Storage σ]

namespace Storage

/-- The later storage lists the tables that the earlier one lists. -/
def SameNames (storage later : σ) : Prop :=
  ∀ names, Storage.tableNames storage = .ok names →
    ∃ more, Storage.tableNames later = .ok more ∧ ∀ name, name ∈ more ↔ name ∈ names

namespace SameNames

variable {storage middle later : σ}

theorem refl (storage : σ) : SameNames storage storage := by
  intro names h
  exact ⟨names, h, fun _ => Iff.rfl⟩

theorem trans (h₁ : SameNames storage middle) (h₂ : SameNames middle later) :
    SameNames storage later := by
  intro names h
  obtain ⟨more, hmore, hiff⟩ := h₁ names h
  obtain ⟨most, hmost, hiff'⟩ := h₂ more hmore
  exact ⟨most, hmost, fun name => (hiff' name).trans (hiff name)⟩

end SameNames

/-- The later storage has the documents of the earlier one, and lists the
same tables. -/
structure SameDocuments (storage later : σ) : Prop where
  load : ∀ key : DocumentKey, isIdentifier key.table = true →
    Storage.load later key = Storage.load storage key
  names : SameNames storage later

namespace SameDocuments

variable {storage middle later : σ}

theorem refl (storage : σ) : SameDocuments storage storage :=
  ⟨fun _ _ => rfl, .refl storage⟩

theorem trans (h₁ : SameDocuments storage middle) (h₂ : SameDocuments middle later) :
    SameDocuments storage later := by
  refine ⟨fun key hkey => ?_, h₁.names.trans h₂.names⟩
  rw [h₂.load key hkey, h₁.load key hkey]

end SameDocuments

/-- The later storage has one document put under a key, and otherwise the
documents of the earlier one. Of the listed names only that of the key may
be new; whether it is, a storage must promise apart (`Lists`). -/
structure Stored (storage later : σ) (key : DocumentKey) (document : Document) : Prop where
  here : Storage.load later key = .ok (some document)
  elsewhere : ∀ other : DocumentKey, isIdentifier other.table = true → other ≠ key →
    Storage.load later other = Storage.load storage other
  names : ∀ names, Storage.tableNames storage = .ok names →
    ∃ more, Storage.tableNames later = .ok more ∧ (∀ name ∈ names, name ∈ more) ∧
      ∀ name ∈ more, name ∈ names ∨ key = .base name

theorem SameDocuments.stored {storage middle later : σ} {key : DocumentKey} {document : Document}
    (h₁ : SameDocuments storage middle) (h₂ : Stored middle later key document) :
    Stored storage later key document := by
  refine ⟨h₂.here, fun other hother hne => ?_, fun names h => ?_⟩
  · exact (h₂.elsewhere other hother hne).trans (h₁.load other hother)
  · obtain ⟨more, hmore, hiff⟩ := h₁.names names h
    obtain ⟨most, hmost, hold, hnew⟩ := h₂.names more hmore
    refine ⟨most, hmost, fun name hname => hold name ((hiff name).2 hname), fun name hname => ?_⟩
    rcases hnew name hname with hin | hkey
    · exact .inl ((hiff name).1 hin)
    · exact .inr hkey

/-- What a database relies on while its storage stays settled. -/
structure Contract (Settled : σ → Prop) : Prop where
  /-- A listed name is an identifier, or that of a document that can be
  loaded and then be refused for its name. -/
  listed : ∀ {storage names name}, Settled storage → Storage.tableNames storage = .ok names →
    name ∈ names → isIdentifier name = true ∨
      ∃ document, Storage.load storage (.base name) = .ok (some document)
  refused : ∀ {storage later key document e}, Settled storage →
    Storage.store storage key document = (.error e, later) → isIdentifier key.table = true →
    Settled later ∧ SameDocuments storage later
  stored : ∀ {storage later key document}, Settled storage →
    Storage.store storage key document = (.ok (), later) → isIdentifier key.table = true →
    Settled later ∧ Stored storage later key document

/-- A table is listed once its base document has been stored. -/
def Lists (Settled : σ → Prop) : Prop :=
  ∀ {storage later : σ} {name : String} {document : Document} {names : List String},
    Settled storage → Storage.store storage (.base name) document = (.ok (), later) →
    isIdentifier name = true → Storage.tableNames later = .ok names → name ∈ names

/-- What the storage refuses to store leaves the document under a key. -/
def Spares (storage : σ) (key : DocumentKey) : Prop :=
  ∀ {other : DocumentKey} {document : Document} {e : StorageError} {later : σ},
    Storage.store storage other document = (.error e, later) →
    isIdentifier other.table = true → Storage.load later key = Storage.load storage key

/-- A settled storage spares every document. -/
theorem Contract.spares {Settled : σ → Prop} (hc : Contract Settled) {storage : σ}
    (hs : Settled storage) {key : DocumentKey} (hkey : isIdentifier key.table = true) :
    Spares storage key := by
  intro other document e later hstore hother
  obtain ⟨-, hsame⟩ := hc.refused hs hstore hother
  exact hsame.load key hkey

/-- The later storage has the base documents of the earlier one. -/
structure SameTables (storage later : σ) : Prop where
  load : ∀ name, isIdentifier name = true →
    Storage.load later (.base name) = Storage.load storage (.base name)
  names : SameNames storage later

namespace SameTables

variable {storage middle later : σ}

theorem refl (storage : σ) : SameTables storage storage :=
  ⟨fun _ _ => rfl, .refl storage⟩

theorem trans (h₁ : SameTables storage middle) (h₂ : SameTables middle later) :
    SameTables storage later := by
  refine ⟨fun name hname => ?_, h₁.names.trans h₂.names⟩
  rw [h₂.load name hname, h₁.load name hname]

end SameTables

theorem SameDocuments.sameTables {storage later : σ} (h : SameDocuments storage later) :
    SameTables storage later :=
  ⟨fun _ hname => h.load _ hname, h.names⟩

/-- **A fragment is no base document**, even under the name of a table. -/
theorem Stored.sameTables {storage later : σ} {table : String} {id : FragmentId}
    {document : Document} (h : Stored storage later ⟨table, some id⟩ document) :
    SameTables storage later := by
  have hne : ∀ name, DocumentKey.base name ≠ ⟨table, some id⟩ := by simp [DocumentKey.base]
  refine ⟨fun name hname => h.elsewhere _ hname (hne name), fun names hnames => ?_⟩
  obtain ⟨more, hmore, hold, hnew⟩ := h.names names hnames
  refine ⟨more, hmore, fun name => ⟨fun hname => ?_, hold name⟩⟩
  rcases hnew name hname with hin | hkey
  · exact hin
  · exact absurd hkey.symm (hne name)

end Storage

end ShardStore

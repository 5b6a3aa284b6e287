import ShardStore.Proofs.Storage.Directory
import ShardStore.Proofs.Storage.Recorded
/-!
# Storage — nothing outside the data directory

Every change of the disk that storing a document asks for is about the data
directory itself, or about a file directly in it whose name is made of an
identifier (`storeSteps_within`). Along any path, also one that leads up,
making a directory puts directories where nothing was, and the other two
changes touch what the room of the directory has under these names, as long
as no links lead on from there (`Unlinked`); so every other file keeps its
content (`Confined`), and the room stays where it is once it is there. A
temporary file that is a link would be written where the link leads.
-/

namespace ShardStore

open Text

/-! ## The files of a table -/

namespace DirectoryStore

variable {store middle later : DirectoryStore} {key : DocumentKey} {document : Document}

/-- The later store is in the same directory, which is where it was if it was
there, no link has come and no symbolic one gone, and only files with some names directly in
the directory have come, changed or gone. -/
structure Confined (names : String → Prop) (store later : DirectoryStore) : Prop where
  directory : later.directory = store.directory
  links : Disk.NoNewLinks store.disk later.disk
  directories : ∀ location, store.disk.entry? location = some .directory →
    later.disk.entry? location = some .directory
  files : ∀ location content,
    (later.disk.entry? location = some (.file content) ↔
      store.disk.entry? location = some (.file content)) ∨
    ∃ room name, later.room? = some room ∧ names name ∧ location = room ++ [name]

namespace Confined

variable {names names' : String → Prop}

theorem refl (store : DirectoryStore) : Confined names store store :=
  ⟨rfl, .refl store.disk, fun _ => id, fun _ _ => .inl .rfl⟩

/-- The room of a store stays where it is. -/
theorem room (h : Confined names store later) {room : Location} (hroom : store.room? = some room) :
    later.room? = some room := by
  rw [room?, h.directory]
  exact Disk.room?_mono h.links h.directories hroom

theorem unlinked (h : Confined names store later) (hunlinked : store.Unlinked) :
    later.Unlinked := by
  have hlater : Unlinked { store with disk := later.disk } := hunlinked.congr h.links
  rwa [← h.directory] at hlater

theorem trans (h₁ : Confined names store middle) (h₂ : Confined names middle later) :
    Confined names store later := by
  refine ⟨h₂.directory.trans h₁.directory, h₁.links.trans h₂.links,
    fun location => h₂.directories location ∘ h₁.directories location,
    fun location content => ?_⟩
  rcases h₂.files location content with hsecond | hnamed
  · rcases h₁.files location content with hfirst | ⟨room, name, hroom, hname, hlocation⟩
    · exact .inl (hsecond.trans hfirst)
    · exact .inr ⟨room, name, h₂.room hroom, hname, hlocation⟩
  · exact .inr hnamed

theorem mono (h : Confined names store later) (hnames : ∀ name, names name → names' name) :
    Confined names' store later := by
  refine ⟨h.directory, h.links, h.directories, fun location content => ?_⟩
  rcases h.files location content with hsame | ⟨room, name, hroom, hname, hlocation⟩
  · exact .inl hsame
  · exact .inr ⟨room, name, hroom, hnames name hname, hlocation⟩

end Confined

end DirectoryStore

end ShardStore

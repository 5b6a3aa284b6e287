import ShardStore.Database.Request
import ShardStore.Proofs.Storage.Listing
import ShardStore.Proofs.Storage.DirectoryContract
/-!
# Storage — one storage mirrors another

Two storages are mirrors when related ones show the same documents and list
the same tables, and stay related when a document is stored in both; only a
failed call to the file system may tell them apart (`Storage.Mirrors`). A
directory is a mirror of documents in memory: each document has a file of
its own, a temporary file is none, and the listed files are those of base
documents.
-/

namespace ShardStore

open Text

variable {σ τ : Type} [Storage σ] [Storage τ]

/-- Related storages show the same, and are related after a store unless it
fails in the second one for the file system. -/
structure Storage.Mirrors (Related : σ → τ → Prop) : Prop where
  load : ∀ {first second key}, Related first second → isIdentifier key.table = true →
    Storage.load second key = Storage.load first key
  names : ∀ {first second}, Related first second →
    Storage.tableNames second = Storage.tableNames first
  listed : ∀ {first second names}, Related first second →
    Storage.tableNames second = .ok names → ∀ name ∈ names, isIdentifier name = true
  store : ∀ {first second key}, Related first second → isIdentifier key.table = true →
    ∀ document : Document,
      (∃ (e : StorageError) (later : τ),
        Storage.store second key document = (.error e, later) ∧ e.isDisk = true) ∨
      ∃ (outcome : Except StorageError Unit) (mirrored : σ) (later : τ),
        Storage.store first key document = (outcome, mirrored) ∧
        Storage.store second key document = (outcome, later) ∧ Related mirrored later

namespace DirectoryStore

/-- A directory and documents in memory that show the same. -/
structure Mirrored (memory : MemoryStore) (store : DirectoryStore) : Prop where
  writes : memory.failWrites = false
  rooted : store.Rooted
  load : ∀ key : DocumentKey, isIdentifier key.table = true → store.load key = memory.load key
  names : store.tableNames = .ok memory.tableNames

variable {memory : MemoryStore} {store later : DirectoryStore} {key : DocumentKey}
  {document : Document}

/-- **A document that is stored in both is shown by both.** -/
theorem Mirrored.stored (h : Mirrored memory store) (hkey : isIdentifier key.table = true)
    (hstore : store.store key document = (.ok (), later)) :
    Mirrored (memory.store key document).2 later := by
  have hmemory : memory.store key document = (.ok (), (memory.store key document).2) := by
    simp [MemoryStore.store, h.writes]
  obtain ⟨hrooted, hlater⟩ := contract_rooted.stored h.rooted hstore hkey
  have hnow := MemoryStore.stored_of_store hmemory
  refine ⟨?_, hrooted, fun other hother => ?_, ?_⟩
  · simp [MemoryStore.store, h.writes]
  · by_cases hne : other = key
    · subst hne
      exact hlater.here.trans hnow.here.symm
    · exact (hlater.elsewhere other hother hne).trans
        ((h.load other hother).trans (hnow.elsewhere other hother hne).symm)
  · -- Both lists are the list from before with the table of the document.
    have hdirectory := hlater.tableNames inOrder (fun more hbase hmore => ?_) h.names
    have hlist := hnow.tableNames MemoryStore.inOrder (fun more hbase hmore => ?_) rfl
    · exact hdirectory.trans hlist.symm
    all_goals
      obtain ⟨table, fragment⟩ := key
      obtain rfl : fragment = none := hbase
    · exact MemoryStore.lists trivial hmemory hkey hmore
    · exact lists h.rooted hstore hkey hmore

/-- A store in a directory that fails has failed for the file system. -/
theorem isDisk_of_store {e : StorageError} (h : store.store key document = (.error e, later)) :
    e.isDisk = true := by
  unfold DirectoryStore.store at h
  split at h
  · cases h
  · cases h
    rfl

/-- **A directory mirrors documents in memory.** -/
theorem mirrors : Storage.Mirrors Mirrored where
  load h hkey := h.load _ hkey
  names h := h.names
  listed h hnames name hname := ((mem_tableNames hnames name).1 hname).1
  store {memory store key} h hkey document := by
    cases hstore : store.store key document with
    | mk outcome later =>
      cases outcome with
      | error e => exact .inl ⟨e, later, hstore, isDisk_of_store hstore⟩
      | ok =>
        have hmemory : memory.store key document = (.ok (), (memory.store key document).2) := by
          simp [MemoryStore.store, h.writes]
        exact .inr ⟨.ok (), _, later, hmemory, hstore, h.stored hkey hstore⟩

/-- A directory that is there and has nothing in it. -/
structure Fresh (store : DirectoryStore) : Prop where
  tree : store.disk.IsTree
  empty : store.disk.listNames store.directory = .ok []

/-- Its room has nothing under any name. -/
theorem Fresh.vacant (h : store.Fresh) {room : Location} (hroom : store.room? = some room)
    (name : String) : store.disk.node? (room ++ [name]) = none := by
  obtain ⟨room', hroom', hnone⟩ := Disk.mem_listNames h.empty
  obtain rfl := Option.some.inj (hroom.symm.trans hroom')
  rw [Option.eq_none_iff_forall_ne_some]
  intro node hnode
  exact absurd ((hnone name).2 ⟨node, hnode⟩) (by simp)

theorem Fresh.rooted (h : store.Fresh) : store.Rooted := by
  obtain ⟨room, hroom, -⟩ := Disk.mem_listNames h.empty
  obtain ⟨path, hparse⟩ := Disk.parse_of_listNames h.empty
  have hnone := h.vacant hroom
  have hunlinked : store.Unlinked :=
    unlinked_of_room hroom fun name => (Disk.node?_eq_none_iff.1 (hnone name)).1
  refine ⟨⟨h.tree, hunlinked, .inl ((Disk.hasEntry_of_room hroom).2 ⟨path, hparse⟩)⟩,
    fun hunnamed => ?_⟩
  rw [hunnamed] at hparse
  cases hparse

/-- **A fresh directory mirrors a memory without documents.** -/
theorem Fresh.mirrored (h : store.Fresh) : Mirrored {} store := by
  obtain ⟨room, hroom, -⟩ := Disk.mem_listNames h.empty
  refine ⟨rfl, h.rooted, fun key hkey => ?_, ?_⟩
  · have hmemory : MemoryStore.load {} key = .ok none := by simp [MemoryStore.load]
    rw [hmemory, load_of_vacant hkey hroom (h.vacant hroom key.fileName)]
  · obtain ⟨path, hparse⟩ := Disk.parse_of_listNames h.empty
    have hthere := (Disk.hasEntry_of_room hroom).2 ⟨path, hparse⟩
    rw [tableNames, if_pos hthere, h.empty]
    simp only [List.filterMap_nil, List.mergeSort_nil]
    rfl

end DirectoryStore

end ShardStore

import ShardStore.Proofs.Database.Agreement
import ShardStore.Proofs.Storage.DirectoryContract
import ShardStore.Proofs.Storage.Faulty
import ShardStore.Proofs.Storage.Memory
/-!
# Databases — reopening changes nothing

A coherent database over which every loaded table is listed is what its
storage is loaded as. Both are kept by every run, so at any point of a run
the database can be replaced by one that is opened anew, and nothing that
comes later tells the difference. This holds of every storage that keeps
the contract and lists what it stores: of documents in memory, with writes
switched on and off, and of a directory with a name that is there or has a
path that never leads up, and in which no link leads from one of the files
that are used to another, also where stores in it fail. The three kinds of
directory that are left out are different: what had been out of reach may
come to light, what is stored under one name may be found under another, and
what is stored may never be listed.
-/

namespace ShardStore

namespace Database

variable {σ : Type} [Storage σ]

/-- At every point of a run from an opened database its storage can be
loaded, as the tables that it has; and the run goes on from the database
that was loaded as it would have gone on. -/
def Reopens (Settled : σ → Prop) : Prop :=
  ∀ {storage : σ} {db : Database σ} {first : List (Event σ)}, Settled storage →
    Database.load storage = .ok db → (∀ event ∈ first, event.Keeps Settled) →
    ∃ reopened, Database.load (Event.runAll first db).2.storage = .ok reopened ∧
      reopened.tables = (Event.runAll first db).2.tables ∧
      ∀ second, Event.runAll (first ++ second) db =
        ((Event.runAll first db).1 ++ (Event.runAll second reopened).1,
          (Event.runAll second reopened).2)

/-- **A storage that keeps the contract and lists what it stores can be
reopened at any point.** -/
theorem reopens_of_contract {Settled : σ → Prop} (hc : Storage.Contract Settled)
    (hl : Storage.Lists Settled) : Reopens Settled := by
  intro storage db first hs hload hkeeps
  obtain ⟨hcoherent, hcomplete⟩ := coherent_of_load hs hload
  have hlater := Event.coherent_runAll hcoherent hc hkeeps
  have hall := Event.complete_runAll hcomplete hcoherent hc hl hkeeps
  exact ⟨_, hlater.current.load hall, rfl, fun second => Event.runAll_append first second db⟩

/-- **Memory and storage never drift apart**, in memory and in a rooted
directory, nor where stores in it fail at any time. -/
theorem reopens : Reopens (fun _ : MemoryStore => True) ∧ Reopens DirectoryStore.Rooted ∧
    Reopens (fun faulty : Faulty DirectoryStore => faulty.storage.Rooted) := by
  refine ⟨?_, ?_, ?_⟩
  · exact reopens_of_contract MemoryStore.contract MemoryStore.lists
  · exact reopens_of_contract DirectoryStore.contract_rooted DirectoryStore.lists
  · exact reopens_of_contract (Faulty.contract DirectoryStore.contract_rooted)
      (Faulty.lists DirectoryStore.lists)

/-- A document with a stray cell is loaded, a row is added to its table, and
another row is refused. -/
theorem reopens_after_refused_insertion :
    let legacy : Document := ⟨["x"], [Row.ofPairs [("z", .text "2")]]⟩
    let storage : MemoryStore := (MemoryStore.store {} (.base "t") legacy).2
    let insertion (text : String) : Event MemoryStore :=
      .ask (.execute (.insert ⟨"t", ["x"], [.text text]⟩))
    let first := [insertion "1", Event.switchWrites true, insertion "3"]
    ∃ db reopened, load storage = .ok db ∧
      load (Event.runAll first db).2.storage = .ok reopened ∧
      reopened.tables["t"]? =
        some ⟨"t", ["x"], [Row.ofPairs [("x", .null)], Row.ofPairs [("x", .text "1")]]⟩ := by
  intro legacy storage insertion first
  have hkeeps : ∀ event ∈ first, event.Keeps fun _ => True := by
    simp only [first, List.forall_mem_cons]
    exact ⟨trivial, Event.keeps_switchWrites true, trivial, by simp⟩
  have hload : load storage = .ok ⟨(∅ : Tables).insert "t"
      ⟨"t", ["x"], [Row.ofPairs [("x", .null)]]⟩, storage⟩ := rfl
  obtain ⟨reopened, hreopened, htables, -⟩ := reopens.1 trivial hload hkeeps
  exact ⟨_, reopened, hload, hreopened, by rw [htables]; rfl⟩

/-! ## Directories that are left out -/

/-- A store in the directory without a name. -/
def unnamed : DirectoryStore where
  directory := ""
  disk := ⟨∅, ∅, []⟩

theorem isTree_unnamed : unnamed.disk.IsTree := by
  intro here name node h
  simp [unnamed, Disk.node?] at h

theorem link?_unnamed (location : Location) : unnamed.disk.link? location = none :=
  Disk.link?_empty ∅ [] location

/-- A store whose directory is there but cannot be reached: its path leads
up from another one that is missing. -/
def secluded : DirectoryStore where
  directory := "a/../b"
  disk := (unnamed.disk.put ["b"] .directory).put ["b", "u.json"]
    (.file (Document.json ⟨["x"], []⟩).toUTF8)

theorem isTree_secluded : secluded.disk.IsTree := by
  have hroot : unnamed.disk.entry? [] = some .directory := rfl
  have hroom : Disk.entry? (unnamed.disk.put ["b"] .directory) ["b"] = some .directory := rfl
  exact (isTree_unnamed.put hroot (.inl rfl)).put hroom (.inr nofun)

theorem unlinked_secluded : secluded.Unlinked :=
  DirectoryStore.unlinked_of_no_links
    (Disk.link?_put (by simp) (Disk.link?_put (by simp) link?_unnamed _) _)

/-- A store in a directory that has nothing in it. -/
def vacant : DirectoryStore where
  directory := "data"
  disk := unnamed.disk.put ["data"] .directory

theorem isTree_vacant : vacant.disk.IsTree := by
  have hroot : unnamed.disk.entry? [] = some .directory := rfl
  exact isTree_unnamed.put hroot (.inl rfl)

/-- A disk with something in that directory is a tree still. -/
theorem isTree_vacant_place (name : String) (node : Node) :
    (vacant.disk.place (["data"] ++ [name]) node).IsTree :=
  isTree_vacant.place rfl (.inr nofun)

theorem link?_vacant (location : Location) : vacant.disk.link? location = none :=
  Disk.link?_put (by simp) link?_unnamed _ location

theorem link?_vacant_put (name : String) (entry : Entry) (location : Location) :
    Disk.link? (vacant.disk.put (["data"] ++ [name]) entry) location = none :=
  Disk.link?_put (by simp) link?_vacant entry location

/-- A store in whose directory the document of `u` is that of `t`: its name is
that of a symbolic link. -/
def linked : DirectoryStore :=
  { vacant with disk := vacant.disk.place (["data"] ++ ["u.json"]) (.link (.symbolic "t.json")) }

theorem hasEntry_linked : linked.disk.hasEntry linked.directory = true := by
  decide +kernel

/-- From a directory in which no document is listed no table is loaded. -/
theorem load_of_listNames {store : DirectoryStore} {names : List String}
    (hthere : store.disk.hasEntry store.directory = true)
    (hlist : store.disk.listNames store.directory = .ok names)
    (hnone : names.filterMap DirectoryStore.tableOf? = []) : load store = .ok (.empty store) := by
  have hnames : Storage.tableNames (empty store).storage = .ok [] := by
    simp only [Storage.tableNames, empty, DirectoryStore.tableNames, if_pos hthere, hlist, hnone,
      List.mergeSort_nil]
  rw [load, loadTables, hnames]
  rfl

/-- A database over a store in which nothing is found, once a table is
made. -/
def withTable (store : DirectoryStore) : Database DirectoryStore :=
  (Event.runAll [.ask (.createTable "t" ["x"])] (.empty store)).2

/-- Nor from a directory that is missing. -/
theorem load_of_missing {store : DirectoryStore}
    (hmissing : store.disk.hasEntry store.directory = false) : load store = .ok (.empty store) := by
  have hnames : Storage.tableNames (empty store).storage = .ok [] :=
    DirectoryStore.tableNames_of_missing hmissing
  rw [load, loadTables, hnames]
  rfl

/-- Nor from one in which every document that is listed is missing. -/
theorem load_of_listed {store : DirectoryStore} {table : String}
    (hnames : Storage.tableNames store = .ok [table])
    (hmissing : Storage.load store (.base table) = .ok none) : load store = .ok (.empty store) := by
  have hnone : Storage.storedTable (empty store).storage table = .ok none := by
    simp only [Storage.storedTable, empty, hmissing]
  have hlisted : Storage.tableNames (empty store).storage = .ok [table] := hnames
  rw [load, loadTables, hlisted]
  simp only [loadNamed_cons, hnone]
  rfl

/-- From a store no table is loaded, and once one is made there, the document
of another is listed that the database does not have. -/
structure Unveils (store : DirectoryStore) : Prop where
  load : load store = .ok (.empty store)
  absent : (withTable store).tables["u"]? = none
  stored : Storage.storedTable (withTable store).storage "u" = .ok (some ⟨"u", ["x"], []⟩)
  listed : ∀ names, Storage.tableNames (withTable store).storage = .ok names → "u" ∈ names

/-- A document at a path in the directory is stored and listed. -/
theorem unveils_of_status {store : DirectoryStore} {room : Location}
    (hload : Database.load store = .ok (.empty store))
    (habsent : (withTable store).tables["u"]? = none)
    (hstatus : (withTable store).storage.disk.status ((withTable store).storage.path (.base "u")) =
      .ok (.file (Document.json ⟨["x"], []⟩).toUTF8))
    (hthere : (withTable store).storage.disk.hasEntry (withTable store).storage.directory = true)
    (hroom : (withTable store).storage.room? = some room)
    (hnode : ((withTable store).storage.disk.node? (room ++ ["u.json"])).isSome = true) :
    Unveils store := by
  have hdocument : Storage.load (withTable store).storage (.base "u") = .ok (some ⟨["x"], []⟩) :=
    (DirectoryStore.load_of_status hstatus).trans (DirectoryStore.readEntry_json _)
  have htable : Table.ofDocument "u" ⟨["x"], []⟩ = .ok ⟨"u", ["x"], []⟩ := rfl
  refine ⟨hload, habsent, by simp only [Storage.storedTable, hdocument, htable],
    fun names hnames => (DirectoryStore.mem_tableNames hnames "u").2 ?_⟩
  exact ⟨rfl, hthere, room, hroom, Option.isSome_iff_exists.1 hnode⟩

/-- **Making a directory, or the document that a link leads to, brings another
document to light.** -/
theorem unveils : Unveils secluded ∧ Unveils linked := by
  refine ⟨?_, ?_⟩
  · have hload : load secluded = .ok (.empty secluded) := load_of_missing (by decide +kernel)
    have hroom : (withTable secluded).storage.room? = some ["b"] := by decide +kernel
    exact unveils_of_status hload (by decide +kernel) (by decide +kernel) (by decide +kernel)
      hroom (by decide +kernel)
  · have hnames : linked.tableNames = .ok ["u"] := by decide +kernel
    have hload : load linked = .ok (.empty linked) :=
      load_of_listed hnames (DirectoryStore.load_of_missing (by decide +kernel))
    have hroom : (withTable linked).storage.room? = some ["data"] := by decide +kernel
    exact unveils_of_status hload (by decide +kernel) (by decide +kernel) (by decide +kernel)
      hroom (by decide +kernel)

/-- A document that is listed and was not loaded sets the tables and the storage
apart. -/
theorem Unveils.not_current {store : DirectoryStore} (h : Unveils store) :
    ¬ (withTable store).Current := by
  rintro ⟨names, hnames, hread⟩
  have hfound := hread "u" (h.listed names hnames)
  rw [h.stored, h.absent] at hfound
  cases hfound

/-- Where databases can be reopened, a table that is made is there again. -/
theorem Reopens.load_withTable {Settled : DirectoryStore → Prop} (h : Reopens Settled)
    {store : DirectoryStore} (hs : Settled store) (hload : load store = .ok (.empty store)) :
    load (withTable store).storage = .ok (withTable store) := by
  have hkeeps : ∀ event ∈ [Event.ask (.createTable "t" ["x"])], event.Keeps Settled := by
    simp [Event.Keeps]
  obtain ⟨reopened, hreopened, htables, -⟩ := h hs hload hkeeps
  obtain ⟨hstorage, -⟩ := load_eq_ok hreopened
  have hmade : (Event.runAll [.ask (.createTable "t" ["x"])] (.empty store)).2 =
      withTable store := rfl
  rw [hmade] at hreopened htables hstorage
  generalize withTable store = made at hreopened htables hstorage
  obtain ⟨tables, storage⟩ := made
  obtain ⟨_, _⟩ := reopened
  obtain rfl : _ = tables := htables
  obtain rfl : _ = storage := hstorage
  exact hreopened

/-- **No condition on a rooted directory can be dropped**: one that comes
within reach holds tables that were not loaded, one with links shows what is
stored under one name under another, and what is stored in the one without a
name is not loaded again. -/
theorem not_reopens :
    ¬ Reopens (fun store : DirectoryStore =>
        store.disk.IsTree ∧ store.Unlinked ∧ store.directory ≠ "") ∧
      ¬ Reopens (fun store : DirectoryStore =>
        store.disk.IsTree ∧ store.disk.hasEntry store.directory = true ∧ store.directory ≠ "") ∧
      ¬ Reopens DirectoryStore.Settled := by
  refine ⟨fun h => ?_, fun h => ?_, fun h => ?_⟩
  · have hload := h.load_withTable ⟨isTree_secluded, unlinked_secluded, by decide⟩ unveils.1.load
    exact unveils.1.not_current (load_eq_ok hload).2.1
  · have hload := h.load_withTable ⟨isTree_vacant_place _ _, hasEntry_linked, by decide⟩
      unveils.2.load
    exact unveils.2.not_current (load_eq_ok hload).2.1
  · have hunlinked : unnamed.Unlinked := DirectoryStore.unlinked_of_no_links link?_unnamed
    have hload := h.load_withTable ⟨isTree_unnamed, hunlinked, .inr (by decide)⟩
      (load_of_missing (by decide +kernel))
    -- The directory without a name is missing still, so that no table is loaded from it.
    have hempty : load (withTable unnamed).storage = .ok (.empty (withTable unnamed).storage) :=
      load_of_missing (by decide +kernel)
    have hsame : withTable unnamed = .empty (withTable unnamed).storage :=
      Except.ok.inj (hload.symm.trans hempty)
    have hmade : (withTable unnamed).tables["t"]? = some ⟨"t", ["x"], []⟩ := by decide +kernel
    rw [hsame] at hmade
    simp [empty] at hmade

end Database

end ShardStore

import ShardStore.Proofs.Disk.Files
import ShardStore.Proofs.Document.Json
import ShardStore.Proofs.Storage.Contract
import ShardStore.Proofs.Storage.FileName
import ShardStore.Proofs.Text.Utf8
/-!
# Storage — a directory keeps the contract

What a document is loaded as, and which tables are listed, depends on the
room of the data directory and on what it has under the names of documents
(`load_of_room`, `mem_tableNames`). Storing makes the directory, writes a
temporary file and moves it: the first step leaves every document as it was
unless the path of the directory leads up, the second touches the name of
no document, and the third exactly one, as long as no symbolic link has the
name of a document's file, and no link at all that of a temporary one
(`Unlinked`). A directory is settled when that is so, and it is there or its
path never leads up.
-/

namespace ShardStore

open Text

namespace DirectoryStore

variable {store middle later : DirectoryStore} {key : DocumentKey} {document : Document}
  {room : Location}

/-- The location in which the files of a store are, if it is there. -/
def room? (store : DirectoryStore) : Option Location :=
  store.disk.room? store.directory

/-- No file of a document is a symbolic link, though it may have other names,
and no temporary file is a link of either kind: not where the path of the
directory leads, nor where it would lead with other directories made. -/
def Unlinked (store : DirectoryStore) : Prop :=
  ∀ (disk : Disk) (room : Location), Disk.NoNewLinks store.disk disk →
    disk.room? store.directory = some room →
      ∀ key : DocumentKey, isIdentifier key.table = true →
        store.disk.target? (room ++ [key.fileName]) = none ∧
        store.disk.link? (room ++ [key.temporaryName]) = none

theorem Unlinked.target?_fileName (h : store.Unlinked) (hroom : store.room? = some room)
    (hkey : isIdentifier key.table = true) : store.disk.target? (room ++ [key.fileName]) = none :=
  (h store.disk room (.refl store.disk) hroom key hkey).1

theorem Unlinked.link?_temporaryName (h : store.Unlinked) (hroom : store.room? = some room)
    (hkey : isIdentifier key.table = true) :
    store.disk.link? (room ++ [key.temporaryName]) = none :=
  (h store.disk room (.refl store.disk) hroom key hkey).2

/-- None of them becomes one while no link comes. -/
theorem Unlinked.congr (h : store.Unlinked) {disk : Disk}
    (hlinks : Disk.NoNewLinks store.disk disk) : Unlinked { store with disk } := by
  intro last room hlast hroom key hkey
  obtain ⟨hdocument, htemporary⟩ := h last room (hlinks.trans hlast) hroom key hkey
  exact ⟨(hlinks.target _).trans hdocument, hlinks.link _ htemporary⟩

/-- For a directory that is there only its room matters. -/
theorem unlinked_of_room (hroom : store.room? = some room)
    (h : ∀ name, store.disk.link? (room ++ [name]) = none) : store.Unlinked := by
  intro disk other hlinks hother key _
  obtain rfl := Disk.room?_unique hlinks hroom hother
  exact ⟨Disk.target?_of_link? (h key.fileName), h key.temporaryName⟩

theorem unlinked_of_no_links (h : ∀ location, store.disk.link? location = none) :
    store.Unlinked :=
  fun _ _ _ _ _ _ => ⟨Disk.target?_of_link? (h _), h _⟩

/-- Storing brings no document to light and changes no other one: the disk is
a tree, no link leads from one of the files that are used to another, and the
directory is there or its path never leads up. -/
structure Settled (store : DirectoryStore) : Prop where
  tree : store.disk.IsTree
  unlinked : store.Unlinked
  reachable : store.disk.hasEntry store.directory = true ∨ ".." ∉ Path.stepsOf store.directory

/-- The document in an entry. -/
def readEntry : Option Entry → Except StorageError (Option Document)
  | none => .ok none
  | some .directory => .error (.disk .isDirectory)
  | some (.file content) =>
    match String.fromUTF8? content with
    | none => .error (.disk .notText)
    | some text =>
      match Document.ofJson text with
      | .error e => .error (.unreadable e)
      | .ok document => .ok (some document)

/-- A document is read back from the bytes of each of its texts. -/
theorem readEntry_of_isText {text : String} (h : document.IsText text) :
    readEntry (some (.file text.toUTF8)) = .ok (some document) := by
  simp only [readEntry, fromUTF8?_toUTF8, h.ofJson_eq]

theorem readEntry_json (document : Document) :
    readEntry (some (.file document.json.toUTF8)) = .ok (some document) :=
  readEntry_of_isText document.isText_json

/-! ## What is loaded and listed -/

/-- What is at the path of a document is read. -/
theorem load_of_status {entry : Entry} (h : store.disk.status (store.path key) = .ok entry) :
    store.load key = readEntry (some entry) := by
  rw [load, Disk.hasEntry, Disk.readText, Disk.readFile, h]
  cases entry with
  | directory => rfl
  | file content =>
    simp only [if_true, readEntry]
    cases String.fromUTF8? content <;> rfl

/-- Where nothing is at its path no document is loaded. -/
theorem load_of_missing (hmissing : store.disk.hasEntry (store.path key) = false) :
    store.load key = .ok none := by
  rw [load, if_neg (by simp [hmissing])]

/-- **What is loaded is what the room has under the document's file**, where
no symbolic link has that name. -/
theorem load_of_room (hkey : isIdentifier key.table = true)
    (hfits : Disk.Fits store.directory key.fileName) (hroom : store.room? = some room)
    (hplain : store.disk.target? (room ++ [key.fileName]) = none) :
    store.load key = readEntry (store.disk.entry? (room ++ [key.fileName])) := by
  have hstatus := Disk.status_join (DocumentKey.isName_fileName hkey) hfits hroom hplain
  cases hentry : store.disk.entry? (room ++ [key.fileName]) with
  | none =>
    rw [hentry] at hstatus
    rw [load, path, Disk.hasEntry, hstatus]
    rfl
  | some entry =>
    rw [hentry] at hstatus
    exact load_of_status hstatus

/-- Where there is no room or no name, nothing is loaded. -/
theorem load_of_none (hkey : isIdentifier key.table = true)
    (hnone : store.room? = none ∨ ¬ Disk.Fits store.directory key.fileName) :
    store.load key = .ok none := by
  obtain ⟨e, hstatus⟩ := Disk.status_join_error (DocumentKey.isName_fileName hkey) hnone
  rw [load, path, Disk.hasEntry, hstatus]
  rfl

/-- Where the room has nothing under its name, nothing is loaded either. -/
theorem load_of_vacant (hkey : isIdentifier key.table = true) (hroom : store.room? = some room)
    (hnone : store.disk.node? (room ++ [key.fileName]) = none) : store.load key = .ok none := by
  by_cases hfits : Disk.Fits store.directory key.fileName
  · obtain ⟨hlink, hentry⟩ := Disk.node?_eq_none_iff.1 hnone
    rw [load_of_room hkey hfits hroom (Disk.target?_of_link? hlink), hentry]
    rfl
  · exact load_of_none hkey (.inr hfits)

/-- **The listed tables are those with a file of a base document.** -/
theorem mem_tableNames {names : List String} (h : store.tableNames = .ok names) (name : String) :
    name ∈ names ↔ isIdentifier name = true ∧ store.disk.hasEntry store.directory = true ∧
      ∃ room, store.room? = some room ∧
        ∃ node, store.disk.node? (room ++ [(DocumentKey.base name).fileName]) = some node := by
  unfold tableNames at h
  split at h
  · next hthere =>
    split at h
    · cases h
    · next listed hlisted =>
      cases h
      obtain ⟨room, hroom, hmem⟩ := Disk.mem_listNames hlisted
      rw [List.mem_mergeSort, List.mem_filterMap]
      constructor
      · rintro ⟨fileName, hin, htable⟩
        obtain ⟨hid, rfl⟩ := tableOf?_eq_some_iff.1 htable
        exact ⟨hid, hthere, room, hroom, (hmem _).1 hin⟩
      · rintro ⟨hid, -, room', hroom', hsome⟩
        obtain rfl : room = room' := Option.some.inj (hroom.symm.trans hroom')
        exact ⟨_, (hmem _).2 hsome, tableOf?_eq_some_iff.2 ⟨hid, rfl⟩⟩
  · next hthere =>
    cases h
    simp [hthere]

/-- Where the directory is missing no table is listed. -/
theorem tableNames_of_missing (hmissing : store.disk.hasEntry store.directory = false) :
    store.tableNames = .ok [] := by
  rw [tableNames, if_neg (by simp [hmissing])]

/-- Tables can be listed where the directory is missing, and where it has a
room. -/
theorem tableNames_isOk (store : DirectoryStore) (h : store.disk.hasEntry store.directory = true →
    ∃ room, store.room? = some room) : ∃ names, store.tableNames = .ok names := by
  unfold tableNames
  split
  · next hthere =>
    obtain ⟨room, hroom⟩ := h hthere
    obtain ⟨names, hnames⟩ := Disk.listNames_isOk hroom hthere
    rw [hnames]
    exact ⟨_, rfl⟩
  · exact ⟨_, rfl⟩

/-- Where tables can be listed, the directory has a room if it is there. -/
theorem room_of_tableNames {names : List String} (h : store.tableNames = .ok names)
    (hthere : store.disk.hasEntry store.directory = true) : ∃ room, store.room? = some room := by
  rw [tableNames, if_pos hthere] at h
  split at h
  · cases h
  · next listed hlisted =>
    obtain ⟨room, hroom, -⟩ := Disk.mem_listNames hlisted
    exact ⟨room, hroom⟩

/-! ## Changes of the disk -/

/-- The later store has its files in the place of the earlier one, no link has
come, and no file with several names has been written. -/
structure SamePlace (store later : DirectoryStore) : Prop where
  directory : later.directory = store.directory
  links : Disk.NoNewLinks store.disk later.disk
  shared : later.disk.shared = store.disk.shared
  there : later.disk.hasEntry later.directory = store.disk.hasEntry store.directory
  room : later.room? = store.room?

/-- A directory that is at one location before and after is found in both or
in neither. -/
theorem samePlace_of_room (hdirectory : later.directory = store.directory)
    (hlinks : Disk.NoNewLinks store.disk later.disk)
    (hshared : later.disk.shared = store.disk.shared) (hroom : store.room? = some room)
    (hlater : later.room? = some room) : SamePlace store later := by
  refine ⟨hdirectory, hlinks, hshared, ?_, hlater.trans hroom.symm⟩
  rw [Bool.eq_iff_iff, hdirectory]
  rw [room?, hdirectory] at hlater
  exact (Disk.hasEntry_of_room hlater).trans (Disk.hasEntry_of_room hroom).symm

theorem SamePlace.fits (h : SamePlace store later) {name : String}
    (hfits : Disk.Fits store.directory name) : Disk.Fits later.directory name := by
  rwa [h.directory]

/-- A store lists tables as long as its place does not change. -/
theorem SamePlace.tableNames_isOk (h : SamePlace store later) {names : List String}
    (hnames : store.tableNames = .ok names) : ∃ more, later.tableNames = .ok more := by
  refine later.tableNames_isOk fun hthere => ?_
  obtain ⟨room, hroom⟩ := room_of_tableNames hnames (h.there ▸ hthere)
  exact ⟨room, h.room.trans hroom⟩

/-- **Documents are the same when the room has the same under their
names.** -/
theorem SamePlace.sameDocuments (h : SamePlace store later) (hunlinked : store.Unlinked)
    (hnode : ∀ room, store.room? = some room → ∀ key : DocumentKey,
      isIdentifier key.table = true → later.disk.node? (room ++ [key.fileName]) =
        store.disk.node? (room ++ [key.fileName])) : Storage.SameDocuments store later := by
  refine ⟨fun key hkey => ?_, fun names hnames => ?_⟩
  · show later.load key = store.load key
    by_cases hnone : store.room? = none ∨ ¬ Disk.Fits store.directory key.fileName
    · rw [load_of_none hkey hnone, load_of_none hkey (by rwa [h.room, h.directory])]
    · obtain ⟨hsome, hfits⟩ := not_or.mp hnone
      obtain ⟨room, hroom⟩ := Option.ne_none_iff_exists'.mp hsome
      have hbefore : Disk.Fits store.directory key.fileName := Classical.not_not.mp hfits
      have hplain := hunlinked.target?_fileName hroom hkey
      rw [load_of_room hkey hbefore hroom hplain,
        load_of_room hkey (h.fits hbefore) (h.room.trans hroom) ((h.links.target _).trans hplain),
        Disk.entry?_congr h.shared (hnode room hroom key hkey)]
  · obtain ⟨more, hmore⟩ := h.tableNames_isOk hnames
    refine ⟨more, hmore, fun name => ?_⟩
    rw [mem_tableNames hmore, mem_tableNames hnames, h.there, h.room]
    constructor
    · rintro ⟨hid, hthere, room, hroom, hsome⟩
      exact ⟨hid, hthere, room, hroom, hnode room hroom (.base name) hid ▸ hsome⟩
    · rintro ⟨hid, hthere, room, hroom, hsome⟩
      exact ⟨hid, hthere, room, hroom, (hnode room hroom (.base name) hid).symm ▸ hsome⟩

/-- **One document is stored when its name alone has changed, to the
document's text.** -/
theorem SamePlace.stored (h : SamePlace store later) (hunlinked : store.Unlinked)
    (hkey : isIdentifier key.table = true)
    (hfits : Disk.Fits store.directory key.fileName) (hroom : store.room? = some room)
    (hhere : later.disk.node? (room ++ [key.fileName]) =
      some (.entry (.file document.json.toUTF8)))
    (helse : ∀ other : DocumentKey, isIdentifier other.table = true → other ≠ key →
      later.disk.node? (room ++ [other.fileName]) =
        store.disk.node? (room ++ [other.fileName])) :
    Storage.Stored store later key document := by
  refine ⟨?_, fun other hother hne => ?_, fun names hnames => ?_⟩
  · show later.load key = _
    have hplain := Disk.target?_of_link? (Disk.link?_of_node? hhere)
    rw [load_of_room hkey (h.fits hfits) (h.room.trans hroom) hplain,
      Disk.entry?_of_node? hhere, readEntry_json]
  · show later.load other = store.load other
    by_cases hfits : Disk.Fits store.directory other.fileName
    · have hplain := hunlinked.target?_fileName hroom hother
      rw [load_of_room hother hfits hroom hplain,
        load_of_room hother (h.fits hfits) (h.room.trans hroom) ((h.links.target _).trans hplain),
        Disk.entry?_congr h.shared (helse other hother hne)]
    · have hlater : ¬ Disk.Fits later.directory other.fileName := by rwa [h.directory]
      rw [load_of_none hother (.inr hfits), load_of_none hother (.inr hlater)]
  · obtain ⟨more, hmore⟩ := h.tableNames_isOk hnames
    have hlater := h.room.trans hroom
    refine ⟨more, hmore, fun name hname => ?_, fun name hname => ?_⟩
    · rw [mem_tableNames hnames] at hname
      obtain ⟨hid, hthere, room', hroom', hsome⟩ := hname
      obtain rfl : room = room' := Option.some.inj (hroom.symm.trans hroom')
      refine (mem_tableNames hmore name).2 ⟨hid, h.there ▸ hthere, room, hlater, ?_⟩
      by_cases hsame : DocumentKey.base name = key
      · rw [hsame, hhere]
        exact ⟨_, rfl⟩
      · rw [helse (.base name) hid hsame]
        exact hsome
    · rw [mem_tableNames hmore] at hname
      obtain ⟨hid, hthere, room', hroom', hsome⟩ := hname
      obtain rfl : room = room' := Option.some.inj (hlater.symm.trans hroom')
      by_cases hsame : DocumentKey.base name = key
      · exact .inr hsame.symm
      · rw [helse (.base name) hid hsame] at hsome
        exact .inl ((mem_tableNames hnames name).2 ⟨hid, h.there ▸ hthere, room, hroom, hsome⟩)

end DirectoryStore

end ShardStore

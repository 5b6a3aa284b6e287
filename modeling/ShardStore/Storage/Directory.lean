import ShardStore.Disk
import ShardStore.Document.Json
import ShardStore.Storage
/-!
# Storage — in a directory

Each document is one JSON file in a data directory: `users.json` for a
base document, `users.shard-0.json` and `users.partition-1.json` for
fragments. A document is first written to a temporary file beside its own
and then moved onto it (`storeSteps`), so that a file with a document's
name always holds a whole document.
-/

namespace ShardStore

open Text

namespace DocumentKey

/-- The name of a document's file without its last extension. -/
def stem (key : DocumentKey) : String :=
  match key.fragment with
  | none => key.table
  | some id => key.table ++ "." ++ id.name

/-- The name of a document's file. -/
def fileName (key : DocumentKey) : String :=
  key.stem ++ ".json"

/-- The name of the file that a document is first written to. The extension
of the document's file is taken off, up to its dot, and another one put in
its place. Two names take no other extension so: one that is nothing but an
extension is kept whole in front of it, and one that is left as two dots
names the directory above, where nothing is ever written. -/
def temporaryName (key : DocumentKey) : String :=
  match (Path.pieces key.stem).getLast? with
  | some "" => key.fileName ++ ".json.tmp"
  | some "." => key.stem ++ "."
  | _ => key.stem ++ ".json.tmp"

end DocumentKey

/-- Documents kept as files of a directory on a disk. -/
structure DirectoryStore where
  directory : String
  disk : Disk

namespace DirectoryStore

/-- The path of a document's file. -/
def path (store : DirectoryStore) (key : DocumentKey) : String :=
  Path.join store.directory key.fileName

/-- The path of the file that a document is first written to. -/
def temporaryPath (store : DirectoryStore) (key : DocumentKey) : String :=
  Path.join store.directory key.temporaryName

/-- The changes that store a document: the directory is made if nothing is
there, the document is written beside its file, and moved onto it. -/
def storeSteps (store : DirectoryStore) (key : DocumentKey) (document : Document) :
    List DiskStep :=
  (if store.disk.hasEntry store.directory then [] else [.makeDirectories store.directory]) ++
    [.writeFile (store.temporaryPath key) document.json.toUTF8,
     .renameFile (store.temporaryPath key) (store.path key)]

/-- Keeps a document as a file. -/
def store (store : DirectoryStore) (key : DocumentKey) (document : Document) :
    Except StorageError Unit × DirectoryStore :=
  match DiskStep.runAll (store.storeSteps key document) store.disk with
  | (.ok (), disk) => (.ok (), { store with disk })
  | (.error e, disk) => (.error (.disk e), { store with disk })

/-- The document in a file, if there is one. -/
def load (store : DirectoryStore) (key : DocumentKey) : Except StorageError (Option Document) :=
  if store.disk.hasEntry (store.path key) then
    match store.disk.readText (store.path key) with
    | .error e => .error (.disk e)
    | .ok text =>
      match Document.ofJson text with
      | .error e => .error (.unreadable e)
      | .ok document => .ok (some document)
  else
    .ok none

/-- The table whose base document a file name belongs to. -/
def tableOf? (fileName : String) : Option String :=
  match after? ".json".toList.reverse fileName.toList.reverse with
  | some stem =>
    let table := String.ofList stem.reverse
    if isIdentifier table then some table else none
  | none => none

/-- The tables that have a base document. -/
def tableNames (store : DirectoryStore) : Except StorageError (List String) :=
  if store.disk.hasEntry store.directory then
    match store.disk.listNames store.directory with
    | .error e => .error (.disk e)
    | .ok names => .ok (names.filterMap tableOf?).mergeSort
  else
    .ok []

instance : Storage DirectoryStore where
  store := store
  load := load
  tableNames := tableNames

end DirectoryStore

end ShardStore

import Std.Data.ExtTreeMap
import ShardStore.Disk.Path
/-!
# Disk

A disk holds directories and files, each at a location below the root, and
a working directory at which relative paths start. There are links of both
kinds: a symbolic link holds a path, which is followed wherever a path
leads on from the link, and a file can have several names. An operation is
refused with a cause, or it changes what is at the locations its paths lead
to and nothing else. A sequence of operations (`DiskStep`) stops at the
first one that is refused and keeps what was done before.
-/

namespace ShardStore

/-- The steps from the root to a place on a disk. -/
abbrev Location := List String

/-- Contents of files are compared as the bytes they hold. -/
instance decidableEqContent : DecidableEq ByteArray := fun a b =>
  decidable_of_iff (a.data = b.data) (ByteArray.ext_iff).symm

/-- A directory, or a file with its content. -/
inductive Entry where
  | directory
  | file (content : ByteArray)
deriving DecidableEq

/-- A way to what is there under another name as well. -/
inductive Link where
  /-- A path to follow. -/
  | symbolic (target : String)
  /-- One of the names of a file that has several, which tells the file by
  a number. -/
  | hard (file : Nat)
deriving DecidableEq

/-- What is at a location itself. -/
inductive Node where
  | entry (entry : Entry)
  | link (link : Link)
deriving DecidableEq

/-- What is below the root, the files that have several names, and the
place at which relative paths start. -/
structure Disk where
  nodes : Std.ExtTreeMap Location Node
  shared : Std.ExtTreeMap Nat ByteArray
  workingDirectory : Location

namespace Disk

/-- What is at a location itself; the root is a directory. -/
def node? (disk : Disk) (location : Location) : Option Node :=
  if location = [] then some (.entry .directory) else disk.nodes[location]?

/-- The link that is at a location. -/
def link? (disk : Disk) (location : Location) : Option Link :=
  match disk.node? location with
  | some (.link link) => some link
  | _ => none

/-- The path to follow from a location. -/
def target? (disk : Disk) (location : Location) : Option String :=
  match disk.link? location with
  | some (.symbolic target) => some target
  | _ => none

/-- The content of a file that has several names. -/
def sharedContent (disk : Disk) (file : Nat) : ByteArray :=
  disk.shared[file]?.getD ByteArray.empty

/-- The directory or the file at a location. No path is followed there. -/
def entry? (disk : Disk) (location : Location) : Option Entry :=
  match disk.node? location with
  | some (.entry entry) => some entry
  | some (.link (.hard file)) => some (.file (disk.sharedContent file))
  | _ => none

/-- The disk with something at a location. -/
def place (disk : Disk) (location : Location) (node : Node) : Disk :=
  { disk with nodes := disk.nodes.insert location node }

/-- The disk with an entry at a location. -/
def put (disk : Disk) (location : Location) (entry : Entry) : Disk :=
  disk.place location (.entry entry)

/-- The disk without what is at a location. -/
def remove (disk : Disk) (location : Location) : Disk :=
  { disk with nodes := disk.nodes.erase location }

/-- The disk with a content in the file at a location. A file that has
several names has it under all of them. -/
def write (disk : Disk) (location : Location) (content : ByteArray) : Disk :=
  match disk.link? location with
  | some (.hard file) => { disk with shared := disk.shared.insert file content }
  | _ => disk.put location (.file content)

/-! ## Finding what a path names -/

/-- The number of bytes up to which a step is a name. -/
def maxNameLength : Nat := 255

/-- The number of symbolic links that are followed for one path. -/
def maxLinks : Nat := 40

/-- Refuses a location that is no directory. -/
def enter (disk : Disk) (location : Location) : Except DiskError Unit :=
  match disk.entry? location with
  | some .directory => .ok ()
  | some (.file _) => .error .notDirectory
  | none => .error .notFound

/-- Takes steps from a location, each from a directory, up to the first
symbolic link. The last step leads to a link itself unless it is to lead
through it. -/
def walk (disk : Disk) (through : Bool)
    (onLink : Location → String → List String → Except DiskError Location) (here : Location) :
    List String → Except DiskError Location
  | [] => .ok here
  | step :: steps =>
    match disk.enter here with
    | .error e => .error e
    | .ok () =>
      if step = ".." then disk.walk through onLink here.dropLast steps
      else if maxNameLength < step.utf8ByteSize then .error .nameTooLong
      else
        match disk.target? (here ++ [step]) with
        | none => disk.walk through onLink (here ++ [step]) steps
        | some target =>
          if steps = [] ∧ through = false then .ok (here ++ [step])
          else onLink here target steps

/-- Refuses a location that is no directory if the end of a path asks for
one. -/
def accept (disk : Disk) (ending : PathEnd) (location : Location) : Except DiskError Location :=
  if ending = .step then .ok location
  else
    match disk.enter location with
    | .error e => .error e
    | .ok () => .ok location

/-- Goes on along the path that a symbolic link in a directory holds, and
then along the steps that are left. -/
def alongLink (disk : Disk) (goOn : Location → List String → Except DiskError Location)
    (directory : Location) (target : String) (steps : List String) : Except DiskError Location :=
  match Path.parse target with
  | .error e => .error e
  | .ok path =>
    match goOn (if path.absolute then [] else directory) (path.steps ++ steps) with
    | .error e => .error e
    | .ok there => if steps = [] then disk.accept path.ending there else .ok there

/-- Follows steps from a location, and in the place of each symbolic link
the steps of its path, for a number of links. -/
def follow (disk : Disk) (through : Bool) :
    Nat → Location → List String → Except DiskError Location
  | 0 => disk.walk through fun _ _ _ => .error .tooManyLinks
  | links + 1 => disk.walk through (disk.alongLink (disk.follow through links))

theorem follow_zero (disk : Disk) (through : Bool) :
    disk.follow through 0 = disk.walk through fun _ _ _ => .error .tooManyLinks := by
  rw [follow]

theorem follow_succ (disk : Disk) (through : Bool) (links : Nat) :
    disk.follow through (links + 1) =
      disk.walk through (disk.alongLink (disk.follow through links)) := by
  rw [follow]

-- What a path leads to is computed, or proved from the two equations.
attribute [irreducible] follow

/-- The location at which a path starts. -/
def start (disk : Disk) (path : Path) : Location :=
  if path.absolute then [] else disk.workingDirectory

/-- The location that a path names, where something may be or not. A link
there is named itself, but not by a path that ends in a dot. -/
def locate (disk : Disk) (path : Path) : Except DiskError Location :=
  disk.follow (path.ending = .dot) maxLinks (disk.start path) path.steps

/-- The location that a path leads to, through a link at its end. -/
def reach (disk : Disk) (path : Path) : Except DiskError Location :=
  disk.follow true maxLinks (disk.start path) path.steps

/-- What is where a path leads. -/
def find (disk : Disk) (path : Path) : Except DiskError Entry :=
  match disk.reach path with
  | .error e => .error e
  | .ok location =>
    match disk.entry? location with
    | none => .error .notFound
    | some .directory => .ok .directory
    | some (.file content) =>
      if path.ending = .step then .ok (.file content) else .error .notDirectory

/-- What is at a path. -/
def status (disk : Disk) (path : String) : Except DiskError Entry :=
  match Path.parse path with
  | .error e => .error e
  | .ok path => disk.find path

/-- Whether something is at a path. -/
def hasEntry (disk : Disk) (path : String) : Bool :=
  match disk.status path with
  | .ok _ => true
  | .error _ => false

/-! ## Reading -/

/-- The content of the file at a path. -/
def readFile (disk : Disk) (path : String) : Except DiskError ByteArray :=
  match disk.status path with
  | .error e => .error e
  | .ok .directory => .error .isDirectory
  | .ok (.file content) => .ok content

/-- The text in the file at a path. -/
def readText (disk : Disk) (path : String) : Except DiskError String :=
  match disk.readFile path with
  | .error e => .error e
  | .ok content =>
    match String.fromUTF8? content with
    | some text => .ok text
    | none => .error .notText

/-- The name of what is directly in a directory. -/
def nameIn? (directory location : Location) : Option String :=
  match location.getLast? with
  | some name => if location.dropLast = directory then some name else none
  | none => none

/-- The names directly in the directory at a path, in order. -/
def listNames (disk : Disk) (path : String) : Except DiskError (List String) :=
  match Path.parse path with
  | .error e => .error e
  | .ok path =>
    match disk.reach path with
    | .error e => .error e
    | .ok location =>
      match disk.enter location with
      | .error e => .error e
      | .ok () => .ok (disk.nodes.keys.filterMap (nameIn? location))

/-! ## Changing -/

/-- Makes one directory. A path that ends in a dot names only what is
there. -/
def makeDirectory (disk : Disk) (path : Path) : Except DiskError Unit × Disk :=
  match disk.locate path with
  | .error e => (.error e, disk)
  | .ok location =>
    match disk.node? location with
    | some _ => (.error .alreadyExists, disk)
    | none =>
      if path.ending = .dot then (.error .notFound, disk)
      else (.ok (), disk.put location .directory)

/-- Makes a directory unless there is one. -/
def ensureDirectory (disk : Disk) (path : Path) : Except DiskError Unit × Disk :=
  match disk.makeDirectory path with
  | (.ok (), disk) => (.ok (), disk)
  | (.error e, disk) =>
    match disk.find path with
    | .ok .directory => (.ok (), disk)
    | _ => (.error e, disk)

/-- Makes the directories on the way along `ahead`, of which `behind` has
been made, and last the directory that the whole path names. -/
def ensureAlong (disk : Disk) (path : Path) (behind : List String) :
    List String → Except DiskError Unit × Disk
  | [] => disk.ensureDirectory path
  | [_] => disk.ensureDirectory path
  | step :: next :: ahead =>
    match disk.ensureDirectory ⟨path.absolute, behind ++ [step], .step⟩ with
    | (.error e, disk) => (.error e, disk)
    | (.ok (), disk) => disk.ensureAlong path (behind ++ [step]) (next :: ahead)

/-- Makes the directory at a path and those on the way to it. The path
without a name is taken as made. -/
def makeDirectories (disk : Disk) (path : String) : Except DiskError Unit × Disk :=
  if path.toList.isEmpty then (.ok (), disk)
  else
    match Path.parse path with
    | .error e => (.error e, disk)
    | .ok path => disk.ensureAlong path [] path.steps

/-- Writes a file, which replaces the content of the one that is there. -/
def writeFile (disk : Disk) (path : String) (content : ByteArray) : Except DiskError Unit × Disk :=
  match Path.parse path with
  | .error e => (.error e, disk)
  | .ok path =>
    match disk.reach path with
    | .error e => (.error e, disk)
    | .ok location =>
      match disk.entry? location with
      | some .directory => (.error .isDirectory, disk)
      | _ =>
        if path.ending = .step then (.ok (), disk.write location content)
        else (.error .isDirectory, disk)

/-- Whether two locations are names of one file that has several. -/
def areOneFile (disk : Disk) (here there : Location) : Bool :=
  match disk.link? here with
  | some (.hard file) => disk.link? there = some (.hard file)
  | _ => false

/-- Moves a file or a link onto another path, and replaces the file or the
link that is there. Two names of one file stay as they are. -/
def renameFile (disk : Disk) (source target : String) : Except DiskError Unit × Disk :=
  match Path.parse source, Path.parse target with
  | .error e, _ => (.error e, disk)
  | _, .error e => (.error e, disk)
  | .ok source, .ok target =>
    match disk.locate source, disk.locate target with
    | .error e, _ => (.error e, disk)
    | _, .error e => (.error e, disk)
    | .ok old, .ok new =>
      match disk.node? old with
      | none => (.error .notFound, disk)
      | some (.entry .directory) => (.error .isDirectory, disk)
      | some node =>
        match disk.entry? new with
        | some .directory => (.error .isDirectory, disk)
        | _ =>
          if source.ending = .step ∧ target.ending = .step then
            (.ok (), if disk.areOneFile old new then disk else (disk.remove old).place new node)
          else (.error .notDirectory, disk)

end Disk

/-- One change of a disk. -/
inductive DiskStep where
  | makeDirectories (path : String)
  | writeFile (path : String) (content : ByteArray)
  | renameFile (source target : String)
deriving DecidableEq

namespace DiskStep

/-- Carries out one change. -/
def run : DiskStep → Disk → Except DiskError Unit × Disk
  | makeDirectories path, disk => disk.makeDirectories path
  | writeFile path content, disk => disk.writeFile path content
  | renameFile source target, disk => disk.renameFile source target

/-- Carries out changes in order, up to the first one that is refused. -/
def runAll : List DiskStep → Disk → Except DiskError Unit × Disk
  | [], disk => (.ok (), disk)
  | step :: steps, disk =>
    match step.run disk with
    | (.error e, disk) => (.error e, disk)
    | (.ok (), disk) => runAll steps disk

end DiskStep

end ShardStore

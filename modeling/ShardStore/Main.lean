import ShardStore.Disk.Changes
import ShardStore.Program
/-!
# The command line

Looks at the real disk, through its links, runs the program on what is
there, and carries out what it changed after every line.
-/

namespace ShardStore

namespace CommandLine

/-- The disk with what is really at a location. -/
def observe (disk : Disk) (location : Location) : IO Disk := do
  let path := (← IO.currentDir).join (Location.path location)
  if ← path.isDir then
    return disk.put location .directory
  if ← path.pathExists then
    return disk.put location (.file (← IO.FS.readBinFile path))
  return disk

/-- The disk with what is really along steps from a location, and the
location to which they lead. -/
def observeAlong (disk : Disk) (here : Location) : List String → IO (Disk × Location)
  | [] => return (disk, here)
  | step :: steps =>
    if step = ".." then observeAlong disk here.dropLast steps
    else do
      let disk ← observe disk (here ++ [step])
      observeAlong disk (here ++ [step]) steps

/-- The disk with what is really on the way to a path, and at its end. -/
def observePath (disk : Disk) (path : String) : IO (Disk × Location) :=
  match Path.parse path with
  | .error _ => return (disk, disk.workingDirectory)
  | .ok path => observeAlong disk (disk.start path) path.steps

/-- The disk with what is really in a directory. -/
def observeDirectory (disk : Disk) (path : String) : IO Disk := do
  let (disk, location) ← observePath disk path
  let directory := (← IO.currentDir).join (Location.path location)
  if ← directory.isDir then
    let mut disk := disk
    for entry in ← directory.readDir do
      disk ← observe disk (location ++ [entry.fileName])
    return disk
  return disk

/-- The disk with its working directory. -/
def observeHere : IO Disk := do
  let here := ((Path.pieces (← IO.currentDir).toString).filter (· != ""))
  return (← observeAlong ⟨∅, ∅, here⟩ [] here).1

/-- Carries out a change on the real disk. -/
def carryOut : DiskStep → IO Unit
  | .makeDirectories path => IO.FS.createDirAll path
  | .writeFile path content => IO.FS.writeBinFile path content
  | .renameFile source target => IO.FS.rename source target

/-- The value of a variable among the bytes that a process was started
with, in which every variable ends with a zero byte. -/
def valueIn? (started : ByteArray) (name : String) : Option ByteArray :=
  let key := (name ++ "=").toUTF8.toList
  let found := (started.toList.splitOn 0).find? key.isPrefixOf
  found.map fun entry => ⟨(entry.drop key.length).toArray⟩

/-- The bytes of a variable. They are looked up where the system keeps them,
since otherwise only texts are handed out, with signs in place of the bytes
that are none. -/
def valueOf (name : String) : IO (Option ByteArray) := do
  try
    return valueIn? (← IO.FS.readBinFile "/proc/self/environ") name
  catch _ =>
    return (← IO.getEnv name).map String.toUTF8

/-- The variables of the environment that the program reads. -/
def environment : IO Environment := do
  return {
    dataDirectory := ← valueOf "SCALEDB_DATA_DIR"
    shardSize := ← valueOf "SCALEDB_SHARD_SIZE"
    logLevel := ← valueOf "SCALEDB_LOG_LEVEL" }

/-- Reads the bytes of a line, its line feed included. -/
partial def readLine (input : IO.FS.Stream) (line : List UInt8) : IO (List UInt8) := do
  match (← input.read 1).toList with
  | [b] => if b = 10 then return (b :: line).reverse else readLine input (b :: line)
  | _ => return line.reverse

/-- Shows replies with the time that their line took. -/
def say (micros : Nat) (replies : List Shell.Reply) : IO Unit := do
  let output ← IO.getStdout
  for reply in replies do
    output.putStr (reply.render micros)
  output.flush

/-- Reads lines and carries out their commands until the shell ends. -/
partial def interact (interactive : Bool) (shell : Shell DirectoryStore) : IO UInt32 := do
  say 0 (Shell.promptReplies interactive)
  let line ← readLine (← IO.getStdin) []
  if line.isEmpty then
    return 0
  match Shell.decodeLine? line with
  | none => return 1
  | some text =>
    let started ← IO.monoNanosNow
    let (replies, goesOn, later) ← IO.lazyPure fun _ => shell.performLine text
    let ended ← IO.monoNanosNow
    for step in shell.database.storage.disk.changesTo later.database.storage.disk do
      carryOut step
    say ((ended - started) / 1000) replies
    if goesOn then
      interact interactive later
    else
      say 0 (Shell.farewellReplies interactive)
      return 0

/-- What the program starts with, given all that it may look at. -/
def begin (words : List String) : IO Program.Start := do
  let env ← environment
  let disk ← observeHere
  let disk ← match Arguments.parse {} words with
    | .ok (some given) => do
      let disk ← match given.settingsFile with
        | some path => pure (← observePath disk path).1
        | none => pure disk
      match given.settle disk env with
      | .ok settings => observeDirectory disk settings.dataDirectory
      | .error _ => pure disk
    | _ => pure disk
  return Program.start words env disk

end CommandLine

end ShardStore

open ShardStore in
/-- Runs the program. -/
def main (words : List String) : IO UInt32 := do
  let name := Program.name [(← IO.appPath).toString]
  match ← CommandLine.begin words with
  | .help =>
    IO.print (Program.usageText name)
    return 0
  | .refused why =>
    IO.eprintln why.message
    if why matches .arguments _ then
      IO.print (Program.usageText name)
    return UInt32.ofNat why.exitCode
  | .shell shell =>
    let interactive ← (← IO.getStdin).isTty
    CommandLine.say 0 (shell.welcomeReplies interactive)
    CommandLine.interact interactive shell

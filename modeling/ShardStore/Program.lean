import ShardStore.Settings
import ShardStore.Shell
import ShardStore.Storage.Directory
/-!
# The program

The program reads its arguments, settles its settings, opens the data
directory, and runs the shell on its input. An argument beats the
environment, the environment beats the settings file, and that beats the
defaults; but a source that is refused is refused, whatever a stronger one
says.
-/

namespace ShardStore

/-- What the arguments ask for. -/
structure Arguments where
  settingsFile : Option String := none
  dataDirectory : Option String := none
  shardSize : Option Nat := none
deriving DecidableEq, Repr

/-- Why the arguments were refused. -/
inductive ArgumentError where
  | missingValue (option : String) (value : String)
  | sizeNotNumber (text : String)
  | unknown (argument : String)
deriving DecidableEq, Repr

namespace ArgumentError

/-- The wording of refused arguments. -/
def message : ArgumentError → String
  | missingValue option value => s!"{option} needs {value}"
  | sizeNotNumber text => s!"--shard-size is not a number: {text}"
  | unknown argument => s!"Unknown argument: {argument}"

end ArgumentError

namespace Arguments

/-- Reads arguments from the left onto those that were read before; none
is yielded where help is asked for. The argument after an option is its
value, whatever it looks like. -/
def parse (given : Arguments) : List String → Except ArgumentError (Option Arguments)
  | [] => .ok (some given)
  | argument :: rest =>
    if argument = "-h" ∨ argument = "--help" ∨ argument = "help" then .ok none
    else if argument = "--config" then
      match rest with
      | [] => .error (.missingValue argument "a path")
      | path :: rest => parse { given with settingsFile := some path } rest
    else if argument = "--data-dir" then
      match rest with
      | [] => .error (.missingValue argument "a path")
      | directory :: rest => parse { given with dataDirectory := some directory } rest
    else if argument = "--shard-size" then
      match rest with
      | [] => .error (.missingValue argument "a number")
      | size :: rest =>
        match Text.readSize? size.toList with
        | none => .error (.sizeNotNumber size)
        | some n => parse { given with shardSize := some n } rest
    else .error (.unknown argument)

/-- The settings with those of the arguments in place of them. -/
def laidOver (given : Arguments) (settings : Settings) : Settings :=
  { settings with
    dataDirectory := given.dataDirectory.getD settings.dataDirectory
    defaultShardSize := given.shardSize.getD settings.defaultShardSize }

/-- The settings of a run: file, environment and arguments in turn, each of
which may be refused. -/
def settle (given : Arguments) (disk : Disk) (env : Environment) :
    Except SettingsError Settings :=
  let base := match given.settingsFile with
    | some path => Settings.ofFile disk path
    | none => .ok {}
  match base with
  | .error e => .error e
  | .ok settings =>
    match settings.override env with
    | (.error e, _) => .error e
    | (.ok (), settings) =>
      match (given.laidOver settings).validate with
      | .error e => .error e
      | .ok () => .ok (given.laidOver settings)

end Arguments

/-- Why the program did not start its shell. -/
inductive Refusal where
  | arguments (cause : ArgumentError)
  | settings (cause : SettingsError)
  | storage (cause : DatabaseError)
deriving DecidableEq, Repr

namespace Refusal

/-- The wording of a refusal. -/
def message : Refusal → String
  | arguments cause => "❌ " ++ cause.message
  | settings cause => "❌ " ++ (DatabaseError.settings cause).message
  | storage cause => "Failed to open store: " ++ cause.message

/-- The exit code of a refusal. -/
def exitCode : Refusal → Nat
  | arguments _ => 2
  | settings _ => 2
  | storage _ => 1

end Refusal

namespace Program

/-- The lines that explain the arguments. -/
def usage (program : String) : List String :=
  ["Usage:",
   s!"  {program} [--config <file>] [--data-dir <dir>] [--shard-size <n>]",
   s!"  {program} --help",
   "",
   "Environment:",
   "  SCALEDB_DATA_DIR     data directory (default: data)",
   "  SCALEDB_SHARD_SIZE   default rows per shard (default: 5)",
   "  SCALEDB_LOG_LEVEL    log filter when RUST_LOG is unset (default: info)"]

/-- The usage as a text. -/
def usageText (program : String) : String :=
  String.join ((usage program).map (· ++ "\n"))

/-- The name of the program, which is the first word that started it. -/
def name (words : List String) : String :=
  words.head?.getD "scaledb"

/-- What the program does once its arguments, its environment and its disk
are known. -/
inductive Start where
  /-- Show the usage and end. -/
  | help
  /-- Tell why there is nothing to do, and end. -/
  | refused (why : Refusal)
  /-- Run a shell. -/
  | shell (shell : Shell DirectoryStore)

/-- Opens the shell that settings ask for. -/
def openShell (settings : Settings) (disk : Disk) : Start :=
  match Database.load (⟨settings.dataDirectory, disk⟩ : DirectoryStore) with
  | .error e => .refused (.storage e)
  | .ok database => .shell ⟨database, settings.defaultShardSize⟩

/-- Starts the program with the words after its name. -/
def start (words : List String) (env : Environment) (disk : Disk) : Start :=
  match Arguments.parse {} words with
  | .error e => .refused (.arguments e)
  | .ok none => .help
  | .ok (some given) =>
    match given.settle disk env with
    | .error e => .refused (.settings e)
    | .ok settings => openShell settings disk

/-- What a run of the program shows and leaves. -/
structure Outcome where
  exitCode : Nat
  /-- What it said, without times. -/
  replies : List Shell.Reply
  /-- Whether it showed its usage. -/
  showsUsage : Bool
  refusal : Option Refusal
  disk : Disk

namespace Outcome

/-- The text that a run shows, with one time for every command. -/
def text (outcome : Outcome) (program : String) (micros : Nat) : String :=
  if outcome.showsUsage then usageText program
  else String.join (outcome.replies.map (·.render micros))

end Outcome

/-- The exit code of a run of the shell. -/
def endingCode : Shell.Ending → Nat
  | .finished => 0
  | .invalidText => 1

/-- Runs the program on an input that is no terminal. -/
def run (words : List String) (env : Environment) (disk : Disk) (input : List UInt8) : Outcome :=
  match start words env disk with
  | .help => ⟨0, [], true, none, disk⟩
  | .refused why => ⟨why.exitCode, [], why matches .arguments _, some why, disk⟩
  | .shell shell =>
    let transcript := shell.run false input
    ⟨endingCode transcript.ending, transcript.replies, false, none,
      transcript.shell.database.storage.disk⟩

end Program

end ShardStore

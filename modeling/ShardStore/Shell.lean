import ShardStore.Database
import ShardStore.Shell.Command
import ShardStore.Shell.Reply
import ShardStore.Shell.Script
/-!
# Shell

The shell carries out the commands of a script in order. It ends at the
end of the script, at a command to quit, or at a line that is no UTF-8;
a command that fails is answered with its failure and ends nothing.
-/

namespace ShardStore

/-- A database with the shard size that is used when a command names
none. -/
structure Shell (σ : Type) where
  database : Database σ
  defaultShardSize : Nat

namespace Shell

/-- How a run of the shell ended. -/
inductive Ending where
  | finished
  | invalidText
deriving DecidableEq, Repr

/-- What a run said, how it ended, and the shell after it. -/
structure Transcript (σ : Type) where
  replies : List Reply
  ending : Ending
  shell : Shell σ

namespace Transcript

/-- The transcript with more replies in front. -/
def after {σ : Type} (replies : List Reply) (t : Transcript σ) : Transcript σ :=
  { t with replies := replies ++ t.replies }

/-- The text of all replies, with one time for every command. -/
def text {σ : Type} (micros : Nat) (t : Transcript σ) : String :=
  String.join (t.replies.map (·.render micros))

end Transcript

variable {σ : Type}

/-- The loaded tables, in the order of their names. -/
def tableEntries (tables : Tables) : List TableEntry :=
  tables.toList.map fun (name, table) => ⟨name, table.columns.length, table.rows.length⟩

variable [Storage σ]

/-- The reply to what a database operation yielded, and the shell after
it. -/
def answer {α : Type} (shell : Shell σ) (reply : α → Reply) :
    Except DatabaseError α × Database σ → Reply × Shell σ
  | (.ok a, database) => (reply a, { shell with database })
  | (.error e, database) => (.failed e, { shell with database })

/-- The reply to the answer of a statement. -/
def answerReply : Answer → Reply
  | .inserted _ => .inserted
  | .selected _ [] => .noResults
  | .selected columns rows => .results columns (rows.map (·.displayed columns))

/-- Carries out a command, or quits. -/
def perform (shell : Shell σ) : Command → Option (Reply × Shell σ)
  | .statement text => some (shell.answer answerReply (shell.database.executeText text))
  | .scaleHorizontally table size =>
    some (shell.answer (fun shards => .scaledHorizontally table shards.length)
      (shell.database.scaleHorizontally table (size.getD shell.defaultShardSize)))
  | .scaleVertically table groups =>
    some (shell.answer (fun partitions => .scaledVertically table partitions.length)
      (shell.database.scaleVertically table groups))
  | .createTable table columns =>
    some (shell.answer (fun _ => .created table) (shell.database.createTable table columns))
  | .listTables =>
    match tableEntries shell.database.tables with
    | [] => some (.noTables, shell)
    | entries => some (.tables entries, shell)
  | .help => some (.help, shell)
  | .quit => none
  | .unsupported _ => some (.unsupported, shell)

/-- Carries out commands in order, up to one that quits. The flag says
whether the shell goes on. -/
def performAll (shell : Shell σ) : List Command → List Reply × Bool × Shell σ
  | [] => ([], true, shell)
  | command :: commands =>
    match shell.perform command with
    | none => ([], false, shell)
    | some (reply, shell) =>
      let (replies, goesOn, shell) := shell.performAll commands
      (reply :: replies, goesOn, shell)

/-- The commands of a line, in order. -/
def lineCommands (line : String) : List Command :=
  (splitLine line.toList).map Command.ofTrimmed

/-- Carries out the commands of a line. -/
def performLine (shell : Shell σ) (line : String) : List Reply × Bool × Shell σ :=
  shell.performAll (lineCommands line)

/-- What an interactive shell says before it reads a line. -/
def promptReplies (interactive : Bool) : List Reply :=
  if interactive then [.prompt] else []

/-- What an interactive shell says when it is asked to quit. -/
def farewellReplies (interactive : Bool) : List Reply :=
  if interactive then [.farewell] else []

/-- Reads lines in order and carries out the commands of each. -/
def runLines (interactive : Bool) (shell : Shell σ) : List (List UInt8) → Transcript σ
  | [] => ⟨promptReplies interactive, .finished, shell⟩
  | line :: lines =>
    match decodeLine? line with
    | none => ⟨promptReplies interactive, .invalidText, shell⟩
    | some text =>
      match shell.performLine text with
      | (replies, true, shell) =>
        (runLines interactive shell lines).after (promptReplies interactive ++ replies)
      | (replies, false, shell) =>
        ⟨promptReplies interactive ++ replies ++ farewellReplies interactive, .finished, shell⟩

/-- What an interactive shell says first. -/
def welcomeReplies (interactive : Bool) (shell : Shell σ) : List Reply :=
  if interactive then [.welcome shell.database.tables.size] else []

/-- Runs a script. -/
def run (interactive : Bool) (shell : Shell σ) (script : List UInt8) : Transcript σ :=
  (runLines interactive shell (lines script)).after (welcomeReplies interactive shell)

end Shell

end ShardStore

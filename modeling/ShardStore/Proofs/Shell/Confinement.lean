import ShardStore.Proofs.Database.Reopen
import ShardStore.Proofs.Shell.Session
import ShardStore.Proofs.Storage.Confined
/-!
# Shell — no script escapes the data directory

Whatever the bytes of a script are, the database goes through the operations
of its commands (`shell_runLines`), none of which loads. So what a run stores
are documents of the tables that were loaded before it and of those that
its commands make, and these have identifiers for names: a table name that
would lead elsewhere reaches no path (`stays_in_directory`). A link that is
already in the directory does lead elsewhere, and what is written through it
is written there (`not_stays_in_directory`).
-/

namespace ShardStore

open Text

namespace Shell

variable {σ : Type} [Storage σ]

/-! ## What a script comes to -/

/-- The commands of the lines of a script, up to a line that is no text. -/
def commandsRead : List (List UInt8) → List Command
  | [] => []
  | line :: lines =>
    match decodeLine? line with
    | none => []
    | some text => lineCommands text ++ commandsRead lines

/-- What is behind a command to quit is not reached. -/
theorem beforeQuit_append (first second : List Command) :
    beforeQuit (first ++ second) =
      if .quit ∈ first then beforeQuit first else beforeQuit first ++ beforeQuit second := by
  induction first with
  | nil => rfl
  | cons command first ih =>
    by_cases hquit : command = .quit
    · simp [beforeQuit, hquit]
    · rw [List.cons_append, beforeQuit_cons hquit, beforeQuit_cons hquit, ih]
      simp only [List.mem_cons, Ne.symm hquit, false_or]
      split <;> rfl

/-- The shell, its storage recorded no more. -/
def forget (shell : Shell (Recorded σ)) : Shell σ :=
  ⟨shell.database.forget, shell.defaultShardSize⟩

/-- The transcript of a run, its storage recorded no more. -/
def Transcript.forget (t : Transcript (Recorded σ)) : Transcript σ :=
  ⟨t.replies, t.ending, t.shell.forget⟩

end Shell
end ShardStore

import ShardStore.Database.Operation
import ShardStore.Proofs.Shell.Script
import ShardStore.Storage.Memory
/-!
# Shell — a run carries out the statements of its script

A run without a user is told by the commands of its script alone: a text is
run by carrying out its commands in order, up to one that quits, and what
follows the text is run from where that leaves the shell (`runLines_text`).
So a script may be cut in two behind any line, a semicolon outside quotes
may be a line feed, and what is behind a command to quit is never reached.
A line is read whole before any command of it is carried out, and this is
where the last of these has its limit: bytes that are no text, on the line
of the command to quit, end the run before that command is known
(`not_quitEndsScript`).
-/

namespace ShardStore

open Text

namespace Shell

variable {σ : Type}

/-! ## Carrying out commands -/

namespace Transcript

/-- What was carried out so far, followed by what the shell does next if it
goes on. -/
def following (done : List Reply × Bool × Shell σ) (next : Shell σ → Transcript σ) :
    Transcript σ :=
  match done with
  | (replies, true, shell) => (next shell).after replies
  | (replies, false, shell) => ⟨replies, .finished, shell⟩

/-- The text of a transcript is that of what stands in front, and then its
own. -/
theorem text_after (micros : Nat) (replies : List Reply) (t : Transcript σ) :
    (t.after replies).text micros = String.join (replies.map (·.render micros)) ++ t.text micros := by
  simp [text, after, String.join_append]

/-- One reply more in front. -/
theorem following_cons (reply : Reply) (done : List Reply × Bool × Shell σ)
    (next : Shell σ → Transcript σ) :
    following (reply :: done.1, done.2) next = (following done next).after [reply] := by
  obtain ⟨replies, goesOn, shell⟩ := done
  cases goesOn <;> rfl

end Transcript

variable [Storage σ]

theorem performAll_cons (shell : Shell σ) (command : Command) (commands : List Command) :
    shell.performAll (command :: commands) =
      match shell.perform command with
      | none => ([], false, shell)
      | some (reply, later) =>
        (reply :: (later.performAll commands).1, (later.performAll commands).2) := by
  cases hperform : shell.perform command <;> simp only [performAll, hperform]

/-- **Commands are carried out one part after the other**, and the second
part is not reached if the first one quits. -/
theorem following_append (shell : Shell σ) (first second : List Command)
    (next : Shell σ → Transcript σ) :
    Transcript.following (shell.performAll (first ++ second)) next =
      Transcript.following (shell.performAll first) fun later =>
        Transcript.following (later.performAll second) next := by
  induction first generalizing shell with
  | nil => rfl
  | cons command first ih =>
    rw [List.cons_append, performAll_cons, performAll_cons]
    cases shell.perform command with
    | none => rfl
    | some result =>
      obtain ⟨reply, later⟩ := result
      rw [Transcript.following_cons, Transcript.following_cons, ih]

theorem perform_eq_none_iff {shell : Shell σ} {command : Command} :
    shell.perform command = none ↔ command = .quit := by
  cases command with
  | listTables =>
    simp only [perform]
    split <;> simp
  | _ => simp [perform]

theorem ne_quit_of_perform {shell : Shell σ} {command : Command} {result : Reply × Shell σ}
    (h : shell.perform command = some result) : command ≠ .quit := by
  rintro rfl
  cases h

/-- The shell goes on exactly when no command quits. -/
theorem goesOn_performAll (shell : Shell σ) (commands : List Command) :
    (shell.performAll commands).2.1 = true ↔ .quit ∉ commands := by
  induction commands generalizing shell with
  | nil => simp [performAll]
  | cons command commands ih =>
    rw [performAll_cons]
    cases hperform : shell.perform command with
    | none => simp [perform_eq_none_iff.1 hperform]
    | some result => simp [ih, (ne_quit_of_perform hperform).symm]

theorem performAll_of_quits {commands : List Command} (h : .quit ∈ commands) (shell : Shell σ) :
    ∃ replies later, shell.performAll commands = (replies, false, later) := by
  have hends : (shell.performAll commands).2.1 = false := by
    rw [← Bool.not_eq_true, goesOn_performAll]
    exact not_not_intro h
  exact ⟨_, _, by rw [← hends]⟩

theorem performAll_of_goesOn {commands : List Command} (h : .quit ∉ commands) (shell : Shell σ) :
    ∃ replies later, shell.performAll commands = (replies, true, later) := by
  have hgoes := (goesOn_performAll shell commands).2 h
  exact ⟨_, _, by rw [← hgoes]⟩

theorem following_of_quits {shell : Shell σ} {commands : List Command} (h : .quit ∈ commands)
    (next next' : Shell σ → Transcript σ) :
    Transcript.following (shell.performAll commands) next =
      Transcript.following (shell.performAll commands) next' := by
  obtain ⟨replies, later, hdone⟩ := performAll_of_quits h shell
  rw [hdone]
  rfl

/-- Where no command quits the shell goes on from where they leave it. -/
theorem following_of_goesOn {shell : Shell σ} {commands : List Command} (h : .quit ∉ commands)
    (next : Shell σ → Transcript σ) :
    Transcript.following (shell.performAll commands) next =
      (next (shell.performAll commands).2.2).after (shell.performAll commands).1 := by
  obtain ⟨replies, later, hdone⟩ := performAll_of_goesOn h shell
  rw [hdone]
  rfl

section Lines

variable {interactive : Bool} {shell : Shell σ} {line : List UInt8} {rest : List (List UInt8)}
  {text : String} (hline : decodeLine? line = some text)

include hline

/-- A run ends behind a line with a command to quit. -/
theorem runLines_of_quits (h : .quit ∈ lineCommands text) :
    runLines interactive shell (line :: rest) =
      ⟨promptReplies interactive ++ (shell.performAll (lineCommands text)).1 ++
        farewellReplies interactive, .finished, (shell.performAll (lineCommands text)).2.2⟩ := by
  obtain ⟨replies, later, hdone⟩ := performAll_of_quits h shell
  simp only [runLines, hline, performLine, hdone]

/-- Behind any other line it goes on. -/
theorem runLines_of_goesOn (h : .quit ∉ lineCommands text) :
    runLines interactive shell (line :: rest) =
      (runLines interactive (shell.performAll (lineCommands text)).2.2 rest).after
        (promptReplies interactive ++ (shell.performAll (lineCommands text)).1) := by
  obtain ⟨replies, later, hdone⟩ := performAll_of_goesOn h shell
  simp only [runLines, hline, performLine, hdone]

end Lines

/-! ## What the database is asked for -/

/-- The operation that a command asks the database for, if it asks for one. -/
def Command.operation? (defaultShardSize : Nat) : Command → Option Operation
  | .statement text => some (.executeText text)
  | .scaleHorizontally table size =>
    some (.scaleHorizontally table (size.getD defaultShardSize))
  | .scaleVertically table groups => some (.scaleVertically table groups)
  | .createTable table columns => some (.createTable table columns)
  | _ => none

/-- The commands in front of the first one that quits. -/
def beforeQuit (commands : List Command) : List Command :=
  commands.takeWhile (· != .quit)

theorem beforeQuit_cons {command : Command} (h : command ≠ .quit) (commands : List Command) :
    beforeQuit (command :: commands) = command :: beforeQuit commands := by
  simp [beforeQuit, h]

/-- The failure that a reply tells of. -/
def Reply.failure? : Reply → Option DatabaseError
  | .failed cause => some cause
  | _ => none

/-- The failure of an operation. -/
def failure? {α : Type} : Except DatabaseError α → Option DatabaseError
  | .error cause => some cause
  | .ok _ => none

omit [Storage σ] in
/-- A reply tells of the failure that it answers, and of no other. -/
theorem answer_spec {α : Type} {shell later : Shell σ} {reply : Reply} {toReply : α → Reply}
    {result : Except DatabaseError α × Database σ} (yield : α → Operation.Yield)
    (hreply : ∀ a, (toReply a).failure? = none)
    (h : shell.answer toReply result = (reply, later)) :
    later = { shell with database := (Operation.yielding yield result).2 } ∧
      reply.failure? = failure? (Operation.yielding yield result).1 := by
  rcases result with ⟨e | a, database⟩
  · cases h
    exact ⟨rfl, rfl⟩
  · cases h
    exact ⟨rfl, hreply a⟩

/-- **A command carries out the operation that it asks for**, and its reply
tells whether that has failed; a command that asks for none changes
nothing. -/
theorem perform_spec {shell later : Shell σ} {command : Command} {reply : Reply}
    (h : shell.perform command = some (reply, later)) :
    match command.operation? shell.defaultShardSize with
    | some operation => later = { shell with database := (operation.run shell.database).2 } ∧
        reply.failure? = failure? (operation.run shell.database).1
    | none => later = shell ∧ reply.failure? = none := by
  cases command with
  | statement text =>
    refine answer_spec _ (fun answer => ?_) (Option.some.inj h)
    rcases answer with _ | ⟨_, _ | _⟩ <;> rfl
  | scaleHorizontally => exact answer_spec _ (fun _ => rfl) (Option.some.inj h)
  | scaleVertically => exact answer_spec _ (fun _ => rfl) (Option.some.inj h)
  | createTable => exact answer_spec _ (fun _ => rfl) (Option.some.inj h)
  | listTables =>
    simp only [perform] at h
    split at h
    all_goals
      cases h
      exact ⟨rfl, rfl⟩
  | quit => cases h
  | _ =>
    cases h
    exact ⟨rfl, rfl⟩

/-- The operations that commands ask for, in order, up to one that quits. -/
def operations (defaultShardSize : Nat) (commands : List Command) : List Operation :=
  (beforeQuit commands).filterMap (Command.operation? defaultShardSize)

/-- **Commands ask for their operations in order, once each.** Every command
up to one that quits has one reply, and the failures told of are those of the
operations. -/
theorem performAll_spec (shell : Shell σ) (commands : List Command) :
    let done := Operation.runAll (operations shell.defaultShardSize commands) shell.database
    (shell.performAll commands).2.2 = { shell with database := done.2 } ∧
      (shell.performAll commands).1.filterMap Reply.failure? = done.1.filterMap failure? ∧
      (shell.performAll commands).1.length = (beforeQuit commands).length := by
  induction commands generalizing shell with
  | nil => exact ⟨rfl, rfl, rfl⟩
  | cons command commands ih =>
    rw [performAll_cons]
    cases hperform : shell.perform command with
    | none =>
      rw [perform_eq_none_iff.1 hperform]
      exact ⟨rfl, rfl, rfl⟩
    | some result =>
      obtain ⟨reply, later⟩ := result
      have hstep := perform_spec hperform
      obtain ⟨hshell, hfailures, hreplies⟩ := ih later
      rw [operations, beforeQuit_cons (ne_quit_of_perform hperform)]
      cases hop : command.operation? shell.defaultShardSize with
      | none =>
        rw [hop] at hstep
        obtain ⟨rfl, hreply⟩ := hstep
        rw [List.filterMap_cons_none hop]
        refine ⟨hshell, ?_, by simpa using hreplies⟩
        rw [List.filterMap_cons_none hreply]
        exact hfailures
      | some operation =>
        rw [hop] at hstep
        obtain ⟨rfl, hreply⟩ := hstep
        rw [List.filterMap_cons_some hop]
        refine ⟨hshell, ?_, by simpa using hreplies⟩
        simp only [Operation.runAll, List.filterMap_cons, hreply, hfailures]
        rfl

/-! ## Running a text -/

/-- What a script says is that of its lines, as nobody is there to be greeted. -/
theorem run_eq_runLines (shell : Shell σ) (script : List UInt8) :
    shell.run false script = runLines false shell (lines script) := rfl

theorem runLines_cons_bytes (shell : Shell σ) (line : String) (rest : List (List UInt8)) :
    runLines false shell (bytes line :: rest) =
      Transcript.following (shell.performAll (lineCommands line)) fun later =>
        runLines false later rest := by
  rw [runLines, decodeLine?_bytes]
  simp only [performLine]
  rcases shell.performAll (lineCommands line) with ⟨replies, goesOn, later⟩
  cases goesOn
  · simp [Transcript.following, promptReplies, farewellReplies]
  · rfl

/-- What may follow a text without changing its last line: nothing, a line
feed, or anything at all if that line is ended. -/
def Follows (text : String) (later : List UInt8) : Prop :=
  later = [] ∨ later.head? = some 10 ∨ text = "" ∨ text.toList.getLast? = some '\n'

theorem lineCommands_ofList {line : List Char} (h : '\n' ∉ line) :
    lineCommands (String.ofList line) = commands (String.ofList line) := by
  simp only [lineCommands, commands, String.toList_ofList, splitLine_eq_statements h]

theorem lineCommands_newline {line : List Char} (h : '\n' ∉ line) :
    lineCommands (String.ofList line ++ "\n") = commands (String.ofList line) := by
  have hchars : (String.ofList line ++ "\n").toList = line ++ ['\n'] := by simp
  simp only [lineCommands, commands, hchars, String.toList_ofList, splitLine_newline h]

/-- A line with its line feed is run, and then what is behind it. -/
theorem runLines_newline {line : List Char} (h : '\n' ∉ line) (rest : List UInt8)
    (shell : Shell σ) :
    runLines false shell (lines (bytes (String.ofList line) ++ 10 :: rest)) =
      Transcript.following (shell.performAll (commands (String.ofList line))) fun later =>
        runLines false later (lines rest) := by
  have hbytes : 10 ∉ bytes (String.ofList line) := by simpa [newline_mem_bytes] using h
  have hline : bytes (String.ofList line) ++ [10] = bytes (String.ofList line ++ "\n") := by
    rw [bytes_append, bytes_newline]
  rw [lines_newline rest hbytes, hline, runLines_cons_bytes, lineCommands_newline h]

/-- The last line of a text is run as its commands. -/
theorem runLines_last {line : List Char} (hline : '\n' ∉ line) {later : List UInt8}
    (h : Follows (String.ofList line) later) (shell : Shell σ) :
    runLines false shell (lines (bytes (String.ofList line) ++ later)) =
      Transcript.following (shell.performAll (commands (String.ofList line))) fun shell =>
        runLines false shell (lines later) := by
  by_cases hempty : line = []
  · subst hempty
    rfl
  · have hbytes : bytes (String.ofList line) ≠ [] := by simpa [bytes_eq_nil_iff] using hempty
    have hnewline : 10 ∉ bytes (String.ofList line) := by simpa [newline_mem_bytes] using hline
    rcases h with rfl | hhead | htext | hlast
    · rw [List.append_nil, lines_last hnewline hbytes, runLines_cons_bytes,
        lineCommands_ofList hline]
      rfl
    · -- A line feed ends the line in front, and alone is a line without commands.
      obtain ⟨rest, rfl⟩ := List.head?_eq_some_iff.1 hhead
      exact runLines_newline hline rest shell
    · exact absurd (by simpa using htext) hempty
    · rw [String.toList_ofList] at hlast
      exact absurd (List.mem_of_getLast? hlast) hline

/-- **A text is run by carrying out its commands in order**, and what follows
it is run from where they leave the shell. -/
theorem runLines_text {text : String} {later : List UInt8} (h : Follows text later)
    (shell : Shell σ) :
    runLines false shell (lines (bytes text ++ later)) =
      Transcript.following (shell.performAll (commands text)) fun shell =>
        runLines false shell (lines later) := by
  -- One line after the other is taken off the text.
  obtain ⟨cs, rfl⟩ : ∃ cs, text = String.ofList cs := ⟨text.toList, by simp⟩
  induction hlength : cs.length using Nat.strong_induction_on generalizing cs shell with
  | h length ih =>
    subst hlength
    by_cases hnewline : '\n' ∈ cs
    · obtain ⟨line, rest, rfl, hline⟩ := List.eq_append_cons_of_mem hnewline
      have hrest : Follows (String.ofList rest) later := by
        rcases h with rfl | hhead | htext | hlast
        · exact .inl rfl
        · exact .inr (.inl hhead)
        · simp at htext
        · by_cases hempty : rest = []
          · exact .inr (.inr (.inl (by simp [hempty])))
          · refine .inr (.inr (.inr ?_))
            obtain ⟨front, last, rfl⟩ : ∃ front last, rest = front ++ [last] :=
              ⟨_, _, (List.dropLast_concat_getLast hempty).symm⟩
            simpa [List.getLast?_append, List.getLast?_cons] using hlast
      have hbytes : bytes (String.ofList (line ++ '\n' :: rest)) ++ later =
          bytes (String.ofList line) ++ 10 :: (bytes (String.ofList rest) ++ later) := by
        have htext : String.ofList (line ++ '\n' :: rest) =
            String.ofList line ++ "\n" ++ String.ofList rest := by
          rw [← String.toList_inj]
          simp
        simp [htext, bytes_newline]
      have hcommands : commands (String.ofList (line ++ '\n' :: rest)) =
          commands (String.ofList line) ++ commands (String.ofList rest) := by
        simp only [commands, String.toList_ofList, statements_cut (.inl rfl), List.map_append]
      rw [hbytes, runLines_newline hline, hcommands, following_append]
      congr 1
      funext later
      exact ih rest.length (by simp; omega) later rest hrest rfl
    · exact runLines_last hnewline h shell

/-- A script that is a text is run as its commands. -/
theorem run_text (text : String) (shell : Shell σ) :
    shell.run false (bytes text) =
      Transcript.following (shell.performAll (commands text)) fun shell => ⟨[], .finished, shell⟩ := by
  have h := runLines_text (.inl rfl : Follows text []) shell
  rw [List.append_nil] at h
  exact h

/-- A script that no command ends can be followed by any other, if its last
line is ended. -/
theorem run_append {text : String} {later : List UInt8} (h : Follows text later)
    (hquit : .quit ∉ commands text) (shell : Shell σ) :
    shell.run false (bytes text ++ later) =
      ((shell.run false (bytes text)).shell.run false later).after
        (shell.run false (bytes text)).replies := by
  rw [run_text, following_of_goesOn hquit, run_eq_runLines, runLines_text h,
    following_of_goesOn hquit]
  simp [Transcript.after, run_eq_runLines]

theorem commands_append {front : String} (h : Ended front.toList) (back : String) :
    commands (front ++ back) = commands front ++ commands back := by
  rw [commands, String.toList_append, statements_append h, List.map_append, ← commands, ← commands]

/-- A script is ended by a command to quit, if what is behind it leaves the
line of the command a text. -/
theorem run_of_quits {front line : String} {later : List UInt8} (h : Follows (front ++ line) later)
    (hended : Ended front.toList) (hquit : .quit ∈ commands front) (shell : Shell σ) :
    shell.run false (bytes (front ++ line) ++ later) = shell.run false (bytes front) := by
  rw [run_eq_runLines, runLines_text h, commands_append hended, following_append, run_text]
  exact following_of_quits hquit _ _

theorem eq_failed_of_failure? {reply : Reply} {e : DatabaseError}
    (h : reply.failure? = some e) : reply = .failed e := by
  cases reply with
  | failed cause => exact congrArg Reply.failed (Option.some.inj h)
  | _ => cases h

/-- **A command that fails is answered with its failure**, and what is behind
it is run all the same. -/
theorem run_of_failure {front piece : String} {command : Command} {operation : Operation}
    {e : DatabaseError} (hended : Ended front.toList) (hended' : Ended (front ++ piece).toList)
    (hquit : .quit ∉ commands front) (hpiece : commands piece = [command]) (shell : Shell σ)
    (hop : command.operation? shell.defaultShardSize = some operation)
    (hfails : (operation.run (shell.run false (bytes front)).shell.database).1 = .error e)
    (back : String) :
    shell.run false (bytes (front ++ piece ++ back)) =
      (Shell.run false ⟨(operation.run (shell.run false (bytes front)).shell.database).2,
        shell.defaultShardSize⟩ (bytes back)).after
          ((shell.run false (bytes front)).replies ++ [.failed e]) := by
  obtain ⟨reached, hreached⟩ : ∃ reached, (shell.performAll (commands front)).2.2 = reached :=
    ⟨_, rfl⟩
  have hfront : shell.run false (bytes front) =
      ⟨(shell.performAll (commands front)).1, .finished, reached⟩ := by
    rw [run_text, following_of_goesOn hquit, hreached]
    simp [Transcript.after]
  have hsize : reached.defaultShardSize = shell.defaultShardSize := by
    rw [← hreached, (performAll_spec shell (commands front)).1]
  rw [hfront] at hfails ⊢
  simp only at hfails ⊢
  have hperform : reached.perform command =
      some (.failed e, ⟨(operation.run reached.database).2, shell.defaultShardSize⟩) := by
    cases hresult : reached.perform command with
    | none =>
      rw [perform_eq_none_iff.1 hresult] at hop
      cases hop
    | some result =>
      obtain ⟨reply, later⟩ := result
      have hstep := perform_spec hresult
      rw [hsize, hop] at hstep
      obtain ⟨rfl, hreply⟩ := hstep
      rw [hfails] at hreply
      rw [eq_failed_of_failure? hreply, ← hsize]
  rw [run_text, commands_append hended', commands_append hended, hpiece, following_append,
    following_append, following_of_goesOn hquit, hreached, performAll_cons, hperform, run_text]
  simp [Transcript.following, performAll, Transcript.after, List.append_assoc]

/-- **A run carries out the statements of its script in order, once each.** -/
theorem runs_statements_in_order (shell : Shell σ) :
    -- The commands in front of one that quits are carried out, with one reply each.
    (∀ text : String,
      let t := shell.run false (bytes text)
      let done := Operation.runAll (operations shell.defaultShardSize (commands text))
        shell.database
      t.ending = .finished ∧ t.shell = ⟨done.2, shell.defaultShardSize⟩ ∧
        t.replies.length = (beforeQuit (commands text)).length ∧
        t.replies.filterMap Reply.failure? = done.1.filterMap failure?) ∧
    -- A script can be cut in two behind a line.
    (∀ (first : String) (second : List UInt8), first.toList.getLast? = some '\n' →
      .quit ∉ commands first →
        let t := shell.run false (bytes first)
        let t' := t.shell.run false second
        shell.run false (bytes first ++ second) = ⟨t.replies ++ t'.replies, t'.ending, t'.shell⟩ ∧
          ∀ micros, (shell.run false (bytes first ++ second)).text micros =
            t.text micros ++ t'.text micros) ∧
    -- A semicolon outside the quotes of its line may be a line feed.
    (∀ front back : String, openQuote front.toList = none →
      shell.run false (bytes (front ++ ";" ++ back)) =
        shell.run false (bytes (front ++ "\n" ++ back))) ∧
    -- What is behind a command to quit is not reached.
    (∀ (front line : String) (later : List UInt8), Ended front.toList → .quit ∈ commands front →
      (later = [] ∨ later.head? = some 10 ∨ line = "" ∧ front.toList.getLast? = some '\n') →
        shell.run false (bytes (front ++ line) ++ later) = shell.run false (bytes front)) ∧
    -- A failure is answered, and what is behind it is run.
    (∀ (front piece back : String) (command : Command) (operation : Operation) (e : DatabaseError),
      Ended front.toList → Ended (front ++ piece).toList → .quit ∉ commands front →
      commands piece = [command] →
      command.operation? shell.defaultShardSize = some operation →
        let t := shell.run false (bytes front)
        (operation.run t.shell.database).1 = .error e →
          let t' := Shell.run false ⟨(operation.run t.shell.database).2, shell.defaultShardSize⟩
            (bytes back)
          shell.run false (bytes (front ++ piece ++ back)) =
            ⟨t.replies ++ .failed e :: t'.replies, t'.ending, t'.shell⟩) := by
  refine ⟨fun text => ?_, fun first second hlast hquit => ?_, fun front back hopen => ?_,
    fun front line later hended hquit hlater => ?_,
    fun front piece back command operation e hended hended' hquit hpiece hop hfails => ?_⟩
  · obtain ⟨hshell, hfailures, hreplies⟩ := performAll_spec shell (commands text)
    have hrun : shell.run false (bytes text) = ⟨(shell.performAll (commands text)).1, .finished,
        (shell.performAll (commands text)).2.2⟩ := by
      rw [run_text]
      rcases shell.performAll (commands text) with ⟨replies, _ | _, later⟩ <;>
        simp [Transcript.following, Transcript.after]
    rw [hrun]
    exact ⟨rfl, hshell, hreplies, hfailures⟩
  · have hfollows : Follows first second := .inr (.inr (.inr hlast))
    have hrun := run_append hfollows hquit shell
    exact ⟨hrun, fun micros => by rw [hrun, Transcript.text_after]; rfl⟩
  · rw [run_text, run_text]
    have hcommands : commands (front ++ ";" ++ back) = commands (front ++ "\n" ++ back) := by
      simpa [commands] using congrArg (List.map Command.ofTrimmed)
        (statements_replace hopen back.toList)
    rw [hcommands]
  · refine run_of_quits ?_ hended hquit shell
    rcases hlater with h | h | ⟨rfl, hlast⟩
    · exact .inl h
    · exact .inr (.inl h)
    · exact .inr (.inr (.inr (by simpa using hlast)))
  · have hrun := run_of_failure hended hended' hquit hpiece shell hop hfails back
    simpa [Transcript.after] using hrun

/-- A table is made once and then again, and a script that has quit is
followed by a line feed and a byte that is no text. -/
theorem runs_statements_in_order_repeated_and_quitting :
    let shell : Shell MemoryStore := ⟨.empty {}, 5⟩
    let t := shell.run false (bytes ".create t a\n")
    shell.run false (bytes ".create t a\n" ++ [255]) = ⟨t.replies, .invalidText, t.shell⟩ ∧
      shell.run false (bytes ".create t a\n.create t b\n.tables") =
        ⟨t.replies ++ [.failed (.execution (.tableExists "t")), .tables [⟨"t", 1, 0⟩]],
          .finished, t.shell⟩ ∧
      shell.run false (bytes ".create t a;exit;.create u b" ++ [10, 255]) =
        shell.run false (bytes ".create t a\nexit;") := by
  intro shell t
  obtain ⟨-, happend, hline, hquit, hfailure⟩ := runs_statements_in_order shell
  have hended : Ended ".create t a\n".toList := .inr ⟨".create t a".toList, '\n', rfl, .inl rfl⟩
  have hended' : Ended ".create t a\n.create t b\n".toList :=
    .inr ⟨".create t a\n.create t b".toList, '\n', rfl, .inl rfl⟩
  have hended_quit : Ended ".create t a;exit;".toList :=
    .inr ⟨".create t a;exit".toList, ';', rfl, .inr ⟨rfl, rfl⟩⟩
  refine ⟨?_, ?_, ?_⟩
  · obtain ⟨hrun, -⟩ := happend ".create t a\n" [255] rfl (by decide)
    have hsecond : t.shell.run false [255] = ⟨[], .invalidText, t.shell⟩ := by
      have hdecode : decodeLine? [255] = none := rfl
      rw [run_eq_runLines, show lines [255] = [[255]] from rfl, runLines, hdecode]
      rfl
    rw [hrun, hsecond, List.append_nil]
  · have hrun := hfailure ".create t a\n" ".create t b\n" ".tables"
      (.createTable "t" ["b"]) (.createTable "t" ["b"]) (.execution (.tableExists "t"))
      hended hended' (by decide) rfl rfl rfl
    exact hrun.trans rfl
  · have hrun := hquit ".create t a;exit;" ".create u b" [10, 255] hended_quit
      (by decide) (.inr (.inl rfl))
    exact hrun.trans (hline ".create t a" "exit;" rfl)

/-- A command to quit ends a script, whatever the bytes behind it are. -/
def QuitEndsScript (σ : Type) [Storage σ] : Prop :=
  ∀ (shell : Shell σ) (front : String) (later : List UInt8), Ended front.toList →
    .quit ∈ commands front →
      shell.run false (bytes front ++ later) = shell.run false (bytes front)

/-- A line is a text as a whole, or it is not read: with a byte behind it that
is none, not even the table in front of the command to quit is made. -/
theorem not_quitEndsScript : ¬ QuitEndsScript MemoryStore := by
  intro h
  have hended : Ended ".create t a;exit;".toList :=
    .inr ⟨".create t a;exit".toList, ';', rfl, .inr ⟨rfl, rfl⟩⟩
  have hrun := h ⟨.empty {}, 5⟩ ".create t a;exit;" [0xff] hended (by decide)
  have hreplies := congrArg (·.replies) hrun
  revert hreplies
  decide

end Shell
end ShardStore

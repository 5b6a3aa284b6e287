import ShardStore.Proofs.Fragment.Shards
import ShardStore.Proofs.Shell.Confinement
/-!
# Shell — every command has one answer

What a shell says are the answers to the commands that it reads, in their
order, and, where there is a user, greetings and prompts between them
(`forall₂_answers_run`). The default shard size stays what it was, so a command
to cut a table into shards that names no size is never refused for a size of
zero, unless that is the default.
-/

namespace ShardStore

open Text

namespace Shell

variable {σ : Type} [Storage σ]

/-- Whether a reply answers a command. The others are said to a user. -/
def Reply.isAnswer : Reply → Bool
  | .welcome _ | .prompt | .farewell => false
  | _ => true

/-- A reply to a command, in a shell with this default shard size. -/
def Answers (σ : Type) [Storage σ] (size : ℕ) (command : Command) (reply : Reply) : Prop :=
  ∃ (database : Database σ) (later : Shell σ), perform ⟨database, size⟩ command = some (reply, later)

omit [Storage σ] in
theorem isAnswer_answer {α : Type} {shell : Shell σ} {toReply : α → Reply}
    (h : ∀ a, (toReply a).isAnswer = true) (result : Except DatabaseError α × Database σ) :
    (shell.answer toReply result).1.isAnswer = true := by
  rcases result with ⟨_ | a, database⟩
  · rfl
  · exact h a

/-- Every command is answered by an answer. -/
theorem isAnswer_of_perform {shell later : Shell σ} {command : Command} {reply : Reply}
    (h : shell.perform command = some (reply, later)) : reply.isAnswer = true := by
  have hreply := congrArg (Option.map Prod.fst) h
  cases command with
  | statement text =>
    obtain rfl := Option.some.inj hreply
    refine isAnswer_answer (fun answer => ?_) _
    rcases answer with _ | ⟨_, _ | _⟩ <;> rfl
  | listTables =>
    simp only [perform] at h
    split at h <;> cases h <;> rfl
  | quit => cases h
  | help => cases h; rfl
  | unsupported => cases h; rfl
  | _ =>
    obtain rfl := Option.some.inj hreply
    exact isAnswer_answer (fun _ => rfl) _

theorem Answers.isAnswer {size : ℕ} {command : Command} {reply : Reply}
    (h : Answers σ size command reply) : reply.isAnswer = true := by
  obtain ⟨_, _, hperform⟩ := h
  exact isAnswer_of_perform hperform

/-- Nothing but answers is left where there are only answers. -/
theorem filter_isAnswer {size : ℕ} {commands : List Command} {replies : List Reply}
    (h : List.Forall₂ (Answers σ size) commands replies) :
    replies.filter Reply.isAnswer = replies := by
  induction h with
  | nil => rfl
  | cons hanswers _ ih => rw [List.filter_cons_of_pos hanswers.isAnswer, ih]

/-- **No command changes the default shard size.** -/
theorem defaultShardSize_of_perform {shell later : Shell σ} {command : Command} {reply : Reply}
    (h : shell.perform command = some (reply, later)) :
    later.defaultShardSize = shell.defaultShardSize := by
  have hstep := perform_spec h
  split at hstep
  · rw [hstep.1]
  · rw [hstep.1]

/-- Commands are answered in order, up to one that quits. -/
theorem forall₂_answers_performAll (shell : Shell σ) (commands : List Command) :
    List.Forall₂ (Answers σ shell.defaultShardSize) (beforeQuit commands)
      (shell.performAll commands).1 := by
  induction commands generalizing shell with
  | nil => exact .nil
  | cons command commands ih =>
    rw [performAll_cons]
    cases hperform : shell.perform command with
    | none =>
      rw [perform_eq_none_iff.1 hperform]
      exact .nil
    | some result =>
      obtain ⟨reply, later⟩ := result
      rw [beforeQuit_cons (ne_quit_of_perform hperform)]
      refine .cons ⟨shell.database, later, hperform⟩ ?_
      rw [← defaultShardSize_of_perform hperform]
      exact ih later

theorem forall₂_answers_runLines (interactive : Bool) (shell : Shell σ)
    (lines : List (List UInt8)) :
    List.Forall₂ (Answers σ shell.defaultShardSize) (beforeQuit (commandsRead lines))
      ((runLines interactive shell lines).replies.filter Reply.isAnswer) := by
  have hprompt : (promptReplies interactive).filter Reply.isAnswer = [] := by
    cases interactive <;> rfl
  have hfarewell : (farewellReplies interactive).filter Reply.isAnswer = [] := by
    cases interactive <;> rfl
  induction lines generalizing shell with
  | nil =>
    rw [runLines, commandsRead, hprompt]
    exact .nil
  | cons line lines ih =>
    rw [commandsRead]
    cases hline : decodeLine? line with
    | none =>
      simp only [runLines, hline, hprompt]
      exact .nil
    | some text =>
      have hanswers := forall₂_answers_performAll shell (lineCommands text)
      have hsize : (shell.performAll (lineCommands text)).2.2.defaultShardSize =
          shell.defaultShardSize := by rw [(performAll_spec shell (lineCommands text)).1]
      dsimp only
      rw [beforeQuit_append]
      by_cases hquit : .quit ∈ lineCommands text
      · rw [runLines_of_quits hline hquit, if_pos hquit]
        simpa [hprompt, hfarewell, filter_isAnswer hanswers] using hanswers
      · rw [runLines_of_goesOn hline hquit, if_neg hquit]
        simp only [Transcript.after, List.filter_append, hprompt, List.nil_append,
          filter_isAnswer hanswers]
        have hlater := ih (shell.performAll (lineCommands text)).2.2
        rw [hsize] at hlater
        exact List.rel_append hanswers hlater

/-- **Every command of a run is answered once**, by a shell with the default
shard size that it started with. -/
theorem forall₂_answers_run (interactive : Bool) (shell : Shell σ) (script : List UInt8) :
    List.Forall₂ (Answers σ shell.defaultShardSize) (beforeQuit (commandsRead (lines script)))
      ((shell.run interactive script).replies.filter Reply.isAnswer) := by
  have hwelcome : (welcomeReplies interactive shell).filter Reply.isAnswer = [] := by
    cases interactive <;> rfl
  have hlines := forall₂_answers_runLines interactive shell (lines script)
  rwa [run, Transcript.after, List.filter_append, hwelcome, List.nil_append]

end Shell

variable {σ : Type} [Storage σ]

/-- A positive size is never refused as zero. -/
theorem Database.scaleHorizontally_ne_zeroShardSize {size : ℕ} (h : size ≠ 0) (db : Database σ)
    (table : String) : (db.scaleHorizontally table size).1 ≠ .error (.execution .zeroShardSize) := by
  unfold scaleHorizontally scatter
  split
  · simp
  · split
    · next hcut => exact absurd (Table.shards_eq_error_iff.1 hcut).1 h
    · split <;> simp

/-- **A command that names no size is not refused for a size of zero**, where
the default is positive. -/
theorem Shell.Answers.ne_zeroShardSize {size : ℕ} {table : String} {reply : Reply}
    (h : Answers σ size (.scaleHorizontally table none) reply) (hsize : 0 < size) :
    reply ≠ .failed (.execution .zeroShardSize) := by
  obtain ⟨db, later, hperform⟩ := h
  have hcut := db.scaleHorizontally_ne_zeroShardSize hsize.ne' table
  simp only [perform, Option.getD_none, Option.some.injEq] at hperform
  revert hperform hcut
  rcases db.scaleHorizontally table size with ⟨e | fragments, after⟩
  · rintro hcut hperform rfl
    have hreply : Reply.failed e = .failed (.execution .zeroShardSize) :=
      congrArg Prod.fst hperform
    exact hcut (congrArg Except.error (Reply.failed.inj hreply))
  · rintro - hperform rfl
    have hreply : Reply.scaledHorizontally table fragments.length = .failed _ :=
      congrArg Prod.fst hperform
    cases hreply

end ShardStore

import ShardStore.Proofs.Program.Arguments
import ShardStore.Proofs.Program.Settled
import ShardStore.Proofs.Shell.Answers
/-!
# The program — what it is set to

The words of the program are read up to the first one that decides, its
settings are those of the strongest source for each field, and whatever the
sources are, the shell it starts cuts tables into shards of a positive size
where a command names none (`configured_by_precedence`).
-/

namespace ShardStore

open Json Settings Shell Text

namespace Program

variable {words : List String} {env : Environment} {disk : Disk} {shell : Shell DirectoryStore}

/-- **A program that starts a shell is settled**, and its shell is opened as
its settings say. -/
theorem start_eq_shell (h : start words env disk = .shell shell) : ∃ given settings,
    Arguments.parse {} words = .ok (some given) ∧ given.settle disk env = .ok settings ∧
      Database.load (⟨settings.dataDirectory, disk⟩ : DirectoryStore) = .ok shell.database ∧
      shell.defaultShardSize = settings.defaultShardSize := by
  unfold start at h
  split at h
  · cases h
  · cases h
  · next given hparse =>
    split at h
    · cases h
    · next settings hsettle =>
      unfold openShell at h
      split at h
      · cases h
      · next database hload =>
        cases h
        exact ⟨given, settings, hparse, hsettle, hload, rfl⟩

/-- **The settings follow the strength of their sources**, and no shard size is
zero. -/
theorem configured_by_precedence :
    -- The first word that ends the reading of the arguments decides, and a
    -- repeated option has its last value.
    (∀ words outcome, Arguments.parse {} words = outcome ↔ ∃ front choices rest,
      words = front ++ rest ∧ Arguments.Choices front choices ∧
        Arguments.Ends (.ofChoices choices) rest outcome) ∧
    -- All sources have to be in order, and then the strongest one counts.
    (∀ (given : Arguments) (disk : Disk) (env : Environment),
      ((∃ settings, given.settle disk env = .ok settings) ↔
        (∃ file, FileGives disk given.settingsFile file) ∧
          (∃ environment, EnvironmentGives env environment) ∧ given.shardSize ≠ some 0) ∧
      ∀ outcome, given.settle disk env = outcome ↔ given.Settles disk env outcome) ∧
    -- No shell of the program refuses a command that names no size for a size of zero.
    (∀ words env disk shell, start words env disk = .shell shell → ∃ given settings,
      Arguments.parse {} words = .ok (some given) ∧ given.settle disk env = .ok settings ∧
        Database.load (⟨settings.dataDirectory, disk⟩ : DirectoryStore) = .ok shell.database ∧
        shell.defaultShardSize = settings.defaultShardSize ∧ 0 < settings.defaultShardSize ∧
        ∀ (interactive : Bool) (input : List UInt8),
          List.Forall₂
            (fun command reply => ∀ table, command = .scaleHorizontally table none →
              reply ≠ .failed (.execution .zeroShardSize))
            (beforeQuit (commandsRead (lines input)))
            ((shell.run interactive input).replies.filter Reply.isAnswer)) := by
  refine ⟨fun words outcome => Arguments.parse_eq_iff, fun given disk env =>
    ⟨Arguments.exists_settle_eq_ok_iff, fun outcome => Arguments.settle_eq_iff⟩,
    fun words env disk shell hstart => ?_⟩
  obtain ⟨given, settings, hparse, hsettle, hload, hsize⟩ := start_eq_shell hstart
  have hpos := Arguments.size_pos_of_settle hsettle
  refine ⟨given, settings, hparse, hsettle, hload, hsize, hpos, fun interactive input => ?_⟩
  refine (forall₂_answers_run interactive shell input).imp ?_
  rintro command reply hanswers table rfl
  exact hanswers.ne_zeroShardSize (hsize ▸ hpos)

/-- All sources give a shard size, and the arguments more than one: the last
of these counts, and a word for help that is a value asks for none. The data
directory is that of the environment, and the log level that of the file. A
zero in the environment is refused all the same. -/
theorem configured_by_precedence_all_sources :
    let text :=
      "\x7b\"log_level\": \"debug\", \"data_directory\": \"d\", \"default_shard_size\": 4\x7d"
    let disk := Database.vacant.disk.put ["help"] (.file text.toUTF8)
    let env : Environment := ⟨some "data".toUTF8, some "+7".toUTF8, none⟩
    let words := ["--shard-size", "0", "--config", "help", "--shard-size", "03"]
    let given : Arguments := ⟨some "help", none, some 3⟩
    let shell : Shell DirectoryStore := ⟨.empty ⟨"data", disk⟩, 3⟩
    Arguments.parse {} words = .ok (some given) ∧
      given.settle disk env = .ok ⟨"data", 3, "debug"⟩ ∧
      given.settle disk { env with shardSize := some "0".toUTF8 } = .error .zeroShardSize ∧
      start words env disk = .shell shell ∧
      ∃ made cut, (shell.run true (bytes ".create t a;HORIZONTAL SCALING t")).replies.filter
        Reply.isAnswer = [made, cut] ∧ cut ≠ .failed (.execution .zeroShardSize) := by
  intro text disk env words given shell
  obtain ⟨hparses, hsettles, hstarts⟩ := configured_by_precedence
  have hzero : SizeText "0".toList 0 := readSize?_eq_some_iff.1 rfl
  have hseven : SizeText "+7".toList 7 := readSize?_eq_some_iff.1 rfl
  have hthree : SizeText "03".toList 3 := readSize?_eq_some_iff.1 rfl
  have hgives : FileText text ⟨some "d", some 4, some "debug"⟩ :=
    readAll_jsonReader_eq_ok_iff.1 (by decide +kernel)
  have hfile : FileGives disk given.settingsFile ⟨some "d", some 4, some "debug"⟩ :=
    .named (by decide +kernel : disk.readText "help" = .ok text) hgives nofun
  have hparse : Arguments.parse {} words = .ok (some given) :=
    (hparses _ _).2 ⟨words, [.shardSize 0, .settingsFile "help", .shardSize 3], [], rfl,
      .shardSize hzero (.settingsFile "help" (.shardSize hthree .nil)), .finished⟩
  have henv : EnvironmentGives env ⟨some "data", some 7, none⟩ :=
    .sized (.text rfl) (.nothing nofun) (.text rfl) hseven (by decide)
  have hsettled : given.Settles disk env (.ok ⟨"data", 3, "debug"⟩) :=
    .settled hfile henv (by decide)
  have hsettle : given.settle disk env = .ok ⟨"data", 3, "debug"⟩ :=
    ((hsettles given disk env).2 _).2 hsettled
  have hlist : disk.listNames "data" = .ok [] := by decide +kernel
  have hload : Database.load (⟨"data", disk⟩ : DirectoryStore) = .ok (.empty ⟨"data", disk⟩) :=
    Database.load_of_listNames (by decide +kernel) hlist rfl
  have hstart : start words env disk = .shell shell := by
    simp only [start, hparse, hsettle, openShell, hload]
    rfl
  have hrefused : given.Settles disk { env with shardSize := some "0".toUTF8 }
      (.error .zeroShardSize) := .badEnvironment hfile (.zeroSize (.text rfl) hzero)
  refine ⟨hparse, hsettle, ((hsettles _ _ _).2 _).2 hrefused, hstart, ?_⟩
  obtain ⟨-, -, -, -, -, -, -, hanswers⟩ := hstarts _ _ _ _ hstart
  have hcommands : beforeQuit (commandsRead (lines (bytes ".create t a;HORIZONTAL SCALING t"))) =
      [.createTable "t" ["a"], .scaleHorizontally "t" none] := rfl
  have hreplies := hanswers true (bytes ".create t a;HORIZONTAL SCALING t")
  rw [hcommands] at hreplies
  obtain ⟨made, rest, -, hrest, hsaid⟩ := List.forall₂_cons_left_iff.1 hreplies
  obtain ⟨cut, _, hcut, hnil, rfl⟩ := List.forall₂_cons_left_iff.1 hrest
  cases hnil
  exact ⟨made, cut, hsaid, hcut "t" rfl⟩

/-- **A shard size that is set to bytes that are no text is not refused**: it
counts as not set, though no numeral is written as these bytes. -/
theorem not_configured_by_precedence :
    ¬ ∀ (given : Arguments) (disk : Disk) (env : Environment) (settings : Settings)
      (value : ByteArray), given.settle disk env = .ok settings → env.shardSize = some value →
        ∃ (text : String) (size : ℕ), value = text.toUTF8 ∧ SizeText text.toList size ∧
          size ≠ 0 := by
  intro h
  let value : ByteArray := ⟨#[0xff]⟩
  have hnothing : String.fromUTF8? value = none := by decide
  have hsettle : Arguments.settle {} ⟨∅, ∅, []⟩ ⟨none, some value, none⟩ =
      .ok ⟨"data", 5, "info"⟩ := by decide
  obtain ⟨text, size, hvalue, -, -⟩ := h _ _ _ _ value hsettle rfl
  rw [hvalue, fromUTF8?_toUTF8] at hnothing
  cases hnothing

end Program

end ShardStore

import ShardStore.Program
import ShardStore.Proofs.Program.SettingsFile
import ShardStore.Proofs.Text.Size
import ShardStore.Proofs.Text.Utf8
/-!
# Settings — each is that of the strongest source

A run is settled by what its sources give: arguments, environment and settings
file, in this order of strength, and the defaults behind them
(`Settings.ofSources`). A source that is not in order is refused, the weakest
one first, whatever the stronger ones give (`Arguments.Settles`), and none of
them gives a shard size of zero.
-/

namespace ShardStore

open Json Text

namespace Settings

/-! ## What sources give -/

/-- The settings of sources of which the strongest one comes first. -/
def ofSources (sources : List Given) : Settings where
  dataDirectory := (sources.findSome? (·.dataDirectory)).getD "data"
  defaultShardSize := (sources.findSome? (·.defaultShardSize)).getD 5
  logLevel := (sources.findSome? (·.logLevel)).getD "info"

/-- **A settings file that is in order**, and what its text gives. Where none
is named, nothing is given. -/
inductive FileGives (disk : Disk) : Option String → Given → Prop
  | unnamed : FileGives disk none {}
  | named {path text : String} {given : Given} (htext : disk.readText path = .ok text)
      (hgives : FileText text given) (hsize : given.defaultShardSize ≠ some 0) :
      FileGives disk (some path) given

/-- **What is wrong with a settings file.** A text that is none of settings is
refused with the problem that is met in it. -/
inductive FileFault (disk : Disk) : Option String → SettingsError → Prop
  | unreadable {path : String} {cause : DiskError} (htext : disk.readText path = .error cause) :
      FileFault disk (some path) (.unreadable path cause)
  | invalid {path text : String} {problem : JsonProblem} (htext : disk.readText path = .ok text)
      (hinvalid : ∀ given, ¬ FileText text given)
      (hproblem : readAll jsonReader text = .error problem) :
      FileFault disk (some path) (.invalid problem)
  | zeroSize {path text : String} {given : Given} (htext : disk.readText path = .ok text)
      (hgives : FileText text given) (hsize : given.defaultShardSize = some 0) :
      FileFault disk (some path) .zeroShardSize

/-- What a variable is set to: the text that is written as its bytes. Bytes
that no text is written as set it to nothing. -/
inductive SetTo (value : Option ByteArray) : Option String → Prop
  | text {text : String} (h : value = some text.toUTF8) : SetTo value (some text)
  | nothing (h : ∀ text : String, value ≠ some text.toUTF8) : SetTo value none

/-- **An environment that is in order**, and what it gives. -/
inductive EnvironmentGives (env : Environment) : Given → Prop
  | unsized {directory level : Option String} (hdirectory : SetTo env.dataDirectory directory)
      (hlevel : SetTo env.logLevel level) (h : SetTo env.shardSize none) :
      EnvironmentGives env ⟨directory, none, level⟩
  | sized {directory level : Option String} {text : String} {size : ℕ}
      (hdirectory : SetTo env.dataDirectory directory) (hlevel : SetTo env.logLevel level)
      (h : SetTo env.shardSize (some text)) (hsize : SizeText text.toList size) (hpos : size ≠ 0) :
      EnvironmentGives env ⟨directory, some size, level⟩

/-- **What is wrong with an environment.** -/
inductive EnvironmentFault (env : Environment) : SettingsError → Prop
  | sizeNotNumber {text : String} (h : SetTo env.shardSize (some text))
      (hsize : ∀ size, ¬ SizeText text.toList size) : EnvironmentFault env (.sizeNotNumber text)
  | zeroSize {text : String} (h : SetTo env.shardSize (some text))
      (hsize : SizeText text.toList 0) : EnvironmentFault env .zeroShardSize

/-- **A variable is set to its text.** -/
theorem text?_eq_iff {value : Option ByteArray} {text : Option String} :
    Environment.text? value = text ↔ SetTo value text := by
  constructor
  · rintro rfl
    cases hvalue : value with
    | none => exact .nothing nofun
    | some content =>
      cases htext : String.fromUTF8? content with
      | none =>
        rw [Environment.text?, Option.bind_some, htext]
        refine .nothing fun text hbytes => ?_
        rw [Option.some.inj hbytes, fromUTF8?_toUTF8] at htext
        cases htext
      | some text =>
        rw [Environment.text?, Option.bind_some, htext]
        exact .text (congrArg some (fromUTF8?_eq_some_iff.1 htext))
  · rintro (h | h)
    · rw [h, Environment.text?, Option.bind_some, fromUTF8?_toUTF8]
    · rw [Option.eq_none_iff_forall_ne_some]
      intro text htext
      obtain ⟨content, hvalue, hcontent⟩ := Option.bind_eq_some_iff.1 htext
      exact h text (hvalue.trans (congrArg some (fromUTF8?_eq_some_iff.1 hcontent)))

/-! ## Sources one over the other -/

variable {sources : List Given} {given : Given} {path : Option String} {disk : Disk}
  {env : Environment}

/-- A source in front of others is asked first. -/
theorem ofSources_cons (given : Given) (sources : List Given) :
    ofSources (given :: sources) =
      { dataDirectory := given.dataDirectory.getD (ofSources sources).dataDirectory
        defaultShardSize := given.defaultShardSize.getD (ofSources sources).defaultShardSize
        logLevel := given.logLevel.getD (ofSources sources).logLevel } := by
  obtain ⟨directory, size, level⟩ := given
  cases directory <;> cases size <;> cases level <;> rfl

/-- What a file leaves open has its default. -/
theorem complete_eq (given : Given) : given.complete = ofSources [given] :=
  (ofSources_cons given []).symm

/-- **Where no source gives a shard size of zero there is none.** -/
theorem ofSources_size_pos (h : ∀ given ∈ sources, given.defaultShardSize ≠ some 0) :
    0 < (ofSources sources).defaultShardSize := by
  induction sources with
  | nil => decide
  | cons given sources ih =>
    obtain ⟨hfirst, hrest⟩ := List.forall_mem_cons.mp h
    rw [ofSources_cons]
    cases hsize : given.defaultShardSize with
    | none => exact ih hrest
    | some size => exact Nat.pos_of_ne_zero fun hzero => hfirst (hzero ▸ hsize)

theorem validate_of_pos {settings : Settings} (h : 0 < settings.defaultShardSize) :
    settings.validate = .ok () :=
  if_neg h.ne'

theorem validate_of_zero {settings : Settings} (h : settings.defaultShardSize = 0) :
    settings.validate = .error .zeroShardSize :=
  if_pos h

theorem FileGives.size_ne (h : FileGives disk path given) : given.defaultShardSize ≠ some 0 := by
  cases h with
  | unnamed => exact nofun
  | named _ _ hsize => exact hsize

theorem EnvironmentGives.size_ne (h : EnvironmentGives env given) :
    given.defaultShardSize ≠ some 0 := by
  cases h with
  | unsized => exact nofun
  | sized _ _ _ _ hpos => simpa using hpos

/-! ## Refusing them -/

/-- A settings file is in order or at fault. -/
theorem fileGives_or_fileFault (disk : Disk) (path : Option String) :
    (∃ given, FileGives disk path given) ∨ ∃ e, FileFault disk path e := by
  rcases path with _ | path
  · exact .inl ⟨_, .unnamed⟩
  · cases htext : disk.readText path with
    | error cause => exact .inr ⟨_, .unreadable htext⟩
    | ok text =>
      cases hread : readAll jsonReader text with
      | error problem =>
        refine .inr ⟨_, .invalid htext (fun given hgives => ?_) hread⟩
        rw [readAll_jsonReader_eq_ok_iff.2 hgives] at hread
        cases hread
      | ok given =>
        have hgives := readAll_jsonReader_eq_ok_iff.1 hread
        by_cases hsize : given.defaultShardSize = some 0
        · exact .inr ⟨_, .zeroSize htext hgives hsize⟩
        · exact .inl ⟨_, .named htext hgives hsize⟩

/-- And so is an environment. -/
theorem environmentGives_or_environmentFault (env : Environment) :
    (∃ given, EnvironmentGives env given) ∨ ∃ e, EnvironmentFault env e := by
  have hdirectory : SetTo env.dataDirectory _ := text?_eq_iff.1 rfl
  have hlevel : SetTo env.logLevel _ := text?_eq_iff.1 rfl
  cases h : Environment.text? env.shardSize with
  | none => exact .inl ⟨_, .unsized hdirectory hlevel (text?_eq_iff.1 h)⟩
  | some text =>
    have hset := text?_eq_iff.1 h
    by_cases hnumber : ∃ size, SizeText text.toList size
    · obtain ⟨size, hsize⟩ := hnumber
      by_cases hzero : size = 0
      · subst hzero
        exact .inr ⟨_, .zeroSize hset hsize⟩
      · exact .inl ⟨_, .sized hdirectory hlevel hset hsize hzero⟩
    · exact .inr ⟨_, .sizeNotNumber hset (not_exists.1 hnumber)⟩

theorem ofFile_of_gives {path : String} (h : FileGives disk (some path) given) :
    ofFile disk path = .ok (ofSources [given]) := by
  have hpos : 0 < (ofSources [given]).defaultShardSize :=
    ofSources_size_pos (by simpa using h.size_ne)
  cases h with
  | named htext hgives _ =>
    simp only [ofFile, htext, ofJson, readAll_jsonReader_eq_ok_iff.2 hgives, complete_eq,
      validate_of_pos hpos]

theorem ofFile_of_fault {path : String} {e : SettingsError} (h : FileFault disk (some path) e) :
    ofFile disk path = .error e := by
  cases h with
  | unreadable htext => simp only [ofFile, htext]
  | invalid htext _ hproblem => simp only [ofFile, htext, ofJson, hproblem]
  | @zeroSize _ _ given htext hgives hsize =>
    have hzero : given.complete.defaultShardSize = 0 := by
      simp only [Given.complete, hsize, Option.getD_some]
    simp only [ofFile, htext, ofJson, readAll_jsonReader_eq_ok_iff.2 hgives, validate_of_zero hzero]

/-- **An environment that is in order is laid over the others.** -/
theorem override_of_gives (h : EnvironmentGives env given)
    (hsources : ∀ source ∈ sources, source.defaultShardSize ≠ some 0) :
    (ofSources sources).override env = (.ok (), ofSources (given :: sources)) := by
  have hpos : 0 < (ofSources (given :: sources)).defaultShardSize :=
    ofSources_size_pos (List.forall_mem_cons.mpr ⟨h.size_ne, hsources⟩)
  rw [ofSources_cons] at hpos ⊢
  cases h with
  | unsized hdirectory hlevel h =>
    simp only [override, text?_eq_iff.2 hdirectory, text?_eq_iff.2 hlevel, text?_eq_iff.2 h,
      withDirectory, withLogLevel]
    exact Prod.ext (validate_of_pos hpos) rfl
  | sized hdirectory hlevel h hsize _ =>
    simp only [override, text?_eq_iff.2 hdirectory, text?_eq_iff.2 hlevel, text?_eq_iff.2 h,
      readSize?_eq_some_iff.2 hsize, withDirectory, withLogLevel]
    exact Prod.ext (validate_of_pos hpos) rfl

theorem override_of_fault {e : SettingsError} (h : EnvironmentFault env e) (settings : Settings) :
    (settings.override env).1 = .error e := by
  cases h with
  | @sizeNotNumber text h hsize =>
    have hread : readSize? text.toList = none := by
      rw [Option.eq_none_iff_forall_ne_some]
      exact fun size hread => hsize size (readSize?_eq_some_iff.1 hread)
    simp only [override, text?_eq_iff.2 h, hread]
  | zeroSize h hsize =>
    simp only [override, text?_eq_iff.2 h, readSize?_eq_some_iff.2 hsize]
    exact validate_of_zero rfl

end Settings

namespace Arguments

open Settings

variable {given : Arguments} {disk : Disk} {env : Environment} {e : SettingsError}
  {outcome : Except SettingsError Settings}

/-- What arguments give. There is no option for the log level. -/
def gives (given : Arguments) : Given :=
  ⟨given.dataDirectory, given.shardSize, none⟩

theorem laidOver_ofSources (given : Arguments) (sources : List Given) :
    given.laidOver (ofSources sources) = ofSources (given.gives :: sources) :=
  (ofSources_cons given.gives sources).symm

/-- **How a run is settled.** The first source that is not in order is refused,
the settings file before the environment and that before the arguments;
where all three are in order, the strongest of them counts in each field. -/
inductive Settles (given : Arguments) (disk : Disk) (env : Environment) :
    Except SettingsError Settings → Prop
  | badFile {e : SettingsError} (hfile : FileFault disk given.settingsFile e) :
      Settles given disk env (.error e)
  | badEnvironment {file : Given} {e : SettingsError}
      (hfile : FileGives disk given.settingsFile file) (henv : EnvironmentFault env e) :
      Settles given disk env (.error e)
  | zeroSize {file environment : Given} (hfile : FileGives disk given.settingsFile file)
      (henv : EnvironmentGives env environment) (hsize : given.shardSize = some 0) :
      Settles given disk env (.error .zeroShardSize)
  | settled {file environment : Given} (hfile : FileGives disk given.settingsFile file)
      (henv : EnvironmentGives env environment) (hsize : given.shardSize ≠ some 0) :
      Settles given disk env (.ok (ofSources [given.gives, environment, file]))

/-- Every run is settled in some way. -/
theorem exists_settles (given : Arguments) (disk : Disk) (env : Environment) :
    ∃ outcome, given.Settles disk env outcome := by
  rcases fileGives_or_fileFault disk given.settingsFile with ⟨file, hfile⟩ | ⟨e, hfile⟩
  · rcases environmentGives_or_environmentFault env with ⟨environment, henv⟩ | ⟨e, henv⟩
    · by_cases hsize : given.shardSize = some 0
      · exact ⟨_, .zeroSize hfile henv hsize⟩
      · exact ⟨_, .settled hfile henv hsize⟩
    · exact ⟨_, .badEnvironment hfile henv⟩
  · exact ⟨_, .badFile hfile⟩

/-- A settings file that is in order leaves its settings to the environment,
and what stands then to the arguments. -/
theorem settle_of_fileGives {file : Given} (hfile : FileGives disk given.settingsFile file) :
    given.settle disk env =
      ((ofSources [file]).override env).1.bind fun _ =>
        let settings := given.laidOver ((ofSources [file]).override env).2
        settings.validate.map fun _ => settings := by
  have hdefault : ofSources [{}] = {} := rfl
  unfold settle
  cases hpath : given.settingsFile
  case' none =>
    rw [hpath] at hfile
    cases hfile
    rw [hdefault]
    dsimp only
    generalize override {} env = later
  case' some path =>
    rw [hpath] at hfile
    dsimp only
    rw [ofFile_of_gives hfile]
    dsimp only
    generalize (ofSources [file]).override env = later
  -- Whatever the settings are that the environment is laid over, the rest is the same.
  all_goals
    rcases later with ⟨_ | _, settings⟩
    · rfl
    · dsimp only [Except.bind]
      cases (given.laidOver settings).validate <;> rfl

theorem Settles.settle_eq (h : given.Settles disk env outcome) :
    given.settle disk env = outcome := by
  cases h with
  | badFile hfile =>
    cases hpath : given.settingsFile with
    | none =>
      rw [hpath] at hfile
      cases hfile
    | some path =>
      rw [hpath] at hfile
      simp only [settle, hpath, ofFile_of_fault hfile]
  | @badEnvironment file e hfile henv =>
    rw [settle_of_fileGives hfile, override_of_fault henv]
    rfl
  | zeroSize hfile henv hsize =>
    have hzero : ∀ settings : Settings, (given.laidOver settings).defaultShardSize = 0 := by
      simp [laidOver, hsize]
    rw [settle_of_fileGives hfile, override_of_gives henv (by simpa using hfile.size_ne)]
    simp only [Except.bind, Except.map, validate_of_zero (hzero _)]
  | @settled file environment hfile henv hsize =>
    have hpos : 0 < (ofSources [given.gives, environment, file]).defaultShardSize :=
      ofSources_size_pos (by simpa [gives] using ⟨hsize, henv.size_ne, hfile.size_ne⟩)
    rw [settle_of_fileGives hfile, override_of_gives henv (by simpa using hfile.size_ne)]
    simp only [Except.bind, Except.map, laidOver_ofSources, validate_of_pos hpos]

/-- **A run is settled by its sources**, and in no other way. -/
theorem settle_eq_iff : given.settle disk env = outcome ↔ given.Settles disk env outcome := by
  refine ⟨?_, Settles.settle_eq⟩
  rintro rfl
  obtain ⟨outcome, h⟩ := given.exists_settles disk env
  rwa [h.settle_eq]

/-- **A run is settled exactly if all its sources are in order**: none makes up
for a fault of another. -/
theorem exists_settle_eq_ok_iff : (∃ settings, given.settle disk env = .ok settings) ↔
    (∃ file, FileGives disk given.settingsFile file) ∧
      (∃ environment, EnvironmentGives env environment) ∧ given.shardSize ≠ some 0 := by
  simp only [settle_eq_iff]
  constructor
  · rintro ⟨settings, _ | _ | _ | ⟨hfile, henv, hsize⟩⟩
    exact ⟨⟨_, hfile⟩, ⟨_, henv⟩, hsize⟩
  · rintro ⟨⟨file, hfile⟩, ⟨environment, henv⟩, hsize⟩
    exact ⟨_, .settled hfile henv hsize⟩

/-- And then no shard size is zero. -/
theorem size_pos_of_settle {settings : Settings} (h : given.settle disk env = .ok settings) :
    0 < settings.defaultShardSize := by
  cases settle_eq_iff.1 h with
  | settled hfile henv hsize =>
    exact ofSources_size_pos (by simpa [gives] using ⟨hsize, henv.size_ne, hfile.size_ne⟩)

end Arguments

end ShardStore

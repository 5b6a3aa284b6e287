import ShardStore.Program
import ShardStore.Proofs.Text.Size
/-!
# Arguments — the first word that ends their reading

Arguments are read as options with one value each (`Arguments.Choices`), up to
the first word in the place of an option that asks for help or is at fault
(`Arguments.Ends`). A value stands in no such place, so it may look like an
option, and of an option that is repeated the last value counts
(`Arguments.ofChoices`).
-/

namespace ShardStore

open Text

namespace Arguments

/-! ## What arguments say -/

/-- What one option with its value chooses. -/
inductive Choice where
  | settingsFile (path : String)
  | dataDirectory (directory : String)
  | shardSize (size : ℕ)
deriving DecidableEq

/-- The options, and how the value is called that each of them needs. -/
inductive NeedsValue : String → String → Prop
  | settingsFile : NeedsValue "--config" "a path"
  | dataDirectory : NeedsValue "--data-dir" "a path"
  | shardSize : NeedsValue "--shard-size" "a number"

/-- The words that ask for help. -/
def AsksForHelp (word : String) : Prop :=
  word = "-h" ∨ word = "--help" ∨ word = "help"

/-- **The words of choices**, an option and its value for each. Any word is the
value of a path. -/
inductive Choices : List String → List Choice → Prop
  | nil : Choices [] []
  | settingsFile (path : String) {words : List String} {choices : List Choice}
      (h : Choices words choices) :
      Choices ("--config" :: path :: words) (.settingsFile path :: choices)
  | dataDirectory (directory : String) {words : List String} {choices : List Choice}
      (h : Choices words choices) :
      Choices ("--data-dir" :: directory :: words) (.dataDirectory directory :: choices)
  | shardSize {text : String} {size : ℕ} (hsize : SizeText text.toList size)
      {words : List String} {choices : List Choice} (h : Choices words choices) :
      Choices ("--shard-size" :: text :: words) (.shardSize size :: choices)

/-- **Where reading ends**: behind the last word, or at a word in the place of
an option that asks for help, lacks its value or a number for it, or is no
option. -/
inductive Ends (given : Arguments) :
    List String → Except ArgumentError (Option Arguments) → Prop
  | finished : Ends given [] (.ok (some given))
  | help {word : String} (h : AsksForHelp word) (rest : List String) :
      Ends given (word :: rest) (.ok none)
  | missingValue {option value : String} (h : NeedsValue option value) :
      Ends given [option] (.error (.missingValue option value))
  | sizeNotNumber {text : String} (h : ∀ size, ¬ SizeText text.toList size)
      (rest : List String) :
      Ends given ("--shard-size" :: text :: rest) (.error (.sizeNotNumber text))
  | unknown {word : String} (hhelp : ¬ AsksForHelp word)
      (hoption : ∀ value, ¬ NeedsValue word value) (rest : List String) :
      Ends given (word :: rest) (.error (.unknown word))

namespace Choice

/-- The settings file that is chosen. -/
def settingsFile? : Choice → Option String
  | settingsFile path => some path
  | _ => none

/-- The data directory that is chosen. -/
def dataDirectory? : Choice → Option String
  | dataDirectory directory => some directory
  | _ => none

/-- The shard size that is chosen. -/
def shardSize? : Choice → Option ℕ
  | shardSize size => some size
  | _ => none

end Choice

/-- The arguments that choices come to: the last one of each kind counts. -/
def ofChoices (choices : List Choice) : Arguments where
  settingsFile := (choices.filterMap Choice.settingsFile?).getLast?
  dataDirectory := (choices.filterMap Choice.dataDirectory?).getLast?
  shardSize := (choices.filterMap Choice.shardSize?).getLast?

/-! ## Reading them -/

variable {given : Arguments} {words front rest : List String} {choices : List Choice}
  {outcome : Except ArgumentError (Option Arguments)}

/-- The arguments with one more choice. -/
def choose (given : Arguments) : Choice → Arguments
  | .settingsFile path => { given with settingsFile := some path }
  | .dataDirectory directory => { given with dataDirectory := some directory }
  | .shardSize size => { given with shardSize := some size }

theorem foldl_choose (choices : List Choice) :
    choices.foldl choose {} = ofChoices choices := by
  induction choices using List.reverseRecOn with
  | nil => rfl
  | append_singleton choices choice ih =>
    rw [List.foldl_concat, ih]
    cases choice <;>
      simp [ofChoices, choose, Choice.settingsFile?, Choice.dataDirectory?, Choice.shardSize?]

/-- Choices are read one after the other. -/
theorem parse_append (h : Choices front choices) (given : Arguments) (rest : List String) :
    parse given (front ++ rest) = parse (choices.foldl choose given) rest := by
  induction h generalizing given with
  | nil => rfl
  | settingsFile path _ ih =>
    rw [List.foldl_cons, ← ih]
    simp [parse, choose]
  | dataDirectory directory _ ih =>
    rw [List.foldl_cons, ← ih]
    simp [parse, choose]
  | shardSize hsize _ ih =>
    rw [List.foldl_cons, ← ih]
    simp [parse, choose, readSize?_eq_some_iff.2 hsize]

theorem parse_of_ends (h : Ends given rest outcome) : parse given rest = outcome := by
  cases h with
  | finished => rfl
  | help h rest =>
    unfold parse
    exact if_pos h
  | missingValue h => cases h <;> simp [parse]
  | @sizeNotNumber text h rest =>
    have hread : readSize? text.toList = none := by
      rw [Option.eq_none_iff_forall_ne_some]
      exact fun size hsize => h size (readSize?_eq_some_iff.1 hsize)
    simp [parse, hread]
  | @unknown word hhelp hoption rest =>
    have hconfig : word ≠ "--config" := by
      rintro rfl
      exact hoption _ .settingsFile
    have hdirectory : word ≠ "--data-dir" := by
      rintro rfl
      exact hoption _ .dataDirectory
    have hsize : word ≠ "--shard-size" := by
      rintro rfl
      exact hoption _ .shardSize
    unfold AsksForHelp at hhelp
    unfold parse
    rw [if_neg hhelp, if_neg hconfig, if_neg hdirectory, if_neg hsize]

/-- Reading always gets to a word where it ends. -/
theorem exists_ends (words : List String) : ∃ front choices rest,
    words = front ++ rest ∧ Choices front choices ∧ ∀ given, ∃ outcome, Ends given rest outcome := by
  -- An option that is in order takes two words.
  induction hlength : words.length using Nat.strong_induction_on generalizing words with
  | h length ih =>
    subst hlength
    have hhere : (∀ given, ∃ outcome, Ends given words outcome) → ∃ front choices rest,
        words = front ++ rest ∧ Choices front choices ∧ ∀ given, ∃ outcome, Ends given rest outcome :=
      fun h => ⟨[], [], words, rfl, .nil, h⟩
    rcases words with _ | ⟨word, words⟩
    · exact hhere fun given => ⟨_, .finished⟩
    · by_cases hhelp : AsksForHelp word
      · exact hhere fun given => ⟨_, .help hhelp words⟩
      · by_cases hoption : ∃ value, NeedsValue word value
        · obtain ⟨name, hname⟩ := hoption
          rcases words with _ | ⟨value, words⟩
          · exact hhere fun given => ⟨_, .missingValue hname⟩
          · obtain ⟨front, choices, rest, rfl, hchoices, hends⟩ :=
              ih words.length (by simp only [List.length_cons]; omega) words rfl
            cases hname with
            | settingsFile => exact ⟨_, _, rest, rfl, .settingsFile value hchoices, hends⟩
            | dataDirectory => exact ⟨_, _, rest, rfl, .dataDirectory value hchoices, hends⟩
            | shardSize =>
              by_cases hsize : ∃ size, SizeText value.toList size
              · obtain ⟨size, hsize⟩ := hsize
                exact ⟨_, _, rest, rfl, .shardSize hsize hchoices, hends⟩
              · exact hhere fun given => ⟨_, .sizeNotNumber (not_exists.1 hsize) _⟩
        · exact hhere fun given => ⟨_, .unknown hhelp (not_exists.1 hoption) words⟩

/-- **Arguments are read up to the first word that ends their reading.** -/
theorem parse_eq_iff : parse {} words = outcome ↔ ∃ front choices rest,
    words = front ++ rest ∧ Choices front choices ∧ Ends (ofChoices choices) rest outcome := by
  constructor
  · rintro rfl
    obtain ⟨front, choices, rest, rfl, hchoices, hends⟩ := exists_ends words
    obtain ⟨outcome, houtcome⟩ := hends (ofChoices choices)
    refine ⟨front, choices, rest, rfl, hchoices, ?_⟩
    rwa [parse_append hchoices, foldl_choose, parse_of_ends houtcome]
  · rintro ⟨front, choices, rest, rfl, hchoices, hends⟩
    rw [parse_append hchoices, foldl_choose, parse_of_ends hends]

end Arguments

end ShardStore

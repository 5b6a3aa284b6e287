import ShardStore.Document.Json
import ShardStore.Disk
/-!
# Settings

The settings are a data directory, a default shard size and a log level.
They come from a JSON file or from the defaults, and the environment is
laid over them. The default shard size must be positive after each of
these steps.
-/

namespace ShardStore

open Json

/-- What can be set. -/
structure Settings where
  dataDirectory : String := "data"
  defaultShardSize : Nat := 5
  logLevel : String := "info"
deriving DecidableEq, Repr

/-- The variables of the environment that are read. Their values are bytes. -/
structure Environment where
  dataDirectory : Option ByteArray := none
  shardSize : Option ByteArray := none
  logLevel : Option ByteArray := none
deriving DecidableEq

/-- The text of a variable. One whose bytes are no text counts as not set. -/
def Environment.text? (value : Option ByteArray) : Option String :=
  value.bind String.fromUTF8?

namespace Settings

/-- Refuses a default shard size of zero. -/
def validate (settings : Settings) : Except SettingsError Unit :=
  if settings.defaultShardSize = 0 then .error .zeroShardSize else .ok ()

/-! ## The settings file -/

/-- The settings that a file gives. -/
structure Given where
  dataDirectory : Option String := none
  defaultShardSize : Option Nat := none
  logLevel : Option String := none
deriving DecidableEq, Repr

/-- The given settings, with the defaults for the others. -/
def Given.complete (given : Given) : Settings :=
  let defaults : Settings := {}
  { dataDirectory := given.dataDirectory.getD defaults.dataDirectory
    defaultShardSize := given.defaultShardSize.getD defaults.defaultShardSize
    logLevel := given.logLevel.getD defaults.logLevel }

/-- How the value of a key of a settings file is read; no field may come
twice. -/
def fieldReader (given : Given) (key : String) : Except JsonProblem (Reader Given) :=
  if key = "data_directory" then
    if given.dataDirectory.isSome then .error .misshapen
    else .ok fun cs =>
      (stringValue cs).map (·.map fun directory => { given with dataDirectory := some directory })
  else if key = "default_shard_size" then
    if given.defaultShardSize.isSome then .error .misshapen
    else .ok fun cs =>
      (sizeValue cs).map (·.map fun size => { given with defaultShardSize := some size })
  else if key = "log_level" then
    if given.logLevel.isSome then .error .misshapen
    else .ok fun cs =>
      (stringValue cs).map (·.map fun level => { given with logLevel := some level })
  else .ok (ignored given)

/-- Reads one element of a list that may end before it. At the end of the
list, its bracket is left unread. -/
def optionalField {α : Type} (reader : Reader α) (first : Bool) (cs : List Char) :
    Except JsonProblem (Option α × List Char) :=
  match nextElement first cs with
  | .error e => .error e
  | .ok (.closed _) => .ok (none, cs)
  | .ok (.member next) => (reader next).map fun p => (some p.value, p.rest)

theorem length_optionalField {α : Type} {reader : Reader α} {first : Bool} {cs rest : List Char}
    {a : Option α} (h : optionalField reader first cs = .ok (a, rest)) :
    rest.length ≤ cs.length := by
  unfold optionalField at h
  split at h
  · simp at h
  · simp only [Except.ok.injEq, Prod.mk.injEq] at h
    exact Nat.le_of_eq (congrArg List.length h.2.symm)
  · next next hn =>
    have h1 := length_nextElement_member hn
    cases hr : reader next with
    | error e => simp [hr, Except.map] at h
    | ok p =>
      have h2 := p.shorter
      simp only [hr, Except.map, Except.ok.injEq, Prod.mk.injEq] at h
      rw [← h.2]; omega

/-- The fields of a settings file as the elements of a list, which may end
early. -/
def fieldsReader : Reader Given := fun cs =>
  match h1 : optionalField stringValue true cs with
  | .error e => .error e
  | .ok (directory, cs1) =>
    match h2 : optionalField sizeValue false cs1 with
    | .error e => .error e
    | .ok (size, cs2) =>
      match h3 : optionalField stringValue false cs2 with
      | .error e => .error e
      | .ok (level, cs3) =>
        (listEnd cs3).map fun p =>
          (p.widen (by
            have := length_optionalField h1
            have := length_optionalField h2
            have := length_optionalField h3
            omega)).map fun _ => ⟨directory, size, level⟩

/-- Reads settings. -/
def jsonReader : Reader Given :=
  recordValue fieldReader {} fieldsReader

/-- The settings that a JSON text holds. -/
def ofJson (text : String) : Except SettingsError Settings :=
  match readAll jsonReader text with
  | .error e => .error (.invalid e)
  | .ok given =>
    match given.complete.validate with
    | .error e => .error e
    | .ok () => .ok given.complete

/-- The settings in a file. -/
def ofFile (disk : Disk) (path : String) : Except SettingsError Settings :=
  match disk.readText path with
  | .error e => .error (.unreadable path e)
  | .ok text => ofJson text

/-! ## The environment -/

/-- The settings with the data directory of the environment. -/
def withDirectory (settings : Settings) (directory : Option String) : Settings :=
  { settings with dataDirectory := directory.getD settings.dataDirectory }

/-- The settings with the log level of the environment. -/
def withLogLevel (settings : Settings) (level : Option String) : Settings :=
  { settings with logLevel := level.getD settings.logLevel }

/-- Lays the environment over settings, and yields the settings also where
it is refused: a shard size that is no number leaves those after it as they
were. -/
def override (settings : Settings) (env : Environment) : Except SettingsError Unit × Settings :=
  let settings := settings.withDirectory (Environment.text? env.dataDirectory)
  let level := Environment.text? env.logLevel
  match Environment.text? env.shardSize with
  | none =>
    let settings := settings.withLogLevel level
    (settings.validate, settings)
  | some text =>
    match Text.readSize? text.toList with
    | none => (.error (.sizeNotNumber text), settings)
    | some size =>
      let settings := { settings with defaultShardSize := size }.withLogLevel level
      (settings.validate, settings)

end Settings

end ShardStore

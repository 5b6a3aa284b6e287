import ShardStore.Proofs.Json.Recognition
import ShardStore.Settings
/-!
# The settings file — what its text gives

A settings file holds an object or a list, with spaces around it
(`Settings.FileText`). In an object each setting is the value of its key,
which may be left out but not repeated, and the values of all other keys are
passed over (`Settings.OfMembers`). In a list the settings are the elements in
their order, and the last ones may be left out (`Settings.OfElements`). A file
is read as settings exactly if its text gives them
(`Settings.readAll_jsonReader_eq_ok_iff`).
-/

namespace ShardStore

open Json Text

namespace Settings

/-! ## What a text gives -/

/-- The texts of the values that a key has in an object. -/
def valuesOf (key : String) (members : List (String × List Char)) : List (List Char) :=
  (members.filter (·.1 = key)).map (·.2)

/-- What the values of a key add to a setting: nothing where there are none,
and one value where nothing was given before. -/
inductive Adds {α : Type} (IsText : List Char → α → Prop) (before : Option α) :
    List (List Char) → Option α → Prop
  | absent : Adds IsText before [] before
  | present {text : List Char} {a : α} (hbefore : before = none) (h : IsText text a) :
      Adds IsText before [text] (some a)

/-- **What the members of an object add to settings.** -/
structure OfMembers (before : Given) (members : List (String × List Char)) (after : Given) :
    Prop where
  directory : Adds (StringText .checked) before.dataDirectory (valuesOf "data_directory" members)
    after.dataDirectory
  size : Adds SizeNumber before.defaultShardSize (valuesOf "default_shard_size" members)
    after.defaultShardSize
  level : Adds (StringText .checked) before.logLevel (valuesOf "log_level" members) after.logLevel
  others : ∀ member ∈ members, member.1 ∉ ["data_directory", "default_shard_size", "log_level"] →
    ValueText member.2

/-- **What the elements of a list give.** -/
inductive OfElements : List (List Char) → Given → Prop
  | empty : OfElements [] {}
  | directory {first : List Char} {directory : String} (h : StringText .checked first directory) :
      OfElements [first] ⟨some directory, none, none⟩
  | size {first second : List Char} {directory : String} {size : ℕ}
      (h : StringText .checked first directory) (hsize : SizeNumber second size) :
      OfElements [first, second] ⟨some directory, some size, none⟩
  | level {first second third : List Char} {directory level : String} {size : ℕ}
      (h : StringText .checked first directory) (hsize : SizeNumber second size)
      (hlevel : StringText .checked third level) :
      OfElements [first, second, third] ⟨some directory, some size, some level⟩

/-- **The text of settings.** -/
inductive SettingsText : List Char → Given → Prop
  | object {text : List Char} {members : List (String × List Char)} {given : Given}
      (h : ObjectText .checked text members) (hmembers : OfMembers {} members given) :
      SettingsText text given
  | list {text : List Char} {items : List (List Char)} {given : Given} (h : ListText text items)
      (hitems : OfElements items given) : SettingsText text given

/-- **The text of a settings file**, with what it gives. -/
inductive FileText (text : String) (given : Given) : Prop
  | file {before value after : List Char} (hbefore : Spaces before)
      (h : SettingsText value given) (hafter : Spaces after)
      (htext : text.toList = before ++ (value ++ after)) : FileText text given

/-! ## Members -/

section Members

variable {before after : Given} {key : String} {text : List Char}
  {members : List (String × List Char)}

@[simp] theorem valuesOf_nil : valuesOf key [] = [] := rfl

@[simp] theorem valuesOf_cons_self : valuesOf key ((key, text) :: members) =
    text :: valuesOf key members := by
  simp [valuesOf]

theorem valuesOf_cons_of_ne {other : String} (h : other ≠ key) :
    valuesOf key ((other, text) :: members) = valuesOf key members := by
  simp [valuesOf, h]

/-- How settings grow by one member. -/
inductive TakesField (before : Given) : String × List Char → Given → Prop
  | directory {text : List Char} {directory : String} (hbefore : before.dataDirectory = none)
      (h : StringText .checked text directory) :
      TakesField before ("data_directory", text) { before with dataDirectory := some directory }
  | size {text : List Char} {size : ℕ} (hbefore : before.defaultShardSize = none)
      (h : SizeNumber text size) :
      TakesField before ("default_shard_size", text) { before with defaultShardSize := some size }
  | level {text : List Char} {level : String} (hbefore : before.logLevel = none)
      (h : StringText .checked text level) :
      TakesField before ("log_level", text) { before with logLevel := some level }
  | other {key : String} {text : List Char}
      (hkey : key ∉ ["data_directory", "default_shard_size", "log_level"]) (h : ValueText text) :
      TakesField before (key, text) before

theorem takesField_iff : TakesField before (key, text) after ↔
    (key = "data_directory" ∧ before.dataDirectory = none ∧ ∃ directory,
      StringText .checked text directory ∧
        { before with dataDirectory := some directory } = after) ∨
    (key = "default_shard_size" ∧ before.defaultShardSize = none ∧ ∃ size,
      SizeNumber text size ∧ { before with defaultShardSize := some size } = after) ∨
    (key = "log_level" ∧ before.logLevel = none ∧ ∃ level,
      StringText .checked text level ∧ { before with logLevel := some level } = after) ∨
    (key ∉ ["data_directory", "default_shard_size", "log_level"] ∧ ValueText text ∧
      after = before) := by
  constructor
  · intro h
    cases h with
    | directory hbefore h => exact .inl ⟨rfl, hbefore, _, h, rfl⟩
    | size hbefore h => exact .inr (.inl ⟨rfl, hbefore, _, h, rfl⟩)
    | level hbefore h => exact .inr (.inr (.inl ⟨rfl, hbefore, _, h, rfl⟩))
    | other hkey h => exact .inr (.inr (.inr ⟨hkey, h, rfl⟩))
  · rintro (⟨rfl, hbefore, _, h, rfl⟩ | ⟨rfl, hbefore, _, h, rfl⟩ | ⟨rfl, hbefore, _, h, rfl⟩ |
      ⟨hkey, h, rfl⟩)
    · exact .directory hbefore h
    · exact .size hbefore h
    · exact .level hbefore h
    · exact .other hkey h

theorem takesSteps_fieldReader : TakesSteps fieldReader TakesField where
  recognizes {given key value} h := by
    unfold fieldReader at h
    split_ifs at h with hdirectory hset hsize hset hlevel hset
    all_goals cases h
    · refine (recognizes_stringValue.map _).congr fun text next => ?_
      simp_all [takesField_iff]
    · refine (recognizes_sizeValue.map _).congr fun text next => ?_
      simp_all [takesField_iff]
    · refine (recognizes_stringValue.map _).congr fun text next => ?_
      simp_all [takesField_iff]
    · refine (recognizes_ignored given).congr fun text next => ?_
      simp_all [takesField_iff]
  refuses {given key problem} h text next := by
    unfold fieldReader at h
    split_ifs at h with hdirectory hset hsize hset hlevel hset
    all_goals simp_all [takesField_iff, Option.isSome_iff_ne_none]

theorem OfMembers.nil (given : Given) : OfMembers given [] given where
  directory := .absent
  size := .absent
  level := .absent
  others := by simp

theorem adds_nil_iff {α : Type} {IsText : List Char → α → Prop} {before after : Option α} :
    Adds IsText before [] after ↔ before = after := by
  constructor
  · rintro ⟨_⟩
    rfl
  · rintro rfl
    exact .absent

theorem adds_cons_iff {α : Type} {IsText : List Char → α → Prop} {before after : Option α}
    {texts : List (List Char)} : Adds IsText before (text :: texts) after ↔
      before = none ∧ ∃ a, IsText text a ∧ Adds IsText (some a) texts after := by
  constructor
  · rintro (_ | ⟨hbefore, h⟩)
    exact ⟨hbefore, _, h, .absent⟩
  · rintro ⟨rfl, a, h, hlater⟩
    cases hlater with
    | absent => exact .present rfl h
    | present hbefore => cases hbefore

theorem ofMembers_iff : OfMembers before members after ↔
    Adds (StringText .checked) before.dataDirectory (valuesOf "data_directory" members)
        after.dataDirectory ∧
      Adds SizeNumber before.defaultShardSize (valuesOf "default_shard_size" members)
          after.defaultShardSize ∧
        Adds (StringText .checked) before.logLevel (valuesOf "log_level" members) after.logLevel ∧
          ∀ member ∈ members,
            member.1 ∉ ["data_directory", "default_shard_size", "log_level"] → ValueText member.2 :=
  ⟨fun h => ⟨h.directory, h.size, h.level, h.others⟩, fun h => ⟨h.1, h.2.1, h.2.2.1, h.2.2.2⟩⟩

/-- **Members are taken one after the other.** -/
theorem ofMembers_cons_iff : OfMembers before ((key, text) :: members) after ↔
    ∃ next, TakesField before (key, text) next ∧ OfMembers next members after := by
  simp only [ofMembers_iff, takesField_iff, List.forall_mem_cons]
  by_cases hkey : key ∈ ["data_directory", "default_shard_size", "log_level"]
  · simp only [List.mem_cons, List.not_mem_nil, or_false] at hkey
    rcases hkey with rfl | rfl | rfl
    all_goals
      simp only [valuesOf_cons_self, valuesOf_cons_of_ne, adds_cons_iff, ne_eq,
        String.reduceEq, not_false_eq_true, List.mem_cons, true_or, or_true, not_true_eq_false,
        false_and, true_and, or_false, false_or, IsEmpty.forall_iff]
      grind
  · have hne : key ≠ "data_directory" ∧ key ≠ "default_shard_size" ∧ key ≠ "log_level" := by
      simpa using hkey
    simp only [valuesOf_cons_of_ne, hne, hkey, ne_eq, not_false_eq_true, false_and, true_and,
      false_or, forall_const]
    grind

theorem steps_takesField_iff :
    Steps TakesField before members after ↔ OfMembers before members after := by
  induction members generalizing before with
  | nil =>
    constructor
    · rintro ⟨_⟩
      exact .nil _
    · rintro ⟨hdirectory, hsize, hlevel, -⟩
      obtain ⟨directory, size, level⟩ := before
      obtain rfl := adds_nil_iff.1 hdirectory
      obtain rfl := adds_nil_iff.1 hsize
      obtain rfl := adds_nil_iff.1 hlevel
      exact .nil _
  | cons member members ih =>
    rw [ofMembers_cons_iff]
    constructor
    · rintro (_ | ⟨h, hlater⟩)
      exact ⟨_, h, ih.1 hlater⟩
    · rintro ⟨next, h, hlater⟩
      exact .cons h (ih.2 hlater)

end Members

/-! ## Elements -/

section Elements

variable {α : Type} {reader : Reader α} {IsText : List Char → α → Prop} {first : Bool}
  {cs rest front text : List Char} {a : α}

/-- No further element of a list is in front of its closing bracket. -/
def ListEnds (cs : List Char) : Prop :=
  ∃ spaces more, Spaces spaces ∧ cs = spaces ++ ']' :: more

/-- At the end of a list its bracket is left. -/
theorem optionalField_eq_none_iff :
    optionalField reader first cs = .ok (none, rest) ↔ cs = rest ∧ ListEnds cs := by
  unfold optionalField
  constructor
  · intro h
    split at h
    · cases h
    · next more hnext =>
      cases h
      obtain ⟨spaces, hspaces, hcs⟩ := nextElement_eq_closed_iff.1 hnext
      exact ⟨rfl, spaces, more, hspaces, hcs⟩
    · next next hnext =>
      cases hread : reader next with
      | error problem => simp [hread, Except.map] at h
      | ok p => simp [hread, Except.map] at h
  · rintro ⟨rfl, spaces, more, hspaces, rfl⟩
    simp only [nextElement_closing hspaces first more]

theorem element_of_optionalField (h : Recognizes reader IsText)
    (hread : optionalField reader first cs = .ok (some a, rest)) :
    ∃ front text, Lead first front ∧ IsText text a ∧ cs = front ++ (text ++ rest) := by
  unfold optionalField at hread
  split at hread
  · cases hread
  · cases hread
  · next next hnext =>
    obtain ⟨front, hfront, rfl⟩ := lead_of_nextElement hnext
    cases hvalue : reader next with
    | error problem => simp [hvalue, Except.map] at hread
    | ok p =>
      simp only [hvalue, Except.map, Except.ok.injEq, Prod.mk.injEq, Option.some.injEq] at hread
      obtain ⟨rfl, rfl⟩ := hread
      obtain ⟨spaces, text, hspaces, htext, hsplit⟩ := h.sound ⟨p, hvalue, rfl, rfl⟩
      exact ⟨_, text, hfront.append hspaces, htext, by simp [← hsplit]⟩

theorem optionalField_element (h : Recognizes reader IsText) (hfront : Lead first front)
    (htext : IsText text a) (hstart : StartsElement text) (hrest : Delimited rest) :
    optionalField reader first (front ++ (text ++ rest)) = .ok (some a, rest) := by
  have hread : Yields (reader (text ++ rest)) a rest := h.complete spaces_nil htext hrest
  obtain ⟨p, hp, rfl, hbehind⟩ := hread
  unfold optionalField
  simp only [hfront.nextElement hstart, hp, Except.map, hbehind]

theorem yields_listEnd_iff : Yields (listEnd cs) () rest ↔
    ∃ spaces, Spaces spaces ∧ cs = spaces ++ ']' :: rest := by
  unfold listEnd
  constructor
  · intro h
    split at h
    · exact absurd h not_yields_error
    · next c more hs =>
      obtain ⟨spaces, hspaces, hcs, -⟩ := exists_spaces_of_skipSpaces hs
      split at h
      · next hc =>
        obtain ⟨-, rfl⟩ := yields_ok.1 h
        exact ⟨spaces, hspaces, hc ▸ hcs⟩
      · exact absurd h not_yields_error
  · rintro ⟨spaces, hspaces, rfl⟩
    have hskip := skipSpaces_spaces hspaces (by rfl : isSpace ']' = false) rest
    split
    · next hs => rw [hskip] at hs; cases hs
    · next hs =>
      rw [hskip] at hs
      cases hs
      exact yields_ok.2 ⟨rfl, rfl⟩

theorem yields_fieldsReader_iff {given : Given} : Yields (fieldsReader cs) given rest ↔
    ∃ cs₁ cs₂ cs₃, optionalField stringValue true cs = .ok (given.dataDirectory, cs₁) ∧
      optionalField sizeValue false cs₁ = .ok (given.defaultShardSize, cs₂) ∧
        optionalField stringValue false cs₂ = .ok (given.logLevel, cs₃) ∧
          Yields (listEnd cs₃) () rest := by
  obtain ⟨directory, size, level⟩ := given
  unfold fieldsReader
  split
  · next heq => simp [heq]
  · next heq₁ =>
    split
    · next heq => simp [heq₁, heq]
    · next heq₂ =>
      split
      · next heq => simp [heq₁, heq₂, heq]
      · next cs₃ heq₃ =>
        cases hend : listEnd cs₃ <;> simp [heq₁, heq₂, heq₃, hend, Except.map, and_assoc]

theorem ListEnds.optionalField (h : ListEnds cs) :
    optionalField reader first cs = .ok (none, cs) :=
  optionalField_eq_none_iff.2 ⟨rfl, h⟩

theorem ListEnds.eq_none {o : Option α} (h : ListEnds cs)
    (hread : Settings.optionalField reader first cs = .ok (o, rest)) : o = none ∧ cs = rest := by
  rw [h.optionalField] at hread
  cases hread
  exact ⟨rfl, rfl⟩

/-- **The fields of a list are its elements.** -/
theorem elements_of_fieldsReader {given : Given} (h : Yields (fieldsReader cs) given rest) :
    ∃ inner items, Between true inner items ∧ OfElements items given ∧
      cs = inner ++ ']' :: rest := by
  obtain ⟨cs₁, cs₂, cs₃, hdirectory, hsize, hlevel, hend⟩ := yields_fieldsReader_iff.1 h
  obtain ⟨spaces, hspaces, rfl⟩ := yields_listEnd_iff.1 hend
  obtain ⟨directory, size, level⟩ := given
  cases directory with
  | none =>
    obtain ⟨rfl, hclosed⟩ := optionalField_eq_none_iff.1 hdirectory
    obtain ⟨rfl, rfl⟩ := hclosed.eq_none hsize
    obtain ⟨rfl, rfl⟩ := hclosed.eq_none hlevel
    exact ⟨spaces, [], .nil hspaces, .empty, rfl⟩
  | some directory =>
    obtain ⟨front₁, text₁, hfront₁, htext₁, rfl⟩ :=
      element_of_optionalField recognizes_stringValue hdirectory
    cases size with
    | none =>
      obtain ⟨rfl, hclosed⟩ := optionalField_eq_none_iff.1 hsize
      obtain ⟨rfl, rfl⟩ := hclosed.eq_none hlevel
      exact ⟨_, _, .cons hfront₁ (.nil hspaces), .directory htext₁, by simp⟩
    | some size =>
      obtain ⟨front₂, text₂, hfront₂, htext₂, rfl⟩ :=
        element_of_optionalField recognizes_sizeValue hsize
      cases level with
      | none =>
        obtain ⟨rfl, -⟩ := optionalField_eq_none_iff.1 hlevel
        exact ⟨_, _, .cons hfront₁ (.cons hfront₂ (.nil hspaces)), .size htext₁ htext₂,
          by simp⟩
      | some level =>
        obtain ⟨front₃, text₃, hfront₃, htext₃, rfl⟩ :=
          element_of_optionalField recognizes_stringValue hlevel
        exact ⟨_, _, .cons hfront₁ (.cons hfront₂ (.cons hfront₃ (.nil hspaces))),
          .level htext₁ htext₂ htext₃, by simp⟩

theorem optionalField_between {inner : List Char} {items : List (List Char)}
    (h : Recognizes reader IsText) (hinner : Between first inner (text :: items))
    (htext : IsText text a) (hstart : StartsElement text) (rest : List Char) :
    ∃ more, Between false more items ∧
      optionalField reader first (inner ++ ']' :: rest) = .ok (some a, more ++ ']' :: rest) := by
  obtain _ | @⟨_, front, _, more, _, hfront, hmore⟩ := hinner
  have hbehind : Delimited (more ++ ']' :: rest) :=
    hmore.delimited (delimited_cons (by decide) rest)
  refine ⟨more, hmore, ?_⟩
  rw [List.append_assoc, List.append_assoc]
  exact optionalField_element h hfront htext hstart hbehind

theorem optionalField_string {inner : List Char} {items : List (List Char)} {s : String}
    (hinner : Between first inner (text :: items)) (h : StringText .checked text s)
    (rest : List Char) :
    ∃ more, Between false more items ∧
      optionalField stringValue first (inner ++ ']' :: rest) =
        .ok (some s, more ++ ']' :: rest) := by
  refine optionalField_between recognizes_stringValue hinner h ?_ rest
  obtain ⟨_⟩ := h
  exact ⟨'"', _, rfl, by decide⟩

theorem optionalField_size {inner : List Char} {items : List (List Char)} {n : ℕ}
    (hinner : Between first inner (text :: items)) (h : SizeNumber text n) (rest : List Char) :
    ∃ more, Between false more items ∧
      optionalField sizeValue first (inner ++ ']' :: rest) = .ok (some n, more ++ ']' :: rest) := by
  refine optionalField_between recognizes_sizeValue hinner h ?_ rest
  obtain ⟨c, more, rfl, hc⟩ := h.head
  exact ⟨c, more, rfl, startsNumber_spec hc⟩

/-- And its elements are the fields. -/
theorem OfElements.yields {items : List (List Char)} {inner : List Char} {given : Given}
    (h : OfElements items given) (hinner : Between true inner items) (rest : List Char) :
    Yields (fieldsReader (inner ++ ']' :: rest)) given rest := by
  refine yields_fieldsReader_iff.2 ?_
  cases h with
  | empty =>
    obtain ⟨hspaces⟩ := hinner
    have hend : ListEnds (inner ++ ']' :: rest) := ⟨inner, rest, hspaces, rfl⟩
    exact ⟨_, _, _, hend.optionalField, hend.optionalField, hend.optionalField,
      yields_listEnd_iff.2 ⟨inner, hspaces, rfl⟩⟩
  | directory h =>
    obtain ⟨more, hmore, hdirectory⟩ := optionalField_string hinner h rest
    obtain ⟨hspaces⟩ := hmore
    have hend : ListEnds (more ++ ']' :: rest) := ⟨more, rest, hspaces, rfl⟩
    exact ⟨_, _, _, hdirectory, hend.optionalField, hend.optionalField,
      yields_listEnd_iff.2 ⟨more, hspaces, rfl⟩⟩
  | size h hsize =>
    obtain ⟨more₁, hmore₁, hdirectory⟩ := optionalField_string hinner h rest
    obtain ⟨more₂, hmore₂, hsize⟩ := optionalField_size hmore₁ hsize rest
    obtain ⟨hspaces⟩ := hmore₂
    have hend : ListEnds (more₂ ++ ']' :: rest) := ⟨more₂, rest, hspaces, rfl⟩
    exact ⟨_, _, _, hdirectory, hsize, hend.optionalField,
      yields_listEnd_iff.2 ⟨more₂, hspaces, rfl⟩⟩
  | level h hsize hlevel =>
    obtain ⟨more₁, hmore₁, hdirectory⟩ := optionalField_string hinner h rest
    obtain ⟨more₂, hmore₂, hsize⟩ := optionalField_size hmore₁ hsize rest
    obtain ⟨more₃, hmore₃, hlevel⟩ := optionalField_string hmore₂ hlevel rest
    obtain ⟨hspaces⟩ := hmore₃
    exact ⟨_, _, _, hdirectory, hsize, hlevel, yields_listEnd_iff.2 ⟨more₃, hspaces, rfl⟩⟩

end Elements

/-! ## Files -/

theorem recognizes_jsonReader : Recognizes jsonReader SettingsText := by
  have hfields {cs rest : List Char} {given : Given} : Yields (fieldsReader cs) given rest ↔
      ∃ inner items, Between true inner items ∧ OfElements items given ∧
        cs = inner ++ ']' :: rest := by
    constructor
    · exact elements_of_fieldsReader
    · rintro ⟨inner, items, hinner, hitems, rfl⟩
      exact hitems.yields hinner rest
  refine (recognizes_recordValue takesSteps_fieldReader {} hfields).congr fun text given => ?_
  constructor
  · rintro (⟨h, hmembers⟩ | ⟨h, hitems⟩)
    · exact .object h (steps_takesField_iff.1 hmembers)
    · exact .list h hitems
  · rintro (⟨h, hmembers⟩ | ⟨h, hitems⟩)
    · exact .object h (steps_takesField_iff.2 hmembers)
    · exact .list h hitems

/-- **A file is read as settings exactly if its text gives them.** -/
theorem readAll_jsonReader_eq_ok_iff {text : String} {given : Given} :
    readAll jsonReader text = .ok given ↔ FileText text given := by
  rw [recognizes_jsonReader.readAll_eq_ok_iff]
  constructor
  · rintro ⟨before, value, after, hbefore, hvalue, hafter, htext⟩
    exact ⟨hbefore, hvalue, hafter, htext⟩
  · rintro ⟨hbefore, hvalue, hafter, htext⟩
    exact ⟨_, _, _, hbefore, hvalue, hafter, htext⟩

end Settings

end ShardStore

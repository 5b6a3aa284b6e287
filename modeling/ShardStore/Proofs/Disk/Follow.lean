import ShardStore.Proofs.Disk.Leads
import ShardStore.Proofs.Disk.Path
/-!
# Disk — where the path of a name leads

A directory that is there has a room (`Disk.room?`): the location below
which its names are found. What a path of a name in the directory comes to
is settled by three things: whether the name fits (`Disk.Fits`), the room,
and what the room has under the name, if that is no symbolic link
(`status_join`). Which room a directory has depends on nothing but the
symbolic links and where directories are, and that it has another one on the
symbolic links alone.
-/

namespace ShardStore

namespace Disk

variable {disk middle later : Disk} {here there : Location} {steps : List String}

/-- Two disks have the same links, and relative paths start at the same
place. -/
structure SameLinks (disk later : Disk) : Prop where
  origin : later.workingDirectory = disk.workingDirectory
  link : ∀ location, later.link? location = disk.link? location

namespace SameLinks

theorem refl (disk : Disk) : SameLinks disk disk :=
  ⟨rfl, fun _ => rfl⟩

theorem trans (h₁ : SameLinks disk middle) (h₂ : SameLinks middle later) :
    SameLinks disk later :=
  ⟨h₂.origin.trans h₁.origin, fun location => (h₂.link location).trans (h₁.link location)⟩

end SameLinks

/-- Relative paths start at the same place, the symbolic links are the same,
and no other name has become that of a link. -/
structure NoNewLinks (disk later : Disk) : Prop where
  origin : later.workingDirectory = disk.workingDirectory
  target : ∀ location, later.target? location = disk.target? location
  link : ∀ location, disk.link? location = none → later.link? location = none

namespace NoNewLinks

theorem refl (disk : Disk) : NoNewLinks disk disk :=
  ⟨rfl, fun _ => rfl, fun _ => id⟩

theorem trans (h₁ : NoNewLinks disk middle) (h₂ : NoNewLinks middle later) :
    NoNewLinks disk later :=
  ⟨h₂.origin.trans h₁.origin, fun location => (h₂.target location).trans (h₁.target location),
    fun location => h₂.link location ∘ h₁.link location⟩

end NoNewLinks

theorem SameLinks.noNewLinks (h : SameLinks disk later) : NoNewLinks disk later := by
  refine ⟨h.origin, fun location => ?_, fun location => (h.link location).trans⟩
  simp only [target?, h.link]

/-! ## The room of a directory -/

/-- Steps lead to a directory. -/
structure IsRoom (disk : Disk) (here : Location) (steps : List String) (there : Location) :
    Prop where
  leads : disk.Leads true maxLinks here steps there
  entry : disk.entry? there = some .directory

theorem IsRoom.mono (hlinks : ∀ location, later.target? location = disk.target? location)
    (hdirectories : ∀ location, disk.entry? location = some .directory →
      later.entry? location = some .directory) (hroom : disk.IsRoom here steps there) :
    later.IsRoom here steps there :=
  ⟨hroom.leads.mono hlinks hdirectories, hdirectories there hroom.entry⟩

/-- A name in the room leads on. -/
theorem IsRoom.looksUp (h : disk.IsRoom here steps there) {name : String} (hname : name ≠ "..")
    (hlength : name.utf8ByteSize ≤ maxNameLength) : disk.LooksUp there name :=
  ⟨h.entry, hname, hlength⟩

/-- The location at which a directory's path starts. -/
def origin (disk : Disk) (directory : String) : Location :=
  if directory.toList.head? = some '/' then [] else disk.workingDirectory

theorem NoNewLinks.origin_eq (h : NoNewLinks disk later) (directory : String) :
    later.origin directory = disk.origin directory := by
  simp only [Disk.origin, h.origin]

/-- The location of a directory, if it is there. -/
def room? (disk : Disk) (directory : String) : Option Location :=
  match disk.follow true maxLinks (disk.origin directory) (Path.stepsOf directory) with
  | .error _ => none
  | .ok there => if disk.entry? there = some .directory then some there else none

variable {directory name : String}

theorem room?_eq_some_iff : disk.room? directory = some there ↔
    disk.IsRoom (disk.origin directory) (Path.stepsOf directory) there := by
  unfold room?
  split
  · next e h =>
    refine iff_of_false (by simp) fun hroom => ?_
    rw [follow_of_leads hroom.leads] at h
    cases h
  · next other h =>
    split
    · next hentry =>
      rw [Option.some.injEq]
      constructor
      · rintro rfl
        exact ⟨leads_of_follow h, hentry⟩
      · intro hroom
        exact Except.ok.inj (h.symm.trans (follow_of_leads hroom.leads))
    · next hentry =>
      refine iff_of_false (by simp) fun hroom => hentry ?_
      rw [Except.ok.inj (h.symm.trans (follow_of_leads hroom.leads))]
      exact hroom.entry

/-- A directory stays where it is while directories stay. -/
theorem room?_mono (h : NoNewLinks disk later)
    (hdirectories : ∀ location, disk.entry? location = some .directory →
      later.entry? location = some .directory) (hroom : disk.room? directory = some there) :
    later.room? directory = some there := by
  rw [room?_eq_some_iff] at hroom ⊢
  rw [h.origin_eq]
  exact hroom.mono h.target hdirectories

/-- **The room depends only on the symbolic links and on where directories
are.** -/
theorem room?_congr (h : NoNewLinks disk later)
    (hdirectories : ∀ location, later.entry? location = some .directory ↔
      disk.entry? location = some .directory) :
    later.room? directory = disk.room? directory := by
  refine Option.ext fun there => ?_
  rw [room?_eq_some_iff, room?_eq_some_iff, h.origin_eq]
  constructor
  · exact .mono (fun location => (h.target location).symm) fun location => (hdirectories location).1
  · exact .mono h.target fun location => (hdirectories location).2

/-- **No directory is in two places**, wherever other directories are. -/
theorem room?_unique (h : NoNewLinks disk later) {room : Location}
    (hroom : disk.room? directory = some there) (hlater : later.room? directory = some room) :
    there = room := by
  rw [room?_eq_some_iff] at hroom hlater
  rw [h.origin_eq] at hlater
  exact hroom.leads.unique h.target hlater.leads

/-- The path of a directory leads along its steps. -/
theorem reach_directory {path : Path} (hparse : Path.parse directory = .ok path) :
    disk.reach path =
      disk.follow true maxLinks (disk.origin directory) (Path.stepsOf directory) := by
  obtain ⟨-, -, -, habsolute, hsteps⟩ := Path.parse_eq_ok hparse
  have hstart : disk.start path = disk.origin directory := by simp [start, origin, habsolute]
  rw [reach, hstart, hsteps]

/-- What is at the path of a directory is a directory, or a file for which
the path does not ask for one. -/
theorem hasEntry_iff : disk.hasEntry directory = true ↔
    ∃ path, Path.parse directory = .ok path ∧ ∃ there entry,
      disk.Leads true maxLinks (disk.origin directory) (Path.stepsOf directory) there ∧
        disk.entry? there = some entry ∧ (entry = .directory ∨ path.ending = .step) := by
  unfold hasEntry status
  cases hparse : Path.parse directory with
  | error e => simp
  | ok path =>
    simp only [← follow_eq_ok_iff, find, reach_directory hparse]
    cases disk.follow true maxLinks (disk.origin directory) (Path.stepsOf directory) with
    | error e => simp
    | ok there =>
      cases hentry : disk.entry? there with
      | none => simp [hentry]
      | some entry =>
        cases entry with
        | directory => simp [hentry]
        | file content =>
          by_cases hending : path.ending = .step
          · simp [hentry, hending]
          · simp [hentry, hending]

/-- A directory that has a room is there when its path can be parsed. -/
theorem hasEntry_of_room (hroom : disk.room? directory = some there) :
    disk.hasEntry directory = true ↔ ∃ path, Path.parse directory = .ok path := by
  obtain ⟨hleads, hentry⟩ := room?_eq_some_iff.1 hroom
  rw [hasEntry_iff]
  constructor
  · rintro ⟨path, hparse, -⟩
    exact ⟨path, hparse⟩
  · rintro ⟨path, hparse⟩
    exact ⟨path, hparse, there, .directory, hleads, hentry, .inl rfl⟩

/-! ## Listing a directory -/

theorem nameIn?_eq_some_iff {location : Location} :
    nameIn? there location = some name ↔ location = there ++ [name] := by
  unfold nameIn?
  constructor
  · intro h
    split at h
    · next last hlast =>
      split at h
      · next hfront =>
        obtain rfl : last = name := Option.some.inj h
        obtain ⟨front, rfl⟩ := List.getLast?_eq_some_iff.mp hlast
        rw [List.dropLast_concat] at hfront
        rw [hfront]
      · cases h
    · cases h
  · rintro rfl
    simp

/-- **The names in a directory are those that its room has something
under.** -/
theorem mem_listNames {names : List String} (h : disk.listNames directory = .ok names) :
    ∃ room, disk.room? directory = some room ∧
      ∀ name, name ∈ names ↔ ∃ node, disk.node? (room ++ [name]) = some node := by
  unfold listNames at h
  split at h
  · cases h
  · next path hparse =>
    rw [reach_directory hparse] at h
    split at h
    · cases h
    · next room hfollow =>
      split at h
      · cases h
      · next henter =>
        cases h
        have hroom := room?_eq_some_iff.2 ⟨leads_of_follow hfollow, enter_eq_ok_iff.1 henter⟩
        refine ⟨room, hroom, fun name => ?_⟩
        rw [List.mem_filterMap]
        have hnode : (∃ node, disk.node? (room ++ [name]) = some node) ↔
            room ++ [name] ∈ disk.nodes.keys := by
          have hne : room ++ [name] ≠ [] := by simp
          rw [Std.ExtTreeMap.mem_keys, Std.ExtTreeMap.mem_iff_isSome_getElem?,
            Option.isSome_iff_exists]
          unfold node?
          rw [if_neg hne]
        rw [hnode]
        constructor
        · rintro ⟨location, hmem, hname⟩
          rwa [← nameIn?_eq_some_iff.1 hname]
        · intro hmem
          exact ⟨_, hmem, nameIn?_eq_some_iff.2 rfl⟩

/-- The directory that is listed has a path. -/
theorem parse_of_listNames {names : List String} (h : disk.listNames directory = .ok names) :
    ∃ path, Path.parse directory = .ok path := by
  unfold listNames at h
  split at h
  · cases h
  · next path hparse => exact ⟨path, hparse⟩

/-- No name is listed twice. -/
theorem nodup_listNames {names : List String} (h : disk.listNames directory = .ok names) :
    names.Nodup := by
  unfold listNames at h
  repeat' split at h
  all_goals cases h
  rw [List.Nodup, List.pairwise_filterMap]
  refine disk.nodes.nodup_keys.imp fun hne name hname name' hname' heq => hne ?_
  rw [nameIn?_eq_some_iff.1 hname, nameIn?_eq_some_iff.1 hname', heq]

/-- A directory that has a room and can be parsed can be listed. -/
theorem listNames_isOk (hroom : disk.room? directory = some there)
    (hthere : disk.hasEntry directory = true) : ∃ names, disk.listNames directory = .ok names := by
  obtain ⟨path, hparse⟩ := (hasEntry_of_room hroom).1 hthere
  obtain ⟨hleads, hentry⟩ := room?_eq_some_iff.1 hroom
  rw [listNames, hparse]
  simp only [reach_directory hparse, follow_of_leads hleads, enter_eq_ok_iff.2 hentry]
  exact ⟨_, rfl⟩

/-! ## A name in a directory -/

/-- A name is short enough for its path, and as a step of it. -/
structure Fits (directory name : String) : Prop where
  parse : ∃ path, Path.parse (Path.join directory name) = .ok path
  length : name.utf8ByteSize ≤ maxNameLength

variable {through : Bool} {path : Path} {room location : Location}

/-- The path of a name starts where that of the directory does. -/
theorem start_join (disk : Disk) (h : Path.IsName name)
    (hparse : Path.parse (Path.join directory name) = .ok path) :
    disk.start path = disk.origin directory ∧ path.steps = Path.stepsOf directory ++ [name] ∧
      path.ending = .step := by
  obtain rfl := Path.parse_join h hparse
  exact ⟨by simp [start, origin], rfl, rfl⟩

/-- **The path of a name leads into the room of its directory**, unless a
symbolic link is there that is to be followed. -/
theorem follow_join (h : Path.IsName name) (hfits : Fits directory name)
    (hparse : Path.parse (Path.join directory name) = .ok path)
    (hroom : disk.room? directory = some room)
    (hplain : disk.target? (room ++ [name]) = none ∨ through = false) :
    disk.follow through maxLinks (disk.start path) path.steps = .ok (room ++ [name]) := by
  obtain ⟨hstart, hsteps, -⟩ := start_join disk h hparse
  have hisRoom := room?_eq_some_iff.1 hroom
  rw [hstart, hsteps]
  exact follow_of_leads (hisRoom.leads.snoc (hisRoom.looksUp h.dots hfits.length) hplain)

/-- **A path that leads somewhere leads into the room.** -/
theorem room_of_follow_join (h : Path.IsName name)
    (hparse : Path.parse (Path.join directory name) = .ok path)
    (hfollow : disk.follow through maxLinks (disk.start path) path.steps = .ok location) :
    ∃ room, disk.room? directory = some room ∧ Fits directory name ∧ path.ending = .step ∧
      (disk.target? (room ++ [name]) = none ∨ through = false → location = room ++ [name]) := by
  obtain ⟨hstart, hsteps, hending⟩ := start_join disk h hparse
  rw [hstart, hsteps] at hfollow
  obtain ⟨room, fewer, hleads, hlast⟩ := (leads_of_follow hfollow).split
  obtain ⟨hlooks, hends⟩ := hlast.last h.dots
  exact ⟨room, room?_eq_some_iff.2 ⟨hleads, hlooks.entry⟩, ⟨⟨path, hparse⟩, hlooks.length⟩,
    hending, hends⟩

/-- Without a room, or if it does not fit, the path leads nowhere. -/
theorem follow_join_error (h : Path.IsName name)
    (hparse : Path.parse (Path.join directory name) = .ok path)
    (hnone : disk.room? directory = none ∨ ¬ Fits directory name) :
    ∃ e, disk.follow through maxLinks (disk.start path) path.steps = .error e := by
  cases hfollow : disk.follow through maxLinks (disk.start path) path.steps with
  | error e => exact ⟨e, rfl⟩
  | ok location =>
    obtain ⟨room, hroom, hfits, -⟩ := room_of_follow_join h hparse hfollow
    rw [hroom] at hnone
    exact absurd hfits (hnone.resolve_left (by simp))

/-- **What is at the path of a name** is what its room has under the name,
where that is no symbolic link. -/
theorem status_join (h : Path.IsName name) (hfits : Fits directory name)
    (hroom : disk.room? directory = some room)
    (hplain : disk.target? (room ++ [name]) = none) :
    disk.status (Path.join directory name) =
      match disk.entry? (room ++ [name]) with
      | none => .error .notFound
      | some entry => .ok entry := by
  obtain ⟨path, hparse⟩ := hfits.parse
  obtain ⟨-, -, hending⟩ := start_join disk h hparse
  rw [status, hparse]
  simp only [find, reach, follow_join h hfits hparse hroom (.inl hplain)]
  cases disk.entry? (room ++ [name]) with
  | none => rfl
  | some entry =>
    cases entry with
    | directory => rfl
    | file content => simp only [hending, if_true]

theorem status_join_error (h : Path.IsName name)
    (hnone : disk.room? directory = none ∨ ¬ Fits directory name) :
    ∃ e, disk.status (Path.join directory name) = .error e := by
  cases hparse : Path.parse (Path.join directory name) with
  | error e => exact ⟨e, by rw [status, hparse]⟩
  | ok path =>
    obtain ⟨e, hfollow⟩ : ∃ e, disk.follow true maxLinks (disk.start path) path.steps = .error e :=
      follow_join_error h hparse hnone
    exact ⟨e, by rw [status, hparse]; simp only [find, reach, hfollow]⟩

end Disk

end ShardStore

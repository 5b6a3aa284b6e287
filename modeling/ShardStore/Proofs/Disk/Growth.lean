import ShardStore.Disk.Halt
import ShardStore.Proofs.Disk.Follow
/-!
# Disk — making directories

Making the directories of a path makes them one after the other
(`Disk.Making`), each where nothing was, so the disk has more directories
and is otherwise the same (`Disk.Widened`). If the path never leads up, a
directory that there is at its end afterwards was there before or has
nothing in it (`Disk.Grown.unveils_nothing`): the first one that is made is
in a place that led nowhere, and the others are in it. A symbolic link on
the way can lead up, but nothing is made through a link that leads nowhere.
A path that leads up itself could bring to light a directory that had been
out of reach.
-/

namespace ShardStore

namespace Disk

variable {disk middle later : Disk} {path : Path} {behind ahead : List String}
  {directory : String}

/-! ## More directories -/

/-- The later disk has more directories, and is otherwise the earlier one. -/
structure Widened (disk later : Disk) : Prop where
  origin : later.workingDirectory = disk.workingDirectory
  shared : later.shared = disk.shared
  node : ∀ location, later.node? location = disk.node? location ∨
    disk.node? location = none ∧ later.node? location = some (.entry .directory)

namespace Widened

theorem refl (disk : Disk) : Widened disk disk :=
  ⟨rfl, rfl, fun _ => .inl rfl⟩

theorem trans (h₁ : Widened disk middle) (h₂ : Widened middle later) : Widened disk later := by
  refine ⟨h₂.origin.trans h₁.origin, h₂.shared.trans h₁.shared, fun location => ?_⟩
  rcases h₁.node location with hfirst | ⟨hnone, hmade⟩
  · rw [← hfirst]
    exact h₂.node location
  · rcases h₂.node location with hsecond | ⟨hnone', -⟩
    · exact .inr ⟨hnone, hsecond.trans hmade⟩
    · -- What was made the first time is not made again.
      rw [hmade] at hnone'
      cases hnone'

/-- A directory that is put where nothing was. -/
theorem put {location : Location} (hnone : disk.node? location = none) :
    Widened disk (disk.put location .directory) := by
  refine ⟨rfl, rfl, fun other => ?_⟩
  rw [node?_put disk (ne_root_of_node? hnone)]
  split
  · next heq => exact .inr ⟨heq ▸ hnone, rfl⟩
  · exact .inl rfl

theorem sameLinks (h : Widened disk later) : SameLinks disk later := by
  refine ⟨h.origin, fun location => ?_⟩
  rcases h.node location with hsame | ⟨hnone, hmade⟩
  · exact link?_congr hsame
  · rw [link?_of_node? hmade, (node?_eq_none_iff.1 hnone).1]

theorem entry (h : Widened disk later) (location : Location) :
    later.entry? location = disk.entry? location ∨
      disk.entry? location = none ∧ later.entry? location = some .directory := by
  rcases h.node location with hsame | ⟨hnone, hmade⟩
  · exact .inl (entry?_congr h.shared hsame)
  · exact .inr ⟨(node?_eq_none_iff.1 hnone).2, entry?_of_node? hmade⟩

/-- What is there stays there. -/
theorem keeps (h : Widened disk later) {location : Location} {found : Entry}
    (hentry : disk.entry? location = some found) : later.entry? location = some found := by
  rcases h.entry location with hsame | ⟨hnone, -⟩
  · exact hsame.trans hentry
  · rw [hentry] at hnone
    cases hnone

theorem isRoom (h : Widened disk later) {here there : Location} {steps : List String}
    (hroom : disk.IsRoom here steps there) : later.IsRoom here steps there :=
  hroom.mono h.sameLinks.noNewLinks.target fun _ => h.keeps

end Widened

/-! ## One directory -/

/-- How the making of one directory ends. -/
inductive Ensured (disk : Disk) (path : Path) : Except DiskError Unit × Disk → Prop
  | made {location : Location} (hlocate : disk.locate path = .ok location)
      (hnone : disk.node? location = none) (hending : path.ending ≠ .dot) :
      Ensured disk path (.ok (), disk.put location .directory)
  | found (hfind : disk.find path = .ok .directory) : Ensured disk path (.ok (), disk)
  | refused (e : DiskError) : Ensured disk path (.error e, disk)

theorem ensured_ensureDirectory (disk : Disk) (path : Path) :
    Ensured disk path (disk.ensureDirectory path) := by
  have hmake : (∃ e, disk.makeDirectory path = (.error e, disk)) ∨
      ∃ location, disk.locate path = .ok location ∧ disk.node? location = none ∧
        path.ending ≠ .dot ∧ disk.makeDirectory path = (.ok (), disk.put location .directory) := by
    unfold makeDirectory
    split
    · exact .inl ⟨_, rfl⟩
    · next location hlocate =>
      split
      · exact .inl ⟨_, rfl⟩
      · next hnone =>
        split
        · exact .inl ⟨_, rfl⟩
        · next hending => exact .inr ⟨location, hlocate, hnone, hending, rfl⟩
  unfold ensureDirectory
  rcases hmake with ⟨e, hrefused⟩ | ⟨location, hlocate, hnone, hending, hmade⟩
  · rw [hrefused]
    dsimp only
    split
    · next hfind => exact .found hfind
    · exact .refused e
  · rw [hmade]
    exact .made hlocate hnone hending

theorem Ensured.widened {result : Except DiskError Unit × Disk} (h : Ensured disk path result) :
    Widened disk result.2 := by
  cases h with
  | made _ hnone => exact .put hnone
  | found => exact .refl disk
  | refused => exact .refl disk

/-! ## One after the other -/

/-- The disks that there are while the directories of a path are made, with
the steps along which they are there. -/
inductive Making (disk : Disk) (path : Path) : List String → Disk → Prop
  | start : Making disk path [] disk
  | step {behind ahead : List String} {name : String} {ending : PathEnd} {middle later : Disk}
      (hmaking : Making disk path behind middle) (hsteps : path.steps = behind ++ name :: ahead)
      (hensured : Ensured middle ⟨path.absolute, behind ++ [name], ending⟩ (.ok (), later)) :
      Making disk path (behind ++ [name]) later

theorem Making.widened (h : Making disk path behind later) : Widened disk later := by
  induction h with
  | start => exact .refl disk
  | step _ _ hensured ih => exact ih.trans hensured.widened

theorem Making.start_eq (h : Making disk path behind later) (absolute : Bool) (steps : List String)
    (ending : PathEnd) :
    later.start ⟨absolute, steps, ending⟩ = disk.start ⟨absolute, steps, ending⟩ := by
  simp only [Disk.start, h.widened.origin]

theorem Making.isPrefix (h : Making disk path behind later) :
    ∃ ahead, path.steps = behind ++ ahead := by
  cases h with
  | start => exact ⟨path.steps, rfl⟩
  | @step behind ahead name _ _ _ _ hsteps _ => exact ⟨ahead, by simp [hsteps]⟩

/-- **The directories on the way along a path are made one after the
other.** -/
theorem Making.ensureAlong {name : String} (h : Making disk path behind middle)
    (hsteps : path.steps = behind ++ name :: ahead) :
    ∃ made, Making disk path made (middle.ensureAlong path behind (name :: ahead)).2 := by
  induction ahead generalizing middle behind name with
  | nil =>
    have hlast : path = ⟨path.absolute, behind ++ [name], path.ending⟩ := by rw [← hsteps]
    have hensured := ensured_ensureDirectory middle path
    rw [Disk.ensureAlong]
    generalize middle.ensureDirectory path = result at hensured
    obtain ⟨outcome, later⟩ := result
    cases outcome with
    | ok =>
      rw [hlast] at hensured
      exact ⟨_, h.step hsteps hensured⟩
    | error e =>
      cases hensured
      exact ⟨_, h⟩
  | cons next ahead ih =>
    have hensured := ensured_ensureDirectory middle ⟨path.absolute, behind ++ [name], .step⟩
    rw [Disk.ensureAlong]
    split
    · next e later hrun =>
      rw [hrun] at hensured
      cases hensured
      exact ⟨_, h⟩
    · next later hrun =>
      rw [hrun] at hensured
      exact ih (h.step hsteps hensured) (by simp [hsteps])

/-- Where the making breaks off, some have been made. -/
theorem Making.ensureSome (h : Making disk path behind middle)
    (hsteps : path.steps = behind ++ ahead) (count : Nat) :
    ∃ made, Making disk path made (middle.ensureSome path behind count ahead) := by
  induction ahead generalizing middle behind count with
  | nil => cases count <;> exact ⟨_, h⟩
  | cons name ahead ih =>
    cases count with
    | zero => exact ⟨_, h⟩
    | succ count =>
      cases ahead with
      | nil => exact ⟨_, h⟩
      | cons next ahead =>
        have hensured := ensured_ensureDirectory middle ⟨path.absolute, behind ++ [name], .step⟩
        rw [Disk.ensureSome]
        split
        · next e later hrun =>
          rw [hrun] at hensured
          cases hensured
          exact ⟨_, h⟩
        · next later hrun =>
          rw [hrun] at hensured
          exact ih (h.step hsteps hensured) (by simp [hsteps]) count

/-- The disks that there are while a directory is made. -/
inductive Grown (disk : Disk) (directory : String) : Disk → Prop
  | same : Grown disk directory disk
  | making {path : Path} {behind : List String} {later : Disk}
      (hparse : Path.parse directory = .ok path) (h : Making disk path behind later) :
      Grown disk directory later

theorem Grown.widened (h : Grown disk directory later) : Widened disk later := by
  cases h with
  | same => exact .refl disk
  | making _ h => exact h.widened

/-- A path without steps is that of the root, or asks for what is there. -/
theorem ensureDirectory_of_no_steps (hparse : Path.parse directory = .ok path)
    (hsteps : path.steps = []) : (disk.ensureDirectory path).2 = disk := by
  have hensured := ensured_ensureDirectory disk path
  generalize disk.ensureDirectory path = result at hensured
  cases hensured with
  | found => rfl
  | refused => rfl
  | @made location hlocate hnone hending =>
    have habsolute := (Path.absolute_or_dot hparse hsteps).resolve_right hending
    have hroot : disk.start path = [] := if_pos habsolute
    rw [locate, hsteps, hroot] at hlocate
    cases leads_of_follow hlocate
    cases hnone

/-- **Making a directory makes those on the way to it.** -/
theorem makeDirectories_grown (disk : Disk) (directory : String) :
    Grown disk directory (disk.makeDirectories directory).2 := by
  unfold makeDirectories
  split
  · exact .same
  · split
    · exact .same
    · next path hparse =>
      cases hsteps : path.steps with
      | nil =>
        rw [ensureAlong, ensureDirectory_of_no_steps hparse hsteps]
        exact .same
      | cons name ahead =>
        have hstart : Making disk path [] disk := .start
        obtain ⟨made, hmaking⟩ := hstart.ensureAlong hsteps
        exact .making hparse hmaking

/-- Also where the making breaks off. -/
theorem makeSome_grown (disk : Disk) (directory : String) (count : Nat) :
    Grown disk directory (disk.makeSome directory count) := by
  unfold makeSome
  split
  · exact .same
  · next path hparse =>
    have hstart : Making disk path [] disk := .start
    obtain ⟨made, hmaking⟩ := hstart.ensureSome rfl count
    exact .making hparse hmaking

/-! ## What growth brings to light -/

/-- Beyond a room that has nothing under a name there is nothing. -/
theorem IsRoom.nothing_beyond {here room there : Location} {name : String} {links : Nat}
    (hroom : disk.IsRoom here behind room) (hname : name ≠ "..")
    (hnone : disk.node? (room ++ [name]) = none)
    (h : disk.Leads true links here (behind ++ name :: ahead) there) :
    disk.entry? there = none := by
  obtain ⟨between, fewer, hfirst, hsecond⟩ := h.split
  obtain rfl := hroom.leads.unique (fun _ => rfl) hfirst
  exact hsecond.into_nothing hname hnone

/-- Along some steps nothing was, and now there is a directory with nothing
in it. -/
structure Opened (disk : Disk) (here : Location) (behind : List String) (later : Disk) :
    Prop where
  before : ∀ (ahead : List String) (there : Location),
    disk.Leads true maxLinks here (behind ++ ahead) there → disk.entry? there = none
  after : ∃ room, later.IsRoom here behind room ∧ ∀ name, later.node? (room ++ [name]) = none

/-- Where a name is looked up that a path names last. -/
theorem room_of_locate {absolute : Bool} {name : String} {ending : PathEnd} {location : Location}
    (hname : name ≠ "..") (hending : ending ≠ .dot)
    (h : disk.locate ⟨absolute, behind ++ [name], ending⟩ = .ok location) :
    ∃ room, disk.IsRoom (disk.start ⟨absolute, behind ++ [name], ending⟩) behind room ∧
      disk.LooksUp room name ∧ location = room ++ [name] := by
  have hthrough : decide (ending = .dot) = false := decide_eq_false hending
  rw [locate, hthrough] at h
  obtain ⟨room, fewer, hleads, hlast⟩ := (leads_of_follow h).split
  obtain ⟨hlooks, hends⟩ := hlast.last hname
  exact ⟨room, ⟨hleads, hlooks.entry⟩, hlooks, hends (.inr rfl)⟩

/-- **What has been made is a directory in the place of nothing, with
nothing in it**, if anything has been made on a tree and along steps that do
not lead up. -/
theorem Making.opened (htree : disk.IsTree) (hplain : ".." ∉ path.steps)
    (h : Making disk path behind later) :
    later.IsTree ∧ (later = disk ∨ Opened disk (disk.start path) behind later) := by
  induction h with
  | start => exact ⟨htree, .inl rfl⟩
  | @step behind ahead name ending middle later hmaking hsteps hensured ih =>
    obtain ⟨hmiddle, hsofar⟩ := ih
    have hname : name ≠ ".." := by
      rintro rfl
      exact hplain (by simp [hsteps])
    have hstart : middle.start ⟨path.absolute, behind ++ [name], ending⟩ = disk.start path :=
      hmaking.start_eq ..
    cases hensured with
    | found hfind =>
      refine ⟨hmiddle, hsofar.imp_right fun hopened => ?_⟩
      -- In a directory with nothing in it nothing is found.
      obtain ⟨room, hroom, hempty⟩ := hopened.after
      unfold find at hfind
      split at hfind
      · cases hfind
      · next location hreach =>
        rw [reach, hstart] at hreach
        rw [hroom.nothing_beyond hname (hempty name) (leads_of_follow hreach)] at hfind
        cases hfind
    | @made location hlocate hnone hending =>
      obtain ⟨room, hroom, hlooks, rfl⟩ := room_of_locate hname hending hlocate
      rw [hstart] at hroom
      have hwidened : Widened middle (middle.put (room ++ [name]) .directory) := .put hnone
      have hnode := node?_put middle (ne_root_of_node? hnone) .directory
      refine ⟨hmiddle.put hroom.entry (.inl rfl), .inr ⟨fun more there hleads => ?_, ?_⟩⟩
      · rw [List.append_assoc, List.singleton_append] at hleads
        rcases hsofar with rfl | hopened
        · exact hroom.nothing_beyond hname hnone hleads
        · exact hopened.before _ there hleads
      · have hthere := hnode (room ++ [name])
        rw [if_pos rfl] at hthere
        have hlooks' := hlooks.mono fun _ => hwidened.keeps
        refine ⟨room ++ [name], ⟨(hwidened.isRoom hroom).leads.snoc hlooks' (.inl ?_),
          entry?_of_node? hthere⟩, fun other => ?_⟩
        · exact target?_of_link? (link?_of_node? hthere)
        · rw [hnode, if_neg (by simp)]
          exact hmiddle.below hnone other

/-- **A directory that was made unveils nothing.** On a tree, and along a
path that does not lead up, the disk is as it was; or there was no directory
at the end of the path, and there is none or one with nothing in it. -/
theorem Grown.unveils_nothing (htree : disk.IsTree) (hplain : ".." ∉ Path.stepsOf directory)
    (h : Grown disk directory later) : later.IsTree ∧ (later = disk ∨
      disk.room? directory = none ∧
        (later.room? directory = none ∧ later.hasEntry directory = false ∨
          ∃ room, later.room? directory = some room ∧
            ∀ name, later.node? (room ++ [name]) = none)) := by
  cases h with
  | same => exact ⟨htree, .inl rfl⟩
  | @making path behind _ hparse h =>
    obtain ⟨-, -, -, habsolute, hsteps⟩ := Path.parse_eq_ok hparse
    have hstart : disk.start path = disk.origin directory := by simp [start, origin, habsolute]
    obtain ⟨hlater, hopened⟩ := h.opened htree (hsteps ▸ hplain)
    refine ⟨hlater, hopened.imp_right ?_⟩
    rintro ⟨hbefore, room, hroom, hempty⟩
    obtain ⟨ahead, hsplit⟩ := h.isPrefix
    rw [hstart] at hbefore hroom
    rw [← hsteps, hsplit] at hplain
    have hafter := h.widened.sameLinks.noNewLinks.origin_eq directory
    refine ⟨?_, ?_⟩
    · -- Nothing was where the whole path leads.
      rw [Option.eq_none_iff_forall_ne_some]
      intro before hthere
      obtain ⟨hleads, hentry⟩ := room?_eq_some_iff.1 hthere
      rw [← hsteps, hsplit] at hleads
      rw [hbefore ahead before hleads] at hentry
      cases hentry
    · cases ahead with
      | nil =>
        refine .inr ⟨room, room?_eq_some_iff.2 ?_, hempty⟩
        rw [hafter, ← hsteps, hsplit, List.append_nil]
        exact hroom
      | cons name ahead =>
        have hname : name ≠ ".." := by
          rintro rfl
          exact hplain (by simp)
        have hnothing : ∀ there, later.Leads true maxLinks (later.origin directory)
            (Path.stepsOf directory) there → later.entry? there = none := by
          intro there hleads
          rw [hafter, ← hsteps, hsplit] at hleads
          exact hroom.nothing_beyond hname (hempty name) hleads
        refine .inl ⟨?_, ?_⟩
        · rw [Option.eq_none_iff_forall_ne_some]
          intro there hthere
          obtain ⟨hleads, hentry⟩ := room?_eq_some_iff.1 hthere
          rw [hnothing there hleads] at hentry
          cases hentry
        · rw [← Bool.not_eq_true, hasEntry_iff]
          rintro ⟨-, -, there, entry, hleads, hentry, -⟩
          rw [hnothing there hleads] at hentry
          cases hentry

end Disk

end ShardStore

import ShardStore.Proofs.Disk.Growth
/-!
# Disk — writing and moving files in a directory

Writing a file in a directory and moving one onto another there touch what
the room of the directory has under these names, and only where it has no
directory; if it has no symbolic link there either, and the file that is
written and moved has no other name, they touch nothing else
(`Disk.Refiled`). So no directory and no symbolic link appears or goes, and
every path leads where it led. A file that is replaced may go on under other
names.
-/

namespace ShardStore

namespace Disk

variable {disk middle later : Disk} {room : Location} {names : List String}

/-- At a location there is a file, or nothing. -/
structure Replaceable (disk : Disk) (location : Location) : Prop where
  target : disk.target? location = none
  entry : disk.entry? location ≠ some .directory

theorem Replaceable.ne_root {location : Location} (h : disk.Replaceable location) :
    location ≠ [] :=
  not_root_of_free h.entry

/-- At a location there is a file with no other name, or nothing. -/
structure Free (disk : Disk) (location : Location) : Prop where
  link : disk.link? location = none
  entry : disk.entry? location ≠ some .directory

theorem Free.replaceable {location : Location} (h : disk.Free location) :
    disk.Replaceable location :=
  ⟨target?_of_link? h.link, h.entry⟩

theorem free_of_node? {location : Location} {content : ByteArray}
    (h : disk.node? location = some (.entry (.file content))) : disk.Free location :=
  ⟨link?_of_node? h, by simp [entry?_of_node? h]⟩

/-- The later disk differs from the earlier one only in what a location has
under some names: there was a file or nothing, and there is a file with no
other name or nothing. -/
structure Refiled (room : Location) (names : List String) (disk later : Disk) : Prop where
  origin : later.workingDirectory = disk.workingDirectory
  shared : later.shared = disk.shared
  node : ∀ location, (∀ name ∈ names, location ≠ room ++ [name]) →
    later.node? location = disk.node? location
  before : ∀ name ∈ names, disk.Replaceable (room ++ [name])
  after : ∀ name ∈ names, later.Free (room ++ [name])
  tree : disk.IsTree → later.IsTree

namespace Refiled

variable {location : Location}

/-- A location is one of those that were touched, or not. -/
theorem free_or_same (h : Refiled room names disk later) (location : Location) :
    disk.Replaceable location ∧ later.Free location ∨
      later.node? location = disk.node? location := by
  by_cases htouched : ∀ name ∈ names, location ≠ room ++ [name]
  · exact .inr (h.node location htouched)
  · obtain ⟨name, hname, rfl⟩ : ∃ name ∈ names, location = room ++ [name] := by
      simpa using htouched
    exact .inl ⟨h.before name hname, h.after name hname⟩

/-- **Symbolic links stay where they are**, and no name becomes that of a
link. -/
theorem noNewLinks (h : Refiled room names disk later) : NoNewLinks disk later := by
  refine ⟨h.origin, fun location => ?_, fun location hlink => ?_⟩
  · rcases h.free_or_same location with ⟨hbefore, hafter⟩ | hsame
    · rw [target?_of_link? hafter.link, hbefore.target]
    · simp only [target?, link?_congr hsame]
  · rcases h.free_or_same location with ⟨-, hafter⟩ | hsame
    · exact hafter.link
    · exact (link?_congr hsame).trans hlink

/-- **Directories stay where they are.** -/
theorem directory_iff (h : Refiled room names disk later) (location : Location) :
    later.entry? location = some .directory ↔ disk.entry? location = some .directory := by
  rcases h.free_or_same location with ⟨hbefore, hafter⟩ | hsame
  · exact iff_of_false hafter.entry hbefore.entry
  · rw [entry?_congr h.shared hsame]

theorem room?_eq (h : Refiled room names disk later) (directory : String) :
    later.room? directory = disk.room? directory :=
  room?_congr h.noNewLinks h.directory_iff

/-- What the room has under another name is untouched. -/
theorem node_other (h : Refiled room names disk later) {name : String} (hname : name ∉ names) :
    later.node? (room ++ [name]) = disk.node? (room ++ [name]) := by
  refine h.node _ fun other hother heq => hname ?_
  obtain rfl : name = other := by simpa using heq
  exact hother

end Refiled

/-- A file is put where no directory and no link is. -/
theorem refiled_put {name : String} (content : ByteArray)
    (hroom : disk.entry? room = some .directory) (hfree : disk.Free (room ++ [name])) :
    Refiled room [name] disk (disk.put (room ++ [name]) (.file content)) := by
  have hnode := node?_put disk hfree.replaceable.ne_root (.file content)
  refine ⟨rfl, rfl, fun location hother => ?_, ?_, ?_,
    fun htree => htree.put hroom (.inr hfree.entry)⟩
  · rw [hnode, if_neg (hother name List.mem_cons_self)]
  · simpa using hfree.replaceable
  · have hthere := hnode (room ++ [name])
    rw [if_pos rfl] at hthere
    simpa using free_of_node? hthere

/-- A file with no other name is taken away and put where a file or nothing
is. -/
theorem refiled_move {source target : String} {content : ByteArray}
    (hroom : disk.entry? room = some .directory)
    (hsource : disk.node? (room ++ [source]) = some (.entry (.file content)))
    (hfree : disk.Replaceable (room ++ [target])) :
    Refiled room [source, target] disk
      ((disk.remove (room ++ [source])).put (room ++ [target]) (.file content)) := by
  have hfile := (free_of_node? hsource).replaceable
  have hremove := node?_remove disk hfile.ne_root
  have hnode := node?_put (disk.remove (room ++ [source])) hfree.ne_root (.file content)
  have hstill : Disk.entry? (disk.remove (room ++ [source])) room = some .directory := by
    rw [entry?_eq_directory_iff, hremove, if_neg (by simp)]
    exact entry?_eq_directory_iff.1 hroom
  have hfree' : Disk.entry? (disk.remove (room ++ [source])) (room ++ [target]) ≠
      some .directory := by
    rw [Ne, entry?_eq_directory_iff, hremove]
    split
    · simp
    · exact mt entry?_eq_directory_iff.2 hfree.entry
  refine ⟨rfl, rfl, fun location hother => ?_, ?_, ?_, fun htree => ?_⟩
  · rw [hnode, if_neg (hother target (by simp)), hremove, if_neg (hother source (by simp))]
  · rintro name hname
    obtain rfl | rfl : name = source ∨ name = target := by simpa using hname
    · exact hfile
    · exact hfree
  · rintro name hname
    have hthere := hnode (room ++ [name])
    split at hthere
    · exact free_of_node? hthere
    · next hne =>
      obtain rfl | rfl : name = source ∨ name = target := by simpa using hname
      · rw [hremove, if_pos rfl] at hthere
        obtain ⟨hlink, hentry⟩ := node?_eq_none_iff.1 hthere
        exact ⟨hlink, by simp [hentry]⟩
      · exact absurd rfl hne
  · exact (htree.remove hfile.ne_root hfile.entry).put hstill (.inr hfree')

variable {directory : String}

/-- **What writing a file in a directory comes to**, where no link has its
name. -/
theorem writeFile_join {name : String} (hname : Path.IsName name) (disk : Disk)
    (hplain : ∀ room, disk.room? directory = some room → disk.link? (room ++ [name]) = none)
    (content : ByteArray) :
    ((∃ e, (disk.writeFile (Path.join directory name) content).1 = .error e) ∧
        (disk.writeFile (Path.join directory name) content).2 = disk) ∨
      ∃ room, disk.room? directory = some room ∧ Fits directory name ∧
        disk.Free (room ++ [name]) ∧
        disk.writeFile (Path.join directory name) content =
          (.ok (), disk.put (room ++ [name]) (.file content)) := by
  unfold writeFile
  split
  · exact .inl ⟨⟨_, rfl⟩, rfl⟩
  · next path hparse =>
    split
    · exact .inl ⟨⟨_, rfl⟩, rfl⟩
    · next location hreach =>
      obtain ⟨room, hroom, hfits, hending, hends⟩ := room_of_follow_join hname hparse hreach
      have hlink := hplain room hroom
      obtain rfl := hends (.inl (target?_of_link? hlink))
      split
      · exact .inl ⟨⟨_, rfl⟩, rfl⟩
      · next hfree =>
        rw [if_pos hending, write_eq_put hlink]
        exact .inr ⟨room, hroom, hfits, ⟨hlink, hfree⟩, rfl⟩

/-- **What moving a file onto another in a directory comes to**, where it has
no other name and no symbolic link has the name of either. -/
theorem renameFile_join {source target : String} (hsource : Path.IsName source)
    (htarget : Path.IsName target) (disk : Disk)
    (hplain : ∀ room, disk.room? directory = some room →
      disk.link? (room ++ [source]) = none ∧ disk.target? (room ++ [target]) = none) :
    ((∃ e, (disk.renameFile (Path.join directory source) (Path.join directory target)).1 =
          .error e) ∧
        (disk.renameFile (Path.join directory source) (Path.join directory target)).2 = disk) ∨
      ∃ room content, disk.room? directory = some room ∧ Fits directory target ∧
        disk.node? (room ++ [source]) = some (.entry (.file content)) ∧
        disk.Replaceable (room ++ [target]) ∧
        disk.renameFile (Path.join directory source) (Path.join directory target) =
          (.ok (), (disk.remove (room ++ [source])).put (room ++ [target]) (.file content)) := by
  unfold renameFile
  split
  · exact .inl ⟨⟨_, rfl⟩, rfl⟩
  · exact .inl ⟨⟨_, rfl⟩, rfl⟩
  · next old new hold hnew =>
    split
    · exact .inl ⟨⟨_, rfl⟩, rfl⟩
    · exact .inl ⟨⟨_, rfl⟩, rfl⟩
    · next here there hhere hthere =>
      -- Neither path ends in a dot, so both name what is in the room.
      obtain ⟨-, -, hending⟩ := start_join disk hsource hold
      obtain ⟨-, -, hending'⟩ := start_join disk htarget hnew
      obtain ⟨room, hroom, -, -, hends⟩ := room_of_follow_join hsource hold hhere
      obtain ⟨room', hroom', hfits, -, hends'⟩ := room_of_follow_join htarget hnew hthere
      obtain rfl : room = room' := Option.some.inj (hroom.symm.trans hroom')
      obtain rfl := hends (.inr (by simp [hending]))
      obtain rfl := hends' (.inr (by simp [hending']))
      obtain ⟨hlink, htarget'⟩ := hplain room hroom
      split
      · exact .inl ⟨⟨_, rfl⟩, rfl⟩
      · exact .inl ⟨⟨_, rfl⟩, rfl⟩
      · next node hdirectory hnode =>
        obtain ⟨content, rfl⟩ : ∃ content, node = .entry (.file content) := by
          rcases node with (_ | content) | link
          · exact absurd rfl hdirectory
          · exact ⟨content, rfl⟩
          · simp [link?, hnode] at hlink
        split
        · exact .inl ⟨⟨_, rfl⟩, rfl⟩
        · next hfree =>
          have hdistinct : disk.areOneFile (room ++ [source]) (room ++ [target]) = false := by
            simp only [areOneFile, hlink]
          rw [if_pos ⟨hending, hending'⟩, if_neg (by simp [hdistinct])]
          exact .inr ⟨room, content, hroom, hfits, hnode, ⟨htarget', hfree⟩, rfl⟩

end Disk

end ShardStore

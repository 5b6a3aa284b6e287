import ShardStore.Disk
/-!
# Disk — what is at a location

A change at a location is seen there and nowhere else, a content that is
written to a file with several names apart. On a disk whatever is there is
in a directory (`Disk.IsTree`), so below a place where no directory is there
is nothing.
-/

namespace ShardStore

namespace Disk

variable {disk : Disk} {here location : Location} {steps : List String}

/-! ## Entries and links -/

theorem entry?_of_node? {entry : Entry} (h : disk.node? location = some (.entry entry)) :
    disk.entry? location = some entry := by
  simp only [ entry?, h]

theorem link?_of_node? {entry : Entry} (h : disk.node? location = some (.entry entry)) :
    disk.link? location = none := by
  simp only [link?, h]

/-- A link is no directory. -/
theorem entry?_eq_directory_iff : disk.entry? location = some .directory ↔
    disk.node? location = some (.entry .directory) := by
  unfold entry?
  split
  · next entry h => simp [h]
  · next file h => simp [h]
  · next hentry hlink =>
    refine iff_of_false (by simp) fun h => hentry .directory h

/-- Where no link is, there is an entry or nothing. -/
theorem node?_of_link? (h : disk.link? location = none) :
    disk.node? location = (disk.entry? location).map .entry := by
  unfold link? at h
  unfold entry?
  cases hnode : disk.node? location with
  | none => rfl
  | some node =>
    cases node with
    | entry entry => rfl
    | link link => simp [hnode] at h

theorem target?_of_link? (h : disk.link? location = none) : disk.target? location = none := by
  simp only [target?, h]

/-- Where nothing is, there is nothing of any kind. -/
theorem node?_eq_none_iff :
    disk.node? location = none ↔ disk.link? location = none ∧ disk.entry? location = none := by
  constructor
  · intro h
    simp [link?, entry?, h]
  · rintro ⟨hlink, hentry⟩
    rw [node?_of_link? hlink, hentry]
    rfl

/-- On a disk with nothing below the root there are no links. -/
theorem link?_empty (shared : Std.ExtTreeMap Nat ByteArray) (workingDirectory location : Location) :
    Disk.link? ⟨∅, shared, workingDirectory⟩ location = none := by
  unfold link? node?
  by_cases hroot : location = [] <;> simp [hroot]

/-! ## Placing and removing -/

theorem node?_place (disk : Disk) (hne : location ≠ []) (node : Node) (other : Location) :
    Disk.node? (disk.place location node) other =
      if other = location then some node else disk.node? other := by
  unfold node? place
  by_cases hroot : other = []
  · simp [hroot, Ne.symm hne]
  · by_cases heq : other = location
    · simp [heq, hne]
    · have hcompare : ¬ compare location other = .eq := fun h =>
        heq (Std.LawfulEqCmp.eq_of_compare h).symm
      simp [hroot, heq, Std.ExtTreeMap.getElem?_insert, hcompare]

theorem node?_put (disk : Disk) (hne : location ≠ []) (entry : Entry) (other : Location) :
    Disk.node? (disk.put location entry) other =
      if other = location then some (.entry entry) else disk.node? other :=
  node?_place disk hne (.entry entry) other

theorem node?_remove (disk : Disk) (hne : location ≠ []) (other : Location) :
    Disk.node? (disk.remove location) other =
      if other = location then none else disk.node? other := by
  unfold node? remove
  by_cases hroot : other = []
  · simp [hroot, Ne.symm hne]
  · by_cases heq : other = location
    · simp [heq, hne]
    · have hcompare : ¬ compare location other = .eq := fun h =>
        heq (Std.LawfulEqCmp.eq_of_compare h).symm
      simp [hroot, heq, Std.ExtTreeMap.getElem?_erase, hcompare]

/-- What is at a location is known from the node there and the shared files. -/
theorem entry?_congr {later : Disk} (hshared : later.shared = disk.shared)
    (h : later.node? location = disk.node? location) :
    later.entry? location = disk.entry? location := by
  simp only [ entry?, sharedContent, h, hshared]

theorem link?_congr {later : Disk} (h : later.node? location = disk.node? location) :
    later.link? location = disk.link? location := by
  simp only [link?, h]

/-- A disk without links has none with an entry more. -/
theorem link?_put (hne : location ≠ []) (h : ∀ other, disk.link? other = none) (entry : Entry)
    (other : Location) : Disk.link? (disk.put location entry) other = none := by
  have hnode := node?_put disk hne entry other
  split at hnode
  · exact link?_of_node? hnode
  · exact (link?_congr hnode).trans (h other)

/-- The root is never free. -/
theorem not_root_of_free (hfree : disk.entry? location ≠ some .directory) : location ≠ [] := by
  rintro rfl
  exact hfree rfl

theorem ne_root_of_node? (hfree : disk.node? location = none) : location ≠ [] := by
  rintro rfl
  cases hfree

/-- A content is written to the file that is at a location, where no link
is. -/
theorem write_eq_put (h : disk.link? location = none) (content : ByteArray) :
    disk.write location content = disk.put location (.file content) := by
  simp only [write, h]

/-! ## Trees -/

/-- What is on a disk is in a directory. -/
def IsTree (disk : Disk) : Prop :=
  ∀ (here : Location) (name : String) (node : Node),
    disk.node? (here ++ [name]) = some node → disk.node? here = some (.entry .directory)

/-- Where nothing is, there is nothing below. -/
theorem IsTree.below (h : disk.IsTree) (hnone : disk.node? here = none) (name : String) :
    disk.node? (here ++ [name]) = none := by
  cases hnode : disk.node? (here ++ [name]) with
  | none => rfl
  | some node =>
    have hhere := h here name node hnode
    rw [hnone] at hhere
    cases hhere

/-- A disk is still a tree with something more in a directory of it, if what
was there before was no directory. -/
theorem IsTree.place (h : disk.IsTree) {name : String} {node : Node}
    (hhere : disk.node? here = some (.entry .directory))
    (hfree : node = .entry .directory ∨ disk.node? (here ++ [name]) ≠ some (.entry .directory)) :
    (disk.place (here ++ [name]) node).IsTree := by
  intro place step found hfound
  have hne : here ++ [name] ≠ [] := by simp
  rw [node?_place disk hne] at hfound ⊢
  have hplace : disk.node? place = some (.entry .directory) := by
    split at hfound
    · next heq =>
      obtain ⟨rfl, -⟩ := List.append_inj' heq rfl
      exact hhere
    · exact h place step found hfound
  split
  · next heq =>
    rcases hfree with rfl | hfree
    · rfl
    · exact absurd (heq ▸ hplace) hfree
  · exact hplace

theorem IsTree.put (h : disk.IsTree) {name : String} {entry : Entry}
    (hhere : disk.entry? here = some .directory)
    (hfree : entry = .directory ∨ disk.entry? (here ++ [name]) ≠ some .directory) :
    (disk.put (here ++ [name]) entry).IsTree := by
  refine h.place (entry?_eq_directory_iff.1 hhere) ?_
  exact hfree.imp (congrArg _) fun hne => mt entry?_eq_directory_iff.2 hne

theorem IsTree.remove (h : disk.IsTree) (hne : location ≠ [])
    (hleaf : disk.entry? location ≠ some .directory) : (disk.remove location).IsTree := by
  intro place step found hfound
  rw [node?_remove disk hne] at hfound ⊢
  split at hfound
  · cases hfound
  · have hplace := h place step found hfound
    rw [if_neg]
    · exact hplace
    · rintro rfl
      exact hleaf (entry?_eq_directory_iff.2 hplace)

end Disk

end ShardStore

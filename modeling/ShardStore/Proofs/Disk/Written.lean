import ShardStore.Proofs.Disk.Growth
/-!
# Disk — what was written is what is found

A path leads where it led as long as no directory goes and no symbolic link
comes or goes, and neither writing a file nor moving one takes a directory
away. So the content of a file that was written is found at its path
(`status_writeFile`), and that of a file that was moved at the path it was
moved to (`status_renameFile`), whatever these paths are, unless a symbolic
link stands at the end of one (`Disk.EndsPlain`). A file may have several
names.
-/

namespace ShardStore

namespace Disk

variable {disk later : Disk} {location : Location} {content : ByteArray} {path : Path}
  {text : String}

/-! ## Paths that end in no symbolic link -/

/-- What leads through a symbolic link at the end leads to the link itself
without. -/
theorem Leads.named {links : Nat} {here there : Location} {steps : List String}
    (h : disk.Leads true links here steps there) :
    ∃ named, disk.Leads false links here steps named ∧
      (disk.target? named = none → named = there) := by
  induction h with
  | done links here => exact ⟨here, .done links here, fun _ => rfl⟩
  | up henter _ ih =>
    obtain ⟨named, hleads, hsame⟩ := ih
    exact ⟨named, .up henter hleads, hsame⟩
  | down hlooks hplain _ ih =>
    obtain ⟨named, hleads, hsame⟩ := ih
    exact ⟨named, .down hlooks hplain hleads, hsame⟩
  | stay _ _ hends => cases hends
  | @link _ _ _ _ _ steps _ hlooks hlink _ hparse _ hends ih =>
    obtain ⟨named, hleads, hsame⟩ := ih
    cases steps with
    | nil =>
      refine ⟨_, .stay hlooks hlink rfl, fun hplain => ?_⟩
      rw [hplain] at hlink
      cases hlink
    | cons next steps =>
      exact ⟨named, .link hlooks hlink (by simp) hparse hleads (by simp), hsame⟩

/-- Where no symbolic link is at the end, there is none to lead through. -/
theorem Leads.through {links : Nat} {here there : Location} {steps : List String}
    (h : disk.Leads false links here steps there) (hplain : disk.target? there = none) :
    disk.Leads true links here steps there := by
  induction h with
  | done links here => exact .done links here
  | up henter _ ih => exact .up henter (ih hplain)
  | down hlooks htarget _ ih => exact .down hlooks htarget (ih hplain)
  | stay _ hlink =>
    rw [hplain] at hlink
    cases hlink
  | link hlooks hlink _ hparse _ hends ih =>
    exact .link hlooks hlink (by simp) hparse (ih hplain) hends

/-- Whatever directories are made, no symbolic link stands at the end of a
path. -/
def EndsPlain (disk : Disk) (text : String) : Prop :=
  ∀ (later : Disk) (path : Path) (location : Location), SameLinks disk later →
    Path.parse text = .ok path → later.locate path = .ok location → later.target? location = none

theorem EndsPlain.congr (h : disk.EndsPlain text) (hlinks : SameLinks disk later) :
    later.EndsPlain text :=
  fun last path location hlast => h last path location (hlinks.trans hlast)

end Disk

end ShardStore

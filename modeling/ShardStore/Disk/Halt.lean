import ShardStore.Disk
/-!
# Disk — where a sequence of steps can break off

A machine can stop at any time while a sequence of steps is carried out:
between two steps, where a step was refused, or within a step. Within a
step, directories are made one after the other, and a file holds any first
part of what is written; a move is done or is not done (`DiskStep.Torn`).
`DiskStep.Halts` relates a sequence to every disk that it can break off at,
and to the steps that are not done there.
-/

namespace ShardStore

namespace Disk

/-- Makes the first `count` directories on the way along `ahead`, of which
`behind` has been made. The one that the whole path names is not made. -/
def ensureSome (disk : Disk) (path : Path) (behind : List String) : Nat → List String → Disk
  | count + 1, step :: next :: ahead =>
    match disk.ensureDirectory ⟨path.absolute, behind ++ [step], .step⟩ with
    | (.error _, disk) => disk
    | (.ok (), disk) => disk.ensureSome path (behind ++ [step]) count (next :: ahead)
  | _, _ => disk

/-- Makes the first `count` directories on the way to a path. -/
def makeSome (disk : Disk) (path : String) (count : Nat) : Disk :=
  match Path.parse path with
  | .error _ => disk
  | .ok path => disk.ensureSome path [] count path.steps

end Disk

namespace DiskStep

/-- The disks at which a step can break off within. -/
inductive Torn (disk : Disk) : DiskStep → Disk → Prop
  | makeDirectories (path : String) (count : Nat) :
      Torn disk (.makeDirectories path) (disk.makeSome path count)
  | writeFile (path : String) (content : ByteArray) (count : Nat) :
      Torn disk (.writeFile path content) (disk.writeFile path (content.extract 0 count)).2

/-- **The disks at which steps can break off**, with the steps that are not
done there. -/
inductive Halts : List DiskStep → Disk → List DiskStep → Disk → Prop
  | between (steps : List DiskStep) (disk : Disk) : Halts steps disk steps disk
  | within {step : DiskStep} {steps : List DiskStep} {disk later : Disk}
      (h : Torn disk step later) : Halts (step :: steps) disk (step :: steps) later
  | refused {step : DiskStep} {steps : List DiskStep} {disk later : Disk} {e : DiskError}
      (h : step.run disk = (.error e, later)) : Halts (step :: steps) disk (step :: steps) later
  | done {step : DiskStep} {steps left : List DiskStep} {disk middle later : Disk}
      (h : step.run disk = (.ok (), middle)) (hrest : Halts steps middle left later) :
      Halts (step :: steps) disk left later

variable {steps : List DiskStep} {disk later : Disk}

/-- No step is left exactly where all of them were carried out. -/
theorem halts_nil_iff : Halts steps disk [] later ↔ runAll steps disk = (.ok (), later) := by
  induction steps generalizing disk with
  | nil =>
    constructor
    · rintro ⟨⟩
      rfl
    · rintro ⟨⟩
      exact .between [] _
  | cons step steps ih =>
    rw [runAll]
    constructor
    · rintro (_ | _ | _ | ⟨hstep, hrest⟩)
      rw [hstep]
      exact ih.1 hrest
    · intro h
      split at h
      · cases h
      · next middle hstep => exact .done hstep (ih.2 h)

end DiskStep

end ShardStore

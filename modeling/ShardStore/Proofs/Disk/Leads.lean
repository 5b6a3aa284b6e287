import ShardStore.Proofs.Disk.Node
/-!
# Disk — where steps lead

`Disk.Leads` says where steps lead from a location, link by link, with a
bound on the number of symbolic links on the way; the bound is that of the
function, which leads where the relation says (`follow_eq_ok_iff`). Where
steps lead depends on the symbolic links alone (`Leads.unique`), and that
they lead anywhere on the directories too (`Leads.mono`). What leads along
a first part and a second one leads along the first, and through a link at
its end (`Leads.split`).
-/

namespace ShardStore

namespace Disk

variable {disk later : Disk} {through : Bool} {links : Nat} {here there : Location}
  {step : String} {steps : List String}

theorem enter_eq_ok_iff {location : Location} :
    disk.enter location = .ok () ↔ disk.entry? location = some .directory := by
  unfold enter
  split
  · next h => simp [h]
  · next h => simp [h]
  · next h => simp [h]

/-- A path asks for a directory at its end or has one there. -/
theorem accept_eq_ok_iff {ending : PathEnd} {location : Location} :
    disk.accept ending location = .ok there ↔
      (ending = .step ∨ disk.entry? location = some .directory) ∧ location = there := by
  unfold accept
  by_cases hending : ending = .step
  · simp [hending]
  · rw [if_neg hending]
    cases henter : disk.enter location with
    | ok => simp [enter_eq_ok_iff.1 henter]
    | error e =>
      have hentry : disk.entry? location ≠ some .directory := fun h => by
        rw [enter_eq_ok_iff.2 h] at henter
        cases henter
      simp [hending, hentry]

/-- A name can be looked up at a location. -/
structure LooksUp (disk : Disk) (here : Location) (name : String) : Prop where
  entry : disk.entry? here = some .directory
  descends : name ≠ ".."
  length : name.utf8ByteSize ≤ maxNameLength

theorem LooksUp.mono (h : disk.LooksUp here step)
    (hdirectories : ∀ location, disk.entry? location = some .directory →
      later.entry? location = some .directory) : later.LooksUp here step :=
  ⟨hdirectories here h.entry, h.descends, h.length⟩

/-- **Where steps lead from a location**, through a symbolic link at their
end or not, and with at most `links` of them on the way. -/
inductive Leads (disk : Disk) (through : Bool) :
    Nat → Location → List String → Location → Prop
  | done (links : Nat) (here : Location) : Leads disk through links here [] here
  | up {links : Nat} {here there : Location} {steps : List String}
      (henter : disk.entry? here = some .directory)
      (hrest : Leads disk through links here.dropLast steps there) :
      Leads disk through links here (".." :: steps) there
  | down {links : Nat} {here there : Location} {step : String} {steps : List String}
      (hlooks : disk.LooksUp here step) (hplain : disk.target? (here ++ [step]) = none)
      (hrest : Leads disk through links (here ++ [step]) steps there) :
      Leads disk through links here (step :: steps) there
  /-- A link at the end is where the steps lead. -/
  | stay {links : Nat} {here : Location} {step target : String}
      (hlooks : disk.LooksUp here step) (hlink : disk.target? (here ++ [step]) = some target)
      (hends : through = false) : Leads disk through links here [step] (here ++ [step])
  /-- Any other one is followed. -/
  | link {links : Nat} {here there : Location} {step target : String} {steps : List String}
      {path : Path} (hlooks : disk.LooksUp here step)
      (hlink : disk.target? (here ++ [step]) = some target)
      (hgoes : ¬ (steps = [] ∧ through = false)) (hparse : Path.parse target = .ok path)
      (hrest : Leads disk through links (if path.absolute then [] else here)
        (path.steps ++ steps) there)
      (hends : steps = [] → path.ending = .step ∨ disk.entry? there = some .directory) :
      Leads disk through (links + 1) here (step :: steps) there

/-! ## The function leads where the relation says -/

/-- What a walk leads to, if what it does at a link leads there. -/
theorem leads_of_walk
    {onLink : Location → String → List String → Except DiskError Location}
    (hlink : ∀ {here there step target steps}, disk.LooksUp here step →
      disk.target? (here ++ [step]) = some target → ¬ (steps = [] ∧ through = false) →
      onLink here target steps = .ok there → disk.Leads through links here (step :: steps) there)
    (h : disk.walk through onLink here steps = .ok there) :
    disk.Leads through links here steps there := by
  induction steps generalizing here with
  | nil =>
    cases h
    exact .done _ _
  | cons step steps ih =>
    rw [walk] at h
    split at h
    · cases h
    · next henter =>
      have hentry := enter_eq_ok_iff.1 henter
      split at h
      · next hup =>
        subst hup
        exact .up hentry (ih h)
      · next hup =>
        split at h
        · cases h
        · next hlength =>
          have hlooks : disk.LooksUp here step := ⟨hentry, hup, Nat.le_of_not_lt hlength⟩
          split at h
          · next hplain => exact .down hlooks hplain (ih h)
          · next target htarget =>
            split at h
            · next hends =>
              obtain ⟨rfl, hthrough⟩ := hends
              cases h
              exact .stay hlooks htarget hthrough
            · next hgoes => exact hlink hlooks htarget hgoes h

theorem leads_of_follow (h : disk.follow through links here steps = .ok there) :
    disk.Leads through links here steps there := by
  induction links generalizing here there steps with
  | zero =>
    rw [follow_zero] at h
    exact leads_of_walk (fun _ _ _ hlast => by cases hlast) h
  | succ links ih =>
    rw [follow_succ] at h
    refine leads_of_walk (fun hlooks htarget hgoes hlast => ?_) h
    unfold alongLink at hlast
    split at hlast
    · cases hlast
    · next path hparse =>
      split at hlast
      · cases hlast
      · next found hfollow =>
        split at hlast
        · next hempty =>
          obtain ⟨hends, rfl⟩ := accept_eq_ok_iff.1 hlast
          exact .link hlooks htarget hgoes hparse (ih hfollow) fun _ => hends
        · next hmore =>
          cases hlast
          exact .link hlooks htarget hgoes hparse (ih hfollow) fun hempty => absurd hempty hmore

section

variable (onLink : Location → String → List String → Except DiskError Location)

/-- A walk goes on where no symbolic link is. -/
theorem walk_down (hlooks : disk.LooksUp here step)
    (hplain : disk.target? (here ++ [step]) = none) :
    disk.walk through onLink here (step :: steps) =
      disk.walk through onLink (here ++ [step]) steps := by
  rw [walk, enter_eq_ok_iff.2 hlooks.entry]
  simp only [if_neg hlooks.descends, if_neg (Nat.not_lt_of_le hlooks.length), hplain]

/-- Where one is, the walk ends. -/
theorem walk_link (hlooks : disk.LooksUp here step) {target : String}
    (hlink : disk.target? (here ++ [step]) = some target) :
    disk.walk through onLink here (step :: steps) =
      if steps = [] ∧ through = false then .ok (here ++ [step]) else onLink here target steps := by
  rw [walk, enter_eq_ok_iff.2 hlooks.entry]
  simp only [if_neg hlooks.descends, if_neg (Nat.not_lt_of_le hlooks.length), hlink]

end

/-- The function walks, whatever number of links is left. -/
theorem exists_follow_eq_walk (disk : Disk) (through : Bool) (links : Nat) :
    ∃ onLink, disk.follow through links = disk.walk through onLink := by
  cases links with
  | zero => exact ⟨_, follow_zero disk through⟩
  | succ links => exact ⟨_, follow_succ disk through links⟩

theorem follow_of_leads (h : disk.Leads through links here steps there) :
    disk.follow through links here steps = .ok there := by
  induction h with
  | done links here =>
    obtain ⟨onLink, hwalk⟩ := exists_follow_eq_walk disk through links
    rw [hwalk]
    rfl
  | @up links here _ _ henter _ ih =>
    obtain ⟨onLink, hwalk⟩ := exists_follow_eq_walk disk through links
    rw [hwalk] at ih ⊢
    rw [walk, enter_eq_ok_iff.2 henter]
    simpa only [if_true] using ih
  | @down links _ _ _ _ hlooks hplain _ ih =>
    obtain ⟨onLink, hwalk⟩ := exists_follow_eq_walk disk through links
    rw [hwalk] at ih ⊢
    rwa [walk_down _ hlooks hplain]
  | @stay links _ _ _ hlooks hlink hends =>
    obtain ⟨onLink, hwalk⟩ := exists_follow_eq_walk disk through links
    rw [hwalk, walk_link _ hlooks hlink, if_pos ⟨rfl, hends⟩]
  | link hlooks hlink hgoes hparse _ hends ih =>
    rw [follow_succ, walk_link _ hlooks hlink, if_neg hgoes]
    simp only [alongLink, hparse, ih]
    split
    · next hempty => exact accept_eq_ok_iff.2 ⟨hends hempty, rfl⟩
    · rfl

/-- **The function leads where the relation says.** -/
theorem follow_eq_ok_iff : disk.follow through links here steps = .ok there ↔
    disk.Leads through links here steps there :=
  ⟨leads_of_follow, follow_of_leads⟩

namespace Leads

/-- Steps are taken from a directory. -/
theorem entry (h : disk.Leads through links here (step :: steps) there) :
    disk.entry? here = some .directory := by
  cases h with
  | up henter _ => exact henter
  | down hlooks => exact hlooks.entry
  | stay hlooks => exact hlooks.entry
  | link hlooks => exact hlooks.entry

/-- A last name leads to it, or through a symbolic link that is there. -/
theorem last (hname : step ≠ "..") (h : disk.Leads through links here [step] there) :
    disk.LooksUp here step ∧
      (disk.target? (here ++ [step]) = none ∨ through = false → there = here ++ [step]) := by
  cases h with
  | up => exact absurd rfl hname
  | down hlooks hplain hrest =>
    cases hrest
    exact ⟨hlooks, fun _ => rfl⟩
  | stay hlooks => exact ⟨hlooks, fun _ => rfl⟩
  | link hlooks hlink hgoes =>
    refine ⟨hlooks, fun hplain => ?_⟩
    rcases hplain with hplain | hends
    · rw [hplain] at hlink
      cases hlink
    · exact absurd ⟨rfl, hends⟩ hgoes

/-- A step into nothing leads to nothing. -/
theorem into_nothing (hname : step ≠ "..") (hnone : disk.node? (here ++ [step]) = none)
    (h : disk.Leads through links here (step :: steps) there) : disk.entry? there = none := by
  obtain ⟨hlink, hentry⟩ := node?_eq_none_iff.1 hnone
  have hplain := target?_of_link? hlink
  cases h with
  | up => exact absurd rfl hname
  | @down _ _ _ _ _ _ _ hrest =>
    cases steps with
    | nil =>
      cases hrest
      exact hentry
    | cons next steps =>
      rw [hrest.entry] at hentry
      cases hentry
  | stay _ hlink' => rw [hplain] at hlink'; cases hlink'
  | link _ hlink' => rw [hplain] at hlink'; cases hlink'

/-- **More directories lead at least as far**, along the same symbolic
links. -/
theorem mono (hlinks : ∀ location, later.target? location = disk.target? location)
    (hdirectories : ∀ location, disk.entry? location = some .directory →
      later.entry? location = some .directory)
    (h : disk.Leads through links here steps there) :
    later.Leads through links here steps there := by
  induction h with
  | done links here => exact .done links here
  | up henter _ ih => exact .up (hdirectories _ henter) ih
  | down hlooks hplain _ ih =>
    exact .down (hlooks.mono hdirectories) ((hlinks _).trans hplain) ih
  | stay hlooks hlink hends =>
    exact .stay (hlooks.mono hdirectories) ((hlinks _).trans hlink) hends
  | link hlooks hlink hgoes hparse _ hends ih =>
    refine .link (hlooks.mono hdirectories) ((hlinks _).trans hlink) hgoes hparse ih
      fun hempty => ?_
    exact (hends hempty).imp_right (hdirectories _)

/-- **Steps lead to one place** along the same symbolic links, wherever
directories are. -/
theorem unique {other : Location} {links' : Nat}
    (hlinks : ∀ location, later.target? location = disk.target? location)
    (h : disk.Leads through links here steps there)
    (h' : later.Leads through links' here steps other) : there = other := by
  induction h generalizing links' with
  | done =>
    cases h'
    rfl
  | up _ _ ih =>
    cases h' with
    | up _ hrest => exact ih hrest
    | down hlooks => exact absurd rfl hlooks.descends
    | stay hlooks => exact absurd rfl hlooks.descends
    | link hlooks => exact absurd rfl hlooks.descends
  | down hlooks hplain _ ih =>
    rw [← hlinks] at hplain
    cases h' with
    | up => exact absurd rfl hlooks.descends
    | down _ _ hrest => exact ih hrest
    | stay _ hlink => rw [hplain] at hlink; cases hlink
    | link _ hlink => rw [hplain] at hlink; cases hlink
  | stay hlooks hlink hends =>
    rw [← hlinks] at hlink
    cases h' with
    | up => exact absurd rfl hlooks.descends
    | down _ hplain => rw [hplain] at hlink; cases hlink
    | stay => rfl
    | link _ _ hgoes => exact absurd ⟨rfl, hends⟩ hgoes
  | link hlooks hlink hgoes hparse _ _ ih =>
    rw [← hlinks] at hlink
    cases h' with
    | up => exact absurd rfl hlooks.descends
    | down _ hplain => rw [hplain] at hlink; cases hlink
    | stay _ _ hends => exact absurd ⟨rfl, hends⟩ hgoes
    | link _ hlink' _ hparse' hrest =>
      obtain rfl := Option.some.inj (hlink.symm.trans hlink')
      obtain rfl := Except.ok.inj (hparse.symm.trans hparse')
      exact ih hrest

/-- **One more name leads to it**, unless a symbolic link is there that is to
be followed. -/
theorem snoc {name : String} (h : disk.Leads true links here steps there)
    (hlooks : disk.LooksUp there name)
    (hplain : disk.target? (there ++ [name]) = none ∨ through = false) :
    disk.Leads through links here (steps ++ [name]) (there ++ [name]) := by
  induction h with
  | done =>
    cases htarget : disk.target? (_ ++ [name]) with
    | none => exact .down hlooks htarget (.done _ _)
    | some target => exact .stay hlooks htarget (hplain.resolve_left (by simp [htarget]))
  | up henter _ ih => exact .up henter (ih hlooks hplain)
  | down hfirst htarget _ ih => exact .down hfirst htarget (ih hlooks hplain)
  | stay _ _ hends => cases hends
  | link hfirst htarget _ hparse _ _ ih =>
    have hrest := ih hlooks hplain
    rw [List.append_assoc] at hrest
    exact .link hfirst htarget (by simp) hparse hrest (by simp)

/-- **What leads along two parts leads along the first**, and from its end
along the second. -/
theorem split {first : List String}
    (h : disk.Leads through links here (first ++ step :: steps) there) :
    ∃ between fewer, disk.Leads true links here first between ∧
      disk.Leads through fewer between (step :: steps) there := by
  generalize hall : first ++ step :: steps = all at h
  induction h generalizing first with
  | done => simp at hall
  | up henter hrest ih =>
    cases first with
    | nil =>
      obtain ⟨rfl, rfl⟩ := List.cons.inj hall
      exact ⟨_, _, .done _ _, .up henter hrest⟩
    | cons name first =>
      obtain ⟨rfl, hrest'⟩ := List.cons.inj hall
      obtain ⟨between, fewer, hfirst, hsecond⟩ := ih hrest'
      exact ⟨between, fewer, .up henter hfirst, hsecond⟩
  | down hlooks hplain hrest ih =>
    cases first with
    | nil =>
      obtain ⟨rfl, rfl⟩ := List.cons.inj hall
      exact ⟨_, _, .done _ _, .down hlooks hplain hrest⟩
    | cons name first =>
      obtain ⟨rfl, hrest'⟩ := List.cons.inj hall
      obtain ⟨between, fewer, hfirst, hsecond⟩ := ih hrest'
      exact ⟨between, fewer, .down hlooks hplain hfirst, hsecond⟩
  | @stay links _ _ _ hlooks hlink hends =>
    cases first with
    | nil =>
      obtain ⟨rfl, rfl⟩ := List.cons.inj hall
      exact ⟨_, links, .done _ _, .stay hlooks hlink hends⟩
    | cons name first => simp at hall
  | link hlooks hlink hgoes hparse hrest hends ih =>
    cases first with
    | nil =>
      obtain ⟨rfl, rfl⟩ := List.cons.inj hall
      exact ⟨_, _, .done _ _, .link hlooks hlink hgoes hparse hrest hends⟩
    | cons name first =>
      obtain ⟨rfl, rfl⟩ := List.cons.inj hall
      obtain ⟨between, fewer, hfirst, hsecond⟩ := ih (List.append_assoc ..)
      -- The second part starts in a directory, whatever the path of the link asks for.
      exact ⟨between, fewer, .link hlooks hlink (by simp) hparse hfirst fun _ => .inr hsecond.entry,
        hsecond⟩

end Leads

end Disk

end ShardStore

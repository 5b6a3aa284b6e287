import ShardStore.Proofs.Storage.Directory
/-!
# Storage — a directory keeps the contract, step by step

Making the directory leaves every document as it was (`makeDirectory_spec`), and
so does writing the temporary file; moving it stores one document
(`replace_spec`). The contract of the storage is the sum of the two, since
what is settled stays settled at each step.
-/

namespace ShardStore

open Text

namespace DirectoryStore

variable {store later : DirectoryStore} {key : DocumentKey} {document : Document}

/-! ## Making the directory -/

/-- A directory that was made has nothing in it, and before it was made
nothing was loaded either. -/
theorem sameDocuments_of_made (hmissing : store.disk.hasEntry store.directory = false)
    (hnone : store.room? = none) {room : Location} (hroom : later.room? = some room)
    (hempty : ∀ name, later.disk.node? (room ++ [name]) = none) :
    Storage.SameDocuments store later := by
  refine ⟨fun key hkey => ?_, fun names hnames => ?_⟩
  · show later.load key = store.load key
    rw [load_of_none hkey (.inl hnone), load_of_vacant hkey hroom (hempty key.fileName)]
  · obtain ⟨more, hmore⟩ := later.tableNames_isOk fun _ => ⟨room, hroom⟩
    refine ⟨more, hmore, fun name => ?_⟩
    rw [mem_tableNames hmore, mem_tableNames hnames, hmissing, hroom]
    refine iff_of_false ?_ (by simp)
    rintro ⟨-, -, other, hother, hsome⟩
    cases hother
    simp [hempty] at hsome

/-- The path of a directory that is missing does not lead up. -/
theorem Settled.plain (h : store.Settled)
    (hmissing : store.disk.hasEntry store.directory = false) :
    ".." ∉ Path.stepsOf store.directory :=
  h.reachable.resolve_left (by simp [hmissing])

/-- **Directories made on the way to that of the store change no
document**, however far the making came. -/
theorem grown_spec (h : store.Settled) (hmissing : store.disk.hasEntry store.directory = false)
    {disk : Disk} (hgrown : Disk.Grown store.disk store.directory disk) :
    Settled { store with disk } ∧ Storage.SameDocuments store { store with disk } := by
  have hplain := h.plain hmissing
  have hlinks := hgrown.widened.sameLinks.noNewLinks
  obtain ⟨htree, hunveiled⟩ := hgrown.unveils_nothing h.tree hplain
  refine ⟨⟨htree, h.unlinked.congr hlinks, .inr hplain⟩, ?_⟩
  rcases hunveiled with rfl | ⟨hnone, ⟨hlater, hstill⟩ | ⟨room, hroom, hempty⟩⟩
  · exact .refl store
  · -- The directory is missing still.
    have hplace : SamePlace store { store with disk } :=
      ⟨rfl, hlinks, hgrown.widened.shared, hstill.trans hmissing.symm, hlater.trans hnone.symm⟩
    refine hplace.sameDocuments h.unlinked fun room hbefore => ?_
    rw [room?, hnone] at hbefore
    cases hbefore
  · exact sameDocuments_of_made hmissing hnone hroom hempty

/-- Making the directory is no more than that, whether it is refused or
not. -/
theorem makeDirectory_spec (h : store.Settled)
    (hmissing : store.disk.hasEntry store.directory = false) {outcome : Except DiskError Unit}
    {disk : Disk} (hmake : store.disk.makeDirectories store.directory = (outcome, disk)) :
    Settled { store with disk } ∧ Storage.SameDocuments store { store with disk } := by
  have hgrown := store.disk.makeDirectories_grown store.directory
  rw [hmake] at hgrown
  exact grown_spec h hmissing hgrown

/-! ## Replacing the file -/

/-- Changes of files in the room change neither the place of a store nor
whether it is settled. -/
theorem samePlace_of_refiled {names : List String} {room : Location} {disk : Disk}
    (h : store.Settled) (hroom : store.room? = some room)
    (hrefiled : Disk.Refiled room names store.disk disk) :
    SamePlace store { store with disk } ∧ Settled { store with disk } := by
  have hlater : disk.room? store.directory = some room :=
    (hrefiled.room?_eq store.directory).trans hroom
  have hplace : SamePlace store { store with disk } :=
    samePlace_of_room rfl hrefiled.noNewLinks hrefiled.shared hroom hlater
  exact ⟨hplace, hrefiled.tree h.tree, h.unlinked.congr hplace.links,
    h.reachable.imp_left hplace.there.trans⟩

/-- **Writing the temporary file changes no document.** -/
theorem writeTemporary_spec (h : store.Settled) (hkey : isIdentifier key.table = true)
    {content : ByteArray} {outcome : Except DiskError Unit} {disk : Disk}
    (hwrite : store.disk.writeFile (store.temporaryPath key) content = (outcome, disk)) :
    Settled { store with disk } ∧ Storage.SameDocuments store { store with disk } ∧
      (outcome = .ok () → ∃ room, disk.room? store.directory = some room ∧
        disk.node? (room ++ [key.temporaryName]) = some (.entry (.file content))) := by
  rcases Disk.writeFile_join (DocumentKey.isName_temporaryName hkey) store.disk
      (fun _ hroom => h.unlinked.link?_temporaryName hroom hkey) content with
    ⟨⟨e, herror⟩, hsame⟩ | ⟨room, hroom, hfits, hfree, hok⟩
  · rw [← temporaryPath, hwrite] at herror hsame
    obtain rfl : disk = store.disk := hsame
    obtain rfl : outcome = .error e := herror
    exact ⟨h, .refl _, by simp⟩
  · rw [← temporaryPath, hwrite] at hok
    obtain ⟨rfl, rfl⟩ := Prod.mk.inj hok
    have hrefiled := Disk.refiled_put content (Disk.room?_eq_some_iff.1 hroom).entry hfree
    obtain ⟨hplace, hsettled⟩ := samePlace_of_refiled h hroom hrefiled
    refine ⟨hsettled, hplace.sameDocuments h.unlinked fun other hother key' hkey' => ?_,
      fun _ => ?_⟩
    · obtain rfl := Option.some.inj (hother.symm.trans hroom)
      refine hrefiled.node_other ?_
      rw [List.mem_singleton]
      exact (DocumentKey.temporaryName_ne_fileName hkey).symm
    · refine ⟨room, hplace.room.trans hroom, ?_⟩
      rw [Disk.node?_put _ (by simp), if_pos rfl]

/-- What storing a document has come to, or the last steps of it: the store
is settled, with the documents it had if a step was refused, and otherwise
with the one document put in. -/
structure Concludes (store : DirectoryStore) (key : DocumentKey) (document : Document)
    (result : Except DiskError Unit × Disk) : Prop where
  settled : Settled { store with disk := result.2 }
  refused : ∀ e, result.1 = .error e →
    Storage.SameDocuments store { store with disk := result.2 }
  stored : result.1 = .ok () →
    Storage.Stored store { store with disk := result.2 } key document

namespace Concludes

variable {disk : Disk} {result : Except DiskError Unit × Disk}

theorem of_refused {e : DiskError} (hsettled : Settled { store with disk })
    (hsame : Storage.SameDocuments store { store with disk }) :
    Concludes store key document (.error e, disk) :=
  ⟨hsettled, fun _ _ => hsame, by simp⟩

theorem of_stored (hsettled : Settled { store with disk })
    (hstored : Storage.Stored store { store with disk } key document) :
    Concludes store key document (.ok (), disk) :=
  ⟨hsettled, by simp, fun _ => hstored⟩

/-- Steps before the last ones that change no document make no difference. -/
theorem after (hsame : Storage.SameDocuments store { store with disk })
    (h : Concludes { store with disk } key document result) :
    Concludes store key document result :=
  ⟨h.settled, fun e he => hsame.trans (h.refused e he), fun he => hsame.stored (h.stored he)⟩

end Concludes

/-- **Moving the temporary file onto the document's stores the document.** -/
theorem moveTemporary_spec (h : store.Settled) (hkey : isIdentifier key.table = true)
    {room : Location} (hroom : store.room? = some room)
    (htemporary : store.disk.node? (room ++ [key.temporaryName]) =
      some (.entry (.file document.json.toUTF8))) :
    Concludes store key document
      (store.disk.renameFile (store.temporaryPath key) (store.path key)) := by
  rcases Disk.renameFile_join (DocumentKey.isName_temporaryName hkey)
      (DocumentKey.isName_fileName hkey) store.disk
      (fun _ hroom => ⟨h.unlinked.link?_temporaryName hroom hkey,
        h.unlinked.target?_fileName hroom hkey⟩) with
    ⟨⟨e, herror⟩, hsame⟩ | ⟨room', content, hroom', hfits, hsource, hfree, hok⟩
  · have hresult : store.disk.renameFile (store.temporaryPath key) (store.path key) =
        (.error e, store.disk) := Prod.ext herror hsame
    rw [hresult]
    exact .of_refused h (.refl _)
  · rw [temporaryPath, path, hok]
    obtain rfl : room = room' := Option.some.inj (hroom.symm.trans hroom')
    obtain rfl : document.json.toUTF8 = content := by
      simpa using htemporary.symm.trans hsource
    have hrefiled := Disk.refiled_move (Disk.room?_eq_some_iff.1 hroom).entry hsource hfree
    obtain ⟨hplace, hsettled⟩ := samePlace_of_refiled h hroom hrefiled
    refine .of_stored hsettled
      (hplace.stored h.unlinked hkey hfits hroom ?_ fun other hother hne => ?_)
    · rw [Disk.node?_put _ (by simp), if_pos rfl]
    · -- The two names that are touched are those of the temporary file and of this document.
      refine hrefiled.node_other fun hmem => ?_
      rcases List.mem_cons.mp hmem with htemp | hfile
      · exact DocumentKey.temporaryName_ne_fileName hkey htemp.symm
      · exact hne (DocumentKey.fileName_inj hother hkey (List.mem_singleton.mp hfile))

/-! ## The contract -/

/-- Writing and moving, one after the other. -/
theorem replace_spec (h : store.Settled) (hkey : isIdentifier key.table = true) :
    Concludes store key document
      (DiskStep.runAll [.writeFile (store.temporaryPath key) document.json.toUTF8,
        .renameFile (store.temporaryPath key) (store.path key)] store.disk) := by
  simp only [DiskStep.runAll, DiskStep.run]
  split
  · next e middle hwrite =>
    obtain ⟨hsettled, hsame, -⟩ := writeTemporary_spec h hkey hwrite
    exact .of_refused hsettled hsame
  · next middle hwrite =>
    obtain ⟨hsettled, hsame, hwritten⟩ := writeTemporary_spec h hkey hwrite
    obtain ⟨room, hroom, htemporary⟩ := hwritten rfl
    have hmoved := moveTemporary_spec hsettled hkey hroom htemporary
    split
    · next e last hmove =>
      have hlast := hmoved.after hsame
      rwa [← hmove]
    · next last hmove =>
      have hlast := hmoved.after hsame
      rwa [← hmove]

/-- All the steps of storing. -/
theorem storeSteps_spec (h : store.Settled) (hkey : isIdentifier key.table = true) :
    Concludes store key document
      (DiskStep.runAll (store.storeSteps key document) store.disk) := by
  unfold storeSteps
  split
  · exact replace_spec h hkey
  · next hthere =>
    have hmissing : store.disk.hasEntry store.directory = false := by simpa using hthere
    simp only [List.singleton_append]
    rw [DiskStep.runAll]
    split
    · next e middle hmake =>
      obtain ⟨hsettled, hsame⟩ := makeDirectory_spec h hmissing hmake
      exact .of_refused hsettled hsame
    · next middle hmake =>
      obtain ⟨hsettled, hsame⟩ := makeDirectory_spec h hmissing hmake
      exact (replace_spec hsettled hkey).after hsame

/-- **What storing comes to**: a settled store, with the same documents if it
was refused, and otherwise with the one document put in. -/
theorem store_spec (h : store.Settled) (hkey : isIdentifier key.table = true)
    {outcome : Except StorageError Unit} (hstore : store.store key document = (outcome, later)) :
    later.Settled ∧ (∀ e, outcome = .error e → Storage.SameDocuments store later) ∧
      (outcome = .ok () → Storage.Stored store later key document) := by
  have hsteps : Concludes store key document _ := storeSteps_spec h hkey
  unfold DirectoryStore.store at hstore
  split at hstore
  · next disk hrun =>
    cases hstore
    rw [hrun] at hsteps
    exact ⟨hsteps.settled, by simp, fun _ => hsteps.stored rfl⟩
  · next e disk hrun =>
    cases hstore
    rw [hrun] at hsteps
    exact ⟨hsteps.settled, fun _ _ => hsteps.refused e rfl, by simp⟩

/-- **A directory keeps the contract while it is settled.** -/
theorem contract : Storage.Contract Settled where
  listed _ hnames hname := .inl ((mem_tableNames hnames _).1 hname).1
  refused h hstore hkey := by
    obtain ⟨hsettled, hsame, -⟩ := store_spec h hkey hstore
    exact ⟨hsettled, hsame _ rfl⟩
  stored h hstore hkey := by
    obtain ⟨hsettled, -, hstored⟩ := store_spec h hkey hstore
    exact ⟨hsettled, hstored rfl⟩

/-! ## What is stored is listed -/

/-- A settled store whose directory has a name. Files in the one without a
name are written and found, but never listed. -/
structure Rooted (store : DirectoryStore) : Prop where
  settled : store.Settled
  named : store.directory ≠ ""

theorem directory_store (store : DirectoryStore) (key : DocumentKey) (document : Document) :
    (store.store key document).2.directory = store.directory := by
  unfold DirectoryStore.store
  split <;> rfl

theorem contract_rooted : Storage.Contract Rooted where
  listed h := contract.listed h.settled
  refused {store later key document e} h hstore hkey := by
    obtain ⟨hsettled, hsame⟩ := contract.refused h.settled hstore hkey
    have hdirectory := store.directory_store key document
    rw [show store.store key document = (.error e, later) from hstore] at hdirectory
    exact ⟨⟨hsettled, hdirectory ▸ h.named⟩, hsame⟩
  stored {store later key document} h hstore hkey := by
    obtain ⟨hsettled, hstored⟩ := contract.stored h.settled hstore hkey
    have hdirectory := store.directory_store key document
    rw [show store.store key document = (.ok (), later) from hstore] at hdirectory
    exact ⟨⟨hsettled, hdirectory ▸ h.named⟩, hstored⟩

/-- A base document that is loaded has its table listed. -/
theorem mem_tableNames_of_load (hnamed : store.directory ≠ "") (hunlinked : store.Unlinked)
    {name : String} (hid : isIdentifier name = true)
    (hload : store.load (.base name) = .ok (some document)) {names : List String}
    (hnames : store.tableNames = .ok names) : name ∈ names := by
  have hkey : isIdentifier (DocumentKey.base name).table = true := hid
  by_cases hnone : store.room? = none ∨
      ¬ Disk.Fits store.directory (DocumentKey.base name).fileName
  · rw [load_of_none hkey hnone] at hload
    cases hload
  · obtain ⟨hsome, hfits⟩ := not_or.mp hnone
    obtain ⟨room, hroom⟩ := Option.ne_none_iff_exists'.mp hsome
    have hfits' : Disk.Fits store.directory (DocumentKey.base name).fileName :=
      Classical.not_not.mp hfits
    obtain ⟨path, hparse⟩ := hfits'.parse
    have hthere := Path.parse_of_join (DocumentKey.isName_fileName hkey) hnamed hparse
    rw [load_of_room hkey hfits' hroom (hunlinked.target?_fileName hroom hkey)] at hload
    refine (mem_tableNames hnames name).2
      ⟨hid, (Disk.hasEntry_of_room hroom).2 hthere, room, hroom, ?_⟩
    rw [← Option.ne_none_iff_exists']
    intro hnothing
    rw [(Disk.node?_eq_none_iff.1 hnothing).2] at hload
    cases hload

theorem lists : Storage.Lists Rooted := by
  intro store later name document names h hstore hid hnames
  have hkey : isIdentifier (DocumentKey.base name).table = true := hid
  obtain ⟨hrooted, hstored⟩ := contract_rooted.stored h hstore hkey
  exact mem_tableNames_of_load hrooted.named hrooted.settled.unlinked hid hstored.here hnames

end DirectoryStore

end ShardStore

import ShardStore.Proofs.Database.Reopen
import ShardStore.Proofs.Storage.Listing
/-!
# Storage — a crash never tears a document

A document is stored in steps, and a machine can stop at any of them and
within any. Until the last step is done every document is the one it was,
since directories that are made bring nothing to light and no document has
the name of a temporary file; with the last step the one document is in
place. The listed tables are the old ones, in the old order, and then those
with the stored one. A directory that is reached through a missing one is
different here too, and so is one with a temporary file that is a link, since
it is the document it leads to that is written, and so is the one without a
name.
-/

namespace ShardStore

open Text

namespace DirectoryStore

variable {store : DirectoryStore} {key : DocumentKey} {document : Document} {disk : Disk}
  {left : List DiskStep}

/-! ## Before the last step is done -/

/-- A temporary file that is written in part, or not at all, changes no
document. -/
theorem sameDocuments_of_torn_write (h : store.Settled) (hkey : isIdentifier key.table = true)
    (content : ByteArray) : Storage.SameDocuments store
      { store with disk := (store.disk.writeFile (store.temporaryPath key) content).2 } := by
  cases hwrite : store.disk.writeFile (store.temporaryPath key) content with
  | mk outcome later => exact (writeTemporary_spec h hkey hwrite).2.1

/-- The steps of storing once the directory is there. -/
theorem sameDocuments_of_replace_halts (h : store.Settled) (hkey : isIdentifier key.table = true)
    (hhalts : DiskStep.Halts [.writeFile (store.temporaryPath key) document.json.toUTF8,
      .renameFile (store.temporaryPath key) (store.path key)] store.disk left disk)
    (hleft : left ≠ []) : Storage.SameDocuments store { store with disk } := by
  cases hhalts with
  | between => exact .refl _
  | within htorn =>
    cases htorn with
    | writeFile _ _ count => exact sameDocuments_of_torn_write h hkey _
  | refused hwrite =>
    rw [DiskStep.run] at hwrite
    exact (writeTemporary_spec h hkey hwrite).2.1
  | @done _ _ _ _ middle _ hwrite hrest =>
    rw [DiskStep.run] at hwrite
    obtain ⟨hsettled, hsame, hwritten⟩ := writeTemporary_spec h hkey hwrite
    cases hrest with
    | between => exact hsame
    | within htorn => cases htorn
    | @refused _ _ _ _ e hmove =>
      obtain ⟨room, hroom, htemporary⟩ := hwritten rfl
      have hmoved := moveTemporary_spec hsettled hkey hroom htemporary
      rw [DiskStep.run] at hmove
      have hconcludes : Concludes { store with disk := middle } key document (.error e, disk) :=
        hmove ▸ hmoved
      exact hsame.trans (hconcludes.refused e rfl)
    | done _ hlast =>
      cases hlast
      exact absurd rfl hleft

/-- **Until the last step is done every document is the one it was.** -/
theorem sameDocuments_of_halts (h : store.Settled) (hkey : isIdentifier key.table = true)
    (hhalts : DiskStep.Halts (store.storeSteps key document) store.disk left disk)
    (hleft : left ≠ []) : Storage.SameDocuments store { store with disk } := by
  unfold storeSteps at hhalts
  split at hhalts
  · exact sameDocuments_of_replace_halts h hkey hhalts hleft
  · next hthere =>
    have hmissing : store.disk.hasEntry store.directory = false := by simpa using hthere
    simp only [List.singleton_append] at hhalts
    cases hhalts with
    | between => exact .refl _
    | within htorn =>
      cases htorn with
      | makeDirectories _ count =>
        exact (grown_spec h hmissing (store.disk.makeSome_grown store.directory count)).2
    | refused hmake =>
      rw [DiskStep.run] at hmake
      exact (makeDirectory_spec h hmissing hmake).2
    | @done _ _ _ _ middle _ hmake hrest =>
      rw [DiskStep.run] at hmake
      obtain ⟨hsettled, hsame⟩ := makeDirectory_spec h hmissing hmake
      exact hsame.trans (sameDocuments_of_replace_halts hsettled hkey hrest hleft)

/-! ## Where tables cannot be listed -/

/-- Something that is no directory is in the place of it. -/
theorem room?_of_tableNames_error {e : StorageError} (h : store.tableNames = .error e) :
    store.disk.hasEntry store.directory = true ∧ store.room? = none := by
  have hsome : ¬ (store.disk.hasEntry store.directory = true → ∃ room, store.room? = some room) :=
    fun hroom => by
      obtain ⟨names, hnames⟩ := store.tableNames_isOk hroom
      rw [h] at hnames
      cases hnames
  refine ⟨Classical.byContradiction fun hthere => hsome fun hin => absurd hin hthere, ?_⟩
  cases hroom : store.room? with
  | none => rfl
  | some room => exact absurd (fun _ => ⟨room, hroom⟩) hsome

/-- Then no step does anything. -/
theorem disk_eq_of_halts (hkey : isIdentifier key.table = true)
    (hthere : store.disk.hasEntry store.directory = true) (hnone : store.room? = none)
    (hhalts : DiskStep.Halts (store.storeSteps key document) store.disk left disk) :
    left ≠ [] ∧ disk = store.disk := by
  have hwrite : ∀ content, ∃ e, store.disk.writeFile (store.temporaryPath key) content =
      (.error e, store.disk) := by
    intro content
    have hnowhere : ∀ room, store.disk.room? store.directory ≠ some room := by
      intro room hroom
      rw [room?, hroom] at hnone
      cases hnone
    rcases Disk.writeFile_join (DocumentKey.isName_temporaryName hkey) store.disk
        (fun room hroom => absurd hroom (hnowhere room)) content with
      ⟨⟨e, herror⟩, hsame⟩ | ⟨room, hroom, -⟩
    · exact ⟨e, Prod.ext herror hsame⟩
    · exact absurd hroom (hnowhere room)
  rw [storeSteps, if_pos hthere, List.nil_append] at hhalts
  obtain ⟨e, hrefused⟩ := hwrite document.json.toUTF8
  cases hhalts with
  | between => exact ⟨by simp, rfl⟩
  | within htorn =>
    cases htorn with
    | writeFile _ _ count =>
      obtain ⟨e, htorn⟩ := hwrite (document.json.toUTF8.extract 0 count)
      exact ⟨by simp, by rw [htorn]⟩
  | refused hstep =>
    obtain ⟨-, rfl⟩ := Prod.mk.inj (hrefused.symm.trans hstep)
    exact ⟨by simp, rfl⟩
  | done hstep => cases hrefused.symm.trans hstep

/-! ## What a crash leaves -/

/-- The name of a temporary file is listed as no table. -/
theorem tableOf?_temporaryName (hkey : isIdentifier key.table = true) :
    tableOf? key.temporaryName = none := by
  rw [Option.eq_none_iff_forall_ne_some]
  intro table htable
  exact DocumentKey.temporaryName_ne_fileName hkey (tableOf?_eq_some_iff.1 htable).2

/-- What is read wherever the steps of storing a document break off: until
the last step is done, the documents and the tables that were there; and
then the new document, the others as they were, and the list with the table
of a base document. -/
def SurvivesCrashes (Admitted : DirectoryStore → Prop) : Prop :=
  ∀ (store : DirectoryStore) (key : DocumentKey) (document : Document) (left : List DiskStep)
    (disk : Disk), Admitted store → isIdentifier key.table = true →
    DiskStep.Halts (store.storeSteps key document) store.disk left disk →
    (left ≠ [] →
      (∀ other : DocumentKey, isIdentifier other.table = true →
        load { store with disk } other = store.load other) ∧
      tableNames { store with disk } = store.tableNames) ∧
    (left = [] →
      load { store with disk } key = .ok (some document) ∧
      (∀ other : DocumentKey, isIdentifier other.table = true → other ≠ key →
        load { store with disk } other = store.load other) ∧
      ∃ names, store.tableNames = .ok names ∧
        tableNames { store with disk } = .ok (Storage.listedWith key names))

/-- **A crash never tears a document**: wherever a store breaks off, each
document is read as it was before or, the stored one and only once its file
is moved, as the new one, and no other table is listed. A temporary file
has the name of no document and is listed as no table. -/
theorem survivesCrashes : SurvivesCrashes Rooted ∧
    ∀ key : DocumentKey, isIdentifier key.table = true →
      (∀ other : DocumentKey, key.temporaryName ≠ other.fileName) ∧
      tableOf? key.temporaryName = none := by
  refine ⟨fun store key document left disk h hkey hhalts => ⟨fun hleft => ?_, fun hleft => ?_⟩,
    fun key hkey => ⟨fun other => DocumentKey.temporaryName_ne_fileName hkey,
      tableOf?_temporaryName hkey⟩⟩
  · have hsame := sameDocuments_of_halts h.settled hkey hhalts hleft
    refine ⟨hsame.load, ?_⟩
    cases hnames : store.tableNames with
    | ok names => exact hsame.names.tableNames inOrder hnames
    | error e =>
      obtain ⟨hthere, hnone⟩ := room?_of_tableNames_error hnames
      obtain ⟨-, rfl⟩ := disk_eq_of_halts hkey hthere hnone hhalts
      exact hnames
  · subst hleft
    have hrun := DiskStep.halts_nil_iff.1 hhalts
    have hconcludes : Concludes store key document (.ok (), disk) :=
      hrun ▸ storeSteps_spec h.settled hkey
    have hstored := hconcludes.stored rfl
    have hnamed : ({ store with disk } : DirectoryStore).directory ≠ "" := h.named
    refine ⟨hstored.here, hstored.elsewhere, ?_⟩
    cases hnames : store.tableNames with
    | error e =>
      obtain ⟨hthere, hnone⟩ := room?_of_tableNames_error hnames
      exact absurd rfl (disk_eq_of_halts hkey hthere hnone hhalts).1
    | ok names =>
      refine ⟨names, rfl, hstored.tableNames inOrder (fun more hbase hmore => ?_) hnames⟩
      obtain ⟨table, fragment⟩ := key
      obtain rfl : fragment = none := hbase
      exact mem_tableNames_of_load hnamed hconcludes.settled.unlinked hkey hstored.here hmore

theorem storeSteps_ne_nil (store : DirectoryStore) (key : DocumentKey) (document : Document) :
    store.storeSteps key document ≠ [] := by
  simp [storeSteps]

/-- A machine can stop while the temporary file is written. -/
theorem halts_of_torn_write (hthere : store.disk.hasEntry store.directory = true)
    (key : DocumentKey) (document : Document) (count : Nat) :
    DiskStep.Halts (store.storeSteps key document) store.disk (store.storeSteps key document)
      (store.disk.writeFile (store.temporaryPath key)
        (document.json.toUTF8.extract 0 count)).2 := by
  rw [storeSteps, if_pos hthere, List.nil_append]
  exact .within (.writeFile _ _ count)

/-- A directory with the document of one table. -/
def documented (name : String) : Disk :=
  Database.vacant.disk.put (["data"] ++ [name ++ ".json"])
    (.file (Document.json ⟨["x"], []⟩).toUTF8)

/-- With something under another name it is a tree. -/
theorem isTree_documented_place {name other : String} (hne : other ≠ name ++ ".json")
    (node : Node) :
    ((documented name).place (["data"] ++ [other]) node).IsTree := by
  have htree : (documented name).IsTree := Database.isTree_vacant_place _ _
  have hroom : (documented name).node? ["data"] = some (.entry .directory) := by
    simp [documented, Database.vacant, Disk.node?_put]
  have hnone : (documented name).node? (["data"] ++ [other]) = none := by
    rw [documented, Disk.node?_put _ (by simp), if_neg (by simpa using hne), Database.vacant,
      Disk.node?_put _ (by simp), if_neg (by simp)]
    simp [Database.unnamed, Disk.node?]
  refine htree.place hroom (.inr fun hthere => ?_)
  rw [hnone] at hthere
  cases hthere

/-- Beside it there is what an earlier crash left of a temporary file. -/
def littered : DirectoryStore :=
  { Database.vacant with
    disk := (documented "t").put (["data"] ++ ["t.json.tmp"]) (.file "\x7b".toUTF8) }

theorem rooted_littered : littered.Rooted := by
  have htree : littered.disk.IsTree := isTree_documented_place (by decide) _
  have hunlinked : littered.Unlinked :=
    unlinked_of_no_links (Disk.link?_put (by simp) (Database.link?_vacant_put _ _) _)
  exact ⟨⟨htree, hunlinked, .inr (by decide)⟩, by decide⟩

/-- A machine stops after three bytes of a new document, and the old one is
read. -/
theorem survivesCrashes_torn_write :
    let document : Document := ⟨["x", "y"], []⟩
    let steps := littered.storeSteps (.base "t") document
    let torn := (littered.disk.writeFile (littered.temporaryPath (.base "t"))
      (document.json.toUTF8.extract 0 3)).2
    DiskStep.Halts steps littered.disk steps torn ∧
      load { littered with disk := torn } (.base "t") = .ok (some ⟨["x"], []⟩) := by
  intro document steps torn
  have hthere : littered.disk.hasEntry littered.directory = true := by decide +kernel
  have hhalts : DiskStep.Halts steps littered.disk steps torn :=
    halts_of_torn_write hthere _ document 3
  have hload : littered.load (.base "t") = .ok (some ⟨["x"], []⟩) :=
    (load_of_status (by decide +kernel)).trans (readEntry_json _)
  obtain ⟨hold, -⟩ := (survivesCrashes.1 littered (.base "t") document steps torn
    rooted_littered rfl hhalts).1 (storeSteps_ne_nil _ _ _)
  exact ⟨hhalts, (hold (.base "t") rfl).trans hload⟩

/-- A directory in which the temporary file of a table is a link to the
document of another. -/
def snared : DirectoryStore :=
  { Database.vacant with
    disk := (documented "u").place (["data"] ++ ["t.json.tmp"]) (.link (.symbolic "u.json")) }

theorem isTree_snared : snared.disk.IsTree :=
  isTree_documented_place (by decide) _

/-- **No condition on a rooted directory can be dropped**: making one that
is missing can bring another document to light, what is written to a
temporary file that is a link destroys the document it leads to, and what is
stored in the directory without a name is not listed. -/
theorem not_survivesCrashes :
    ¬ SurvivesCrashes (fun store =>
        store.disk.IsTree ∧ store.Unlinked ∧ store.directory ≠ "") ∧
      ¬ SurvivesCrashes (fun store =>
        store.disk.IsTree ∧ store.disk.hasEntry store.directory = true ∧ store.directory ≠ "") ∧
      ¬ SurvivesCrashes Settled := by
  refine ⟨fun h => ?_, fun h => ?_, fun h => ?_⟩
  · let made := (Database.secluded.disk.makeDirectories Database.secluded.directory).2
    let left : List DiskStep :=
      [.writeFile (Database.secluded.temporaryPath (.base "t")) (Document.json ⟨["x"], []⟩).toUTF8,
        .renameFile (Database.secluded.temporaryPath (.base "t"))
          (Database.secluded.path (.base "t"))]
    have hmissing : ¬ Database.secluded.disk.hasEntry Database.secluded.directory = true := by
      decide +kernel
    have hfirst : (Database.secluded.disk.makeDirectories Database.secluded.directory).1 =
        .ok () := by decide +kernel
    have hmake : (DiskStep.makeDirectories Database.secluded.directory).run
        Database.secluded.disk = (.ok (), made) := Prod.ext hfirst rfl
    have hhalts : DiskStep.Halts (Database.secluded.storeSteps (.base "t") ⟨["x"], []⟩)
        Database.secluded.disk left made := by
      rw [storeSteps, if_neg hmissing]
      exact .done hmake (.between left made)
    obtain ⟨hold, -⟩ := (h Database.secluded (.base "t") ⟨["x"], []⟩ left made
      ⟨Database.isTree_secluded, Database.unlinked_secluded, by decide⟩ rfl hhalts).1
        (by simp [left])
    have hbefore : Database.secluded.load (.base "u") = .ok none :=
      load_of_none rfl (.inl (by decide +kernel))
    have hafter : load { Database.secluded with disk := made } (.base "u") =
        .ok (some ⟨["x"], []⟩) :=
      (load_of_status (by decide +kernel)).trans (readEntry_json _)
    rw [hold (.base "u") rfl, hbefore] at hafter
    cases hafter
  · have hthere : snared.disk.hasEntry snared.directory = true := by decide +kernel
    have hhalts := halts_of_torn_write hthere (.base "t") ⟨["x"], []⟩ 0
    obtain ⟨hold, -⟩ := (h snared (.base "t") ⟨["x"], []⟩ _ _
      ⟨isTree_snared, hthere, by decide⟩ rfl hhalts).1 (storeSteps_ne_nil _ _ _)
    have hbefore : snared.load (.base "u") = .ok (some ⟨["x"], []⟩) :=
      (load_of_status (by decide +kernel)).trans (readEntry_json _)
    -- The machine stops before the first byte, with the document of `u` emptied.
    have hafter : load { snared with disk := (snared.disk.writeFile
        (snared.temporaryPath (.base "t")) ((Document.json ⟨["x"], []⟩).toUTF8.extract 0 0)).2 }
          (.base "u") = readEntry (some (.file ByteArray.empty)) :=
      load_of_status (by decide +kernel)
    rw [hold (.base "u") rfl, hbefore] at hafter
    cases hafter
  · let steps := Database.unnamed.storeSteps (.base "t") ⟨["x"], []⟩
    let disk := (DiskStep.runAll steps Database.unnamed.disk).2
    have hdone : (DiskStep.runAll steps Database.unnamed.disk).1 = .ok () := by decide +kernel
    have hhalts : DiskStep.Halts steps Database.unnamed.disk [] disk :=
      DiskStep.halts_nil_iff.2 (Prod.ext hdone rfl)
    have hunlinked : Database.unnamed.Unlinked := unlinked_of_no_links Database.link?_unnamed
    obtain ⟨-, -, names, hnames, hlisted⟩ := (h Database.unnamed (.base "t") ⟨["x"], []⟩ [] disk
      ⟨Database.isTree_unnamed, hunlinked, .inr (by decide)⟩ rfl hhalts).2 rfl
    have hbefore : Database.unnamed.tableNames = .ok [] := tableNames_of_missing (by decide +kernel)
    have hafter : tableNames { Database.unnamed with disk } = .ok [] :=
      tableNames_of_missing (by decide +kernel)
    obtain rfl : names = [] := Except.ok.inj (hnames.symm.trans hbefore)
    cases (Except.ok.inj (hafter.symm.trans hlisted)).trans (List.mergeSort_singleton "t")

end DirectoryStore

end ShardStore

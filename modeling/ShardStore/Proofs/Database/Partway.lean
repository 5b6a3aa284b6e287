import ShardStore.Proofs.Database.Failure
import ShardStore.Proofs.Database.Reopen
/-!
# Databases — what is done before a failure stays done

A cut stores its fragments one after the other, and a load reads its tables
one after the other. Both stop at the first failure, and nothing is taken
back: a storage has no way to take a document out, and a loaded table has
taken the place of the one before. So neither is all or nothing. What holds
is that a failed cut has stored the fragments before the one that was
refused (`CutPartway`), and that a failed load has put in place the tables
listed before the one that could not be read (`LoadedPartway`); all else is
as it was.
-/

namespace ShardStore

open Text

/-! ## The keys of fragments -/

/-- The key that a fragment is stored under. -/
def Fragment.key (fragment : Fragment) : DocumentKey :=
  ⟨fragment.table, some fragment.id⟩

namespace Table.Numbers

variable {table : Table} {kind : FragmentKind} {fragments : List Fragment}

/-- The fragment with a position has the key with that index. -/
theorem key_eq (h : table.Numbers kind fragments) {index : Nat} {fragment : Fragment}
    (hfragment : fragments[index]? = some fragment) :
    fragment.key = ⟨table.name, some ⟨kind, index⟩⟩ := by
  obtain ⟨htable, hid⟩ := h index fragment hfragment
  rw [Fragment.key, htable, hid]

/-- **And no other fragment has it**, of this table or another one. -/
theorem eq_of_key (h : table.Numbers kind fragments) {fragment : Fragment}
    (hmem : fragment ∈ fragments) {name : String} {id : FragmentId}
    (hkey : fragment.key = ⟨name, some id⟩) :
    (table.name, kind) = (name, id.kind) ∧ fragments[id.index]? = some fragment := by
  obtain ⟨index, hindex⟩ := List.mem_iff_getElem?.1 hmem
  cases (h.key_eq hindex).symm.trans hkey
  exact ⟨rfl, hindex⟩

theorem keys_distinct (h : table.Numbers kind fragments) :
    fragments.Pairwise fun a b => a.key ≠ b.key := by
  rw [List.pairwise_iff_getElem]
  intro i j hi hj hlt heq
  have hfirst := h.key_eq (List.getElem?_eq_getElem hi)
  have hsecond := h.key_eq (List.getElem?_eq_getElem hj)
  cases hfirst.symm.trans (heq.trans hsecond)
  exact Nat.lt_irrefl _ hlt

end Table.Numbers

/-- No two fragments of one cut have the same key: they are of one kind, and
each has its position for its index. -/
theorem Operation.keys_distinct_of_cut {operation : Operation} {name : String} {table : Table}
    {cut : Table → Except ExecutionError (List Fragment)} {fragments : List Fragment}
    (hop : operation.cut? = some (name, cut)) (hcut : cut table = .ok fragments) :
    fragments.Pairwise fun a b => a.key ≠ b.key := by
  obtain ⟨kind, -, hnumbers⟩ := numbers_of_cut hop hcut
  exact hnumbers.keys_distinct

variable {σ : Type} [Storage σ] {Settled : σ → Prop} {db later : Database σ}

namespace Storage

/-- The later storage has the documents of some fragments put in, and
otherwise the documents of the earlier one. -/
structure Scattered (storage later : σ) (fragments : List Fragment) : Prop where
  here : ∀ fragment ∈ fragments,
    Storage.load later fragment.key = .ok (some fragment.document)
  elsewhere : ∀ key : DocumentKey, isIdentifier key.table = true →
    (∀ fragment ∈ fragments, fragment.key ≠ key) →
    Storage.load later key = Storage.load storage key

namespace Scattered

variable {storage middle last : σ} {fragment : Fragment} {fragments : List Fragment}

theorem of_sameDocuments (h : SameDocuments storage last) : Scattered storage last [] :=
  ⟨by simp, fun key hkey _ => h.load key hkey⟩

/-- One fragment more, stored before the others under a key of its own. -/
theorem cons (hstored : Stored storage middle fragment.key fragment.document)
    (hid : isIdentifier fragment.table = true)
    (hdistinct : ∀ other ∈ fragments, fragment.key ≠ other.key)
    (h : Scattered middle last fragments) : Scattered storage last (fragment :: fragments) := by
  refine ⟨List.forall_mem_cons.2 ⟨?_, h.here⟩, fun key hkey hne => ?_⟩
  · rw [h.elsewhere fragment.key hid fun other hother => (hdistinct other hother).symm]
    exact hstored.here
  · obtain ⟨hfirst, hrest⟩ := List.forall_mem_cons.1 hne
    rw [h.elsewhere key hkey hrest]
    exact hstored.elsewhere key hkey hfirst.symm

end Scattered

end Storage

namespace Database

/-! ## Storing fragments -/

/-- **Fragments are stored up to the first that is refused.** -/
theorem storeFragments_eq_error (hc : Storage.Contract Settled) {storage last : σ}
    {fragments : List Fragment} {e : StorageError} (hs : Settled storage)
    (hid : ∀ fragment ∈ fragments, isIdentifier fragment.table = true)
    (hdistinct : fragments.Pairwise fun a b => a.key ≠ b.key)
    (h : storeFragments storage fragments = (.error e, last)) :
    ∃ written refused left middle, fragments = written ++ refused :: left ∧
      Storage.store middle refused.key refused.document = (.error e, last) ∧
      Storage.Scattered storage last written := by
  induction fragments generalizing storage with
  | nil => cases h
  | cons fragment fragments ih =>
    obtain ⟨hfirst, hrest⟩ := List.forall_mem_cons.1 hid
    obtain ⟨hnew, hdistinct⟩ := List.pairwise_cons.1 hdistinct
    unfold storeFragments at h
    split at h
    · next cause storage' hstore =>
      cases h
      obtain ⟨-, hsame⟩ := hc.refused hs hstore hfirst
      exact ⟨[], fragment, fragments, storage, rfl, hstore, .of_sameDocuments hsame⟩
    · next middle hstore =>
      obtain ⟨hmiddle, hstored⟩ := hc.stored hs hstore hfirst
      obtain ⟨written, refused, left, before, rfl, hrefused, hscattered⟩ :=
        ih hmiddle hrest hdistinct h
      have hother : ∀ other ∈ written, fragment.key ≠ other.key :=
        fun other hother => hnew other (List.mem_append_left _ hother)
      exact ⟨fragment :: written, refused, left, before, rfl, hrefused,
        .cons hstored hfirst hother hscattered⟩

/-! ## Loading tables -/

/-- **Tables are loaded up to the first that cannot be read.** -/
theorem loadNamed_eq_error {names : List String} {e : DatabaseError}
    (h : db.loadNamed names = (.error e, later)) :
    ∃ before name after, names = before ++ name :: after ∧
      db.loadNamed before = (.ok (), later) ∧
      Storage.storedTable db.storage name = .error e := by
  induction names generalizing db with
  | nil => cases h
  | cons first names ih =>
    rw [loadNamed_cons] at h
    cases hfirst : Storage.storedTable db.storage first with
    | error cause =>
      rw [hfirst] at h
      cases h
      exact ⟨[], first, names, rfl, rfl, hfirst⟩
    | ok found =>
      cases found with
      | none =>
        rw [hfirst] at h
        obtain ⟨before, name, after, rfl, hbefore, hname⟩ := ih h
        exact ⟨first :: before, name, after, rfl, by rw [loadNamed_cons, hfirst]; exact hbefore,
          hname⟩
      | some table =>
        rw [hfirst] at h
        obtain ⟨before, name, after, rfl, hbefore, hname⟩ := ih h
        exact ⟨first :: before, name, after, rfl, by rw [loadNamed_cons, hfirst]; exact hbefore,
          hname⟩

/-! ## What a failure leaves -/

/-- What a failed cut leaves: all as it was if there is no such table or it
cannot be cut so, and otherwise the fragments before one that the storage
refused are stored. -/
inductive CutPartway (db : Database σ) (name : String)
    (cut : Table → Except ExecutionError (List Fragment)) : DatabaseError → Database σ → Prop
  | unknown (htable : db.tables[name]? = none) :
      CutPartway db name cut (.execution (.unknownTable name)) db
  | uncut {table : Table} {e : ExecutionError} (htable : db.tables[name]? = some table)
      (hcut : cut table = .error e) : CutPartway db name cut (.execution e) db
  | stopped {table : Table} {written left : List Fragment} {refused : Fragment}
      {middle storage : σ} {e : StorageError} (htable : db.tables[name]? = some table)
      (hcut : cut table = .ok (written ++ refused :: left))
      (hrefused : Storage.store middle refused.key refused.document = (.error e, storage))
      (hwritten : Storage.Scattered db.storage storage written) :
      CutPartway db name cut (.storage e) { db with storage }

/-- What a failed load leaves: all as it was if the names could not be
listed, and otherwise the tables of the names before the first that could
not be read are in place. -/
inductive LoadedPartway (db : Database σ) : DatabaseError → Database σ → Prop
  | unlisted {e : StorageError} (hnames : Storage.tableNames db.storage = .error e) :
      LoadedPartway db (.storage e) db
  | stopped {before after : List String} {name : String} {found : String → Option Table}
      {e : DatabaseError} {tables : Tables}
      (hnames : Storage.tableNames db.storage = .ok (before ++ name :: after))
      (hread : ∀ other ∈ before, Storage.storedTable db.storage other = .ok (found other))
      (hname : Storage.storedTable db.storage name = .error e)
      (htables : ∀ other : String, tables[other]? =
        (if other ∈ before then found other else none).or db.tables[other]?) :
      LoadedPartway db e { db with tables }

theorem scatter_partway (hc : Storage.Contract Settled) (hdb : db.tables.WellFormed)
    (hs : Settled db.storage) {operation : Operation} {name : String} {e : DatabaseError}
    {cut : Table → Except ExecutionError (List Fragment)}
    (hop : operation.cut? = some (name, cut)) (h : db.scatter name cut = (.error e, later)) :
    CutPartway db name cut e later := by
  unfold scatter at h
  split at h
  · next htable =>
    cases h
    exact .unknown htable
  · next table htable =>
    split at h
    · next hcut =>
      cases h
      exact .uncut htable hcut
    · next fragments hcut =>
      have hid : ∀ fragment ∈ fragments, isIdentifier fragment.table = true := by
        intro fragment hmem
        rw [Operation.table_of_mem_cut hop hcut fragment hmem]
        exact (hdb name table htable).2.name
      have hdistinct := Operation.keys_distinct_of_cut hop hcut
      split at h
      · next cause storage hstore =>
        cases h
        obtain ⟨written, refused, left, middle, rfl, hrefused, hwritten⟩ :=
          storeFragments_eq_error hc hs hid hdistinct hstore
        exact .stopped htable hcut hrefused hwritten
      · cases h

theorem loadTables_partway {e : DatabaseError} (h : db.loadTables = (.error e, later)) :
    LoadedPartway db e later := by
  unfold loadTables at h
  split at h
  · next hnames =>
    cases h
    exact .unlisted hnames
  · next names hnames =>
    obtain ⟨before, name, after, rfl, hbefore, hname⟩ := loadNamed_eq_error h
    obtain ⟨hstorage, found, hread, htables⟩ := tables_of_loadNamed hbefore
    obtain ⟨tables, storage⟩ := later
    obtain rfl : storage = db.storage := hstorage
    exact .stopped hnames hread hname htables

/-- **What is done before a failure stays done.** A cut that fails leaves
the tables as they were, and either nothing is written or the fragments
before a refused one are, each under its own key. A load that fails leaves
the storage as it was and puts in place the tables that are listed before
the one that could not be read. -/
theorem partway_of_failure (hc : Storage.Contract Settled) {db : Database σ} (h : db.Reachable)
    (hs : Settled db.storage) :
    (∀ (operation : Operation) (name : String)
      (cut : Table → Except ExecutionError (List Fragment)) (e : DatabaseError),
      operation.cut? = some (name, cut) → (operation.run db).1 = .error e →
        CutPartway db name cut e (operation.run db).2) ∧
    ∀ e : DatabaseError, (Operation.loadTables.run db).1 = .error e →
      LoadedPartway db e (Operation.loadTables.run db).2 := by
  refine ⟨fun operation name cut e hop hout => ?_, fun e hout => ?_⟩
  · have hop' := hop
    cases operation with
    | scaleHorizontally other size =>
      cases hop
      exact scatter_partway hc h.wellFormed hs hop' (Prod.ext (Operation.error_of_yielding hout) rfl)
    | scaleVertically other groups =>
      cases hop
      exact scatter_partway hc h.wellFormed hs hop' (Prod.ext (Operation.error_of_yielding hout) rfl)
    | _ => cases hop
  · exact loadTables_partway (Prod.ext (Operation.error_of_yielding hout) rfl)

/-! ## Neither is all or nothing -/

/-- A store in which one partition cannot be written: there is a directory in
the place of its file. -/
def blocked : DirectoryStore :=
  { vacant with disk := vacant.disk.put (["data"] ++ ["t.partition-1.json"]) .directory }

theorem settled_blocked : blocked.Settled :=
  ⟨isTree_vacant_place _ _, DirectoryStore.unlinked_of_no_links (link?_vacant_put _ _),
    .inr (by decide)⟩

/-- A table of two columns in it. -/
def blockedTable : Database DirectoryStore :=
  (Event.run (.ask (.createTable "t" ["x", "y"])) (.empty blocked)).2

theorem reachable_blockedTable : blockedTable.Reachable :=
  (Reachable.empty blocked).event (.ask (.createTable "t" ["x", "y"]))

theorem settled_blockedTable : blockedTable.storage.Settled := by
  have heffect := Operation.effect_run (.createTable "t" ["x", "y"]) (.empty blocked)
  have hsettled := heffect.settled Tables.wellFormed_empty DirectoryStore.contract settled_blocked
  simp only [blockedTable, Event.run]
  exact hsettled

/-- Its cut into two partitions. -/
def blockedCut : Operation :=
  .scaleVertically "t" [["x"], ["y"]]

/-- The partition that can be written. -/
def firstPartition : DocumentKey :=
  ⟨"t", some ⟨.partition, 0⟩⟩

/-- The cut fails, and by then the first partition has the file that it did not
have before. -/
theorem run_blockedCut :
    blockedTable.storage.disk.hasEntry (blockedTable.storage.path firstPartition) = false ∧
      (blockedCut.run blockedTable).1 matches .error (.storage (.disk .isDirectory)) ∧
      (blockedCut.run blockedTable).2.storage.disk.status
        ((blockedCut.run blockedTable).2.storage.path firstPartition) =
          .ok (.file (Document.json ⟨["x"], []⟩).toUTF8) := by
  decide +kernel

theorem outcome_blockedCut :
    (blockedCut.run blockedTable).1 = .error (.storage (.disk .isDirectory)) := by
  have hfails := run_blockedCut.2.1
  split at hfails
  · next hout => exact hout
  · cases hfails

/-- Two documents in memory, the second of which is no table. -/
def misread : MemoryStore :=
  ((MemoryStore.store {} (.base "a") ⟨["x"], []⟩).2.store (.base "b") ⟨["y", "y"], []⟩).2

/-- The first partition of a table is left behind when the second cannot be
written, and the first table of a storage when the second cannot be read. -/
theorem partway_of_failure_blocked :
    CutPartway blockedTable "t" (·.partitions [["x"], ["y"]]) (.storage (.disk .isDirectory))
        (blockedCut.run blockedTable).2 ∧
      LoadedPartway (.empty misread) (.execution (.repeatedColumn "y"))
        (Operation.loadTables.run (.empty misread)).2 := by
  refine ⟨?_, ?_⟩
  · exact (partway_of_failure DirectoryStore.contract reachable_blockedTable settled_blockedTable).1
      blockedCut "t" _ _ rfl outcome_blockedCut
  · exact (partway_of_failure MemoryStore.contract (.empty misread) trivial).2 _ rfl

/-- A failed cut leaves every document as it was. -/
def CutsWhole (Settled : σ → Prop) : Prop :=
  ∀ (db : Database σ) (operation : Operation) (e : DatabaseError), db.Reachable →
    Settled db.storage → operation.cut?.isSome = true → (operation.run db).1 = .error e →
    ∀ key : DocumentKey, isIdentifier key.table = true →
      Storage.load (operation.run db).2.storage key = Storage.load db.storage key

/-- A failed load leaves the tables as they were. -/
def LoadsWhole (Settled : σ → Prop) : Prop :=
  ∀ (db : Database σ) (e : DatabaseError), db.Reachable → Settled db.storage →
    (Operation.loadTables.run db).1 = .error e →
    (Operation.loadTables.run db).2.tables = db.tables

/-- **Neither a cut nor a load is all or nothing.** -/
theorem not_cutsWhole_nor_loadsWhole :
    ¬ CutsWhole DirectoryStore.Settled ∧ ¬ LoadsWhole fun _ : MemoryStore => True := by
  refine ⟨fun h => ?_, fun h => ?_⟩
  · have hkey : isIdentifier firstPartition.table = true := rfl
    have hsame := h blockedTable blockedCut _ reachable_blockedTable settled_blockedTable
      rfl outcome_blockedCut firstPartition hkey
    have hbefore : blockedTable.storage.load firstPartition = .ok none :=
      DirectoryStore.load_of_missing run_blockedCut.1
    have hafter : (blockedCut.run blockedTable).2.storage.load firstPartition =
        .ok (some ⟨["x"], []⟩) :=
      (DirectoryStore.load_of_status run_blockedCut.2.2).trans (DirectoryStore.readEntry_json _)
    cases (hafter.symm.trans hsame).trans hbefore
  · have hsame := h (.empty misread) _ (.empty misread) trivial rfl
    have hloaded : (Operation.loadTables.run (.empty misread)).2.tables["a"]? =
        some ⟨"a", ["x"], []⟩ := rfl
    rw [hsame] at hloaded
    cases hloaded

end Database

end ShardStore

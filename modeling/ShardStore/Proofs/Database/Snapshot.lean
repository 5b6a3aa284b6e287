import ShardStore.Proofs.Database.Scattering
/-!
# Databases — a fragment is what was last stored of it

A fragment's document is settled by the trace: it is the fragment with that
index of the latest successful cut of its table and kind that had one
(`Trace.latest?`), as the table was then, and where no cut had one it is
what the storage held at first. Whatever else is asked in between leaves it
as it is.
-/

namespace ShardStore

open Database

namespace Trace

/-- The fragment of one identity that the last of the cuts which had one
yielded. -/
def latest? (name : String) (id : FragmentId) (trace : Trace) : Option Fragment :=
  trace.reverse.findSome? (fragment? name id)

variable {name : String} {id : FragmentId}

/-- **Later entries come first.** -/
theorem latest?_append (first second : Trace) :
    latest? name id (first ++ second) = (latest? name id second).or (latest? name id first) := by
  rw [latest?, List.reverse_append, List.findSome?_append]
  rfl

@[simp] theorem latest?_singleton
    (entry : Operation × Except DatabaseError Operation.Yield) :
    latest? name id [entry] = fragment? name id entry := by
  cases h : fragment? name id entry <;> simp [latest?, h]

/-- Only a cut of the table, and of the kind, tells of a fragment. -/
theorem fragment?_eq_none {operation : Operation}
    {outcome : Except DatabaseError Operation.Yield}
    (h : operation.cuts? ≠ some (name, id.kind)) : fragment? name id (operation, outcome) = none := by
  unfold fragment?
  split
  · next heq =>
    cases heq
    exact if_neg h
  · rfl

end Trace

variable {db later : Database MemoryStore} {name : String} {id : FragmentId}

namespace Operation

/-- **A fragment that is yielded was cut from the table that was loaded.** -/
theorem cut_of_fragment? {operation : Operation} {fragment : Fragment}
    (h : Trace.fragment? name id (operation, (operation.run db).1) = some fragment) :
    ∃ cut table fragments, operation.cut? = some (name, cut) ∧
      operation.cuts? = some (name, id.kind) ∧ db.tables[name]? = some table ∧
      cut table = .ok fragments ∧ (operation.run db).1 = .ok (.fragments fragments) ∧
      fragments[id.index]? = some fragment := by
  have heffect := operation.effect_run db
  generalize (operation.run db).1 = outcome, (operation.run db).2 = later at h heffect ⊢
  -- Of all that an operation can yield, only a cut yields fragments.
  cases heffect with
  | refused => cases h
  | selected => cases h
  | @created _ _ _ attempted => cases attempted <;> cases h
  | @inserted _ _ _ _ attempted => cases attempted <;> cases h
  | loaded =>
    generalize db.loadTables.1 = loaded at h
    cases loaded <;> cases h
  | @cut _ other table fragments cut hop htable hcut =>
    obtain ⟨kind, hkind, -⟩ := numbers_of_cut hop hcut
    generalize (storeFragments db.storage fragments).1 = stored at h
    cases stored with
    | error e => cases h
    | ok _ =>
      simp only [Except.mapError, Except.map, Trace.fragment?, hkind] at h
      split at h
      · next heq =>
        cases heq
        exact ⟨cut, table, fragments, hop, hkind, htable, hcut, rfl, h⟩
      · cases h

end Operation

namespace Event

/-- An event that puts no document in a storage in memory and takes none
out of it by hand. -/
def LeavesDocuments : Event MemoryStore → Prop
  | ask _ => True
  | change become => ∀ memory, (become memory).documents = memory.documents

@[simp] theorem leavesDocuments_ask (operation : Operation) :
    (ask operation : Event MemoryStore).LeavesDocuments := trivial

@[simp] theorem leavesDocuments_switchWrites (fail : Bool) : (switchWrites fail).LeavesDocuments :=
  fun _ => rfl

theorem documents_run {event : Event MemoryStore} (h : event.LeavesDocuments)
    (hdb : db.tables.WellFormed) (name : String) (id : FragmentId) :
    (event.run db).2.storage.documents[(⟨name, some id⟩ : DocumentKey)]? =
      (((event.run db).1.latest? name id).map Fragment.document).or
        db.storage.documents[(⟨name, some id⟩ : DocumentKey)]? := by
  cases event with
  | ask operation =>
    simp only [run, Trace.latest?_singleton]
    exact (operation.effect_run db).documents_fragment hdb name id
  | change become =>
    simp only [run, h db.storage]
    rfl

/-- **A run leaves of a fragment what its trace tells last.** -/
theorem documents_runAll {events : List (Event MemoryStore)}
    (h : ∀ event ∈ events, event.LeavesDocuments) (hdb : db.tables.WellFormed) (name : String)
    (id : FragmentId) :
    (runAll events db).2.storage.documents[(⟨name, some id⟩ : DocumentKey)]? =
      (((runAll events db).1.latest? name id).map Fragment.document).or
        db.storage.documents[(⟨name, some id⟩ : DocumentKey)]? := by
  induction events generalizing db with
  | nil => rfl
  | cons event events ih =>
    obtain ⟨hfirst, hrest⟩ := List.forall_mem_cons.1 h
    rw [runAll, ih hrest (event.wellFormed_run hdb), documents_run hfirst hdb,
      Trace.latest?_append, Option.map_or, Option.or_assoc]

/-- At some point of a run the table was cut as it was loaded then, the cut
succeeded and had the fragment among others, and no cut after it had one with
this identity. -/
def LastCut (events : List (Event MemoryStore)) (db : Database MemoryStore) (name : String)
    (id : FragmentId) (fragment : Fragment) : Prop :=
  ∃ before operation after cut table fragments, events = before ++ .ask operation :: after ∧
    operation.cut? = some (name, cut) ∧ operation.cuts? = some (name, id.kind) ∧
    (runAll before db).2.tables[name]? = some table ∧ cut table = .ok fragments ∧
    (operation.run (runAll before db).2).1 = .ok (.fragments fragments) ∧
    fragments[id.index]? = some fragment ∧
    (runAll after (operation.run (runAll before db).2).2).1.latest? name id = none

/-- **The last fragment of a trace was cut at some point of the run.** -/
theorem lastCut_of_latest? {events : List (Event MemoryStore)} {fragment : Fragment}
    (h : (runAll events db).1.latest? name id = some fragment) :
    LastCut events db name id fragment := by
  induction events generalizing db with
  | nil => cases h
  | cons event events ih =>
    rw [runAll, Trace.latest?_append, Option.or_eq_some_iff] at h
    rcases h with hlater | ⟨hnone, hfirst⟩
    · obtain ⟨before, operation, after, cut, table, fragments, rfl, hcut⟩ := ih hlater
      exact ⟨event :: before, operation, after, cut, table, fragments, rfl, hcut⟩
    · cases event with
      | change become => cases hfirst
      | ask operation =>
        rw [run, Trace.latest?_singleton] at hfirst
        obtain ⟨cut, table, fragments, hop, hkind, htable, hcut, hout, hfragment⟩ :=
          operation.cut_of_fragment? hfirst
        exact ⟨[], operation, events, cut, table, fragments, rfl, hop, hkind, htable, hcut, hout,
          hfragment, hnone⟩

end Event

namespace Database

/-- **A fragment is what was last stored of it.** After a run from a loaded
database, in which operations fail or not and writes are switched at any
point, the document of a fragment is that of the fragment with its index
which the last successful cut of its table and kind yielded that had so many,
and what the storage held when it was loaded where there was no such cut.
That fragment was cut from the table as it was loaded then, and no cut after
it yielded another one. From there on no operation but a cut of this table
and kind changes it, and no cut changes a base document. -/
theorem fragments_last_stored {storage : MemoryStore} {db : Database MemoryStore}
    (hload : Database.load storage = .ok db) {events : List (Event MemoryStore)}
    (hevents : ∀ event ∈ events, event.LeavesDocuments) (name : String) (id : FragmentId) :
    let later := (Event.runAll events db).2
    let latest := (Event.runAll events db).1.latest? name id
    Storage.load later.storage ⟨name, some id⟩ =
      (Storage.load storage ⟨name, some id⟩).map (latest.map Fragment.document).or ∧
    (∀ fragment, latest = some fragment → Event.LastCut events db name id fragment) ∧
    ∀ operation : Operation,
      (operation.cuts? ≠ some (name, id.kind) →
        Storage.load (operation.run later).2.storage ⟨name, some id⟩ =
          Storage.load later.storage ⟨name, some id⟩) ∧
      (operation.cuts?.isSome = true → ∀ other,
        Storage.load (operation.run later).2.storage (.base other) =
          Storage.load later.storage (.base other)) := by
  intro later latest
  have hdb := wellFormed_of_load hload
  have hlater := ((Reachable.loaded hload).runAll events).wellFormed
  obtain ⟨hstorage, -, -⟩ := load_eq_ok hload
  refine ⟨?_, fun fragment hlatest => Event.lastCut_of_latest? hlatest, fun operation =>
    ⟨fun hother => ?_, fun hcut other => ?_⟩⟩
  · have hdocument := Event.documents_runAll hevents hdb name id
    rw [hstorage] at hdocument
    exact congrArg Except.ok hdocument
  · have hdocument := (operation.effect_run later).documents_fragment hlater name id
    rw [Trace.fragment?_eq_none hother] at hdocument
    exact congrArg Except.ok hdocument
  · exact congrArg Except.ok ((operation.effect_run later).documents_base hcut other)

/-- Three rows are cut one by one, a fourth row is added, a cut is refused,
and then they are cut by three: the first shard is that of the last cut, the
third one still that of the first cut, and one with a higher index is as it
was found. -/
theorem fragments_last_stored_uneven_cuts :
    let row (x : String) : Row := Row.ofPairs [("x", .text x)]
    let found : Document := ⟨["x"], []⟩
    let rows := ["1", "2", "3"].map row
    let storage := ((MemoryStore.store {} (.base "t") ⟨["x"], rows⟩).2.store
      ⟨"t", some ⟨.shard, 5⟩⟩ found).2
    let events : List (Event MemoryStore) :=
      [.ask (.scaleHorizontally "t" 1), .ask (.execute (.insert ⟨"t", ["x"], [.text "4"]⟩)),
        .switchWrites true, .ask (.scaleHorizontally "t" 2), .switchWrites false,
        .ask (.scaleHorizontally "t" 3), .ask (.scaleVertically "t" [["x"]])]
    ∃ db, Database.load storage = .ok db ∧
      let shard (index : Nat) :=
        Storage.load (Event.runAll events db).2.storage ⟨"t", some ⟨.shard, index⟩⟩
      shard 0 = .ok (some ⟨["x"], rows⟩) ∧ shard 1 = .ok (some ⟨["x"], [row "4"]⟩) ∧
        shard 2 = .ok (some ⟨["x"], [row "3"]⟩) ∧ shard 5 = .ok (some found) := by
  intro row found rows storage events
  let db : Database MemoryStore := (Database.empty storage).loadTables.2
  have hload : Database.load storage = .ok db := rfl
  have hevents : ∀ event ∈ events, event.LeavesDocuments := by
    simp [events]
  have hlatest : ∀ index last, (Event.runAll events db).1.latest? "t" ⟨.shard, index⟩ = last →
      Storage.load (Event.runAll events db).2.storage ⟨"t", some ⟨.shard, index⟩⟩ =
        (Storage.load storage ⟨"t", some ⟨.shard, index⟩⟩).map (last.map Fragment.document).or := by
    rintro index _ rfl
    exact (fragments_last_stored hload hevents "t" ⟨.shard, index⟩).1
  refine ⟨db, hload, ?_, ?_, ?_, ?_⟩
  · exact hlatest 0 (some ⟨"t", ⟨.shard, 0⟩, ["x"], rows⟩) (by decide +kernel)
  · exact hlatest 1 (some ⟨"t", ⟨.shard, 1⟩, ["x"], [row "4"]⟩) (by decide +kernel)
  · exact hlatest 2 (some ⟨"t", ⟨.shard, 2⟩, ["x"], [row "3"]⟩) (by decide +kernel)
  · exact hlatest 5 none (by decide +kernel)

end Database

end ShardStore

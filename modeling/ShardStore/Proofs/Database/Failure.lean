import ShardStore.Proofs.Database.WellFormed
import ShardStore.Proofs.Fragment
import ShardStore.Proofs.Storage.Contract
/-!
# Databases — what fails changes nothing

A statement and the making of a table write one document at most, and
write it before anything else is settled. So where such an operation
fails, the tables are those of before, and a document has changed only
if the storage changed it while it refused to store (`Storage.Spares`).
A cut may have written fragments when it fails, but not when it was
refused for the table, the size or a group: those are looked at first.
-/

namespace ShardStore

/-- An operation fails as what it carries out does. -/
theorem Operation.error_of_yielding {σ α : Type} {yield : α → Yield} {e : DatabaseError}
    {result : Except DatabaseError α × Database σ} (h : (yielding yield result).1 = .error e) :
    result.1 = .error e := by
  obtain ⟨outcome, later⟩ := result
  cases outcome with
  | error cause => exact congrArg Except.error (Except.error.inj h)
  | ok value => cases h

variable {σ : Type} [Storage σ]

/-- The operations that write one document at most. -/
def Operation.isAtomic : Operation → Bool
  | executeText _ => true
  | execute _ => true
  | createTable _ _ => true
  | _ => false

variable {db later : Database σ} {operation : Operation}

theorem Attempt.unchanged {name : String} {table : Table} {e : StorageError}
    (h : Attempt db name table (.error e) later) (htable : Text.isIdentifier table.name = true) :
    later.tables = db.tables ∧ ∀ key, Storage.Spares db.storage key →
      Storage.load later.storage key = Storage.load db.storage key := by
  cases h with
  | refused hstore => exact ⟨rfl, fun key hspares => hspares hstore htable⟩

namespace Operation.Effect

/-- **A statement or the making of a table that fails changes nothing.** -/
theorem unchanged_of_error {e : DatabaseError} (h : Effect db operation (.error e) later)
    (hdb : db.tables.WellFormed) (hop : operation.isAtomic = true) :
    later.tables = db.tables ∧ ∀ key, Storage.Spares db.storage key →
      Storage.load later.storage key = Storage.load db.storage key := by
  -- The outcome is an index of the effect: it gets a name before the cases.
  generalize hout : Except.error e = result at h
  cases h with
  | refused => exact ⟨rfl, fun _ _ => rfl⟩
  | selected => cases hout
  | @created name columns table outcome _ hnew htable hatt =>
    cases outcome with
    | ok => cases hout
    | error cause => exact hatt.unchanged (Table.wellFormed_of_create htable).name
  | @inserted _ addition table row outcome _ hstatement htable hrow hatt =>
    cases outcome with
    | ok => cases hout
    | error cause => exact hatt.unchanged (hdb _ _ htable).2.name
  -- A cut that fails may have written fragments, but it is not atomic.
  | cut hcut => cases operation <;> simp [isAtomic, cut?] at hop hcut
  | loaded => cases hop

/-- **A selection changes nothing**, whether it succeeds or not. -/
theorem eq_of_select {outcome : Except DatabaseError Yield} {query : Select}
    (h : Effect db operation outcome later) (hop : operation.statement? = some (.select query)) :
    later = db := by
  cases h with
  | refused => rfl
  | selected => rfl
  | created => cases hop
  | inserted hinsert => simp [hop] at hinsert
  | cut hcut => cases operation <;> simp [statement?, cut?] at hop hcut
  | loaded => cases hop

end Operation.Effect

namespace Database

/-- **A cut that is refused has written nothing.** A table that is not loaded
is the one that no cut admits. -/
theorem scatter_eq_error {name : String} {cut : Table → Except ExecutionError (List Fragment)}
    (h : ∀ table, db.tables[name]? = some table → ∃ e, cut table = .error e) :
    ∃ e, db.scatter name cut = (.error (.execution e), db) := by
  unfold scatter
  split
  · exact ⟨_, rfl⟩
  · next table htable =>
    obtain ⟨e, he⟩ := h table htable
    exact ⟨e, by rw [he]⟩

/-- A cut that fails for the operation itself, and not for its storage, has
been refused. -/
theorem eq_of_scatter_eq_error {name : String} {e : ExecutionError}
    {cut : Table → Except ExecutionError (List Fragment)}
    (h : (db.scatter name cut).1 = .error (.execution e)) : (db.scatter name cut).2 = db := by
  unfold scatter at h ⊢
  repeat' split at h
  all_goals simp_all

/-- **What fails changes nothing.** A statement or the making of a table that
fails leaves the tables as they were, and every document that the storage
does not itself change while it refuses one. A cut that is refused for the
operation itself leaves everything as it was: so does one of a table that
is not loaded, one into shards of no rows, and one with a group that the
table does not admit. A selection never changes anything. -/
theorem unchanged_of_failure {db : Database σ} (h : db.Reachable) :
    (∀ (operation : Operation) (e : DatabaseError), operation.isAtomic = true →
      (operation.run db).1 = .error e →
        (operation.run db).2.tables = db.tables ∧
          ∀ key, Storage.Spares db.storage key →
            Storage.load (operation.run db).2.storage key = Storage.load db.storage key) ∧
    (∀ (operation : Operation) (e : ExecutionError), operation.cut?.isSome = true →
      (operation.run db).1 = .error (.execution e) → (operation.run db).2 = db) ∧
    (∀ (name : String) (size : Nat), (name ∉ db.tables ∨ size = 0) →
      ∃ e, (Operation.scaleHorizontally name size).run db = (.error (.execution e), db)) ∧
    (∀ (name : String) (groups : List (List String)),
      (∀ table, db.tables[name]? = some table → ∃ group ∈ groups, ¬ table.Admits group) →
      ∃ e, (Operation.scaleVertically name groups).run db = (.error (.execution e), db)) ∧
    (∀ (operation : Operation) (query : Select),
      operation.statement? = some (.select query) → (operation.run db).2 = db) := by
  refine ⟨fun operation e hop hout => ?_, fun operation e hop hout => ?_, fun name size hbad => ?_,
    fun name groups hbad => ?_, fun operation query hop => ?_⟩
  · have heffect := operation.effect_run db
    rw [hout] at heffect
    exact heffect.unchanged_of_error h.wellFormed hop
  · cases operation with
    | scaleHorizontally name size => exact eq_of_scatter_eq_error (Operation.error_of_yielding hout)
    | scaleVertically name groups => exact eq_of_scatter_eq_error (Operation.error_of_yielding hout)
    | _ => cases hop
  · have hrefused : ∀ table, db.tables[name]? = some table → ∃ e, table.shards size = .error e := by
      intro table htable
      rcases hbad with hout | rfl
      · exact absurd (Std.ExtTreeMap.mem_iff_isSome_getElem?.2 (by simp [htable])) hout
      · exact ⟨_, rfl⟩
    obtain ⟨e, he⟩ := scatter_eq_error hrefused
    exact ⟨e, by simp [Operation.run, scaleHorizontally, he, Operation.yielding, Except.map]⟩
  · have hrefused : ∀ table, db.tables[name]? = some table →
        ∃ e, table.partitions groups = .error e := fun table htable =>
      Table.partitions_eq_error (h.wellFormed name table htable).2 (hbad table htable)
    obtain ⟨e, he⟩ := scatter_eq_error hrefused
    exact ⟨e, by simp [Operation.run, scaleVertically, he, Operation.yielding, Except.map]⟩
  · exact (operation.effect_run db).eq_of_select hop

/-- An insertion that fails because writes are off, and a cut with one bad
group after a good one. -/
theorem unchanged_of_failure_writes_off :
    let db : Database MemoryStore :=
      (Event.runAll [.ask (.createTable "t" ["x"]), Event.switchWrites true] (.empty {})).2
    ((Operation.execute (.insert ⟨"t", ["x"], [.null]⟩)).run db).1 =
        .error (.execution (.storage .writesDisabled)) ∧
      ((Operation.execute (.insert ⟨"t", ["x"], [.null]⟩)).run db).2.tables = db.tables ∧
      ∃ e, (Operation.scaleVertically "t" [["x"], ["y"]]).run db = (.error (.execution e), db) := by
  intro db
  have hall := unchanged_of_failure ((Reachable.empty {}).runAll
    [.ask (.createTable "t" ["x"]), Event.switchWrites true] : db.Reachable)
  refine ⟨rfl, (hall.1 (.execute (.insert ⟨"t", ["x"], [.null]⟩)) _ rfl rfl).1, ?_⟩
  refine hall.2.2.2.1 "t" [["x"], ["y"]] fun table htable => ⟨["y"], by simp, fun hadmits => ?_⟩
  have hcolumns : some table.columns = some ["x"] := congrArg (Option.map Table.columns) htable.symm
  have hdeclared := hadmits.declared "y" (by simp)
  rw [Option.some.inj hcolumns] at hdeclared
  simp at hdeclared

end Database

end ShardStore

import ShardStore.Proofs.Database.WellFormed
/-!
# Databases — operations on different tables

An operation about one table reads that table and the switch for writes,
and nothing else. So two facts carry everything here: what it does depends
only on what the database has at its table (`SameAt.run`), and it leaves
every other table, and every document under another name, as they are
(`Operation.Effect.sameAt`). Two operations about different tables can then
be carried out in either order.
-/

namespace ShardStore

open Database

/-- The table that a statement is about. -/
def Statement.subject : Statement → String
  | select query => query.table
  | insert addition => addition.table

namespace Operation

/-- The table that an operation is about, if it is about a single one. A
text that is no statement is about none, and neither is loading. -/
def subject? : Operation → Option String
  | executeText text => (Statement.parse text).toOption.map Statement.subject
  | execute statement => some statement.subject
  | createTable name _ => some name
  | scaleHorizontally name _ => some name
  | scaleVertically name _ => some name
  | loadTables => none

theorem subject?_of_statement {operation : Operation} {statement : Statement}
    (h : operation.statement? = some statement) : operation.subject? = some statement.subject := by
  cases operation with
  | executeText text => simpa [subject?, statement?] using congrArg (Option.map Statement.subject) h
  | execute => exact congrArg (Option.map Statement.subject) h
  | _ => cases h

theorem subject?_of_cut {operation : Operation} {name : String}
    {cut : Table → Except ExecutionError (List Fragment)}
    (h : operation.cut? = some (name, cut)) : operation.subject? = some name := by
  cases operation with
  | scaleHorizontally | scaleVertically => exact congrArg (Option.map Prod.fst) h
  | _ => cases h

end Operation

/-! ## What a database has at a name -/

namespace MemoryStore

/-- Two storages with the same documents under a name, fragments included,
and the same switch for writes. -/
structure SameAt (name : String) (memory other : MemoryStore) : Prop where
  documents : ∀ key : DocumentKey, key.table = name →
    other.documents[key]? = memory.documents[key]?
  writes : other.failWrites = memory.failWrites

variable {name : String} {memory middle other : MemoryStore} {key : DocumentKey}
  {document : Document}

theorem SameAt.refl (name : String) (memory : MemoryStore) : SameAt name memory memory :=
  ⟨fun _ _ => rfl, rfl⟩

theorem SameAt.trans (h₁ : SameAt name memory middle) (h₂ : SameAt name middle other) :
    SameAt name memory other :=
  ⟨fun key hkey => (h₂.documents key hkey).trans (h₁.documents key hkey),
    h₂.writes.trans h₁.writes⟩

/-- A document under the name is stored in both or in neither. -/
theorem SameAt.store (h : SameAt name memory other) (key : DocumentKey) (document : Document) :
    (other.store key document).1 = (memory.store key document).1 ∧
      SameAt name (memory.store key document).2 (other.store key document).2 := by
  unfold MemoryStore.store
  rw [h.writes]
  by_cases hfail : memory.failWrites = true
  · rw [if_pos hfail, if_pos hfail]
    exact ⟨rfl, h⟩
  · rw [if_neg hfail, if_neg hfail]
    refine ⟨rfl, fun found hfound => ?_, rfl⟩
    simp only [Std.ExtTreeMap.getElem?_insert, h.documents found hfound]

/-- A document under another name is not seen. -/
theorem sameAt_store (hkey : key.table ≠ name) (memory : MemoryStore) (document : Document) :
    SameAt name memory (memory.store key document).2 := by
  unfold store
  split
  · exact .refl _ _
  · refine ⟨fun found hfound => ?_, rfl⟩
    rw [Std.ExtTreeMap.getElem?_insert, if_neg]
    intro heq
    exact hkey (Std.LawfulEqCmp.eq_of_compare heq ▸ hfound)

/-- Fragments are stored in both as far as in either. -/
theorem SameAt.storeFragments (h : SameAt name memory other) (fragments : List Fragment) :
    (Database.storeFragments other fragments).1 = (Database.storeFragments memory fragments).1 ∧
      SameAt name (Database.storeFragments memory fragments).2
        (Database.storeFragments other fragments).2 := by
  induction fragments generalizing memory other with
  | nil => exact ⟨rfl, h⟩
  | cons fragment fragments ih =>
    have hstore := h.store ⟨fragment.table, some fragment.id⟩ fragment.document
    simp only [Database.storeFragments, Storage.store]
    revert hstore
    rcases memory.store ⟨fragment.table, some fragment.id⟩ fragment.document with ⟨outcome, later⟩
    rcases other.store ⟨fragment.table, some fragment.id⟩ fragment.document with ⟨outcome', later'⟩
    rintro ⟨rfl, hlater⟩
    cases outcome' with
    | error e => exact ⟨rfl, hlater⟩
    | ok => exact ih hlater

/-- Fragments of another table are not seen. -/
theorem sameAt_storeFragments {fragments : List Fragment}
    (h : ∀ fragment ∈ fragments, fragment.table ≠ name) (memory : MemoryStore) :
    SameAt name memory (Database.storeFragments memory fragments).2 := by
  induction fragments generalizing memory with
  | nil => exact .refl _ _
  | cons fragment fragments ih =>
    obtain ⟨hfragment, hrest⟩ := List.forall_mem_cons.1 h
    have hkey : (DocumentKey.mk fragment.table (some fragment.id)).table ≠ name := hfragment
    have hstore := sameAt_store hkey memory fragment.document
    simp only [Database.storeFragments, Storage.store]
    revert hstore
    rcases memory.store ⟨fragment.table, some fragment.id⟩ fragment.document with ⟨outcome, later⟩
    intro hlater
    cases outcome with
    | error e => exact hlater
    | ok => exact hlater.trans (ih hrest later)

end MemoryStore

namespace Database

/-- Two databases that have the same at a name: the same table or none, and
the same documents under it. -/
structure SameAt (name : String) (db other : Database MemoryStore) : Prop where
  table : other.tables[name]? = db.tables[name]?
  storage : db.storage.SameAt name other.storage

variable {name : String} {db middle other : Database MemoryStore}

namespace SameAt

theorem refl (name : String) (db : Database MemoryStore) : SameAt name db db :=
  ⟨rfl, .refl _ _⟩

theorem trans (h₁ : SameAt name db middle) (h₂ : SameAt name middle other) :
    SameAt name db other :=
  ⟨h₂.table.trans h₁.table, h₁.storage.trans h₂.storage⟩

theorem symm (h : SameAt name db other) : SameAt name other db :=
  ⟨h.table.symm, fun key hkey => (h.storage.documents key hkey).symm, h.storage.writes.symm⟩

end SameAt

/-- **Databases that have the same at every name are the same.** -/
theorem eq_of_sameAt (h : ∀ name, SameAt name db other) : other = db := by
  have htables : other.tables = db.tables :=
    Std.ExtTreeMap.ext_getElem? fun {name} => (h name).table
  have hdocuments : other.storage.documents = db.storage.documents :=
    Std.ExtTreeMap.ext_getElem? fun {key} => (h key.table).storage.documents key rfl
  have hwrites : other.storage.failWrites = db.storage.failWrites := (h "").storage.writes
  obtain ⟨tables, documents, failWrites⟩ := db
  obtain ⟨tables', documents', failWrites'⟩ := other
  cases htables
  cases hdocuments
  cases hwrites
  rfl

/-! ## What an operation does is decided at its table -/

namespace SameAt

/-- A table that is put under the name is there in both. -/
theorem insert_table {storage later : MemoryStore} (tables others : Tables) (table : Table)
    (hstorage : storage.SameAt name later) :
    SameAt name ⟨tables.insert name table, storage⟩ ⟨others.insert name table, later⟩ :=
  ⟨by simp, hstorage⟩

theorem createTable (h : SameAt name db other) (columns : List String) :
    (other.createTable name columns).1 = (db.createTable name columns).1 ∧
      SameAt name (db.createTable name columns).2 (other.createTable name columns).2 := by
  have hmem : name ∈ other.tables ↔ name ∈ db.tables := by
    rw [Std.ExtTreeMap.mem_iff_isSome_getElem?, Std.ExtTreeMap.mem_iff_isSome_getElem?, h.table]
  unfold Database.createTable
  simp only [hmem]
  by_cases hold : name ∈ db.tables
  · rw [if_pos hold, if_pos hold]
    exact ⟨rfl, h⟩
  · rw [if_neg hold, if_neg hold]
    cases htable : Table.create name columns with
    | error e => exact ⟨rfl, h⟩
    | ok table =>
      have hstore := h.storage.store (.base name) table.document
      simp only [Storage.store]
      revert hstore
      rcases db.storage.store (.base name) table.document with ⟨outcome, later⟩
      rcases other.storage.store (.base name) table.document with ⟨outcome', later'⟩
      rintro ⟨rfl, hlater⟩
      cases outcome' with
      | error e => exact ⟨rfl, h.table, hlater⟩
      | ok => exact ⟨rfl, .insert_table _ _ table hlater⟩

theorem insert (addition : Insert) (h : SameAt addition.table db other) :
    (other.insert addition).1 = (db.insert addition).1 ∧
      SameAt addition.table (db.insert addition).2 (other.insert addition).2 := by
  unfold Database.insert
  rw [h.table]
  cases htable : db.tables[addition.table]? with
  | none => exact ⟨rfl, h⟩
  | some table =>
    cases hrow : table.buildRow addition.columns addition.values with
    | error e => simpa only [hrow, true_and] using h
    | ok row =>
      have hstore := h.storage.store (.base table.name) (table.push row).document
      simp only [hrow, Storage.store]
      revert hstore
      rcases db.storage.store (.base table.name) (table.push row).document with ⟨outcome, later⟩
      rcases other.storage.store (.base table.name) (table.push row).document with
        ⟨outcome', later'⟩
      rintro ⟨rfl, hlater⟩
      cases outcome' with
      | error e => exact ⟨rfl, .insert_table _ _ _ hlater⟩
      | ok => exact ⟨rfl, .insert_table _ _ _ hlater⟩

theorem execute (statement : Statement) (h : SameAt statement.subject db other) :
    (other.execute statement).1 = (db.execute statement).1 ∧
      SameAt statement.subject (db.execute statement).2 (other.execute statement).2 := by
  cases statement with
  | select query =>
    have hrun : query.run other.tables = query.run db.tables := by
      have htable : other.tables[query.table]? = db.tables[query.table]? := h.table
      unfold Select.run
      rw [htable]
    simp only [Database.execute, hrun]
    cases query.run db.tables with
    | error e => exact ⟨rfl, h⟩
    | ok answer => exact ⟨rfl, h⟩
  | insert addition =>
    have hinsert := SameAt.insert addition h
    simp only [Database.execute]
    revert hinsert
    rcases db.insert addition with ⟨outcome, later⟩
    rcases other.insert addition with ⟨outcome', later'⟩
    rintro ⟨rfl, hlater⟩
    cases outcome' with
    | error e => exact ⟨rfl, hlater⟩
    | ok => exact ⟨rfl, hlater⟩

theorem scatter (h : SameAt name db other)
    (cut : Table → Except ExecutionError (List Fragment)) :
    (other.scatter name cut).1 = (db.scatter name cut).1 ∧
      SameAt name (db.scatter name cut).2 (other.scatter name cut).2 := by
  unfold Database.scatter
  rw [h.table]
  cases htable : db.tables[name]? with
  | none => exact ⟨rfl, h⟩
  | some table =>
    cases hcut : cut table with
    | error e => simpa only [hcut, true_and] using h
    | ok fragments =>
      have hstore := h.storage.storeFragments fragments
      simp only [hcut]
      revert hstore
      rcases Database.storeFragments db.storage fragments with ⟨outcome, later⟩
      rcases Database.storeFragments other.storage fragments with ⟨outcome', later'⟩
      rintro ⟨rfl, hlater⟩
      cases outcome' with
      | error e => exact ⟨rfl, h.table, hlater⟩
      | ok => exact ⟨rfl, h.table, hlater⟩

theorem yielding {α : Type} {first second : Except DatabaseError α × Database MemoryStore}
    (h : second.1 = first.1 ∧ SameAt name first.2 second.2) (yield : α → Operation.Yield) :
    (Operation.yielding yield second).1 = (Operation.yielding yield first).1 ∧
      SameAt name (Operation.yielding yield first).2 (Operation.yielding yield second).2 :=
  ⟨congrArg (Except.map yield) h.1, h.2⟩

/-- **What an operation comes to, and what it leaves at its table, is decided
by what is at its table.** -/
theorem run {operation : Operation} (h : SameAt name db other)
    (hop : operation.subject? = some name) :
    (operation.run other).1 = (operation.run db).1 ∧
      SameAt name (operation.run db).2 (operation.run other).2 := by
  cases operation with
  | executeText text =>
    unfold Operation.run
    refine yielding ?_ _
    unfold Database.executeText
    cases hparse : Statement.parse text with
    | error e => exact ⟨rfl, h⟩
    | ok statement =>
      obtain rfl : statement.subject = name := by
        simpa [Operation.subject?, hparse, Except.toOption] using hop
      exact SameAt.execute statement h
  | execute statement =>
    cases hop
    exact yielding (SameAt.execute statement h) _
  | createTable _ columns =>
    cases hop
    exact yielding (h.createTable columns) _
  | scaleHorizontally | scaleVertically =>
    cases hop
    exact yielding (h.scatter _) _
  | loadTables => cases hop

end SameAt

end Database

/-! ## An operation leaves the other tables alone -/

variable {name : String} {db later : Database MemoryStore}

/-- An attempt to store a table changes nothing at another name. -/
theorem Attempt.sameAt {target : String} {table : Table} {outcome : Except StorageError Unit}
    (h : Attempt db target table outcome later) (htable : table.name = target)
    (hne : target ≠ name) : SameAt name db later := by
  have hkey : (DocumentKey.base table.name).table ≠ name := htable ▸ hne
  have hstored := MemoryStore.sameAt_store hkey db.storage table.document
  cases h with
  | refused hstore =>
    have heq : db.storage.store (.base table.name) table.document = _ := hstore
    rw [heq] at hstored
    exact ⟨rfl, hstored⟩
  | done hstore =>
    have heq : db.storage.store (.base table.name) table.document = _ := hstore
    rw [heq] at hstored
    refine ⟨?_, hstored⟩
    rw [Std.ExtTreeMap.getElem?_insert, if_neg]
    exact fun hcompare => hne (Std.LawfulEqCmp.eq_of_compare hcompare)

/-- **An operation changes nothing at another name than its own.** -/
theorem Operation.Effect.sameAt {operation : Operation} {target : String}
    {outcome : Except DatabaseError Operation.Yield} (h : Effect db operation outcome later)
    (hdb : db.tables.WellFormed) (hop : operation.subject? = some target) (hne : target ≠ name) :
    SameAt name db later := by
  cases h with
  | refused => exact .refl _ _
  | selected => exact .refl _ _
  | created _ htable hatt =>
    cases hop
    obtain ⟨-, rfl⟩ := Table.create_eq_ok_iff.1 htable
    exact hatt.sameAt rfl hne
  | @inserted _ addition _ _ _ _ hstatement htable hrow hatt =>
    obtain rfl : addition.table = target :=
      Option.some.inj ((subject?_of_statement hstatement).symm.trans hop)
    exact hatt.sameAt (hdb.push htable hrow).1 hne
  | cut hcuts htable hcut =>
    cases (subject?_of_cut hcuts).symm.trans hop
    refine ⟨rfl, MemoryStore.sameAt_storeFragments (fun fragment hmem => ?_) _⟩
    rw [table_of_mem_cut hcuts hcut fragment hmem, (hdb _ _ htable).1]
    exact hne
  | loaded => cases hop

/-- The same of what is carried out. -/
theorem Operation.sameAt_run {operation : Operation} {target : String}
    (hdb : db.tables.WellFormed) (hop : operation.subject? = some target) (hne : target ≠ name) :
    SameAt name db (operation.run db).2 :=
  (operation.effect_run db).sameAt hdb hop hne

namespace Database

/-- **Operations on different tables are independent.** Carried out in either
order, each comes to the same, and the same tables and documents are left;
and the first one leaves every table but its own, and every document under
another name, as they were. -/
theorem independent_of_subjects {db : Database MemoryStore} (h : db.Reachable)
    {first second : Operation} {t u : String} (hfirst : first.subject? = some t)
    (hsecond : second.subject? = some u) (hne : t ≠ u) :
    (first.run (second.run db).2).1 = (first.run db).1 ∧
      (second.run (first.run db).2).1 = (second.run db).1 ∧
      (second.run (first.run db).2).2 = (first.run (second.run db).2).2 ∧
      (∀ name, name ≠ t → (first.run db).2.tables[name]? = db.tables[name]?) ∧
      ∀ key : DocumentKey, key.table ≠ t →
        (first.run db).2.storage.documents[key]? = db.storage.documents[key]? := by
  have hwf := h.wellFormed
  have hwf_first := first.wellFormed_run hwf
  have hwf_second := second.wellFormed_run hwf
  have hother := hne.symm
  obtain ⟨hfirst_out, hat⟩ := (Operation.sameAt_run hwf hsecond hother).run hfirst
  obtain ⟨hsecond_out, hau⟩ := (Operation.sameAt_run hwf hfirst hne).run hsecond
  refine ⟨hfirst_out, hsecond_out, eq_of_sameAt fun name => ?_, fun name hname => ?_,
    fun key hkey => ?_⟩
  · -- At either table the operation about the other one is not seen, elsewhere neither is.
    by_cases hn : t = name
    · subst hn
      exact hat.symm.trans (Operation.sameAt_run hwf_first hsecond hother)
    · by_cases hn' : u = name
      · subst hn'
        exact (Operation.sameAt_run hwf_second hfirst hne).symm.trans hau
      · have hleft := (Operation.sameAt_run hwf hfirst hn).trans
          (Operation.sameAt_run hwf_first hsecond hn')
        have hright := (Operation.sameAt_run hwf hsecond hn').trans
          (Operation.sameAt_run hwf_second hfirst hn)
        exact hright.symm.trans hleft
  · exact (Operation.sameAt_run hwf hfirst hname.symm).table
  · exact (Operation.sameAt_run hwf hfirst (Ne.symm hkey)).storage.documents key rfl

/-- A row is added to one table, and another table of two rows is cut. -/
theorem independent_of_subjects_insert_and_cut :
    let db : Database MemoryStore :=
      (Event.runAll [.ask (.createTable "t" ["x"]), .ask (.createTable "u" ["y"]),
        .ask (.execute (.insert ⟨"u", ["y"], [.text "1"]⟩)),
        .ask (.execute (.insert ⟨"u", ["y"], [.null]⟩))] (.empty {})).2
    let insertion : Operation := .execute (.insert ⟨"t", ["x"], [.text "2"]⟩)
    let cut : Operation := .scaleHorizontally "u" 1
    (insertion.run (cut.run db).2).1 = .ok (.answer (.inserted "t")) ∧
      (cut.run (insertion.run db).2).2 = (insertion.run (cut.run db).2).2 ∧
      (insertion.run db).2.tables["u"]? = db.tables["u"]? := by
  intro db insertion cut
  have hreachable : db.Reachable := Reachable.runAll (.empty _) _
  have hinsertion : insertion.subject? = some "t" := rfl
  have hcut : cut.subject? = some "u" := rfl
  obtain ⟨hout, -, hlater, htables, -⟩ :=
    independent_of_subjects hreachable hinsertion hcut (by decide)
  exact ⟨hout.trans rfl, hlater, htables "u" (by decide)⟩

end Database

end ShardStore

import ShardStore.Proofs.Database.Effect
/-!
# Databases — every loaded table is well formed

Rows enter a table by three routes: a document, the rows of which are
projected; an insertion, which fills the row with null; and a new table,
which has none. Each leaves the table well formed, so the tables of a
reachable database all are, whatever its storage holds or comes to hold. A
load that breaks off keeps the tables it had loaded by then, and those were
each checked on their own.
-/

namespace ShardStore

/-- Each table is loaded under its own name and is well formed. -/
def Tables.WellFormed (tables : Tables) : Prop :=
  ∀ (name : String) (table : Table), tables[name]? = some table →
    table.name = name ∧ table.WellFormed

namespace Tables

theorem wellFormed_empty : WellFormed ∅ := by
  intro name table h
  simp at h

/-- **One more well-formed table keeps them so.** -/
theorem WellFormed.insert {tables : Tables} {name : String} {table : Table}
    (h : tables.WellFormed) (hname : table.name = name) (htable : table.WellFormed) :
    WellFormed (Std.ExtTreeMap.insert tables name table) := by
  intro other found hfound
  rw [Std.ExtTreeMap.getElem?_insert] at hfound
  split at hfound
  · next heq =>
    cases hfound
    exact ⟨hname.trans (Std.LawfulEqCmp.eq_of_compare heq), htable⟩
  · exact h other found hfound

/-- A table with a row that was built for it has its name still, and is well
formed. -/
theorem WellFormed.push {tables : Tables} (h : tables.WellFormed) {addition : Insert}
    {table : Table} {row : Row} (htable : tables[addition.table]? = some table)
    (hrow : table.buildRow addition.columns addition.values = .ok row) :
    (table.push row).name = addition.table ∧ (table.push row).WellFormed := by
  obtain ⟨hname, hwf⟩ := h _ _ htable
  exact ⟨hname, hwf.push hrow⟩

end Tables

variable {σ : Type} [Storage σ]

/-- What an attempt does to the tables keeps them well formed. -/
theorem Attempt.wellFormed {db later : Database σ} {name : String} {table : Table}
    {outcome : Except StorageError Unit} (h : Attempt db name table outcome later)
    (hdb : db.tables.WellFormed) (hname : table.name = name) (htable : table.WellFormed) :
    later.tables.WellFormed := by
  cases h with
  | refused => exact hdb
  | done => exact hdb.insert hname htable

namespace Database

/-- **Loading keeps the tables well formed, also where it breaks off.** -/
theorem wellFormed_loadNamed (names : List String) {db : Database σ}
    (h : db.tables.WellFormed) : (db.loadNamed names).2.tables.WellFormed := by
  induction names generalizing db with
  | nil => exact h
  | cons name names ih =>
    unfold loadNamed
    split
    · exact h
    · exact ih h
    · split
      · exact h
      · next table htable =>
        exact ih (h.insert (Table.name_of_ofDocument htable)
          (Table.wellFormed_of_ofDocument htable))

theorem wellFormed_loadTables {db : Database σ} (h : db.tables.WellFormed) :
    db.loadTables.2.tables.WellFormed := by
  unfold loadTables
  split
  · exact h
  · exact wellFormed_loadNamed _ h

/-- The tables of a loaded database are well formed. -/
theorem wellFormed_of_load {storage : σ} {db : Database σ} (h : load storage = .ok db) :
    db.tables.WellFormed := by
  have hloaded : (empty storage).loadTables.2.tables.WellFormed :=
    wellFormed_loadTables Tables.wellFormed_empty
  unfold load at h
  split at h
  · next heq => cases h; rwa [heq] at hloaded
  · cases h

end Database

/-- **No operation lets an ill-formed table in.** -/
theorem Operation.wellFormed_run (operation : Operation) {db : Database σ}
    (h : db.tables.WellFormed) : (operation.run db).2.tables.WellFormed := by
  have heffect := operation.effect_run db
  generalize (operation.run db).1 = outcome, (operation.run db).2 = later at heffect
  cases heffect with
  | refused => exact h
  | selected => exact h
  | created _ htable hatt =>
    refine hatt.wellFormed h ?_ (Table.wellFormed_of_create htable)
    obtain ⟨-, rfl⟩ := Table.create_eq_ok_iff.1 htable
    rfl
  | inserted _ htable hrow hatt =>
    obtain ⟨hname, hwf⟩ := h.push htable hrow
    exact hatt.wellFormed h hname hwf
  | cut => exact h
  | loaded => exact Database.wellFormed_loadTables h

/-- Nor does a change of the storage, which the tables do not see. -/
theorem Event.wellFormed_run (event : Event σ) {db : Database σ} (h : db.tables.WellFormed) :
    (event.run db).2.tables.WellFormed := by
  cases event with
  | ask operation => exact operation.wellFormed_run h
  | change become => exact h

namespace Database

/-- The invariant of every reachable database. -/
theorem Reachable.wellFormed {db : Database σ} (h : db.Reachable) : db.tables.WellFormed := by
  induction h with
  | empty => exact Tables.wellFormed_empty
  | loaded h => exact wellFormed_of_load h
  | event event _ ih => exact event.wellFormed_run ih

theorem Reachable.runAll {db : Database σ} (h : db.Reachable) (events : List (Event σ)) :
    (Event.runAll events db).2.Reachable := by
  induction events generalizing db with
  | nil => exact h
  | cons event events ih => exact ih (.event event h)

/-- **Reachable tables are well formed**, over any storage and whatever is
put there meanwhile: a table is loaded under its own name, which is an
identifier; its columns are distinct identifiers; and each of its rows has a
cell in exactly these columns. -/
theorem tables_shape_of_reachable {db : Database σ} (h : db.Reachable) {name : String}
    {table : Table} (htable : db.tables[name]? = some table) :
    table.name = name ∧ Text.isIdentifier name = true ∧
      (∀ c ∈ table.columns, Text.isIdentifier c = true) ∧ table.columns.Nodup ∧
      ∀ row ∈ table.rows, ∀ c, c ∈ row ↔ c ∈ table.columns := by
  obtain ⟨hname, hwf⟩ := h.wellFormed name table htable
  exact ⟨hname, hname ▸ hwf.name, hwf.columns, hwf.distinct, hwf.rows⟩

/-- A legacy document with a stray cell and an empty row is loaded; then a
document with a repeated column is put there by hand, and the next load
breaks off at it. -/
theorem tables_shape_of_interrupted_load :
    let legacy : Document :=
      ⟨["x"], [Row.ofPairs [("x", .text "1"), ("z", .text "2")], Row.ofPairs []]⟩
    let put (memory : MemoryStore) : MemoryStore := (memory.store (.base "b") ⟨["y", "y"], []⟩).2
    let db : Database MemoryStore :=
      (Event.runAll [.ask .loadTables, .change put, .ask .loadTables]
        (.empty (MemoryStore.store {} (.base "a") legacy).2)).2
    db.loadTables.1 = .error (.execution (.repeatedColumn "y")) ∧
      ∃ table, db.tables["a"]? = some table ∧ table.rows.length = 2 ∧
        ∀ row ∈ table.rows, ∀ c, c ∈ row ↔ c ∈ table.columns := by
  intro legacy put db
  have hreachable : db.Reachable := (Reachable.empty _).runAll _
  have htable : db.tables["a"]? = some ⟨"a", ["x"], legacy.rows.map (·.project ["x"])⟩ := rfl
  exact ⟨rfl, _, htable, rfl, (tables_shape_of_reachable hreachable htable).2.2.2.2⟩

end Database

end ShardStore

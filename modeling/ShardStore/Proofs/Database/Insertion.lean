import ShardStore.Proofs.Database.WellFormed
import ShardStore.Proofs.Storage.Memory
import ShardStore.Proofs.Table.Filled
/-!
# Databases — what an insertion comes to

Over a storage in memory an insertion comes to one thing (`Insert.Yields`):
it fails for the table, for one fault of its values, or for the writes that
are off, in this order, and changes nothing; or one row is added and the
longer table is stored. The row has each value in its own column, wherever
the pair of the two stands, so pairs can be given in any order
(`Insert.Yields.perm`).
-/

namespace ShardStore

variable {db later : Database MemoryStore} {addition : Insert}
  {outcome : Except ExecutionError Unit}

namespace Table

/-- Values are taken in any order, each with its column. -/
theorem Takes.perm {table : Table} {columns : List String} {values : List Cell}
    (h : table.Takes columns values) {pairs : List (String × Cell)}
    (hperm : pairs.Perm (columns.zip values)) :
    table.Takes (pairs.map Prod.fst) (pairs.map Prod.snd) := by
  have hcolumns : (pairs.map Prod.fst).Perm columns := by
    have hfirst := hperm.map Prod.fst
    rwa [List.map_fst_zip (Nat.le_of_eq h.count)] at hfirst
  exact ⟨by simp, hcolumns.nodup_iff.2 h.distinct, fun c hc => h.declared c (hcolumns.mem_iff.1 hc)⟩

end Table

namespace Insert

/-- **What an insertion comes to over a storage in memory**, and the database
after it. It fails if the table is not loaded, else for a fault of its
values, else if writes are off; otherwise one row is added that has each
value in its own column and null in the others, and the base document is the
longer table. -/
inductive Yields (addition : Insert) (db : Database MemoryStore) :
    Except ExecutionError Unit → Database MemoryStore → Prop
  | unknownTable (h : addition.table ∉ db.tables) :
      Yields addition db (.error (.unknownTable addition.table)) db
  | fault {table : Table} {e : ExecutionError} (htable : db.tables[addition.table]? = some table)
      (he : table.ValuesFault addition.columns addition.values e) : Yields addition db (.error e) db
  | refused {table : Table} (htable : db.tables[addition.table]? = some table)
      (htakes : table.Takes addition.columns addition.values)
      (hwrites : db.storage.failWrites = true) :
      Yields addition db (.error (.storage .writesDisabled)) db
  | added {table : Table} {row : Row} (htable : db.tables[addition.table]? = some table)
      (htakes : table.Takes addition.columns addition.values)
      (hwrites : db.storage.failWrites = false)
      (hrow : row.Fills table.columns
        fun c cell => (c, cell) ∈ addition.columns.zip addition.values) :
      Yields addition db (.ok ()) ⟨db.tables.insert addition.table (table.push row),
        { db.storage with documents :=
            db.storage.documents.insert (.base addition.table) (table.push row).document }⟩

/-- The pairs of an insertion that succeeds can be given in any order. -/
theorem Yields.perm (h : addition.Yields db (.ok ()) later) {pairs : List (String × Cell)}
    (hperm : pairs.Perm (addition.columns.zip addition.values)) :
    Yields ⟨addition.table, pairs.map Prod.fst, pairs.map Prod.snd⟩ db (.ok ()) later := by
  cases h with
  | added htable htakes hwrites hrow =>
    refine .added htable (htakes.perm hperm) hwrites ?_
    have hsame : pairs = (pairs.map Prod.fst).zip (pairs.map Prod.snd) := List.zip_of_prod rfl rfl
    simpa only [← hsame, hperm.mem_iff] using hrow

end Insert

namespace Database

/-- Every insertion comes to one of these. -/
theorem yields_insert (h : db.tables.WellFormed) (addition : Insert) :
    addition.Yields db (db.insert addition).1 (db.insert addition).2 := by
  unfold insert
  split
  · next hnone =>
    refine .unknownTable fun hmem => ?_
    rw [Std.ExtTreeMap.mem_iff_isSome_getElem?, hnone] at hmem
    cases hmem
  · next table htable =>
    obtain ⟨hname, -⟩ := h _ _ htable
    split
    · next e he => exact .fault htable (Table.buildRow_eq_error_iff.1 he)
    · next row hrow =>
      obtain ⟨htakes, hfills⟩ := Table.buildRow_eq_ok_iff_fills.1 hrow
      rw [hname]
      cases hwrites : db.storage.failWrites with
      | true =>
        have hback : db.tables.insert addition.table table = db.tables :=
          Tables.insert_eq_self htable
        simp only [Storage.store, MemoryStore.store, hwrites, if_true, Table.pop_push, hback]
        exact .refused htable htakes hwrites
      | false =>
        simp only [Storage.store, MemoryStore.store_of_writes hwrites]
        exact .added htable htakes hwrites hfills

/-- And to nothing else. -/
theorem insert_of_yields (h : db.tables.WellFormed) (hyields : addition.Yields db outcome later) :
    db.insert addition = (outcome, later) := by
  cases hyields with
  | unknownTable hout => simp [insert, Std.ExtTreeMap.getElem?_eq_none hout]
  | fault htable he => simp only [insert, htable, Table.buildRow_eq_error_iff.2 he]
  | @refused table htable htakes hwrites =>
    obtain ⟨row, hrow⟩ : ∃ row, table.buildRow addition.columns addition.values = .ok row :=
      ⟨_, Table.buildRow_eq_ok_iff.2 ⟨⟨htakes.count, htakes.distinct, htakes.declared⟩, rfl⟩⟩
    simp only [insert, htable, hrow, Storage.store, MemoryStore.store, hwrites, if_true,
      Table.pop_push, Tables.insert_eq_self htable]
  | added htable htakes hwrites hrow =>
    obtain ⟨hname, -⟩ := h _ _ htable
    simp only [insert, htable, Table.buildRow_eq_ok_iff_fills.2 ⟨htakes, hrow⟩, hname,
      Storage.store, MemoryStore.store_of_writes hwrites]

theorem insert_eq_iff_yields (h : db.tables.WellFormed) :
    db.insert addition = (outcome, later) ↔ addition.Yields db outcome later := by
  refine ⟨fun heq => ?_, insert_of_yields h⟩
  have hyields := yields_insert h addition
  rwa [heq] at hyields

/-- **An insertion adds its row or names its first fault.** What it comes to
over a storage in memory is settled by the checks in their order; where it
succeeds, the base document of the table is the whole table with the new
row; and the pairs of columns and values can then be given in any order, with
the same outcome and the same database after it. -/
theorem adds_row_or_names_first_fault (h : db.Reachable) (addition : Insert) :
    (∀ outcome later, db.insert addition = (outcome, later) ↔
      addition.Yields db outcome later) ∧
    (∀ later, db.insert addition = (.ok (), later) →
      ∃ table, later.tables[addition.table]? = some table ∧
        Storage.load later.storage (.base addition.table) = .ok (some table.document)) ∧
    ∀ later (pairs : List (String × Cell)), db.insert addition = (.ok (), later) →
      pairs.Perm (addition.columns.zip addition.values) →
        db.insert ⟨addition.table, pairs.map Prod.fst, pairs.map Prod.snd⟩ = (.ok (), later) := by
  have hiff : ∀ addition outcome later, db.insert addition = (outcome, later) ↔
      addition.Yields db outcome later := fun _ _ _ => insert_eq_iff_yields h.wellFormed
  refine ⟨hiff addition, fun later heq => ?_, fun later pairs heq hperm => ?_⟩
  · cases (hiff _ _ _).1 heq with
    | @added table row =>
      exact ⟨table.push row, by simp, by simp [Storage.load, MemoryStore.load]⟩
  · exact (hiff _ _ _).2 (((hiff _ _ _).1 heq).perm hperm)

/-- Of three columns two are given, in either order. Of the faults of another
insertion the repeated column is named, though it stands behind one that is
not declared and writes are off; a good one then fails for these. -/
theorem adds_row_or_names_first_fault_two_orders :
    let db : Database MemoryStore :=
      (Event.run (.ask (.createTable "t" ["x", "y", "z"])) (.empty {})).2
    let silent : Database MemoryStore := (Event.run (Event.switchWrites true) db).2
    let row : Row := Row.ofPairs [("x", .null), ("y", .null), ("z", .text "1")]
    (db.insert ⟨"t", ["z", "x"], [.text "1", .null]⟩).1 = .ok () ∧
      (db.insert ⟨"t", ["z", "x"], [.text "1", .null]⟩).2.tables["t"]? =
        some ⟨"t", ["x", "y", "z"], [row]⟩ ∧
      db.insert ⟨"t", ["x", "z"], [.null, .text "1"]⟩ =
        db.insert ⟨"t", ["z", "x"], [.text "1", .null]⟩ ∧
      silent.insert ⟨"t", ["w", "x", "y", "x"], [.null, .null, .null, .null]⟩ =
        (.error (.repeatedColumn "x"), silent) ∧
      silent.insert ⟨"t", ["z", "x"], [.text "1", .null]⟩ =
        (.error (.storage .writesDisabled), silent) := by
  intro db silent row
  have hdb : db.Reachable := (Reachable.empty _).event _
  have hsilent : silent.Reachable := hdb.event _
  have hdone : db.insert ⟨"t", ["z", "x"], [.text "1", .null]⟩ = (.ok (),
      (db.insert ⟨"t", ["z", "x"], [.text "1", .null]⟩).2) := rfl
  have hcolumns : silent.tables["t"]? = some ⟨"t", ["x", "y", "z"], []⟩ := rfl
  refine ⟨rfl, rfl, ?_, ?_, ?_⟩
  · have horder := (adds_row_or_names_first_fault hdb _).2.2 _
      [("x", .null), ("z", .text "1")] hdone (by decide)
    exact horder.trans hdone.symm
  · refine ((adds_row_or_names_first_fault hsilent _).1 _ _).2 (.fault hcolumns ?_)
    exact .repeated rfl ⟨["w", "x", "y"], [], rfl, by decide, by decide⟩
  · refine ((adds_row_or_names_first_fault hsilent _).1 _ _).2 (.refused hcolumns ?_ rfl)
    exact ⟨rfl, by decide, by decide⟩

end Database

end ShardStore

import ShardStore.Table
/-!
# Tables — what the checks accept, and what they leave well formed

A table comes from `Table.create`, from `Table.ofDocument`, or from a table
and a row of `Table.buildRow`. Each of the three is described once by the
condition under which it succeeds, and each result is `WellFormed`. A
well-formed table is read back from its own document (`ofDocument_document`),
which is what makes a stored table and a loaded one the same thing.
-/

namespace ShardStore

open Text

/-! ## Rows -/

namespace Row

/-- A projection holds exactly its columns. -/
@[simp] theorem mem_project {row : Row} {columns : List String} {c : String} :
    c ∈ row.project columns ↔ c ∈ columns := by
  rw [Std.ExtTreeMap.mem_iff_isSome_getElem?, getElem?_project]
  by_cases h : c ∈ columns <;> simp [h]

/-- **A row is its own projection** onto the columns it holds. -/
theorem project_eq_self {row : Row} {columns : List String}
    (h : ∀ c, c ∈ row ↔ c ∈ columns) : row.project columns = row := by
  refine Std.ExtTreeMap.ext_getElem? fun c => ?_
  rw [getElem?_project]
  by_cases hc : c ∈ row
  · rw [if_pos ((h c).1 hc), Std.ExtTreeMap.getElem?_eq_some_getD hc]
  · rw [if_neg fun hm => hc ((h c).2 hm), Std.ExtTreeMap.getElem?_eq_none hc]

theorem getElem?_foldl_insert {pairs : List (String × Cell)} (h : (pairs.map Prod.fst).Nodup)
    (row : Row) (c : String) :
    (pairs.foldl (fun row pair => row.insert pair.1 pair.2) row)[c]? =
      (pairs.lookup c).or row[c]? := by
  induction pairs generalizing row with
  | nil => simp
  | cons pair pairs ih =>
    obtain ⟨column, cell⟩ := pair
    obtain ⟨hout, hrest⟩ := List.nodup_cons.mp h
    rw [List.foldl_cons, ih hrest, Std.ExtTreeMap.getElem?_insert, List.lookup_cons]
    by_cases hc : c = column
    · -- The column comes once, so none of the pairs after it can hide this one.
      have hnone : pairs.lookup c = none := by
        rw [List.lookup_eq_none_iff]
        intro other hother
        have hne : other.1 ≠ column := by
          rintro rfl
          exact hout (List.mem_map.mpr ⟨other, hother, rfl⟩)
        simpa [hc] using hne.symm
      rw [hnone]
      simp [hc]
    · have hc' : (c == column) = false := by simpa using hc
      simp [hc', Ne.symm hc]

/-- In pairs without a repeated column, the last pair of a column is the
first. -/
theorem getElem?_ofPairs {pairs : List (String × Cell)} (h : (pairs.map Prod.fst).Nodup)
    (c : String) : (ofPairs pairs)[c]? = pairs.lookup c := by
  rw [ofPairs, getElem?_foldl_insert h]
  simp

/-- Each of these pairs is the one that is found for its column. -/
theorem lookup_eq_some_of_mem {pairs : List (String × Cell)} (h : (pairs.map Prod.fst).Nodup)
    {c : String} {cell : Cell} (hpair : (c, cell) ∈ pairs) : pairs.lookup c = some cell := by
  obtain ⟨before, after, hsplit⟩ := List.append_of_mem hpair
  rw [List.lookup_eq_some_iff]
  refine ⟨before, after, hsplit, fun pair hbefore => ?_⟩
  -- The column stands once among the keys, so not before its own pair.
  rw [hsplit, List.map_append, List.map_cons] at h
  rw [bne_iff_ne]
  rintro rfl
  exact (List.nodup_append.1 h).2.2 _ (List.mem_map_of_mem hbefore) _ List.mem_cons_self rfl

/-- A row is the row of its own pairs, in whatever order they stand. -/
theorem ofPairs_of_perm {pairs : List (String × Cell)} {row : Row} (h : pairs.Perm row.toList) :
    ofPairs pairs = row := by
  have hkeys : (pairs.map Prod.fst).Nodup := by
    rw [(h.map Prod.fst).nodup_iff, Std.ExtTreeMap.map_fst_toList_eq_keys]
    exact Std.ExtTreeMap.nodup_keys
  refine Std.ExtTreeMap.ext_getElem? fun c => ?_
  rw [getElem?_ofPairs hkeys]
  cases hc : row[c]? with
  | none =>
    rw [List.lookup_eq_none_iff]
    intro pair hpair
    have hsome := Std.ExtTreeMap.mem_toList_iff_getElem?_eq_some.1 (h.mem_iff.1 hpair)
    rw [bne_iff_ne]
    rintro rfl
    simp [hc] at hsome
  | some cell =>
    have hpair := Std.ExtTreeMap.mem_toList_iff_getElem?_eq_some.2 hc
    exact lookup_eq_some_of_mem hkeys (h.mem_iff.2 hpair)

end Row

/-! ## The checks of a column list -/

theorem firstRepeated?_eq_none_iff {seen columns : List String} :
    firstRepeated? seen columns = none ↔ columns.Nodup ∧ ∀ c ∈ columns, c ∉ seen := by
  induction columns generalizing seen with
  | nil => simp [firstRepeated?]
  | cons c cs ih =>
    by_cases h : c ∈ seen
    · simp [firstRepeated?, h]
    · rw [firstRepeated?, if_neg h, ih, List.nodup_cons]
      constructor
      · rintro ⟨hd, hs⟩
        refine ⟨⟨fun hc => hs c hc List.mem_cons_self, hd⟩, ?_⟩
        rintro x (_ | ⟨_, hx⟩)
        · exact h
        · exact fun hxs => hs x hx (List.mem_cons_of_mem _ hxs)
      · rintro ⟨⟨hc, hd⟩, hs⟩
        refine ⟨hd, fun x hx hxs => ?_⟩
        rcases List.mem_cons.mp hxs with rfl | hxs
        · exact hc hx
        · exact hs x (List.mem_cons_of_mem _ hx) hxs

/-- Only a list with a repeated name is refused as one. -/
theorem checkDistinct_eq_ok_iff {columns : List String} :
    checkDistinct columns = .ok () ↔ columns.Nodup := by
  have hnone : firstRepeated? [] columns = none ↔ _ := firstRepeated?_eq_none_iff
  unfold checkDistinct
  split
  · next c hc => rw [hc] at hnone; simpa using hnone
  · next hc => rw [hc] at hnone; simpa using hnone

/-- The columns of a table are distinct identifiers. -/
theorem checkColumnNames_eq_ok_iff {columns : List String} :
    checkColumnNames columns = .ok () ↔
      (∀ c ∈ columns, isIdentifier c = true) ∧ columns.Nodup := by
  unfold checkColumnNames
  split
  · next c hc =>
    have hbad := List.find?_some hc
    refine iff_of_false (by simp) fun h => ?_
    simp [h.1 c (List.mem_of_find?_eq_some hc)] at hbad
  · next hc =>
    rw [checkDistinct_eq_ok_iff]
    have hall : ∀ c ∈ columns, isIdentifier c = true := by simpa using hc
    exact ⟨fun h => ⟨hall, h⟩, And.right⟩

namespace Table

variable {table : Table} {name : String} {columns : List String}

@[simp] theorem hasColumn_iff {c : String} : table.hasColumn c = true ↔ c ∈ table.columns := by
  simp [hasColumn]

theorem checkDeclared_eq_ok_iff :
    table.checkDeclared columns = .ok () ↔ ∀ c ∈ columns, c ∈ table.columns := by
  unfold checkDeclared
  split
  · next c hc =>
    have hbad : c ∉ table.columns := by simpa [hasColumn] using List.find?_some hc
    exact iff_of_false (by simp) fun h => hbad (h c (List.mem_of_find?_eq_some hc))
  · next hc => simpa using hc

/-- **The first column that is not declared is named.** -/
theorem checkDeclared_eq_error_iff {e : ExecutionError} : table.checkDeclared columns = .error e ↔
    ∃ before c after, columns = before ++ c :: after ∧ (∀ d ∈ before, d ∈ table.columns) ∧
      c ∉ table.columns ∧ e = .unknownColumn table.name c := by
  unfold checkDeclared
  constructor
  · intro h
    split at h
    · next c hc =>
      cases h
      obtain ⟨hbad, before, after, hsplit, hbefore⟩ := List.find?_eq_some_iff_append.mp hc
      exact ⟨before, c, after, hsplit, by simpa using hbefore, by simpa [hasColumn] using hbad, rfl⟩
    · cases h
  · rintro ⟨before, c, after, rfl, hbefore, hbad, rfl⟩
    have hfirst : (before ++ c :: after).find? (! table.hasColumn ·) = some c := by
      rw [List.find?_eq_some_iff_append]
      exact ⟨by simpa [hasColumn] using hbad, before, after, rfl, by simpa using hbefore⟩
    rw [hfirst]

/-! ## What is built -/

/-- **A new table has an identifier for a name and distinct identifiers for
columns, and no rows.** -/
theorem create_eq_ok_iff : create name columns = .ok table ↔
    (isIdentifier name = true ∧ (∀ c ∈ columns, isIdentifier c = true) ∧ columns.Nodup) ∧
      table = ⟨name, columns, []⟩ := by
  unfold create
  by_cases hn : isIdentifier name = true
  · rw [if_pos hn]
    split
    · next hc =>
      rw [Except.ok.injEq, eq_comm]
      exact ⟨fun h => ⟨⟨hn, checkColumnNames_eq_ok_iff.1 hc⟩, h⟩, And.right⟩
    · next e hc =>
      refine iff_of_false (by simp) fun h => ?_
      rw [checkColumnNames_eq_ok_iff.2 h.1.2] at hc
      cases hc
  · simp [hn]

/-- **The table of a document** has its columns, and its rows on them. -/
theorem ofDocument_eq_ok_iff {document : Document} : ofDocument name document = .ok table ↔
    (isIdentifier name = true ∧ (∀ c ∈ document.columns, isIdentifier c = true) ∧
        document.columns.Nodup) ∧
      table = ⟨name, document.columns, document.rows.map (·.project document.columns)⟩ := by
  unfold ofDocument
  split
  · next hc =>
    obtain ⟨hok, rfl⟩ := create_eq_ok_iff.1 hc
    rw [Except.ok.injEq, eq_comm]
    exact ⟨fun h => ⟨hok, h⟩, And.right⟩
  · next e hc =>
    refine iff_of_false (by simp) fun h => ?_
    rw [create_eq_ok_iff.2 ⟨h.1, rfl⟩] at hc
    cases hc

/-- **A row is built from as many values as columns, all distinct and
declared.** It has null in the other declared columns. -/
theorem buildRow_eq_ok_iff {values : List Cell} {row : Row} :
    table.buildRow columns values = .ok row ↔
      (columns.length = values.length ∧ columns.Nodup ∧ ∀ c ∈ columns, c ∈ table.columns) ∧
        row = (Row.ofPairs (columns.zip values)).project table.columns := by
  unfold buildRow
  by_cases hl : columns.length = values.length
  · rw [if_neg (not_not_intro hl)]
    split
    · next e hd =>
      refine iff_of_false (by simp) fun h => ?_
      rw [checkDistinct_eq_ok_iff.2 h.1.2.1] at hd
      cases hd
    · next hd =>
      split
      · next e hc =>
        refine iff_of_false (by simp) fun h => ?_
        rw [checkDeclared_eq_ok_iff.2 h.1.2.2] at hc
        cases hc
      · next hc =>
        rw [Except.ok.injEq, eq_comm]
        exact ⟨fun h => ⟨⟨hl, checkDistinct_eq_ok_iff.1 hd, checkDeclared_eq_ok_iff.1 hc⟩, h⟩,
          And.right⟩
  · rw [if_pos hl]
    simp [hl]

/-! ## What is well formed -/

/-- A new table is well formed. -/
theorem wellFormed_of_create (h : create name columns = .ok table) : table.WellFormed := by
  obtain ⟨⟨hn, hi, hd⟩, rfl⟩ := create_eq_ok_iff.1 h
  exact ⟨hn, hi, hd, by simp⟩

/-- **So is the table of a document, whatever its rows hold.** -/
theorem wellFormed_of_ofDocument {document : Document} (h : ofDocument name document = .ok table) :
    table.WellFormed := by
  obtain ⟨⟨hn, hi, hd⟩, rfl⟩ := ofDocument_eq_ok_iff.1 h
  refine ⟨hn, hi, hd, ?_⟩
  rintro row hrow c
  obtain ⟨source, -, rfl⟩ := List.mem_map.mp hrow
  exact Row.mem_project

/-- A row of a well-formed table has a cell in every declared column. -/
theorem WellFormed.exists_cell (h : table.WellFormed) {row : Row} (hrow : row ∈ table.rows)
    {c : String} (hc : c ∈ table.columns) : ∃ cell, row[c]? = some cell :=
  ⟨_, Std.ExtTreeMap.getElem?_eq_some_getElem ((h.rows row hrow c).2 hc)⟩

/-- **And so is a table with a row that was built for it.** -/
theorem WellFormed.push {values : List Cell} {row : Row} (h : table.WellFormed)
    (hrow : table.buildRow columns values = .ok row) : (table.push row).WellFormed := by
  obtain ⟨-, rfl⟩ := buildRow_eq_ok_iff.1 hrow
  refine ⟨h.name, h.columns, h.distinct, fun other hother c => ?_⟩
  rcases List.mem_append.mp hother with hold | hnew
  · exact h.rows other hold c
  · rw [List.mem_singleton.mp hnew]
    exact Row.mem_project

@[simp] theorem name_push {row : Row} : (table.push row).name = table.name := rfl

@[simp] theorem columns_push {row : Row} : (table.push row).columns = table.columns := rfl

@[simp] theorem rows_push {row : Row} : (table.push row).rows = table.rows ++ [row] := rfl

/-- **A well-formed table is read back from its document.** -/
theorem ofDocument_document (h : table.WellFormed) :
    ofDocument table.name table.document = .ok table := by
  refine ofDocument_eq_ok_iff.2 ⟨⟨h.name, h.columns, h.distinct⟩, ?_⟩
  have hrows : table.rows.map (·.project table.columns) = table.rows := by
    refine (List.map_congr_left fun row hrow => ?_).trans (List.map_id _)
    exact Row.project_eq_self (h.rows row hrow)
  simp only [document, hrows]

/-- A table is loaded under its own name. -/
theorem name_of_ofDocument {document : Document} (h : ofDocument name document = .ok table) :
    table.name = name := by
  obtain ⟨-, rfl⟩ := ofDocument_eq_ok_iff.1 h
  rfl

end Table

end ShardStore

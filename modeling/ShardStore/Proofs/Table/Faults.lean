import ShardStore.Proofs.Table
/-!
# Tables — the fault that is named

Where a column list has several faults, the checks name one of them: the
first column that is no identifier, or is not declared (`FirstExcept`), and
the first one that has occurred before (`FirstRepeat`). Checks that are made
one after the other name the fault of the first that fails, so what is said
of a refused schema (`Table.SchemaFault`) and of refused values
(`Table.ValuesFault`) is one cause each.
-/

namespace ShardStore

open Text

/-- The first element of a list for which something does not hold. -/
def FirstExcept {α : Type} (holds : α → Prop) (as : List α) (a : α) : Prop :=
  ∃ before after, as = before ++ a :: after ∧ (∀ b ∈ before, holds b) ∧ ¬ holds a

/-- The first element of a list that has occurred before it. -/
def FirstRepeat {α : Type} (as : List α) (a : α) : Prop :=
  ∃ before after, as = before ++ a :: after ∧ before.Nodup ∧ a ∈ before

section first

variable {α : Type} {as : List α} {a : α}

theorem FirstExcept.not_forall {holds : α → Prop} (h : FirstExcept holds as a) :
    ¬ ∀ b ∈ as, holds b := by
  obtain ⟨before, after, rfl, -, ha⟩ := h
  exact fun hall => ha (hall a (by simp))

theorem FirstRepeat.not_nodup (h : FirstRepeat as a) : ¬ as.Nodup := by
  obtain ⟨before, after, rfl, -, hmem⟩ := h
  intro hdistinct
  exact (List.nodup_append.1 hdistinct).2.2 a hmem a List.mem_cons_self rfl

end first

/-! ## The checks of a column list -/

section checks

variable {columns seen : List String} {c : String} {e : ExecutionError}

theorem find?_not_eq_some_iff {p : String → Bool} :
    columns.find? (! p ·) = some c ↔ FirstExcept (p · = true) columns c := by
  rw [List.find?_eq_some_iff_append]
  constructor
  · rintro ⟨hbad, before, after, hsplit, hbefore⟩
    exact ⟨before, after, hsplit, by simpa using hbefore, by simpa using hbad⟩
  · rintro ⟨before, after, hsplit, hbefore, hbad⟩
    exact ⟨by simpa using hbad, before, after, hsplit, by simpa using hbefore⟩

/-- **The first repeated name is the first one that is in the list before
it**, or among the names that were seen before. -/
theorem firstRepeated?_eq_some_iff : firstRepeated? seen columns = some c ↔
    ∃ before after, columns = before ++ c :: after ∧ before.Nodup ∧ (∀ d ∈ before, d ∉ seen) ∧
      (c ∈ before ∨ c ∈ seen) := by
  induction columns generalizing seen with
  | nil => simp [firstRepeated?]
  | cons d ds ih =>
    by_cases hd : d ∈ seen
    · rw [firstRepeated?, if_pos hd, Option.some.injEq]
      constructor
      · rintro rfl
        exact ⟨[], ds, rfl, List.nodup_nil, by simp, .inr hd⟩
      · rintro ⟨_ | ⟨b, before⟩, after, hsplit, -, hbefore, -⟩
        · exact (List.cons.inj hsplit).1
        · obtain ⟨rfl, -⟩ := List.cons.inj hsplit
          exact absurd hd (hbefore d List.mem_cons_self)
    · rw [firstRepeated?, if_neg hd, ih]
      constructor
      · rintro ⟨before, after, rfl, hdistinct, hbefore, hc⟩
        have hnew : d ∉ before := fun hmem => hbefore d hmem List.mem_cons_self
        refine ⟨d :: before, after, rfl, List.nodup_cons.2 ⟨hnew, hdistinct⟩, ?_, ?_⟩
        · rw [List.forall_mem_cons]
          exact ⟨hd, fun b hb hseen => hbefore b hb (List.mem_cons_of_mem _ hseen)⟩
        · simpa [or_assoc, or_left_comm] using hc
      · rintro ⟨_ | ⟨b, before⟩, after, hsplit, hdistinct, hbefore, hc⟩
        · obtain ⟨rfl, -⟩ := List.cons.inj hsplit
          exact absurd hc (by simp [hd])
        · obtain ⟨rfl, rfl⟩ := List.cons.inj hsplit
          obtain ⟨hnew, hdistinct'⟩ := List.nodup_cons.1 hdistinct
          refine ⟨before, after, rfl, hdistinct', fun b hb hseen => ?_, ?_⟩
          · rcases List.mem_cons.1 hseen with rfl | hseen
            · exact hnew hb
            · exact hbefore b (List.mem_cons_of_mem _ hb) hseen
          · simpa [or_assoc, or_left_comm] using hc

theorem firstRepeated?_nil_eq_some_iff :
    firstRepeated? [] columns = some c ↔ FirstRepeat columns c := by
  rw [firstRepeated?_eq_some_iff]
  simp [FirstRepeat]

theorem checkDistinct_eq_error_iff :
    checkDistinct columns = .error e ↔ ∃ c, FirstRepeat columns c ∧ e = .repeatedColumn c := by
  simp only [← firstRepeated?_nil_eq_some_iff]
  unfold checkDistinct
  split
  · next c hc => simp [hc, eq_comm]
  · next hc => simp [hc]

/-- Of identifiers only a repeated one is refused. -/
theorem checkColumnNames_eq_checkDistinct (h : ∀ c ∈ columns, isIdentifier c = true) :
    checkColumnNames columns = checkDistinct columns := by
  have hnone : columns.find? (! isIdentifier ·) = none := by simpa using h
  simp only [checkColumnNames, hnone]

/-- **A name that is no identifier is named before a repeated one.** -/
theorem checkColumnNames_eq_error_iff : checkColumnNames columns = .error e ↔
    (∃ c, FirstExcept (isIdentifier · = true) columns c ∧ e = .badIdentifier c) ∨
      (∀ c ∈ columns, isIdentifier c = true) ∧
        ∃ c, FirstRepeat columns c ∧ e = .repeatedColumn c := by
  rw [← checkDistinct_eq_error_iff]
  unfold checkColumnNames
  split
  · next c hc =>
    have hfirst := find?_not_eq_some_iff.1 hc
    constructor
    · rintro ⟨⟩
      exact .inl ⟨c, hfirst, rfl⟩
    · rintro (⟨other, hother, rfl⟩ | ⟨hall, -⟩)
      · rw [← find?_not_eq_some_iff, hc] at hother
        rw [Option.some.inj hother]
      · exact absurd hall hfirst.not_forall
  · next hc =>
    have hall : ∀ d ∈ columns, isIdentifier d = true := by simpa using hc
    constructor
    · exact fun h => .inr ⟨hall, h⟩
    · rintro (⟨other, hother, -⟩ | ⟨-, h⟩)
      · exact absurd hall hother.not_forall
      · exact h

end checks

namespace Table

variable {table : Table} {name : String} {columns : List String} {values : List Cell}
  {e : ExecutionError}

theorem checkDeclared_eq_error_iff_firstExcept : table.checkDeclared columns = .error e ↔
    ∃ c, FirstExcept (· ∈ table.columns) columns c ∧ e = .unknownColumn table.name c := by
  rw [checkDeclared_eq_error_iff]
  constructor
  · rintro ⟨before, c, after, hsplit, hbefore, hc, rfl⟩
    exact ⟨c, ⟨before, after, hsplit, hbefore, hc⟩, rfl⟩
  · rintro ⟨c, ⟨before, after, hsplit, hbefore, hc⟩, rfl⟩
    exact ⟨before, c, after, hsplit, hbefore, hc, rfl⟩

/-! ## Schemas -/

/-- **What is wrong with a name and columns for a table**: the name, or else
the first column that is no identifier, or else the first one repeated. -/
inductive SchemaFault (name : String) (columns : List String) : ExecutionError → Prop
  | name (hname : isIdentifier name = false) : SchemaFault name columns (.badIdentifier name)
  | column {c : String} (hname : isIdentifier name = true)
      (hc : FirstExcept (isIdentifier · = true) columns c) :
      SchemaFault name columns (.badIdentifier c)
  | repeated {c : String} (hname : isIdentifier name = true)
      (hcolumns : ∀ d ∈ columns, isIdentifier d = true) (hc : FirstRepeat columns c) :
      SchemaFault name columns (.repeatedColumn c)

theorem create_eq_error_iff : create name columns = .error e ↔ SchemaFault name columns e := by
  constructor
  · intro h
    unfold create at h
    split at h
    · next hname =>
      split at h
      · cases h
      · next cause hchecked =>
        cases h
        rcases checkColumnNames_eq_error_iff.1 hchecked with ⟨c, hc, rfl⟩ | ⟨hall, c, hc, rfl⟩
        · exact .column hname hc
        · exact .repeated hname hall hc
    · next hname =>
      cases h
      exact .name (by simpa using hname)
  · rintro (hname | ⟨hname, hc⟩ | ⟨hname, hall, hc⟩)
    · simp [create, hname]
    · have hchecked := checkColumnNames_eq_error_iff.2 (.inl ⟨_, hc, rfl⟩)
      rw [create, if_pos hname, hchecked]
    · have hchecked := checkColumnNames_eq_error_iff.2 (.inr ⟨hall, _, hc, rfl⟩)
      rw [create, if_pos hname, hchecked]

/-- The rows of a document have no say in whether it is refused. -/
theorem ofDocument_eq_error_iff {document : Document} :
    ofDocument name document = .error e ↔ SchemaFault name document.columns e := by
  rw [← create_eq_error_iff, ofDocument]
  cases create name document.columns <;> simp

/-! ## Values for a row -/

/-- **What is wrong with values for columns of a table**: their number, or
else the first column that is repeated, or else the first one that is not
declared. -/
inductive ValuesFault (table : Table) (columns : List String) (values : List Cell) :
    ExecutionError → Prop
  | count (hcount : columns.length ≠ values.length) :
      ValuesFault table columns values (.countMismatch columns.length values.length)
  | repeated {c : String} (hcount : columns.length = values.length) (hc : FirstRepeat columns c) :
      ValuesFault table columns values (.repeatedColumn c)
  | undeclared {c : String} (hcount : columns.length = values.length) (hdistinct : columns.Nodup)
      (hc : FirstExcept (· ∈ table.columns) columns c) :
      ValuesFault table columns values (.unknownColumn table.name c)

theorem buildRow_eq_error_iff :
    table.buildRow columns values = .error e ↔ table.ValuesFault columns values e := by
  constructor
  · intro h
    unfold buildRow at h
    split at h
    · next hcount =>
      cases h
      exact .count hcount
    · next hcount =>
      have hsame : columns.length = values.length := by simpa using hcount
      split at h
      · next cause hrepeated =>
        cases h
        obtain ⟨c, hc, rfl⟩ := checkDistinct_eq_error_iff.1 hrepeated
        exact .repeated hsame hc
      · next hdistinct =>
        split at h
        · next cause hundeclared =>
          cases h
          obtain ⟨c, hc, rfl⟩ := checkDeclared_eq_error_iff_firstExcept.1 hundeclared
          exact .undeclared hsame (checkDistinct_eq_ok_iff.1 hdistinct) hc
        · cases h
  · rintro (hcount | ⟨hcount, hc⟩ | ⟨hcount, hdistinct, hc⟩)
    · rw [buildRow, if_pos hcount]
    · have hrepeated := checkDistinct_eq_error_iff.2 ⟨_, hc, rfl⟩
      simp only [buildRow, if_neg (not_not_intro hcount), hrepeated]
    · have hundeclared := checkDeclared_eq_error_iff_firstExcept.2 ⟨_, hc, rfl⟩
      simp only [buildRow, if_neg (not_not_intro hcount), checkDistinct_eq_ok_iff.2 hdistinct,
        hundeclared]

end Table

end ShardStore

import ShardStore.Proofs.Statement.Scan
/-!
# Statements — the reader accepts its grammar, and no more

Each part of a statement is read exactly where the grammar has it, so what
is read is the beginning of a statement (`begins_of_read`), and a text that
is a statement is read as that one (`Begins.read`). A text that only begins
with a statement is read up to where the statement ends, or to its own end
when a condition takes it all. From these two the outcome of `parse` is
known for every text.
-/

namespace ShardStore

open Text

namespace Statement

variable {cs front rest : List Char}

/-! ## Words and gaps -/

theorem afterWord?_append (word : String) (rest : List Char) :
    afterWord? word (word.toList ++ rest) = some rest :=
  after?_eq_some_iff.2 rfl

theorem afterWord?_eq_some {word : String} (h : afterWord? word cs = some rest) :
    cs = word.toList ++ rest :=
  after?_eq_some_iff.1 h

/-- A gap is taken together with all spaces after it. -/
theorem afterSpaces?_append (h : Gap front) (rest : List Char) :
    afterSpaces? (front ++ rest) = some (skipSpaces rest) := by
  obtain ⟨hne, hspaces⟩ := h
  obtain ⟨c, more, rfl⟩ := List.exists_cons_of_ne_nil hne
  obtain ⟨hc, hmore⟩ := List.forall_mem_cons.mp hspaces
  rw [List.cons_append, afterSpaces?, if_pos hc, skipSpaces,
    List.dropWhile_append_of_pos hmore, skipSpaces]

theorem afterSpaces?_of_stops (h : Gap front) (hrest : Stops isSpace rest) :
    afterSpaces? (front ++ rest) = some rest := by
  rw [afterSpaces?_append h]
  exact congrArg some (skipSpaces_append spaces_nil hrest)

theorem afterSpaces?_eq_some (h : afterSpaces? cs = some rest) :
    ∃ front, Gap front ∧ cs = front ++ rest := by
  cases cs with
  | nil => cases h
  | cons c cs =>
    rw [afterSpaces?] at h
    split at h
    · next hc =>
      obtain ⟨spaces, hspaces, hcs⟩ := exists_spaces cs
      cases h
      refine ⟨c :: spaces, ⟨by simp, List.forall_mem_cons.mpr ⟨hc, hspaces⟩⟩, ?_⟩
      rw [List.cons_append, ← hcs]
    · cases h

/-- After a gap there is more of the text, which starts with no space. -/
theorem Gap.delimited (h : Gap front) (rest : List Char) : Delimited (front ++ rest) := by
  obtain ⟨hne, hspaces⟩ := h
  obtain ⟨c, more, rfl⟩ := List.exists_cons_of_ne_nil hne
  exact ⟨c, _, rfl, .inl (hspaces c List.mem_cons_self)⟩

/-- Spaces hold back a kind of characters that has none of them. -/
theorem stops_append {kind : Char → Bool} (hfront : Spaces front)
    (hkind : ∀ c, isSpace c = true → kind c = false) (hrest : Stops kind rest) :
    Stops kind (front ++ rest) := by
  cases front with
  | nil => exact hrest
  | cons c more => exact stops_cons.2 (hkind c (hfront c List.mem_cons_self))

/-- So does a parenthesis. -/
theorem ParenText.stops {α : Type} {Element : List Char → α → Prop} {as : List α}
    {kind : Char → Bool} (h : ParenText Element front as) (hkind : kind '(' = false)
    (rest : List Char) : Stops kind (front ++ rest) := by
  obtain ⟨-, -, -⟩ := h
  exact stops_cons.2 hkind

theorem takes_name {name : String} (h : NameText front name)
    (hrest : Stops isIdentifierChar rest) : Takes identifier (front ++ rest) name rest := by
  obtain ⟨rfl, hid⟩ := h
  exact takes_identifier.2 ⟨rfl, hid, hrest⟩

/-! ## The parts of a selection -/

theorem selectColumns_eq_some {columns : List String}
    (h : selectColumns cs = some (columns, rest)) :
    ∃ front, cs = front ++ rest ∧ ColumnsText front columns := by
  unfold selectColumns at h
  split at h
  · cases h
    exact ⟨['*'], rfl, .star⟩
  · obtain ⟨p, hp, heq⟩ := Option.map_eq_some_iff.mp h
    cases heq
    obtain ⟨front, hfront, hlist⟩ := scans_identifier.elements_sound ⟨p, hp, rfl, rfl⟩
    exact ⟨front, hfront, .named hlist⟩

/-- Columns are read up to a gap that no comma follows. -/
theorem selectColumns_append {columns : List String} (h : ColumnsText front columns)
    (hrest : Delimited rest) (hend : afterComma? rest = none) :
    selectColumns (front ++ rest) = some (columns, rest) := by
  cases h with
  | star => rfl
  | named hlist =>
    obtain ⟨p, hp, rfl, hprest⟩ := scans_identifier.elements_complete hlist hrest hend
    obtain ⟨first, name, tail, hname, rfl⟩ := hlist.first
    obtain ⟨c, more, rfl, hc⟩ := hname.start
    unfold selectColumns
    split
    · next heq =>
      -- A star is no character of a name.
      cases heq
      cases hc
    · rw [hp, Option.map_some, hprest]

theorem stops_columns {columns : List String} (h : ColumnsText front columns)
    (rest : List Char) : Stops isSpace (front ++ rest) := by
  cases h with
  | star => exact stops_cons.2 (by decide)
  | named hlist => exact scans_identifier.stops_list hlist rest

/-- **A condition is read exactly where there is one.** -/
theorem whereClause_eq_some_iff {condition : String} :
    whereClause cs = some condition ↔ WhereText cs condition := by
  unfold whereClause
  simp only [bind, Option.bind_eq_some_iff]
  constructor
  · rintro ⟨behind, hgap, word, hword, text, hgap', h⟩
    split at h
    · cases h
    · next hblank =>
      cases h
      obtain ⟨s₁, hs₁, rfl⟩ := afterSpaces?_eq_some hgap
      obtain ⟨s₂, hs₂, rfl⟩ := afterSpaces?_eq_some hgap'
      rw [afterWord?_eq_some hword]
      exact .condition hs₁ hs₂ (by simpa using hblank)
  · rintro ⟨hs₁, hs₂, htext⟩
    rename_i s₁ s₂ text
    obtain ⟨spaces, hspaces, hsplit⟩ := exists_spaces text
    have hblanks : isBlankText spaces = true :=
      List.all_eq_true.mpr fun c hc => isBlank_of_isSpace (hspaces c hc)
    have hmore : ¬ isBlankText (skipSpaces text) = true := by
      rw [hsplit, isBlankText_append, hblanks] at htext
      simpa using htext
    refine ⟨_, afterSpaces?_of_stops hs₁ (stops_cons.2 (by decide)), _, afterWord?_append _ _, _,
      afterSpaces?_append hs₂ text, ?_⟩
    rw [if_neg hmore, hsplit, trim_append hblanks, ← hsplit]

/-- A selection is read up to its table, and then a condition if there is
one. -/
theorem readSelect_append {columns : List String} {table : String}
    (h : HeadingText front columns table) (hrest : Stops isIdentifierChar rest) :
    readSelect (front ++ rest) =
      match whereClause rest with
      | some condition => some (⟨columns, table, some condition⟩, [])
      | none => some (⟨columns, table, none⟩, rest) := by
  obtain ⟨hs₁, hcolumns, hs₂, hs₃, htable⟩ := h
  rename_i cs s₁ s₂ s₃ name
  have hname : ∀ rest, Stops isSpace (name ++ rest) := scans_identifier.stops_element htable
  have hfrom : ∀ rest, Stops isSpace ("FROM".toList ++ rest) := fun rest => stops_cons.2 rfl
  have hend : ∀ rest, afterComma? (s₂ ++ ("FROM".toList ++ rest)) = none := fun rest =>
    afterComma?_eq_none hs₂.spaces rfl (by decide) _
  obtain ⟨p, hp, hvalue, hprest⟩ := takes_name htable hrest
  unfold readSelect
  simp only [List.append_assoc, bind, afterWord?_append, Option.bind_some,
    afterSpaces?_of_stops hs₁ (stops_columns hcolumns _),
    selectColumns_append hcolumns (hs₂.delimited _) (hend _), afterSpaces?_of_stops hs₂ (hfrom _),
    afterSpaces?_of_stops hs₃ (hname _), hp, hvalue, hprest]
  rfl

/-- What is read as a selection begins with one. -/
theorem begins_of_readSelect {query : Select} (h : readSelect cs = some (query, rest)) :
    Begins cs (.select query) rest := by
  unfold readSelect at h
  simp only [bind, Option.bind_eq_some_iff, Prod.exists] at h
  obtain ⟨_, hselect, _, hgap₁, columns, _, hcolumns, _, hgap₂, _, hfrom, _, hgap₃, p, hp, h⟩ := h
  obtain ⟨s₁, hs₁, rfl⟩ := afterSpaces?_eq_some hgap₁
  obtain ⟨front, rfl, hfront⟩ := selectColumns_eq_some hcolumns
  obtain ⟨s₂, hs₂, rfl⟩ := afterSpaces?_eq_some hgap₂
  obtain rfl := afterWord?_eq_some hfrom
  obtain ⟨s₃, hs₃, rfl⟩ := afterSpaces?_eq_some hgap₃
  obtain ⟨hname, hid, hstops⟩ := takes_identifier.1 ⟨p, hp, rfl, rfl⟩
  have hheading := HeadingText.heading hs₁ hfront hs₂ hs₃ ⟨rfl, hid⟩
  have hcs : cs = "SELECT".toList ++ (s₁ ++ (front ++ (s₂ ++ ("FROM".toList ++ (s₃ ++
      p.value.toList))))) ++ p.rest := by
    rw [afterWord?_eq_some hselect]
    simpa using hname
  rw [hcs]
  split at h
  · next condition hcondition =>
    cases h
    have hbegins : Begins (_ ++ (p.rest ++ [])) _ [] :=
      .filtered hheading (whereClause_eq_some_iff.1 hcondition)
    rwa [List.append_nil] at hbegins
  · cases h
    exact .select hheading hstops

/-! ## Insertions -/

/-- **An insertion is read exactly where there is one.** -/
theorem readInsert_eq_some_iff {addition : Insert} : readInsert cs = some (addition, rest) ↔
    ∃ front, cs = front ++ rest ∧ InsertText front addition := by
  unfold readInsert
  simp only [bind, Option.bind_eq_some_iff, Prod.exists, scans_identifier.parenthesized_eq_some_iff,
    scans_value.parenthesized_eq_some_iff]
  constructor
  · rintro ⟨_, hinsert, _, hgap₁, _, hinto, _, hgap₂, p, hp, columns, last, ⟨front, hopen, hfront⟩,
      more, hvalues, values, _, ⟨back, hback, hlast⟩, h⟩
    cases h
    obtain ⟨s₁, hs₁, rfl⟩ := afterSpaces?_eq_some hgap₁
    obtain rfl := afterWord?_eq_some hinto
    obtain ⟨s₂, hs₂, rfl⟩ := afterSpaces?_eq_some hgap₂
    obtain ⟨hname, hid, -⟩ := takes_identifier.1 ⟨p, hp, rfl, rfl⟩
    obtain ⟨t₁, ht₁, hrest₁⟩ := exists_spaces p.rest
    obtain ⟨t₂, ht₂, hrest₂⟩ := exists_spaces last
    obtain ⟨t₃, ht₃, hrest₃⟩ := exists_spaces more
    rw [afterWord?_eq_some hvalues] at hrest₂
    rw [hback] at hrest₃
    rw [hopen, hrest₂, hrest₃] at hrest₁
    refine ⟨_, ?_, .insertion hs₁ hs₂ ⟨rfl, hid⟩ ht₁ hfront ht₂ ht₃ hlast⟩
    rw [afterWord?_eq_some hinsert]
    simpa [hrest₁] using hname
  · rintro ⟨_, rfl, hs₁, hs₂, htable, ht₁, hcolumns, ht₂, ht₃, hvalues⟩
    rename_i s₁ s₂ name t₁ cs t₂ t₃ vs table columns values
    have hinto : ∀ rest, Stops isSpace ("INTO".toList ++ rest) := fun rest => stops_cons.2 rfl
    have hname : ∀ rest, Stops isSpace (name ++ rest) := scans_identifier.stops_element htable
    have hword : ∀ rest, Stops isSpace ("VALUES".toList ++ rest) := fun rest => stops_cons.2 rfl
    -- The name of the table ends at the spaces or at the parenthesis behind it.
    have hend : ∀ rest, Stops isIdentifierChar (t₁ ++ (cs ++ rest)) := fun rest =>
      stops_append ht₁ (fun _ hc => isIdentifierChar_of_delimits (.inl hc))
        (hcolumns.stops rfl rest)
    obtain ⟨p, hp, rfl, hprest⟩ :=
      takes_name htable (hend (t₂ ++ ("VALUES".toList ++ (t₃ ++ (vs ++ rest)))))
    simp only [List.append_assoc]
    have hopen : skipSpaces p.rest = cs ++ (t₂ ++ ("VALUES".toList ++ (t₃ ++ (vs ++ rest)))) := by
      rw [hprest]
      exact skipSpaces_append ht₁ (hcolumns.stops rfl _)
    have hmore : afterWord? "VALUES" (skipSpaces (t₂ ++ ("VALUES".toList ++ (t₃ ++ (vs ++ rest))))) =
        some (t₃ ++ (vs ++ rest)) := by
      rw [skipSpaces_append ht₂ (hword _)]
      exact afterWord?_append _ _
    have hback : skipSpaces (t₃ ++ (vs ++ rest)) = vs ++ rest :=
      skipSpaces_append ht₃ (hvalues.stops rfl rest)
    exact ⟨_, afterWord?_append _ _, _, afterSpaces?_of_stops hs₁ (hinto _), _,
      afterWord?_append _ _, _, afterSpaces?_of_stops hs₂ (hname _), p, hp, columns, _,
      ⟨cs, hopen, hcolumns⟩, _, hmore, values, rest, ⟨vs, hback, hvalues⟩, rfl⟩

/-! ## Statements -/

/-- **What is read begins with a statement**, and the rest is what is left. -/
theorem begins_of_read {statement : Statement} (h : read cs = some (statement, rest)) :
    Begins cs statement rest := by
  unfold read at h
  split at h
  · next query more hselect =>
    cases h
    exact begins_of_readSelect hselect
  · obtain ⟨⟨addition, more⟩, hinsert, heq⟩ := Option.map_eq_some_iff.mp h
    cases heq
    obtain ⟨front, rfl, hfront⟩ := readInsert_eq_some_iff.1 hinsert
    exact .insert hfront

/-- A condition goes on to the end of its text. -/
theorem WhereText.append {condition : String} (h : WhereText front condition)
    (rest : List Char) : ∃ longer, WhereText (front ++ rest) longer := by
  obtain ⟨hs₁, hs₂, htext⟩ := h
  rename_i s₁ s₂ text
  have hlonger : isBlankText (text ++ rest) = false := by
    rw [isBlankText_append, htext, Bool.false_and]
  refine ⟨String.ofList (trim (text ++ rest)), ?_⟩
  simp only [List.append_assoc]
  exact .condition hs₁ hs₂ hlonger

theorem WhereText.stops {condition : String} (h : WhereText front condition)
    (rest : List Char) : Stops isIdentifierChar (front ++ rest) := by
  obtain ⟨hs₁, -, -⟩ := h
  rw [List.append_assoc]
  exact (hs₁.delimited _).stops fun _ => isIdentifierChar_of_delimits

theorem readSelect_insert (rest : List Char) : readSelect ("INSERT".toList ++ rest) = none := rfl

/-- **A text that begins with a statement is read** up to the end of it, or to
its own end, where a condition takes all that is left. -/
theorem Begins.read {statement : Statement} (h : Begins cs statement rest) :
    Statement.read cs = some (statement, rest) ∨
      rest ≠ [] ∧ ∃ other, Statement.read cs = some (other, []) := by
  unfold Statement.read
  cases h with
  | @select front rest columns table hheading hrest =>
    rw [readSelect_append hheading hrest]
    cases hwhere : whereClause rest with
    | none => exact .inl rfl
    | some condition =>
      refine .inr ⟨?_, _, rfl⟩
      rintro rfl
      cases hwhere
  | @filtered front ds rest columns table condition hheading hwhere =>
    rw [readSelect_append hheading (hwhere.stops rest)]
    by_cases hnil : rest = []
    · subst hnil
      rw [List.append_nil, whereClause_eq_some_iff.2 hwhere]
      exact .inl rfl
    · obtain ⟨longer, hlonger⟩ := hwhere.append rest
      rw [whereClause_eq_some_iff.2 hlonger]
      exact .inr ⟨hnil, _, rfl⟩
  | @insert front rest addition hinsert =>
    have hread : readInsert (front ++ rest) = some (addition, rest) :=
      readInsert_eq_some_iff.2 ⟨front, rfl, hinsert⟩
    have hnone : readSelect (front ++ rest) = none := by
      obtain ⟨-, -, -, -, -, -, -, -⟩ := hinsert
      rw [List.append_assoc]
      exact readSelect_insert _
    rw [hnone, hread]
    exact .inl rfl

/-- What is left after a statement is the end of the text. -/
theorem Begins.suffix {statement : Statement} (h : Begins cs statement rest) : rest <:+ cs := by
  cases h with
  | select => exact List.suffix_append _ _
  | filtered => exact (List.suffix_append _ _).trans (List.suffix_append _ _)
  | insert => exact List.suffix_append _ _

/-! ## Outcomes -/

variable {text : String} {statement : Statement}

theorem parse_of_none (h : read (trim text.toList) = none) :
    parse text = .error (.unsupported (String.ofList (trim text.toList))) := by
  unfold parse
  simp only [h]

theorem parse_of_whole (h : read (trim text.toList) = some (statement, [])) :
    parse text = checkCounts statement := by
  unfold parse
  simp only [h]
  rfl

/-- A rest is no blank text, since it ends where the trimmed text does. -/
theorem parse_of_rest (h : read (trim text.toList) = some (statement, rest)) (hrest : rest ≠ []) :
    parse text = .error (.trailing (String.ofList (trim rest))) := by
  obtain ⟨front, hfront⟩ := (begins_of_read h).suffix
  have hblank := isBlankText_of_trim hfront.symm hrest
  unfold parse
  simp only [h, hblank]
  rfl

/-- **Every text is taken for what it is.** -/
theorem verdict_parse (text : String) : Verdict (trim text.toList) (parse text) := by
  cases hread : read (trim text.toList) with
  | none =>
    rw [parse_of_none hread]
    refine .unsupported fun statement rest h => ?_
    rcases h.read with hsome | ⟨-, other, hsome⟩
    all_goals
      rw [hread] at hsome
      cases hsome
  | some result =>
    obtain ⟨statement, rest⟩ := result
    have hbegins := begins_of_read hread
    by_cases hrest : rest = []
    · subst hrest
      rw [parse_of_whole hread]
      cases statement with
      | select query => exact .accepted hbegins trivial
      | insert addition =>
        rw [checkCounts]
        split
        · next hcounts => exact .accepted hbegins hcounts
        · next hcounts => exact .mismatched hbegins hcounts
    · rw [parse_of_rest hread hrest]
      refine .trailing (fun other hother => ?_) hbegins hrest
      rcases hother.read with hsome | ⟨hne, -⟩
      · rw [hread] at hsome
        cases hsome
        exact hrest rfl
      · exact hne rfl

/-- A text that is a statement is read as that one. -/
theorem Begins.read_whole (h : Begins cs statement []) :
    Statement.read cs = some (statement, []) := by
  rcases h.read with hsome | ⟨hne, -⟩
  · exact hsome
  · exact absurd rfl hne

/-- Nothing else is it taken for. -/
theorem parse_of_verdict {outcome : Except StatementError Statement}
    (h : Verdict (trim text.toList) outcome) : parse text = outcome := by
  cases h with
  | @accepted statement hwhole hcounts =>
    rw [parse_of_whole hwhole.read_whole]
    cases statement with
    | select query => rfl
    | insert addition => exact if_pos hcounts
  | mismatched hwhole hcounts =>
    rw [parse_of_whole hwhole.read_whole]
    exact if_neg hcounts
  | trailing hwhole hbegins hrest =>
    rcases hbegins.read with hsome | ⟨-, other, hsome⟩
    · exact parse_of_rest hsome hrest
    · exact absurd (begins_of_read hsome) (hwhole other)
  | unsupported hnone =>
    cases hread : Statement.read (trim text.toList) with
    | none => exact parse_of_none hread
    | some result => exact absurd (begins_of_read hread) (hnone result.1 result.2)

/-- **A text is parsed as a statement, or refused for one of three causes,
exactly as the grammar says.** -/
theorem parse_eq_iff_verdict (text : String) (outcome : Except StatementError Statement) :
    parse text = outcome ↔ Verdict (trim text.toList) outcome := by
  refine ⟨?_, parse_of_verdict⟩
  rintro rfl
  exact verdict_parse text

end Statement

end ShardStore

import Mathlib.Control.Monad.Basic
import ShardStore.Proofs.Statement.Reading
import ShardStore.Proofs.Text.Blank
/-!
# Statements — what can be written, and is read back

A statement is expressible when some text writes it: its names are
identifiers, its condition is trimmed and not empty, and its values come as
many as its columns and each lack one of the quotes (`Expressible`). The text
that `render` writes for such a statement is one of the grammar, so it is read
back (`parse_render`); and whatever the grammar lets a text denote is
expressible (`expressible_of_parse`).
-/

namespace ShardStore

open Text

/-- A cell that a literal can write: null, or a text that lacks a quote of
one kind. -/
def Cell.Expressible : Cell → Prop
  | null => True
  | text content => '\'' ∉ content.toList ∨ '"' ∉ content.toList

/-- A selection that a text can write. -/
structure Select.Expressible (query : Select) : Prop where
  table : isIdentifier query.table = true
  columns : ∀ c ∈ query.columns, isIdentifier c = true
  condition : ∀ text ∈ query.condition, text ≠ "" ∧ trimmed text = text

/-- An insertion that a text can write. -/
structure Insert.Expressible (addition : Insert) : Prop where
  table : isIdentifier addition.table = true
  columns : ∀ c ∈ addition.columns, isIdentifier c = true
  nonempty : addition.columns ≠ []
  counts : addition.columns.length = addition.values.length
  values : ∀ cell ∈ addition.values, cell.Expressible

namespace Statement

/-- **The statements that a text can write.** -/
def Expressible : Statement → Prop
  | select query => query.Expressible
  | insert addition => addition.Expressible

variable {α : Type} {cs front rest : List Char} {name : String} {columns : List String}

/-! ## What is written is of the grammar -/

/-- The literal of a cell is the text of its value. -/
theorem valueText_literal {cell : Cell} (h : cell.Expressible) :
    ValueText cell.literal.toList cell := by
  cases cell with
  | null =>
    have hne : ['N', 'U', 'L', 'L'] ≠ [] := List.cons_ne_nil _ _
    have hfree : ∀ c ∈ ['N', 'U', 'L', 'L'],
        isBlank c = false ∧ c ∉ [',', '(', ')', '\'', '"'] := by
      simp only [List.forall_mem_cons]
      exact ⟨by decide, by decide, by decide, by decide, fun c hc => absurd hc List.not_mem_nil⟩
    exact .bare hne hfree
  | text content =>
    rw [Cell.literal]
    split
    · next hsingle =>
      have hdouble : '"' ∉ content.toList := h.resolve_left (not_not_intro hsingle)
      simpa using ValueText.quoted (.inr rfl) hdouble
    · next hsingle => simpa using ValueText.quoted (.inl rfl) hsingle

/-- Texts of elements, with a comma and a space between each two, are the
text of their list. -/
theorem listText_commaList {Element : List Char → α → Prop} {text : α → String} {as : List α}
    (h : ∀ a ∈ as, Element (text a).toList a) (hne : as ≠ []) :
    ListText Element (commaList (as.map text)).toList as := by
  induction as with
  | nil => exact absurd rfl hne
  | cons a as ih =>
    have hfirst := h a List.mem_cons_self
    cases as with
    | nil => simpa [commaList] using ListText.last hfirst
    | cons b bs =>
      have hmore := ih (fun c hc => h c (List.mem_cons_of_mem _ hc)) (List.cons_ne_nil b bs)
      have hspace : Spaces [' '] := by simp [Spaces, isSpace]
      simpa [commaList] using ListText.comma hfirst spaces_nil hspace hmore

theorem listText_names (h : ∀ c ∈ columns, isIdentifier c = true) (hne : columns ≠ []) :
    ListText NameText (commaList columns).toList columns := by
  have hlist : ListText NameText (commaList (columns.map id)).toList columns :=
    listText_commaList (fun c hc => NameText.mk rfl (h c hc)) hne
  rwa [List.map_id] at hlist

/-- A list in parentheses without spaces inside them. -/
theorem parenText_of_listText {Element : List Char → α → Prop} {as : List α}
    (h : ListText Element front as) : ParenText Element ('(' :: (front ++ [')'])) as := by
  simpa using ParenText.parens spaces_nil h spaces_nil

theorem gap_space : Gap [' '] := ⟨List.cons_ne_nil _ _, by simp [Spaces, isSpace]⟩

/-- The text of a selection up to its table is a heading. -/
theorem headingText_render (htable : isIdentifier name = true)
    (hcolumns : ∀ c ∈ columns, isIdentifier c = true) :
    HeadingText ("SELECT " ++ (if columns.isEmpty then "*" else commaList columns) ++ " FROM " ++
      name).toList columns name := by
  have hlist : ColumnsText (if columns.isEmpty then "*" else commaList columns).toList columns := by
    cases columns with
    | nil => exact .star
    | cons c more => exact .named (listText_names hcolumns (List.cons_ne_nil c more))
  have hheading := HeadingText.heading gap_space hlist gap_space gap_space (.mk rfl htable)
  simpa using hheading

theorem whereText_render {condition : String} (hne : condition ≠ "")
    (htrim : trimmed condition = condition) :
    WhereText (" WHERE " ++ condition).toList condition := by
  have hsolid := (trimmed_eq_self_iff.1 htrim).isBlankText_eq_false (by simpa using hne)
  have hwhere := WhereText.condition gap_space gap_space hsolid
  rw [← trimmed, htrim] at hwhere
  simpa using hwhere

theorem insertText_render {addition : Insert} (h : addition.Expressible) :
    InsertText addition.render.toList addition := by
  obtain ⟨table, columns, values⟩ := addition
  -- The grammar has no empty list; there are as many values as columns.
  have hvalues : values ≠ [] := by
    rintro rfl
    exact h.nonempty (List.length_eq_zero_iff.mp h.counts)
  have hcells := listText_commaList
    (fun cell hcell => valueText_literal (h.values cell hcell)) hvalues
  have hnames := listText_names h.columns h.nonempty
  have hinsert := InsertText.insertion gap_space gap_space (.mk rfl h.table) gap_space.spaces
    (parenText_of_listText hnames) gap_space.spaces gap_space.spaces (parenText_of_listText hcells)
  unfold Insert.render
  simpa using hinsert

/-- **The text that is written for a statement is that statement.** -/
theorem begins_render {statement : Statement} (h : statement.Expressible) :
    Begins statement.render.toList statement [] := by
  cases statement with
  | select query =>
    obtain ⟨columns, table, condition⟩ := query
    have hheading := headingText_render h.table h.columns
    cases condition with
    | none =>
      -- The name of the table ends where the text does.
      have hstop : Stops isIdentifierChar [] := fun c hc => by cases hc
      simpa [render, Select.render] using Begins.select hheading hstop
    | some condition =>
      obtain ⟨hne, htrim⟩ := h.condition condition rfl
      have hbegins : Begins (_ ++ (_ ++ [])) _ [] := .filtered hheading (whereText_render hne htrim)
      simpa [render, Select.render] using hbegins
  | insert addition =>
    have hbegins : Begins (_ ++ []) _ [] := .insert (insertText_render h)
    rwa [List.append_nil] at hbegins

/-- It has no blank at its edges. -/
theorem trimmed_render {statement : Statement} (h : statement.Expressible) :
    Trimmed statement.render.toList := by
  have hselect : IsWord "SELECT".toList := by decide
  have hinsert : IsWord "INSERT".toList := by decide
  have hclose : IsWord [')'] := by decide
  cases statement with
  | select query =>
    obtain ⟨columns, table, condition⟩ := query
    cases condition with
    | none =>
      have hname := isWord_of_isIdentifier h.table
      have hedges := hselect.trimmed.between hselect.nonempty
        (" " ++ (if columns.isEmpty then "*" else commaList columns) ++ " FROM ").toList
        hname.trimmed hname.nonempty
      simpa [render, Select.render] using hedges
    | some condition =>
      obtain ⟨hne, htrim⟩ := h.condition condition rfl
      have hedges := hselect.trimmed.between hselect.nonempty
        (" " ++ (if columns.isEmpty then "*" else commaList columns) ++ " FROM " ++ table ++
          " WHERE ").toList (trimmed_eq_self_iff.1 htrim) (by simpa using hne)
      simpa [render, Select.render] using hedges
  | insert addition =>
    obtain ⟨table, columns, values⟩ := addition
    have hedges := hinsert.trimmed.between hinsert.nonempty
      (" INTO " ++ table ++ " (" ++ commaList columns ++ ") VALUES (" ++
        commaList (values.map Cell.literal)).toList hclose.trimmed hclose.nonempty
    unfold render Insert.render
    simpa using hedges

theorem Expressible.balanced {statement : Statement} (h : statement.Expressible) :
    statement.Balanced := by
  cases statement with
  | select query => trivial
  | insert addition => exact h.counts

/-- **What is written for an expressible statement is read back.** -/
theorem parse_render {statement : Statement} (h : statement.Expressible) :
    parse statement.render = .ok statement := by
  refine parse_of_verdict ?_
  rw [(trimmed_render h).trim_eq]
  exact .accepted (begins_render h) h.balanced

/-! ## What the grammar has is expressible -/

theorem ListText.ne_nil {Element : List Char → α → Prop} {as : List α}
    (h : ListText Element cs as) : as ≠ [] := by
  cases h <;> exact List.cons_ne_nil _ _

/-- Each element of a list has a text. -/
theorem ListText.element {Element : List Char → α → Prop} {as : List α}
    (h : ListText Element cs as) : ∀ a ∈ as, ∃ text, Element text a := by
  induction h with
  | last h =>
    intro a ha
    obtain rfl := List.mem_singleton.mp ha
    exact ⟨_, h⟩
  | comma h _ _ _ ih => exact List.forall_mem_cons.mpr ⟨⟨_, h⟩, ih⟩

theorem ListText.isIdentifier (h : ListText NameText cs columns) :
    ∀ c ∈ columns, isIdentifier c = true := by
  intro c hc
  obtain ⟨text, hname⟩ := h.element c hc
  exact hname.identifier

theorem ColumnsText.isIdentifier (h : ColumnsText cs columns) :
    ∀ c ∈ columns, isIdentifier c = true := by
  cases h with
  | star => exact fun c hc => absurd hc List.not_mem_nil
  | named h => exact h.isIdentifier

theorem HeadingText.isIdentifier (h : HeadingText cs columns name) :
    isIdentifier name = true ∧ ∀ c ∈ columns, isIdentifier c = true := by
  obtain ⟨-, hcolumns, -, -, hname⟩ := h
  exact ⟨hname.identifier, hcolumns.isIdentifier⟩

/-- A condition is what trimming leaves of a text that is not blank. -/
theorem WhereText.trimmed {condition : String} (h : WhereText cs condition) :
    condition ≠ "" ∧ trimmed condition = condition := by
  obtain ⟨-, -, htext⟩ := h
  rename_i text
  refine ⟨fun hempty => ?_, ?_⟩
  · rw [isBlankText_of_trim_eq_nil (String.ofList_eq_empty_iff.mp hempty)] at htext
    cases htext
  · rw [trimmed_eq_self_iff, String.toList_ofList]
    exact trimmed_trim text

/-- A value between quotes lacks these, and one without quotes lacks both. -/
theorem ValueText.expressible {cell : Cell} (h : ValueText cs cell) : cell.Expressible := by
  cases h with
  | quoted hquote hfree =>
    rw [Cell.Expressible, String.toList_ofList]
    rcases hquote with rfl | rfl
    · exact .inl hfree
    · exact .inr hfree
  | @bare word hword hfree =>
    split
    · trivial
    · rw [Cell.Expressible, String.toList_ofList]
      exact .inl fun hmem => (hfree _ hmem).2 (by decide)

/-- **What a text denotes is expressible**, where there are as many values as
columns. -/
theorem Begins.expressible {statement : Statement} (h : Begins cs statement rest)
    (hcounts : statement.Balanced) : statement.Expressible := by
  cases h with
  | select h =>
    obtain ⟨htable, hcolumns⟩ := h.isIdentifier
    exact ⟨htable, hcolumns, fun text htext => by cases htext⟩
  | filtered h hwhere =>
    obtain ⟨htable, hcolumns⟩ := h.isIdentifier
    refine ⟨htable, hcolumns, fun text htext => ?_⟩
    cases htext
    exact hwhere.trimmed
  | insert h =>
    obtain ⟨-, -, htable, -, ⟨-, hcolumns, -⟩, -, -, ⟨-, hvalues, -⟩⟩ := h
    refine ⟨htable.identifier, hcolumns.isIdentifier, hcolumns.ne_nil, hcounts, ?_⟩
    intro cell hcell
    obtain ⟨text, hvalue⟩ := hvalues.element cell hcell
    exact hvalue.expressible

theorem expressible_of_parse {text : String} {statement : Statement}
    (h : parse text = .ok statement) : statement.Expressible := by
  have hverdict := verdict_parse text
  rw [h] at hverdict
  obtain ⟨hbegins, hcounts⟩ := hverdict
  exact hbegins.expressible hcounts

/-- **Statements round-trip through text, and exactly the expressible ones
do**: what is written for one is read as it, and nothing else is ever read. -/
theorem round_trips_exactly_expressible :
    (∀ statement : Statement, statement.Expressible → parse statement.render = .ok statement) ∧
    (∀ (text : String) (statement : Statement),
      parse text = .ok statement → statement.Expressible) :=
  ⟨fun _ => parse_render, fun _ _ => expressible_of_parse⟩

/-- An insertion of texts that a reader could mistake: one with an apostrophe,
a comma and parentheses, the null word, and no text at all; and a selection
that is read with its spacing. -/
theorem round_trips_mistakable_values :
    let addition : Statement := .insert
      ⟨"t", ["a", "b", "c", "d"], [.text "it's, (so)", .text "NULL", .text "", .null]⟩
    let query : Statement := .select ⟨["a", "b"], "t", some "x  =  1"⟩
    addition.Expressible ∧
      addition.render = "INSERT INTO t (a, b, c, d) VALUES (\"it's, (so)\", 'NULL', '', NULL)" ∧
      parse addition.render = .ok addition ∧
      parse " SELECT a ,b FROM t WHERE x  =  1 " = .ok query ∧ query.Expressible := by
  intro addition query
  have hparse : parse " SELECT a ,b FROM t WHERE x  =  1 " = .ok query := by decide +kernel
  have hexpressible : addition.Expressible := by
    refine ⟨by decide, by decide, by decide, rfl, fun cell hcell => ?_⟩
    simp only [List.mem_cons, List.not_mem_nil, or_false] at hcell
    rcases hcell with rfl | rfl | rfl | rfl
    · exact .inr (by decide)
    · exact .inl (by decide)
    · exact .inl (by decide)
    · trivial
  exact ⟨hexpressible, rfl, round_trips_exactly_expressible.1 addition hexpressible, hparse,
    round_trips_exactly_expressible.2 _ query hparse⟩

end Statement

end ShardStore

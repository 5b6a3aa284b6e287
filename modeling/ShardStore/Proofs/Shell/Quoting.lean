import ShardStore.Proofs.Shell.Pieces
import ShardStore.Proofs.Statement.Reading
/-!
# Shell — a line is never cut within a quoted value

What the shell takes for quotes and what the grammar of statements takes for
quotes is the same. The text of an insertion is put together from its words,
its spaces and the words of its values (`WritesValues.compose`); no other part of it
holds a quote or a semicolon. A value in quotes closes what it opens and hides
what it holds, so the whole text is closed, and it is left whole if no bare value
holds a semicolon (`splitLine_of_writes`).
-/

namespace ShardStore

open Text

namespace Statement

/-- The text of an insertion up to its values. -/
inductive InsertHeading : List Char → String → List String → Prop
  | heading {s₁ s₂ name t₁ cs t₂ t₃ : List Char} {table : String} {columns : List String}
      (hs₁ : Gap s₁) (hs₂ : Gap s₂) (htable : NameText name table) (ht₁ : Spaces t₁)
      (hcolumns : ParenText NameText cs columns) (ht₂ : Spaces t₂) (ht₃ : Spaces t₃) :
      InsertHeading ("INSERT".toList ++ (s₁ ++ ("INTO".toList ++ (s₂ ++ (name ++ (t₁ ++ (cs ++
        (t₂ ++ ("VALUES".toList ++ t₃))))))))) table columns

/-- A text is the word that writes a value. -/
def WrittenText (cs : List Char) (value : List Char × Cell) : Prop :=
  cs = value.1 ∧ ValueText cs value.2

/-- An insertion writes these values by these words. -/
def WritesValues (cs : List Char) (written : List (List Char × Cell)) : Prop :=
  ∃ heading list table columns, cs = heading ++ list ∧ InsertHeading heading table columns ∧
    ParenText WrittenText list written

variable {α : Type} {cs : List Char}

theorem ListText.exists_written {values : List Cell} (h : ListText ValueText cs values) :
    ∃ written, ListText WrittenText cs written := by
  induction h with
  | @last cs a h => exact ⟨[(cs, a)], .last ⟨rfl, h⟩⟩
  | @comma cs before after more a as h hbefore hafter _ ih =>
    obtain ⟨written, hmore⟩ := ih
    exact ⟨(cs, a) :: written, .comma ⟨rfl, h⟩ hbefore hafter hmore⟩

/-- **Every insertion writes its values by some words.** -/
theorem InsertText.exists_written {addition : Insert} (h : InsertText cs addition) :
    ∃ written, WritesValues cs written := by
  obtain ⟨hs₁, hs₂, htable, ht₁, hcolumns, ht₂, ht₃, ⟨hbefore, hlist, hafter⟩⟩ := h
  obtain ⟨written, hwritten⟩ := hlist.exists_written
  refine ⟨written, _, _, _, _, ?_, .heading hs₁ hs₂ htable ht₁ hcolumns ht₂ ht₃,
    .parens hbefore hwritten hafter⟩
  simp only [List.append_assoc]

/-- A list of elements is one of what each of them writes. -/
theorem ListText.map {β : Type} {Element : List Char → α → Prop} {Other : List Char → β → Prop}
    {f : α → β} {as : List α} (h : ListText Element cs as)
    (helement : ∀ cs a, Element cs a → Other cs (f a)) : ListText Other cs (as.map f) := by
  induction h with
  | last h => exact .last (helement _ _ h)
  | comma h hbefore hafter _ ih => exact .comma (helement _ _ h) hbefore hafter ih

/-- What writes values by some words is an insertion of these values. -/
theorem WritesValues.exists_insertText {written : List (List Char × Cell)}
    (h : WritesValues cs written) :
    ∃ addition, InsertText cs addition ∧ addition.values = written.map Prod.snd := by
  obtain ⟨_, _, table, columns, rfl, hheading, hlist⟩ := h
  obtain ⟨hs₁, hs₂, htable, ht₁, hcolumns, ht₂, ht₃⟩ := hheading
  obtain ⟨hbefore, hwritten, hafter⟩ := hlist
  have hvalues := hwritten.map fun word value (h : WrittenText word value) => h.2
  refine ⟨⟨table, columns, written.map Prod.snd⟩, ?_, rfl⟩
  have hinsert := InsertText.insertion hs₁ hs₂ htable ht₁ hcolumns ht₂ ht₃
    (.parens hbefore hvalues hafter)
  simpa only [List.append_assoc] using hinsert

theorem InsertText.read_eq {addition : Insert} (h : InsertText cs addition) :
    read cs = some (.insert addition, []) := by
  have hbegins : Begins (cs ++ []) (.insert addition) [] := .insert h
  rw [List.append_nil] at hbegins
  exact hbegins.read_whole

/-- **The words of an insertion write its values**, and no others. -/
theorem WritesValues.values_eq {written : List (List Char × Cell)} {addition : Insert}
    (h : WritesValues cs written) (hinsert : InsertText cs addition) :
    written.map Prod.snd = addition.values := by
  obtain ⟨other, hother, hvalues⟩ := h.exists_insertText
  have hsame := hother.read_eq.symm.trans hinsert.read_eq
  cases hsame
  exact hvalues.symm

/-! ## Texts put together -/

/-- A character that is no quote and no semicolon. -/
def IsPlain (c : Char) : Prop :=
  (c ≠ '\'' ∧ c ≠ '"') ∧ c ≠ ';'

instance (c : Char) : Decidable (IsPlain c) :=
  inferInstanceAs (Decidable ((c ≠ '\'' ∧ c ≠ '"') ∧ c ≠ ';'))

/-- What holds of plain texts, and of two texts one behind the other if it
holds of both. -/
structure Composes (P : List Char → Prop) : Prop where
  plain : ∀ {cs}, (∀ c ∈ cs, IsPlain c) → P cs
  append : ∀ {front back}, P front → P back → P (front ++ back)

theorem isPlain_of_isSpace {c : Char} (h : isSpace c = true) : IsPlain c :=
  Shell.not_quote_of_isBlank (isBlank_of_isSpace h)

theorem isPlain_of_isIdentifierChar {c : Char} (h : isIdentifierChar c = true) : IsPlain c := by
  refine ⟨⟨?_, ?_⟩, ?_⟩
  all_goals
    rintro rfl
    cases h

section

variable {P : List Char → Prop} (hP : Composes P)
include hP

theorem Composes.cons {c : Char} (hc : IsPlain c) (h : P cs) : P (c :: cs) :=
  hP.append (hP.plain (List.forall_mem_singleton.2 hc)) h

/-- It holds of a fixed text that is plain. -/
theorem Composes.fixed (h : cs.all (fun c => decide (IsPlain c)) = true) : P cs :=
  hP.plain fun c hc => of_decide_eq_true (List.all_eq_true.1 h c hc)

theorem Composes.spaces (h : Spaces cs) : P cs :=
  hP.plain fun c hc => isPlain_of_isSpace (h c hc)

theorem Composes.name {name : String} (h : NameText cs name) : P cs := by
  obtain ⟨rfl, hid⟩ := h
  simp only [isIdentifier, Bool.and_eq_true, List.all_eq_true] at hid
  exact hP.plain fun c hc => isPlain_of_isIdentifierChar (hid.2 c hc)

/-- It holds of a list if it holds of each element. -/
theorem ListText.compose {Element : List Char → α → Prop} {as : List α}
    (h : ListText Element cs as) (helement : ∀ a ∈ as, ∀ cs, Element cs a → P cs) : P cs := by
  induction h with
  | last h => exact helement _ List.mem_cons_self _ h
  | comma h hbefore hafter _ ih =>
    obtain ⟨hfirst, hmore⟩ := List.forall_mem_cons.1 helement
    have hcomma : IsPlain ',' := by decide
    exact hP.append (hfirst _ h) (hP.append (hP.spaces hbefore)
      (hP.cons hcomma (hP.append (hP.spaces hafter) (ih hmore))))

theorem ParenText.compose {Element : List Char → α → Prop} {as : List α}
    (h : ParenText Element cs as) (helement : ∀ a ∈ as, ∀ cs, Element cs a → P cs) : P cs := by
  obtain ⟨hbefore, hlist, hafter⟩ := h
  have hopen : IsPlain '(' := by decide
  have hclose : P [')'] := hP.fixed rfl
  exact hP.cons hopen (hP.append (hP.spaces hbefore)
    (hP.append (hlist.compose hP helement) (hP.append (hP.spaces hafter) hclose)))

theorem InsertHeading.compose {table : String} {columns : List String}
    (h : InsertHeading cs table columns) : P cs := by
  obtain ⟨hs₁, hs₂, htable, ht₁, hcolumns, ht₂, ht₃⟩ := h
  have hinsert : P "INSERT".toList := hP.fixed rfl
  have hinto : P "INTO".toList := hP.fixed rfl
  have hvalues : P "VALUES".toList := hP.fixed rfl
  have hnames := hcolumns.compose hP fun _ _ _ => hP.name
  exact hP.append hinsert (hP.append (hP.spaces hs₁.spaces) (hP.append hinto
    (hP.append (hP.spaces hs₂.spaces) (hP.append (hP.name htable) (hP.append (hP.spaces ht₁)
      (hP.append hnames (hP.append (hP.spaces ht₂) (hP.append hvalues (hP.spaces ht₃)))))))))

/-- **It holds of an insertion if it holds of the words of its values.** -/
theorem WritesValues.compose {written : List (List Char × Cell)} (h : WritesValues cs written)
    (hvalues : ∀ value ∈ written, ValueText value.1 value.2 → P value.1) : P cs := by
  obtain ⟨heading, list, table, columns, rfl, hheading, hlist⟩ := h
  refine hP.append (hheading.compose hP) (hlist.compose hP ?_)
  rintro value hvalue word ⟨rfl, htext⟩
  exact hvalues value hvalue htext

end

end Statement

namespace Shell

open Statement

variable {cs word content : List Char} {written : List (List Char × Cell)} {value : Cell}
  {quote : Char}

/-! ## Values in quotes -/

/-- A word that does not start with a quote. -/
def Unquoted (word : List Char) : Prop :=
  ∀ c ∈ word.head?, c ≠ '\'' ∧ c ≠ '"'

/-- An open quote stays open up to the next one of its kind. -/
theorem foldl_of_free (hfree : quote ∉ content) :
    content.foldl quoteAfter (some quote) = some quote := by
  induction content with
  | nil => rfl
  | cons c content ih =>
    obtain ⟨hne, hcontent⟩ := not_or.1 (List.mem_cons.not.1 hfree)
    have hc : quoteAfter (some quote) c = some quote := if_neg (Ne.symm hne)
    rw [List.foldl_cons, hc, ih hcontent]

theorem leftOpen_quote (hquote : quote = '\'' ∨ quote = '"') (hfree : quote ∉ content) :
    leftOpen (quote :: content) = some quote := by
  have hopen : quoteAfter none quote = some quote := if_pos hquote
  rw [leftOpen, List.foldl_cons, hopen, foldl_of_free hfree]

/-- **A text in quotes is a piece**, whatever it holds. -/
theorem isPiece_quoted (hquote : quote = '\'' ∨ quote = '"') (hfree : quote ∉ content) :
    IsPiece (quote :: (content ++ [quote])) := by
  have hopen := leftOpen_quote hquote hfree
  have hclosed : Closed (quote :: content ++ [quote]) := by
    rw [Closed, leftOpen_append, hopen]
    exact if_pos rfl
  have huncut : Uncut (quote :: content) := by
    intro front back heq
    cases front with
    | nil =>
      obtain ⟨rfl, -⟩ := List.cons.inj heq
      rcases hquote with hquote | hquote <;> cases hquote
    | cons c front =>
      obtain ⟨rfl, rfl⟩ := List.cons.inj heq
      rw [leftOpen_quote hquote fun hmem => hfree (List.mem_append_left _ hmem)]
      exact Option.some_ne_none _
  refine ⟨hclosed, uncut_concat huncut fun hnone => ?_⟩
  rw [hopen] at hnone
  cases hnone

theorem closed_of_valueText (h : ValueText word value) : Closed word := by
  cases h with
  | quoted hquote hfree => exact (isPiece_quoted hquote hfree).closed
  | bare _ hfree =>
    refine closed_of_quoteless fun c hc => ⟨?_, ?_⟩
    all_goals
      rintro rfl
      exact (hfree _ hc).2 (by decide)

/-- **The word of a value is a piece** unless it is bare and holds a
semicolon. -/
theorem isPiece_of_valueText (h : ValueText word value) (hbare : Unquoted word → ';' ∉ word) :
    IsPiece word := by
  have hclosed := closed_of_valueText h
  cases h with
  | quoted hquote hfree => exact isPiece_quoted hquote hfree
  | bare _ hfree =>
    refine ⟨hclosed, uncut_of_not_mem (hbare fun c hc => ?_)⟩
    have hfree := (hfree c (List.mem_of_mem_head? hc)).2
    simp only [List.mem_cons, not_or] at hfree
    exact ⟨hfree.2.2.2.1, hfree.2.2.2.2.1⟩

/-! ## Insertions -/

theorem composes_closed : Composes Closed where
  plain h := closed_of_quoteless fun c hc => (h c hc).1
  append := Closed.append

theorem composes_isPiece : Composes IsPiece where
  plain h := ⟨composes_closed.plain h, uncut_of_not_mem fun hmem => (h _ hmem).2 rfl⟩
  append := IsPiece.append

theorem WritesValues.ne_nil (h : WritesValues cs written) : cs ≠ [] := by
  obtain ⟨_, _, _, _, rfl, ⟨_, _, _, _, _, _, _⟩, _⟩ := h
  exact List.cons_ne_nil _ _

/-- **An insertion is left whole** unless a bare value holds a semicolon. -/
theorem splitLine_of_writes (h : WritesValues (trim cs) written)
    (hbare : ∀ value ∈ written, Unquoted value.1 → ';' ∉ value.1) :
    splitLine cs = [trim cs] := by
  have hpiece : IsPiece (trim cs) := h.compose composes_isPiece fun value hvalue htext =>
    isPiece_of_valueText htext (hbare value hvalue)
  exact splitLine_of_uncut (IsPiece.of_trim hpiece).uncut (WritesValues.ne_nil h)

theorem closed_of_writes (h : WritesValues (trim cs) written) : Closed cs :=
  closed_trim.1 (h.compose composes_closed fun _ _ => closed_of_valueText)

/-- An accepted insertion is all of its text. -/
theorem insertText_of_parse {text : String} {addition : Insert}
    (h : parse text = .ok (.insert addition)) : InsertText (trim text.toList) addition := by
  have hverdict := verdict_parse text
  rw [h] at hverdict
  obtain ⟨hbegins, -⟩ := hverdict
  generalize trim text.toList = cs at hbegins ⊢
  cases hbegins with
  | insert hinsert => rwa [List.append_nil]

/-- **Splitting a line inverts joining its statements, and never cuts a quoted
value.** Pieces come back trimmed, whatever blanks and blank pieces are around
them; what any line is split into is trimmed, not empty, uncut and closed, but
for an open quote at the end of the line; and an accepted insertion is closed,
and is split no further if no bare value holds a semicolon. -/
theorem splitLine_inverts_joining :
    (∀ texts parts, Padded texts parts → (∀ text ∈ texts, IsPiece text) →
      (∀ text ∈ texts, isBlankText text = false) →
        splitLine ([';'].intercalate parts) = texts.map trim) ∧
    (∀ line, (∀ piece ∈ splitLine line,
        Trimmed piece ∧ piece ≠ [] ∧ Uncut piece ∧ splitLine piece = [piece]) ∧
      ∀ piece ∈ (splitLine line).dropLast, Closed piece) ∧
    (∀ (text : String) (addition : Insert), parse text = .ok (.insert addition) →
      Closed text.toList ∧ (∃ written, WritesValues (trim text.toList) written) ∧
      ∀ written, WritesValues (trim text.toList) written →
        written.map Prod.snd = addition.values ∧
        ((∀ value ∈ written, Unquoted value.1 → ';' ∉ value.1) →
          splitLine text.toList = [trim text.toList])) := by
  refine ⟨fun _ _ => splitLine_join,
    fun _ => ⟨fun _ => isStatement_of_mem_splitLine, fun _ => closed_of_mem_splitLine⟩,
    fun text addition hparse => ?_⟩
  have hinsert := insertText_of_parse hparse
  obtain ⟨written, hwritten⟩ := hinsert.exists_written
  exact ⟨closed_of_writes hwritten, ⟨written, hwritten⟩, fun _ hother =>
    ⟨hother.values_eq hinsert, splitLine_of_writes hother⟩⟩

/-- A line with a blank piece before, between and behind two statements, both
with a semicolon and a quote of the other kind in quotes; then the second of
them alone, which is an insertion. -/
theorem splitLine_inverts_joining_quotes :
    let selection := "SELECT * FROM t WHERE a = '\";'".toList
    let insertion := "INSERT INTO t (a, b) VALUES (\"';\", x)"
    let parts := [[], [' '] ++ (selection ++ [' ']), [], ['\t'] ++ (insertion.toList ++ []), []]
    splitLine ([';'].intercalate parts) = [trim selection, trim insertion.toList] ∧
      parse insertion = .ok (.insert ⟨"t", ["a", "b"], [.text "';", .text "x"]⟩) ∧
      splitLine insertion.toList = [trim insertion.toList] := by
  intro selection insertion parts
  have hpadded : Padded [selection, insertion.toList] parts :=
    .blank rfl (.text rfl rfl (.blank rfl (.text rfl rfl (.blank rfl .nil))))
  have hpieces : ∀ text ∈ [selection, insertion.toList], IsPiece text := by decide +kernel
  have hsolid : ∀ text ∈ [selection, insertion.toList], isBlankText text = false := by
    decide +kernel
  have hparse : parse insertion = .ok (.insert ⟨"t", ["a", "b"], [.text "';", .text "x"]⟩) := by
    decide +kernel
  have hgap : Gap [' '] := ⟨List.cons_ne_nil _ _, List.forall_mem_singleton.2 rfl⟩
  have hnone : Spaces [] := fun c hc => absurd hc List.not_mem_nil
  have hname : ∀ name : String, isIdentifier name = true → NameText name.toList name :=
    fun _ => .mk rfl
  have hheading : InsertHeading "INSERT INTO t (a, b) VALUES ".toList "t" ["a", "b"] :=
    .heading hgap hgap (hname "t" rfl) hgap.spaces
      (.parens hnone (.comma (hname "a" rfl) hnone hgap.spaces (.last (hname "b" rfl))) hnone)
      hgap.spaces hgap.spaces
  have hquoted : WrittenText "\"';\"".toList ("\"';\"".toList, .text "';") :=
    ⟨rfl, @ValueText.quoted '"' "';".toList (.inr rfl) (by decide)⟩
  have hword : WrittenText ['x'] (['x'], .text "x") :=
    ⟨rfl, @ValueText.bare ['x'] (List.cons_ne_nil _ _) (List.forall_mem_singleton.2 (by decide))⟩
  have hlist : ParenText WrittenText "(\"';\", x)".toList
      [("\"';\"".toList, .text "';"), (['x'], .text "x")] :=
    .parens hnone (.comma hquoted hnone hgap.spaces (.last hword)) hnone
  have hwritten : WritesValues (trim insertion.toList)
      [("\"';\"".toList, .text "';"), (['x'], .text "x")] :=
    ⟨_, _, _, _, by decide +kernel, hheading, hlist⟩
  have hbare : ∀ value ∈ [("\"';\"".toList, Cell.text "';"), (['x'], .text "x")],
      Unquoted value.1 → ';' ∉ value.1 := by
    refine List.forall_mem_cons.2 ⟨fun hunquoted => ?_,
      List.forall_mem_singleton.2 fun _ => by decide⟩
    exact absurd rfl (hunquoted _ rfl).2
  obtain ⟨hjoin, -, hinsertion⟩ := splitLine_inverts_joining
  obtain ⟨-, -, hwhole⟩ := hinsertion _ _ hparse
  exact ⟨hjoin _ _ hpadded hpieces hsolid, hparse, (hwhole _ hwritten).2 hbare⟩

end Shell

end ShardStore

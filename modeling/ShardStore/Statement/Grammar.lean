import ShardStore.Failure
import ShardStore.Statement
/-!
# Statements — the grammar

Which texts write which statement, said of texts and not of a reader. Each
part of a statement is a relation between a text and what it denotes, and a
statement is a sequence of such texts (`Begins`). A text may write a
statement and go on after it; all of it is a statement when nothing is left.
From this it is settled what any text is taken for (`Verdict`).

Every identifier is the longest run of its characters that there is. In the
middle of a statement this needs no saying: a space, a comma or a
parenthesis follows. At the end of a selection it is asked of the rest.
-/

namespace ShardStore

open Text

namespace Statement

/-- One or more spaces. -/
structure Gap (cs : List Char) : Prop where
  nonempty : cs ≠ []
  spaces : Spaces cs

/-- The text of a name. -/
structure NameText (cs : List Char) (name : String) : Prop where
  text : cs = name.toList
  identifier : isIdentifier name = true

/-- The text of a value: a text between two quotes of one kind, which does
not hold that quote; or a word without blanks, commas, parentheses and
quotes, which denotes null if it is the null word. -/
inductive ValueText : List Char → Cell → Prop
  | quoted {quote : Char} {content : List Char} (hquote : quote = '\'' ∨ quote = '"')
      (hfree : quote ∉ content) :
      ValueText (quote :: (content ++ [quote])) (.text (String.ofList content))
  | bare {word : List Char} (hword : word ≠ [])
      (hfree : ∀ c ∈ word, isBlank c = false ∧ c ∉ [',', '(', ')', '\'', '"']) :
      ValueText word (if isNullWord word then .null else .text (String.ofList word))

variable {α : Type}

/-- The text of one or more elements, with a comma between each two and
spaces around it. -/
inductive ListText (Element : List Char → α → Prop) : List Char → List α → Prop
  | last {cs : List Char} {a : α} (h : Element cs a) : ListText Element cs [a]
  | comma {cs before after more : List Char} {a : α} {as : List α} (h : Element cs a)
      (hbefore : Spaces before) (hafter : Spaces after) (hmore : ListText Element more as) :
      ListText Element (cs ++ (before ++ ',' :: (after ++ more))) (a :: as)

/-- The text of a list in parentheses. -/
inductive ParenText (Element : List Char → α → Prop) : List Char → List α → Prop
  | parens {before cs after : List Char} {as : List α} (hbefore : Spaces before)
      (h : ListText Element cs as) (hafter : Spaces after) :
      ParenText Element ('(' :: (before ++ (cs ++ (after ++ [')'])))) as

/-- The text of the columns of a selection; a star stands for all. -/
inductive ColumnsText : List Char → List String → Prop
  | star : ColumnsText ['*'] []
  | named {cs : List Char} {columns : List String} (h : ListText NameText cs columns) :
      ColumnsText cs columns

/-- The text of a selection up to its table. -/
inductive HeadingText : List Char → List String → String → Prop
  | heading {cs s₁ s₂ s₃ name : List Char} {columns : List String} {table : String}
      (hs₁ : Gap s₁) (hcolumns : ColumnsText cs columns) (hs₂ : Gap s₂) (hs₃ : Gap s₃)
      (htable : NameText name table) :
      HeadingText ("SELECT".toList ++ (s₁ ++ (cs ++ (s₂ ++ ("FROM".toList ++ (s₃ ++ name))))))
        columns table

/-- The text of a condition after the table of a selection. -/
inductive WhereText : List Char → String → Prop
  | condition {s₁ s₂ cs : List Char} (hs₁ : Gap s₁) (hs₂ : Gap s₂)
      (htext : isBlankText cs = false) :
      WhereText (s₁ ++ ("WHERE".toList ++ (s₂ ++ cs))) (String.ofList (trim cs))

/-- The text of an insertion. -/
inductive InsertText : List Char → Insert → Prop
  | insertion {s₁ s₂ name t₁ cs t₂ t₃ vs : List Char} {table : String} {columns : List String}
      {values : List Cell} (hs₁ : Gap s₁) (hs₂ : Gap s₂) (htable : NameText name table)
      (ht₁ : Spaces t₁) (hcolumns : ParenText NameText cs columns) (ht₂ : Spaces t₂)
      (ht₃ : Spaces t₃) (hvalues : ParenText ValueText vs values) :
      InsertText ("INSERT".toList ++ (s₁ ++ ("INTO".toList ++ (s₂ ++ (name ++ (t₁ ++ (cs ++ (t₂ ++
        ("VALUES".toList ++ (t₃ ++ vs)))))))))) ⟨table, columns, values⟩

/-- No character of a kind leads the text. -/
def Stops (kind : Char → Bool) (rest : List Char) : Prop :=
  ∀ c ∈ rest.head?, kind c = false

/-- **A text that writes a statement**, and the rest of it. -/
inductive Begins : List Char → Statement → List Char → Prop
  | select {cs rest : List Char} {columns : List String} {table : String}
      (h : HeadingText cs columns table) (hrest : Stops isIdentifierChar rest) :
      Begins (cs ++ rest) (.select ⟨columns, table, none⟩) rest
  | filtered {cs ds rest : List Char} {columns : List String} {table condition : String}
      (h : HeadingText cs columns table) (hwhere : WhereText ds condition) :
      Begins (cs ++ (ds ++ rest)) (.select ⟨columns, table, some condition⟩) rest
  | insert {cs rest : List Char} {addition : Insert} (h : InsertText cs addition) :
      Begins (cs ++ rest) (.insert addition) rest

/-- As many values as columns, where there are any. -/
def Balanced : Statement → Prop
  | select _ => True
  | insert addition => addition.columns.length = addition.values.length

/-- **What a text without blank edges is taken for.** All of it is a statement,
or an insertion with too few or too many values; or only the beginning is
one, and what is left is in excess; or there is no statement at its
beginning. -/
inductive Verdict (cs : List Char) : Except StatementError Statement → Prop
  | accepted {statement : Statement} (h : Begins cs statement []) (hcounts : statement.Balanced) :
      Verdict cs (.ok statement)
  | mismatched {addition : Insert} (h : Begins cs (.insert addition) [])
      (hcounts : addition.columns.length ≠ addition.values.length) :
      Verdict cs (.error (.countMismatch addition.columns.length addition.values.length))
  | trailing {statement : Statement} {rest : List Char} (hwhole : ∀ other, ¬ Begins cs other [])
      (h : Begins cs statement rest) (hrest : rest ≠ []) :
      Verdict cs (.error (.trailing (String.ofList (trim rest))))
  | unsupported (h : ∀ statement rest, ¬ Begins cs statement rest) :
      Verdict cs (.error (.unsupported (String.ofList cs)))

end Statement

end ShardStore

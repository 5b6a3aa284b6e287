import ShardStore.Failure
import ShardStore.Statement
import ShardStore.Text.Parsed
/-!
# Statements — reading

A statement is read from the left, each part as long as it can be, and
nothing is read twice but for two choices: a comma that no list element
follows is left unread, and so is a `WHERE` without a condition. What is
left after a statement is an error of its own, which comes before a
mismatch of the columns and the values of an insertion.
-/

namespace ShardStore

open Text

namespace Statement

/-- Reads an element off a text, or refuses it. -/
abbrev Scan (α : Type) := (cs : List Char) → Option (Parsed α cs.length)

theorem length_dropWhile_le (p : Char → Bool) (cs : List Char) :
    (cs.dropWhile p).length ≤ cs.length :=
  (List.dropWhile_sublist p).length_le

theorem length_of_dropWhile {p : Char → Bool} {cs rest : List Char} {c : Char}
    (h : cs.dropWhile p = c :: rest) : rest.length < cs.length := by
  have hle := length_dropWhile_le p cs
  rw [h, List.length_cons] at hle
  exact hle

/-- Reads the longest run of characters of a kind, which may not be empty. -/
def run (kind : Char → Bool) : Scan (List Char)
  | [] => none
  | c :: cs =>
    if kind c then
      some ⟨c :: cs.takeWhile kind, cs.dropWhile kind,
        Nat.lt_succ_of_le (length_dropWhile_le kind cs)⟩
    else
      none

/-- Reads an identifier. -/
def identifier : Scan String := fun cs =>
  (run isIdentifierChar cs).map (·.map String.ofList)

/-- Reads a text between two quotes `quote`. -/
def quotedText (quote : Char) : Scan String
  | [] => none
  | c :: cs =>
    if c = quote then
      match h : cs.dropWhile (· ≠ quote) with
      | [] => none
      | _ :: rest => some ⟨String.ofList (cs.takeWhile (· ≠ quote)), rest,
          Nat.lt_succ_of_lt (length_of_dropWhile h)⟩
    else
      none

/-- The characters of a value without quotes. -/
def isBareChar (c : Char) : Bool :=
  !isBlank c && c != ',' && c != '(' && c != ')' && c != '\'' && c != '"'

/-- The cell that a value without quotes denotes. -/
def bareCell (word : List Char) : Cell :=
  if isNullWord word then .null else .text (String.ofList word)

/-- Reads a value: a text in quotes of either kind, or a bare word. -/
def value : Scan Cell := fun cs =>
  match quotedText '\'' cs with
  | some p => some (p.map Cell.text)
  | none =>
    match quotedText '"' cs with
    | some p => some (p.map Cell.text)
    | none => (run isBareChar cs).map (·.map bareCell)

/-- The text after a comma and the spaces on both sides of it. -/
def afterComma? (cs : List Char) : Option (List Char) :=
  match skipSpaces cs with
  | ',' :: rest => some (skipSpaces rest)
  | _ => none

theorem length_afterComma? {cs rest : List Char} (h : afterComma? cs = some rest) :
    rest.length < cs.length := by
  unfold afterComma? at h
  split at h
  · next more hm =>
    have h1 := length_skipSpaces_le cs
    have h2 := length_skipSpaces_le more
    simp only [Option.some.injEq] at h
    simp only [hm, List.length_cons] at h1
    rw [← h]
    omega
  · simp at h

/-- Reads further elements, each after a comma, onto those of `done`, which
are in reverse order. -/
def moreElements {α : Type} (element : Scan α) (bound : Nat) (done : List α) (cs : List Char)
    (h : cs.length < bound) : Parsed (List α) bound :=
  match hc : afterComma? cs with
  | none => ⟨done.reverse, cs, h⟩
  | some next =>
    match element next with
    | none => ⟨done.reverse, cs, h⟩
    | some p =>
      have := length_afterComma? hc
      have := p.shorter
      moreElements element bound (p.value :: done) p.rest (by omega)
termination_by cs.length

/-- Reads one or more elements with commas between them. -/
def elements {α : Type} (element : Scan α) : Scan (List α) := fun cs =>
  (element cs).map fun p => moreElements element cs.length [p.value] p.rest p.shorter

/-- The text after one or more spaces. -/
def afterSpaces? : List Char → Option (List Char)
  | c :: cs => if isSpace c then some (skipSpaces cs) else none
  | [] => none

/-- The text after a word. -/
def afterWord? (word : String) (cs : List Char) : Option (List Char) :=
  after? word.toList cs

/-- Reads one or more elements in parentheses. -/
def parenthesized {α : Type} (element : Scan α) (cs : List Char) :
    Option (List α × List Char) := do
  let cs ← afterWord? "(" cs
  let list ← elements element (skipSpaces cs)
  let cs ← afterWord? ")" (skipSpaces list.rest)
  return (list.value, cs)

/-- Reads the columns of a selection; a star stands for all. -/
def selectColumns (cs : List Char) : Option (List String × List Char) :=
  match cs with
  | '*' :: rest => some ([], rest)
  | _ => (elements identifier cs).map fun p => (p.value, p.rest)

/-- Reads the condition of a selection, which fills the rest of the text. -/
def whereClause (cs : List Char) : Option String := do
  let cs ← afterSpaces? cs
  let cs ← afterWord? "WHERE" cs
  let cs ← afterSpaces? cs
  if isBlankText cs then none else some (String.ofList (trim cs))

/-- Reads a selection off a text. -/
def readSelect (cs : List Char) : Option (Select × List Char) := do
  let cs ← afterWord? "SELECT" cs
  let cs ← afterSpaces? cs
  let (columns, cs) ← selectColumns cs
  let cs ← afterSpaces? cs
  let cs ← afterWord? "FROM" cs
  let cs ← afterSpaces? cs
  let table ← identifier cs
  match whereClause table.rest with
  | some condition => return (⟨columns, table.value, some condition⟩, [])
  | none => return (⟨columns, table.value, none⟩, table.rest)

/-- Reads an insertion off a text. -/
def readInsert (cs : List Char) : Option (Insert × List Char) := do
  let cs ← afterWord? "INSERT" cs
  let cs ← afterSpaces? cs
  let cs ← afterWord? "INTO" cs
  let cs ← afterSpaces? cs
  let table ← identifier cs
  let (columns, cs) ← parenthesized identifier (skipSpaces table.rest)
  let cs ← afterWord? "VALUES" (skipSpaces cs)
  let (values, cs) ← parenthesized value (skipSpaces cs)
  return (⟨table.value, columns, values⟩, cs)

/-- Reads a statement off a text. -/
def read (cs : List Char) : Option (Statement × List Char) :=
  match readSelect cs with
  | some (query, rest) => some (.select query, rest)
  | none => (readInsert cs).map fun (addition, rest) => (.insert addition, rest)

/-- Refuses an insertion with fewer or more values than columns. -/
def checkCounts : Statement → Except StatementError Statement
  | insert addition =>
    if addition.columns.length = addition.values.length then .ok (insert addition)
    else .error (.countMismatch addition.columns.length addition.values.length)
  | select query => .ok (select query)

/-- The statement that a text writes, blanks around it apart. -/
def parse (text : String) : Except StatementError Statement :=
  let cs := trim text.toList
  match read cs with
  | none => .error (.unsupported (String.ofList cs))
  | some (statement, rest) =>
    if isBlankText rest then checkCounts statement
    else .error (.trailing (String.ofList (trim rest)))

end Statement

end ShardStore

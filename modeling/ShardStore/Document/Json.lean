import ShardStore.Document
import ShardStore.Json.Reader
import ShardStore.Json.Text
/-!
# Documents — their JSON text

A document is written as an object of its columns and its rows, a row as
an object, a text cell as a string and a null cell as null. Any order of
the keys of a row may be written (`layout`); `Document.json` takes the
order of the row. A document is read from such an object, or from a list
of the two fields, with unknown keys passed over.
-/

namespace ShardStore

open Json

/-- The deepest nesting of brackets that is read. -/
def maxNesting : Nat := 127

namespace Cell

/-- The JSON text of a cell. -/
def json : Cell → List Char
  | text content => quote content
  | null => ['n', 'u', 'l', 'l']

/-- Reads a cell inside `depth` open brackets. A value that is neither a
string nor null is checked to its end before it is refused. -/
def jsonReader (depth : Nat) : Reader Cell := fun cs =>
  match h : Text.skipSpaces cs with
  | [] => .error .truncated
  | c :: rest =>
    if c = '"' then
      (string .checked rest).map fun p =>
        (p.widen (length_le_of_skipSpaces h)).map Cell.text
    else
      match check (maxNesting - depth) cs with
      | .error e => .error e
      | .ok p => if c = 'n' then .ok (p.map fun _ => .null) else .error .misshapen

/-- The cell that a JSON text holds. -/
def ofJson (text : String) : Except JsonProblem Cell :=
  readAll (jsonReader 0) text

end Cell

namespace Document

/-- The JSON text of one row, with its keys in the given order. -/
def rowLayout (cells : List (String × Cell)) : List Char :=
  block '{' '}' 2 (cells.map fun (column, cell) => quote column ++ [':', ' '] ++ cell.json)

/-- The JSON text of columns and rows, with the keys of each row in the
given order. -/
def layout (columns : List String) (rows : List (List (String × Cell))) : List Char :=
  block '{' '}' 0
    [quote "columns" ++ [':', ' '] ++ block '[' ']' 1 (columns.map quote),
     quote "rows" ++ [':', ' '] ++ block '[' ']' 1 (rows.map rowLayout)]

/-- The JSON text of a document. -/
def json (document : Document) : String :=
  String.ofList (layout document.columns (document.rows.map (·.toList)))

/-- The columns of a document. -/
def columnsReader : Reader (List String) :=
  listValue stringValue

/-- One row of a document; the last cell of a repeated key counts. -/
def rowReader : Reader Row :=
  objectValue
    (fun row column => .ok fun cs =>
      (Cell.jsonReader 3 cs).map (·.map fun cell => row.insert column cell))
    ∅

/-- The rows of a document. -/
def rowsReader : Reader (List Row) :=
  listValue rowReader

/-- The fields of a document that have been read. -/
structure Fields where
  columns : Option (List String)
  rows : Option (List Row)

/-- How the value of a key of a document is read; no field may come
twice. -/
def fieldReader (fields : Fields) (key : String) : Except JsonProblem (Reader Fields) :=
  if key = "columns" then
    match fields.columns with
    | some _ => .error .misshapen
    | none => .ok fun cs =>
        (columnsReader cs).map (·.map fun columns => { fields with columns := some columns })
  else if key = "rows" then
    match fields.rows with
    | some _ => .error .misshapen
    | none => .ok fun cs =>
        (rowsReader cs).map (·.map fun rows => { fields with rows := some rows })
  else .ok (ignored fields)

/-- Reads one element of a list that must have it. -/
def nextField {α : Type} (reader : Reader α) (first : Bool) : Reader α := fun cs =>
  match h : nextElement first cs with
  | .error e => .error e
  | .ok (.closed _) => .error .misshapen
  | .ok (.member next) => (reader next).map (·.widen (length_nextElement_member h))

/-- The fields of a document as the elements of a list. -/
def fieldsReader : Reader Fields := fun cs =>
  match nextField columnsReader true cs with
  | .error e => .error e
  | .ok columns =>
    match nextField rowsReader false columns.rest with
    | .error e => .error e
    | .ok rows =>
      match listEnd rows.rest with
      | .error e => .error e
      | .ok p =>
        have h := Nat.le_of_lt (Nat.lt_trans rows.shorter columns.shorter)
        .ok ((p.widen h).map fun _ => ⟨some columns.value, some rows.value⟩)

/-- Reads a document, which must have both fields. -/
def jsonReader : Reader Document := fun cs =>
  match recordValue fieldReader ⟨none, none⟩ fieldsReader cs with
  | .error e => .error e
  | .ok p =>
    match p.value with
    | ⟨some columns, some rows⟩ => .ok (p.map fun _ => ⟨columns, rows⟩)
    | _ => .error .misshapen

/-- The document that a JSON text holds. -/
def ofJson (text : String) : Except JsonProblem Document :=
  readAll jsonReader text

end Document

end ShardStore

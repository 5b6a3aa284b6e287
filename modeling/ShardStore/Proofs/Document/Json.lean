import Mathlib.Data.List.Forall2
import ShardStore.Document.Json
import ShardStore.Proofs.Json.Block
import ShardStore.Proofs.Table
/-!
# Documents — the JSON text of a document is read as the document

Each part is read by the reader of its form: a cell as a string or as the
null word, a row as an object in which each key adds a cell, a document as
an object of its two fields. A row may be written with its cells in any
order; it is the row of the pairs in that order (`Document.ofJson_layout`), so
a document is read back from each of its texts (`Document.IsText`).
-/

namespace ShardStore

open Json Text

/-- A null cell is checked as a word and then taken for null. -/
theorem Cell.reads_json (depth : Nat) (cell : Cell) :
    Reads (Cell.jsonReader depth) cell.json cell := by
  intro spaces rest hspaces
  cases cell with
  | text content =>
    have hskip := skipSpaces_spaces hspaces (c := '"') rfl
      (content.toList.flatMap escapeChar ++ '"' :: rest)
    obtain ⟨p, hp, hvalue, hrest⟩ := string_quote content rest
    rw [Cell.json, quote_append]
    unfold jsonReader
    split
    · next heq => rw [hskip] at heq; cases heq
    · next c more heq =>
      rw [hskip] at heq
      cases heq
      rw [if_pos rfl, hp]
      exact ⟨_, rfl, by simp [hvalue], hrest⟩
  | null =>
    -- The word is checked like any other value before its first letter decides.
    have hskip := skipSpaces_spaces hspaces (c := 'n') rfl ('u' :: 'l' :: 'l' :: rest)
    have hcheck : ∃ p, check (maxNesting - depth)
        (spaces ++ 'n' :: 'u' :: 'l' :: 'l' :: rest) = .ok p ∧ p.rest = rest :=
      skipValue_null hspaces .checked _ _ rest _
    obtain ⟨p, hp, hrest⟩ := hcheck
    have htext : Cell.null.json ++ rest = 'n' :: 'u' :: 'l' :: 'l' :: rest := rfl
    rw [htext]
    unfold jsonReader
    split
    · next heq => rw [hskip] at heq; cases heq
    · next c more heq =>
      rw [hskip] at heq
      cases heq
      simp only [Char.reduceEq, if_false, hp, if_true]
      exact ⟨_, rfl, rfl, hrest⟩

namespace Document

/-- The members of a row add its cells one after the other. -/
theorem members_row (cells : List (String × Cell)) (row : Row) :
    Members (fun row column => .ok fun cs =>
        (Cell.jsonReader 3 cs).map (·.map fun cell => row.insert column cell))
      row (cells.map fun (column, cell) => quote column ++ [':', ' '] ++ cell.json)
      (cells.foldl (fun row pair => row.insert pair.1 pair.2) row) := by
  induction cells generalizing row with
  | nil => exact .nil row
  | cons pair cells ih =>
    obtain ⟨column, cell⟩ := pair
    exact .cons rfl ((Cell.reads_json 3 cell).map fun cell => Std.ExtTreeMap.insert row column cell)
      (ih _)

theorem reads_row (cells : List (String × Cell)) :
    Reads rowReader (rowLayout cells) (Row.ofPairs cells) :=
  reads_objectValue (members_row cells ∅) 2

theorem startsElement_quote (s : String) : StartsElement (quote s) :=
  ⟨'"', _, rfl, rfl, by decide⟩

theorem startsElement_row (cells : List (String × Cell)) : StartsElement (rowLayout cells) := by
  obtain ⟨body, hbody⟩ := block_eq_cons '{' '}' 2
    (cells.map fun (column, cell) => quote column ++ [':', ' '] ++ cell.json) []
  rw [List.append_nil] at hbody
  exact ⟨'{', body, hbody, rfl, by decide⟩

theorem reads_columns (columns : List String) :
    Reads columnsReader (block '[' ']' 1 (columns.map quote)) columns := by
  have hlist := reads_listValue columns (fun column _ => reads_stringValue column)
    (fun column _ => startsElement_quote column) 1
  rwa [List.map_id'] at hlist

theorem reads_rows (rows : List (List (String × Cell))) :
    Reads rowsReader (block '[' ']' 1 (rows.map rowLayout)) (rows.map Row.ofPairs) :=
  reads_listValue rows (fun cells _ => reads_row cells) (fun cells _ => startsElement_row cells) 1

theorem members_layout (columns : List String) (rows : List (List (String × Cell))) :
    Members fieldReader ⟨none, none⟩
      [memberText "columns" (block '[' ']' 1 (columns.map quote)),
        memberText "rows" (block '[' ']' 1 (rows.map rowLayout))]
      ⟨some columns, some (rows.map Row.ofPairs)⟩ := by
  refine .cons rfl ((reads_columns columns).map fun columns => Fields.mk (some columns) none) ?_
  refine .cons rfl ((reads_rows rows).map fun rows => Fields.mk (some columns) (some rows)) ?_
  exact .nil _

theorem reads_layout (columns : List String) (rows : List (List (String × Cell))) :
    Reads jsonReader (layout columns rows) ⟨columns, rows.map Row.ofPairs⟩ := by
  intro spaces rest hspaces
  obtain ⟨p, hp, hvalue, hrest⟩ :=
    reads_recordValue (members_layout columns rows) fieldsReader 0 spaces rest hspaces
  have hlayout : layout columns rows = block '{' '}' 0
      [memberText "columns" (block '[' ']' 1 (columns.map quote)),
        memberText "rows" (block '[' ']' 1 (rows.map rowLayout))] := rfl
  rw [hlayout, jsonReader, hp]
  simp only [hvalue]
  exact ⟨_, rfl, rfl, hrest⟩

/-- **A layout is read as its columns and its rows**, whatever the order of
the keys of a row. -/
theorem ofJson_layout (columns : List String) (rows : List (List (String × Cell))) :
    ofJson (String.ofList (layout columns rows)) = .ok ⟨columns, rows.map Row.ofPairs⟩ :=
  readAll_of_reads (reads_layout columns rows)

/-! ## The texts of a document -/

/-- The texts of a document: its columns and its rows are written in order,
and the cells of each row in an order of their own. -/
def IsText (document : Document) (text : String) : Prop :=
  ∃ rows : List (List (String × Cell)),
    List.Forall₂ (fun cells row => cells.Perm row.toList) rows document.rows ∧
      text = String.ofList (layout document.columns rows)

variable {document : Document} {text : String}

/-- Rows that are written in any order of their cells are the rows. -/
theorem map_ofPairs_of_perm {written : List (List (String × Cell))} {rows : List Row}
    (h : List.Forall₂ (fun cells row => cells.Perm row.toList) written rows) :
    written.map Row.ofPairs = rows := by
  induction h with
  | nil => rfl
  | cons hrow _ ih => rw [List.map_cons, Row.ofPairs_of_perm hrow, ih]

/-- **A document is read back from each of its texts.** -/
theorem IsText.ofJson_eq (h : document.IsText text) : ofJson text = .ok document := by
  obtain ⟨rows, hrows, rfl⟩ := h
  rw [ofJson_layout, map_ofPairs_of_perm hrows]

/-- So no two documents have a text in common. -/
theorem IsText.unique {other : Document} (h : document.IsText text) (h' : other.IsText text) :
    document = other :=
  Except.ok.inj (h.ofJson_eq.symm.trans h'.ofJson_eq)

/-- The text that is written is one of them, with each row in its own
order. -/
theorem isText_json (document : Document) : document.IsText document.json := by
  refine ⟨document.rows.map (·.toList), ?_, by rw [json]⟩
  rw [List.forall₂_map_left_iff, List.forall₂_same]
  exact fun row _ => .refl row.toList

end Document

end ShardStore

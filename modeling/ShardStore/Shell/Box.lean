/-!
# Shell — boxes

A result is shown as a box: a header, a rule below it, and the rows, with
every column as wide as its widest text and one blank on both sides of
each text. Widths count characters.
-/

namespace ShardStore

namespace Shell

/-- The text with blanks after it up to a width. -/
def padRight (width : Nat) (text : String) : String :=
  text ++ String.ofList (List.replicate (width - text.length) ' ')

/-- The text with blanks before it up to a width. -/
def padLeft (width : Nat) (text : String) : String :=
  String.ofList (List.replicate (width - text.length) ' ') ++ text

/-- The widths of columns: the largest in the header and in the rows. -/
def widths (header : List String) (rows : List (List String)) : List Nat :=
  rows.foldl (fun widths row => List.zipWith max widths (row.map String.length))
    (header.map String.length)

/-- One line of a box: the texts of the cells between bars. -/
def boxRow (widths : List Nat) (cells : List String) : String :=
  "│" ++ "│".intercalate
    (List.zipWith (fun cell width => " " ++ padRight width cell ++ " ") cells widths) ++ "│"

/-- One rule of a box, from its joints. -/
def boxRule (left middle right : String) (widths : List Nat) : String :=
  left ++ middle.intercalate
    (widths.map fun width => String.ofList (List.replicate (width + 2) '─')) ++ right

/-- The lines of the box of a header and rows. -/
def box (header : List String) (rows : List (List String)) : List String :=
  let ws := widths header rows
  boxRule "┌" "┬" "┐" ws :: boxRow ws header :: boxRule "├" "┼" "┤" ws ::
    (rows.map (boxRow ws) ++ [boxRule "└" "┴" "┘" ws])

end Shell

end ShardStore

import ShardStore.Text.Blank
import ShardStore.Text.Identifier
import ShardStore.Text.Size
/-!
# Shell — commands

One piece of a line is one command. Statements are known by their first
word and left to the statement reader, dot commands by their first word
and the number of their arguments, and the two splits by their keywords,
which a blank or the end of the text must follow.
-/

namespace ShardStore

open Text

namespace Shell

/-- What a user asks for. -/
inductive Command where
  | statement (text : String)
  | scaleHorizontally (table : String) (size : Option Nat)
  | scaleVertically (table : String) (groups : List (List String))
  | createTable (table : String) (columns : List String)
  | listTables
  | help
  | quit
  | unsupported (text : String)
deriving DecidableEq, Repr

namespace Command

/-- The names of a group, which commas separate; blank ones are left
out. -/
def group (word : List Char) : List String :=
  (((word.splitOn ',').map trim).filter (! ·.isEmpty)).map String.ofList

/-- The text after a keyword that a blank or the end of the text
follows. -/
def afterKeyword? (keyword : String) (cs : List Char) : Option (List Char) :=
  match after? keyword.toList cs with
  | some [] => some []
  | some (c :: rest) => if isBlank c then some (c :: rest) else none
  | none => none

/-- The dot command of a text. -/
def ofDotText (text : List Char) : Command :=
  match (words text).map String.ofList with
  | [word] =>
    if word = ".help" ∨ word = ".h" then help
    else if word = ".quit" ∨ word = ".q" ∨ word = ".exit" then quit
    else if word = ".tables" ∨ word = ".t" then listTables
    else unsupported (String.ofList text)
  | [word, table, columns] =>
    if word = ".create" then createTable table (group columns.toList)
    else unsupported (String.ofList text)
  | _ => unsupported (String.ofList text)

/-- The command of a text without blank edges. -/
def ofTrimmed (text : List Char) : Command :=
  if sameLetters text "exit".toList then quit
  else if text.head? = some '.' then ofDotText text
  else if (after? "SELECT".toList text).isSome || (after? "INSERT".toList text).isSome then
    statement (String.ofList text)
  else
    match afterKeyword? "HORIZONTAL SCALING" text with
    | some arguments =>
      match words arguments with
      | [table] => scaleHorizontally (String.ofList table) none
      | [table, size] =>
        match readSize? size with
        | some n => scaleHorizontally (String.ofList table) (some n)
        | none => unsupported (String.ofList text)
      | _ => unsupported (String.ofList text)
    | none =>
      match afterKeyword? "VERTICAL SCALING" text with
      | some arguments =>
        match words arguments with
        | table :: groups => scaleVertically (String.ofList table) (groups.map group)
        | [] => unsupported (String.ofList text)
      | none => unsupported (String.ofList text)

/-- The command of a text. -/
def parse (text : String) : Command :=
  ofTrimmed (trim text.toList)

end Command

end Shell

end ShardStore

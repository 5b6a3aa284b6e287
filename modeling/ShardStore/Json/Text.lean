/-!
# JSON — writing

Strings are written in quotes with the shortest escapes, and nothing is
escaped that need not be. Lists and objects are laid out with one member a
line, two spaces deeper than their brackets; an empty one is its brackets
alone.
-/

namespace ShardStore

namespace Json

/-- How a character is written inside a string. -/
def escapeChar (c : Char) : List Char :=
  if c = '"' then ['\\', '"']
  else if c = '\\' then ['\\', '\\']
  else if c = '\x08' then ['\\', 'b']
  else if c = '\t' then ['\\', 't']
  else if c = '\n' then ['\\', 'n']
  else if c = '\x0c' then ['\\', 'f']
  else if c = '\r' then ['\\', 'r']
  else if c.toNat < 32 then
    ['\\', 'u', '0', '0', Nat.digitChar (c.toNat / 16), Nat.digitChar (c.toNat % 16)]
  else [c]

/-- A string in quotes. -/
def quote (s : String) : List Char :=
  '"' :: (s.toList.flatMap escapeChar ++ ['"'])

/-- The spaces in front of a line. -/
def indent (depth : Nat) : List Char :=
  List.replicate (2 * depth) ' '

/-- A line break and the spaces after it. -/
def newLine (depth : Nat) : List Char :=
  '\n' :: indent depth

/-- The members of a list or an object between its brackets, whose line is
indented by `depth` steps. -/
def block (opening closing : Char) (depth : Nat) (members : List (List Char)) : List Char :=
  if members.isEmpty then [opening, closing]
  else
    opening :: newLine (depth + 1) ++
      (',' :: newLine (depth + 1)).intercalate members ++ newLine depth ++ [closing]

end Json

end ShardStore

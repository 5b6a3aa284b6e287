import ShardStore.Text.Blank
/-!
# Shell — scripts and their pieces

A script is a sequence of lines, and a line is a sequence of pieces with
semicolons between them. A semicolon inside quotes separates nothing: a
quote opens where none is open, and only the same character closes it. An
open quote ends with its line.
-/

namespace ShardStore

open Text

namespace Shell

/-- The quote that is open after a character. -/
def quoteAfter (opened : Option Char) (c : Char) : Option Char :=
  match opened with
  | some quote => if c = quote then none else some quote
  | none => if c = '\'' ∨ c = '"' then some c else none

/-- Cuts a text at every semicolon outside quotes. The characters of
`current` come before it in the first piece, in reverse order. -/
def pieces (opened : Option Char) (current : List Char) : List Char → List (List Char)
  | [] => [current.reverse]
  | c :: cs =>
    if opened.isNone && c == ';' then current.reverse :: pieces none [] cs
    else pieces (quoteAfter opened c) (c :: current) cs

/-- The pieces of a line without their blank edges; blank ones are left
out. -/
def splitLine (line : List Char) : List (List Char) :=
  ((pieces none [] line).map trim).filter (! ·.isEmpty)

/-- Cuts bytes after every line feed. The bytes of `current` come before
them in the first line, in reverse order; a last line without a line feed
is kept unless it is empty. -/
def linesFrom (current : List UInt8) : List UInt8 → List (List UInt8)
  | [] => if current.isEmpty then [] else [current.reverse]
  | b :: bs =>
    if b = 10 then (b :: current).reverse :: linesFrom [] bs
    else linesFrom (b :: current) bs

/-- The lines of a script, each with its line feed. -/
def lines (script : List UInt8) : List (List UInt8) :=
  linesFrom [] script

/-- The text that bytes encode in UTF-8. -/
def decodeLine? (line : List UInt8) : Option String :=
  String.fromUTF8? ⟨line.toArray⟩

end Shell

end ShardStore

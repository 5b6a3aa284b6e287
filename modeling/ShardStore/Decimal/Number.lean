import ShardStore.Decimal.Binary64
import ShardStore.Text.Identifier
/-!
# Decimal — the number of a text

A text of a double is a numeral, or a word for an infinity or for no number.
Only finite doubles are numbers here, so a numeral beyond the doubles is
none, and before the text is read at all what is behind its sign is screened:
it starts with a digit or the point, and has no characters but those of
numerals.
-/

namespace ShardStore

open Text

namespace Decimal

/-- What a text of a double is read as. -/
inductive Double where
  | finite (x : Binary64)
  | infinite (negative : Bool)
  | nan
deriving DecidableEq

/-- The double, if it is finite. -/
def Double.finite? : Double → Option Binary64
  | finite x => some x
  | infinite _ | nan => none

/-- A numeral is read as its nearest double, or as an infinity. -/
def double (d : Decimal) : Double :=
  match d.nearest? with
  | some x => .finite x
  | none => .infinite d.negative

/-- Reads a word in any letter case, behind one sign or none. -/
def readWord? (cs : List Char) : Option Double :=
  let (negative, word) := takeSign cs
  if sameLetters word "inf".toList || sameLetters word "infinity".toList then
    some (.infinite negative)
  else if sameLetters word "nan".toList then some .nan
  else none

/-- Reads a text of a double. -/
def readDouble? (cs : List Char) : Option Double :=
  match read? cs with
  | some d => some d.double
  | none => readWord? cs

/-- Whether a numeral can start with a character, behind its sign. -/
def startsNumeral (c : Char) : Bool :=
  c.isDigit || c == '.'

/-- Whether a character can stand in a numeral. -/
def isNumeralChar (c : Char) : Bool :=
  c.isDigit || ['.', 'e', 'E', '+', '-'].contains c

/-- Whether what is behind the sign looks like a numeral. -/
def isScreened (body : List Char) : Bool :=
  body.head?.any startsNumeral && body.all isNumeralChar

/-- The double that a text denotes, if it is a decimal numeral of finite
size. -/
def number? (s : String) : Option Binary64 :=
  if isScreened (takeSign s.toList).2 then (readDouble? s.toList).bind Double.finite?
  else none

end Decimal

end ShardStore

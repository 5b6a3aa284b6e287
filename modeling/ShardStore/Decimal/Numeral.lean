import ShardStore.Text.Size
/-!
# Decimal — numerals

A decimal numeral is an optional sign, digits with at most one point among
or beside them, and an optional power of ten. Reading one is exact: the
digits become one natural number and the point moves into the exponent.
No word, no second sign and no digit outside ASCII is read.
-/

namespace ShardStore

open Text

/-- The number `± significand * 10 ^ exponent`; a zero keeps its sign. -/
structure Decimal where
  negative : Bool
  significand : Nat
  exponent : Int
deriving DecidableEq, Repr

namespace Decimal

/-- Takes one sign off a text, and says whether it is a minus. -/
def takeSign : List Char → Bool × List Char
  | '+' :: cs => (false, cs)
  | '-' :: cs => (true, cs)
  | cs => (false, cs)

/-- Reads a power of ten, which fills the text; an empty text is the
power zero. -/
def readPower? : List Char → Option Int
  | [] => some 0
  | c :: cs =>
    if c = 'e' ∨ c = 'E' then
      let (negative, digits) := takeSign cs
      if !digits.isEmpty && digits.all Char.isDigit then
        some (if negative then -(digitsValue digits : Int) else digitsValue digits)
      else
        none
    else
      none

/-- Splits the digits before and after a point off a text. -/
def takeDigits (cs : List Char) : List Char × List Char × List Char :=
  match cs.dropWhile Char.isDigit with
  | '.' :: more =>
    (cs.takeWhile Char.isDigit, more.takeWhile Char.isDigit, more.dropWhile Char.isDigit)
  | rest => (cs.takeWhile Char.isDigit, [], rest)

/-- Reads a decimal numeral that fills the text. -/
def read? (cs : List Char) : Option Decimal :=
  let (negative, body) := takeSign cs
  let (whole, fraction, rest) := takeDigits body
  if whole.isEmpty && fraction.isEmpty then
    none
  else
    (readPower? rest).map fun power =>
      ⟨negative, digitsValue (whole ++ fraction), power - fraction.length⟩

end Decimal

end ShardStore

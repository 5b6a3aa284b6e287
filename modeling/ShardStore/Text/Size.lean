/-!
# Text — sizes

A size is a natural number below `2 ^ 64`. Its numeral is one or more
ASCII digits, with leading zeros allowed and at most one `+` in front.
-/

namespace ShardStore

namespace Text

/-- The value of an ASCII digit. -/
def digitValue (c : Char) : Nat :=
  c.toNat - 48

/-- The number that a run of decimal digits denotes. -/
def digitsValue (cs : List Char) : Nat :=
  cs.foldl (fun n c => 10 * n + digitValue c) 0

/-- Sizes stay below this bound. -/
def sizeBound : Nat := Nat.pow 2 64

/-- Reads the digits of a size. -/
def readDigits? (cs : List Char) : Option Nat :=
  if !cs.isEmpty && cs.all Char.isDigit && decide (digitsValue cs < sizeBound) then
    some (digitsValue cs)
  else
    none

/-- Reads a size, with at most one `+` in front. -/
def readSize? : List Char → Option Nat
  | '+' :: cs => readDigits? cs
  | cs => readDigits? cs

end Text

end ShardStore

import ShardStore.Decimal.Numeral
/-!
# Decimal — the nearest binary64 number

Numbers are compared as finite IEEE 754 doubles. A non-negative double is
known by its *rank*: the bits without the sign, which count the doubles
from zero upward. Rank `k` stands for `units k` times `2 ^ (-1074)`, the
smallest positive double. `nearestRank` rounds an exact fraction to the
nearest rank, and a fraction halfway between two ranks to the even one.
-/

namespace ShardStore

/-- A quotient rounded to the nearest natural number, halves to the even
neighbour. -/
def divideToEven (n d : Nat) : Nat :=
  let q := n / d
  let r := n % d
  if 2 * r < d then q
  else if d < 2 * r then q + 1
  else q + q % 2

/-- A finite double: its sign, and its rank among the non-negative ones. -/
structure Binary64 where
  negative : Bool
  rank : Nat
  finite : rank < 2047 * Nat.pow 2 52 := by decide
deriving DecidableEq

namespace Binary64

/-- The ranks below this bound are finite. -/
def rankBound : Nat := 2047 * Nat.pow 2 52

/-- The size of a rank, in steps of the smallest positive double. -/
def units (k : Nat) : Nat :=
  if k < Nat.pow 2 52 then k
  else (k % Nat.pow 2 52 + Nat.pow 2 52) * Nat.pow 2 (k / Nat.pow 2 52 - 1)

/-- The exponent at which `n / d` steps have a significand of 53 bits, or
zero where they have fewer. -/
def scale (n d : Nat) : Nat :=
  (n / d).log2 - 52

/-- The rank nearest to `n / d`, ties to the even rank. -/
def nearestRank (n d : Nat) : Nat :=
  let steps := n * Nat.pow 2 1074
  let s := scale steps d
  s * Nat.pow 2 52 + divideToEven steps (d * Nat.pow 2 s)

/-- The sign and the rank as the 64 bits of the double. -/
def bits (x : Binary64) : Nat :=
  (if x.negative then Nat.pow 2 63 else 0) + x.rank

/-- The rank with its sign, in which both zeros are zero. -/
def signedRank (x : Binary64) : Int :=
  if x.negative then -(x.rank : Int) else x.rank

/-- The order of two doubles; both zeros are equal. -/
def order (x y : Binary64) : Ordering :=
  compare x.signedRank y.signedRank

end Binary64

namespace Decimal

/-- The rank nearest to the absolute value. Far outside the range of the
doubles the digits decide, so that no huge power of ten is built. -/
def nearestRank (d : Decimal) : Nat :=
  if d.significand = 0 then 0
  else if 309 ≤ d.exponent then Binary64.rankBound
  else if d.exponent + d.significand.log2 + 1 ≤ -324 then 0
  else
    Binary64.nearestRank (d.significand * Nat.pow 10 d.exponent.toNat)
      (Nat.pow 10 (-d.exponent).toNat)

/-- The nearest double, unless that is infinite. -/
def nearest? (d : Decimal) : Option Binary64 :=
  if h : d.nearestRank < 2047 * Nat.pow 2 52 then some ⟨d.negative, d.nearestRank, h⟩ else none

end Decimal

end ShardStore

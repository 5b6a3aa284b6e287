import ShardStore.Proofs.Condition
import ShardStore.Proofs.Decimal.Nearest
import ShardStore.Proofs.Text.Utf8
/-!
# Conditions — when a comparison is numeric

A bare literal is compared with a cell as a number if both are read as
numbers, and then the doubles nearest to the two are compared. Rounding is
monotone, so the comparison agrees with the exact numbers except that two
of them may be rounded to one; integers of up to 53 bits are not rounded at
all. Everything else is compared as text, in the order of its bytes
(`numeric_or_textual`).
-/

namespace ShardStore

open Text

namespace Comparison

end Comparison

variable {x y : String} {a b : Binary64}

namespace Condition

end Condition

end ShardStore

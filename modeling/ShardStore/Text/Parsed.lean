/-!
# Text — readings that consume

A reading yields what the head of a text means and the text after it. The
type records that the rest is shorter than a bound, so that a loop over
readings ends because its text shrinks.
-/

namespace ShardStore

namespace Text

/-- The meaning of the head of a text, and the text after it, which is
shorter than `bound`. -/
structure Parsed (α : Type) (bound : Nat) where
  value : α
  rest : List Char
  shorter : rest.length < bound

namespace Parsed

variable {α β : Type} {m n : Nat}

/-- The same reading under a larger bound. -/
def widen (p : Parsed α m) (h : m ≤ n) : Parsed α n :=
  ⟨p.value, p.rest, Nat.lt_of_lt_of_le p.shorter h⟩

/-- The same rest under another meaning. -/
def map (f : α → β) (p : Parsed α n) : Parsed β n :=
  ⟨f p.value, p.rest, p.shorter⟩

@[simp] theorem value_widen (p : Parsed α m) (h : m ≤ n) : (p.widen h).value = p.value := rfl

@[simp] theorem rest_widen (p : Parsed α m) (h : m ≤ n) : (p.widen h).rest = p.rest := rfl

@[simp] theorem value_map (f : α → β) (p : Parsed α n) : (p.map f).value = f p.value := rfl

@[simp] theorem rest_map (f : α → β) (p : Parsed α n) : (p.map f).rest = p.rest := rfl

end Parsed

end Text

end ShardStore

import ShardStore.Decimal.Binary64
import ShardStore.Failure
import ShardStore.Text.Parsed
/-!
# JSON — strings, numbers and words

The parts of a JSON text that hold no others. Each is read in one of two
ways. A *checked* reading decodes: a surrogate must be paired and a number
must fit a double. A value that nobody asked for is *skimmed*: only its
form is looked at, and a number that breaks off is then no JSON, where a
checked one would be truncated.
-/

namespace ShardStore

open Text

namespace Json

/-- How closely a value is looked at. -/
inductive Care where
  | checked
  | skimmed
deriving DecidableEq, Repr

/-- The result of reading an element off a text. -/
abbrev Reading (α : Type) (cs : List Char) := Except JsonProblem (Parsed α cs.length)

/-- The value of a hexadecimal digit. -/
def hexValue? (c : Char) : Option Nat :=
  if c.isDigit then some (c.toNat - 48)
  else if 'a' ≤ c ∧ c ≤ 'f' then some (c.toNat - 87)
  else if 'A' ≤ c ∧ c ≤ 'F' then some (c.toNat - 55)
  else none

/-- The number of bytes of a text. -/
def byteLength (cs : List Char) : Nat :=
  cs.foldl (fun n c => n + c.utf8Size) 0

/-- Reads the four hexadecimal digits of a code unit. Fewer than four bytes
are a truncated text, whatever they are. -/
def codeUnit : (cs : List Char) → Reading Nat cs
  | a :: b :: c :: d :: rest =>
    match hexValue? a, hexValue? b, hexValue? c, hexValue? d with
    | some w, some x, some y, some z =>
      .ok ⟨((w * 16 + x) * 16 + y) * 16 + z, rest, by simp only [List.length_cons]; omega⟩
    | _, _, _, _ => .error .malformed
  | cs => if byteLength cs < 4 then .error .truncated else .error .malformed

/-- The first half of a surrogate pair. -/
def isHighSurrogate (n : Nat) : Bool :=
  0xD800 ≤ n && n < 0xDC00

/-- The second half of a surrogate pair. -/
def isLowSurrogate (n : Nat) : Bool :=
  0xDC00 ≤ n && n < 0xE000

/-- The character of a surrogate pair. -/
def ofSurrogates (high low : Nat) : Char :=
  Char.ofNat (0x10000 + (high - 0xD800) * 0x400 + (low - 0xDC00))

/-- The character of an escape of one letter. -/
def letterEscape? (c : Char) : Option Char :=
  if c = '"' ∨ c = '\\' ∨ c = '/' then some c
  else if c = 'b' then some '\x08'
  else if c = 't' then some '\t'
  else if c = 'n' then some '\n'
  else if c = 'f' then some '\x0c'
  else if c = 'r' then some '\r'
  else none

/-- Reads the second half of a surrogate pair, an escape of its own. -/
def secondSurrogate (high : Nat) : (cs : List Char) → Reading (List Char) cs
  | [] => .error .truncated
  | '\\' :: [] => .error .truncated
  | '\\' :: 'u' :: cs =>
    match codeUnit cs with
    | .error e => .error e
    | .ok low =>
      if isLowSurrogate low.value then
        .ok ⟨[ofSurrogates high low.value], low.rest, by
          have := low.shorter; simp only [List.length_cons]; omega⟩
      else .error .malformed
  | _ => .error .malformed

/-- Reads what follows a backslash: the character that it writes, or
nothing for a skimmed code unit. -/
def escape (care : Care) : (cs : List Char) → Reading (List Char) cs
  | [] => .error .truncated
  | 'u' :: cs =>
    match codeUnit cs with
    | .error e => .error e
    | .ok unit =>
      have hu : unit.rest.length < ('u' :: cs).length := by
        have := unit.shorter; simp only [List.length_cons]; omega
      if care = .skimmed then .ok ⟨[], unit.rest, hu⟩
      else if isLowSurrogate unit.value then .error .malformed
      else if isHighSurrogate unit.value then
        match secondSurrogate unit.value unit.rest with
        | .error e => .error e
        | .ok p => .ok (p.widen (Nat.le_of_lt hu))
      else .ok ⟨[Char.ofNat unit.value], unit.rest, hu⟩
  | c :: cs =>
    match letterEscape? c with
    | some d => .ok ⟨[d], cs, by simp⟩
    | none => .error .malformed

/-- Reads the rest of a string, up to its closing quote. The characters of
`done` come before it, in reverse order. -/
def stringTail (care : Care) (bound : Nat) (done : List Char) :
    (cs : List Char) → cs.length ≤ bound → Except JsonProblem (Parsed String bound)
  | [], _ => .error .truncated
  | c :: cs, h =>
    have hlt : cs.length < bound := by simp only [List.length_cons] at h; omega
    if c = '"' then .ok ⟨String.ofList done.reverse, cs, hlt⟩
    else if c = '\\' then
      match escape care cs with
      | .error e => .error e
      | .ok p =>
        stringTail care bound (p.value ++ done) p.rest
          (by have := p.shorter; simp only [List.length_cons] at h; omega)
    else if c.toNat < 32 then .error .malformed
    else stringTail care bound (c :: done) cs (Nat.le_of_lt hlt)
termination_by cs => cs.length
decreasing_by
  · have := p.shorter; simp only [List.length_cons]; omega
  · simp only [List.length_cons]; omega

/-- Reads a string after its opening quote. -/
def string (care : Care) (cs : List Char) : Reading String cs :=
  stringTail care cs.length [] cs (Nat.le_refl _)

/-- Reads the letters of a word. -/
def letters : (word cs : List Char) → Except JsonProblem (List Char)
  | [], cs => .ok cs
  | _ :: _, [] => .error .truncated
  | w :: ws, c :: cs => if w = c then letters ws cs else .error .malformed

theorem length_letters {word cs rest : List Char} (h : letters word cs = .ok rest) :
    rest.length ≤ cs.length := by
  induction word generalizing cs with
  | nil => simp only [letters, Except.ok.injEq] at h; simp [h]
  | cons w ws ih =>
    cases cs with
    | nil => simp [letters] at h
    | cons c cs =>
      by_cases hc : w = c
      · simp only [letters, hc, if_true] at h
        have := ih h
        simp only [List.length_cons]; omega
      · simp [letters, hc] at h

/-! ## Numbers -/

/-- The significand of a number, which has at most 64 bits, and how many
digits came after it was full. -/
abbrev Significand := Nat × Nat

/-- One more digit for a significand. -/
def addDigit (s : Significand) (c : Char) : Significand :=
  if s.2 = 0 ∧ 10 * s.1 + digitValue c < sizeBound then (10 * s.1 + digitValue c, 0)
  else (s.1, s.2 + 1)

/-- A number rounded to 53 significant bits, halves to the even neighbour. -/
def round53 (n : Nat) : Nat :=
  let s := n.log2 - 52
  divideToEven n (Nat.pow 2 s) * Nat.pow 2 s

/-- Whether a significand times a power of ten, each rounded to a double,
is rounded to infinity. -/
def isHuge (significand : Nat) (exponent : Int) : Bool :=
  decide (significand ≠ 0) && decide (0 ≤ exponent) &&
    (decide (308 < exponent) ||
      decide (Nat.pow 2 1024 - Nat.pow 2 970 ≤
        round53 significand * round53 (Nat.pow 10 exponent.toNat)))

/-- The problem with a number that has no digit where one is due. -/
def missingDigit (care : Care) (rest : List Char) : JsonProblem :=
  if care = .checked ∧ rest = [] then .truncated else .malformed

theorem length_dropDigits (cs : List Char) : (cs.dropWhile Char.isDigit).length ≤ cs.length :=
  (List.dropWhile_sublist _).length_le

/-- Reads the digits before the point. Zero stands alone. -/
def wholeDigits (care : Care) (cs : List Char) : Except JsonProblem (List Char × List Char) :=
  match cs.takeWhile Char.isDigit with
  | [] => .error (missingDigit care cs)
  | '0' :: _ :: _ => .error .malformed
  | digits => .ok (digits, cs.dropWhile Char.isDigit)

/-- Reads a point and the digits after it, if there is a point. -/
def fractionDigits (care : Care) : List Char → Except JsonProblem (List Char × List Char)
  | '.' :: cs =>
    match cs.takeWhile Char.isDigit with
    | [] => .error (missingDigit care cs)
    | digits => .ok (digits, cs.dropWhile Char.isDigit)
  | cs => .ok ([], cs)

/-- Reads a power of ten, if there is one. -/
def power (care : Care) : List Char → Except JsonProblem (Option Int × List Char)
  | c :: cs =>
    if c = 'e' ∨ c = 'E' then
      let (negative, body) := Decimal.takeSign cs
      match body.takeWhile Char.isDigit with
      | [] => .error (missingDigit care body)
      | digits =>
        let n := digitsValue digits
        .ok (some (if negative then -(n : Int) else n), body.dropWhile Char.isDigit)
    else .ok (none, c :: cs)
  | [] => .ok (none, [])

/-- Takes a minus off a text. -/
def takeMinus : List Char → Bool × List Char
  | '-' :: cs => (true, cs)
  | cs => (false, cs)

/-- Reads a number, and yields its value where it is a size. -/
def numberParts (care : Care) (cs : List Char) : Except JsonProblem (Option Nat × List Char) :=
  let (negative, body) := takeMinus cs
  match wholeDigits care body with
  | .error e => .error e
  | .ok (whole, cs) =>
    match fractionDigits care cs with
    | .error e => .error e
    | .ok (fraction, cs) =>
      match power care cs with
      | .error e => .error e
      | .ok (exponent, rest) =>
        let w := whole.foldl addDigit (0, 0)
        let f := fraction.foldl addDigit (w.1, 0)
        let places : Int := (w.2 : Int) - (fraction.length - f.2 : Nat)
        if care = .checked ∧ isHuge f.1 (places + exponent.getD 0) then .error .malformed
        else if negative ∨ w.2 ≠ 0 ∨ fraction ≠ [] ∨ exponent.isSome then .ok (none, rest)
        else .ok (some w.1, rest)

theorem length_takeMinus (cs : List Char) : (takeMinus cs).2.length ≤ cs.length := by
  unfold takeMinus; split <;> simp

theorem length_takeSign (cs : List Char) : (Decimal.takeSign cs).2.length ≤ cs.length := by
  unfold Decimal.takeSign; split <;> simp

theorem length_wholeDigits {care : Care} {cs digits rest : List Char}
    (h : wholeDigits care cs = .ok (digits, rest)) : rest.length < cs.length := by
  have hsum : (cs.takeWhile Char.isDigit).length + (cs.dropWhile Char.isDigit).length =
      cs.length := by
    rw [← List.length_append, List.takeWhile_append_dropWhile]
  unfold wholeDigits at h
  split at h
  · simp at h
  · simp at h
  · next hne _ =>
    simp only [Except.ok.injEq, Prod.mk.injEq] at h
    have : (cs.takeWhile Char.isDigit).length ≠ 0 := fun h0 => hne (List.length_eq_zero_iff.mp h0)
    rw [← h.2]; omega

theorem length_fractionDigits {care : Care} {cs digits rest : List Char}
    (h : fractionDigits care cs = .ok (digits, rest)) : rest.length ≤ cs.length := by
  unfold fractionDigits at h
  split at h
  · next more =>
    have := length_dropDigits more
    split at h
    · simp at h
    · simp only [Except.ok.injEq, Prod.mk.injEq] at h
      rw [← h.2, List.length_cons]; omega
  · simp only [Except.ok.injEq, Prod.mk.injEq] at h
    exact Nat.le_of_eq (congrArg List.length h.2.symm)

theorem length_power {care : Care} {cs rest : List Char} {e : Option Int}
    (h : power care cs = .ok (e, rest)) : rest.length ≤ cs.length := by
  unfold power at h
  split at h
  · next c more =>
    have h1 := length_takeSign more
    have h2 := length_dropDigits (Decimal.takeSign more).2
    split at h
    · dsimp only at h
      split at h
      · simp at h
      · simp only [Except.ok.injEq, Prod.mk.injEq] at h
        rw [← h.2, List.length_cons]; omega
    · simp only [Except.ok.injEq, Prod.mk.injEq] at h
      exact Nat.le_of_eq (congrArg List.length h.2.symm)
  · simp only [Except.ok.injEq, Prod.mk.injEq] at h
    exact Nat.le_of_eq (congrArg List.length h.2.symm)

theorem length_numberParts {care : Care} {cs rest : List Char} {n : Option Nat}
    (h : numberParts care cs = .ok (n, rest)) : rest.length < cs.length := by
  unfold numberParts at h
  dsimp only at h
  split at h
  · simp at h
  · next whole cs1 h1 =>
    split at h
    · simp at h
    · next fraction cs2 h2 =>
      split at h
      · simp at h
      · next exponent cs3 h3 =>
        have l0 := length_takeMinus cs
        have l1 := length_wholeDigits h1
        have l2 := length_fractionDigits h2
        have l3 := length_power h3
        split at h
        · simp at h
        · split at h <;>
            (simp only [Except.ok.injEq, Prod.mk.injEq] at h; rw [← h.2]; omega)

/-- Reads a number, and yields its value where it is a size: a literal
without sign, point and power that is below the bound of sizes. -/
def number (care : Care) (cs : List Char) : Reading (Option Nat) cs :=
  match h : numberParts care cs with
  | .error e => .error e
  | .ok (n, rest) => .ok ⟨n, rest, length_numberParts h⟩

end Json

end ShardStore

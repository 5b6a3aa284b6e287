import ShardStore.Json.Lexeme
import ShardStore.Proofs.Decimal.Grammar
import ShardStore.Text.Blank
/-!
# JSON — the grammar

Which texts are JSON, said of texts and not of a reader. A string denotes
the text that is read off it, or only has its form, as it is looked at
closely or passed over (`Content`). A list has the texts of its elements, and
an object those of its values with their keys, in the order in which they
stand (`ListText`, `ObjectText`), so that what a list or an object gives can be
said of these. A value of which nothing is asked is a text of any of the
forms (`ValueText`).
-/

namespace ShardStore

namespace Json

open Decimal Text

/-! ## Strings -/

/-- The letters behind a backslash, and the characters they write. -/
def letterEscapes : List (Char × Char) :=
  [('"', '"'), ('\\', '\\'), ('/', '/'), ('b', '\x08'), ('t', '\t'), ('n', '\n'), ('f', '\x0c'),
    ('r', '\r')]

/-- A hexadecimal digit of a value. -/
def HexDigit (c : Char) (n : ℕ) : Prop :=
  "0123456789abcdef".toList[n]? = some c ∨ "0123456789ABCDEF".toList[n]? = some c

/-- The four digits of a code unit. -/
inductive CodeUnit : List Char → ℕ → Prop
  | digits {a b c d : Char} {w x y z : ℕ} (ha : HexDigit a w) (hb : HexDigit b x)
      (hc : HexDigit c y) (hd : HexDigit d z) :
      CodeUnit [a, b, c, d] (((w * 16 + x) * 16 + y) * 16 + z)

/-- What stands behind a backslash, and what it writes. A code unit is a
character if it is no surrogate, and two surrogates are one character; where
a string is passed over, only the form of a code unit counts. -/
inductive Escape : Care → List Char → List Char → Prop
  | letter {care : Care} {l c : Char} (h : (l, c) ∈ letterEscapes) : Escape care [l] [c]
  | form {unit : List Char} {n : ℕ} (h : CodeUnit unit n) : Escape .skimmed ('u' :: unit) []
  | unit {unit : List Char} {n : ℕ} (h : CodeUnit unit n) (hn : n < 0xD800 ∨ 0xE000 ≤ n) :
      Escape .checked ('u' :: unit) [Char.ofNat n]
  | pair {first second : List Char} {high low : ℕ} (h : CodeUnit first high)
      (hhigh : 0xD800 ≤ high ∧ high < 0xDC00) (h' : CodeUnit second low)
      (hlow : 0xDC00 ≤ low ∧ low < 0xE000) :
      Escape .checked ('u' :: (first ++ '\\' :: 'u' :: second))
        [Char.ofNat (0x10000 + (high - 0xD800) * 0x400 + (low - 0xDC00))]

/-- What stands between the quotes of a string, and the characters that it
writes. -/
inductive Content (care : Care) : List Char → List Char → Prop
  | nil : Content care [] []
  | plain {c : Char} {body written : List Char} (hquote : c ≠ '"') (hback : c ≠ '\\')
      (hcontrol : 32 ≤ c.toNat) (h : Content care body written) :
      Content care (c :: body) (c :: written)
  | escape {text characters body written : List Char} (he : Escape care text characters)
      (h : Content care body written) :
      Content care ('\\' :: (text ++ body)) (characters ++ written)

/-- The text of a string. -/
inductive StringText (care : Care) : List Char → String → Prop
  | quoted {body written : List Char} (h : Content care body written) :
      StringText care ('"' :: (body ++ ['"'])) (String.ofList written)

/-! ## Numbers -/

/-- The digits behind a point, if there is one. -/
inductive FractionText : List Char → Prop
  | none : FractionText []
  | digits {cs : List Char} {n : ℕ} (h : Digits cs n) (hne : cs ≠ []) : FractionText ('.' :: cs)

/-- The text of a number. Before the point stand the decimal digits of a
natural number, without further zeros. -/
inductive NumberText : List Char → Prop
  | number {minus fraction power : List Char} {e : ℤ} (hminus : minus = [] ∨ minus = ['-']) (n : ℕ)
      (hfraction : FractionText fraction) (hpower : Power power e) :
      NumberText (minus ++ (n.repr.toList ++ (fraction ++ power)))

/-- The text of a size: its decimal digits alone. -/
inductive SizeNumber : List Char → ℕ → Prop
  | digits {n : ℕ} (hn : n < 2 ^ 64) : SizeNumber n.repr.toList n

/-! ## Lists and objects -/

/-- What is in front of a member of a list or an object: spaces, and a comma
but for the first one. -/
inductive Lead : Bool → List Char → Prop
  | first {spaces : List Char} (h : Spaces spaces) : Lead true spaces
  | further {before after : List Char} (hbefore : Spaces before) (hafter : Spaces after) :
      Lead false (before ++ ',' :: after)

/-- What stands in front of a closing bracket, with the members in it: the
first one and those behind it, or only further ones. -/
inductive Between : Bool → List Char → List (List Char) → Prop
  | nil {first : Bool} {spaces : List Char} (h : Spaces spaces) : Between first spaces []
  | cons {first : Bool} {front item more : List Char} {items : List (List Char)}
      (hfront : Lead first front) (h : Between false more items) :
      Between first (front ++ (item ++ more)) (item :: items)

/-- The text of a list, with those of its elements. -/
inductive ListText : List Char → List (List Char) → Prop
  | brackets {inner : List Char} {items : List (List Char)} (h : Between true inner items) :
      ListText ('[' :: (inner ++ [']'])) items

/-- A key, and the text of its value behind a colon. -/
inductive MemberText (care : Care) : List Char → String × List Char → Prop
  | member {text before after value : List Char} {key : String} (hkey : StringText care text key)
      (hbefore : Spaces before) (hafter : Spaces after) :
      MemberText care (text ++ (before ++ ':' :: (after ++ value))) (key, value)

/-- The text of an object, with its keys and the texts of their values. -/
inductive ObjectText (care : Care) : List Char → List (String × List Char) → Prop
  | brackets {inner : List Char} {items : List (List Char)} {members : List (String × List Char)}
      (h : Between true inner items) (hmembers : List.Forall₂ (MemberText care) items members) :
      ObjectText care ('{' :: (inner ++ ['}'])) members

/-- **The text of a value of any form**, which is passed over. -/
inductive ValueText : List Char → Prop
  | string {text : List Char} {s : String} (h : StringText .skimmed text s) : ValueText text
  | number {text : List Char} (h : NumberText text) : ValueText text
  | word {text : List Char} (h : text ∈ ["null".toList, "true".toList, "false".toList]) :
      ValueText text
  | list {text : List Char} {items : List (List Char)} (h : ListText text items)
      (hitems : ∀ item ∈ items, ValueText item) : ValueText text
  | object {text : List Char} {members : List (String × List Char)}
      (h : ObjectText .skimmed text members) (hmembers : ∀ member ∈ members, ValueText member.2) :
      ValueText text

end Json

end ShardStore

/-!
# Text — identifiers and the null word

Tables and columns are named by identifiers: non-empty runs of ASCII
letters, digits and underscores. An identifier never holds a dot, a slash
or a quote, which is what keeps the names of documents apart.
-/

namespace ShardStore

namespace Text

/-- An ASCII letter, an ASCII digit or an underscore. -/
def isIdentifierChar (c : Char) : Bool :=
  c.isAlphanum || c == '_'

/-- A non-empty text of identifier characters. -/
def isIdentifier (s : String) : Bool :=
  !s.toList.isEmpty && s.toList.all isIdentifierChar

/-- Equality up to the case of ASCII letters. -/
def sameLetters (a b : List Char) : Bool :=
  a.map Char.toLower == b.map Char.toLower

/-- The word that stands for the null cell, in any letter case. -/
def isNullWord (cs : List Char) : Bool :=
  sameLetters cs ['N', 'U', 'L', 'L']

end Text

end ShardStore

import ShardStore.Proofs.Text.Blank
import ShardStore.Proofs.Text.Utf8
import ShardStore.Shell
/-!
# Shell — the statements of a script

A script is cut into lines at the line feeds, and a line into pieces at the
semicolons outside its quotes, with every quote closed again where a line
begins. Read as one text, it is cut at both (`textPieces`), so a line feed and
such a semicolon do the same (`statements_replace`), and a text that ends
with either one can be followed by any other (`statements_append`).
-/

namespace ShardStore

open Text

namespace Shell

/-! ## Lines of bytes -/

theorem linesFrom_newline (current line rest : List UInt8) (h : 10 ∉ line) :
    linesFrom current (line ++ 10 :: rest) = (current.reverse ++ line ++ [10]) :: lines rest := by
  induction line generalizing current with
  | nil => simp [linesFrom, lines]
  | cons b line ih =>
    obtain ⟨hb, hline⟩ : b ≠ 10 ∧ 10 ∉ line := by simpa [eq_comm] using h
    rw [List.cons_append, linesFrom, if_neg hb, ih _ hline]
    simp

/-- The first line goes up to the first line feed. -/
theorem lines_newline {line : List UInt8} (rest : List UInt8) (h : 10 ∉ line) :
    lines (line ++ 10 :: rest) = (line ++ [10]) :: lines rest :=
  linesFrom_newline [] line rest h

theorem linesFrom_last (current line : List UInt8) (h : 10 ∉ line) :
    linesFrom current line =
      if (current.reverse ++ line).isEmpty then [] else [current.reverse ++ line] := by
  induction line generalizing current with
  | nil => simp [linesFrom]
  | cons b line ih =>
    obtain ⟨hb, hline⟩ : b ≠ 10 ∧ 10 ∉ line := by simpa [eq_comm] using h
    rw [linesFrom, if_neg hb, ih _ hline]
    simp

/-- Without a line feed there is a single line. -/
theorem lines_last {line : List UInt8} (h : 10 ∉ line) (hne : line ≠ []) :
    lines line = [line] := by
  rw [lines, linesFrom_last [] line h]
  simp [hne]

/-- A text is read back from its bytes. -/
theorem decodeLine?_bytes (text : String) : decodeLine? (bytes text) = some text := by
  rw [decodeLine?, bytes]
  exact fromUTF8?_toUTF8 text

/-! ## Pieces of a text -/

/-- The quote that is open after a character of a text of many lines. -/
def quoteAfterAny (opened : Option Char) (c : Char) : Option Char :=
  if c = '\n' then none else quoteAfter opened c

/-- The quote of its last line that a text leaves open. -/
def openQuote (text : List Char) : Option Char :=
  text.foldl quoteAfterAny none

/-- Cuts a text at every line feed, and at every semicolon outside the quotes
of its line. The characters of `current` come before it in the first piece,
in reverse order. -/
def textPieces (opened : Option Char) (current : List Char) : List Char → List (List Char)
  | [] => [current.reverse]
  | c :: cs =>
    if c = '\n' ∨ opened = none ∧ c = ';' then current.reverse :: textPieces none [] cs
    else textPieces (quoteAfter opened c) (c :: current) cs

/-- The statements of a text, without their blank edges. -/
def statements (text : List Char) : List (List Char) :=
  ((textPieces none [] text).map trim).filter (! ·.isEmpty)

/-- The commands of a script that is a text. -/
def commands (text : String) : List Command :=
  (statements text.toList).map Command.ofTrimmed

variable {front back line : List Char} {c : Char}

theorem quoteAfterAny_of_ne (opened : Option Char) (h : c ≠ '\n') :
    quoteAfterAny opened c = quoteAfter opened c :=
  if_neg h

/-- **A text is cut at a line feed, and at a semicolon where no quote is
open**, and what follows is cut on its own. -/
theorem textPieces_append (opened : Option Char) (current : List Char)
    (hcut : c = '\n' ∨ front.foldl quoteAfterAny opened = none ∧ c = ';') (back : List Char) :
    textPieces opened current (front ++ c :: back) =
      textPieces opened current front ++ textPieces none [] back := by
  induction front generalizing opened current with
  | nil => simp only [List.nil_append, textPieces, if_pos (by simpa using hcut), List.singleton_append]
  | cons d front ih =>
    rw [List.cons_append, textPieces, textPieces]
    split
    · next hd =>
      have hopened : quoteAfterAny opened d = none := by
        rcases hd with rfl | ⟨rfl, rfl⟩ <;> rfl
      rw [ih none [] (by simpa [hopened] using hcut), List.cons_append]
    · next hd =>
      have hnewline : d ≠ '\n' := fun h => hd (.inl h)
      exact ih _ _ (by simpa [quoteAfterAny_of_ne opened hnewline] using hcut)

/-- A place at which a text is cut: a line feed, or a semicolon outside the
quotes of its line. -/
def CutsAt (front : List Char) (c : Char) : Prop :=
  c = '\n' ∨ openQuote front = none ∧ c = ';'

theorem statements_cut (h : CutsAt front c) (back : List Char) :
    statements (front ++ c :: back) = statements front ++ statements back := by
  rw [statements, textPieces_append none [] h, List.map_append, List.filter_append]
  rfl

/-- **A line feed and a semicolon outside quotes do the same.** -/
theorem statements_replace (h : openQuote front = none) (back : List Char) :
    statements (front ++ ';' :: back) = statements (front ++ '\n' :: back) := by
  rw [statements_cut (.inr ⟨h, rfl⟩), statements_cut (.inl rfl)]

/-- Nothing is left open, and nothing has begun: the text is empty or ends
where it is cut. -/
def Ended (text : List Char) : Prop :=
  text = [] ∨ ∃ front c, text = front ++ [c] ∧ CutsAt front c

theorem statements_nil : statements [] = [] := rfl

/-- **Behind the end of a statement another text can follow.** -/
theorem statements_append {text : List Char} (h : Ended text) (back : List Char) :
    statements (text ++ back) = statements text ++ statements back := by
  rcases h with rfl | ⟨front, c, rfl, hcut⟩
  · rfl
  · rw [List.append_assoc, List.singleton_append, statements_cut hcut, statements_cut hcut,
      statements_nil, List.append_nil]

/-! ## Pieces of a line -/

theorem textPieces_line (h : '\n' ∉ line) (opened : Option Char) (current : List Char) :
    textPieces opened current line = pieces opened current line := by
  induction line generalizing opened current with
  | nil => rfl
  | cons c line ih =>
    obtain ⟨hc, hline⟩ : c ≠ '\n' ∧ '\n' ∉ line := by simpa [eq_comm] using h
    rw [textPieces, pieces, ih hline, ih hline]
    simp [hc]

/-- The line feed at the end of a line is trimmed off its last piece. -/
theorem map_trim_pieces (opened : Option Char) (current line : List Char) :
    (pieces opened current (line ++ ['\n'])).map trim = (pieces opened current line).map trim := by
  induction line generalizing opened current with
  | nil => simp [pieces, trim_concat (show isBlank '\n' = true from rfl)]
  | cons c line ih =>
    rw [List.cons_append, pieces, pieces]
    split
    · rw [List.map_cons, List.map_cons, ih]
    · exact ih _ _

/-- **The pieces of a line are the statements of its text**, with the line
feed or without. -/
theorem splitLine_eq_statements (h : '\n' ∉ line) : splitLine line = statements line := by
  rw [splitLine, statements, textPieces_line h]

theorem splitLine_newline (h : '\n' ∉ line) : splitLine (line ++ ['\n']) = statements line := by
  rw [splitLine, map_trim_pieces, ← splitLine, splitLine_eq_statements h]

end Shell

end ShardStore

/-!
# Text — blanks, trimming and words

Two notions of blank are in use. A *blank* is any character with the
Unicode property White_Space: it surrounds statements and separates the
words of a condition or of a shell command. A *space* is one of the four
characters that may stand between the tokens of a statement or of a JSON
text. Every space is a blank (`isBlank_of_isSpace`).
-/

namespace ShardStore

namespace Text

/-- The characters with the Unicode property White_Space. -/
def isBlank (c : Char) : Bool :=
  let n := c.toNat
  (9 ≤ n && n ≤ 13) || n == 0x20 || n == 0x85 || n == 0xA0 || n == 0x1680 ||
    (0x2000 ≤ n && n ≤ 0x200A) || n == 0x2028 || n == 0x2029 || n == 0x202F ||
    n == 0x205F || n == 0x3000

/-- Space, tab, line feed and carriage return. -/
def isSpace (c : Char) : Bool :=
  c == ' ' || c == '\t' || c == '\n' || c == '\r'

theorem isBlank_of_isSpace {c : Char} (h : isSpace c = true) : isBlank c = true := by
  simp only [isSpace, Bool.or_eq_true, beq_iff_eq] at h
  rcases h with ((rfl | rfl) | rfl) | rfl <;> decide

/-- The text without the spaces at its start. -/
def skipSpaces (cs : List Char) : List Char :=
  cs.dropWhile isSpace

theorem length_skipSpaces_le (cs : List Char) : (skipSpaces cs).length ≤ cs.length :=
  (List.dropWhile_sublist isSpace).length_le

/-- Nothing but spaces. -/
def Spaces (cs : List Char) : Prop :=
  ∀ c ∈ cs, isSpace c = true

theorem spaces_nil : Spaces [] := by
  intro c hc
  cases hc

theorem skipSpaces_cons {c : Char} (hc : isSpace c = false) (cs : List Char) :
    skipSpaces (c :: cs) = c :: cs := by
  simp [skipSpaces, hc]

/-- Spaces in front of a text are skipped, up to what is no space. -/
theorem skipSpaces_spaces {spaces : List Char} (h : Spaces spaces) {c : Char}
    (hc : isSpace c = false) (cs : List Char) : skipSpaces (spaces ++ c :: cs) = c :: cs := by
  induction spaces with
  | nil => exact skipSpaces_cons hc cs
  | cons d ds ih =>
    have hd : isSpace d = true := h d List.mem_cons_self
    have hds : Spaces ds := fun e he => h e (List.mem_cons_of_mem _ he)
    rw [List.cons_append, skipSpaces, List.dropWhile_cons_of_pos hd]
    exact ih hds

/-- The text without the blanks at its end. -/
def trimRight (cs : List Char) : List Char :=
  (cs.reverse.dropWhile isBlank).reverse

/-- The text without the blanks at its start and at its end. -/
def trim (cs : List Char) : List Char :=
  trimRight (cs.dropWhile isBlank)

/-- Nothing but blanks, perhaps nothing at all. -/
def isBlankText (cs : List Char) : Bool :=
  cs.all isBlank

theorem isBlankText_append (front rest : List Char) :
    isBlankText (front ++ rest) = (isBlankText front && isBlankText rest) :=
  List.all_append

/-- Blanks in front of a text are trimmed off. -/
theorem trim_append {front : List Char} (h : isBlankText front = true) (cs : List Char) :
    trim (front ++ cs) = trim cs := by
  rw [trim, List.dropWhile_append_of_pos (List.all_eq_true.mp h), ← trim]

/-- No blanks are at the end of a trimmed text. -/
theorem isBlankText_of_trim {cs front rest : List Char} (h : trim cs = front ++ rest)
    (hrest : rest ≠ []) : isBlankText rest = false := by
  have hlast : (trim cs).getLast? = some (rest.getLast hrest) := by
    rw [h, List.getLast?_append, List.getLast?_eq_some_getLast hrest]
    rfl
  have hhead := List.head?_dropWhile_not isBlank (cs.dropWhile isBlank).reverse
  rw [trim, trimRight, List.getLast?_reverse] at hlast
  rw [hlast] at hhead
  rw [isBlankText, List.all_eq_false]
  exact ⟨_, List.getLast_mem hrest, by simpa using hhead⟩

/-- The maximal runs of characters that are no blanks, in order. -/
def words (cs : List Char) : List (List Char) :=
  (cs.splitOnP isBlank).filter (! ·.isEmpty)

/-- The text after `word`, where it starts with `word`. -/
def after? : (word : List Char) → List Char → Option (List Char)
  | [], cs => some cs
  | _ :: _, [] => none
  | w :: ws, c :: cs => if w = c then after? ws cs else none

theorem after?_eq_some_iff {word cs rest : List Char} :
    after? word cs = some rest ↔ cs = word ++ rest := by
  induction word generalizing cs with
  | nil => simp [after?]
  | cons w ws ih =>
    cases cs with
    | nil => simp [after?]
    | cons c cs =>
      by_cases h : w = c
      · simp [after?, h, ih]
      · simp [after?, h, Ne.symm h]

/-- The text without its blank edges. -/
def trimmed (s : String) : String :=
  String.ofList (trim s.toList)

end Text

end ShardStore

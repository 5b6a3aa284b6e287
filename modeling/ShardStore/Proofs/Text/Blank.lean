import ShardStore.Text.Blank
import ShardStore.Text.Identifier
/-!
# Text — what trimming leaves, and where words end

A text is trimmed when no blank is at either edge of it (`Trimmed`); trimming
leaves such a text and changes no such text. The words of a text follow from
two equations: a blank parts the words before it from those after it
(`words_append_blank`), and a text without blanks is one word
(`words_of_word`).
-/

namespace ShardStore

namespace Text

variable {cs front rest : List Char}

/-! ## Spaces -/

/-- A text is spaces, and then what is left when they are skipped. -/
theorem exists_spaces (cs : List Char) :
    ∃ spaces, Spaces spaces ∧ cs = spaces ++ skipSpaces cs := by
  refine ⟨cs.takeWhile isSpace, ?_, List.takeWhile_append_dropWhile.symm⟩
  exact List.all_eq_true.mp List.all_takeWhile

theorem exists_spaces_of_skipSpaces {c : Char} (h : skipSpaces cs = c :: rest) :
    ∃ spaces, Spaces spaces ∧ cs = spaces ++ c :: rest ∧ isSpace c = false := by
  obtain ⟨spaces, hspaces, hcs⟩ := exists_spaces cs
  have hhead := List.head?_dropWhile_not isSpace cs
  rw [← skipSpaces, h] at hhead
  exact ⟨spaces, hspaces, h ▸ hcs, hhead⟩

theorem spaces_append (hfront : Spaces front) (hrest : Spaces rest) : Spaces (front ++ rest) :=
  List.forall_mem_append.2 ⟨hfront, hrest⟩

/-! ## Trimming -/

/-- No blank is at an edge of the text. -/
structure Trimmed (cs : List Char) : Prop where
  start : ∀ c ∈ cs.head?, isBlank c = false
  stop : ∀ c ∈ cs.getLast?, isBlank c = false

theorem dropWhile_eq_self {p : Char → Bool} (h : ∀ c ∈ cs.head?, p c = false) :
    cs.dropWhile p = cs := by
  cases cs with
  | nil => rfl
  | cons c cs => exact List.dropWhile_cons_of_neg (by simp [h c rfl])

/-- A trimmed text stays as it is. -/
theorem Trimmed.trim_eq (h : Trimmed cs) : trim cs = cs := by
  have hright : cs.reverse.dropWhile isBlank = cs.reverse :=
    dropWhile_eq_self (by rw [List.head?_reverse]; exact h.stop)
  rw [trim, dropWhile_eq_self h.start, trimRight, hright, List.reverse_reverse]

theorem trimRight_prefix (cs : List Char) : trimRight cs <+: cs := by
  rw [trimRight, ← List.reverse_suffix, List.reverse_reverse]
  exact List.dropWhile_suffix isBlank

/-- **What trimming leaves is trimmed.** -/
theorem trimmed_trim (cs : List Char) : Trimmed (trim cs) where
  start c hc := by
    obtain ⟨behind, hbehind⟩ := trimRight_prefix (cs.dropWhile isBlank)
    obtain ⟨more, hmore⟩ := List.head?_eq_some_iff.mp hc
    rw [trim] at hmore
    have hhead := List.head?_dropWhile_not isBlank cs
    rw [← hbehind, hmore] at hhead
    exact hhead
  stop c hc := by
    obtain ⟨before, hbefore⟩ := List.getLast?_eq_some_iff.mp hc
    simpa [isBlankText] using isBlankText_of_trim hbefore (List.cons_ne_nil c [])

/-- A text is left as it is exactly when it is trimmed. -/
theorem trimmed_eq_self_iff {s : String} : trimmed s = s ↔ Trimmed s.toList := by
  refine ⟨fun h => ?_, fun h => ?_⟩
  · have hchars : trim s.toList = s.toList := by
      rw [← String.toList_ofList (l := trim s.toList), ← trimmed, h]
    exact hchars ▸ trimmed_trim s.toList
  · rw [trimmed, h.trim_eq, String.ofList_toList]

/-- Between two trimmed texts there may be anything. -/
theorem Trimmed.between (hfront : Trimmed front) (hne : front ≠ []) (middle : List Char)
    (hrest : Trimmed rest) (hne' : rest ≠ []) : Trimmed (front ++ (middle ++ rest)) where
  start c hc := by
    obtain ⟨first, more, rfl⟩ := List.exists_cons_of_ne_nil hne
    exact hfront.start c hc
  stop c hc := by
    have hlast := List.getLast?_eq_some_getLast hne'
    rw [List.getLast?_append, List.getLast?_append, hlast, Option.some_or, Option.some_or,
      ← hlast] at hc
    exact hrest.stop c hc

/-- A trimmed text is a blank text only where it is empty. -/
theorem Trimmed.isBlankText_eq_false (h : Trimmed cs) (hne : cs ≠ []) : isBlankText cs = false :=
  isBlankText_of_trim (h.trim_eq.trans (List.nil_append cs).symm) hne

/-- A blank behind a text is trimmed off. -/
theorem trim_concat {c : Char} (hc : isBlank c = true) (cs : List Char) :
    trim (cs ++ [c]) = trim cs := by
  rw [trim, trim, List.dropWhile_append]
  split
  · next hempty => simp [List.isEmpty_iff.1 hempty, hc]
  · simp [trimRight, hc]

/-- Only of a blank text nothing is left. -/
theorem isBlankText_of_trim_eq_nil (h : trim cs = []) : isBlankText cs = true := by
  rw [trim, trimRight, List.reverse_eq_nil_iff] at h
  -- What goes from the right is all that has not gone from the left.
  have hright : isBlankText (cs.dropWhile isBlank) = true := by
    have hall := List.all_takeWhile (p := isBlank) (l := (cs.dropWhile isBlank).reverse)
    have hsplit :=
      List.takeWhile_append_dropWhile (p := isBlank) (l := (cs.dropWhile isBlank).reverse)
    rw [h, List.append_nil] at hsplit
    rwa [hsplit, List.all_reverse] at hall
  rw [← List.takeWhile_append_dropWhile (p := isBlank) (l := cs), isBlankText_append, hright]
  exact (Bool.and_true _).trans List.all_takeWhile

/-! ## Words -/

/-- A word: a text that is not empty and has no blanks. -/
structure IsWord (cs : List Char) : Prop where
  nonempty : cs ≠ []
  solid : ∀ c ∈ cs, isBlank c = false

theorem isWord_iff : IsWord cs ↔ cs ≠ [] ∧ cs.all (! isBlank ·) = true := by
  rw [List.all_eq_true]
  exact ⟨fun h => ⟨h.nonempty, by simpa using h.solid⟩, fun h => ⟨h.1, by simpa using h.2⟩⟩

instance (cs : List Char) : Decidable (IsWord cs) :=
  decidable_of_iff' _ isWord_iff

/-- **A blank parts the words** before it from those after it. -/
theorem words_append_blank {c : Char} (hc : isBlank c = true) (front rest : List Char) :
    words (front ++ c :: rest) = words front ++ words rest := by
  rw [words, List.splitOnP_append_cons front rest hc, List.filter_append]
  rfl

/-- A word is the one word of itself. -/
theorem words_of_word (h : IsWord cs) : words cs = [cs] := by
  rw [words, List.splitOnP_eq_singleton h.solid]
  simp [h.nonempty]

theorem IsWord.trimmed (h : IsWord cs) : Trimmed cs where
  start c hc := h.solid c (List.mem_of_mem_head? hc)
  stop c hc := h.solid c (List.mem_of_mem_getLast? hc)

/-! ## Identifiers and the null word -/

theorem isBlank_of_isIdentifierChar {c : Char} (h : isIdentifierChar c = true) :
    isBlank c = false := by
  change ((decide (65 ≤ c.val ∧ c.val ≤ 90) ||
    (decide (97 ≤ c.val) && decide (c.val ≤ 122))) ||
    (decide (48 ≤ c.val) && decide (c.val ≤ 57)) || c == '_') = true at h
  simp only [Bool.or_eq_true, Bool.and_eq_true, decide_eq_true_eq, beq_iff_eq,
    UInt32.le_iff_toNat_le] at h
  change (((65 ≤ c.toNat ∧ c.toNat ≤ 90) ∨ (97 ≤ c.toNat ∧ c.toNat ≤ 122)) ∨
    (48 ≤ c.toNat ∧ c.toNat ≤ 57)) ∨ c = '_' at h
  -- From `0` to `z` there is no blank.
  have hcode : 48 ≤ c.toNat ∧ c.toNat ≤ 122 := by
    rcases h with ((h | h) | h) | rfl
    · omega
    · omega
    · omega
    · decide
  simp only [isBlank, Bool.or_eq_false_iff, Bool.and_eq_false_iff, decide_eq_false_iff_not,
    beq_eq_false_iff_ne]
  omega

theorem isWord_of_isIdentifier {name : String} (h : isIdentifier name = true) :
    IsWord name.toList := by
  simp only [isIdentifier, Bool.and_eq_true, Bool.not_eq_true', List.isEmpty_eq_false_iff,
    List.all_eq_true] at h
  exact ⟨h.1, fun c hc => isBlank_of_isIdentifierChar (h.2 c hc)⟩

theorem toLower_of_isBlank {c : Char} (h : isBlank c = true) : c.toLower = c := by
  -- Nor is there one among the capitals, which alone are changed.
  have hrange : ¬ ('A'.val ≤ c.val ∧ c.val ≤ 'Z'.val) := by
    rintro ⟨hlow, hhigh⟩
    change 65 ≤ c.toNat at hlow
    change c.toNat ≤ 90 at hhigh
    simp only [isBlank, Bool.or_eq_true, Bool.and_eq_true, decide_eq_true_eq, beq_iff_eq] at h
    omega
  exact dif_neg hrange

/-- The null word is a word, in any letter case. -/
theorem isWord_of_isNullWord (h : isNullWord cs = true) : IsWord cs := by
  have hletters : cs.map Char.toLower = ['n', 'u', 'l', 'l'] := eq_of_beq h
  refine ⟨?_, fun c hc => ?_⟩
  · rintro rfl
    cases hletters
  · rw [← Bool.not_eq_true]
    intro hblank
    have hmem : c ∈ ['n', 'u', 'l', 'l'] := by
      rw [← hletters, ← toLower_of_isBlank hblank]
      exact List.mem_map_of_mem hc
    have hword : IsWord ['n', 'u', 'l', 'l'] := by decide
    rw [hword.solid c hmem] at hblank
    cases hblank

end Text

end ShardStore

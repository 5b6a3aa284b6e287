import Mathlib.Data.List.TakeWhile
import ShardStore.Proofs.Text.Blank
/-!
# Text — a text and its words

The words of a text are those that blanks separate and surround in it
(`Spaced`): every text has its words so, and a text that has some words so has
no others (`words_eq_iff`). The blanks at the edges belong to no word, so a
text has the words that it has trimmed (`words_trim`).
-/

namespace ShardStore

namespace Text

variable {cs front rest word : List Char} {parts : List (List Char)}

/-! ## Blank edges -/

theorem isBlankText_cons {c : Char} :
    isBlankText (c :: cs) = true ↔ isBlank c = true ∧ isBlankText cs = true := by
  rw [isBlankText, List.all_cons, Bool.and_eq_true]
  rfl

/-- What is trimmed off on the right is blank. -/
theorem exists_trimRight (cs : List Char) :
    ∃ back, isBlankText back = true ∧ cs = trimRight cs ++ back := by
  refine ⟨(cs.reverse.takeWhile isBlank).reverse, ?_, ?_⟩
  · rw [isBlankText, List.all_reverse]
    exact List.all_takeWhile
  · rw [trimRight, ← List.reverse_append, List.takeWhile_append_dropWhile, List.reverse_reverse]

/-- **Between blank edges a text is what trimming leaves of it.** -/
theorem exists_trim (cs : List Char) : ∃ front back,
    isBlankText front = true ∧ isBlankText back = true ∧ cs = front ++ (trim cs ++ back) := by
  obtain ⟨back, hback, hsplit⟩ := exists_trimRight (cs.dropWhile isBlank)
  refine ⟨cs.takeWhile isBlank, back, List.all_takeWhile, hback, ?_⟩
  rw [trim, ← hsplit, List.takeWhile_append_dropWhile]

/-- Only what is behind the last character that is no blank is trimmed off on
the right. -/
theorem trimRight_append (h : Trimmed front) (rest : List Char) :
    trimRight (front ++ rest) = front ++ trimRight rest := by
  have hstop : (front.reverse.dropWhile isBlank) = front.reverse :=
    dropWhile_eq_self (by rw [List.head?_reverse]; exact h.stop)
  rw [trimRight, trimRight, List.reverse_append, List.dropWhile_append]
  split
  · next hblank =>
    rw [hstop, List.isEmpty_iff.1 hblank, List.reverse_reverse, List.reverse_nil, List.append_nil]
  · rw [List.reverse_append, List.reverse_reverse]

theorem trim_front (h : Trimmed front) (hne : front ≠ []) (rest : List Char) :
    trim (front ++ rest) = front ++ trimRight rest := by
  have hstart : (front ++ rest).dropWhile isBlank = front ++ rest := by
    refine dropWhile_eq_self fun c hc => h.start c ?_
    obtain ⟨first, more, rfl⟩ := List.exists_cons_of_ne_nil hne
    exact hc
  rw [trim, hstart, trimRight_append h]

theorem trimRight_blank (h : isBlankText cs = true) : trimRight cs = [] := by
  have hnone : cs.reverse.dropWhile isBlank = [] := by
    rw [List.dropWhile_eq_nil_iff]
    exact fun c hc => List.all_eq_true.1 h c (List.mem_reverse.1 hc)
  rw [trimRight, hnone, List.reverse_nil]

/-- Blanks behind a text are trimmed off. -/
theorem trim_append_blanks (h : isBlankText rest = true) (cs : List Char) :
    trim (cs ++ rest) = trim cs := by
  induction rest generalizing cs with
  | nil => rw [List.append_nil]
  | cons c rest ih =>
    obtain ⟨hc, hrest⟩ := isBlankText_cons.1 h
    rw [List.append_cons, ih hrest, trim_concat hc]

/-! ## Words between blanks -/

theorem words_nil : words [] = [] := by simp [words]

theorem words_cons_blank {c : Char} (hc : isBlank c = true) (cs : List Char) :
    words (c :: cs) = words cs := by
  have hsplit := words_append_blank hc [] cs
  rwa [List.nil_append, words_nil, List.nil_append] at hsplit

/-- Blanks in front of a text are no word. -/
theorem words_blank_append (h : isBlankText front = true) (cs : List Char) :
    words (front ++ cs) = words cs := by
  induction front with
  | nil => rfl
  | cons c front ih =>
    obtain ⟨hc, hfront⟩ := isBlankText_cons.1 h
    rw [List.cons_append, words_cons_blank hc, ih hfront]

theorem words_blank (h : isBlankText cs = true) : words cs = [] := by
  rw [← List.append_nil cs, words_blank_append h, words_nil]

/-- Nor are those behind it. -/
theorem words_append_blanks (h : isBlankText rest = true) (cs : List Char) :
    words (cs ++ rest) = words cs := by
  cases rest with
  | nil => rw [List.append_nil]
  | cons c rest =>
    obtain ⟨hc, hrest⟩ := isBlankText_cons.1 h
    rw [words_append_blank hc, words_blank hrest, List.append_nil]

theorem words_trimRight (cs : List Char) : words (trimRight cs) = words cs := by
  obtain ⟨back, hback, hsplit⟩ := exists_trimRight cs
  rw [hsplit, words_append_blanks hback, ← hsplit]

/-- **A text has the words that it has trimmed.** -/
theorem words_trim (cs : List Char) : words (trim cs) = words cs := by
  obtain ⟨front, back, hfront, hback, hsplit⟩ := exists_trim cs
  have hwords := congrArg words hsplit
  rw [words_blank_append hfront, words_append_blanks hback] at hwords
  exact hwords.symm

/-- A word ends where a blank follows or the text ends. -/
theorem words_word_append (hword : IsWord word) (hrest : ∀ c ∈ rest.head?, isBlank c = true) :
    words (word ++ rest) = word :: words rest := by
  cases rest with
  | nil => rw [List.append_nil, words_of_word hword, words_nil]
  | cons c rest =>
    have hc : isBlank c = true := hrest c rfl
    rw [words_append_blank hc, words_of_word hword, words_cons_blank hc, List.singleton_append]

/-- **Parts with blanks between each two of them**, and perhaps around them
all. A part may have blanks within. -/
inductive Spaced : List (List Char) → List Char → Prop
  | blank {cs : List Char} (h : isBlankText cs = true) : Spaced [] cs
  | part {parts : List (List Char)} {before part rest : List Char}
      (hbefore : isBlankText before = true) (hend : ∀ c ∈ rest.head?, isBlank c = true)
      (hrest : Spaced parts rest) : Spaced (part :: parts) (before ++ (part ++ rest))

/-- Parts that are words are the words of their text. -/
theorem Spaced.words_eq (h : Spaced parts cs) (hparts : ∀ part ∈ parts, IsWord part) :
    words cs = parts := by
  induction h with
  | blank h => exact words_blank h
  | part hbefore hend _ ih =>
    obtain ⟨hpart, hmore⟩ := List.forall_mem_cons.1 hparts
    rw [words_blank_append hbefore, words_word_append hpart hend, ih hmore]

/-- A text is solid up to where it ends or a blank follows. -/
theorem exists_solid (cs : List Char) : ∃ front rest, (∀ c ∈ front, isBlank c = false) ∧
    (∀ c ∈ rest.head?, isBlank c = true) ∧ cs = front ++ rest := by
  induction cs with
  | nil => exact ⟨[], [], by simp, by simp, rfl⟩
  | cons c cs ih =>
    cases hc : isBlank c with
    | true => exact ⟨[], c :: cs, by simp, by simpa using hc, rfl⟩
    | false =>
      obtain ⟨front, rest, hfront, hend, rfl⟩ := ih
      exact ⟨c :: front, rest, List.forall_mem_cons.2 ⟨hc, hfront⟩, hend, rfl⟩

/-- A text that is not blank has a first word. -/
theorem exists_first_word (h : isBlankText cs = false) : ∃ before word rest,
    isBlankText before = true ∧ IsWord word ∧ (∀ c ∈ rest.head?, isBlank c = true) ∧
      cs = before ++ (word ++ rest) := by
  induction cs with
  | nil => cases h
  | cons c cs ih =>
    cases hc : isBlank c with
    | true =>
      have hcs : isBlankText cs = false := by simpa [isBlankText, hc] using h
      obtain ⟨before, word, rest, hbefore, hword, hend, rfl⟩ := ih hcs
      exact ⟨c :: before, word, rest, isBlankText_cons.2 ⟨hc, hbefore⟩, hword, hend, rfl⟩
    | false =>
      obtain ⟨front, rest, hfront, hend, rfl⟩ := exists_solid cs
      have hword : IsWord (c :: front) :=
        ⟨List.cons_ne_nil c front, List.forall_mem_cons.2 ⟨hc, hfront⟩⟩
      exact ⟨[], c :: front, rest, rfl, hword, hend, rfl⟩

/-- **Every text has its words so**, and they are words. -/
theorem spaced_words (cs : List Char) :
    Spaced (words cs) cs ∧ ∀ word ∈ words cs, IsWord word := by
  cases hblank : isBlankText cs with
  | true =>
    rw [words_blank hblank]
    exact ⟨.blank hblank, fun word hword => absurd hword List.not_mem_nil⟩
  | false =>
    obtain ⟨before, word, rest, hbefore, hword, hend, rfl⟩ := exists_first_word hblank
    have hshorter : rest.length < (before ++ (word ++ rest)).length := by
      have hpos := List.length_pos_iff.2 hword.nonempty
      simp only [List.length_append]
      omega
    obtain ⟨hspaced, hwords⟩ := spaced_words rest
    rw [words_blank_append hbefore, words_word_append hword hend]
    exact ⟨.part hbefore hend hspaced, List.forall_mem_cons.2 ⟨hword, hwords⟩⟩
termination_by cs.length

/-- **The words of a text are those that blanks separate and surround in
it.** -/
theorem words_eq_iff : words cs = parts ↔ Spaced parts cs ∧ ∀ part ∈ parts, IsWord part := by
  constructor
  · rintro rfl
    exact spaced_words cs
  · rintro ⟨hspaced, hparts⟩
    exact hspaced.words_eq hparts

/-- A single part is what trimming leaves. -/
theorem Spaced.trim_single (h : Spaced [front] cs) (hfront : Trimmed front) (hne : front ≠ []) :
    trim cs = front := by
  cases h with
  | part hbefore _ hrest =>
    cases hrest with
    | blank hblank =>
      rw [trim_append hbefore, trim_front hfront hne, trimRight_blank hblank, List.append_nil]

/-- The first part leads the trimmed text, and the others are in what follows
it. -/
theorem Spaced.trim_eq (h : Spaced (front :: parts) cs) (hfront : Trimmed front)
    (hne : front ≠ []) (hparts : ∀ part ∈ parts, IsWord part) :
    ∃ rest, trim cs = front ++ rest ∧ (∀ c ∈ rest.head?, isBlank c = true) ∧
      words rest = parts := by
  cases h with
  | @part _ before _ rest hbefore hend hrest =>
    refine ⟨trimRight rest, ?_, fun c hc => hend c ?_, ?_⟩
    · rw [trim_append hbefore, trim_front hfront hne]
    · obtain ⟨back, hback⟩ := trimRight_prefix rest
      obtain ⟨more, hmore⟩ := List.head?_eq_some_iff.1 hc
      rw [← hback, hmore]
      rfl
    · rw [words_trimRight, hrest.words_eq hparts]

end Text

end ShardStore

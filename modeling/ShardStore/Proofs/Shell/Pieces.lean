import ShardStore.Proofs.Text.Words
import ShardStore.Shell.Script
/-!
# Shell — the pieces of a line

A line is cut at every semicolon at which no quote is open. So a text is left
whole if all its semicolons are in quotes (`Uncut`), and it lets the next cut be
found behind it if it closes what it opens (`Closed`). A line falls into uncut
pieces of which all but the last are closed (`cuts_pieces`), and closed and
uncut pieces with semicolons between them are found again (`pieces_join`).
Blanks neither open nor close anything, so all of this holds of a text and of
what trimming leaves of it.
-/

namespace ShardStore

open Text

namespace Shell

variable {front back line piece cs : List Char} {opened : Option Char} {c : Char}
  {parts : List (List Char)}

/-! ## Open quotes -/

/-- The quote that a text leaves open. -/
def leftOpen (text : List Char) : Option Char :=
  text.foldl quoteAfter none

/-- **Every quote that is opened is closed.** -/
def Closed (text : List Char) : Prop :=
  leftOpen text = none

/-- **No semicolon is outside quotes.** -/
def Uncut (text : List Char) : Prop :=
  ∀ front back, text = front ++ ';' :: back → leftOpen front ≠ none

/-- A text that is left whole, and behind which the next one begins. -/
structure IsPiece (text : List Char) : Prop where
  closed : Closed text
  uncut : Uncut text

theorem leftOpen_append (front back : List Char) :
    leftOpen (front ++ back) = back.foldl quoteAfter (leftOpen front) :=
  List.foldl_append

theorem Closed.leftOpen_append (h : Closed front) (back : List Char) :
    leftOpen (front ++ back) = leftOpen back := by
  rw [Shell.leftOpen_append, h]
  rfl

theorem Closed.append (h : Closed front) (h' : Closed back) : Closed (front ++ back) :=
  (h.leftOpen_append back).trans h'

/-- What is open is one of the two quotes. -/
theorem quote_of_foldl (hopened : ∀ quote ∈ opened, quote = '\'' ∨ quote = '"') :
    ∀ quote ∈ cs.foldl quoteAfter opened, quote = '\'' ∨ quote = '"' := by
  induction cs generalizing opened with
  | nil => exact hopened
  | cons c cs ih =>
    refine ih fun quote hquote => ?_
    cases opened with
    | none =>
      rw [quoteAfter] at hquote
      split at hquote
      · next hc =>
        cases hquote
        exact hc
      · cases hquote
    | some other =>
      rw [quoteAfter] at hquote
      split at hquote
      · cases hquote
      · cases hquote
        exact hopened _ rfl

theorem quote_of_leftOpen (text : List Char) :
    ∀ quote ∈ leftOpen text, quote = '\'' ∨ quote = '"' :=
  quote_of_foldl fun _ hquote => by cases hquote

/-- A text without quotes changes nothing. -/
theorem foldl_of_quoteless (h : ∀ c ∈ cs, c ≠ '\'' ∧ c ≠ '"')
    (hopened : ∀ quote ∈ opened, quote = '\'' ∨ quote = '"') :
    cs.foldl quoteAfter opened = opened := by
  induction cs with
  | nil => rfl
  | cons c cs ih =>
    obtain ⟨⟨hsingle, hdouble⟩, hcs⟩ := List.forall_mem_cons.1 h
    have hc : quoteAfter opened c = opened := by
      cases opened with
      | none => simp [quoteAfter, hsingle, hdouble]
      | some quote =>
        have hne : c ≠ quote := by
          rcases hopened quote rfl with rfl | rfl
          · exact hsingle
          · exact hdouble
        simp [quoteAfter, hne]
    rw [List.foldl_cons, hc, ih hcs]

theorem closed_of_quoteless (h : ∀ c ∈ cs, c ≠ '\'' ∧ c ≠ '"') : Closed cs :=
  foldl_of_quoteless h fun _ hquote => by cases hquote

theorem leftOpen_append_quoteless (h : ∀ c ∈ back, c ≠ '\'' ∧ c ≠ '"') (front : List Char) :
    leftOpen (front ++ back) = leftOpen front := by
  rw [leftOpen_append, foldl_of_quoteless h (quote_of_leftOpen front)]

/-! ## Semicolons outside quotes -/

theorem uncut_of_not_mem (h : ';' ∉ cs) : Uncut cs := by
  rintro front back rfl
  exact absurd (by simp) h

theorem Uncut.left (h : Uncut (front ++ back)) : Uncut front := by
  rintro before after rfl
  exact h before (after ++ back) (by simp)

theorem Uncut.right (h : Uncut (front ++ back)) (hfront : Closed front) : Uncut back := by
  rintro before after rfl
  rw [← hfront.leftOpen_append before]
  exact h (front ++ before) after (by simp)

/-- **Behind a closed text the quotes are counted anew.** -/
theorem Uncut.append (h : Uncut front) (hfront : Closed front) (h' : Uncut back) :
    Uncut (front ++ back) := by
  intro before after heq
  rcases List.append_eq_append_iff.1 heq with ⟨more, rfl, hback⟩ | ⟨more, rfl, hmore⟩
  · rw [hfront.leftOpen_append]
    exact h' more after hback
  · cases more with
    | nil =>
      have hopen := h' [] after (by simpa using hmore.symm)
      exact absurd rfl hopen
    | cons c more =>
      obtain ⟨rfl, -⟩ := List.cons.inj hmore
      exact h before more rfl

theorem IsPiece.append (h : IsPiece front) (h' : IsPiece back) : IsPiece (front ++ back) :=
  ⟨h.closed.append h'.closed, h.uncut.append h.closed h'.uncut⟩

theorem uncut_concat (h : Uncut front) (hc : leftOpen front = none → c ≠ ';') :
    Uncut (front ++ [c]) := by
  intro before after heq
  rcases List.append_eq_append_iff.1 heq with ⟨more, rfl, hlast⟩ | ⟨more, rfl, hmore⟩
  · cases more with
    | nil =>
      obtain ⟨rfl, -⟩ := List.cons.inj hlast
      rw [List.append_nil]
      exact fun hopen => hc hopen rfl
    | cons d more =>
      obtain ⟨-, hnil⟩ := List.cons.inj hlast
      cases more <;> cases hnil
  · cases more with
    | nil =>
      obtain ⟨rfl, -⟩ := List.cons.inj hmore
      rw [List.append_nil] at hc
      exact fun hopen => hc hopen rfl
    | cons d more =>
      obtain ⟨rfl, -⟩ := List.cons.inj hmore
      exact h before more rfl

/-! ## Blank edges -/

theorem not_quote_of_isBlank (h : isBlank c = true) : (c ≠ '\'' ∧ c ≠ '"') ∧ c ≠ ';' := by
  refine ⟨⟨?_, ?_⟩, ?_⟩
  all_goals
    rintro rfl
    cases h

/-- Blanks are a piece of their own. -/
theorem isPiece_blank (h : isBlankText cs = true) : IsPiece cs := by
  have hblank := List.all_eq_true.1 h
  refine ⟨closed_of_quoteless fun c hc => (not_quote_of_isBlank (hblank c hc)).1, ?_⟩
  exact uncut_of_not_mem fun hmem => (not_quote_of_isBlank (hblank _ hmem)).2 rfl

/-- **Trimming leaves the same quote open.** -/
theorem leftOpen_trim (cs : List Char) : leftOpen (trim cs) = leftOpen cs := by
  obtain ⟨before, after, hbefore, hafter, hsplit⟩ := exists_trim cs
  have hquoteless : ∀ c ∈ after, c ≠ '\'' ∧ c ≠ '"' := fun c hc =>
    (not_quote_of_isBlank (List.all_eq_true.1 hafter c hc)).1
  rw [← leftOpen_append_quoteless hquoteless (trim cs),
    ← (isPiece_blank hbefore).closed.leftOpen_append, ← hsplit]

theorem closed_trim : Closed (trim cs) ↔ Closed cs := by
  rw [Closed, Closed, leftOpen_trim]

theorem Uncut.trim (h : Uncut cs) : Uncut (trim cs) := by
  obtain ⟨before, after, hbefore, hafter, hsplit⟩ := exists_trim cs
  rw [hsplit] at h
  exact (h.right (isPiece_blank hbefore).closed).left

/-- Blanks around a piece make no other piece of it. -/
theorem IsPiece.of_trim (h : IsPiece (Text.trim cs)) : IsPiece cs := by
  obtain ⟨before, after, hbefore, hafter, hsplit⟩ := exists_trim cs
  rw [hsplit]
  exact (isPiece_blank hbefore).append (h.append (isPiece_blank hafter))

/-! ## Cutting -/

/-- **Where no quote is open a semicolon cuts**, and what follows is cut on its
own. -/
theorem pieces_append (current : List Char) (h : front.foldl quoteAfter opened = none)
    (back : List Char) :
    pieces opened current (front ++ ';' :: back) =
      pieces opened current front ++ pieces none [] back := by
  induction front generalizing opened current with
  | nil =>
    obtain rfl : opened = none := h
    rfl
  | cons c front ih =>
    rw [List.cons_append, pieces, pieces]
    split
    · next hcut =>
      obtain ⟨hnone, rfl⟩ : opened = none ∧ c = ';' := by simpa using hcut
      have hfront : front.foldl quoteAfter none = none := by rwa [hnone] at h
      rw [ih _ hfront, List.cons_append]
    · exact ih _ h

/-- Without such a semicolon there is one piece. -/
theorem pieces_whole (current : List Char)
    (h : ∀ front back, cs = front ++ ';' :: back → front.foldl quoteAfter opened ≠ none) :
    pieces opened current cs = [current.reverse ++ cs] := by
  induction cs generalizing opened current with
  | nil => simp [pieces]
  | cons c cs ih =>
    have hc : ¬ (opened.isNone && c == ';') = true := by
      intro hcut
      obtain ⟨hnone, rfl⟩ : opened = none ∧ c = ';' := by simpa using hcut
      exact h [] cs rfl hnone
    have hmore : ∀ front back, cs = front ++ ';' :: back →
        front.foldl quoteAfter (quoteAfter opened c) ≠ none := by
      rintro front back rfl
      exact h (c :: front) back rfl
    rw [pieces, if_neg hc, ih _ hmore]
    simp

theorem Uncut.pieces_eq (h : Uncut cs) : pieces none [] cs = [cs] :=
  pieces_whole [] h

/-- **Pieces with semicolons between them are found again.** -/
theorem pieces_join (hne : parts ≠ []) (h : ∀ piece ∈ parts, IsPiece piece) :
    pieces none [] ([';'].intercalate parts) = parts := by
  induction parts with
  | nil => exact absurd rfl hne
  | cons piece parts ih =>
    obtain ⟨hpiece, hmore⟩ := List.forall_mem_cons.1 h
    cases parts with
    | nil => simpa using hpiece.uncut.pieces_eq
    | cons next parts =>
      have hsplit : [';'].intercalate (piece :: next :: parts) =
          piece ++ ';' :: [';'].intercalate (next :: parts) := by
        simp [List.intercalate_cons_cons]
      rw [hsplit, pieces_append [] hpiece.closed, hpiece.uncut.pieces_eq,
        ih (List.cons_ne_nil _ _) hmore]
      rfl

/-- A line and what it falls into: uncut pieces, and closed ones but for the
last. -/
inductive Cuts : List Char → List (List Char) → Prop
  | last {piece : List Char} (h : Uncut piece) : Cuts piece [piece]
  | more {piece line : List Char} {parts : List (List Char)} (h : IsPiece piece)
      (hmore : Cuts line parts) : Cuts (piece ++ ';' :: line) (piece :: parts)

/-- The scan keeps that what it has taken is uncut, and which quote is open
behind it. -/
theorem cuts_pieces_from (current : List Char) (huncut : Uncut current.reverse)
    (hopen : leftOpen current.reverse = opened) :
    Cuts (current.reverse ++ line) (pieces opened current line) := by
  induction line generalizing opened current with
  | nil =>
    rw [pieces, List.append_nil]
    exact .last huncut
  | cons c line ih =>
    rw [pieces]
    split
    · next hcut =>
      obtain ⟨hnone, rfl⟩ : opened = none ∧ c = ';' := by simpa using hcut
      exact .more ⟨hopen.trans hnone, huncut⟩ (ih [] (uncut_of_not_mem (by simp)) rfl)
    · next hcut =>
      have hc : leftOpen current.reverse = none → c ≠ ';' := by
        rintro hnone rfl
        exact hcut (by simp [← hopen, hnone])
      have hnext : leftOpen (c :: current).reverse = quoteAfter opened c := by
        rw [List.reverse_cons, leftOpen_append, hopen]
        rfl
      have hmore := ih (c :: current) (by simpa using uncut_concat huncut hc) hnext
      simpa using hmore

/-- **A line falls into uncut pieces, all but the last of them closed.** -/
theorem cuts_pieces (line : List Char) : Cuts line (pieces none [] line) :=
  cuts_pieces_from [] (uncut_of_not_mem (by simp)) rfl

theorem Cuts.uncut (h : Cuts line parts) : ∀ piece ∈ parts, Uncut piece := by
  induction h with
  | last h => exact List.forall_mem_singleton.2 h
  | more h _ ih => exact List.forall_mem_cons.2 ⟨h.uncut, ih⟩

theorem Cuts.ne_nil (h : Cuts line parts) : parts ≠ [] := by
  cases h <;> exact List.cons_ne_nil _ _

theorem Cuts.closed (h : Cuts line parts) : ∀ piece ∈ parts.dropLast, Closed piece := by
  induction h with
  | last => simp
  | more h hmore ih =>
    rw [List.dropLast_cons_of_ne_nil hmore.ne_nil]
    exact List.forall_mem_cons.2 ⟨h.closed, ih⟩

/-- **A text is uncut if and only if cutting leaves it whole.** -/
theorem uncut_iff_pieces : Uncut cs ↔ pieces none [] cs = [cs] := by
  refine ⟨Uncut.pieces_eq, fun h => ?_⟩
  have huncut := (cuts_pieces cs).uncut
  rw [h] at huncut
  exact List.forall_mem_singleton.1 huncut

instance (text : List Char) : Decidable (Closed text) :=
  inferInstanceAs (Decidable (leftOpen text = none))

instance (text : List Char) : Decidable (Uncut text) :=
  decidable_of_iff _ uncut_iff_pieces.symm

instance (text : List Char) : Decidable (IsPiece text) :=
  decidable_of_iff (Closed text ∧ Uncut text)
    ⟨fun h => ⟨h.1, h.2⟩, fun h => ⟨h.closed, h.uncut⟩⟩

/-! ## The pieces that are kept -/

theorem mem_dropLast_filter {α : Type} {keep : α → Bool} {as : List α} {a : α}
    (h : a ∈ (as.filter keep).dropLast) : a ∈ as.dropLast := by
  rcases List.eq_nil_or_concat as with rfl | ⟨front, last, rfl⟩
  · exact h
  · rw [List.concat_eq_append, List.filter_append] at h
    rw [List.concat_eq_append, List.dropLast_concat]
    by_cases hlast : keep last = true
    · have hkept : [last].filter keep = [last] := by simp [hlast]
      rw [hkept, List.dropLast_concat] at h
      exact (List.mem_filter.1 h).1
    · have hdropped : [last].filter keep = [] := by simp [hlast]
      rw [hdropped, List.append_nil] at h
      exact (List.mem_filter.1 ((List.dropLast_sublist _).subset h)).1

/-- An uncut text is kept whole. -/
theorem splitLine_of_uncut (h : Uncut cs) (hne : trim cs ≠ []) : splitLine cs = [trim cs] := by
  rw [splitLine, h.pieces_eq]
  simp [hne]

/-- **What is kept of a line** is trimmed, not empty and uncut, so it is kept
whole if it is split again. -/
theorem isStatement_of_mem_splitLine (h : piece ∈ splitLine line) :
    Trimmed piece ∧ piece ≠ [] ∧ Uncut piece ∧ splitLine piece = [piece] := by
  obtain ⟨hmem, hkept⟩ := List.mem_filter.1 h
  obtain ⟨part, hpart, rfl⟩ := List.mem_map.1 hmem
  have hne : trim part ≠ [] := by simpa using hkept
  have huncut := ((cuts_pieces line).uncut part hpart).trim
  have htrim : trim (trim part) = trim part := (trimmed_trim part).trim_eq
  refine ⟨trimmed_trim part, hne, huncut, ?_⟩
  rw [splitLine_of_uncut huncut (htrim.symm ▸ hne), htrim]

/-- All that is kept but the last is closed. -/
theorem closed_of_mem_splitLine (h : piece ∈ (splitLine line).dropLast) : Closed piece := by
  have hmem := mem_dropLast_filter h
  rw [← List.map_dropLast] at hmem
  obtain ⟨part, hpart, rfl⟩ := List.mem_map.1 hmem
  exact closed_trim.2 ((cuts_pieces line).closed part hpart)

/-- Texts, and pieces that are these texts with blanks around them and any
number of blank pieces between. -/
inductive Padded : List (List Char) → List (List Char) → Prop
  | nil : Padded [] []
  | blank {piece : List Char} {texts parts : List (List Char)} (h : isBlankText piece = true)
      (hmore : Padded texts parts) : Padded texts (piece :: parts)
  | text {before text after : List Char} {texts parts : List (List Char)}
      (hbefore : isBlankText before = true) (hafter : isBlankText after = true)
      (hmore : Padded texts parts) :
      Padded (text :: texts) ((before ++ (text ++ after)) :: parts)

variable {texts : List (List Char)}

theorem Padded.isPiece (h : Padded texts parts) (htexts : ∀ text ∈ texts, IsPiece text) :
    ∀ piece ∈ parts, IsPiece piece := by
  induction h with
  | nil => exact fun piece hpiece => absurd hpiece List.not_mem_nil
  | blank h _ ih => exact List.forall_mem_cons.2 ⟨isPiece_blank h, ih htexts⟩
  | text hbefore hafter _ ih =>
    obtain ⟨htext, hmore⟩ := List.forall_mem_cons.1 htexts
    have hpiece := (isPiece_blank hbefore).append (htext.append (isPiece_blank hafter))
    exact List.forall_mem_cons.2 ⟨hpiece, ih hmore⟩

theorem trim_eq_nil_iff : trim cs = [] ↔ isBlankText cs = true := by
  refine ⟨isBlankText_of_trim_eq_nil, fun h => ?_⟩
  rw [← List.append_nil cs, trim_append h]
  rfl

/-- Blank pieces are dropped, and the others are trimmed. -/
theorem Padded.kept (h : Padded texts parts) (htexts : ∀ text ∈ texts, isBlankText text = false) :
    (parts.map trim).filter (! ·.isEmpty) = texts.map trim := by
  induction h with
  | nil => rfl
  | blank h _ ih =>
    rw [List.map_cons, trim_eq_nil_iff.2 h, List.filter_cons_of_neg (by simp), ih htexts]
  | @text before text after _ _ hbefore hafter _ ih =>
    obtain ⟨htext, hmore⟩ := List.forall_mem_cons.1 htexts
    have htrim : trim (before ++ (text ++ after)) = trim text := by
      rw [trim_append hbefore, trim_append_blanks hafter]
    have hkept : (! (trim text).isEmpty) = true := by
      have hne : trim text ≠ [] := fun hnil => by
        rw [trim_eq_nil_iff.1 hnil] at htext
        cases htext
      simpa using hne
    rw [List.map_cons, htrim, List.filter_cons, if_pos hkept, ih hmore, List.map_cons]

/-- **Splitting a line inverts joining its statements with semicolons.** -/
theorem splitLine_join (h : Padded texts parts) (htexts : ∀ text ∈ texts, IsPiece text)
    (hsolid : ∀ text ∈ texts, isBlankText text = false) :
    splitLine ([';'].intercalate parts) = texts.map trim := by
  rcases eq_or_ne parts [] with rfl | hne
  · cases h
    rfl
  · rw [splitLine, pieces_join hne (h.isPiece htexts), h.kept hsolid]

end Shell

end ShardStore

import ShardStore.Proofs.Text.Blank
import ShardStore.Statement.Grammar
import ShardStore.Statement.Reader
/-!
# Statements — scans read what the grammar writes

A scan takes a part off a text and leaves a rest (`Takes`). For runs, names
and texts in quotes it is said exactly when it does. A scan of elements is
tied to the grammar of elements in both directions (`Scans`): what is taken
is the text of an element, and the text of an element is taken off whatever
follows it in a list. From this come lists and lists in parentheses, by
induction on the list.
-/

namespace ShardStore

open Text

namespace Statement

variable {kind : Char → Bool} {cs front rest : List Char}

/-! ## Where a run stops -/

theorem stops_cons {c : Char} : Stops kind (c :: rest) ↔ kind c = false := by
  simp [Stops]

theorem stops_dropWhile (kind : Char → Bool) (cs : List Char) : Stops kind (cs.dropWhile kind) := by
  intro c hc
  have hhead := List.head?_dropWhile_not kind cs
  rw [Option.mem_def] at hc
  rw [hc] at hhead
  exact hhead

theorem takeWhile_append_of_stops {word : List Char} (hword : ∀ c ∈ word, kind c = true)
    (hrest : Stops kind rest) : (word ++ rest).takeWhile kind = word := by
  rw [List.takeWhile_append_of_pos hword]
  cases rest with
  | nil => simp
  | cons c more => rw [List.takeWhile_cons_of_neg (by simp [stops_cons.1 hrest]), List.append_nil]

theorem dropWhile_append_of_stops {word : List Char} (hword : ∀ c ∈ word, kind c = true)
    (hrest : Stops kind rest) : (word ++ rest).dropWhile kind = rest := by
  rw [List.dropWhile_append_of_pos hword]
  cases rest with
  | nil => rfl
  | cons c more => rw [List.dropWhile_cons_of_neg (by simp [stops_cons.1 hrest])]

theorem skipSpaces_append (hfront : Spaces front) (hrest : Stops isSpace rest) :
    skipSpaces (front ++ rest) = rest :=
  dropWhile_append_of_stops hfront hrest

/-! ## Scans -/

variable {α β : Type}

/-- A scan takes `a` off a text and leaves `rest`. -/
def Takes (scan : Scan α) (cs : List Char) (a : α) (rest : List Char) : Prop :=
  ∃ p, scan cs = some p ∧ p.value = a ∧ p.rest = rest

/-- A run is taken as long as it is, and not where it is empty. -/
theorem takes_run {word : List Char} : Takes (run kind) cs word rest ↔
    cs = word ++ rest ∧ word ≠ [] ∧ (∀ c ∈ word, kind c = true) ∧ Stops kind rest := by
  constructor
  · rintro ⟨p, hp, rfl, rfl⟩
    cases cs with
    | nil => cases hp
    | cons c cs =>
      rw [run] at hp
      split at hp
      · next hc =>
        cases hp
        refine ⟨by simp, by simp, ?_, stops_dropWhile kind cs⟩
        rw [List.forall_mem_cons]
        exact ⟨hc, List.all_eq_true.mp List.all_takeWhile⟩
      · cases hp
  · rintro ⟨rfl, hne, hword, hrest⟩
    cases word with
    | nil => exact absurd rfl hne
    | cons c more =>
      obtain ⟨hc, hmore⟩ := List.forall_mem_cons.mp hword
      have htake := takeWhile_append_of_stops hmore hrest
      have hdrop := dropWhile_append_of_stops hmore hrest
      refine ⟨_, if_pos hc, ?_, hdrop⟩
      exact congrArg (c :: ·) htake

theorem takes_identifier {name : String} : Takes identifier cs name rest ↔
    cs = name.toList ++ rest ∧ isIdentifier name = true ∧ Stops isIdentifierChar rest := by
  have hrun : Takes identifier cs name rest ↔
      Takes (run isIdentifierChar) cs name.toList rest := by
    unfold Takes identifier
    constructor
    · rintro ⟨p, hp, rfl, rfl⟩
      obtain ⟨q, hq, rfl⟩ := Option.map_eq_some_iff.mp hp
      exact ⟨q, hq, by simp, rfl⟩
    · rintro ⟨q, hq, hvalue, rfl⟩
      refine ⟨q.map String.ofList, by rw [hq]; rfl, ?_, rfl⟩
      rw [Parsed.value_map, hvalue, String.ofList_toList]
  have hname : isIdentifier name = true ↔
      name.toList ≠ [] ∧ ∀ c ∈ name.toList, isIdentifierChar c = true := by
    simp [isIdentifier]
  rw [hrun, takes_run, hname]
  simp only [and_assoc]

/-- A text in quotes goes up to the next quote. -/
theorem takes_quotedText {quote : Char} {content : String} :
    Takes (quotedText quote) cs content rest ↔
      cs = quote :: (content.toList ++ quote :: rest) ∧ quote ∉ content.toList := by
  constructor
  · rintro ⟨p, hp, rfl, rfl⟩
    cases cs with
    | nil => cases hp
    | cons c cs =>
      rw [quotedText] at hp
      split at hp
      · next hc =>
        subst hc
        split at hp
        · cases hp
        · next d rest hdrop =>
          have hd : d = c := by
            have hstop := stops_dropWhile (fun e => decide (e ≠ c)) cs
            rw [hdrop, stops_cons] at hstop
            simpa using hstop
          subst hd
          cases hp
          rw [String.toList_ofList]
          refine ⟨?_, fun hmem => ?_⟩
          · rw [← hdrop, List.takeWhile_append_dropWhile]
          · have hall := List.all_eq_true.mp (List.all_takeWhile
              (p := fun e => decide (e ≠ d)) (l := cs)) d hmem
            simp at hall
      · cases hp
  · rintro ⟨rfl, hfree⟩
    have hword : ∀ c ∈ content.toList, decide (c ≠ quote) = true := by
      intro c hc
      simp only [decide_eq_true_eq]
      rintro rfl
      exact hfree hc
    have hstop : Stops (fun e => decide (e ≠ quote)) (quote :: rest) := by simp [stops_cons]
    have htake := takeWhile_append_of_stops hword hstop
    have hdrop := dropWhile_append_of_stops hword hstop
    unfold Takes
    rw [quotedText, if_pos rfl]
    split
    · next hnil => rw [hdrop] at hnil; cases hnil
    · next more hmore =>
      rw [hdrop] at hmore
      cases hmore
      refine ⟨_, rfl, ?_, rfl⟩
      simp only [htake, String.ofList_toList]

/-! ## Elements -/

/-- What may follow an element of a list. -/
def Delimited (rest : List Char) : Prop :=
  ∃ c more, rest = c :: more ∧ (isSpace c = true ∨ c = ',' ∨ c = ')')

/-- A kind of characters of which none delimits an element stops where one
does. -/
theorem Delimited.stops (h : Delimited rest)
    (hkind : ∀ c, (isSpace c = true ∨ c = ',' ∨ c = ')') → kind c = false) : Stops kind rest := by
  obtain ⟨c, more, rfl, hc⟩ := h
  exact stops_cons.2 (hkind c hc)

/-- A scan takes exactly the texts of elements off the texts of lists. -/
structure Scans (Element : List Char → α → Prop) (element : Scan α) : Prop where
  sound : ∀ {cs a rest}, Takes element cs a rest → ∃ front, cs = front ++ rest ∧ Element front a
  complete : ∀ {front a rest}, Element front a → Delimited rest →
    Takes element (front ++ rest) a rest
  start : ∀ {front a}, Element front a → ∃ c more, front = c :: more ∧ isSpace c = false

/-- The first character of a name is one of an identifier. -/
theorem NameText.start {name : String} (h : NameText front name) :
    ∃ c more, front = c :: more ∧ isIdentifierChar c = true := by
  obtain ⟨rfl, hid⟩ := h
  cases hchars : name.toList with
  | nil => simp [isIdentifier, hchars] at hid
  | cons c more =>
    simp only [isIdentifier, hchars, List.all_cons, Bool.and_eq_true] at hid
    exact ⟨c, more, rfl, hid.2.1⟩

theorem isIdentifierChar_of_delimits {c : Char} (h : isSpace c = true ∨ c = ',' ∨ c = ')') :
    isIdentifierChar c = false := by
  simp only [isSpace, Bool.or_eq_true, beq_iff_eq] at h
  rcases h with (((rfl | rfl) | rfl) | rfl) | rfl | rfl <;> decide

theorem isSpace_of_isIdentifierChar {c : Char} (h : isIdentifierChar c = true) :
    isSpace c = false := by
  cases hspace : isSpace c with
  | false => rfl
  | true => rw [isIdentifierChar_of_delimits (.inl hspace)] at h; cases h

theorem scans_identifier : Scans NameText identifier where
  sound h := by
    obtain ⟨hcs, hid, -⟩ := takes_identifier.1 h
    exact ⟨_, hcs, rfl, hid⟩
  complete h hrest := by
    obtain ⟨rfl, hid⟩ := h
    exact takes_identifier.2 ⟨rfl, hid, hrest.stops fun _ => isIdentifierChar_of_delimits⟩
  start h := by
    obtain ⟨c, more, hfront, hc⟩ := h.start
    exact ⟨c, more, hfront, isSpace_of_isIdentifierChar hc⟩

theorem isBareChar_iff {c : Char} :
    isBareChar c = true ↔ isBlank c = false ∧ c ∉ [',', '(', ')', '\'', '"'] := by
  simp [isBareChar, and_assoc]

theorem isBareChar_of_delimits {c : Char} (h : isSpace c = true ∨ c = ',' ∨ c = ')') :
    isBareChar c = false := by
  rcases h with hspace | rfl | rfl
  · simp [isBareChar, isBlank_of_isSpace hspace]
  · decide
  · decide

theorem quotedText_eq_none {quote c : Char} (h : c ≠ quote) (cs : List Char) :
    quotedText quote (c :: cs) = none := by
  rw [quotedText, if_neg h]

/-- A text in quotes is the text of a value. -/
theorem valueText_of_takes_quotedText {quote : Char} (hquote : quote = '\'' ∨ quote = '"')
    {content : String} (h : Takes (quotedText quote) cs content rest) :
    ∃ front, cs = front ++ rest ∧ ValueText front (.text content) := by
  obtain ⟨rfl, hfree⟩ := takes_quotedText.1 h
  have hvalue := ValueText.quoted hquote hfree
  rw [String.ofList_toList] at hvalue
  exact ⟨_, by simp, hvalue⟩

theorem scans_value : Scans ValueText value where
  sound {cs cell rest} h := by
    obtain ⟨p, hp, rfl, rfl⟩ := h
    unfold value at hp
    split at hp
    · next q hq =>
      cases hp
      exact valueText_of_takes_quotedText (.inl rfl) ⟨q, hq, rfl, rfl⟩
    · split at hp
      · next q hq =>
        cases hp
        exact valueText_of_takes_quotedText (.inr rfl) ⟨q, hq, rfl, rfl⟩
      · obtain ⟨q, hq, rfl⟩ := Option.map_eq_some_iff.mp hp
        obtain ⟨hcs, hne, hall, -⟩ := takes_run.1 ⟨q, hq, rfl, rfl⟩
        exact ⟨_, hcs, .bare hne fun c hc => isBareChar_iff.1 (hall c hc)⟩
  complete {front cell rest} h hrest := by
    cases h with
    | @quoted quote content hquote hfree =>
      have htakes : Takes (quotedText quote) (quote :: (content ++ [quote]) ++ rest)
          (String.ofList content) rest := by
        rw [takes_quotedText]
        simpa using hfree
      obtain ⟨p, hp, hvalue, hrest⟩ := htakes
      unfold Takes value
      rcases hquote with rfl | rfl
      · rw [hp]
        exact ⟨_, rfl, congrArg Cell.text hvalue, hrest⟩
      · have hother : quotedText '\'' ('"' :: (content ++ ['"']) ++ rest) = none :=
          quotedText_eq_none (by decide) _
        rw [hother, hp]
        exact ⟨_, rfl, congrArg Cell.text hvalue, hrest⟩
    | bare hword hfree =>
      obtain ⟨c, more, rfl⟩ := List.exists_cons_of_ne_nil hword
      obtain ⟨p, hp, hvalue, hrest⟩ : Takes (run isBareChar) (c :: more ++ rest) (c :: more) rest :=
        takes_run.2 ⟨rfl, hword, fun d hd => isBareChar_iff.2 (hfree d hd),
          hrest.stops fun _ => isBareChar_of_delimits⟩
      -- Neither quote leads the word.
      have hnone : ∀ quote, quote ∈ [',', '(', ')', '\'', '"'] →
          quotedText quote (c :: more ++ rest) = none := by
        intro quote hquote
        refine quotedText_eq_none ?_ _
        rintro rfl
        exact (hfree c List.mem_cons_self).2 hquote
      unfold Takes value
      rw [hnone '\'' (by decide), hnone '"' (by decide), hp]
      refine ⟨_, rfl, ?_, hrest⟩
      rw [Parsed.value_map, hvalue, bareCell]
  start h := by
    cases h with
    | @quoted quote content hquote hfree =>
      refine ⟨quote, _, rfl, ?_⟩
      rcases hquote with rfl | rfl <;> rfl
    | bare hword hfree =>
      obtain ⟨c, more, rfl⟩ := List.exists_cons_of_ne_nil hword
      refine ⟨c, more, rfl, ?_⟩
      cases hspace : isSpace c with
      | false => rfl
      | true =>
        have hblank := (hfree c List.mem_cons_self).1
        rw [isBlank_of_isSpace hspace] at hblank
        cases hblank

/-! ## Lists -/

/-- A comma with spaces around it, and what follows it. -/
theorem afterComma?_eq_some (h : afterComma? cs = some rest) :
    ∃ before after, Spaces before ∧ Spaces after ∧ cs = before ++ ',' :: (after ++ rest) := by
  obtain ⟨before, hbefore, hcs⟩ := exists_spaces cs
  unfold afterComma? at h
  split at h
  · next more hmore =>
    cases h
    obtain ⟨after, hafter, hsplit⟩ := exists_spaces more
    refine ⟨before, after, hbefore, hafter, ?_⟩
    rw [← hsplit, ← hmore]
    exact hcs
  · cases h

theorem afterComma?_append {before after : List Char} (hbefore : Spaces before)
    (hafter : Spaces after) (hrest : Stops isSpace rest) :
    afterComma? (before ++ ',' :: (after ++ rest)) = some rest := by
  unfold afterComma?
  rw [skipSpaces_append hbefore (stops_cons.2 (by decide))]
  exact congrArg some (skipSpaces_append hafter hrest)

/-- Spaces and then a character other than a comma are no comma. -/
theorem afterComma?_eq_none {c : Char} (hfront : Spaces front) (hspace : isSpace c = false)
    (hcomma : c ≠ ',') (rest : List Char) : afterComma? (front ++ c :: rest) = none := by
  unfold afterComma?
  rw [skipSpaces_append hfront (stops_cons.2 hspace)]
  split
  · next heq => cases heq; exact absurd rfl hcomma
  · rfl

/-- The text of a list starts as that of its first element. -/
theorem ListText.first {Element : List Char → α → Prop} {as : List α}
    (h : ListText Element front as) :
    ∃ first a tail, Element first a ∧ front = first ++ tail := by
  cases h with
  | last h => exact ⟨_, _, [], h, by simp⟩
  | comma h => exact ⟨_, _, _, h, rfl⟩

namespace Scans

variable {Element : List Char → α → Prop} {element : Scan α} {as : List α}

/-- The text of an element or of a list of them starts with no space. -/
theorem stops_element (h : Scans Element element) {a : α} (helement : Element front a)
    (rest : List Char) : Stops isSpace (front ++ rest) := by
  obtain ⟨c, more, rfl, hc⟩ := h.start helement
  exact stops_cons.2 hc

theorem stops_list (h : Scans Element element) (hlist : ListText Element front as)
    (rest : List Char) : Stops isSpace (front ++ rest) := by
  obtain ⟨first, a, tail, hfirst, rfl⟩ := hlist.first
  rw [List.append_assoc]
  exact h.stops_element hfirst (tail ++ rest)

/-- **What is taken after an element continues a list.** -/
theorem moreElements_sound (h : Scans Element element) {bound : Nat} (done : List α)
    (cs : List Char) (hcs : cs.length < bound) :
    ∃ more as, cs = more ++ (moreElements element bound done cs hcs).rest ∧
      (moreElements element bound done cs hcs).value = done.reverse ++ as ∧
      ∀ front a, Element front a → ListText Element (front ++ more) (a :: as) := by
  fun_induction moreElements element bound done cs hcs with
  | case1 | case2 =>
    refine ⟨[], [], by simp, by simp, fun front a ha => ?_⟩
    rw [List.append_nil]
    exact .last ha
  | case3 done cs hcs next hnext p hp hshorter hrest ih =>
    obtain ⟨more, as, hmore, hvalue, hlist⟩ := ih
    generalize moreElements element bound (p.value :: done) p.rest _ = last at hmore hvalue ⊢
    obtain ⟨before, after, hbefore, hafter, hsplit⟩ := afterComma?_eq_some hnext
    obtain ⟨first, hfirst, helement⟩ := h.sound ⟨p, hp, rfl, rfl⟩
    have hall : next = first ++ (more ++ last.rest) := hfirst.trans (congrArg (first ++ ·) hmore)
    refine ⟨before ++ ',' :: (after ++ (first ++ more)), p.value :: as, ?_, ?_, fun front a ha => ?_⟩
    · simpa using hsplit.trans (congrArg (fun text => before ++ ',' :: (after ++ text)) hall)
    · rw [hvalue]
      simp
    · exact .comma ha hbefore hafter (hlist _ _ helement)

theorem elements_sound (h : Scans Element element) (htakes : Takes (elements element) cs as rest) :
    ∃ front, cs = front ++ rest ∧ ListText Element front as := by
  obtain ⟨p, hp, rfl, rfl⟩ := htakes
  obtain ⟨q, hq, rfl⟩ := Option.map_eq_some_iff.mp hp
  obtain ⟨first, hfirst, helement⟩ := h.sound ⟨q, hq, rfl, rfl⟩
  obtain ⟨more, as, hmore, hvalue, hlist⟩ := h.moreElements_sound [q.value] q.rest q.shorter
  refine ⟨first ++ more, ?_, ?_⟩
  · rw [List.append_assoc, ← hmore, ← hfirst]
  · rw [hvalue]
    exact hlist _ _ helement

/-- Without a comma the list is at its end. -/
theorem moreElements_stop {bound : Nat} (done : List α) (hcs : cs.length < bound)
    (hend : afterComma? cs = none) :
    moreElements element bound done cs hcs = ⟨done.reverse, cs, hcs⟩ := by
  unfold moreElements
  split
  · rfl
  · next hsome => rw [hend] at hsome; cases hsome

/-- Behind a comma the next element is taken. -/
theorem moreElements_next {bound : Nat} (done : List α) (hcs : cs.length < bound)
    {next : List Char} {a : α} (hnext : afterComma? cs = some next)
    (htakes : Takes element next a rest) :
    ∃ hrest, moreElements element bound done cs hcs =
      moreElements element bound (a :: done) rest hrest := by
  obtain ⟨p, hp, rfl, rfl⟩ := htakes
  have hshorter := p.shorter
  have hlt := length_afterComma? hnext
  refine ⟨by omega, ?_⟩
  rw [moreElements]
  split
  · next hnone => rw [hnext] at hnone; cases hnone
  · next other hother =>
    obtain rfl : next = other := Option.some.inj (hnext.symm.trans hother)
    split
    · next hnone => rw [hp] at hnone; cases hnone
    · next q hq =>
      obtain rfl : p = q := Option.some.inj (hp.symm.trans hq)
      rfl

/-- **A list is taken to its end**, up to a delimiter that no comma leads. -/
theorem moreElements_complete (h : Scans Element element) (hlist : ListText Element front as)
    (hrest : Delimited rest) (hend : afterComma? rest = none) :
    ∃ a behind, Takes element (front ++ rest) a behind ∧
      ∀ (bound : Nat) (done : List α) (hlt : behind.length < bound),
        (moreElements element bound (a :: done) behind hlt).value = done.reverse ++ as ∧
          (moreElements element bound (a :: done) behind hlt).rest = rest := by
  induction hlist with
  | last helement =>
    refine ⟨_, rest, h.complete helement hrest, fun bound done hlt => ?_⟩
    rw [moreElements_stop _ hlt hend]
    simp
  | @comma cs before after more a as helement hbefore hafter hmore ih =>
    obtain ⟨b, behind, htakes, hlater⟩ := ih
    have hdelimited : Delimited (before ++ ',' :: (after ++ (more ++ rest))) := by
      cases before with
      | nil => exact ⟨',', _, rfl, .inr (.inl rfl)⟩
      | cons c cs => exact ⟨c, _, rfl, .inl (hbefore c List.mem_cons_self)⟩
    refine ⟨a, before ++ ',' :: (after ++ (more ++ rest)), ?_, fun bound done hlt => ?_⟩
    · simpa using h.complete helement hdelimited
    · have hnext := afterComma?_append hbefore hafter (h.stops_list hmore rest)
      obtain ⟨hbehind, heq⟩ := moreElements_next (a :: done) hlt hnext htakes
      obtain ⟨hvalue, hlast⟩ := hlater bound (a :: done) hbehind
      rw [heq, hvalue]
      exact ⟨by simp, hlast⟩

theorem elements_complete (h : Scans Element element) (hlist : ListText Element front as)
    (hrest : Delimited rest) (hend : afterComma? rest = none) :
    Takes (elements element) (front ++ rest) as rest := by
  obtain ⟨a, behind, ⟨p, hp, rfl, rfl⟩, hall⟩ := h.moreElements_complete hlist hrest hend
  obtain ⟨hvalue, hlast⟩ := hall _ [] p.shorter
  refine ⟨_, ?_, hvalue, hlast⟩
  rw [elements, hp]
  rfl

/-! ## Lists in parentheses -/

/-- **A list in parentheses is taken exactly where there is one.** -/
theorem parenthesized_eq_some_iff (h : Scans Element element) :
    parenthesized element cs = some (as, rest) ↔
      ∃ front, cs = front ++ rest ∧ ParenText Element front as := by
  unfold parenthesized
  simp only [bind, Option.bind_eq_some_iff, pure, Option.some.injEq, Prod.mk.injEq]
  constructor
  · rintro ⟨inside, hopen, list, hlist, last, hclose, rfl, rfl⟩
    obtain ⟨before, hbefore, hinside⟩ := exists_spaces inside
    obtain ⟨front, hfront, htext⟩ := h.elements_sound ⟨list, hlist, rfl, rfl⟩
    obtain ⟨after, hafter, hlast⟩ := exists_spaces list.rest
    refine ⟨_, ?_, .parens hbefore htext hafter⟩
    rw [after?_eq_some_iff.1 hopen, hinside, hfront, hlast, after?_eq_some_iff.1 hclose]
    simp
  · rintro ⟨_, rfl, ⟨hbefore, hlist, hafter⟩⟩
    rename_i before front after
    have hclosed : ∀ rest, Stops isSpace (')' :: rest) := fun rest => stops_cons.2 (by decide)
    have hdelimited : Delimited (after ++ ')' :: rest) := by
      cases after with
      | nil => exact ⟨')', _, rfl, .inr (.inr rfl)⟩
      | cons c cs => exact ⟨c, _, rfl, .inl (hafter c List.mem_cons_self)⟩
    have hend := afterComma?_eq_none hafter (c := ')') (by decide) (by decide) rest
    obtain ⟨list, htakes, rfl, hrest⟩ := h.elements_complete hlist hdelimited hend
    have hinside := skipSpaces_append hbefore (h.stops_list hlist (after ++ ')' :: rest))
    have hlast := skipSpaces_append hafter (hclosed rest)
    refine ⟨before ++ (front ++ (after ++ ')' :: rest)), after?_eq_some_iff.2 (by simp), ?_⟩
    rw [hinside]
    refine ⟨list, htakes, rest, ?_, rfl, rfl⟩
    rw [hrest, hlast]
    exact after?_eq_some_iff.2 rfl

end Scans

end Statement

end ShardStore

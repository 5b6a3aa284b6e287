import ShardStore.Json.Skip
import ShardStore.Proofs.Json.Number
/-!
# JSON — exactly values are passed over

A value that is passed over is read with the brackets that are open around
it. What is to follow a value inside them is further members and the closing
bracket of the innermost, and so on outwards (`Closes`). Each of the readers
takes one step, as the first character says, and goes on with less text; so
by induction on this text what it takes is a value, and what closes the
brackets (`value_of_yields`). By induction on its form a value is passed over
in front of whatever may follow one (`ValueText.isSkipped`).
-/

namespace ShardStore

namespace Json

open Decimal Text

variable {cs rest left text : List Char} {c : Char} {limit bound : ℕ} {within outer : List Bracket}
  {bracket : Bracket}

namespace Bracket

/-- The character that opens a bracket. -/
def opening : Bracket → Char
  | square => '['
  | curly => '{'

/-- The character that closes a bracket. -/
def closing : Bracket → Char
  | square => ']'
  | curly => '}'

end Bracket

/-- A member of a list, or of an object. -/
inductive IsItem : Bracket → List Char → Prop
  | element {text : List Char} (h : ValueText text) : IsItem .square text
  | member {text value : List Char} {key : String} (h : MemberText .skimmed text (key, value))
      (hvalue : ValueText value) : IsItem .curly text

/-- What is left of the open brackets after a value inside them. -/
inductive Closes : List Bracket → List Char → Prop
  | nil : Closes [] []
  | cons {bracket : Bracket} {outer : List Bracket} {inner more : List Char}
      {items : List (List Char)} (hinner : Between false inner items)
      (hitems : ∀ item ∈ items, IsItem bracket item) (h : Closes outer more) :
      Closes (bracket :: outer) (inner ++ bracket.closing :: more)

/-- Passes over a member of a bracket. -/
def skipItem (care : Care) (limit bound : ℕ) (bracket : Bracket) (outer : List Bracket)
    (cs : List Char) (h : cs.length ≤ bound) : Except JsonProblem (Parsed Unit bound) :=
  match bracket with
  | .square => skipValue care limit bound (.square :: outer) cs h
  | .curly => skipMember care limit bound (.curly :: outer) cs h

/-! ## Steps -/

/-- A colon may be behind spaces. -/
theorem colon_of_afterColon (h : afterColon cs = .ok rest) :
    ∃ spaces, Spaces spaces ∧ cs = spaces ++ ':' :: rest := by
  unfold afterColon at h
  split at h
  · cases h
  · next hs =>
    cases h
    obtain ⟨spaces, hspaces, hcs, -⟩ := exists_spaces_of_skipSpaces hs
    exact ⟨spaces, hspaces, hcs⟩
  · cases h

theorem letters_eq_ok_iff {word : List Char} : letters word cs = .ok rest ↔ cs = word ++ rest := by
  induction word generalizing cs with
  | nil => simp [letters]
  | cons w word ih =>
    cases cs with
    | nil => simp [letters]
    | cons c cs =>
      by_cases hc : w = c
      · simp [letters, hc, ih]
      · simp [letters, hc, Ne.symm hc]

theorem yields_number_iff {care : Care} {value : Option ℕ} :
    Yields (number care cs) value rest ↔ numberParts care cs = .ok (value, rest) := by
  unfold number
  split
  · next heq => simp [heq]
  · next heq => simp [heq]

/-- What closes a bracket is behind a value, or a comma and further members
are. -/
theorem yields_skipRest_iff (hs : skipSpaces cs = c :: rest) (h : cs.length < bound) :
    Yields (skipRest .skimmed limit bound (bracket :: outer) cs h) () left ↔
      (c = ',' ∧ ∃ h, Yields (skipItem .skimmed limit bound bracket outer rest h) () left) ∨
      (c = bracket.closing ∧ ∃ h, Yields (skipRest .skimmed limit bound outer rest h) () left) := by
  have hless := length_of_skipSpaces hs
  have hle : rest.length ≤ bound := by omega
  have hlt : rest.length < bound := by omega
  rw [skipRest]
  split
  · next heq => rw [hs] at heq; cases heq
  · next heq =>
    rw [hs] at heq
    cases heq
    cases bracket
    all_goals
      simp only [skipItem, Bracket.closing, hle, hlt, exists_true_left]
      by_cases hcomma : c = ','
      · simp [hcomma]
      · simp only [hcomma, if_false, false_and, false_or]
        split
        · next hclosing => simp [hclosing]
        · next hclosing => simp [hclosing]

/-- A key is in front of the value of a member. -/
theorem yields_skipMember_iff (hs : skipSpaces cs = c :: rest) (h : cs.length ≤ bound) :
    Yields (skipMember .skimmed limit bound within cs h) () left ↔
      c = '"' ∧ ∃ key middle more, Yields (string .skimmed rest) key middle ∧
        afterColon middle = .ok more ∧
          ∃ h, Yields (skipValue .skimmed limit bound within more h) () left := by
  have hless := length_of_skipSpaces hs
  rw [skipMember]
  split
  · next heq => rw [hs] at heq; cases heq
  · next heq =>
    rw [hs] at heq
    cases heq
    by_cases hquote : c = '"'
    · simp only [hquote, if_true, true_and]
      split
      · next problem hstring =>
        simp [hstring]
      · next key hstring =>
        simp only [hstring, yields_ok]
        constructor
        · intro hyields
          split at hyields
          · exact absurd hyields not_yields_error
          · next more hcolon => exact ⟨_, _, more, ⟨rfl, rfl⟩, hcolon, _, hyields⟩
        · rintro ⟨_, _, more, ⟨rfl, rfl⟩, hcolon, hle, hyields⟩
          split
          · next heq => rw [hcolon] at heq; cases heq
          · next heq =>
            rw [hcolon] at heq
            cases heq
            exact hyields
    · simp [hquote]

/-- A string may be in front of what is left of the brackets. -/
theorem yields_skipValue_string (hs : skipSpaces cs = '"' :: rest) (h : cs.length ≤ bound) :
    Yields (skipValue .skimmed limit bound within cs h) () left ↔ ∃ key more,
      Yields (string .skimmed rest) key more ∧
        ∃ h, Yields (skipRest .skimmed limit bound within more h) () left := by
  have hless := length_of_skipSpaces hs
  rw [skipValue]
  split
  · next heq => rw [hs] at heq; cases heq
  · next heq =>
    rw [hs] at heq
    cases heq
    rw [if_pos rfl]
    cases hstring : string .skimmed rest with
    | error problem => simp
    | ok key =>
      have hshorter := key.shorter
      have hlt : key.rest.length < bound := by omega
      simp [hlt]

/-- Or a number. -/
theorem yields_skipValue_number (hs : skipSpaces cs = c :: rest) (hc : startsNumber c = true)
    (h : cs.length ≤ bound) :
    Yields (skipValue .skimmed limit bound within cs h) () left ↔ ∃ value more,
      numberParts .skimmed (c :: rest) = .ok (value, more) ∧
        ∃ h, Yields (skipRest .skimmed limit bound within more h) () left := by
  have hquote : c ≠ '"' := by
    rintro rfl
    cases hc
  have hle : (c :: rest).length ≤ cs.length := hs ▸ length_skipSpaces_le cs
  rw [skipValue]
  split
  · next heq => rw [hs] at heq; cases heq
  · next heq =>
    rw [hs] at heq
    cases heq
    simp only [hquote, if_false, hc, if_true, ← yields_number_iff]
    cases hread : number .skimmed (c :: rest) with
    | error problem => simp
    | ok p =>
      have hshorter := p.shorter
      have hlt : p.rest.length < bound := by omega
      simp [hlt]

/-- Or a bracket, with a member in it or none. -/
theorem yields_skipValue_bracket (hs : skipSpaces cs = bracket.opening :: rest)
    (h : cs.length ≤ bound) :
    Yields (skipValue .skimmed limit bound within cs h) () left ↔ ∃ d more,
      skipSpaces rest = d :: more ∧
        if d = bracket.closing then
          ∃ h, Yields (skipRest .skimmed limit bound within more h) () left
        else ∃ h, Yields (skipItem .skimmed limit bound bracket within rest h) () left := by
  have hfirst : bracket.opening ≠ '"' ∧ startsNumber bracket.opening = false ∧
      (bracket.opening = '[' ∨ bracket.opening = '{') := by
    cases bracket <;> decide
  have hless := length_of_skipSpaces hs
  rw [skipValue]
  split
  · next heq => rw [hs] at heq; cases heq
  · next heq =>
    rw [hs] at heq
    cases heq
    simp only [hfirst, if_false, if_true, Bool.false_eq_true, reduceCtorEq, false_and]
    split
    · next hnone => simp [hnone]
    · next d more hsome =>
      have hlonger := length_of_skipSpaces hsome
      have hlt : more.length < bound := by omega
      have hle : rest.length ≤ bound := by omega
      by_cases hclosing : d = bracket.closing
      all_goals
        cases bracket
        all_goals
          simp only [Bracket.closing] at hclosing
          simp [Bracket.opening, Bracket.closing, skipItem, hsome, hclosing, hlt, hle]

/-- The first character of a word begins no value of another form. -/
theorem first_of_wordTail? {word : List Char} (h : wordTail? c = some word) :
    c ≠ '"' ∧ startsNumber c = false ∧ ¬ (c = '[' ∨ c = '{') := by
  have hc : c = 'n' ∨ c = 't' ∨ c = 'f' := by
    by_contra hnone
    simp only [not_or] at hnone
    simp [wordTail?, hnone] at h
  rcases hc with rfl | rfl | rfl <;> decide

/-- Or a word. -/
theorem yields_skipValue_word {word : List Char} (hs : skipSpaces cs = c :: rest)
    (hword : wordTail? c = some word) (h : cs.length ≤ bound) :
    Yields (skipValue .skimmed limit bound within cs h) () left ↔ ∃ more, rest = word ++ more ∧
      ∃ h, Yields (skipRest .skimmed limit bound within more h) () left := by
  have hfirst := first_of_wordTail? hword
  have hless := length_of_skipSpaces hs
  rw [skipValue]
  split
  · next heq => rw [hs] at heq; cases heq
  · next heq =>
    rw [hs] at heq
    cases heq
    simp only [hfirst, if_false, Bool.false_eq_true, ← letters_eq_ok_iff]
    split
    · next hnone => rw [hword] at hnone; cases hnone
    · next heq =>
      rw [hword] at heq
      cases heq
      split
      · next hletters => simp [hletters]
      · next more hletters =>
        have hlonger := length_letters hletters
        have hlt : more.length < bound := by omega
        simp [hletters, hlt]

/-- And nothing else is a value. -/
theorem first_of_yields (hs : skipSpaces cs = c :: rest) {h : cs.length ≤ bound}
    (hyields : Yields (skipValue .skimmed limit bound within cs h) () left) :
    c = '"' ∨ startsNumber c = true ∨ (∃ bracket : Bracket, c = bracket.opening) ∨
      ∃ word, wordTail? c = some word := by
  by_contra hnone
  simp only [not_or, not_exists] at hnone
  obtain ⟨hquote, hnumber, hopening, hword⟩ := hnone
  have hbracket : ¬ (c = '[' ∨ c = '{') := not_or.2 ⟨hopening .square, hopening .curly⟩
  rw [skipValue] at hyields
  split at hyields
  · exact not_yields_error hyields
  · next heq =>
    rw [hs] at heq
    cases heq
    simp only [hquote, hnumber, hbracket, if_false, Bool.false_eq_true] at hyields
    split at hyields
    · exact not_yields_error hyields
    · next heq => exact hword _ heq

/-! ## What is passed over is a value -/

/-- The members of an object, with the texts of their values. -/
theorem exists_members {items : List (List Char)} (h : ∀ item ∈ items, IsItem .curly item) :
    ∃ members : List (String × List Char), List.Forall₂ (MemberText .skimmed) items members ∧
      ∀ member ∈ members, ValueText member.2 := by
  induction items with
  | nil => exact ⟨[], .nil, by simp⟩
  | cons item items ih =>
    obtain ⟨hitem, hitems⟩ := List.forall_mem_cons.1 h
    obtain ⟨members, hmembers, hvalues⟩ := ih hitems
    cases hitem with
    | member hmember hvalue =>
      exact ⟨_, .cons hmember hmembers, List.forall_mem_cons.2 ⟨hvalue, hvalues⟩⟩

/-- Brackets around members are a value. -/
theorem valueText_brackets {inner : List Char} {items : List (List Char)}
    (h : Between true inner items) (hitems : ∀ item ∈ items, IsItem bracket item) :
    ValueText (bracket.opening :: (inner ++ [bracket.closing])) := by
  cases bracket with
  | square =>
    refine .list (.brackets h) fun item hitem => ?_
    cases hitems item hitem with
    | element hvalue => exact hvalue
  | curly =>
    obtain ⟨members, hmembers, hvalues⟩ := exists_members hitems
    exact .object (.brackets h hmembers) hvalues

/-- So a bracket is a value that holds a member, where others and what closes
it are behind that. -/
theorem valueText_of_closes {spaces item more : List Char} (hspaces : Spaces spaces)
    (hitem : IsItem bracket item) (h : Closes (bracket :: within) more) :
    ∃ value closing, ValueText (bracket.opening :: value) ∧ Closes within closing ∧
      spaces ++ (item ++ more) = value ++ closing := by
  cases h with
  | @cons _ _ inner closing items hinner hitems hcloses =>
    refine ⟨_, closing, valueText_brackets (.cons (.first hspaces) hinner)
      (List.forall_mem_cons.2 ⟨hitem, hitems⟩), hcloses, ?_⟩
    simp

theorem word_of_wordTail? {word : List Char} (h : wordTail? c = some word) :
    c :: word ∈ ["null".toList, "true".toList, "false".toList] := by
  unfold wordTail? at h
  split at h
  · next hc => cases h; rw [hc]; decide
  · split at h
    · next _ hc => cases h; rw [hc]; decide
    · split at h
      · next _ _ hc => cases h; rw [hc]; decide
      · cases h

mutual

/-- **What is passed over as a value is one**, with what closes the brackets
around it. -/
theorem value_of_yields {within : List Bracket} {cs : List Char} {h : cs.length ≤ bound}
    (hyields : Yields (skipValue .skimmed limit bound within cs h) () left) :
    ∃ spaces value more, Spaces spaces ∧ ValueText value ∧ Closes within more ∧
      cs = spaces ++ (value ++ (more ++ left)) := by
  cases hs : skipSpaces cs with
  | nil =>
    rw [skipValue] at hyields
    split at hyields
    · exact absurd hyields not_yields_error
    · next heq => rw [hs] at heq; cases heq
  | cons c rest =>
    have hless := length_of_skipSpaces hs
    obtain ⟨spaces, hspaces, hcs, -⟩ := exists_spaces_of_skipSpaces hs
    rcases first_of_yields hs hyields with rfl | hc | ⟨bracket, rfl⟩ | ⟨word, hword⟩
    · obtain ⟨key, next, hstring, hle, hrest⟩ := (yields_skipValue_string hs h).1 hyields
      obtain ⟨body, written, hcontent, -, rfl⟩ := yields_string_iff.1 hstring
      have hshorter : next.length < cs.length := by
        simp only [List.length_append, List.length_cons] at hless
        omega
      obtain ⟨more, hcloses, rfl⟩ := closes_of_yields hrest
      exact ⟨spaces, _, more, hspaces, .string (.quoted hcontent), hcloses, by simp [hcs]⟩
    · obtain ⟨value, next, hnumber, hle, hrest⟩ := (yields_skipValue_number hs hc h).1 hyields
      obtain ⟨text, htext, hsplit, -⟩ := numberParts_eq_ok hnumber
      have hshorter : next.length < cs.length := by
        have hnumber := length_numberParts hnumber
        simp only [List.length_cons] at hnumber
        omega
      obtain ⟨more, hcloses, rfl⟩ := closes_of_yields hrest
      exact ⟨spaces, text, more, hspaces, .number htext, hcloses, by rw [hcs, hsplit]⟩
    · obtain ⟨d, next, hd, hrest⟩ := (yields_skipValue_bracket hs h).1 hyields
      split at hrest
      · next hclosing =>
        obtain ⟨hle, hrest⟩ := hrest
        obtain ⟨inner, hinner, hsplit, -⟩ := exists_spaces_of_skipSpaces hd
        have hshorter : next.length < cs.length := (length_of_skipSpaces hd).trans hless
        obtain ⟨more, hcloses, rfl⟩ := closes_of_yields hrest
        have hvalue : ValueText (bracket.opening :: (inner ++ [bracket.closing])) :=
          valueText_brackets (.nil hinner) (by simp)
        exact ⟨spaces, _, more, hspaces, hvalue, hcloses, by simp [hcs, hsplit, hclosing]⟩
      · obtain ⟨hle, hrest⟩ := hrest
        obtain ⟨inner, item, more, hinner, hitem, hcloses, rfl⟩ := item_of_yields hrest
        obtain ⟨value, closing, hvalue, hcloses, heq⟩ := valueText_of_closes hinner hitem hcloses
        refine ⟨spaces, _, closing, hspaces, hvalue, hcloses, ?_⟩
        rw [hcs, List.cons_append, ← List.append_assoc value, ← heq]
        simp
    · obtain ⟨next, rfl, hle, hrest⟩ := (yields_skipValue_word hs hword h).1 hyields
      have hshorter : next.length < cs.length := by
        simp only [List.length_append] at hless
        omega
      obtain ⟨more, hcloses, rfl⟩ := closes_of_yields hrest
      exact ⟨spaces, _, more, hspaces, .word (word_of_wordTail? hword), hcloses, by simp [hcs]⟩
termination_by (cs.length, 0)

theorem item_of_yields {bracket : Bracket} {outer : List Bracket} {cs : List Char}
    {h : cs.length ≤ bound}
    (hyields : Yields (skipItem .skimmed limit bound bracket outer cs h) () left) :
    ∃ spaces item more, Spaces spaces ∧ IsItem bracket item ∧ Closes (bracket :: outer) more ∧
      cs = spaces ++ (item ++ (more ++ left)) := by
  cases bracket with
  | square =>
    obtain ⟨spaces, value, more, hspaces, hvalue, hcloses, hcs⟩ := value_of_yields hyields
    exact ⟨spaces, value, more, hspaces, .element hvalue, hcloses, hcs⟩
  | curly =>
    simp only [skipItem] at hyields
    cases hs : skipSpaces cs with
    | nil =>
      rw [skipMember] at hyields
      split at hyields
      · exact absurd hyields not_yields_error
      · next heq => rw [hs] at heq; cases heq
    | cons c rest =>
      have hless := length_of_skipSpaces hs
      obtain ⟨spaces, hspaces, hcs, -⟩ := exists_spaces_of_skipSpaces hs
      obtain ⟨rfl, key, middle, next, hkey, hcolon, hle, hnext⟩ :=
        (yields_skipMember_iff hs h).1 hyields
      obtain ⟨body, written, hcontent, -, rfl⟩ := yields_string_iff.1 hkey
      have hshorter : next.length < cs.length := by
        have hcolon := length_afterColon hcolon
        simp only [List.length_append, List.length_cons] at hless
        omega
      obtain ⟨after, value, more, hafter, hvalue, hcloses, rfl⟩ := value_of_yields hnext
      obtain ⟨before, hbefore, rfl⟩ := colon_of_afterColon hcolon
      refine ⟨spaces, _, more, hspaces,
        .member (.member (.quoted hcontent) hbefore hafter) hvalue, hcloses, by simp [hcs]⟩
termination_by (cs.length, 1)

/-- What is passed over behind a value closes the brackets around it. -/
theorem closes_of_yields {within : List Bracket} {cs : List Char} {h : cs.length < bound}
    (hyields : Yields (skipRest .skimmed limit bound within cs h) () left) :
    ∃ more, Closes within more ∧ cs = more ++ left := by
  cases within with
  | nil =>
    rw [skipRest] at hyields
    obtain ⟨-, rfl⟩ := yields_ok.1 hyields
    exact ⟨[], .nil, rfl⟩
  | cons bracket outer =>
    cases hs : skipSpaces cs with
    | nil =>
      rw [skipRest] at hyields
      split at hyields
      · exact absurd hyields not_yields_error
      · next heq => rw [hs] at heq; cases heq
    | cons c rest =>
      have hless := length_of_skipSpaces hs
      obtain ⟨spaces, hspaces, hcs, -⟩ := exists_spaces_of_skipSpaces hs
      rcases (yields_skipRest_iff hs h).1 hyields with ⟨rfl, hle, hnext⟩ | ⟨rfl, hle, hnext⟩
      · obtain ⟨after, item, more, hafter, hitem, hcloses, rfl⟩ := item_of_yields hnext
        cases hcloses with
        | cons hinner hitems hmore =>
          refine ⟨_, .cons (.cons (.further hspaces hafter) hinner)
            (List.forall_mem_cons.2 ⟨hitem, hitems⟩) hmore, ?_⟩
          simp [hcs]
      · obtain ⟨more, hcloses, rfl⟩ := closes_of_yields hnext
        exact ⟨_, .cons (.nil hspaces) (by simp) hcloses, by simp [hcs]⟩
termination_by (cs.length, 0)

end

/-! ## A value is passed over -/

theorem afterColon_spaces {spaces : List Char} (h : Spaces spaces) (cs : List Char) :
    afterColon (spaces ++ ':' :: cs) = .ok cs := by
  rw [afterColon, skipSpaces_spaces h rfl]
  rfl

/-- A text is passed over as a value: what is left behind it is what is left of
the brackets around it. -/
def IsSkipped (limit : ℕ) (text : List Char) : Prop :=
  ∀ ⦃bound : ℕ⦄ ⦃within : List Bracket⦄ ⦃spaces cs left : List Char⦄, Spaces spaces → Delimited cs →
    (∃ h, Yields (skipRest .skimmed limit bound within cs h) () left) →
      ∀ h, Yields (skipValue .skimmed limit bound within (spaces ++ (text ++ cs)) h) () left

/-- And as a member of a bracket. -/
def IsSkippedItem (limit : ℕ) (bracket : Bracket) (item : List Char) : Prop :=
  ∀ ⦃bound : ℕ⦄ ⦃outer : List Bracket⦄ ⦃spaces cs left : List Char⦄, Spaces spaces → Delimited cs →
    (∃ h, Yields (skipRest .skimmed limit bound (bracket :: outer) cs h) () left) →
      ∀ h, Yields (skipItem .skimmed limit bound bracket outer (spaces ++ (item ++ cs)) h) () left

/-- A member begins with what is no space and does not close the bracket. -/
def StartsItem (bracket : Bracket) (item : List Char) : Prop :=
  ∃ c more, item = c :: more ∧ isSpace c = false ∧ c ≠ bracket.closing

theorem startsNumber_spec (h : startsNumber c = true) : isSpace c = false ∧ c ≠ ']' := by
  have hspace : isSpace c = false := by
    cases hspace : isSpace c with
    | false => rfl
    | true =>
      simp only [isSpace, Bool.or_eq_true, beq_iff_eq] at hspace
      rcases hspace with ((rfl | rfl) | rfl) | rfl <;> cases h
  refine ⟨hspace, ?_⟩
  rintro rfl
  cases h

theorem exists_startsNumber_repr (n : ℕ) :
    ∃ c more, n.repr.toList = c :: more ∧ startsNumber c = true := by
  obtain ⟨hdigits, hne⟩ := digits_repr n
  obtain ⟨c, more, hcons⟩ := List.exists_cons_of_ne_nil hne
  have hdigit := (digits_iff.1 hdigits).1 c (by simp [hcons])
  exact ⟨c, more, hcons, by simp [startsNumber, hdigit]⟩

theorem NumberText.head (h : NumberText text) :
    ∃ c more, text = c :: more ∧ startsNumber c = true := by
  obtain ⟨rfl | rfl, n, hfraction, hpower⟩ := h
  · obtain ⟨c, more, hcons, hc⟩ := exists_startsNumber_repr n
    exact ⟨c, _, by rw [hcons]; rfl, hc⟩
  · exact ⟨'-', _, rfl, rfl⟩

theorem SizeNumber.head {n : ℕ} (h : SizeNumber text n) :
    ∃ c more, text = c :: more ∧ startsNumber c = true := by
  cases h
  exact exists_startsNumber_repr n

theorem ValueText.starts (h : ValueText text) : StartsItem .square text := by
  cases h with
  | string h =>
    obtain ⟨_⟩ := h
    exact ⟨'"', _, rfl, by decide⟩
  | number h =>
    obtain ⟨c, more, rfl, hc⟩ := h.head
    exact ⟨c, more, rfl, startsNumber_spec hc⟩
  | word h =>
    simp only [List.mem_cons, List.not_mem_nil, or_false] at h
    rcases h with rfl | rfl | rfl
    all_goals exact ⟨_, _, rfl, by decide⟩
  | list h =>
    obtain ⟨_⟩ := h
    exact ⟨'[', _, rfl, by decide⟩
  | object h =>
    obtain ⟨_⟩ := h
    exact ⟨'{', _, rfl, by decide⟩

theorem IsItem.starts (h : IsItem bracket text) : StartsItem bracket text := by
  cases h with
  | element h => exact h.starts
  | member h =>
    obtain ⟨⟨_⟩, _, _⟩ := h
    exact ⟨'"', _, rfl, by decide⟩

theorem delimited_spaces {spaces : List Char} (h : Spaces spaces) (hrest : Delimited rest) :
    Delimited (spaces ++ rest) := by
  cases spaces with
  | nil => exact hrest
  | cons c spaces =>
    intro d hd
    obtain rfl : c = d := by simpa using hd
    exact .inl (h c List.mem_cons_self)

theorem delimited_cons (h : c ∈ [',', ']', '}']) (rest : List Char) : Delimited (c :: rest) := by
  rintro _ ⟨⟩
  exact .inr h

theorem Between.delimited {inner : List Char} {items : List (List Char)}
    (h : Between false inner items) (hrest : Delimited rest) : Delimited (inner ++ rest) := by
  cases h with
  | nil hspaces => exact delimited_spaces hspaces hrest
  | cons hfront =>
    obtain _ | ⟨hbefore, hafter⟩ := hfront
    rw [List.append_assoc, List.append_assoc]
    exact delimited_spaces hbefore (delimited_cons (by decide) _)

theorem IsSkipped.element (h : IsSkipped limit text) : IsSkippedItem limit .square text :=
  fun _ _ _ _ _ hspaces hcs hrest hle => h hspaces hcs hrest hle

theorem IsSkipped.member {value : List Char} {key : String} (h : IsSkipped limit value)
    (hmember : MemberText .skimmed text (key, value)) : IsSkippedItem limit .curly text := by
  intro bound outer spaces cs left hspaces hcs hrest hle
  obtain @⟨_, before, after, _, _, @⟨body, written, hcontent⟩, hbefore, hafter⟩ := hmember
  have hsplit : spaces ++ ('"' :: (body ++ ['"']) ++ (before ++ ':' :: (after ++ value)) ++ cs) =
      spaces ++ '"' :: (body ++ '"' :: (before ++ ':' :: (after ++ (value ++ cs)))) := by simp
  simp only [hsplit, skipItem] at hle ⊢
  have hlength : (after ++ (value ++ cs)).length ≤ bound := by
    simp only [List.length_append, List.length_cons] at hle ⊢
    omega
  exact (yields_skipMember_iff (skipSpaces_spaces hspaces rfl _) hle).2
    ⟨rfl, _, _, _, hcontent.yields_string _, afterColon_spaces hbefore _, hlength,
      h hafter hcs hrest hlength⟩

/-- Further members are passed over one after the other, up to what closes the
bracket. -/
theorem Between.yields_skipRest {first : Bool} {inner : List Char} {items : List (List Char)}
    (hinner : Between first inner items) (hfirst : first = false)
    (hitems : ∀ item ∈ items, IsSkippedItem limit bracket item)
    (hrest : ∃ h, Yields (skipRest .skimmed limit bound outer rest h) () left)
    (h : (inner ++ bracket.closing :: rest).length < bound) :
    Yields (skipRest .skimmed limit bound (bracket :: outer) (inner ++ bracket.closing :: rest) h)
      () left := by
  have hclosing : isSpace bracket.closing = false := by cases bracket <;> rfl
  have hdelimiter : bracket.closing ∈ [',', ']', '}'] := by cases bracket <;> decide
  induction hinner with
  | nil hspaces =>
    exact (yields_skipRest_iff (skipSpaces_spaces hspaces hclosing _) h).2 (.inr ⟨rfl, hrest⟩)
  | @cons first front item more items hfront hmore ih =>
    subst hfirst
    obtain _ | @⟨before, after, hbefore, hafter⟩ := hfront
    obtain ⟨hitem, hitems⟩ := List.forall_mem_cons.1 hitems
    have hsplit : before ++ ',' :: after ++ (item ++ more) ++ bracket.closing :: rest =
        before ++ ',' :: (after ++ (item ++ (more ++ bracket.closing :: rest))) := by simp
    simp only [hsplit] at h ⊢
    have hlength : (after ++ (item ++ (more ++ bracket.closing :: rest))).length < bound := by
      simp only [List.length_append, List.length_cons] at h ⊢
      omega
    have hshorter : (more ++ bracket.closing :: rest).length < bound := by
      simp only [List.length_append, List.length_cons] at hlength ⊢
      omega
    have hbehind := hmore.delimited (delimited_cons hdelimiter rest)
    refine (yields_skipRest_iff (skipSpaces_spaces hbefore rfl _) h).2 (.inl ⟨rfl, hlength.le, ?_⟩)
    exact hitem hafter hbehind ⟨hshorter, ih rfl hitems hshorter⟩ _

theorem Between.isSkipped {inner : List Char} {items : List (List Char)}
    (h : Between true inner items) (hitems : ∀ item ∈ items, IsSkippedItem limit bracket item)
    (hstarts : ∀ item ∈ items, StartsItem bracket item) :
    IsSkipped limit (bracket.opening :: (inner ++ [bracket.closing])) := by
  intro bound within spaces cs left hspaces hcs hrest hle
  have hopening : isSpace bracket.opening = false := by cases bracket <;> rfl
  have hclosing : isSpace bracket.closing = false := by cases bracket <;> rfl
  have hdelimiter : bracket.closing ∈ [',', ']', '}'] := by cases bracket <;> decide
  have hsplit : spaces ++ (bracket.opening :: (inner ++ [bracket.closing]) ++ cs) =
      spaces ++ bracket.opening :: (inner ++ bracket.closing :: cs) := by simp
  simp only [hsplit] at hle ⊢
  refine (yields_skipValue_bracket (skipSpaces_spaces hspaces hopening _) hle).2 ?_
  cases h with
  | nil hinner =>
    refine ⟨_, _, skipSpaces_spaces hinner hclosing cs, ?_⟩
    rw [if_pos rfl]
    exact hrest
  | @cons _ front item more items hfront hmore =>
    obtain ⟨hbefore⟩ := hfront
    obtain ⟨hitem, hlater⟩ := List.forall_mem_cons.1 hitems
    obtain ⟨c, text, rfl, hspace, hne⟩ := hstarts _ List.mem_cons_self
    have hinner : front ++ (c :: text ++ more) ++ bracket.closing :: cs =
        front ++ (c :: text ++ (more ++ bracket.closing :: cs)) := by simp
    rw [hinner] at hle ⊢
    have hlength : (front ++ (c :: text ++ (more ++ bracket.closing :: cs))).length ≤ bound := by
      rw [List.length_append, List.length_cons] at hle
      omega
    have hshorter : (more ++ bracket.closing :: cs).length < bound := by
      simp only [List.length_append, List.length_cons] at hlength ⊢
      omega
    have hbehind := hmore.delimited (delimited_cons hdelimiter cs)
    refine ⟨c, _, skipSpaces_spaces hbefore hspace _, ?_⟩
    rw [if_neg hne]
    exact ⟨hlength, hitem hbefore hbehind
      ⟨hshorter, hmore.yields_skipRest rfl hlater hrest hshorter⟩ hlength⟩

theorem wordTail?_of_mem (h : text ∈ ["null".toList, "true".toList, "false".toList]) :
    ∃ c word, text = c :: word ∧ wordTail? c = some word ∧ isSpace c = false := by
  simp only [List.mem_cons, List.not_mem_nil, or_false] at h
  rcases h with rfl | rfl | rfl
  all_goals exact ⟨_, _, rfl, by decide⟩

theorem exists_member {items : List (List Char)} {members : List (String × List Char)}
    (h : List.Forall₂ (MemberText .skimmed) items members) {item : List Char}
    (hitem : item ∈ items) : ∃ member ∈ members, MemberText .skimmed item member := by
  induction h with
  | nil => cases hitem
  | cons hfirst _ ih =>
    rcases List.mem_cons.1 hitem with rfl | hitem
    · exact ⟨_, List.mem_cons_self, hfirst⟩
    · obtain ⟨member, hmem, hmember⟩ := ih hitem
      exact ⟨member, List.mem_cons_of_mem _ hmem, hmember⟩

/-- **A value is passed over**, in front of whatever may follow one. -/
theorem ValueText.isSkipped (h : ValueText text) (limit : ℕ) : IsSkipped limit text := by
  induction h with
  | string h =>
    obtain ⟨hcontent⟩ := h
    intro bound within spaces cs left hspaces hcs hrest hle
    have hread := yields_string_iff.2 ⟨_, _, hcontent, rfl, List.append_assoc _ ['"'] cs⟩
    exact (yields_skipValue_string (skipSpaces_spaces hspaces rfl _) hle).2 ⟨_, cs, hread, hrest⟩
  | number h =>
    obtain ⟨c, more, rfl, hc⟩ := h.head
    intro bound within spaces cs left hspaces hcs hrest hle
    obtain ⟨value, hvalue⟩ := h.read hcs
    have hskip := skipSpaces_spaces hspaces (startsNumber_spec hc).1
    exact (yields_skipValue_number (hskip _) hc hle).2 ⟨value, cs, hvalue, hrest⟩
  | word h =>
    obtain ⟨c, word, rfl, hword, hspace⟩ := wordTail?_of_mem h
    intro bound within spaces cs left hspaces hcs hrest hle
    have hskip := skipSpaces_spaces hspaces hspace
    exact (yields_skipValue_word (hskip _) hword hle).2 ⟨cs, rfl, hrest⟩
  | list h hitems ih =>
    obtain ⟨hinner⟩ := h
    exact hinner.isSkipped (fun item hitem => (ih item hitem).element)
      fun item hitem => (hitems item hitem).starts
  | object h hmembers ih =>
    obtain @⟨inner, items, _, hinner, hitems⟩ := h
    have hall : ∀ item ∈ items, IsSkippedItem limit .curly item ∧ StartsItem .curly item := by
      intro item hitem
      obtain ⟨member, hmem, hmember⟩ := exists_member hitems hitem
      have hstarts := (IsItem.member hmember (hmembers member hmem)).starts
      exact ⟨(ih member hmem).member hmember, hstarts⟩
    exact hinner.isSkipped (fun item hitem => (hall item hitem).1)
      fun item hitem => (hall item hitem).2

end Json

end ShardStore

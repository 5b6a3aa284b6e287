import ShardStore.Proofs.Json.Block
import ShardStore.Proofs.Json.Skip
/-!
# JSON — readers take exactly the texts of their forms

A reader is known by the texts that it takes (`Recognizes`): strings, sizes and
values of any form, and objects and lists of these. Which texts an object is
taken for follows from the steps that its members take from one state to the
next (`TakesSteps`), so that a record needs one lemma, about the values of its
keys (`recognizes_recordValue`). A text that holds one value is then read
exactly if it is one of the grammar (`Recognizes.readAll_eq_ok_iff`).
-/

namespace ShardStore

namespace Json

open Text

variable {α β σ : Type} {cs rest : List Char} {bound : ℕ}

/-- **A reader takes exactly the texts of a form.** What it takes off a text
is one, behind spaces, and it takes each that ends where a value may end. -/
structure Recognizes (reader : Reader α) (IsText : List Char → α → Prop) : Prop where
  sound {cs rest : List Char} {a : α} (h : Yields (reader cs) a rest) :
    ∃ spaces text, Spaces spaces ∧ IsText text a ∧ cs = spaces ++ (text ++ rest)
  complete {spaces text rest : List Char} {a : α} (hspaces : Spaces spaces) (h : IsText text a)
    (hrest : Delimited rest) : Yields (reader (spaces ++ (text ++ rest))) a rest

/-! ## Values -/

/-- Behind the spaces, the first character decides. -/
theorem yields_stringValue_iff {s : String} :
    Yields (stringValue cs) s rest ↔
      ∃ more, skipSpaces cs = '"' :: more ∧ Yields (string .checked more) s rest := by
  unfold stringValue
  split
  · next hs => simp [hs]
  · next c more hs =>
    simp only [hs, List.cons.injEq]
    split
    · next hc => simp [hc, yields_widen]
    · next hc => simp [hc]

theorem recognizes_stringValue : Recognizes stringValue (StringText .checked) where
  sound h := by
    obtain ⟨more, hs, hstring⟩ := yields_stringValue_iff.1 h
    obtain ⟨spaces, hspaces, hcs, -⟩ := exists_spaces_of_skipSpaces hs
    obtain ⟨body, written, hcontent, rfl, rfl⟩ := yields_string_iff.1 hstring
    exact ⟨spaces, _, hspaces, .quoted hcontent, by simp [hcs]⟩
  complete hspaces h _ := by
    obtain ⟨hcontent⟩ := h
    refine yields_stringValue_iff.2 ⟨_, skipSpaces_spaces hspaces rfl _, ?_⟩
    exact yields_string_iff.2 ⟨_, _, hcontent, rfl, List.append_assoc ..⟩

theorem yields_sizeValue_iff {n : ℕ} :
    Yields (sizeValue cs) n rest ↔ ∃ c more, skipSpaces cs = c :: more ∧ startsNumber c = true ∧
      numberParts .checked (c :: more) = .ok (some n, rest) := by
  unfold sizeValue
  split
  · next hs => simp [hs]
  · next c more hs =>
    simp only [hs, List.cons.injEq, ← yields_number_iff]
    split
    · next hc =>
      split
      · next heq => simp [heq]
      · next p heq =>
        split
        · next hnone => simp [heq, hnone]
        · next hsome => simp [heq, hsome, hc]
    · next hc => simp [hc]

theorem recognizes_sizeValue : Recognizes sizeValue SizeNumber where
  sound h := by
    obtain ⟨c, more, hs, -, hnumber⟩ := yields_sizeValue_iff.1 h
    obtain ⟨spaces, hspaces, hcs, -⟩ := exists_spaces_of_skipSpaces hs
    obtain ⟨text, -, hsplit, hsize⟩ := numberParts_eq_ok hnumber
    exact ⟨spaces, text, hspaces, hsize _ rfl, by rw [hcs, hsplit]⟩
  complete hspaces h hrest := by
    obtain ⟨c, more, rfl, hc⟩ := h.head
    exact yields_sizeValue_iff.2
      ⟨c, _, skipSpaces_spaces hspaces (startsNumber_spec hc).1 _, hc, h.read hrest⟩

/-- A value of which nothing is asked may be of any form. -/
theorem recognizes_ignored (state : σ) :
    Recognizes (ignored state) fun text next => ValueText text ∧ next = state where
  sound h := by
    obtain ⟨_, hyields, rfl⟩ := (yields_map _).1 h
    obtain ⟨spaces, value, more, hspaces, hvalue, hcloses, rfl⟩ := value_of_yields hyields
    cases hcloses
    exact ⟨spaces, value, hspaces, ⟨hvalue, rfl⟩, rfl⟩
  complete hspaces h hrest := by
    obtain ⟨hvalue, rfl⟩ := h
    obtain ⟨c, more, rfl, -⟩ := hvalue.starts
    refine (yields_map _).2 ⟨(), hvalue.isSkipped 0 hspaces hrest ⟨?_, ?_⟩ _, rfl⟩
    · simp only [List.length_append, List.length_cons]
      omega
    · rw [skipRest]
      exact yields_ok.2 ⟨rfl, rfl⟩

theorem Recognizes.congr {reader : Reader α} {IsText IsText' : List Char → α → Prop}
    (h : Recognizes reader IsText) (hiff : ∀ text a, IsText text a ↔ IsText' text a) :
    Recognizes reader IsText' where
  sound hread := by
    obtain ⟨spaces, text, hspaces, htext, hcs⟩ := h.sound hread
    exact ⟨spaces, text, hspaces, (hiff text _).1 htext, hcs⟩
  complete hspaces htext hrest := h.complete hspaces ((hiff _ _).2 htext) hrest

theorem Recognizes.map {reader : Reader α} {IsText : List Char → α → Prop}
    (h : Recognizes reader IsText) (f : α → β) :
    Recognizes (fun cs => (reader cs).map (·.map f)) fun text b =>
      ∃ a, IsText text a ∧ f a = b where
  sound hyields := by
    obtain ⟨a, hread, rfl⟩ := (yields_map f).1 hyields
    obtain ⟨spaces, text, hspaces, htext, hcs⟩ := h.sound hread
    exact ⟨spaces, text, hspaces, ⟨a, htext, rfl⟩, hcs⟩
  complete hspaces htext hrest := by
    obtain ⟨a, htext, rfl⟩ := htext
    exact (yields_map f).2 ⟨a, h.complete hspaces htext hrest, rfl⟩

/-! ## Members between brackets -/

section Members

variable {first : Bool} {front item : List Char}

theorem nextKey_eq_closed_iff : nextKey first cs = .ok (.closed rest) ↔
    ∃ spaces, Spaces spaces ∧ cs = spaces ++ '}' :: rest := by
  constructor
  · intro h
    unfold nextKey at h
    split at h
    · cases h
    · next c more hs =>
      obtain ⟨spaces, hspaces, hcs, -⟩ := exists_spaces_of_skipSpaces hs
      split at h
      · next hc =>
        cases h
        exact ⟨spaces, hspaces, by rw [hcs, hc]⟩
      · repeat' split at h
        all_goals cases h
  · rintro ⟨spaces, hspaces, rfl⟩
    exact nextKey_closing hspaces first rest

theorem lead_of_nextKey (h : nextKey first cs = .ok (.member rest)) :
    ∃ front, Lead first front ∧ cs = front ++ '"' :: rest := by
  unfold nextKey at h
  split at h
  · cases h
  · next c more hs =>
    obtain ⟨before, hbefore, hcs, -⟩ := exists_spaces_of_skipSpaces hs
    split_ifs at h with hclosing hfirst hquote hcomma
    · cases h
    · cases h
      rw [hfirst]
      exact ⟨before, .first hbefore, by rw [hcs, hquote]⟩
    · split at h
      · cases h
      · next d _ hd =>
        obtain ⟨after, hafter, hmore, -⟩ := exists_spaces_of_skipSpaces hd
        split_ifs at h with hquote
        cases h
        rw [Bool.eq_false_iff.2 hfirst]
        exact ⟨_, .further hbefore hafter, by simp [hcs, hcomma, hmore, hquote]⟩

theorem Lead.nextKey (h : Lead first front) (rest : List Char) :
    nextKey first (front ++ '"' :: rest) = .ok (.member rest) := by
  cases h with
  | first hspaces => exact nextKey_first hspaces rest
  | further hbefore hafter =>
    rw [List.append_assoc, List.cons_append]
    exact nextKey_comma hbefore hafter rest

/-- Spaces behind what is in front of a member belong to it. -/
theorem Lead.append {spaces : List Char} (h : Lead first front) (hspaces : Spaces spaces) :
    Lead first (front ++ spaces) := by
  cases h with
  | first hfront => exact .first (spaces_append hfront hspaces)
  | further hbefore hafter =>
    rw [List.append_assoc, List.cons_append]
    exact .further hbefore (spaces_append hafter hspaces)

theorem nextElement_eq_closed_iff : nextElement first cs = .ok (.closed rest) ↔
    ∃ spaces, Spaces spaces ∧ cs = spaces ++ ']' :: rest := by
  constructor
  · intro h
    unfold nextElement at h
    split at h
    · cases h
    · next c more hs =>
      obtain ⟨spaces, hspaces, hcs, -⟩ := exists_spaces_of_skipSpaces hs
      split at h
      · next hc =>
        cases h
        exact ⟨spaces, hspaces, by rw [hcs, hc]⟩
      · repeat' split at h
        all_goals cases h
  · rintro ⟨spaces, hspaces, rfl⟩
    exact nextElement_closing hspaces first rest

theorem lead_of_nextElement (h : nextElement first cs = .ok (.member rest)) :
    ∃ front, Lead first front ∧ cs = front ++ rest := by
  unfold nextElement at h
  split at h
  · cases h
  · next c more hs =>
    obtain ⟨before, hbefore, hcs, -⟩ := exists_spaces_of_skipSpaces hs
    split_ifs at h with hclosing hfirst hcomma
    · cases h
    · cases h
      rw [hfirst]
      exact ⟨before, .first hbefore, hcs⟩
    · split at h
      · cases h
      · next d _ hd =>
        obtain ⟨after, hafter, hmore, -⟩ := exists_spaces_of_skipSpaces hd
        split_ifs at h with hclosing
        cases h
        rw [Bool.eq_false_iff.2 hfirst]
        exact ⟨_, .further hbefore hafter, by simp [hcs, hcomma, hmore]⟩

theorem Lead.nextElement (h : Lead first front) (hitem : StartsElement item) (rest : List Char) :
    nextElement first (front ++ (item ++ rest)) = .ok (.member (item ++ rest)) := by
  cases h with
  | first hspaces => exact nextElement_first hspaces hitem rest
  | further hbefore hafter =>
    rw [List.append_assoc, List.cons_append]
    exact nextElement_comma hbefore hafter hitem rest

end Members

/-! ## Objects -/

section Objects

/-- The members of an object, taken one after the other. -/
inductive Steps (Step : σ → String × List Char → σ → Prop) :
    σ → List (String × List Char) → σ → Prop
  | nil (state : σ) : Steps Step state [] state
  | cons {state next final : σ} {member : String × List Char}
      {members : List (String × List Char)} (h : Step state member next)
      (hlater : Steps Step next members final) : Steps Step state (member :: members) final

/-- Each key has a reader that takes exactly the steps that its member may
take, or none where there is no such step. -/
structure TakesSteps (reader : σ → String → Except JsonProblem (Reader σ))
    (Step : σ → String × List Char → σ → Prop) : Prop where
  recognizes {state : σ} {key : String} {value : Reader σ} (h : reader state key = .ok value) :
    Recognizes value fun text next => Step state (key, text) next
  refuses {state : σ} {key : String} {problem : JsonProblem}
    (h : reader state key = .error problem) (text : List Char) (next : σ) :
    ¬ Step state (key, text) next

variable {member : σ → String → Except JsonProblem (Reader σ)}
  {Step : σ → String × List Char → σ → Prop} {first : Bool} {state final : σ}

/-- What is taken as an object are its members, by induction on the text. -/
theorem members_of_objectTail (hsteps : TakesSteps member Step) {h : cs.length ≤ bound}
    (hyields : Yields (objectTail member bound first state cs h) final rest) :
    ∃ inner items members, Between first inner items ∧
      List.Forall₂ (MemberText .checked) items members ∧ Steps Step state members final ∧
        cs = inner ++ '}' :: rest := by
  fun_induction objectTail member bound first state cs h with
  | case1 => exact absurd hyields not_yields_error
  | case2 first state cs h behind hnext =>
    obtain ⟨rfl, rfl⟩ := yields_ok.1 hyields
    obtain ⟨spaces, hspaces, hcs⟩ := nextKey_eq_closed_iff.1 hnext
    exact ⟨spaces, [], [], .nil hspaces, .nil, .nil _, hcs⟩
  | case3 => exact absurd hyields not_yields_error
  | case4 => exact absurd hyields not_yields_error
  | case5 => exact absurd hyields not_yields_error
  | case6 => exact absurd hyields not_yields_error
  | case7 first state cs h _ hnext key hkey value hvalue more hcolon p hp hless ih =>
    obtain ⟨inner, items, members, hinner, hmembers, hlater, hrest⟩ := ih hyields
    obtain ⟨front, hfront, hcs⟩ := lead_of_nextKey hnext
    obtain ⟨body, written, hcontent, hname, hnext⟩ := yields_string_iff.1 ⟨key, hkey, rfl, rfl⟩
    obtain ⟨before, hbefore, hkeyrest⟩ := colon_of_afterColon hcolon
    obtain ⟨after, text, hafter, hstep, hmore⟩ :=
      (hsteps.recognizes hvalue).sound ⟨p, hp, rfl, rfl⟩
    rw [hname] at hstep
    have hmember : MemberText .checked _ (String.ofList written, text) :=
      .member (.quoted hcontent) hbefore hafter
    refine ⟨_, _, _, .cons hfront hinner, .cons hmember hmembers, .cons hstep hlater, ?_⟩
    simp [hcs, hnext, hkeyrest, hmore, hrest]

/-- And members are taken, by induction on them. -/
theorem yields_objectTail (hsteps : TakesSteps member Step) {inner : List Char}
    {items : List (List Char)} {members : List (String × List Char)}
    (hinner : Between first inner items)
    (hmembers : List.Forall₂ (MemberText .checked) items members)
    (hall : Steps Step state members final) (h : (inner ++ '}' :: rest).length ≤ bound) :
    Yields (objectTail member bound first state (inner ++ '}' :: rest) h) final rest := by
  induction hmembers generalizing first inner state with
  | nil =>
    cases hall
    obtain ⟨hspaces⟩ := hinner
    obtain ⟨p, hp, hvalue, hrest⟩ := objectTail_closed (nextKey_closing hspaces first rest) h
    exact ⟨p, hp, hvalue, hrest⟩
  | @cons item _ items members hmember _ ih =>
    obtain _ | @⟨_, front, _, more, _, hfront, hmore⟩ := hinner
    obtain @⟨name, before, after, value, key, hkey, hbefore, hafter⟩ := hmember
    obtain _ | ⟨hstep, hlater⟩ := hall
    cases hread : member state key with
    | error problem => exact absurd hstep (hsteps.refuses hread _ _)
    | ok reader =>
      obtain @⟨body, written, hcontent⟩ := hkey
      let behind := more ++ '}' :: rest
      let name := '"' :: (body ++ ['"'])
      have hsplit : front ++ (name ++ (before ++ ':' :: (after ++ value)) ++ more) ++ '}' :: rest =
          front ++ '"' :: (body ++ '"' :: (before ++ ':' :: (after ++ (value ++ behind)))) := by
        simp [name, behind]
      simp only [name, hsplit] at h ⊢
      have hlength : behind.length ≤ bound := by
        simp only [List.length_append, List.length_cons] at h
        omega
      have hbehind : Delimited (more ++ '}' :: rest) :=
        hmore.delimited (delimited_cons (by decide) rest)
      have hvalue := (hsteps.recognizes hread).complete hafter hstep hbehind
      have hname := hcontent.yields_string (before ++ ':' :: (after ++ (value ++ behind)))
      rw [objectTail_onward (hfront.nextKey _) hname hread (afterColon_spaces hbefore _) hvalue h
        hlength]
      exact ih hmore hlater hlength

/-- **An object is taken from one state to another by its members.** -/
theorem yields_objectTail_iff (hsteps : TakesSteps member Step) {h : cs.length ≤ bound} :
    Yields (objectTail member bound first state cs h) final rest ↔
      ∃ inner items members, Between first inner items ∧
        List.Forall₂ (MemberText .checked) items members ∧ Steps Step state members final ∧
          cs = inner ++ '}' :: rest := by
  constructor
  · exact members_of_objectTail hsteps
  · rintro ⟨inner, items, members, hinner, hmembers, hall, rfl⟩
    exact yields_objectTail hsteps hinner hmembers hall h

/-- The text of a record: an object, or a list of its fields. -/
inductive RecordText (Step : σ → String × List Char → σ → Prop) (state : σ)
    (OfElements : List (List Char) → σ → Prop) : List Char → σ → Prop
  | object {text : List Char} {members : List (String × List Char)} {final : σ}
      (h : ObjectText .checked text members) (hmembers : Steps Step state members final) :
      RecordText Step state OfElements text final
  | list {text : List Char} {items : List (List Char)} {final : σ} (h : ListText text items)
      (hitems : OfElements items final) : RecordText Step state OfElements text final

theorem yields_recordValue_iff {fields : Reader σ} :
    Yields (recordValue member state fields cs) final rest ↔ ∃ c more, skipSpaces cs = c :: more ∧
      ((c = '{' ∧ ∃ h, Yields (objectTail member cs.length true state more h) final rest) ∨
        (c = '[' ∧ Yields (fields more) final rest)) := by
  unfold recordValue
  split
  · next hs => simp [hs]
  · next c more hs =>
    have hle := length_le_of_skipSpaces hs
    by_cases hcurly : c = '{'
    · simp [hs, hcurly, hle]
    · by_cases hsquare : c = '['
      · simp [hs, hsquare, yields_widen]
      · simp [hs, hcurly, hsquare]

/-- **A record is an object or a list.** -/
theorem recognizes_recordValue (hsteps : TakesSteps member Step) (state : σ) {fields : Reader σ}
    {OfElements : List (List Char) → σ → Prop}
    (hfields : ∀ {cs rest : List Char} {final : σ}, Yields (fields cs) final rest ↔
      ∃ inner items, Between true inner items ∧ OfElements items final ∧
        cs = inner ++ ']' :: rest) :
    Recognizes (recordValue member state fields) (RecordText Step state OfElements) where
  sound h := by
    obtain ⟨c, more, hs, hform⟩ := yields_recordValue_iff.1 h
    obtain ⟨spaces, hspaces, hcs, -⟩ := exists_spaces_of_skipSpaces hs
    rcases hform with ⟨rfl, hle, hyields⟩ | ⟨rfl, hyields⟩
    · obtain ⟨inner, items, members, hinner, hmembers, hall, rfl⟩ :=
        (yields_objectTail_iff hsteps).1 hyields
      exact ⟨spaces, _, hspaces, .object (.brackets hinner hmembers) hall, by simp [hcs]⟩
    · obtain ⟨inner, items, hinner, hitems, rfl⟩ := hfields.1 hyields
      exact ⟨spaces, _, hspaces, .list (.brackets hinner) hitems, by simp [hcs]⟩
  complete hspaces h _ := by
    cases h with
    | object htext hall =>
      obtain ⟨hinner, hmembers⟩ := htext
      have hskip := skipSpaces_spaces hspaces (by rfl : isSpace '{' = false)
      exact yields_recordValue_iff.2 ⟨'{', _, hskip _, .inl ⟨rfl, length_le_of_skipSpaces (hskip _),
        (yields_objectTail_iff hsteps).2 ⟨_, _, _, hinner, hmembers, hall, List.append_assoc ..⟩⟩⟩
    | list htext hitems =>
      obtain ⟨hinner⟩ := htext
      refine yields_recordValue_iff.2 ⟨'[', _, skipSpaces_spaces hspaces rfl _, .inr ⟨rfl, ?_⟩⟩
      exact hfields.2 ⟨_, _, hinner, hitems, List.append_assoc ..⟩

end Objects

/-! ## Texts that hold one value -/

theorem skipSpaces_eq_nil_iff : skipSpaces cs = [] ↔ Spaces cs := by
  rw [skipSpaces, List.dropWhile_eq_nil_iff]
  rfl

theorem delimited_of_spaces (h : Spaces cs) : Delimited cs := by
  intro c hc
  exact .inl (h c (List.mem_of_mem_head? hc))

/-- **A text is read as a value exactly if it is one**, with spaces around it. -/
theorem Recognizes.readAll_eq_ok_iff {reader : Reader α} {IsText : List Char → α → Prop}
    (h : Recognizes reader IsText) {text : String} {a : α} :
    readAll reader text = .ok a ↔ ∃ before value after, Spaces before ∧ IsText value a ∧
      Spaces after ∧ text.toList = before ++ (value ++ after) := by
  constructor
  · intro hread
    unfold readAll at hread
    split at hread
    · cases hread
    · next p hp =>
      split at hread
      · next hafter =>
        cases hread
        obtain ⟨before, value, hbefore, hvalue, htext⟩ := h.sound ⟨p, hp, rfl, rfl⟩
        exact ⟨before, value, p.rest, hbefore, hvalue, skipSpaces_eq_nil_iff.1 hafter, htext⟩
      · cases hread
  · rintro ⟨before, value, after, hbefore, hvalue, hafter, htext⟩
    have hread := h.complete hbefore hvalue (delimited_of_spaces hafter)
    rw [← htext] at hread
    obtain ⟨p, hp, rfl, rfl⟩ := hread
    simp only [readAll, hp, skipSpaces_eq_nil_iff.2 hafter, if_true]

end Json

end ShardStore

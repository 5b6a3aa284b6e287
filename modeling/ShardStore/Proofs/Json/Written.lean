import ShardStore.Json.Reader
import ShardStore.Json.Text
/-!
# JSON — what is written is read back

A reader takes a value off whatever text it was written as, behind any
spaces and in front of any text (`Reads`). For strings this is an induction
on the characters, each escape being read as the character it was written
for; for lists and objects one on the members, and each member is read by
what its reader is known to read.
-/

namespace ShardStore

namespace Json

open Text

theorem spaces_newLine (depth : Nat) : Spaces (newLine depth) := by
  intro c hc
  rcases List.mem_cons.mp hc with rfl | hc
  · rfl
  · rw [List.eq_of_mem_replicate hc]
    rfl

/-! ## Strings -/

theorem hexValue?_digitChar : ∀ n < 16, hexValue? (Nat.digitChar n) = some n := by
  decide

/-- A character is written as a backslash and a letter, as a code unit, or as
it stands. -/
theorem escapeChar_cases (c : Char) :
    (∃ l, letterEscape? l = some c ∧ l ≠ 'u' ∧ escapeChar c = ['\\', l]) ∨
      (c.toNat < 32 ∧ escapeChar c = ['\\', 'u', '0', '0', Nat.digitChar (c.toNat / 16),
        Nat.digitChar (c.toNat % 16)]) ∨
      (c ≠ '"' ∧ c ≠ '\\' ∧ ¬ c.toNat < 32 ∧ escapeChar c = [c]) := by
  -- The characters with a letter of their own, in the order in which they are tried.
  by_cases h1 : c = '"'
  · exact .inl ⟨'"', by subst h1; decide⟩
  by_cases h2 : c = '\\'
  · exact .inl ⟨'\\', by subst h2; decide⟩
  by_cases h3 : c = '\x08'
  · exact .inl ⟨'b', by subst h3; decide⟩
  by_cases h4 : c = '\t'
  · exact .inl ⟨'t', by subst h4; decide⟩
  by_cases h5 : c = '\n'
  · exact .inl ⟨'n', by subst h5; decide⟩
  by_cases h6 : c = '\x0c'
  · exact .inl ⟨'f', by subst h6; decide⟩
  by_cases h7 : c = '\r'
  · exact .inl ⟨'r', by subst h7; decide⟩
  by_cases h8 : c.toNat < 32
  · exact .inr (.inl ⟨h8, by simp [escapeChar, h1, h2, h3, h4, h5, h6, h7, h8]⟩)
  · exact .inr (.inr ⟨h1, h2, h8, by simp [escapeChar, h1, h2, h3, h4, h5, h6, h7, h8]⟩)

/-- The letter of a character is read as the character. -/
theorem escape_letter {l c : Char} (hl : letterEscape? l = some c) (hu : l ≠ 'u')
    (cs : List Char) : ∃ p, escape .checked (l :: cs) = .ok p ∧ p.value = [c] ∧ p.rest = cs := by
  refine ⟨⟨[c], cs, by simp⟩, ?_, rfl, rfl⟩
  rw [escape]
  · simp only [hl]
  · exact hu

/-- The code unit of a control character is read as the character. -/
theorem escape_control {c : Char} (h : c.toNat < 32) (cs : List Char) :
    ∃ p, escape .checked ('u' :: '0' :: '0' :: Nat.digitChar (c.toNat / 16) ::
        Nat.digitChar (c.toNat % 16) :: cs) = .ok p ∧ p.value = [c] ∧ p.rest = cs := by
  have hzero : hexValue? '0' = some 0 := rfl
  have hhigh := hexValue?_digitChar (c.toNat / 16) (by omega)
  have hlow := hexValue?_digitChar (c.toNat % 16) (by omega)
  have hunit : c.toNat / 16 * 16 + c.toNat % 16 = c.toNat := by omega
  have hfirst : isHighSurrogate c.toNat = false := by simp [isHighSurrogate]; omega
  have hsecond : isLowSurrogate c.toNat = false := by simp [isLowSurrogate]; omega
  refine ⟨⟨[c], cs, by simp only [List.length_cons]; omega⟩, ?_, rfl, rfl⟩
  simp [escape, codeUnit, hzero, hhigh, hlow, hunit, hfirst, hsecond]

/-- A string goes on after an escape with the character that was read. -/
theorem stringTail_backslash {c : Char} {more cs : List Char}
    (hread : ∃ p, escape .checked more = .ok p ∧ p.value = [c] ∧ p.rest = cs) {bound : Nat}
    {done : List Char} (h : ('\\' :: more).length ≤ bound) (h' : cs.length ≤ bound) :
    stringTail .checked bound done ('\\' :: more) h =
      stringTail .checked bound (c :: done) cs h' := by
  obtain ⟨p, hp, hvalue, hrest⟩ := hread
  rw [stringTail]
  simp only [Char.reduceEq, if_false, if_true, hp, hvalue, hrest, List.cons_append, List.nil_append]

/-- **A character is read back from what it was written as.** -/
theorem stringTail_escapeChar (c : Char) {bound : Nat} {done cs : List Char}
    (h : (escapeChar c ++ cs).length ≤ bound) (h' : cs.length ≤ bound) :
    stringTail .checked bound done (escapeChar c ++ cs) h =
      stringTail .checked bound (c :: done) cs h' := by
  rcases escapeChar_cases c with ⟨l, hl, hu, heq⟩ | ⟨hcontrol, heq⟩ | ⟨hquote, hback, hplain, heq⟩
  · simp only [heq, List.cons_append, List.nil_append]
    exact stringTail_backslash (escape_letter hl hu cs) _ h'
  · simp only [heq, List.cons_append, List.nil_append]
    exact stringTail_backslash (escape_control hcontrol cs) _ h'
  · simp only [heq, List.cons_append, List.nil_append]
    rw [stringTail]
    simp only [hquote, hback, hplain, if_false]

/-- **A written string is read back** onto what was read before it. -/
theorem stringTail_flatMap (s done rest : List Char) {bound : Nat}
    (h : (s.flatMap escapeChar ++ '"' :: rest).length ≤ bound) :
    ∃ p, stringTail .checked bound done (s.flatMap escapeChar ++ '"' :: rest) h = .ok p ∧
      p.value = String.ofList (done.reverse ++ s) ∧ p.rest = rest := by
  induction s generalizing done with
  | nil =>
    have hless : rest.length < bound := Nat.lt_of_succ_le (by simpa using h)
    refine ⟨⟨String.ofList done.reverse, rest, hless⟩, ?_, by simp, rfl⟩
    simp only [List.flatMap_nil, List.nil_append]
    rw [stringTail]
    simp
  | cons c s ih =>
    have hlater : (s.flatMap escapeChar ++ '"' :: rest).length ≤ bound := by
      simp only [List.flatMap_cons, List.append_assoc, List.length_append] at h ⊢
      omega
    obtain ⟨p, hp, hvalue, hrest⟩ := ih (c :: done) hlater
    refine ⟨p, ?_, by simpa using hvalue, hrest⟩
    rw [← hp]
    simp only [List.flatMap_cons, List.append_assoc]
    exact stringTail_escapeChar c _ hlater

/-- A string is read after its opening quote. -/
theorem string_quote (s : String) (rest : List Char) :
    ∃ p, string .checked (s.toList.flatMap escapeChar ++ '"' :: rest) = .ok p ∧
      p.value = s ∧ p.rest = rest := by
  obtain ⟨p, hp, hvalue, hrest⟩ := stringTail_flatMap s.toList [] rest (Nat.le_refl _)
  exact ⟨p, hp, by simpa using hvalue, hrest⟩

theorem quote_append (s : String) (rest : List Char) :
    quote s ++ rest = '"' :: (s.toList.flatMap escapeChar ++ '"' :: rest) := by
  simp [quote]

/-! ## Readers -/

/-- A reader takes a value off a text, behind spaces and in front of any
other text. -/
def Reads {α : Type} (reader : Reader α) (text : List Char) (value : α) : Prop :=
  ∀ spaces rest, Spaces spaces →
    ∃ p, reader (spaces ++ (text ++ rest)) = .ok p ∧ p.value = value ∧ p.rest = rest

/-- What is read under another meaning is read all the same. -/
theorem Reads.map {α β : Type} {reader : Reader α} {text : List Char} {value : α}
    (h : Reads reader text value) (f : α → β) :
    Reads (fun cs => (reader cs).map (·.map f)) text (f value) := by
  intro spaces rest hspaces
  obtain ⟨p, hp, hvalue, hrest⟩ := h spaces rest hspaces
  exact ⟨p.map f, by simp only [hp, Except.map], by rw [Parsed.value_map, hvalue], hrest⟩

theorem reads_stringValue (s : String) : Reads stringValue (quote s) s := by
  intro spaces rest hspaces
  have hskip := skipSpaces_spaces hspaces (c := '"') rfl
    (s.toList.flatMap escapeChar ++ '"' :: rest)
  obtain ⟨p, hp, hvalue, hrest⟩ := string_quote s rest
  rw [quote_append]
  unfold stringValue
  split
  · next heq => rw [hskip] at heq; cases heq
  · next c more heq =>
    rw [hskip] at heq
    cases heq
    rw [if_pos rfl, hp]
    exact ⟨_, rfl, hvalue, hrest⟩

/-- The null word is passed over by its letters. -/
theorem skipValue_null {spaces : List Char} (hspaces : Spaces spaces) (care : Care)
    (limit bound : Nat) (rest : List Char)
    (h : (spaces ++ 'n' :: 'u' :: 'l' :: 'l' :: rest).length ≤ bound) :
    ∃ p, skipValue care limit bound [] (spaces ++ 'n' :: 'u' :: 'l' :: 'l' :: rest) h = .ok p ∧
      p.rest = rest := by
  have hskip := skipSpaces_spaces hspaces (c := 'n') rfl ('u' :: 'l' :: 'l' :: rest)
  have hletters : letters ['u', 'l', 'l'] ('u' :: 'l' :: 'l' :: rest) = .ok rest := by
    simp [letters]
  rw [skipValue]
  split
  · next heq => rw [hskip] at heq; cases heq
  · next c more heq =>
    rw [hskip] at heq
    cases heq
    have hstart : startsNumber 'n' = false := rfl
    have hword : wordTail? 'n' = some ['u', 'l', 'l'] := rfl
    simp only [Char.reduceEq, if_false, hstart, Bool.false_eq_true, or_self, hword]
    split
    · next heq => rw [hletters] at heq; cases heq
    · next heq =>
      rw [hletters] at heq
      cases heq
      rw [skipRest]
      exact ⟨_, rfl, rfl⟩

end Json

end ShardStore

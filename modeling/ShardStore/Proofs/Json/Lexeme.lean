import Mathlib.Tactic.IntervalCases
import ShardStore.Proofs.Json.Grammar
/-!
# JSON — strings are read as the grammar has them

A reading yields a value and leaves a text (`Yields`). A string yields what
its content writes, and leaves what is behind its closing quote
(`yields_string_iff`): one induction on the text that is read, and one on
the content that was written.
-/

namespace ShardStore

namespace Json

open Decimal Text

/-- A reading yields a value, and leaves a text. -/
def Yields {α : Type} {bound : ℕ} (reading : Except JsonProblem (Parsed α bound)) (a : α)
    (rest : List Char) : Prop :=
  ∃ p, reading = .ok p ∧ p.value = a ∧ p.rest = rest

section

variable {α : Type} {bound : ℕ} {a : α} {rest : List Char}

@[simp] theorem yields_ok {p : Parsed α bound} :
    Yields (.ok p) a rest ↔ p.value = a ∧ p.rest = rest := by
  simp [Yields]

@[simp] theorem not_yields_error {problem : JsonProblem} :
    ¬ Yields (.error problem : Except JsonProblem (Parsed α bound)) a rest := by
  simp [Yields]

/-- Under another meaning and a larger bound the same is left. -/
theorem yields_map {β : Type} {reading : Except JsonProblem (Parsed α bound)} (f : α → β) {b : β} :
    Yields (reading.map (·.map f)) b rest ↔ ∃ a, Yields reading a rest ∧ f a = b := by
  cases reading with
  | error problem => simp [Except.map]
  | ok p =>
    simp only [Except.map, yields_ok, Parsed.value_map, Parsed.rest_map]
    constructor
    · rintro ⟨rfl, rfl⟩
      exact ⟨_, ⟨rfl, rfl⟩, rfl⟩
    · rintro ⟨_, ⟨rfl, rfl⟩, rfl⟩
      exact ⟨rfl, rfl⟩

theorem yields_widen {reading : Except JsonProblem (Parsed α bound)} {larger : ℕ}
    (h : bound ≤ larger) : Yields (reading.map (·.widen h)) a rest ↔ Yields reading a rest := by
  cases reading <;> simp [Except.map]

end

/-! ## Code units -/

variable {cs rest : List Char} {n : ℕ}

theorem hexDigit_of_hexValue? {c : Char} (h : hexValue? c = some n) : HexDigit c n := by
  have hc := c.ofNat_toNat
  unfold hexValue? at h
  split at h
  · next hdigit =>
    simp only [Char.isDigit, ge_iff_le, Bool.and_eq_true, decide_eq_true_eq] at hdigit
    have hlow : 48 ≤ c.toNat := hdigit.1
    have hhigh : c.toNat ≤ 57 := hdigit.2
    have hall : ∀ k < 10, "0123456789abcdef".toList[k]? = some (Char.ofNat (k + 48)) := by decide
    cases h
    have hthis := hall (c.toNat - 48) (by omega)
    rw [Nat.sub_add_cancel hlow, hc] at hthis
    exact .inl hthis
  · split at h
    · next _ hletter =>
      have hlow : 97 ≤ c.toNat := hletter.1
      have hhigh : c.toNat ≤ 102 := hletter.2
      have hall : ∀ k < 6, "0123456789abcdef".toList[k + 10]? = some (Char.ofNat (k + 97)) := by
        decide
      cases h
      have hthis := hall (c.toNat - 97) (by omega)
      rw [Nat.sub_add_cancel hlow, hc, show c.toNat - 97 + 10 = c.toNat - 87 by omega] at hthis
      exact .inl hthis
    · split at h
      · next _ _ hletter =>
        have hlow : 65 ≤ c.toNat := hletter.1
        have hhigh : c.toNat ≤ 70 := hletter.2
        have hall : ∀ k < 6, "0123456789ABCDEF".toList[k + 10]? = some (Char.ofNat (k + 65)) := by
          decide
        cases h
        have hthis := hall (c.toNat - 65) (by omega)
        rw [Nat.sub_add_cancel hlow, hc, show c.toNat - 65 + 10 = c.toNat - 55 by omega] at hthis
        exact .inr hthis
      · cases h

/-- **The digits are those of the grammar.** -/
theorem hexValue?_eq_some_iff {c : Char} : hexValue? c = some n ↔ HexDigit c n := by
  refine ⟨hexDigit_of_hexValue?, ?_⟩
  have hlower : ∀ k : Fin 16, hexValue? "0123456789abcdef".toList[k] = some k.val := by decide
  have hupper : ∀ k : Fin 16, hexValue? "0123456789ABCDEF".toList[k] = some k.val := by decide
  rintro (h | h)
  · obtain ⟨hlt, rfl⟩ := List.getElem?_eq_some_iff.1 h
    exact hlower ⟨n, hlt⟩
  · obtain ⟨hlt, rfl⟩ := List.getElem?_eq_some_iff.1 h
    exact hupper ⟨n, hlt⟩

theorem codeUnit_of_yields (h : Yields (codeUnit cs) n rest) :
    ∃ unit, CodeUnit unit n ∧ cs = unit ++ rest := by
  unfold codeUnit at h
  split at h
  · split at h
    · next ha hb hc hd =>
      obtain ⟨rfl, rfl⟩ := yields_ok.1 h
      exact ⟨_, .digits (hexValue?_eq_some_iff.1 ha) (hexValue?_eq_some_iff.1 hb)
        (hexValue?_eq_some_iff.1 hc) (hexValue?_eq_some_iff.1 hd), rfl⟩
    · exact absurd h not_yields_error
  · split at h <;> exact absurd h not_yields_error

theorem CodeUnit.yields {unit : List Char} (h : CodeUnit unit n) (rest : List Char) :
    Yields (codeUnit (unit ++ rest)) n rest := by
  obtain ⟨ha, hb, hc, hd⟩ := h
  simp only [codeUnit, List.cons_append, List.nil_append, hexValue?_eq_some_iff.2 ha,
    hexValue?_eq_some_iff.2 hb, hexValue?_eq_some_iff.2 hc, hexValue?_eq_some_iff.2 hd, yields_ok,
    and_self]

/-! ## Escapes -/

theorem isHighSurrogate_iff : isHighSurrogate n = true ↔ 0xD800 ≤ n ∧ n < 0xDC00 := by
  simp [isHighSurrogate]

theorem isLowSurrogate_iff : isLowSurrogate n = true ↔ 0xDC00 ≤ n ∧ n < 0xE000 := by
  simp [isLowSurrogate]

theorem letterEscape?_eq_some_iff {l c : Char} :
    letterEscape? l = some c ↔ (l, c) ∈ letterEscapes := by
  simp only [letterEscapes, List.mem_cons, Prod.mk.injEq, List.not_mem_nil, or_false]
  constructor
  · intro h
    unfold letterEscape? at h
    split at h
    · next hself =>
      cases h
      rcases hself with rfl | rfl | rfl <;> simp
    · repeat' split at h
      all_goals first
        | cases h
          simp_all
        | cases h
  · rintro (⟨rfl, rfl⟩ | ⟨rfl, rfl⟩ | ⟨rfl, rfl⟩ | ⟨rfl, rfl⟩ | ⟨rfl, rfl⟩ | ⟨rfl, rfl⟩ |
      ⟨rfl, rfl⟩ | ⟨rfl, rfl⟩) <;> decide

/-- The other half of a pair is an escape with a code unit of its own. -/
theorem secondSurrogate_of_yields {high : ℕ} {written : List Char}
    (h : Yields (secondSurrogate high cs) written rest) : ∃ unit low, CodeUnit unit low ∧
      (0xDC00 ≤ low ∧ low < 0xE000) ∧ written = [ofSurrogates high low] ∧
        cs = '\\' :: 'u' :: (unit ++ rest) := by
  unfold secondSurrogate at h
  split at h
  · exact absurd h not_yields_error
  · exact absurd h not_yields_error
  · next more =>
    split at h
    · exact absurd h not_yields_error
    · next low hlow =>
      obtain ⟨unit, hunit, hmore⟩ := codeUnit_of_yields ⟨low, hlow, rfl, rfl⟩
      split at h
      · next hrange =>
        obtain ⟨rfl, rfl⟩ := yields_ok.1 h
        exact ⟨unit, _, hunit, isLowSurrogate_iff.1 hrange, rfl, by rw [← hmore]⟩
      · exact absurd h not_yields_error
  · exact absurd h not_yields_error

theorem yields_secondSurrogate {unit : List Char} {low : ℕ} (h : CodeUnit unit low)
    (hrange : 0xDC00 ≤ low ∧ low < 0xE000) (high : ℕ) (rest : List Char) :
    Yields (secondSurrogate high ('\\' :: 'u' :: (unit ++ rest))) [ofSurrogates high low] rest := by
  obtain ⟨p, hp, hvalue, hrest⟩ := h.yields rest
  simp [secondSurrogate, hp, hvalue, hrest, isLowSurrogate_iff.2 hrange]

/-- **An escape is read as what it writes.** -/
theorem escape_of_yields {care : Care} {written : List Char}
    (h : Yields (escape care cs) written rest) :
    ∃ text, Escape care text written ∧ cs = text ++ rest := by
  unfold escape at h
  split at h
  · exact absurd h not_yields_error
  · next more =>
    split at h
    · exact absurd h not_yields_error
    · next unit hunit =>
      obtain ⟨text, htext, hmore⟩ := codeUnit_of_yields ⟨unit, hunit, rfl, rfl⟩
      dsimp only at h
      split at h
      · next hcare =>
        obtain ⟨rfl, rfl⟩ := yields_ok.1 h
        subst hcare
        exact ⟨_, .form htext, congrArg _ hmore⟩
      · next hcare =>
        obtain rfl : care = .checked := by cases care <;> simp_all
        split at h
        · exact absurd h not_yields_error
        · next hlow =>
          rw [isLowSurrogate_iff] at hlow
          split at h
          · next hhigh =>
            split at h
            · exact absurd h not_yields_error
            · next p hp =>
              obtain ⟨rfl, rfl⟩ := yields_ok.1 h
              obtain ⟨second, low, hsecond, hrange, hvalue, hrest⟩ :=
                secondSurrogate_of_yields ⟨p, hp, rfl, rfl⟩
              rw [Parsed.value_widen, Parsed.rest_widen, hvalue]
              refine ⟨_, .pair htext (isHighSurrogate_iff.1 hhigh) hsecond hrange, ?_⟩
              simpa [hrest] using hmore
          · next hhigh =>
            rw [isHighSurrogate_iff] at hhigh
            obtain ⟨rfl, rfl⟩ := yields_ok.1 h
            exact ⟨_, .unit htext (by omega), congrArg _ hmore⟩
  · next c more hu =>
    split at h
    · next d hletter =>
      obtain ⟨rfl, rfl⟩ := yields_ok.1 h
      exact ⟨_, .letter (letterEscape?_eq_some_iff.1 hletter), rfl⟩
    · exact absurd h not_yields_error

theorem Escape.yields {care : Care} {text written : List Char} (h : Escape care text written)
    (rest : List Char) : Yields (Json.escape care (text ++ rest)) written rest := by
  cases h with
  | @letter _ l c hletter =>
    have hne : l ≠ 'u' := by
      rintro rfl
      revert hletter
      simp [letterEscapes]
    rw [List.cons_append, Json.escape]
    · simp only [letterEscape?_eq_some_iff.2 hletter, yields_ok, List.nil_append, and_self]
    · exact hne
  | form hunit =>
    obtain ⟨p, hp, -, hrest⟩ := hunit.yields rest
    simp [Json.escape, hp, hrest]
  | @unit unit n hunit hn =>
    obtain ⟨p, hp, hvalue, hrest⟩ := hunit.yields rest
    have hlow := mt isLowSurrogate_iff.1 (by omega : ¬ (0xDC00 ≤ n ∧ n < 0xE000))
    have hhigh := mt isHighSurrogate_iff.1 (by omega : ¬ (0xD800 ≤ n ∧ n < 0xDC00))
    simp [Json.escape, hp, hvalue, hrest, hlow, hhigh]
  | @pair first second high low hfirst hrange hsecond hrange' =>
    obtain ⟨p, hp, hvalue, hrest⟩ := hfirst.yields ('\\' :: 'u' :: (second ++ rest))
    have hlow := mt isLowSurrogate_iff.1 (by omega : ¬ (0xDC00 ≤ high ∧ high < 0xE000))
    have hlater := yields_secondSurrogate hsecond hrange' high rest
    rw [← hrest] at hlater
    obtain ⟨q, hq, hwritten, hleft⟩ := hlater
    have hcs : 'u' :: (first ++ '\\' :: 'u' :: second) ++ rest =
        'u' :: (first ++ '\\' :: 'u' :: (second ++ rest)) := by simp
    rw [hcs, Json.escape, hp]
    simp [hvalue, hlow, isHighSurrogate_iff.2 hrange, hq, hwritten, hleft, ofSurrogates]

/-- An escape writes one character at most. -/
theorem Escape.reverse {care : Care} {text written : List Char} (h : Escape care text written) :
    written.reverse = written := by
  cases h <;> rfl

/-! ## Strings -/

variable {care : Care} {bound : ℕ} {done : List Char} {s : String}

theorem content_of_yields {h : cs.length ≤ bound}
    (hyields : Yields (stringTail care bound done cs h) s rest) :
    ∃ body written, Content care body written ∧ s = String.ofList (done.reverse ++ written) ∧
      cs = body ++ '"' :: rest := by
  fun_induction stringTail care bound done cs h with
  | case1 => exact absurd hyields not_yields_error
  | case2 done cs h hlt =>
    obtain ⟨rfl, rfl⟩ := yields_ok.1 hyields
    exact ⟨[], [], .nil, by simp, rfl⟩
  | case3 => exact absurd hyields not_yields_error
  | case4 done cs p hp _ _ _ _ ih =>
    obtain ⟨body, written, hcontent, rfl, hrest⟩ := ih hyields
    obtain ⟨text, htext, hcs⟩ := escape_of_yields ⟨p, hp, rfl, rfl⟩
    exact ⟨_, _, .escape htext hcontent, by simp [htext.reverse], by simp [hcs, hrest]⟩
  | case5 => exact absurd hyields not_yields_error
  | case6 done c cs _ _ hquote hback hcontrol _ ih =>
    obtain ⟨body, written, hcontent, rfl, rfl⟩ := ih hyields
    exact ⟨_, _, .plain hquote hback (Nat.le_of_not_lt hcontrol) hcontent, by simp, rfl⟩

theorem Content.yields {body written : List Char} (hcontent : Content care body written)
    (h : (body ++ '"' :: rest).length ≤ bound) :
    Yields (stringTail care bound done (body ++ '"' :: rest) h)
      (String.ofList (done.reverse ++ written)) rest := by
  induction hcontent generalizing done with
  | nil =>
    simp only [List.nil_append]
    rw [stringTail]
    simp
  | @plain c body written hquote hback hcontrol _ ih =>
    have hlater : (body ++ '"' :: rest).length ≤ bound :=
      Nat.le_of_lt (Nat.lt_of_lt_of_le (by simp) h)
    have hmore := @ih (c :: done) hlater
    simp only [List.cons_append]
    rw [stringTail]
    simpa [hquote, hback, Nat.not_lt.2 hcontrol] using hmore
  | @escape text characters body written htext _ ih =>
    obtain ⟨p, hp, hvalue, hrest⟩ := htext.yields (body ++ '"' :: rest)
    have hlater : (body ++ '"' :: rest).length ≤ bound := by
      simp only [List.cons_append, List.length_cons, List.append_assoc, List.length_append] at h ⊢
      omega
    have hmore := @ih (characters ++ done) hlater
    rw [List.reverse_append, htext.reverse, List.append_assoc] at hmore
    simp only [List.cons_append, List.append_assoc]
    rw [stringTail]
    simpa [hp, hvalue, hrest] using hmore

/-- **A string is read as its content**, up to the quote that closes it. -/
theorem yields_string_iff : Yields (string care cs) s rest ↔ ∃ body written,
    Content care body written ∧ s = String.ofList written ∧ cs = body ++ '"' :: rest := by
  constructor
  · exact content_of_yields
  · rintro ⟨body, written, hcontent, rfl, rfl⟩
    exact hcontent.yields _

theorem Content.yields_string {body written : List Char} (h : Content care body written)
    (rest : List Char) :
    Yields (string care (body ++ '"' :: rest)) (String.ofList written) rest :=
  yields_string_iff.2 ⟨body, written, h, rfl, rfl⟩

end Json

end ShardStore

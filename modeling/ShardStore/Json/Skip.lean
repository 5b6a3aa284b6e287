import ShardStore.Json.Lexeme
import ShardStore.Text.Blank
/-!
# JSON — passing over a value

A value whose content does not matter is passed over with the list of the
brackets that are open in it, so that its depth costs no recursion. A
checked value may open a limited number of brackets at once; a skimmed one
has no limit.
-/

namespace ShardStore

open Text

namespace Json

/-- A bracket that is open. -/
inductive Bracket where
  | square
  | curly
deriving DecidableEq, Repr

/-- The letters after the first one of a word. -/
def wordTail? (c : Char) : Option (List Char) :=
  if c = 'n' then some ['u', 'l', 'l']
  else if c = 't' then some ['r', 'u', 'e']
  else if c = 'f' then some ['a', 'l', 's', 'e']
  else none

/-- The first character of a number. -/
def startsNumber (c : Char) : Bool :=
  c == '-' || c.isDigit

/-- The text after a colon. -/
def afterColon (cs : List Char) : Except JsonProblem (List Char) :=
  match skipSpaces cs with
  | [] => .error .truncated
  | ':' :: rest => .ok rest
  | _ => .error .malformed

theorem length_of_skipSpaces {cs rest : List Char} {c : Char} (h : skipSpaces cs = c :: rest) :
    rest.length < cs.length := by
  have := length_skipSpaces_le cs
  rw [h, List.length_cons] at this
  omega

theorem length_le_of_skipSpaces {cs rest : List Char} {c : Char} (h : skipSpaces cs = c :: rest) :
    rest.length ≤ cs.length :=
  Nat.le_of_lt (length_of_skipSpaces h)

theorem length_afterColon {cs rest : List Char} (h : afterColon cs = .ok rest) :
    rest.length < cs.length := by
  unfold afterColon at h
  split at h
  · simp at h
  · next more hm =>
    simp only [Except.ok.injEq] at h
    rw [← h]
    exact length_of_skipSpaces hm
  · simp at h

mutual

/-- Passes over a value inside the open brackets, and then over what is
left of those. -/
def skipValue (care : Care) (limit bound : Nat) (within : List Bracket) (cs : List Char)
    (h : cs.length ≤ bound) : Except JsonProblem (Parsed Unit bound) :=
  match hs : skipSpaces cs with
  | [] => .error .truncated
  | c :: rest =>
    have hr := length_of_skipSpaces hs
    if c = '"' then
      match string care rest with
      | .error e => .error e
      | .ok p =>
        have := p.shorter
        skipRest care limit bound within p.rest (by omega)
    else if startsNumber c then
      match number care (c :: rest) with
      | .error e => .error e
      | .ok p =>
        have := p.shorter
        have hc : (c :: rest).length ≤ cs.length := hs ▸ length_skipSpaces_le cs
        skipRest care limit bound within p.rest (by omega)
    else if c = '[' ∨ c = '{' then
      if care = .checked ∧ limit ≤ within.length then .error .malformed
      else
        match hm : skipSpaces rest with
        | [] => .error .truncated
        | d :: more =>
          have hd := length_of_skipSpaces hm
          if c = '[' then
            if d = ']' then skipRest care limit bound within more (by omega)
            else skipValue care limit bound (.square :: within) rest (by omega)
          else
            if d = '}' then skipRest care limit bound within more (by omega)
            else skipMember care limit bound (.curly :: within) rest (by omega)
    else
      match wordTail? c with
      | none => .error .malformed
      | some word =>
        match hw : letters word rest with
        | .error e => .error e
        | .ok more =>
          have := length_letters hw
          skipRest care limit bound within more (by omega)
termination_by cs.length

/-- Passes over what is left of the open brackets after a value in them. -/
def skipRest (care : Care) (limit bound : Nat) (within : List Bracket) (cs : List Char)
    (h : cs.length < bound) : Except JsonProblem (Parsed Unit bound) :=
  match within with
  | [] => .ok ⟨(), cs, h⟩
  | bracket :: outer =>
    match hs : skipSpaces cs with
    | [] => .error .truncated
    | c :: rest =>
      have hr := length_of_skipSpaces hs
      match bracket with
      | .square =>
        if c = ',' then skipValue care limit bound (.square :: outer) rest (by omega)
        else if c = ']' then skipRest care limit bound outer rest (by omega)
        else .error .malformed
      | .curly =>
        if c = ',' then skipMember care limit bound (.curly :: outer) rest (by omega)
        else if c = '}' then skipRest care limit bound outer rest (by omega)
        else .error .malformed
termination_by cs.length

/-- Passes over a key and its value inside the open brackets, and then over
what is left of those. -/
def skipMember (care : Care) (limit bound : Nat) (within : List Bracket) (cs : List Char)
    (h : cs.length ≤ bound) : Except JsonProblem (Parsed Unit bound) :=
  match hs : skipSpaces cs with
  | [] => .error .truncated
  | c :: rest =>
    have hr := length_of_skipSpaces hs
    if c = '"' then
      match string care rest with
      | .error e => .error e
      | .ok key =>
        match hc : afterColon key.rest with
        | .error e => .error e
        | .ok more =>
          have := key.shorter
          have := length_afterColon hc
          skipValue care limit bound within more (by omega)
    else .error .malformed
termination_by cs.length

end

/-- Passes over a value of any form. -/
def skim (cs : List Char) : Reading Unit cs :=
  skipValue .skimmed 0 cs.length [] cs .refl

/-- Passes over a value that is checked and opens at most `limit` brackets
at once. -/
def check (limit : Nat) (cs : List Char) : Reading Unit cs :=
  skipValue .checked limit cs.length [] cs .refl

end Json

end ShardStore

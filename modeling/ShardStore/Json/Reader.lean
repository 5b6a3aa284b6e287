import ShardStore.Json.Skip
/-!
# JSON — reading values of a known form

A reader takes a value of one form off a text. A text is read once from
the left, and the first problem that is met is the one reported: a value
of another form counts as misshapen only once its own string, number or
word has been read, while a bracket betrays its form at once.
-/

namespace ShardStore

open Text

namespace Json

/-- Takes a value off a text. -/
abbrev Reader (α : Type) := (cs : List Char) → Reading α cs

/-- The problem with a value, at its first character, where another form
was expected. -/
def unexpected (c : Char) (rest : List Char) : JsonProblem :=
  let outcome : Except JsonProblem Unit :=
    if c = '"' then (string .checked rest).map fun _ => ()
    else if startsNumber c then (number .checked (c :: rest)).map fun _ => ()
    else if c = '[' ∨ c = '{' then .ok ()
    else
      match wordTail? c with
      | none => .error .malformed
      | some word => (letters word rest).map fun _ => ()
  match outcome with
  | .error e => e
  | .ok () => .misshapen

/-- Where a list or an object goes on: after its closing bracket, or at its
next member. -/
inductive Onward where
  | closed (rest : List Char)
  | member (cs : List Char)

/-- Looks for the next element of a list. -/
def nextElement (first : Bool) (cs : List Char) : Except JsonProblem Onward :=
  match skipSpaces cs with
  | [] => .error .truncated
  | c :: rest =>
    if c = ']' then .ok (.closed rest)
    else if first then .ok (.member (c :: rest))
    else if c = ',' then
      match skipSpaces rest with
      | [] => .error .truncated
      | d :: more => if d = ']' then .error .malformed else .ok (.member (d :: more))
    else .error .malformed

/-- Looks for the next key of an object, and stops after its opening
quote. -/
def nextKey (first : Bool) (cs : List Char) : Except JsonProblem Onward :=
  match skipSpaces cs with
  | [] => .error .truncated
  | c :: rest =>
    if c = '}' then .ok (.closed rest)
    else if first then
      if c = '"' then .ok (.member rest) else .error .malformed
    else if c = ',' then
      match skipSpaces rest with
      | [] => .error .truncated
      | d :: more => if d = '"' then .ok (.member more) else .error .malformed
    else .error .malformed

theorem length_nextElement_closed {first : Bool} {cs rest : List Char}
    (h : nextElement first cs = .ok (.closed rest)) : rest.length < cs.length := by
  unfold nextElement at h
  split at h
  · simp at h
  · next c more hm =>
    have := length_of_skipSpaces hm
    repeat' split at h
    all_goals simp_all

theorem length_nextElement_member {first : Bool} {cs rest : List Char}
    (h : nextElement first cs = .ok (.member rest)) : rest.length ≤ cs.length := by
  unfold nextElement at h
  split at h
  · simp at h
  · next c more hm =>
    have h1 := length_of_skipSpaces hm
    have h2 := length_skipSpaces_le cs
    have h3 := length_skipSpaces_le more
    repeat' split at h
    all_goals simp_all
    · subst h; simp only [List.length_cons]; omega
    · subst h; simp only [List.length_cons]; omega

theorem length_nextKey_closed {first : Bool} {cs rest : List Char}
    (h : nextKey first cs = .ok (.closed rest)) : rest.length < cs.length := by
  unfold nextKey at h
  split at h
  · simp at h
  · next c more hm =>
    have := length_of_skipSpaces hm
    repeat' split at h
    all_goals simp_all

theorem length_nextKey_member {first : Bool} {cs rest : List Char}
    (h : nextKey first cs = .ok (.member rest)) : rest.length ≤ cs.length := by
  unfold nextKey at h
  split at h
  · simp at h
  · next c more hm =>
    have h1 := length_of_skipSpaces hm
    have h3 := length_skipSpaces_le more
    repeat' split at h
    all_goals simp_all
    · subst h; omega
    · omega

/-- Reads the rest of a list onto the elements of `done`, which are in
reverse order. -/
def listTail {α : Type} (element : Reader α) (bound : Nat) (done : List α) (cs : List Char)
    (h : cs.length ≤ bound) : Except JsonProblem (Parsed (List α) bound) :=
  match hn : nextElement done.isEmpty cs with
  | .error e => .error e
  | .ok (.closed rest) =>
    .ok ⟨done.reverse, rest, by have := length_nextElement_closed hn; omega⟩
  | .ok (.member next) =>
    match element next with
    | .error e => .error e
    | .ok p =>
      have := length_nextElement_member hn
      have := p.shorter
      listTail element bound (p.value :: done) p.rest (by omega)
termination_by cs.length

/-- What comes after a member is shorter than what the member begins. -/
theorem length_member {σ : Type} {first : Bool} {cs next more : List Char}
    {key : Parsed String next.length} (hnext : nextKey first cs = .ok (.member next))
    (hcolon : afterColon key.rest = .ok more) (p : Parsed σ more.length) :
    p.rest.length < cs.length := by
  have hfirst := length_nextKey_member hnext
  have hkey := key.shorter
  have hmore := length_afterColon hcolon
  have hrest := p.shorter
  omega

/-- Reads the rest of an object. Each key decides, with what was read
before, how its value is read and what it adds. -/
def objectTail {σ : Type} (member : σ → String → Except JsonProblem (Reader σ)) (bound : Nat)
    (first : Bool) (state : σ) (cs : List Char) (h : cs.length ≤ bound) :
    Except JsonProblem (Parsed σ bound) :=
  match hn : nextKey first cs with
  | .error e => .error e
  | .ok (.closed rest) => .ok ⟨state, rest, Nat.lt_of_lt_of_le (length_nextKey_closed hn) h⟩
  | .ok (.member next) =>
    match string .checked next with
    | .error e => .error e
    | .ok key =>
      match member state key.value with
      | .error e => .error e
      | .ok reader =>
        match hc : afterColon key.rest with
        | .error e => .error e
        | .ok more =>
          match reader more with
          | .error e => .error e
          | .ok p =>
            have hless := length_member hn hc p
            objectTail member bound false p.value p.rest (Nat.le_of_lt (Nat.lt_of_lt_of_le hless h))
termination_by cs.length

/-- Reads the end of a list that holds all its elements. -/
def listEnd (cs : List Char) : Reading Unit cs :=
  match h : skipSpaces cs with
  | [] => .error .truncated
  | c :: rest =>
    if c = ']' then .ok ⟨(), rest, length_of_skipSpaces h⟩ else .error .malformed

/-- Reads a string. -/
def stringValue : Reader String := fun cs =>
  match h : skipSpaces cs with
  | [] => .error .truncated
  | c :: rest =>
    if c = '"' then
      (string .checked rest).map (·.widen (length_le_of_skipSpaces h))
    else .error (unexpected c rest)

/-- Reads a size. -/
def sizeValue : Reader Nat := fun cs =>
  match h : skipSpaces cs with
  | [] => .error .truncated
  | c :: rest =>
    if startsNumber c then
      match number .checked (c :: rest) with
      | .error e => .error e
      | .ok p =>
        match p.value with
        | none => .error .misshapen
        | some n => .ok ⟨n, p.rest, by
            have h1 := p.shorter
            have h2 := length_skipSpaces_le cs
            rw [h] at h2; omega⟩
    else .error (unexpected c rest)

/-- Reads a list. -/
def listValue {α : Type} (element : Reader α) : Reader (List α) := fun cs =>
  match h : skipSpaces cs with
  | [] => .error .truncated
  | c :: rest =>
    if c = '[' then
      listTail element cs.length [] rest (length_le_of_skipSpaces h)
    else .error (unexpected c rest)

/-- Reads an object. -/
def objectValue {σ : Type} (member : σ → String → Except JsonProblem (Reader σ)) (state : σ) :
    Reader σ := fun cs =>
  match h : skipSpaces cs with
  | [] => .error .truncated
  | c :: rest =>
    if c = '{' then
      objectTail member cs.length true state rest (length_le_of_skipSpaces h)
    else .error (unexpected c rest)

/-- Reads a record, which is an object, or a list of its fields. -/
def recordValue {σ : Type} (member : σ → String → Except JsonProblem (Reader σ)) (state : σ)
    (fields : Reader σ) : Reader σ := fun cs =>
  match h : skipSpaces cs with
  | [] => .error .truncated
  | c :: rest =>
    have hr := length_le_of_skipSpaces h
    if c = '{' then objectTail member cs.length true state rest hr
    else if c = '[' then (fields rest).map (·.widen hr)
    else .error (unexpected c rest)

/-- Passes over the value of an unknown key and changes nothing. -/
def ignored {σ : Type} (state : σ) : Reader σ := fun cs =>
  (skim cs).map (·.map fun _ => state)

/-- Reads a text that holds one value and spaces around it. -/
def readAll {α : Type} (reader : Reader α) (text : String) : Except JsonProblem α :=
  match reader text.toList with
  | .error e => .error e
  | .ok p => if skipSpaces p.rest = [] then .ok p.value else .error .malformed

end Json

end ShardStore

import ShardStore.Proofs.Json.Lexeme
import ShardStore.Proofs.Json.Written
/-!
# JSON — lists and objects that are written are read back

The members of a block stand behind its opening bracket, one behind a line
break and each further one behind a comma and a line break. A loop of the
reader takes one member off such a text and goes on with the next, so each
of the two proofs is an induction on the members that are left; the first
member is one step before it.
-/

namespace ShardStore

namespace Json

open Text

/-! ## How a block is written -/

/-- Texts behind commas. -/
def behindCommas (depth : Nat) (members : List (List Char)) : List Char :=
  members.flatMap fun member => ',' :: (newLine depth ++ member)

theorem intercalate_cons (depth : Nat) (member : List Char) (members : List (List Char)) :
    (',' :: newLine depth).intercalate (member :: members) =
      member ++ behindCommas depth members := by
  induction members generalizing member with
  | nil => simp [behindCommas]
  | cons next members ih =>
    rw [List.intercalate_cons_cons, ih next]
    simp [behindCommas]

theorem block_cons (opening closing : Char) (depth : Nat) (member : List Char)
    (members : List (List Char)) (rest : List Char) :
    block opening closing depth (member :: members) ++ rest =
      opening :: (newLine (depth + 1) ++ (member ++
        (behindCommas (depth + 1) members ++ (newLine depth ++ closing :: rest)))) := by
  simp [block, intercalate_cons]

theorem block_eq_cons (opening closing : Char) (depth : Nat) (texts : List (List Char))
    (rest : List Char) : ∃ body, block opening closing depth texts ++ rest = opening :: body := by
  cases texts with
  | nil => exact ⟨_, rfl⟩
  | cons text texts => exact ⟨_, block_cons ..⟩

/-! ## Lists -/

/-- What an element of a list may start with. -/
def StartsElement (text : List Char) : Prop :=
  ∃ c cs, text = c :: cs ∧ isSpace c = false ∧ c ≠ ']'

theorem nextElement_closing {spaces : List Char} (h : Spaces spaces) (first : Bool)
    (rest : List Char) : nextElement first (spaces ++ ']' :: rest) = .ok (.closed rest) := by
  rw [nextElement, skipSpaces_spaces h rfl]
  simp

theorem nextElement_first {spaces : List Char} (h : Spaces spaces) {text : List Char}
    (htext : StartsElement text) (rest : List Char) :
    nextElement true (spaces ++ (text ++ rest)) = .ok (.member (text ++ rest)) := by
  obtain ⟨c, cs, rfl, hc, hne⟩ := htext
  rw [nextElement, List.cons_append, skipSpaces_spaces h hc]
  simp [hne]

theorem nextElement_comma {before after : List Char} (hbefore : Spaces before)
    (hafter : Spaces after) {text : List Char} (htext : StartsElement text) (rest : List Char) :
    nextElement false (before ++ ',' :: (after ++ (text ++ rest))) =
      .ok (.member (text ++ rest)) := by
  obtain ⟨c, cs, rfl, hc, hne⟩ := htext
  rw [nextElement, skipSpaces_spaces hbefore rfl]
  simp only [Char.reduceEq, if_false, Bool.false_eq_true, if_true, List.cons_append,
    skipSpaces_spaces hafter hc, hne]

section Lists

variable {α : Type} {element : Reader α} {bound : Nat} {cs : List Char}

theorem listTail_closed (done : List α) {rest : List Char}
    (hnext : nextElement done.isEmpty cs = .ok (.closed rest))
    (h : cs.length ≤ bound) :
    ∃ p, listTail element bound done cs h = .ok p ∧ p.value = done.reverse ∧ p.rest = rest := by
  rw [listTail]
  split
  · next heq => rw [hnext] at heq; cases heq
  · next heq =>
    rw [hnext] at heq
    cases heq
    exact ⟨_, rfl, rfl, rfl⟩
  · next heq => rw [hnext] at heq; cases heq

/-- One element is read, and the reader of the list goes on behind it. -/
theorem listTail_member (done : List α) {text rest : List Char} {value : α}
    (hnext : nextElement done.isEmpty cs = .ok (.member (text ++ rest)))
    (hread : Reads element text value) (h : cs.length ≤ bound) (h' : rest.length ≤ bound) :
    listTail element bound done cs h = listTail element bound (value :: done) rest h' := by
  have hfirst : ∃ p, element (text ++ rest) = .ok p ∧ p.value = value ∧ p.rest = rest :=
    hread [] rest spaces_nil
  obtain ⟨p, hp, hvalue, hrest⟩ := hfirst
  rw [listTail]
  split
  · next heq => rw [hnext] at heq; cases heq
  · next heq => rw [hnext] at heq; cases heq
  · next heq =>
    rw [hnext] at heq
    cases heq
    simp only [hp, hvalue, hrest]

variable {ι : Type} {write : ι → List Char} {read : ι → α}

/-- **The further elements of a list are read back.** -/
theorem listTail_behindCommas (items : List ι)
    (hread : ∀ item ∈ items, Reads element (write item) (read item))
    (hstart : ∀ item ∈ items, StartsElement (write item)) (depth : Nat) {spaces : List Char}
    (hspaces : Spaces spaces) (first : α) (done : List α) (rest : List Char)
    (h : (behindCommas depth (items.map write) ++ (spaces ++ ']' :: rest)).length ≤ bound) :
    ∃ p, listTail element bound (first :: done)
        (behindCommas depth (items.map write) ++ (spaces ++ ']' :: rest)) h = .ok p ∧
      p.value = (first :: done).reverse ++ items.map read ∧ p.rest = rest := by
  induction items generalizing first done with
  | nil =>
    obtain ⟨p, hp, hvalue, hrest⟩ :=
      listTail_closed (first :: done) (nextElement_closing hspaces _ rest) h
    exact ⟨p, hp, by simpa using hvalue, hrest⟩
  | cons item items ih =>
    have hitem := hread item List.mem_cons_self
    have hbegin := hstart item List.mem_cons_self
    let later := behindCommas depth (items.map write) ++ (spaces ++ ']' :: rest)
    have hsplit : behindCommas depth ((item :: items).map write) ++ (spaces ++ ']' :: rest) =
        ',' :: (newLine depth ++ (write item ++ later)) := by
      simp [behindCommas, later]
    have hbound : later.length ≤ bound := by
      rw [hsplit] at h
      simp only [List.length_cons, List.length_append] at h
      omega
    obtain ⟨p, hp, hvalue, hrest⟩ := ih
      (fun other hother => hread other (List.mem_cons_of_mem _ hother))
      (fun other hother => hstart other (List.mem_cons_of_mem _ hother))
      (read item) (first :: done) hbound
    refine ⟨p, ?_, by simpa using hvalue, hrest⟩
    have hnext := nextElement_comma spaces_nil (spaces_newLine depth) hbegin later
    rw [← hp]
    simp only [hsplit]
    exact listTail_member (first :: done) hnext hitem _ hbound

theorem listTail_block (items : List ι)
    (hread : ∀ item ∈ items, Reads element (write item) (read item))
    (hstart : ∀ item ∈ items, StartsElement (write item)) (depth : Nat) (rest : List Char)
    {body : List Char} (hbody : block '[' ']' depth (items.map write) ++ rest = '[' :: body)
    (h : body.length ≤ bound) :
    ∃ p, listTail element bound [] body h = .ok p ∧ p.value = items.map read ∧ p.rest = rest := by
  cases items with
  | nil =>
    obtain rfl : ']' :: rest = body := (List.cons.inj hbody).2
    exact listTail_closed [] (nextElement_closing spaces_nil _ rest) h
  | cons item items =>
    have hitem := hread item List.mem_cons_self
    have hbegin := hstart item List.mem_cons_self
    let later := behindCommas (depth + 1) (items.map write) ++ (newLine depth ++ ']' :: rest)
    have hsplit : body = newLine (depth + 1) ++ (write item ++ later) := by
      rw [List.map_cons, block_cons] at hbody
      exact (List.cons.inj hbody).2.symm
    have hbound : later.length ≤ bound := by
      rw [hsplit] at h
      simp only [List.length_append] at h
      omega
    obtain ⟨p, hp, hvalue, hrest⟩ := listTail_behindCommas items
      (fun other hother => hread other (List.mem_cons_of_mem _ hother))
      (fun other hother => hstart other (List.mem_cons_of_mem _ hother))
      (depth + 1) (spaces_newLine depth) (read item) [] rest hbound
    refine ⟨p, ?_, by simpa using hvalue, hrest⟩
    have hnext := nextElement_first (spaces_newLine (depth + 1)) hbegin later
    rw [← hp]
    simp only [hsplit]
    exact listTail_member [] hnext hitem _ hbound

/-- **A written list is read back.** -/
theorem reads_listValue (items : List ι)
    (hread : ∀ item ∈ items, Reads element (write item) (read item))
    (hstart : ∀ item ∈ items, StartsElement (write item)) (depth : Nat) :
    Reads (listValue element) (block '[' ']' depth (items.map write)) (items.map read) := by
  intro spaces rest hspaces
  obtain ⟨body, hbody⟩ := block_eq_cons '[' ']' depth (items.map write) rest
  have hskip := skipSpaces_spaces hspaces (c := '[') rfl body
  rw [hbody]
  unfold listValue
  split
  · next heq => exact absurd (hskip.symm.trans heq) (by simp)
  · next c more heq =>
    obtain ⟨rfl, rfl⟩ := List.cons.inj (hskip.symm.trans heq)
    rw [if_pos rfl]
    exact listTail_block items hread hstart depth rest hbody _

end Lists

/-! ## Objects -/

theorem nextKey_closing {spaces : List Char} (h : Spaces spaces) (first : Bool)
    (rest : List Char) : nextKey first (spaces ++ '}' :: rest) = .ok (.closed rest) := by
  rw [nextKey, skipSpaces_spaces h rfl]
  simp

theorem nextKey_first {spaces : List Char} (h : Spaces spaces) (cs : List Char) :
    nextKey true (spaces ++ '"' :: cs) = .ok (.member cs) := by
  rw [nextKey, skipSpaces_spaces h rfl]
  simp

theorem nextKey_comma {before after : List Char} (hbefore : Spaces before) (hafter : Spaces after)
    (cs : List Char) :
    nextKey false (before ++ ',' :: (after ++ '"' :: cs)) = .ok (.member cs) := by
  have hquote := skipSpaces_spaces hafter (c := '"') rfl cs
  rw [nextKey, skipSpaces_spaces hbefore rfl]
  simp [hquote]

theorem afterColon_colon (cs : List Char) : afterColon (':' :: cs) = .ok cs := by
  rw [afterColon, skipSpaces_cons rfl]
  rfl

/-- A member of an object as it is written. -/
def memberText (key : String) (text : List Char) : List Char :=
  quote key ++ [':', ' '] ++ text

section Objects

variable {σ : Type} {member : σ → String → Except JsonProblem (Reader σ)} {bound : Nat}
  {state final : σ} {first : Bool} {cs : List Char}

/-- Texts of members that take a reader of an object from one state to
another. -/
inductive Members (member : σ → String → Except JsonProblem (Reader σ)) :
    σ → List (List Char) → σ → Prop
  | nil (state : σ) : Members member state [] state
  | cons {state next final : σ} {key : String} {reader : Reader σ} {text : List Char}
      {texts : List (List Char)} (hmember : member state key = .ok reader)
      (hread : Reads reader text next) (hlater : Members member next texts final) :
      Members member state (memberText key text :: texts) final

theorem objectTail_closed {rest : List Char} (hnext : nextKey first cs = .ok (.closed rest))
    (h : cs.length ≤ bound) :
    ∃ p, objectTail member bound first state cs h = .ok p ∧ p.value = state ∧ p.rest = rest := by
  rw [objectTail]
  split
  · next heq => rw [hnext] at heq; cases heq
  · next heq =>
    rw [hnext] at heq
    cases heq
    exact ⟨_, rfl, rfl, rfl⟩
  · next heq => rw [hnext] at heq; cases heq

/-- One member is read, and the reader of the object goes on behind it. -/
theorem objectTail_onward {key : String} {reader : Reader σ} {text middle more rest : List Char}
    {next : σ} (hnext : nextKey first cs = .ok (.member text))
    (hkey : Yields (string .checked text) key middle) (hmember : member state key = .ok reader)
    (hcolon : afterColon middle = .ok more) (hread : Yields (reader more) next rest)
    (h : cs.length ≤ bound) (h' : rest.length ≤ bound) :
    objectTail member bound first state cs h = objectTail member bound false next rest h' := by
  obtain ⟨name, hname, rfl, rfl⟩ := hkey
  obtain ⟨p, hp, rfl, rfl⟩ := hread
  rw [objectTail]
  split
  · next heq => rw [hnext] at heq; cases heq
  · next heq => rw [hnext] at heq; cases heq
  · next heq =>
    rw [hnext] at heq
    cases heq
    simp only [hname, hmember]
    split
    · next heq => rw [hcolon] at heq; cases heq
    · next heq =>
      rw [hcolon] at heq
      cases heq
      simp only [hp]

/-- A member as it is written is one. -/
theorem objectTail_member {key : String} {reader : Reader σ} {text rest : List Char} {next : σ}
    (hnext : nextKey first cs =
      .ok (.member (key.toList.flatMap escapeChar ++ '"' :: ([':', ' '] ++ (text ++ rest)))))
    (hmember : member state key = .ok reader) (hread : Reads reader text next)
    (h : cs.length ≤ bound) (h' : rest.length ≤ bound) :
    objectTail member bound first state cs h = objectTail member bound false next rest h' := by
  have hspace : Spaces [' '] := by simp [Spaces, isSpace]
  exact objectTail_onward hnext (string_quote key _) hmember (afterColon_colon _)
    (hread [' '] rest hspace) h h'

theorem memberText_append (key : String) (text rest : List Char) :
    memberText key text ++ rest =
      '"' :: (key.toList.flatMap escapeChar ++ '"' :: ([':', ' '] ++ (text ++ rest))) := by
  simp [memberText, quote]

/-- **The further members of an object are read back.** -/
theorem objectTail_behindCommas {texts : List (List Char)}
    (hmembers : Members member state texts final) (depth : Nat) {spaces : List Char}
    (hspaces : Spaces spaces) (rest : List Char)
    (h : (behindCommas depth texts ++ (spaces ++ '}' :: rest)).length ≤ bound) :
    ∃ p, objectTail member bound false state
        (behindCommas depth texts ++ (spaces ++ '}' :: rest)) h = .ok p ∧
      p.value = final ∧ p.rest = rest := by
  induction hmembers with
  | nil => exact objectTail_closed (nextKey_closing hspaces _ rest) h
  | @cons state next final key reader text texts hmember hread hlater ih =>
    -- The bound is that of the whole object, so what is left of it fits as well.
    let later := behindCommas depth texts ++ (spaces ++ '}' :: rest)
    have hsplit : behindCommas depth (memberText key text :: texts) ++ (spaces ++ '}' :: rest) =
        ',' :: (newLine depth ++
          '"' :: (key.toList.flatMap escapeChar ++ '"' :: ([':', ' '] ++ (text ++ later)))) := by
      simp [behindCommas, memberText, quote, later]
    have hbound : later.length ≤ bound := by
      rw [hsplit] at h
      simp only [List.length_cons, List.length_append] at h
      omega
    obtain ⟨p, hp, hvalue, hrest⟩ := ih hbound
    refine ⟨p, ?_, hvalue, hrest⟩
    rw [← hp]
    simp only [hsplit]
    have hnext := nextKey_comma spaces_nil (spaces_newLine depth)
    exact objectTail_member (hnext _) hmember hread _ hbound

theorem objectTail_block {texts : List (List Char)} (hmembers : Members member state texts final)
    (depth : Nat) (rest : List Char) {body : List Char}
    (hbody : block '{' '}' depth texts ++ rest = '{' :: body) (h : body.length ≤ bound) :
    ∃ p, objectTail member bound true state body h = .ok p ∧ p.value = final ∧ p.rest = rest := by
  cases hmembers with
  | nil =>
    obtain rfl : '}' :: rest = body := (List.cons.inj hbody).2
    exact objectTail_closed (nextKey_closing spaces_nil _ rest) h
  | @cons _ next _ key reader text texts hmember hread hlater =>
    let later := behindCommas (depth + 1) texts ++ (newLine depth ++ '}' :: rest)
    have hsplit : body = newLine (depth + 1) ++
        '"' :: (key.toList.flatMap escapeChar ++ '"' :: ([':', ' '] ++ (text ++ later))) := by
      rw [block_cons] at hbody
      rw [← (List.cons.inj hbody).2, memberText_append]
    have hbound : later.length ≤ bound := by
      rw [hsplit] at h
      simp only [List.length_cons, List.length_append] at h
      omega
    obtain ⟨p, hp, hvalue, hrest⟩ :=
      objectTail_behindCommas hlater (depth + 1) (spaces_newLine depth) rest hbound
    refine ⟨p, ?_, hvalue, hrest⟩
    rw [← hp]
    simp only [hsplit]
    exact objectTail_member (nextKey_first (spaces_newLine (depth + 1)) _) hmember hread _ hbound

/-- **A written object is read back.** -/
theorem reads_objectValue {texts : List (List Char)} (hmembers : Members member state texts final)
    (depth : Nat) : Reads (objectValue member state) (block '{' '}' depth texts) final := by
  intro spaces rest hspaces
  obtain ⟨body, hbody⟩ := block_eq_cons '{' '}' depth texts rest
  have hskip := skipSpaces_spaces hspaces (c := '{') rfl body
  rw [hbody]
  unfold objectValue
  split
  · next heq => exact absurd (hskip.symm.trans heq) (by simp)
  · next c more heq =>
    obtain ⟨rfl, rfl⟩ := List.cons.inj (hskip.symm.trans heq)
    rw [if_pos rfl]
    exact objectTail_block hmembers depth rest hbody _

/-- A record is written as an object. -/
theorem reads_recordValue {texts : List (List Char)} (hmembers : Members member state texts final)
    (fields : Reader σ) (depth : Nat) :
    Reads (recordValue member state fields) (block '{' '}' depth texts) final := by
  intro spaces rest hspaces
  obtain ⟨body, hbody⟩ := block_eq_cons '{' '}' depth texts rest
  have hskip := skipSpaces_spaces hspaces (c := '{') rfl body
  rw [hbody]
  unfold recordValue
  split
  · next heq => exact absurd (hskip.symm.trans heq) (by simp)
  · next c more heq =>
    obtain ⟨rfl, rfl⟩ := List.cons.inj (hskip.symm.trans heq)
    simp only [if_true]
    exact objectTail_block hmembers depth rest hbody _

end Objects

/-- A text that holds one written value is read as that value. -/
theorem readAll_of_reads {α : Type} {reader : Reader α} {text : List Char} {value : α}
    (h : Reads reader text value) : readAll reader (String.ofList text) = .ok value := by
  have hread : ∀ cs, cs = [] ++ (text ++ []) →
      ∃ p, reader cs = .ok p ∧ p.value = value ∧ p.rest = [] := by
    rintro _ rfl
    exact h [] [] spaces_nil
  obtain ⟨p, hp, hvalue, hrest⟩ := hread (String.ofList text).toList (by simp)
  rw [readAll, hp]
  simp only [hvalue, hrest]
  rfl

end Json

end ShardStore

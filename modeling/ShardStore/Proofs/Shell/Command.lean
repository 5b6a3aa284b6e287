import ShardStore.Shell.Command
import ShardStore.Proofs.Statement.Reading
import ShardStore.Proofs.Text.Size
import ShardStore.Proofs.Text.Words
/-!
# Shell — commands are recovered from their texts

A command is written by its keyword and its arguments, with blanks between
them (`Command.parts`). What is asked of the arguments is only that each is one
word, and that a name in a group holds no comma (`Command.Expressible`); then
the text is taken for the command, since no test before the one of its keyword
is met (`parse_of_spaced`). A statement starts with one of two words that no
other command starts with, so it is never taken for another command
(`parse_of_statement`).
-/

namespace ShardStore

open Text

namespace Shell

namespace Command

variable {cs rest table : List Char} {names : List String} {text : String}

/-! ## Groups of names -/

/-- The text of a group: its names, with a comma between each two. -/
def groupText (names : List String) : List Char :=
  [','].intercalate (names.map String.toList)

/-- A group that a word can write: one or more names, each of which is a word
without commas. -/
structure IsGroup (names : List String) : Prop where
  nonempty : names ≠ []
  words : ∀ name ∈ names, IsWord name.toList
  commas : ∀ name ∈ names, ',' ∉ name.toList

/-- **The names of a group are read off its text.** -/
theorem group_groupText (h : IsGroup names) : group (groupText names) = names := by
  have hsplit : (groupText names).splitOn ',' = names.map String.toList := by
    refine List.splitOn_intercalate _ ?_ (by simpa using h.nonempty)
    simpa using h.commas
  have htrim : (names.map String.toList).map trim = names.map String.toList := by
    rw [List.map_map]
    exact List.map_congr_left fun name hname => (h.words name hname).trimmed.trim_eq
  have hfilter : (names.map String.toList).filter (! ·.isEmpty) = names.map String.toList := by
    refine List.filter_eq_self.2 fun cs hcs => ?_
    obtain ⟨name, hname, rfl⟩ := List.mem_map.1 hcs
    simpa using (h.words name hname).nonempty
  rw [group, hsplit, htrim, hfilter, List.map_map]
  simp

theorem solid_groupText (h : ∀ name ∈ names, IsWord name.toList) :
    ∀ c ∈ groupText names, isBlank c = false := by
  induction names with
  | nil => simp [groupText]
  | cons name names ih =>
    obtain ⟨hname, hmore⟩ := List.forall_mem_cons.1 h
    cases names with
    | nil => simpa [groupText] using hname.solid
    | cons next names =>
      have hsplit : groupText (name :: next :: names) =
          name.toList ++ (',' :: groupText (next :: names)) := by
        simp [groupText, List.intercalate_cons_cons]
      intro c hc
      rw [hsplit, List.mem_append, List.mem_cons] at hc
      rcases hc with hc | rfl | hc
      · exact hname.solid c hc
      · decide
      · exact ih hmore c hc

/-- The text of a group is one word. -/
theorem isWord_groupText (h : IsGroup names) : IsWord (groupText names) where
  nonempty hnil := by
    have hgroup := group_groupText h
    rw [hnil] at hgroup
    exact h.nonempty hgroup.symm
  solid := solid_groupText h.words

/-! ## Commands and their texts -/

/-- **The words that write a command**: its keyword, and then its arguments.
The keyword of the two splits has a space within. -/
def parts : Command → List (List Char)
  | statement text => [text.toList]
  | scaleHorizontally table size =>
    "HORIZONTAL SCALING".toList :: table.toList :: (size.map fun n => n.repr.toList).toList
  | scaleVertically table groups =>
    "VERTICAL SCALING".toList :: table.toList :: groups.map groupText
  | createTable table columns => [".create".toList, table.toList, groupText columns]
  | listTables => [".tables".toList]
  | help => [".help".toList]
  | quit => ["exit".toList]
  | unsupported text => [text.toList]

/-- **The commands that a text can write.** -/
def Expressible : Command → Prop
  | statement text => Trimmed text.toList ∧
    ("SELECT".toList <+: text.toList ∨ "INSERT".toList <+: text.toList)
  | scaleHorizontally table size => IsWord table.toList ∧ ∀ n ∈ size, n < 2 ^ 64
  | scaleVertically table groups => IsWord table.toList ∧ ∀ names ∈ groups, IsGroup names
  | createTable table columns => IsWord table.toList ∧ IsGroup columns
  | listTables | help | quit => True
  | unsupported _ => False

/-! ## The tests before a command -/

theorem afterKeyword?_append (keyword : String) (hrest : ∀ c ∈ rest.head?, isBlank c = true) :
    afterKeyword? keyword (keyword.toList ++ rest) = some rest := by
  rw [afterKeyword?, after?_eq_some_iff.2 rfl]
  cases rest with
  | nil => rfl
  | cons c rest => exact if_pos (hrest c rfl)

theorem trimmed_keyword {front back : List Char} (hfront : IsWord front) (hback : IsWord back) :
    Trimmed (front ++ (' ' :: back)) :=
  hfront.trimmed.between hfront.nonempty [' '] hback.trimmed hback.nonempty

/-- Behind the keyword of a horizontal split are a table, and perhaps a
size. -/
theorem ofTrimmed_horizontal (hrest : ∀ c ∈ rest.head?, isBlank c = true) :
    ofTrimmed ("HORIZONTAL SCALING".toList ++ rest) =
      match words rest with
      | [table] => scaleHorizontally (String.ofList table) none
      | [table, size] =>
        match readSize? size with
        | some n => scaleHorizontally (String.ofList table) (some n)
        | none => unsupported (String.ofList ("HORIZONTAL SCALING".toList ++ rest))
      | _ => unsupported (String.ofList ("HORIZONTAL SCALING".toList ++ rest)) := by
  have hexit : sameLetters ("HORIZONTAL SCALING".toList ++ rest) "exit".toList = false := rfl
  have hselect : after? "SELECT".toList ("HORIZONTAL SCALING".toList ++ rest) = none := rfl
  have hinsert : after? "INSERT".toList ("HORIZONTAL SCALING".toList ++ rest) = none := rfl
  unfold ofTrimmed
  rw [hexit, hselect, hinsert, afterKeyword?_append _ hrest]
  rfl

theorem trimmed_horizontal : Trimmed "HORIZONTAL SCALING".toList :=
  show Trimmed ("HORIZONTAL".toList ++ (' ' :: "SCALING".toList)) from
    trimmed_keyword (by decide) (by decide)

theorem parse_horizontal (htable : IsWord table)
    (h : Spaced ["HORIZONTAL SCALING".toList, table] text.toList) :
    parse text = scaleHorizontally (String.ofList table) none := by
  obtain ⟨rest, htrim, hrest, hwords⟩ :=
    h.trim_eq trimmed_horizontal (by decide) (List.forall_mem_singleton.2 htable)
  rw [parse, htrim, ofTrimmed_horizontal hrest, hwords]

/-- A word behind the table that is no size makes the text unsupported. -/
theorem parse_horizontal_size {size : List Char} (htable : IsWord table) (hsize : IsWord size)
    (h : Spaced ["HORIZONTAL SCALING".toList, table, size] text.toList) :
    parse text =
      match readSize? size with
      | some n => scaleHorizontally (String.ofList table) (some n)
      | none => unsupported (trimmed text) := by
  obtain ⟨rest, htrim, hrest, hwords⟩ := h.trim_eq trimmed_horizontal (by decide)
    (List.forall_mem_cons.2 ⟨htable, List.forall_mem_singleton.2 hsize⟩)
  rw [parse, trimmed, htrim, ofTrimmed_horizontal hrest, hwords]

/-- Behind that of a vertical split are a table and the groups. -/
theorem parse_vertical {table : List Char} {groups : List (List Char)} (htable : IsWord table)
    (hgroups : ∀ part ∈ groups, IsWord part)
    (h : Spaced ("VERTICAL SCALING".toList :: table :: groups) text.toList) :
    parse text = scaleVertically (String.ofList table) (groups.map group) := by
  have hkeyword : Trimmed ("VERTICAL".toList ++ (' ' :: "SCALING".toList)) :=
    trimmed_keyword (by decide) (by decide)
  obtain ⟨rest, htrim, hrest, hwords⟩ :=
    h.trim_eq hkeyword (by decide) (List.forall_mem_cons.2 ⟨htable, hgroups⟩)
  have hexit : sameLetters ("VERTICAL SCALING".toList ++ rest) "exit".toList = false := rfl
  have hselect : after? "SELECT".toList ("VERTICAL SCALING".toList ++ rest) = none := rfl
  have hinsert : after? "INSERT".toList ("VERTICAL SCALING".toList ++ rest) = none := rfl
  have hother : afterKeyword? "HORIZONTAL SCALING" ("VERTICAL SCALING".toList ++ rest) = none := rfl
  rw [parse, htrim]
  unfold ofTrimmed
  rw [hexit, hselect, hinsert, hother, afterKeyword?_append _ hrest]
  simp only [hwords]
  rfl

theorem ofTrimmed_dot (rest : List Char) : ofTrimmed ('.' :: rest) = ofDotText ('.' :: rest) := by
  have hexit : sameLetters ('.' :: rest) "exit".toList = false := rfl
  unfold ofTrimmed
  rw [hexit]
  rfl

/-- **What starts as a statement is left to the statement reader.** -/
theorem ofTrimmed_statement (h : "SELECT".toList <+: cs ∨ "INSERT".toList <+: cs) :
    ofTrimmed cs = statement (String.ofList cs) := by
  rcases h with ⟨rest, rfl⟩ | ⟨rest, rfl⟩
  · rfl
  · rfl

/-! ## Recovering a command -/

/-- The words of a dot command decide what it is. -/
theorem parse_dot {word : List Char} {arguments : List (List Char)}
    (h : Spaced (word :: arguments) text.toList) (hword : IsWord word)
    (hdot : word.head? = some '.') (harguments : ∀ part ∈ arguments, IsWord part) :
    parse text = ofDotText (trim text.toList) ∧ words (trim text.toList) = word :: arguments := by
  obtain ⟨rest, htrim, -, -⟩ := h.trim_eq hword.trimmed hword.nonempty harguments
  obtain ⟨more, rfl⟩ := List.head?_eq_some_iff.1 hdot
  refine ⟨?_, ?_⟩
  · rw [parse, htrim, List.cons_append, ofTrimmed_dot]
  · rw [words_trim, h.words_eq (List.forall_mem_cons.2 ⟨hword, harguments⟩)]

/-- **A command is recovered from every text of it.** -/
theorem parse_of_spaced {command : Command} (h : command.Expressible)
    (hspaced : Spaced command.parts text.toList) : parse text = command := by
  cases command with
  | statement content =>
    obtain ⟨htrimmed, hstart⟩ := h
    have hne : content.toList ≠ [] := by
      intro hnil
      rw [hnil] at hstart
      rcases hstart with hstart | hstart
      · cases List.prefix_nil.1 hstart
      · cases List.prefix_nil.1 hstart
    rw [parse, hspaced.trim_single htrimmed hne, ofTrimmed_statement hstart, String.ofList_toList]
  | scaleHorizontally table size =>
    obtain ⟨htable, hsize⟩ := h
    cases size with
    | none => rw [parse_horizontal htable hspaced, String.ofList_toList]
    | some n =>
      have hread : readSize? n.repr.toList = some n :=
        readSize?_eq_some_iff.2 (sizeText_repr_iff.2 ⟨rfl, hsize n rfl⟩)
      rw [parse_horizontal_size htable (isWord_repr n) hspaced, hread, String.ofList_toList]
  | scaleVertically table groups =>
    obtain ⟨htable, hgroups⟩ := h
    have hwords : ∀ part ∈ groups.map groupText, IsWord part := by
      simpa using fun names hnames => isWord_groupText (hgroups names hnames)
    have hback : (groups.map groupText).map group = groups := by
      have hsame : ∀ names ∈ groups, (group ∘ groupText) names = id names := fun names hnames =>
        group_groupText (hgroups names hnames)
      rw [List.map_map, List.map_congr_left hsame, List.map_id]
    rw [parse_vertical htable hwords hspaced, hback, String.ofList_toList]
  | createTable table columns =>
    obtain ⟨htable, hcolumns⟩ := h
    have harguments : ∀ part ∈ [table.toList, groupText columns], IsWord part :=
      List.forall_mem_cons.2 ⟨htable, List.forall_mem_singleton.2 (isWord_groupText hcolumns)⟩
    obtain ⟨hparse, hwords⟩ := parse_dot hspaced (by decide) rfl harguments
    rw [hparse, ofDotText, hwords]
    simp [group_groupText hcolumns]
  | listTables | help =>
    obtain ⟨hparse, hwords⟩ := parse_dot hspaced (by decide) rfl (by simp)
    rw [hparse, ofDotText, hwords]
    rfl
  | quit =>
    have hexit : IsWord "exit".toList := by decide
    rw [parse, hspaced.trim_single hexit.trimmed hexit.nonempty]
    rfl
  | unsupported => exact h.elim

/-! ## Statements -/

/-- Blank edges are no part of a command. -/
theorem parse_trimmed (text : String) : parse (trimmed text) = parse text := by
  rw [parse, parse, trimmed, String.toList_ofList, (trimmed_trim text.toList).trim_eq]

/-- A statement starts with the word of its kind. -/
theorem prefix_of_begins {statement : Statement} (h : Statement.Begins cs statement rest) :
    "SELECT".toList <+: cs ∨ "INSERT".toList <+: cs := by
  cases h with
  | select hheading =>
    obtain ⟨-, -, -, -, -⟩ := hheading
    exact .inl ⟨_, (List.append_assoc _ _ _).symm⟩
  | filtered hheading =>
    obtain ⟨-, -, -, -, -⟩ := hheading
    exact .inl ⟨_, (List.append_assoc _ _ _).symm⟩
  | insert hinsert =>
    obtain ⟨-, -, -, -, -, -, -, -⟩ := hinsert
    exact .inr ⟨_, (List.append_assoc _ _ _).symm⟩

/-- **No statement is taken for another command.** -/
theorem parse_of_statement {content : Statement} (h : Statement.parse text = .ok content) :
    parse text = statement (trimmed text) := by
  have hverdict := Statement.verdict_parse text
  rw [h] at hverdict
  obtain ⟨hbegins, -⟩ := hverdict
  exact ofTrimmed_statement (prefix_of_begins hbegins)

/-- **Every command that a text can write is recovered from all its texts, and
no statement is taken for one of them**; a word in the place of a size that is
none makes the text unsupported, and blank edges change nothing. -/
theorem recovers_every_command :
    (∀ (command : Command) (text : String), command.Expressible →
      Spaced command.parts text.toList → parse text = command) ∧
    (∀ (table size : List Char) (text : String), IsWord table → IsWord size →
      (∀ n, ¬ SizeText size n) → Spaced ["HORIZONTAL SCALING".toList, table, size] text.toList →
        parse text = unsupported (trimmed text)) ∧
    (∀ n, 2 ^ 64 ≤ n → ∀ m, ¬ SizeText n.repr.toList m) ∧
    (∀ text, parse text = parse (trimmed text)) ∧
    (∀ text content, Statement.parse text = .ok content →
      parse text = statement (trimmed text)) := by
  refine ⟨fun _ _ => parse_of_spaced, fun table size text htable hsize hnone hspaced => ?_,
    fun n hn m hm => ?_, fun text => (parse_trimmed text).symm, fun _ _ => parse_of_statement⟩
  · have hread : readSize? size = none :=
      Option.eq_none_iff_forall_ne_some.2 fun n hsome => hnone n (readSize?_eq_some_iff.1 hsome)
    rw [parse_horizontal_size htable hsize hspaced, hread]
  · exact absurd (sizeText_repr_iff.1 hm).2 (not_lt.2 hn)

/-- The greatest size behind a table that looks like a quoted word, the next
number, which is no size, and a statement that is followed by blanks. -/
theorem recovers_every_command_greatest_size :
    let greatest : Command := scaleHorizontally "'t;" (some 18446744073709551615)
    greatest.Expressible ∧
      Spaced greatest.parts " HORIZONTAL SCALING\u3000't;\t18446744073709551615 ".toList ∧
      parse " HORIZONTAL SCALING\u3000't;\t18446744073709551615 " = greatest ∧
      parse "HORIZONTAL SCALING t 18446744073709551616 " =
        unsupported (trimmed "HORIZONTAL SCALING t 18446744073709551616 ") ∧
      parse "SELECT * FROM t " = statement (trimmed "SELECT * FROM t ") := by
  intro greatest
  have hgreatest : greatest.Expressible := ⟨by decide, fun n hn => by cases hn; decide⟩
  have hwords : words "\u3000't;\t18446744073709551615 ".toList =
      ["'t;".toList, (18446744073709551615).repr.toList] := by decide +kernel
  have htext : " HORIZONTAL SCALING\u3000't;\t18446744073709551615 ".toList =
      [' '] ++ ("HORIZONTAL SCALING".toList ++ "\u3000't;\t18446744073709551615 ".toList) := by
    decide +kernel
  have hspaced : Spaced greatest.parts
      " HORIZONTAL SCALING\u3000't;\t18446744073709551615 ".toList := by
    rw [htext]
    exact .part rfl (fun c hc => by cases hc; rfl) (words_eq_iff.1 hwords).1
  have hwords' : words " t 18446744073709551616 ".toList =
      ["t".toList, (18446744073709551616).repr.toList] := by decide +kernel
  have htext' : "HORIZONTAL SCALING t 18446744073709551616 ".toList =
      [] ++ ("HORIZONTAL SCALING".toList ++ " t 18446744073709551616 ".toList) := by decide +kernel
  have hspaced' : Spaced ["HORIZONTAL SCALING".toList, "t".toList,
      (18446744073709551616).repr.toList] "HORIZONTAL SCALING t 18446744073709551616 ".toList := by
    rw [htext']
    exact .part rfl (fun c hc => by cases hc; rfl) (words_eq_iff.1 hwords').1
  have hparse : Statement.parse "SELECT * FROM t " = .ok (.select ⟨[], "t", none⟩) := by
    decide +kernel
  obtain ⟨hrecovered, hrefused, hbound, -, hstatement⟩ := recovers_every_command
  exact ⟨hgreatest, hspaced, hrecovered _ _ hgreatest hspaced,
    hrefused _ _ _ (by decide) (isWord_repr _) (hbound _ (by decide)) hspaced',
    hstatement _ _ hparse⟩

end Command

end Shell

end ShardStore

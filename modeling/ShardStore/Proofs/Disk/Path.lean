import ShardStore.Disk.Path
/-!
# Disk — the path of a name in a directory

Whatever the text of a directory is, its path with a name joined to it
takes the steps of the directory and then the name (`steps_join`), and it
asks for nothing at its end. So two names in one directory are told apart
by the name alone.
-/

namespace ShardStore

namespace Path

/-- The steps that the text of a path takes, whether it can be parsed or
not. -/
def stepsOf (text : String) : List String :=
  (pieces text).filter fun step => step != "" && step != "."

/-- How the text of a path ends, whether it can be parsed or not. -/
def endingOf (text : String) : PathEnd :=
  if ((pieces text).filter (· != "")).getLast? = some "." then .dot
  else if (pieces text).getLast? = some "" then .slash
  else .step

/-- A single step, and none that leads elsewhere. -/
structure IsName (name : String) : Prop where
  slash : '/' ∉ name.toList
  nonempty : name ≠ ""
  dot : name ≠ "."
  dots : name ≠ ".."

variable {text directory name : String} {path : Path}

/-- What can be parsed, and the start and the steps it is parsed to. -/
theorem parse_eq_ok (h : parse text = .ok path) :
    '\x00' ∉ text.toList ∧ text ≠ "" ∧ text.utf8ByteSize < maxLength ∧
      path.absolute = decide (text.toList.head? = some '/') ∧ path.steps = stepsOf text := by
  unfold parse at h
  split at h
  · cases h
  · next hnul =>
    split at h
    · cases h
    · next hempty =>
      split at h
      · cases h
      · next hlength =>
        cases h
        refine ⟨hnul, ?_, Nat.lt_of_not_le hlength, rfl, rfl⟩
        rintro rfl
        exact hempty rfl

theorem ending_of_parse (h : parse text = .ok path) : path.ending = endingOf text := by
  unfold parse at h
  repeat' split at h
  all_goals cases h
  rfl

theorem parse_isOk (hnul : '\x00' ∉ text.toList) (hempty : text ≠ "")
    (hlength : text.utf8ByteSize < maxLength) : ∃ path, parse text = .ok path := by
  have hne : ¬ text.toList.isEmpty = true := by simpa using hempty
  unfold parse
  rw [if_neg hnul, if_neg hne, if_neg (Nat.not_le_of_lt hlength)]
  exact ⟨_, rfl⟩

/-! ## Joining a name -/

/-- A single step of more characters than two dots have. -/
theorem isName_of_length (hslash : '/' ∉ name.toList) (hlength : 2 < name.toList.length) :
    IsName name := by
  refine ⟨hslash, ?_, ?_, ?_⟩
  all_goals
    rintro rfl
    revert hlength
    decide

theorem head?_ne_slash (h : IsName name) : name.toList.head? ≠ some '/' := by
  intro hhead
  exact h.slash (List.mem_of_mem_head? hhead)

/-- A name is the last piece of its path, and the pieces in front of it take
the steps of the directory. -/
theorem pieces_join (directory : String) (h : IsName name) :
    ∃ front, pieces (join directory name) = front ++ [name] ∧
      front.filter (fun step => step != "" && step != ".") = stepsOf directory := by
  have hsingle : name.toList.splitOn '/' = [name.toList] := List.splitOn_eq_singleton h.slash
  unfold join
  rw [if_neg (head?_ne_slash h)]
  split
  · next hempty =>
    -- The directory without a name.
    have hdirectory : directory.toList = [] := by simpa using hempty
    refine ⟨[], by simp [pieces, hsingle], ?_⟩
    rw [stepsOf, pieces, hdirectory]
    rfl
  · split
    · next hlast =>
      -- A slash at the end leaves an empty piece, which is no step.
      obtain ⟨front, hfront⟩ := List.getLast?_eq_some_iff.mp hlast
      refine ⟨(front.splitOn '/').map String.ofList, ?_, ?_⟩
      · rw [pieces, String.toList_append, hfront, List.append_assoc, List.singleton_append,
          List.splitOn_append_cons_self, hsingle]
        simp
      · rw [stepsOf, pieces, hfront, List.splitOn_append_cons_self]
        simp
    · refine ⟨pieces directory, ?_, rfl⟩
      rw [pieces, String.toList_append, String.toList_append,
        show "/".toList = ['/'] from rfl, List.append_assoc, List.singleton_append,
        List.splitOn_append_cons_self, hsingle]
      simp [pieces]

/-- **The path of a name takes the steps of the directory and then the
name.** -/
theorem steps_join (h : IsName name) :
    stepsOf (join directory name) = stepsOf directory ++ [name] := by
  obtain ⟨front, hpieces, hfront⟩ := pieces_join directory h
  rw [stepsOf, hpieces, List.filter_append, hfront]
  simp [h.nonempty, h.dot]

theorem head?_join (h : IsName name) :
    (join directory name).toList.head? = some '/' ↔ directory.toList.head? = some '/' := by
  have hhead := head?_ne_slash h
  unfold join
  rw [if_neg hhead]
  cases hdirectory : directory.toList with
  | nil => simpa using hhead
  | cons c cs =>
    simp only [List.isEmpty_cons, Bool.false_eq_true, if_false]
    split <;> simp [hdirectory]

/-- **And it is parsed as those steps**, if it can be parsed. -/
theorem parse_join (h : IsName name) (hparse : parse (join directory name) = .ok path) :
    path = ⟨decide (directory.toList.head? = some '/'), stepsOf directory ++ [name], .step⟩ := by
  obtain ⟨-, -, -, habsolute, hsteps⟩ := parse_eq_ok hparse
  obtain ⟨front, hpieces, -⟩ := pieces_join directory h
  have hending : path.ending = .step := by
    rw [ending_of_parse hparse]
    simp [endingOf, hpieces, h.nonempty, h.dot]
  obtain ⟨absolute, steps, ending⟩ := path
  simp only [steps_join h, head?_join h] at hending habsolute hsteps
  rw [habsolute, hsteps, hending]

theorem join_eq_append (h : IsName name) (hdirectory : directory ≠ "") :
    ∃ rest, join directory name = directory ++ rest := by
  have hne : ¬ directory.toList.isEmpty = true := by simpa using hdirectory
  unfold join
  rw [if_neg (head?_ne_slash h), if_neg hne]
  split
  · exact ⟨name, rfl⟩
  · exact ⟨"/" ++ name, String.append_assoc ..⟩

/-- A directory can be parsed if the path of some name in it can, unless it
is the one without a name. -/
theorem parse_of_join (h : IsName name) (hdirectory : directory ≠ "")
    (hparse : parse (join directory name) = .ok path) : ∃ home, parse directory = .ok home := by
  obtain ⟨rest, hrest⟩ := join_eq_append h hdirectory
  obtain ⟨hnul, -, hlength, -, -⟩ := parse_eq_ok hparse
  rw [hrest, String.toList_append, List.mem_append, not_or] at hnul
  rw [hrest, String.utf8ByteSize_append] at hlength
  exact parse_isOk hnul.1 hdirectory (by omega)

/-- A path without steps names the root, or asks for what is there by a
dot. -/
theorem absolute_or_dot (h : parse text = .ok path) (hsteps : path.steps = []) :
    path.absolute = true ∨ path.ending = .dot := by
  obtain ⟨-, hempty, -, habsolute, hstepsOf⟩ := parse_eq_ok h
  rw [habsolute]
  by_cases hslash : text.toList.head? = some '/'
  · exact .inl (by simpa using hslash)
  · right
    -- The first piece is not empty, so it is a dot, as are all others that are not empty.
    have hnodrop : (pieces text).filter (· != "") ≠ [] := by
      cases hchars : text.toList with
      | nil => exact absurd (by simpa using hchars) hempty
      | cons c cs =>
        have hc : (c == '/') = false := by simpa [hchars] using hslash
        have hfirst : (c :: cs).splitOn '/' = (cs.splitOn '/').modifyHead (c :: ·) := by
          rw [List.splitOn_cons_eq_if_modifyHead, if_neg (by simp [hc])]
        cases hmore : cs.splitOn '/' with
        | nil => exact absurd hmore (List.splitOn_ne_nil _ _)
        | cons d ds => simp [pieces, hchars, hfirst, hmore]
    have hdots : ∀ step ∈ (pieces text).filter (· != ""), step = "." := by
      intro step hstep
      obtain ⟨hmem, hne⟩ := List.mem_filter.mp hstep
      refine Decidable.byContradiction fun hdot => ?_
      have hin : step ∈ stepsOf text := List.mem_filter.mpr ⟨hmem, by simpa [hdot] using hne⟩
      rw [← hstepsOf, hsteps] at hin
      cases hin
    have hlast : ((pieces text).filter (· != "")).getLast? = some "." := by
      rw [List.getLast?_eq_some_getLast hnodrop]
      exact congrArg some (hdots _ (List.getLast_mem hnodrop))
    rw [ending_of_parse h, endingOf, if_pos hlast]

end Path

end ShardStore

import Mathlib.Data.List.DropRight
import ShardStore.Shell.Box
/-!
# Shell — framed lines

A framed line has joints at its two ends and between its segments (`framed`).
Where the joints stand is told by the lengths of the segments alone
(`jointsAt`), so lines whose segments have the same lengths have their joints
at the same places, and a line is cut into its segments there
(`exists_between_jointsAt`).
-/

namespace ShardStore

namespace Shell

/-- A line of segments, with joints at both ends and between them. -/
def framed (left middle right : Char) (segments : List (List Char)) : List Char :=
  left :: ([middle].intercalate segments ++ [right])

/-- The places of joints with segments of these lengths between them, the
first of which is `start`. -/
def jointsFrom (start : ℕ) : List ℕ → List ℕ
  | [] => [start]
  | width :: widths => start :: jointsFrom (start + width + 1) widths

/-- The places of the joints of a line with segments of these lengths. A line
without segments has its two ends still. -/
def jointsAt : List ℕ → List ℕ
  | [] => [0, 1]
  | width :: widths => jointsFrom 0 (width :: widths)

/-- The characters of a line between two places. -/
def between (line : List Char) (left right : ℕ) : List Char :=
  (line.take right).drop (left + 1)

/-- What a line has between each of `places` and the next one. -/
def cutAt (places : List ℕ) (line : List Char) : List (List Char) :=
  List.zipWith (between line) places places.tail

variable {left middle right : Char} {segments : List (List Char)} {segment : List Char} {i : ℕ}

theorem framed_nil : framed left middle right [] = [left, right] :=
  rfl

theorem framed_singleton (segment : List Char) :
    framed left middle right [segment] = left :: (segment ++ [right]) := by
  rw [framed, List.intercalate_singleton]

/-- Behind its first segment a line goes on as a line. -/
theorem framed_cons_cons (segment next : List Char) (segments : List (List Char)) :
    framed left middle right (segment :: next :: segments) =
      left :: (segment ++ framed middle middle right (next :: segments)) := by
  simp [framed, List.intercalate_cons_cons]

theorem length_jointsFrom (start : ℕ) (widths : List ℕ) :
    (jointsFrom start widths).length = widths.length + 1 := by
  induction widths generalizing start with
  | nil => rfl
  | cons width widths ih => rw [jointsFrom, List.length_cons, ih, List.length_cons]

theorem length_jointsAt (widths : List ℕ) :
    (jointsAt widths).length = max widths.length 1 + 1 := by
  cases widths with
  | nil => rfl
  | cons width widths => rw [jointsAt, length_jointsFrom, List.length_cons]; omega

/-! ## Where joints stand -/

theorem head?_jointsFrom (start : ℕ) (widths : List ℕ) :
    (jointsFrom start widths).head? = some start := by
  cases widths <;> rfl

/-- A segment stands between the joint of its number and the next one. -/
theorem exists_eq_append_segment (left middle right : Char) (start : ℕ)
    (h : segments[i]? = some segment) :
    ∃ before joint after, framed left middle right segments = before ++ joint :: (segment ++ after) ∧
      (jointsFrom start (segments.map List.length))[i]? = some (start + before.length) ∧
      (jointsFrom start (segments.map List.length))[i + 1]? =
        some (start + before.length + segment.length + 1) := by
  induction segments generalizing left start i with
  | nil => simp at h
  | cons first segments ih =>
    rcases i with _ | i
    · obtain rfl := Option.some.inj h
      have hnext : (jointsFrom (start + first.length + 1) (segments.map List.length))[0]? =
          some (start + first.length + 1) := by
        rw [← List.head?_eq_getElem?, head?_jointsFrom]
      rcases segments with _ | ⟨next, segments⟩
      · exact ⟨[], left, [right], framed_singleton first, rfl, hnext⟩
      · exact ⟨[], left, _, framed_cons_cons first next segments, rfl, hnext⟩
    · rw [List.getElem?_cons_succ] at h
      obtain ⟨before, joint, after, hline, hleft, hright⟩ :=
        ih middle (start + first.length + 1) h
      rcases segments with _ | ⟨next, segments⟩
      · simp at h
      · refine ⟨left :: (first ++ before), joint, after, ?_, ?_, ?_⟩
        · rw [framed_cons_cons, hline]
          simp
        · rw [List.map_cons, jointsFrom, List.getElem?_cons_succ, hleft]
          simp only [List.length_cons, List.length_append, Option.some.injEq]
          omega
        · rw [List.map_cons, jointsFrom, List.getElem?_cons_succ, hright]
          simp only [List.length_cons, List.length_append, Option.some.injEq]
          omega

/-- **A line is cut into its segments at its joints.** -/
theorem exists_between_jointsAt (left middle right : Char) (h : segments[i]? = some segment) :
    ∃ place,
    (jointsAt (segments.map List.length))[i]? = some place ∧
      (jointsAt (segments.map List.length))[i + 1]? = some (place + segment.length + 1) ∧
      between (framed left middle right segments) place (place + segment.length + 1) = segment := by
  obtain ⟨before, joint, after, hline, hleft, hright⟩ :=
    exists_eq_append_segment left middle right 0 h
  have hjoints : jointsAt (segments.map List.length) =
      jointsFrom 0 (segments.map List.length) := by
    rcases segments with _ | ⟨first, segments⟩
    · simp at h
    · rfl
  rw [hjoints]
  rw [Nat.zero_add] at hleft hright
  refine ⟨before.length, hleft, hright, ?_⟩
  have hfront : before ++ joint :: (segment ++ after) = (before ++ [joint]) ++ (segment ++ after) := by
    simp
  have hlength : before.length + segment.length + 1 = (before ++ [joint]).length + segment.length := by
    simp only [List.length_append, List.length_singleton]
    omega
  rw [between, hline, hfront, hlength, List.take_length_add_append, List.take_left,
    List.drop_append_of_le_length, List.drop_of_length_le, List.nil_append]
  all_goals simp

/-- **All segments come back.** -/
theorem take_cutAt_framed :
    (cutAt (jointsAt (segments.map List.length)) (framed left middle right segments)).take
      segments.length = segments := by
  refine List.ext_getElem? fun i => ?_
  rw [List.getElem?_take]
  cases h : segments[i]? with
  | none => rw [if_neg (by simpa using h)]
  | some segment =>
    obtain ⟨place, hplace, hnext, hbetween⟩ := exists_between_jointsAt left middle right h
    rw [if_pos (List.getElem?_eq_some_iff.1 h).1, cutAt, List.getElem?_zipWith, List.getElem?_tail,
      hplace, hnext]
    exact congrArg some hbetween

/-- The first joint begins a line. -/
theorem head?_jointsAt (widths : List ℕ) : (jointsAt widths).head? = some 0 := by
  cases widths <;> rfl

theorem getLast?_jointsFrom (left middle right : Char) (start : ℕ) (hne : segments ≠ []) :
    (jointsFrom start (segments.map List.length)).getLast? =
      some (start + (framed left middle right segments).length - 1) := by
  induction segments generalizing left start with
  | nil => exact absurd rfl hne
  | cons first segments ih =>
    rw [List.map_cons, jointsFrom]
    rcases segments with _ | ⟨next, segments⟩
    · rw [framed_singleton]
      simp [jointsFrom]
      omega
    · rw [List.getLast?_cons, ih middle (start + first.length + 1) (by simp), framed_cons_cons]
      simp only [Option.getD_some, List.length_cons, List.length_append, Option.some.injEq]
      omega

/-- The last joint ends it. -/
theorem getLast?_jointsAt (left middle right : Char) (segments : List (List Char)) :
    (jointsAt (segments.map List.length)).getLast? =
      some ((framed left middle right segments).length - 1) := by
  rcases segments with _ | ⟨first, segments⟩
  · rfl
  · have hlast := getLast?_jointsFrom left middle right 0
      (List.cons_ne_nil first segments)
    rwa [Nat.zero_add] at hlast

/-- So lines are of one length if their segments are. -/
theorem length_framed_congr {left' middle' right' : Char} {segments' : List (List Char)}
    (h : segments.map List.length = segments'.map List.length) :
    (framed left middle right segments).length =
      (framed left' middle' right' segments').length := by
  have hlast := getLast?_jointsAt left middle right segments
  rw [h, getLast?_jointsAt left' middle' right' segments'] at hlast
  have hlengths := Option.some.inj hlast
  simp only [framed, List.length_cons, List.length_append] at hlengths ⊢
  omega

theorem getElem?_of_mem_jointsFrom {bar : Char} {start place : ℕ} (hne : segments ≠ [])
    (h : place ∈ jointsFrom start (segments.map List.length)) :
    ∃ k, place = start + k ∧ (framed bar bar bar segments)[k]? = some bar := by
  induction segments generalizing start with
  | nil => exact absurd rfl hne
  | cons first segments ih =>
    rw [List.map_cons, jointsFrom, List.mem_cons] at h
    rcases h with rfl | h
    · exact ⟨0, rfl, rfl⟩
    · rcases segments with _ | ⟨next, segments⟩
      · obtain rfl := List.mem_singleton.1 h
        refine ⟨first.length + 1, (Nat.add_assoc ..), ?_⟩
        rw [framed_singleton, List.getElem?_cons_succ, List.getElem?_concat_length]
      · obtain ⟨k, rfl, hk⟩ := ih (List.cons_ne_nil next segments) h
        refine ⟨first.length + k + 1, by omega, ?_⟩
        rw [framed_cons_cons, List.getElem?_cons_succ,
          List.getElem?_append_right (Nat.le_add_right ..), Nat.add_sub_cancel_left, hk]

/-- **Bars stand at all joints of a line that has no others.** -/
theorem getElem?_of_mem_jointsAt {bar : Char} {place : ℕ}
    (h : place ∈ jointsAt (segments.map List.length)) :
    (framed bar bar bar segments)[place]? = some bar := by
  rcases segments with _ | ⟨first, segments⟩
  · rcases List.mem_pair.1 h with rfl | rfl <;> rfl
  · obtain ⟨k, rfl, hk⟩ := getElem?_of_mem_jointsFrom (List.cons_ne_nil first segments) h
    rwa [Nat.zero_add]

theorem findIdxs_framed_from {dash : Char} (start : ℕ) (hne : segments ≠ []) (hleft : left ≠ dash)
    (hmiddle : middle ≠ dash) (hright : right ≠ dash)
    (h : ∀ segment ∈ segments, ∀ c ∈ segment, c = dash) :
    (framed left middle right segments).findIdxs (· != dash) start =
      jointsFrom start (segments.map List.length) := by
  induction segments generalizing left start with
  | nil => exact absurd rfl hne
  | cons first segments ih =>
    obtain ⟨hfirst, hrest⟩ := List.forall_mem_cons.mp h
    have hdashes : ∀ start, first.findIdxs (· != dash) start = [] := fun start =>
      List.findIdxs_eq_nil_iff.2 fun c hc => by simp [hfirst c hc]
    have hplace : start + 1 + first.length = start + first.length + 1 := Nat.add_right_comm ..
    rcases segments with _ | ⟨next, segments⟩
    · rw [framed_singleton, List.findIdxs_cons, List.findIdxs_append, hdashes, hplace]
      simp [hleft, hright, jointsFrom]
    · rw [framed_cons_cons, List.findIdxs_cons, List.findIdxs_append, hdashes, hplace,
        ih _ (List.cons_ne_nil next segments) hmiddle hrest]
      simp [hleft, jointsFrom]

/-- **The joints of a rule are what is no dash in it.** -/
theorem findIdxs_framed {dash : Char} (hleft : left ≠ dash) (hmiddle : middle ≠ dash)
    (hright : right ≠ dash) (h : ∀ segment ∈ segments, ∀ c ∈ segment, c = dash) :
    (framed left middle right segments).findIdxs (· != dash) =
      jointsAt (segments.map List.length) := by
  rcases segments with _ | ⟨first, segments⟩
  · rw [framed_nil]
    simp [hleft, hright, jointsAt]
  · exact findIdxs_framed_from 0 (List.cons_ne_nil first segments) hleft hmiddle hright h

/-- What holds of the joints and of the segments holds of the line. -/
theorem forall_mem_framed {p : Char → Prop} (hleft : p left) (hmiddle : p middle) (hright : p right)
    (h : ∀ segment ∈ segments, ∀ c ∈ segment, p c) :
    ∀ c ∈ framed left middle right segments, p c := by
  induction segments generalizing left with
  | nil => simpa [framed_nil] using ⟨hleft, hright⟩
  | cons first segments ih =>
    obtain ⟨hfirst, hrest⟩ := List.forall_mem_cons.mp h
    rcases segments with _ | ⟨next, segments⟩
    · rw [framed_singleton, List.forall_mem_cons, List.forall_mem_append]
      exact ⟨hleft, hfirst, by simpa using hright⟩
    · rw [framed_cons_cons, List.forall_mem_cons, List.forall_mem_append]
      exact ⟨hleft, hfirst, ih hmiddle hrest⟩

end Shell

end ShardStore

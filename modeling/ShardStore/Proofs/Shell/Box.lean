import Mathlib.Order.Bounds.Basic
import ShardStore.Proofs.Shell.Framed
import ShardStore.Proofs.Text.Size
import ShardStore.Shell
/-!
# Shell — a box shows every text in full

The lines of a box are framed, and their segments have the lengths of its
columns: two more than the widest text of a column has (`isGreatest_widths`).
So a box is rectangular, its bars stand where the joints of its rules do, and
the texts of a row come back, but for blanks at their ends, where its line is
cut there (`shows_results_in_full`).
-/

namespace ShardStore

open Text

namespace Shell

variable {header texts : List String} {rows : List (List String)} {ws : List ℕ} {w i : ℕ}

/-! ## Widths of columns -/

/-- The lengths of the texts in a column. -/
def columnLengths (rows : List (List String)) (i : ℕ) : Set ℕ :=
  {n | ∃ texts ∈ rows, ∃ text : String, texts[i]? = some text ∧ text.length = n}

theorem columnLengths_nil (i : ℕ) : columnLengths [] i = ∅ := by
  simp [columnLengths]

theorem columnLengths_cons {text : String} (h : texts[i]? = some text)
    (rows : List (List String)) :
    columnLengths (texts :: rows) i = insert text.length (columnLengths rows i) := by
  ext n
  simp [columnLengths, h, eq_comm]

/-- The greatest of two numbers and others is the greatest of them all. -/
theorem isGreatest_insert_max {s : Set ℕ} {a b : ℕ} (h : IsGreatest (insert (max a b) s) w) :
    IsGreatest (insert a (insert b s)) w := by
  obtain ⟨hmem, hupper⟩ := h
  rw [mem_upperBounds, Set.forall_mem_insert] at hupper
  refine ⟨?_, ?_⟩
  · rcases hmem with rfl | hmem
    · rcases max_choice a b with hmax | hmax <;> simp [hmax]
    · exact .inr (.inr hmem)
  · rw [mem_upperBounds, Set.forall_mem_insert, Set.forall_mem_insert]
    exact ⟨(le_max_left a b).trans hupper.1, (le_max_right a b).trans hupper.1, hupper.2⟩

/-- Every row keeps the number of columns, and each column as wide as the
widest of what it was and of its texts. -/
theorem foldl_widths (ws : List ℕ) (hlengths : ∀ texts ∈ rows, texts.length = ws.length) :
    let later := rows.foldl
      (fun widths row => List.zipWith max widths (row.map String.length)) ws
    later.length = ws.length ∧ ∀ i w width, ws[i]? = some w → later[i]? = some width →
      IsGreatest (insert w (columnLengths rows i)) width := by
  -- A width counts as one more length of its column, and a row moves its own
  -- length into it, so nothing is said of rows that were seen already.
  induction rows generalizing ws with
  | nil =>
    refine ⟨rfl, fun i w width hw hwidth => ?_⟩
    obtain rfl := Option.some.inj (hw.symm.trans hwidth)
    rw [columnLengths_nil, LawfulSingleton.insert_empty_eq]
    exact isGreatest_singleton
  | cons texts rows ih =>
    obtain ⟨hfirst, hrest⟩ := List.forall_mem_cons.mp hlengths
    have hlength : (List.zipWith max ws (texts.map String.length)).length = ws.length := by
      simp [hfirst]
    obtain ⟨hlater, hgreatest⟩ := ih _ (fun texts hmem => (hrest texts hmem).trans hlength.symm)
    refine ⟨hlater.trans hlength, fun i w width hw hwidth => ?_⟩
    obtain ⟨text, htext⟩ : ∃ text, texts[i]? = some text := by
      rw [← Option.isSome_iff_exists, isSome_getElem?, hfirst]
      exact (List.getElem?_eq_some_iff.1 hw).1
    rw [columnLengths_cons htext]
    refine isGreatest_insert_max (hgreatest i _ width ?_ hwidth)
    rw [List.getElem?_zipWith, hw, List.getElem?_map, htext]
    rfl

/-- A box has as many columns as its header. -/
theorem length_widths (h : ∀ texts ∈ rows, texts.length = header.length) :
    (widths header rows).length = header.length := by
  have hfold := (foldl_widths (header.map String.length) (by simpa using h)).1
  rwa [List.length_map] at hfold

/-- **A column is as wide as its widest text.** -/
theorem isGreatest_widths (h : ∀ texts ∈ rows, texts.length = header.length)
    (hw : (widths header rows)[i]? = some w) :
    IsGreatest (columnLengths (header :: rows) i) w := by
  obtain ⟨text, htext⟩ : ∃ text, header[i]? = some text := by
    rw [← Option.isSome_iff_exists, isSome_getElem?, ← length_widths h]
    exact (List.getElem?_eq_some_iff.1 hw).1
  rw [columnLengths_cons htext]
  exact (foldl_widths (header.map String.length) (by simpa using h)).2 i _ w
    (by rw [List.getElem?_map, htext]; rfl) hw

/-- So no text is wider than its column. -/
theorem forall₂_length_le_widths (h : ∀ texts ∈ rows, texts.length = header.length)
    (hmem : texts ∈ header :: rows) :
    List.Forall₂ (fun text width => text.length ≤ width) texts (widths header rows) := by
  have hlength : texts.length = header.length := by
    rcases List.mem_cons.1 hmem with rfl | hmem
    · rfl
    · exact h texts hmem
  rw [List.forall₂_iff_get]
  refine ⟨hlength.trans (length_widths h).symm, fun i hi hi' => ?_⟩
  have hwidth := isGreatest_widths h (List.getElem?_eq_getElem hi')
  exact hwidth.2 ⟨texts, hmem, texts[i], List.getElem?_eq_getElem hi, rfl⟩

/-! ## Lines of a box -/

/-- The characters of a cell: a blank, its text, and at least one blank. -/
def cellText (text : String) (width : ℕ) : List Char :=
  ' ' :: (text.toList ++ List.replicate (width - text.length + 1) ' ')

theorem toList_boxRow (ws : List ℕ) (texts : List String) :
    (boxRow ws texts).toList = framed '│' '│' '│' (List.zipWith cellText texts ws) := by
  have hcell : ∀ text width,
      (" " ++ padRight width text ++ " ").toList = cellText text width := by
    intro text width
    simp [padRight, cellText, List.replicate_succ']
  have hbar : "│".toList = ['│'] := rfl
  rw [boxRow, String.toList_append, String.toList_append, String.toList_intercalate, hbar,
    List.map_zipWith]
  simp only [hcell]
  rfl

/-- The characters of a rule over a column. -/
def dashes (width : ℕ) : List Char :=
  List.replicate (width + 2) '─'

theorem toList_boxRule {left middle right : String} {l m r : Char} (hleft : left.toList = [l])
    (hmiddle : middle.toList = [m]) (hright : right.toList = [r]) (ws : List ℕ) :
    (boxRule left middle right ws).toList = framed l m r (ws.map dashes) := by
  rw [boxRule, String.toList_append, String.toList_append, String.toList_intercalate, hleft,
    hmiddle, hright, List.map_map]
  simp only [Function.comp_def, String.toList_ofList]
  rfl

theorem length_dashes (widths : List ℕ) :
    (widths.map dashes).map List.length = widths.map (· + 2) := by
  simp [dashes, Function.comp_def]

theorem length_cellTexts (h : List.Forall₂ (fun text width => text.length ≤ width) texts ws) :
    (List.zipWith cellText texts ws).map List.length = ws.map (· + 2) := by
  induction h with
  | nil => rfl
  | @cons text width _ _ hle _ ih =>
    have hcell : (cellText text width).length = width + 2 := by
      simp only [cellText, List.length_cons, List.length_append, String.length_toList,
        List.length_replicate]
      omega
    rw [List.zipWith_cons_cons, List.map_cons, hcell, ih, List.map_cons]

/-- The places of the joints of a rule. -/
def joints (rule : String) : List ℕ :=
  rule.toList.findIdxs (· != '─')

/-- A text without the blanks at its end. -/
def unpadded (text : List Char) : List Char :=
  text.rdropWhile (· == ' ')

theorem unpadded_append_replicate (text : List Char) (blanks : ℕ) :
    unpadded (text ++ List.replicate blanks ' ') = unpadded text := by
  induction blanks with
  | zero => simp
  | succ blanks ih =>
    rw [List.replicate_succ', ← List.append_assoc, unpadded,
      List.rdropWhile_concat_pos _ _ _ (by rfl)]
    exact ih

/-- **A line that shows texts**: bars stand at all places, and between each of
them and the next one there is a blank, a text, and nothing but blanks. -/
structure Shows (places : List ℕ) (texts : List String) (line : String) : Prop where
  bars : ∀ place ∈ places, line.toList[place]? = some '│'
  fields : List.Forall₂
    (fun text field => ∃ blanks, field = ' ' :: (text.toList ++ List.replicate blanks ' ')) texts
    ((cutAt places line.toList).take texts.length)

/-- **The texts of a line come back** where it is cut, but for blanks at their
ends. -/
theorem Shows.recovered {places : List ℕ} {line : String} (h : Shows places texts line) :
    ((cutAt places line.toList).take texts.length).map (fun field => unpadded (field.drop 1)) =
      texts.map fun text => unpadded text.toList := by
  have hrecovered : List.Forall₂ Eq (texts.map fun text => unpadded text.toList)
      (((cutAt places line.toList).take texts.length).map fun field => unpadded (field.drop 1)) := by
    rw [List.forall₂_map_left_iff, List.forall₂_map_right_iff]
    refine h.fields.imp ?_
    rintro text field ⟨blanks, rfl⟩
    exact (unpadded_append_replicate text.toList blanks).symm
  rw [List.forall₂_eq_eq_eq] at hrecovered
  exact hrecovered.symm

/-- **A box of a header and rows.** Its lines have one length, the joints of its
rules stand at the same places, from the beginning of a line to its end, the
header and the rows are shown between them, and each column is two wider than
the widest of its texts. -/
structure IsBox (header : List String) (rows : List (List String)) (top head rule : String)
    (body : List String) (bottom : String) : Prop where
  even : ∀ line ∈ head :: rule :: (body ++ [bottom]), line.length = top.length
  joints_rule : joints rule = joints top
  joints_bottom : joints bottom = joints top
  count : (joints top).length = max header.length 1 + 1
  first : (joints top).head? = some 0
  last : (joints top).getLast? = some (top.length - 1)
  head : Shows (joints top) header head
  body : List.Forall₂ (Shows (joints top)) rows body
  width : ∀ i < header.length, ∃ place widest, (joints top)[i]? = some place ∧
    (joints top)[i + 1]? = some (place + (widest + 2) + 1) ∧
    IsGreatest (columnLengths (header :: rows) i) widest

theorem joints_boxRule {left middle right : String} {l m r : Char} (hleft : left.toList = [l])
    (hmiddle : middle.toList = [m]) (hright : right.toList = [r]) (hl : l ≠ '─') (hm : m ≠ '─')
    (hr : r ≠ '─') (ws : List ℕ) :
    joints (boxRule left middle right ws) = jointsAt (ws.map (· + 2)) := by
  rw [joints, toList_boxRule hleft hmiddle hright, findIdxs_framed hl hm hr, length_dashes]
  simp [dashes]

theorem shows_boxRow (h : List.Forall₂ (fun text width => text.length ≤ width) texts ws) :
    Shows (jointsAt (ws.map (· + 2))) texts (boxRow ws texts) := by
  have hcount : (List.zipWith cellText texts ws).length = texts.length := by
    rw [List.length_zipWith, h.length_eq, min_self]
  rw [← length_cellTexts h]
  refine ⟨fun place hplace => ?_, ?_⟩
  · rw [toList_boxRow]
    exact getElem?_of_mem_jointsAt hplace
  · rw [toList_boxRow, ← hcount, take_cutAt_framed]
    clear hcount
    induction h with
    | nil => exact .nil
    | cons _ _ ih => exact .cons ⟨_, rfl⟩ ih

theorem length_boxRow (h : List.Forall₂ (fun text width => text.length ≤ width) texts ws) :
    (boxRow ws texts).length = (framed '│' '│' '│' (ws.map dashes)).length := by
  rw [← String.length_toList, toList_boxRow]
  exact length_framed_congr ((length_cellTexts h).trans (length_dashes ws).symm)

theorem length_boxRule {left middle right : String} {l m r : Char} (hleft : left.toList = [l])
    (hmiddle : middle.toList = [m]) (hright : right.toList = [r]) (ws : List ℕ) :
    (boxRule left middle right ws).length = (framed '│' '│' '│' (ws.map dashes)).length := by
  rw [← String.length_toList, toList_boxRule hleft hmiddle hright]
  exact length_framed_congr rfl

/-- **What is printed is a box**, where every row has a text for each column. -/
theorem exists_isBox (h : ∀ texts ∈ rows, texts.length = header.length) :
    ∃ top head rule bottom body, box header rows = top :: head :: rule :: (body ++ [bottom]) ∧
      IsBox header rows top head rule body bottom := by
  obtain ⟨ws, hws⟩ : ∃ ws, widths header rows = ws := ⟨_, rfl⟩
  have htop : joints (boxRule "┌" "┬" "┐" ws) = jointsAt (ws.map (· + 2)) :=
    joints_boxRule rfl rfl rfl (by decide) (by decide) (by decide) ws
  have hrule : joints (boxRule "├" "┼" "┤" ws) = jointsAt (ws.map (· + 2)) :=
    joints_boxRule rfl rfl rfl (by decide) (by decide) (by decide) ws
  have hbottom : joints (boxRule "└" "┴" "┘" ws) = jointsAt (ws.map (· + 2)) :=
    joints_boxRule rfl rfl rfl (by decide) (by decide) (by decide) ws
  have hfits : ∀ texts ∈ header :: rows,
      List.Forall₂ (fun text width => text.length ≤ width) texts ws := fun texts hmem => by
    rw [← hws]
    exact forall₂_length_le_widths h hmem
  have hcount : ws.length = header.length := by rw [← hws, length_widths h]
  -- Rules and rows have segments of the same lengths, those of `ws` and two more.
  refine ⟨_, _, _, _, _, by rw [box, hws], ?_, ?_, ?_, ?_, ?_, ?_, ?_, ?_, ?_⟩
  · have hlength : (boxRule "┌" "┬" "┐" ws).length = _ := length_boxRule rfl rfl rfl ws
    simp only [hlength, List.forall_mem_cons, List.forall_mem_append, List.forall_mem_map]
    refine ⟨length_boxRow (hfits header List.mem_cons_self), length_boxRule rfl rfl rfl ws,
      fun texts hmem => length_boxRow (hfits texts (List.mem_cons_of_mem _ hmem)),
      length_boxRule rfl rfl rfl ws, by simp⟩
  · rw [hrule, htop]
  · rw [hbottom, htop]
  · rw [htop, length_jointsAt, List.length_map, hcount]
  · rw [htop, head?_jointsAt]
  · rw [htop, ← length_dashes, getLast?_jointsAt '│' '│' '│', length_boxRule rfl rfl rfl]
  · rw [htop]
    exact shows_boxRow (hfits header List.mem_cons_self)
  · rw [htop, List.forall₂_map_right_iff, List.forall₂_same]
    exact fun texts hmem => shows_boxRow (hfits texts (List.mem_cons_of_mem _ hmem))
  · intro i hi
    obtain ⟨w, hw⟩ : ∃ w, ws[i]? = some w := ⟨_, List.getElem?_eq_getElem (hcount ▸ hi)⟩
    have hdashes : (ws.map dashes)[i]? = some (dashes w) := by rw [List.getElem?_map, hw]; rfl
    obtain ⟨place, hplace, hnext, -⟩ :=
      exists_between_jointsAt '│' '│' '│' hdashes
    have hwidth : (dashes w).length = w + 2 := List.length_replicate
    rw [length_dashes] at hplace hnext
    rw [hwidth] at hnext
    rw [htop]
    exact ⟨place, w, hplace, hnext, isGreatest_widths h (hws ▸ hw)⟩

/-! ## The text of a box -/

theorem newline_not_mem_boxRow (h : ∀ text ∈ texts, '\n' ∉ text.toList) :
    '\n' ∉ (boxRow ws texts).toList := by
  rw [toList_boxRow]
  intro hmem
  refine forall_mem_framed (p := (· ≠ '\n')) (by decide) (by decide) (by decide) ?_ _ hmem rfl
  intro segment hsegment
  obtain ⟨i, hi⟩ := List.mem_iff_getElem?.1 hsegment
  obtain ⟨text, width, htext, -, rfl⟩ := List.getElem?_zipWith_eq_some.1 hi
  rintro c hc rfl
  simp only [cellText, List.mem_cons, List.mem_append, List.mem_replicate] at hc
  rcases hc with hc | hc | ⟨-, hc⟩
  · cases hc
  · exact h text (List.mem_of_getElem? htext) hc
  · cases hc

theorem newline_not_mem_boxRule {left middle right : String} {l m r : Char}
    (hleft : left.toList = [l]) (hmiddle : middle.toList = [m]) (hright : right.toList = [r])
    (hl : l ≠ '\n') (hm : m ≠ '\n') (hr : r ≠ '\n') (ws : List ℕ) :
    '\n' ∉ (boxRule left middle right ws).toList := by
  rw [toList_boxRule hleft hmiddle hright]
  intro hmem
  refine forall_mem_framed (p := (· ≠ '\n')) hl hm hr ?_ _ hmem rfl
  intro segment hsegment c hc
  obtain ⟨width, -, rfl⟩ := List.mem_map.1 hsegment
  rw [(List.mem_replicate.1 hc).2]
  decide

/-- A box has the line feeds of its texts, and no others. -/
theorem newline_not_mem_box (h : ∀ texts ∈ header :: rows, ∀ text ∈ texts, '\n' ∉ text.toList) :
    ∀ line ∈ box header rows, '\n' ∉ line.toList := by
  obtain ⟨hheader, hrows⟩ := List.forall_mem_cons.mp h
  simp only [box, List.forall_mem_cons, List.forall_mem_append, List.forall_mem_map]
  refine ⟨newline_not_mem_boxRule rfl rfl rfl (by decide) (by decide) (by decide) _,
    newline_not_mem_boxRow hheader,
    newline_not_mem_boxRule rfl rfl rfl (by decide) (by decide) (by decide) _,
    fun texts hmem => newline_not_mem_boxRow (hrows texts hmem),
    newline_not_mem_boxRule rfl rfl rfl (by decide) (by decide) (by decide) _, by simp⟩

/-- Lines come back where their text is cut at line feeds. -/
theorem splitOn_join {lines : List String} (h : ∀ line ∈ lines, '\n' ∉ line.toList) :
    (String.join (lines.map (· ++ "\n"))).toList.splitOn '\n' = lines.map String.toList ++ [[]] := by
  induction lines with
  | nil => rfl
  | cons line lines ih =>
    obtain ⟨hline, hlines⟩ := List.forall_mem_cons.mp h
    have htext : (String.join ((line :: lines).map (· ++ "\n"))).toList =
        line.toList ++ '\n' :: (String.join (lines.map (· ++ "\n"))).toList := by
      simp
    rw [htext, List.splitOn_append_cons_self_of_not_mem hline, ih hlines]
    rfl

theorem newline_not_mem_toDigits (n : ℕ) : '\n' ∉ Nat.toDigits 10 n := by
  intro hmem
  rw [← Nat.toList_repr] at hmem
  have hdigit := (Decimal.digits_iff.1 (digits_repr n).1).1 _ hmem
  cases hdigit

/-- Neither does the time have any. -/
theorem newline_not_mem_time (count micros : ℕ) :
    '\n' ∉ (s!"⏱️ {count} row(s) in {micros}μs").toList := by
  simp [toString, newline_not_mem_toDigits]

/-- **Results are shown in full.** A statement that selects rows is answered by a
box of its columns and of the texts of its rows, which has four lines more than
there are rows, and by a line for the time. The texts of each row come back from
its line, but for blanks at their ends. -/
theorem shows_results_in_full (columns : List String) {rows : List Row} (hrows : rows ≠ [])
    (hcolumns : ∀ name ∈ columns, '\n' ∉ name.toList)
    (hcells : ∀ row ∈ rows, ∀ text ∈ row.displayed columns, '\n' ∉ text.toList) :
    ∃ (top head rule bottom : String) (body : List String),
      IsBox columns (rows.map (·.displayed columns)) top head rule body bottom ∧
      (top :: head :: rule :: (body ++ [bottom])).length = rows.length + 4 ∧
      (∀ micros, ((answerReply (.selected columns rows)).render micros).toList.splitOn '\n' =
        (top :: head :: rule :: (body ++ [bottom])).map String.toList ++
          [(s!"⏱️ {rows.length} row(s) in {micros}μs").toList, []]) ∧
      (∀ {σ : Type} [Storage σ] (shell : Shell σ) (text : String) (database : Database σ),
        shell.database.executeText text = (.ok (.selected columns rows), database) →
        shell.perform (.statement text) =
          some (answerReply (.selected columns rows), { shell with database })) ∧
      List.Forall₂ (fun row line =>
        ((cutAt (joints top) line.toList).take columns.length).map
            (fun field => unpadded (field.drop 1)) =
          (row.displayed columns).map fun text => unpadded text.toList) rows body := by
  have hlengths : ∀ row : Row, (row.displayed columns).length = columns.length := by
    simp [Row.displayed]
  obtain ⟨top, head, rule, bottom, body, hbox, hisBox⟩ :=
    exists_isBox (List.forall_mem_map.2 fun row _ => hlengths row)
  refine ⟨top, head, rule, bottom, body, hisBox, ?_, fun micros => ?_,
    fun shell text database hexecute => ?_, ?_⟩
  · have hbody := hisBox.body.length_eq
    rw [List.length_map] at hbody
    simp [hbody]
  · have hreply : answerReply (.selected columns rows) =
        .results columns (rows.map (·.displayed columns)) := by
      cases rows with
      | nil => exact absurd rfl hrows
      | cons row rows => rfl
    have hfree := newline_not_mem_box
      (List.forall_mem_cons.2 ⟨hcolumns, List.forall_mem_map.2 hcells⟩)
    have htime := newline_not_mem_time rows.length micros
    rw [hreply, Reply.render, Reply.lines, List.length_map, hbox, splitOn_join]
    · simp
    · rw [hbox] at hfree
      exact List.forall_mem_append.2 ⟨hfree, by simpa using htime⟩
    · nofun
  · rw [perform, hexecute]
    rfl
  · refine (List.forall₂_map_left_iff.1 hisBox.body).imp fun row line hshows => ?_
    rw [← hlengths row]
    exact hshows.recovered

/-- A column that is shown twice, a row without a cell, and a text that ends in a
blank, or has the signs of a box in it. -/
theorem shows_results_in_full_repeated_column :
    let columns := ["a", "ü", "a"]
    let rows := [Row.ofPairs [("a", .text "日本"), ("ü", .text "x ")],
      Row.ofPairs [("ü", .text "│─┼")]]
    let shown := [["日本", "x ", "日本"], ["NULL", "│─┼", "NULL"]]
    rows ≠ [] ∧ (∀ name ∈ columns, '\n' ∉ name.toList) ∧
      (∀ row ∈ rows, ∀ text ∈ row.displayed columns, '\n' ∉ text.toList) ∧
      ∃ (top head rule bottom : String) (body : List String),
        IsBox columns shown top head rule body bottom ∧
        ((answerReply (.selected columns rows)).render 9).toList.splitOn '\n' =
          (top :: head :: rule :: (body ++ [bottom])).map String.toList ++
            ["⏱️ 2 row(s) in 9μs".toList, []] ∧
        body.map (fun line => ((cutAt (joints top) line.toList).take 3).map
          fun field => unpadded (field.drop 1)) =
            [["日本".toList, "x".toList, "日本".toList],
              ["NULL".toList, "│─┼".toList, "NULL".toList]] := by
  intro columns rows shown
  have hrows : rows ≠ [] := List.cons_ne_nil _ _
  have hcolumns : ∀ name ∈ columns, '\n' ∉ name.toList := by decide
  have hshown : rows.map (·.displayed columns) = shown := by decide +kernel
  have hcells : ∀ row ∈ rows, ∀ text ∈ row.displayed columns, '\n' ∉ text.toList := by
    decide +kernel
  obtain ⟨top, head, rule, bottom, body, hisBox, -, hprinted, -, hrecovered⟩ :=
    shows_results_in_full columns hrows hcolumns hcells
  have htime : (s!"⏱️ {rows.length} row(s) in {9}μs").toList = "⏱️ 2 row(s) in 9μs".toList := by
    decide +kernel
  have hlines := hprinted 9
  rw [htime] at hlines
  rw [hshown] at hisBox
  refine ⟨hrows, hcolumns, hcells, top, head, rule, bottom, body, hisBox, hlines, ?_⟩
  have hbody : List.Forall₂ Eq
      (rows.map fun row => (row.displayed columns).map fun text => unpadded text.toList)
      (body.map fun line => ((cutAt (joints top) line.toList).take 3).map
        fun field => unpadded (field.drop 1)) := by
    rw [List.forall₂_map_left_iff, List.forall₂_map_right_iff]
    exact hrecovered.imp fun row line h => h.symm
  rw [List.forall₂_eq_eq_eq] at hbody
  rw [← hbody]
  decide +kernel

end Shell

end ShardStore

import Mathlib.Data.List.Forall2
import ShardStore.Proofs.Fragment
import ShardStore.Proofs.Query
import ShardStore.Proofs.Table.Faults
/-!
# Fragments — partitions are what their groups say

A list of column groups is refused for the first bad one, and that one for
its first fault (`Table.GroupFault`). Otherwise there is one partition for
each group (`Table.Partitioned`), and the row it has at a position is cut from
the row of the table there. So partitions have the same cells where their
columns overlap, and where they cover the columns of the table its rows are
united from theirs (`Row.unite`).
-/

namespace ShardStore

open Text

/-! ## Uniting rows -/

namespace Row

/-- The row with the cells of all of `rows`, the later of which count. -/
def unite (rows : List Row) : Row :=
  rows.foldr (· ∪ ·) ∅

variable {rows : List Row} {source : Row} {c : String}

theorem mem_unite : c ∈ unite rows ↔ ∃ row ∈ rows, c ∈ row := by
  induction rows with
  | nil => simp [unite]
  | cons row rows ih =>
    have hunite : unite (row :: rows) = row ∪ unite rows := rfl
    rw [hunite, Std.ExtTreeMap.mem_union_iff, ih, List.exists_mem_cons_iff]

/-- The cell of a column is the one of some row. -/
theorem exists_getElem?_unite (h : c ∈ unite rows) :
    ∃ row ∈ rows, c ∈ row ∧ (unite rows)[c]? = row[c]? := by
  induction rows with
  | nil => simp [unite] at h
  | cons row rows ih =>
    have hunite : unite (row :: rows) = row ∪ unite rows := rfl
    by_cases hlater : c ∈ unite rows
    · obtain ⟨other, hmem, hc, hcell⟩ := ih hlater
      have hsome := Std.ExtTreeMap.getElem?_eq_some_getElem hlater
      refine ⟨other, List.mem_cons_of_mem _ hmem, hc, ?_⟩
      rw [hunite, Std.ExtTreeMap.getElem?_union, ← hcell, hsome, Option.some_or]
    · rw [hunite, Std.ExtTreeMap.mem_union_iff] at h
      refine ⟨row, List.mem_cons_self, h.resolve_right hlater, ?_⟩
      rw [hunite, Std.ExtTreeMap.getElem?_union_of_not_mem_right hlater]

/-- **Parts that cover a row unite to it**, however they overlap. -/
theorem unite_eq (hparts : ∀ row ∈ rows, ∀ c ∈ row, row[c]? = source[c]?)
    (hcover : ∀ c ∈ source, ∃ row ∈ rows, c ∈ row) : unite rows = source := by
  refine Std.ExtTreeMap.ext_getElem? fun c => ?_
  by_cases hc : c ∈ unite rows
  · obtain ⟨row, hmem, hrow, hcell⟩ := exists_getElem?_unite hc
    rw [hcell, hparts row hmem c hrow]
  · rw [Std.ExtTreeMap.getElem?_eq_none hc,
      Std.ExtTreeMap.getElem?_eq_none fun hsource => hc (mem_unite.2 (hcover c hsource))]

end Row

/-- The rows that fragments have at a position. -/
def Fragment.rowsAt (fragments : List Fragment) (position : Nat) : List Row :=
  fragments.filterMap (·.rows[position]?)

namespace Table

variable {table : Table} {group : List String} {groups : List (List String)} {e : ExecutionError}
  {fragments : List Fragment} {fragment : Fragment} {position : Nat}

/-! ## Groups that are refused -/

/-- **What is wrong with a column group** at a position: it is empty, or else
its first column that is not declared, or else the first one repeated. -/
inductive GroupFault (table : Table) (index : Nat) : List String → ExecutionError → Prop
  | empty : GroupFault table index [] (.emptyGroup index)
  | undeclared {group : List String} {c : String}
      (hc : FirstExcept (· ∈ table.columns) group c) :
      GroupFault table index group (.unknownColumn table.name c)
  | repeated {group : List String} {c : String} (hdeclared : ∀ d ∈ group, d ∈ table.columns)
      (hc : FirstRepeat group c) : GroupFault table index group (.repeatedColumn c)

theorem not_admits_iff : ¬ table.Admits group ↔
    group = [] ∨ (∃ c ∈ group, c ∉ table.columns) ∨ ¬ group.Nodup := by
  constructor
  · intro hbad
    by_cases hempty : group = []
    · exact .inl hempty
    · by_cases hdeclared : ∀ c ∈ group, c ∈ table.columns
      · exact .inr (.inr fun hdistinct => hbad ⟨hempty, hdeclared, hdistinct⟩)
      · exact .inr (.inl (by simpa using hdeclared))
  · rintro (hempty | ⟨c, hc, hundeclared⟩ | hrepeated) hok
    · exact hok.nonempty hempty
    · exact hundeclared (hok.declared c hc)
    · exact hrepeated hok.distinct

/-- A declared column is an identifier, so no other fault is ever named. -/
theorem checkGroup_eq_error_iff (h : ∀ c ∈ table.columns, isIdentifier c = true) (index : Nat) :
    table.checkGroup index group = .error e ↔ table.GroupFault index group e := by
  unfold checkGroup
  by_cases hempty : group = []
  · subst hempty
    rw [if_pos List.isEmpty_nil]
    constructor
    · rintro ⟨⟩
      exact .empty
    · rintro (_ | hc | ⟨-, hc⟩)
      · rfl
      · exact absurd (by simp) hc.not_forall
      · exact absurd List.nodup_nil hc.not_nodup
  · rw [if_neg (by simpa using hempty)]
    split
    · next cause hchecked =>
      obtain ⟨c, hc, rfl⟩ := checkDeclared_eq_error_iff_firstExcept.1 hchecked
      constructor
      · rintro ⟨⟩
        exact .undeclared hc
      · rintro (_ | hother | ⟨hdeclared, -⟩)
        · exact absurd rfl hempty
        · have hsame := hchecked.symm.trans
            (checkDeclared_eq_error_iff_firstExcept.2 ⟨_, hother, rfl⟩)
          rw [Except.error.inj hsame]
        · exact absurd hdeclared hc.not_forall
    · next hchecked =>
      have hdeclared := checkDeclared_eq_ok_iff.1 hchecked
      rw [checkColumnNames_eq_checkDistinct fun c hc => h c (hdeclared c hc),
        checkDistinct_eq_error_iff]
      constructor
      · rintro ⟨c, hc, rfl⟩
        exact .repeated hdeclared hc
      · rintro (_ | hc | ⟨-, hc⟩)
        · exact absurd rfl hempty
        · exact absurd hdeclared hc.not_forall
        · exact ⟨_, hc, rfl⟩

/-- **The first bad group is named**, at its position. -/
theorem checkGroups_eq_error_iff (h : ∀ c ∈ table.columns, isIdentifier c = true) (index : Nat) :
    table.checkGroups index groups = .error e ↔ ∃ before group after,
      groups = before ++ group :: after ∧ (∀ good ∈ before, table.Admits good) ∧
        table.GroupFault (index + before.length) group e := by
  induction groups generalizing index with
  | nil => simp [checkGroups]
  | cons first groups ih =>
    rw [checkGroups]
    split
    · next cause hfirst =>
      constructor
      · rintro ⟨⟩
        exact ⟨[], first, groups, rfl, by simp, (checkGroup_eq_error_iff h index).1 hfirst⟩
      · rintro ⟨_ | ⟨good, before⟩, group, after, hsplit, hbefore, hfault⟩
        · obtain ⟨rfl, -⟩ := List.cons.inj hsplit
          exact hfirst.symm.trans ((checkGroup_eq_error_iff h index).2 hfault)
        · obtain ⟨rfl, -⟩ := List.cons.inj hsplit
          have hok := (checkGroup_eq_ok_iff h index).2 (hbefore first List.mem_cons_self)
          rw [hok] at hfirst
          cases hfirst
    · next hfirst =>
      rw [ih]
      constructor
      · rintro ⟨before, group, after, rfl, hbefore, hfault⟩
        refine ⟨first :: before, group, after, rfl, ?_, ?_⟩
        · exact List.forall_mem_cons.mpr ⟨(checkGroup_eq_ok_iff h index).1 hfirst, hbefore⟩
        · rwa [List.length_cons, ← Nat.add_assoc, Nat.add_right_comm]
      · rintro ⟨_ | ⟨good, before⟩, group, after, hsplit, hbefore, hfault⟩
        · obtain ⟨rfl, -⟩ := List.cons.inj hsplit
          have herror := (checkGroup_eq_error_iff h index).2 hfault
          rw [hfirst] at herror
          cases herror
        · obtain ⟨rfl, rfl⟩ := List.cons.inj hsplit
          refine ⟨before, group, after, rfl, (List.forall_mem_cons.mp hbefore).2, ?_⟩
          rwa [List.length_cons, ← Nat.add_assoc, Nat.add_right_comm] at hfault

theorem partitions_eq_error_iff (h : ∀ c ∈ table.columns, isIdentifier c = true) :
    table.partitions groups = .error e ↔ ∃ before group after,
      groups = before ++ group :: after ∧ (∀ good ∈ before, table.Admits good) ∧
        table.GroupFault before.length group e := by
  have hchecked : table.checkGroups 0 groups = .error e ↔ _ := checkGroups_eq_error_iff h 0
  simp only [Nat.zero_add] at hchecked
  rw [← hchecked, partitions]
  split
  · next cause hgroups => simp [hgroups]
  · next hgroups => simp [hgroups]

/-! ## Groups that are cut -/

theorem exists_partitions_eq_ok_iff (h : ∀ c ∈ table.columns, isIdentifier c = true) :
    (∃ fragments, table.partitions groups = .ok fragments) ↔
      ∀ group ∈ groups, table.Admits group := by
  simp [partitions_eq_ok_iff_checkGroups, ← checkGroups_eq_ok_iff h 0]

theorem exists_partitions_eq_error_iff (h : ∀ c ∈ table.columns, isIdentifier c = true) :
    (∃ e, table.partitions groups = .error e) ↔ ∃ group ∈ groups, ¬ table.Admits group := by
  have hnot : (∃ e, table.partitions groups = .error e) ↔
      ¬ ∃ fragments, table.partitions groups = .ok fragments := by
    cases table.partitions groups <;> simp
  rw [hnot, exists_partitions_eq_ok_iff h]
  simp

/-- Fragments that are the partitions of a table by `groups`: one for each
group and in their order, whose rows are those of the table cut to it. -/
structure Partitioned (table : Table) (groups : List (List String))
    (fragments : List Fragment) : Prop where
  count : fragments.length = groups.length
  cut : ∀ (index : Nat) (group : List String), groups[index]? = some group →
    ∃ rows, fragments[index]? = some ⟨table.name, ⟨.partition, index⟩, group, rows⟩ ∧
      List.Forall₂ (Row.IsCut group) table.rows rows

/-- Every fragment is the partition of a group. -/
theorem Partitioned.forall₂_rows (h : table.Partitioned groups fragments)
    (hmem : fragment ∈ fragments) :
    List.Forall₂ (Row.IsCut fragment.columns) table.rows fragment.rows := by
  obtain ⟨index, hindex⟩ := List.mem_iff_getElem?.1 hmem
  obtain ⟨hlt, -⟩ := List.getElem?_eq_some_iff.1 hindex
  obtain ⟨rows, hfragment, hrows⟩ :=
    h.cut index _ (List.getElem?_eq_getElem (h.count ▸ hlt))
  rw [hindex] at hfragment
  cases hfragment
  exact hrows

/-- **A fragment has a row wherever the table has one**, which is cut from
it. -/
theorem Partitioned.exists_row (h : table.Partitioned groups fragments)
    (hmem : fragment ∈ fragments) {source : Row} (hsource : table.rows[position]? = some source) :
    ∃ row, fragment.rows[position]? = some row ∧ Row.IsCut fragment.columns source row := by
  have hrows := h.forall₂_rows hmem
  obtain ⟨hlt, rfl⟩ := List.getElem?_eq_some_iff.1 hsource
  have hlt' : position < fragment.rows.length := hrows.length_eq ▸ hlt
  exact ⟨_, List.getElem?_eq_getElem hlt', hrows.get hlt hlt'⟩

/-- **Overlapping partitions agree**: each has the cell of the table. -/
theorem Partitioned.agree (h : table.Partitioned groups fragments) {other : Fragment}
    (hmem : fragment ∈ fragments) (hother : other ∈ fragments) {row row' : Row}
    (hrow : fragment.rows[position]? = some row) (hrow' : other.rows[position]? = some row') :
    ∀ c ∈ fragment.columns, c ∈ other.columns → row[c]? = row'[c]? := by
  obtain ⟨hlt, -⟩ := List.getElem?_eq_some_iff.1 hrow
  have hsource := List.getElem?_eq_getElem ((h.forall₂_rows hmem).length_eq ▸ hlt)
  obtain ⟨cut, hcut, hcells⟩ := h.exists_row hmem hsource
  obtain ⟨cut', hcut', hcells'⟩ := h.exists_row hother hsource
  obtain rfl := Option.some.inj (hrow.symm.trans hcut)
  obtain rfl := Option.some.inj (hrow'.symm.trans hcut')
  exact fun c hc hc' => (hcells.cells c hc).trans (hcells'.cells c hc').symm

/-- **The rows of a table are united from its partitions** where their groups
cover its columns. -/
theorem Partitioned.unite_rowsAt (h : table.Partitioned groups fragments)
    (hrows : ∀ row ∈ table.rows, ∀ c ∈ row, c ∈ table.columns)
    (hcover : ∀ c ∈ table.columns, ∃ group ∈ groups, c ∈ group) {source : Row}
    (hsource : table.rows[position]? = some source) :
    Row.unite (Fragment.rowsAt fragments position) = source := by
  apply Row.unite_eq
  · intro row hrow c hc
    obtain ⟨fragment, hmem, hrow⟩ := List.mem_filterMap.1 hrow
    obtain ⟨cut, hcut, hcells⟩ := h.exists_row hmem hsource
    obtain rfl := Option.some.inj (hrow.symm.trans hcut)
    exact hcells.cells c ((hcells.holds c).1 hc)
  · intro c hc
    obtain ⟨group, hgroup, hcgroup⟩ :=
      hcover c (hrows source (List.mem_of_getElem? hsource) c hc)
    obtain ⟨index, hindex⟩ := List.mem_iff_getElem?.1 hgroup
    obtain ⟨rows, hfragment, -⟩ := h.cut index group hindex
    have hmem := List.mem_of_getElem? hfragment
    obtain ⟨row, hrow, hcells⟩ := h.exists_row hmem hsource
    exact ⟨row, List.mem_filterMap.2 ⟨_, hmem, hrow⟩, (hcells.holds c).2 hcgroup⟩

/-- Where the rows of a table hold its columns, nothing is filled up. -/
theorem partitioned_of_partitions (hrows : ∀ row ∈ table.rows, ∀ c ∈ table.columns, c ∈ row)
    (hadmits : ∀ group ∈ groups, table.Admits group)
    (hcut : table.partitions groups = .ok fragments) : table.Partitioned groups fragments := by
  obtain ⟨-, rfl⟩ := partitions_eq_ok_iff_checkGroups.1 hcut
  refine ⟨List.length_mapIdx, fun index group hindex => ?_⟩
  have hheld : ∀ source ∈ table.rows, ∀ c ∈ group, c ∈ source := fun source hsource c hc =>
    hrows source hsource c ((hadmits group (List.mem_of_getElem? hindex)).declared c hc)
  refine ⟨_, ?_, (Row.forall₂_isCut_iff hheld).2 rfl⟩
  rw [List.getElem?_mapIdx, hindex, Option.map_some]

/-- **Partitions lose nothing, or the first bad group is named.** A list of
groups is refused exactly if one of them is empty, has a column that is not
declared or repeats one, and then for the fault of the first such group.
Otherwise there is one partition for each group in order, with its columns
and for each row of the table the row cut to them. Where partitions overlap
they have the same cells, and where the groups cover the columns of the table
its rows are united from theirs. -/
theorem partitions_lossless {table : Table} (hcolumns : ∀ c ∈ table.columns, isIdentifier c = true)
    (hrows : ∀ row ∈ table.rows, ∀ c, c ∈ row ↔ c ∈ table.columns) (groups : List (List String)) :
    ((∃ e, table.partitions groups = .error e) ↔ ∃ group ∈ groups,
      group = [] ∨ (∃ c ∈ group, c ∉ table.columns) ∨ ¬ group.Nodup) ∧
    (∀ e, table.partitions groups = .error e ↔ ∃ before group after,
      groups = before ++ group :: after ∧ (∀ good ∈ before, table.Admits good) ∧
        table.GroupFault before.length group e) ∧
    ((∀ group ∈ groups, table.Admits group) → ∃ fragments,
      table.partitions groups = .ok fragments ∧ table.Partitioned groups fragments ∧
      (∀ fragment ∈ fragments, ∀ other ∈ fragments, ∀ (position : Nat) (row row' : Row),
        fragment.rows[position]? = some row → other.rows[position]? = some row' →
        ∀ c ∈ fragment.columns, c ∈ other.columns → row[c]? = row'[c]?) ∧
      ((∀ c ∈ table.columns, ∃ group ∈ groups, c ∈ group) →
        ∀ (position : Nat) (source : Row), table.rows[position]? = some source →
          Row.unite (Fragment.rowsAt fragments position) = source)) := by
  refine ⟨?_, fun e => partitions_eq_error_iff hcolumns, fun hadmits => ?_⟩
  · simp only [← not_admits_iff, exists_partitions_eq_error_iff hcolumns]
  · obtain ⟨fragments, hcut⟩ := (exists_partitions_eq_ok_iff hcolumns).2 hadmits
    have hpartitioned := partitioned_of_partitions (fun row hrow c => (hrows row hrow c).2)
      hadmits hcut
    refine ⟨fragments, hcut, hpartitioned, ?_, fun hcover position source hsource => ?_⟩
    · exact fun fragment hmem other hother position row row' hrow hrow' =>
        hpartitioned.agree hmem hother hrow hrow'
    · exact hpartitioned.unite_rowsAt (fun row hrow c => (hrows row hrow c).1) hcover hsource

/-- Two groups that overlap; and two lists with two bad groups each, of which the
first is named. -/
theorem partitions_lossless_two_rows :
    let rows : List Row := [Row.ofPairs [("id", .text "1"), ("city", .text "Oslo")],
      Row.ofPairs [("id", .text "2"), ("city", .null)]]
    let table : Table := ⟨"users", ["id", "city"], rows⟩
    table.partitions [["id"], ["city", "age", "age"], []] = .error (.unknownColumn "users" "age") ∧
      table.partitions [["id"], [], ["age"]] = .error (.emptyGroup 1) ∧
      ∃ fragments, table.partitions [["city", "id"], ["id"]] = .ok fragments ∧
        fragments.length = 2 ∧ Row.unite (Fragment.rowsAt fragments 0) = rows[0] ∧
        Row.unite (Fragment.rowsAt fragments 1) = rows[1] := by
  intro rows table
  have hcolumns : ∀ c ∈ table.columns, isIdentifier c = true := by decide +kernel
  have hrows : ∀ row ∈ table.rows, ∀ c, c ∈ row ↔ c ∈ table.columns := by
    have hself : ∀ row ∈ table.rows, row.project table.columns = row := by decide +kernel
    intro row hrow c
    rw [← hself row hrow]
    exact Row.mem_project
  have hid : table.Admits ["id"] := ⟨by decide, by decide, by decide⟩
  have hboth : table.Admits ["city", "id"] := ⟨by decide, by decide, by decide⟩
  have hlaw := partitions_lossless hcolumns hrows
  refine ⟨((hlaw _).2.1 _).2 ?_, ((hlaw _).2.1 _).2 ?_, ?_⟩
  · have hage : FirstExcept (· ∈ table.columns) ["city", "age", "age"] "age" :=
      ⟨["city"], ["age"], rfl, by decide, by decide⟩
    exact ⟨[["id"]], _, [[]], rfl, by simpa, .undeclared hage⟩
  · exact ⟨[["id"]], _, [["age"]], rfl, by simpa, .empty⟩
  · obtain ⟨fragments, hcut, hpartitioned, -, hunite⟩ :=
      (hlaw [["city", "id"], ["id"]]).2.2 (by simp [hid, hboth])
    exact ⟨fragments, hcut, hpartitioned.count, hunite (by decide) 0 _ rfl,
      hunite (by decide) 1 _ rfl⟩

end Table

end ShardStore

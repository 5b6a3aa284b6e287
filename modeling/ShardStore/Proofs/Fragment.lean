import ShardStore.Fragment
import ShardStore.Proofs.Table
/-!
# Fragments — what a table can be cut into

Shards take the rows of a table in order and leave none out. A column group
is refused unless a table admits it (`Table.Admits`), and a list of groups is
refused for a single bad one, wherever it stands. Either way the fragments
are numbered by their positions (`Table.Numbers`), and each is itself a table
(`Table.WellFormed.ofDocument_shard`, `Table.WellFormed.ofDocument_partition`).
-/

namespace ShardStore

open Text

/-- **Cutting a list into runs loses nothing of it** and keeps the order. -/
theorem flatten_chunks {α : Type} (size : Nat) (as : List α) : (chunks size as).flatten = as := by
  induction as using chunks.induct size with
  | case1 => simp [chunks]
  | case2 a as ih => rw [chunks, List.flatten_cons, ih, List.cons_append, List.take_append_drop]

namespace Table

variable {table : Table} {group : List String} {groups : List (List String)}

/-- A group of columns that a partition of the table may have. -/
structure Admits (table : Table) (group : List String) : Prop where
  nonempty : group ≠ []
  declared : ∀ c ∈ group, c ∈ table.columns
  distinct : group.Nodup

/-- Where the columns of a table are identifiers, the check of a group asks
for nothing more. -/
theorem checkGroup_eq_ok_iff (h : ∀ c ∈ table.columns, isIdentifier c = true) (index : Nat) :
    table.checkGroup index group = .ok () ↔ table.Admits group := by
  unfold checkGroup
  by_cases hempty : group = []
  · rw [if_pos (by simp [hempty])]
    exact iff_of_false (by simp) fun hadmits => hadmits.nonempty hempty
  · rw [if_neg (by simpa using hempty)]
    split
    · next e hdeclared =>
      refine iff_of_false (by simp) fun hadmits => ?_
      rw [checkDeclared_eq_ok_iff.2 hadmits.declared] at hdeclared
      cases hdeclared
    · next hdeclared =>
      have hall := checkDeclared_eq_ok_iff.1 hdeclared
      rw [checkColumnNames_eq_ok_iff]
      constructor
      · rintro ⟨-, hdistinct⟩
        exact ⟨hempty, hall, hdistinct⟩
      · intro hadmits
        exact ⟨fun c hc => h c (hall c hc), hadmits.distinct⟩

/-- **One bad group is enough**, also after good ones. -/
theorem checkGroups_eq_ok_iff (h : ∀ c ∈ table.columns, isIdentifier c = true) (index : Nat) :
    table.checkGroups index groups = .ok () ↔ ∀ group ∈ groups, table.Admits group := by
  induction groups generalizing index with
  | nil => simp [checkGroups]
  | cons group groups ih =>
    rw [List.forall_mem_cons, ← checkGroup_eq_ok_iff h index, ← ih (index + 1)]
    rw [checkGroups]
    split
    · next e hgroup => simp [hgroup]
    · next hgroup => simp [hgroup]

/-- Only a size of zero is refused. -/
theorem shards_eq_ok_iff {size : Nat} {fragments : List Fragment} :
    table.shards size = .ok fragments ↔ size ≠ 0 ∧
      fragments = (chunks size table.rows).mapIdx fun index rows =>
        ⟨table.name, ⟨.shard, index⟩, table.columns, rows⟩ := by
  unfold shards
  by_cases hsize : size = 0
  · simp [hsize]
  · rw [if_neg hsize, Except.ok.injEq, eq_comm]
    exact ⟨fun h => ⟨hsize, h⟩, And.right⟩

/-- Nothing but the check of the groups can fail. -/
theorem partitions_eq_ok_iff_checkGroups {fragments : List Fragment} :
    table.partitions groups = .ok fragments ↔ table.checkGroups 0 groups = .ok () ∧
      fragments = groups.mapIdx fun index group =>
        ⟨table.name, ⟨.partition, index⟩, group, table.rows.map (·.project group)⟩ := by
  unfold partitions
  split
  · next e hgroups => simp [hgroups]
  · next hgroups =>
    rw [Except.ok.injEq, eq_comm]
    exact ⟨fun h => ⟨hgroups, h⟩, And.right⟩

theorem partitions_eq_ok_iff (h : table.WellFormed) {fragments : List Fragment} :
    table.partitions groups = .ok fragments ↔ (∀ group ∈ groups, table.Admits group) ∧
      fragments = groups.mapIdx fun index group =>
        ⟨table.name, ⟨.partition, index⟩, group, table.rows.map (·.project group)⟩ := by
  rw [← checkGroups_eq_ok_iff h.columns 0, partitions_eq_ok_iff_checkGroups]

/-- The partition of a group stands where the group does. -/
theorem getElem?_partitions (h : table.WellFormed) {fragments : List Fragment}
    (hcut : table.partitions groups = .ok fragments) {index : Nat}
    (hindex : groups[index]? = some group) : fragments[index]? =
      some ⟨table.name, ⟨.partition, index⟩, group, table.rows.map (·.project group)⟩ := by
  obtain ⟨-, rfl⟩ := (partitions_eq_ok_iff h).1 hcut
  rw [List.getElem?_mapIdx, hindex, Option.map_some]

theorem partitions_eq_error (h : table.WellFormed) (hbad : ∃ group ∈ groups, ¬ table.Admits group) :
    ∃ e, table.partitions groups = .error e := by
  unfold partitions
  split
  · exact ⟨_, rfl⟩
  · next hgroups =>
    obtain ⟨group, hmem, hrefused⟩ := hbad
    exact absurd ((checkGroups_eq_ok_iff h.columns 0).1 hgroups group hmem) hrefused

/-! ## Fragments in order -/

/-- Fragments of the table, all of one kind, each with its position for its
index. -/
def Numbers (table : Table) (kind : FragmentKind) (fragments : List Fragment) : Prop :=
  ∀ (index : Nat) (fragment : Fragment), fragments[index]? = some fragment →
    fragment.table = table.name ∧ fragment.id = ⟨kind, index⟩

theorem numbers_shards {size : Nat} {fragments : List Fragment}
    (h : table.shards size = .ok fragments) : table.Numbers .shard fragments := by
  obtain ⟨-, rfl⟩ := shards_eq_ok_iff.1 h
  intro index fragment hfragment
  rw [List.getElem?_mapIdx, Option.map_eq_some_iff] at hfragment
  obtain ⟨rows, -, rfl⟩ := hfragment
  exact ⟨rfl, rfl⟩

theorem numbers_partitions {fragments : List Fragment}
    (h : table.partitions groups = .ok fragments) : table.Numbers .partition fragments := by
  obtain ⟨-, rfl⟩ := partitions_eq_ok_iff_checkGroups.1 h
  intro index fragment hfragment
  rw [List.getElem?_mapIdx, Option.map_eq_some_iff] at hfragment
  obtain ⟨group, -, rfl⟩ := hfragment
  exact ⟨rfl, rfl⟩

/-- **The shards together have the rows of the table**, in order. -/
theorem flatten_rows_shards {size : Nat} {fragments : List Fragment}
    (h : table.shards size = .ok fragments) : (fragments.map (·.rows)).flatten = table.rows := by
  obtain ⟨-, rfl⟩ := shards_eq_ok_iff.1 h
  have hruns : ((chunks size table.rows).mapIdx fun index rows =>
      (⟨table.name, ⟨.shard, index⟩, table.columns, rows⟩ : Fragment)).map (·.rows) =
        chunks size table.rows := by
    refine List.ext_getElem? fun index => ?_
    cases hrows : (chunks size table.rows)[index]? <;> simp [hrows]
  rw [hruns, flatten_chunks]

/-! ## Fragments as tables -/

/-- **A shard is read back as the table with its rows only.** -/
theorem WellFormed.ofDocument_shard (h : table.WellFormed) {size : Nat}
    {fragments : List Fragment} (hcut : table.shards size = .ok fragments) :
    ∀ fragment ∈ fragments,
      ofDocument table.name fragment.document = .ok { table with rows := fragment.rows } ∧
        WellFormed { table with rows := fragment.rows } := by
  intro fragment hmem
  have hrows : ∀ row ∈ fragment.rows, row ∈ table.rows := by
    intro row hrow
    rw [← flatten_rows_shards hcut]
    exact List.mem_flatten_of_mem (List.mem_map_of_mem hmem) hrow
  have hshard : WellFormed { table with rows := fragment.rows } :=
    ⟨h.name, h.columns, h.distinct, fun row hrow => h.rows row (hrows row hrow)⟩
  obtain ⟨-, rfl⟩ := shards_eq_ok_iff.1 hcut
  obtain ⟨index, hindex, rfl⟩ := List.mem_mapIdx.1 hmem
  exact ⟨ofDocument_document hshard, hshard⟩

/-- **A partition is read back as the table on its columns only.** -/
theorem WellFormed.ofDocument_partition (h : table.WellFormed) (hgroup : table.Admits group) :
    ofDocument table.name ⟨group, table.rows.map (·.project group)⟩ =
        .ok ⟨table.name, group, table.rows.map (·.project group)⟩ ∧
      WellFormed ⟨table.name, group, table.rows.map (·.project group)⟩ := by
  have hpartition : WellFormed ⟨table.name, group, table.rows.map (·.project group)⟩ := by
    refine ⟨h.name, fun c hc => h.columns c (hgroup.declared c hc), hgroup.distinct, ?_⟩
    intro row hrow c
    obtain ⟨source, -, rfl⟩ := List.mem_map.1 hrow
    exact Row.mem_project
  exact ⟨ofDocument_document hpartition, hpartition⟩

end Table

end ShardStore

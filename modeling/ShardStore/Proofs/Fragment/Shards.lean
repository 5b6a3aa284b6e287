import Mathlib.Algebra.Order.Floor.Div
import ShardStore.Proofs.Fragment
/-!
# Fragments — shards are runs of rows

The run of a list at a position has the elements from a multiple of the size
on, as many as there are up to the size (`getElem?_chunks`). So the number of
runs is the length over the size, rounded up, none is empty, and all but the
last are full. Shards are the runs of the rows of a table.
-/

namespace ShardStore

/-! ## Runs of a list -/

section runs

variable {α : Type} {size : Nat} {as : List α}

/-- **The run at a position**, where the list reaches as far. -/
theorem getElem?_chunks (hsize : 0 < size) (index : Nat) : (chunks size as)[index]? =
    if index * size < as.length then some ((as.drop (index * size)).take size) else none := by
  obtain ⟨n, rfl⟩ : ∃ n, size = n + 1 := ⟨size - 1, by omega⟩
  induction as using chunks.induct (n + 1) generalizing index with
  | case1 => simp [chunks]
  | case2 a as ih =>
    rw [chunks]
    cases index with
    | zero => simp
    | succ index =>
      -- The runs behind the first are those of the list without it.
      have hnext : (index + 1) * (n + 1) = index * (n + 1) + n + 1 := Nat.succ_mul index (n + 1)
      simp only [Nat.add_sub_cancel] at ih ⊢
      rw [List.getElem?_cons_succ, ih, List.length_drop, List.drop_drop, List.length_cons, hnext,
        List.drop_succ_cons, Nat.add_comm n (index * (n + 1))]
      simp only [Nat.lt_sub_iff_add_lt, Nat.add_lt_add_iff_right]

theorem lt_length_chunks_iff (hsize : 0 < size) {index : Nat} :
    index < (chunks size as).length ↔ index * size < as.length := by
  rw [← not_iff_not, Nat.not_lt, ← List.getElem?_eq_none_iff, getElem?_chunks hsize]
  simp

/-- There are as many runs as the size goes into the length, rounded up. -/
theorem length_chunks (hsize : 0 < size) : (chunks size as).length = as.length ⌈/⌉ size := by
  refine eq_of_forall_lt_iff fun index => ?_
  rw [lt_length_chunks_iff hsize, ← not_iff_not, not_lt, not_lt, ceilDiv_le_iff_le_mul hsize,
    mul_comm]

/-- The elements of a run are those up to the next run or the end. -/
theorem run_eq_extract (index : Nat) : (as.drop (index * size)).take size =
    as.extract (index * size) (min ((index + 1) * size) as.length) := by
  have hnext : (index + 1) * size = index * size + size := Nat.succ_mul index size
  rw [List.extract_eq_take_drop, List.take_eq_take_iff, List.length_drop]
  omega

end runs

namespace Table

variable {table : Table} {size : Nat} {fragments : List Fragment}

theorem shards_eq_error_iff {e : ExecutionError} :
    table.shards size = .error e ↔ size = 0 ∧ e = .zeroShardSize := by
  by_cases hsize : size = 0 <;> simp [shards, hsize, eq_comm]

theorem length_shards (h : table.shards size = .ok fragments) :
    fragments.length = (chunks size table.rows).length := by
  obtain ⟨-, rfl⟩ := shards_eq_ok_iff.1 h
  exact List.length_mapIdx

/-- **The shard at a position** has the run of rows there, which starts at a
row. -/
theorem getElem?_shards (h : table.shards size = .ok fragments) {index : Nat}
    {fragment : Fragment} (hfragment : fragments[index]? = some fragment) :
    index * size < table.rows.length ∧ fragment = ⟨table.name, ⟨.shard, index⟩, table.columns,
      (table.rows.drop (index * size)).take size⟩ := by
  obtain ⟨hsize, rfl⟩ := shards_eq_ok_iff.1 h
  rw [List.getElem?_mapIdx, getElem?_chunks (Nat.pos_of_ne_zero hsize)] at hfragment
  split at hfragment
  · next hlt =>
    cases hfragment
    exact ⟨hlt, rfl⟩
  · cases hfragment

/-- **Shards are exact runs of rows.** Only a size of zero is refused. For any
other size there are as many shards as it goes into the number of rows,
rounded up; each has the rows from its index times the size up to the next
such position or the last row, with all columns of the table; none is empty,
all but the last have as many rows as the size, and together they have the
rows of the table in order. -/
theorem shards_exact_runs (table : Table) (size : Nat) :
    (∀ e, table.shards size = .error e ↔ size = 0 ∧ e = .zeroShardSize) ∧
    (size ≠ 0 → ∃ fragments, table.shards size = .ok fragments ∧
      fragments.length = table.rows.length ⌈/⌉ size ∧
      (∀ (index : Nat) (fragment : Fragment), fragments[index]? = some fragment →
        fragment = ⟨table.name, ⟨.shard, index⟩, table.columns,
          table.rows.extract (index * size) (min ((index + 1) * size) table.rows.length)⟩ ∧
        fragment.rows ≠ [] ∧
        (index + 1 < fragments.length → fragment.rows.length = size)) ∧
      (table.rows = [] → fragments = []) ∧
      (fragments.map (·.rows)).flatten = table.rows) := by
  refine ⟨fun e => shards_eq_error_iff, fun hsize => ?_⟩
  have hpos := Nat.pos_of_ne_zero hsize
  obtain ⟨fragments, hcut⟩ : ∃ fragments, table.shards size = .ok fragments :=
    ⟨_, shards_eq_ok_iff.2 ⟨hsize, rfl⟩⟩
  have hlength := length_shards hcut
  refine ⟨fragments, hcut, hlength.trans (length_chunks hpos), fun index fragment hfragment => ?_,
    fun hempty => ?_, flatten_rows_shards hcut⟩
  · obtain ⟨hstart, rfl⟩ := getElem?_shards hcut hfragment
    refine ⟨by rw [run_eq_extract], fun hnone => ?_, fun hnext => ?_⟩
    · have hrows := congrArg List.length hnone
      simp only [List.length_take, List.length_drop, List.length_nil] at hrows
      omega
    · rw [hlength, lt_length_chunks_iff hpos, Nat.succ_mul] at hnext
      simp only [List.length_take, List.length_drop]
      omega
  · rw [← List.length_eq_zero_iff, hlength, hempty]
    simp [chunks]

/-- Twelve rows by five leave two for the last shard. By the greatest size of
64 bits they are one shard, and no size gives no shards. -/
theorem shards_exact_runs_twelve_rows :
    let rows : List Row := (List.range 12).map fun n => Row.ofPairs [("x", .text (toString n))]
    let table : Table := ⟨"events", ["x"], rows⟩
    (∃ fragments, table.shards 5 = .ok fragments ∧ fragments.length = 3 ∧
      fragments[2]? = some ⟨"events", ⟨.shard, 2⟩, ["x"], rows.extract 10 12⟩) ∧
    (∃ fragments, table.shards (2 ^ 64 - 1) = .ok fragments ∧ fragments.length = 1 ∧
      fragments[0]? = some ⟨"events", ⟨.shard, 0⟩, ["x"], rows.extract 0 12⟩) ∧
    table.shards 0 = .error .zeroShardSize := by
  intro rows table
  refine ⟨?_, ?_, ((shards_exact_runs table 0).1 _).2 ⟨rfl, rfl⟩⟩
  · obtain ⟨fragments, hcut, hlength, hrun, -⟩ := (shards_exact_runs table 5).2 (by decide)
    have hthree : fragments.length = 3 := hlength.trans (by decide)
    have hlast := List.getElem?_eq_getElem (l := fragments) (i := 2) (by omega)
    exact ⟨fragments, hcut, hthree, hlast.trans (congrArg some (hrun 2 _ hlast).1)⟩
  · obtain ⟨fragments, hcut, hlength, hrun, -⟩ :=
      (shards_exact_runs table (2 ^ 64 - 1)).2 (by decide)
    have hone : fragments.length = 1 := hlength.trans (by decide)
    have hfirst := List.getElem?_eq_getElem (l := fragments) (i := 0) (by omega)
    exact ⟨fragments, hcut, hone, hfirst.trans (congrArg some (hrun 0 _ hfirst).1)⟩

end Table

end ShardStore

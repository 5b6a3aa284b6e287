import ShardStore.Table
/-!
# Fragments

A table is cut across its rows into shards, which keep every column, or
across its columns into partitions, which keep every row. Shard `i` of
size `n` holds the rows from `i * n` up to `(i + 1) * n`; partition `i`
holds the columns of group `i`. A fragment is known by its kind and its
index, so shard 0 and partition 0 of one table are two fragments.
-/

namespace ShardStore

/-- How a fragment was cut from its table. -/
inductive FragmentKind where
  | shard
  | partition
deriving DecidableEq, Repr

namespace FragmentKind

/-- The word for a kind in the name of a fragment. -/
def tag : FragmentKind → String
  | shard => "shard"
  | partition => "partition"

/-- Shards come before partitions. -/
def position : FragmentKind → Nat
  | shard => 0
  | partition => 1

theorem position_inj {a b : FragmentKind} (h : a.position = b.position) : a = b := by
  cases a <;> cases b <;> simp_all [position]

end FragmentKind

/-- The identity of a fragment within its table. -/
structure FragmentId where
  kind : FragmentKind
  index : Nat
deriving DecidableEq, Repr

namespace FragmentId

/-- The name of a fragment, such as `shard-0`. -/
def name (id : FragmentId) : String :=
  id.kind.tag ++ "-" ++ toString id.index

/-- The JSON text of a fragment identity. -/
def json (id : FragmentId) : String :=
  let kind := match id.kind with
    | .shard => "Shard"
    | .partition => "Partition"
  "\x7b\"kind\":\"" ++ kind ++ "\",\"index\":" ++ toString id.index ++ "\x7d"

/-- Fragments are ordered by kind and then by index. -/
def order (a b : FragmentId) : Ordering :=
  compareLex (compareOn fun id : FragmentId => id.kind.position)
    (compareOn fun id : FragmentId => id.index) a b

instance : Ord FragmentId := ⟨order⟩

instance : Std.TransOrd FragmentId :=
  inferInstanceAs (Std.TransCmp (compareLex (compareOn fun id : FragmentId => id.kind.position)
    (compareOn fun id : FragmentId => id.index)))

instance : Std.LawfulEqOrd FragmentId where
  eq_of_compare {a b} h := by
    have h' : (compare a.kind.position b.kind.position).then (compare a.index b.index) = .eq := h
    obtain ⟨hk, hi⟩ := Ordering.then_eq_eq.mp h'
    have hk' := FragmentKind.position_inj (Nat.compare_eq_eq.mp hk)
    have hi' := Nat.compare_eq_eq.mp hi
    cases a; cases b; simp_all

end FragmentId

/-- A table cut from another one. -/
structure Fragment where
  table : String
  id : FragmentId
  columns : List String
  rows : List Row
deriving DecidableEq

namespace Fragment

/-- The document of a fragment. -/
def document (fragment : Fragment) : Document :=
  ⟨fragment.columns, fragment.rows⟩

end Fragment

/-- Runs of `size` elements in order, the last of which may be shorter. A
size of zero counts as one. -/
def chunks {α : Type} (size : Nat) : List α → List (List α)
  | [] => []
  | a :: as => (a :: as.take (size - 1)) :: chunks size (as.drop (size - 1))
termination_by as => as.length
decreasing_by simp only [List.length_cons, List.length_drop]; omega

namespace Table

/-- Cuts a table into shards of `size` rows. -/
def shards (table : Table) (size : Nat) : Except ExecutionError (List Fragment) :=
  if size = 0 then
    .error .zeroShardSize
  else
    .ok ((chunks size table.rows).mapIdx fun index rows =>
      ⟨table.name, ⟨.shard, index⟩, table.columns, rows⟩)

/-- Refuses a column group, whose position is `index`, that is empty, has
an undeclared column or repeats one. -/
def checkGroup (table : Table) (index : Nat) (group : List String) : Except ExecutionError Unit :=
  if group.isEmpty then
    .error (.emptyGroup index)
  else
    match table.checkDeclared group with
    | .error e => .error e
    | .ok () => checkColumnNames group

/-- Refuses a list of column groups, whose first position is `index`, for
the first group that is refused. -/
def checkGroups (table : Table) (index : Nat) : List (List String) → Except ExecutionError Unit
  | [] => .ok ()
  | group :: groups =>
    match table.checkGroup index group with
    | .error e => .error e
    | .ok () => checkGroups table (index + 1) groups

/-- Cuts a table into one partition for each column group. Every group is
checked before anything is cut. -/
def partitions (table : Table) (groups : List (List String)) :
    Except ExecutionError (List Fragment) :=
  match table.checkGroups 0 groups with
  | .error e => .error e
  | .ok () =>
    .ok (groups.mapIdx fun index group =>
      ⟨table.name, ⟨.partition, index⟩, group, table.rows.map (·.project group)⟩)

end Table

end ShardStore

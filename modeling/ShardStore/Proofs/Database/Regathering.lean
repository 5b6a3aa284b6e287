import Mathlib.Data.List.Sort
import ShardStore.Proofs.Database.Scattering
/-!
# Databases — a table is gathered from its shards

The shards that a cut yields are in the storage afterwards and have the rows
of the table (`Database.shards_after_cut`). But they need not be the only
ones: a storage has no way to take a document out, so where an earlier cut
made more shards, those with the higher indices stay, and rows are gathered
twice (`Database.not_shardsAreTable`).
-/

namespace ShardStore

namespace MemoryStore

/-- The shards kept for a table, by index. -/
def shardsOf (memory : MemoryStore) (name : String) : List FragmentId :=
  (memory.fragmentsOf name).filter (·.kind = .shard)

/-- The rows of some fragments of a table, loaded one after the other, if
all of them are kept. -/
def gather (memory : MemoryStore) (name : String) : List FragmentId → Option (List Row)
  | [] => some []
  | id :: ids =>
    match memory.documents[(⟨name, some id⟩ : DocumentKey)]?, memory.gather name ids with
    | some document, some rows => some (document.rows ++ rows)
    | _, _ => none

variable {memory : MemoryStore} {name : String}

theorem mem_shardsOf {id : FragmentId} : id ∈ memory.shardsOf name ↔
    id.kind = .shard ∧ memory.documents[(⟨name, some id⟩ : DocumentKey)]?.isSome = true := by
  rw [← Std.ExtTreeMap.mem_iff_isSome_getElem?, shardsOf, List.mem_filter, fragmentsOf,
    List.mem_filterMap]
  simp only [List.mem_filter, Std.ExtTreeMap.mem_keys, decide_eq_true_eq]
  constructor
  · rintro ⟨⟨⟨table, fragment⟩, ⟨hmem, htable⟩, hfragment⟩, hkind⟩
    obtain rfl : table = name := by simpa using htable
    obtain rfl : fragment = some id := hfragment
    exact ⟨hkind, hmem⟩
  · rintro ⟨hkind, hmem⟩
    exact ⟨⟨_, ⟨hmem, by simp⟩, rfl⟩, hkind⟩

/-- Shards come by index, each once. -/
theorem shardsOf_ascending (memory : MemoryStore) (name : String) :
    (memory.shardsOf name).Pairwise (·.index < ·.index) := by
  rw [shardsOf, List.pairwise_filter, fragmentsOf, List.pairwise_filterMap, List.pairwise_filter]
  refine memory.documents.ordered_keys.imp fun {key other} hlt hkey hother id hid id' hid' hkind
    hkind' => ?_
  obtain ⟨table, fragment⟩ := key
  obtain ⟨table', fragment'⟩ := other
  obtain rfl : table = name := by simpa using hkey
  obtain rfl : table' = table := by simpa using hother
  obtain rfl : fragment = some id := hid
  obtain rfl : fragment' = some id' := hid'
  obtain ⟨kind, index⟩ := id
  obtain ⟨kind', index'⟩ := id'
  obtain rfl : kind = .shard := by simpa using hkind
  obtain rfl : kind' = .shard := by simpa using hkind'
  -- Keys of one table and kind are ordered as their indices are.
  have hparts : (compare table' table').then ((compare 0 0).then (compare index index')) = .lt := hlt
  exact Nat.compare_eq_lt.1 (by simpa using hparts)

/-- **An ascending list of the shards that are kept is their list.** -/
theorem eq_shardsOf {ids : List FragmentId} (hascending : ids.Pairwise (·.index < ·.index))
    (h : ∀ id, id ∈ ids ↔ id ∈ memory.shardsOf name) : ids = memory.shardsOf name := by
  have : Std.Antisymm fun a b : FragmentId => a.index < b.index :=
    ⟨fun a b hab hba => absurd hab (Nat.lt_asymm hba)⟩
  have : Std.Irrefl fun a b : FragmentId => a.index < b.index := ⟨fun a => Nat.lt_irrefl a.index⟩
  exact hascending.eq_of_mem_iff (memory.shardsOf_ascending name) h

/-- The rows of fragments that are all kept are gathered in order. -/
theorem gather_fragments {fragments : List Fragment}
    (h : ∀ fragment ∈ fragments,
      memory.documents[(⟨name, some fragment.id⟩ : DocumentKey)]? = some fragment.document) :
    memory.gather name (fragments.map (·.id)) = some (fragments.map (·.rows)).flatten := by
  induction fragments with
  | nil => rfl
  | cons fragment fragments ih =>
    obtain ⟨hfirst, hrest⟩ := List.forall_mem_cons.1 h
    rw [List.map_cons, gather, hfirst, ih hrest]
    rfl

end MemoryStore

namespace Table.Numbers

variable {table : Table} {kind : FragmentKind} {fragments : List Fragment}

/-- The identities of numbered fragments are the first so many of the kind. -/
theorem map_id (h : table.Numbers kind fragments) :
    fragments.map (·.id) = (List.range fragments.length).map (⟨kind, ·⟩) := by
  refine List.ext_getElem? fun index => ?_
  rw [List.getElem?_map, List.getElem?_map]
  by_cases hlt : index < fragments.length
  · have hfragment := List.getElem?_eq_getElem hlt
    rw [hfragment, List.getElem?_range hlt, Option.map_some, Option.map_some, (h _ _ hfragment).2]
  · rw [List.getElem?_eq_none (by omega), List.getElem?_eq_none (by simpa using hlt)]
    rfl

theorem mem_ids (h : table.Numbers kind fragments) {id : FragmentId} :
    id ∈ fragments.map (·.id) ↔ id.kind = kind ∧ id.index < fragments.length := by
  rw [h.map_id, List.mem_map]
  constructor
  · rintro ⟨index, hindex, rfl⟩
    exact ⟨rfl, List.mem_range.1 hindex⟩
  · rintro ⟨rfl, hlt⟩
    exact ⟨id.index, List.mem_range.2 hlt, rfl⟩

end Table.Numbers

/-! ## The shards that are kept once others are put in -/

namespace MemoryStore

variable {memory later : MemoryStore} {table : Table} {fragments : List Fragment}

theorem documents_shard (h : table.Numbers .shard fragments)
    (hlater : later.documents = memory.documentsWith fragments) {id : FragmentId}
    (hkind : id.kind = .shard) : later.documents[(⟨table.name, some id⟩ : DocumentKey)]? =
      (fragments[id.index]?.map Fragment.document).or
        memory.documents[(⟨table.name, some id⟩ : DocumentKey)]? := by
  rw [hlater, getElem?_documentsWith h, if_pos (by rw [hkind])]

/-- The shards that were put in are there. -/
theorem documents_of_mem (h : table.Numbers .shard fragments)
    (hlater : later.documents = memory.documentsWith fragments) :
    ∀ fragment ∈ fragments,
      later.documents[(⟨table.name, some fragment.id⟩ : DocumentKey)]? =
        some fragment.document := by
  intro fragment hmem
  obtain ⟨index, hindex⟩ := List.mem_iff_getElem?.1 hmem
  obtain ⟨-, hid⟩ := h index fragment hindex
  rw [hid, documents_shard h hlater rfl, hindex]
  rfl

/-- Those with higher indices are as they were. -/
theorem documents_left (h : table.Numbers .shard fragments)
    (hlater : later.documents = memory.documentsWith fragments) {id : FragmentId}
    (hshard : id ∈ memory.shardsOf table.name) (hhigher : fragments.length ≤ id.index) :
    later.documents[(⟨table.name, some id⟩ : DocumentKey)]? =
      memory.documents[(⟨table.name, some id⟩ : DocumentKey)]? := by
  rw [documents_shard h hlater (mem_shardsOf.1 hshard).1, List.getElem?_eq_none hhigher]
  rfl

/-- **The shards that are kept are those that were put in, and those with
higher indices which were kept before.** -/
theorem shardsOf_documentsWith (h : table.Numbers .shard fragments)
    (hlater : later.documents = memory.documentsWith fragments) :
    later.shardsOf table.name = fragments.map (·.id) ++
      (memory.shardsOf table.name).filter (fragments.length ≤ ·.index) := by
  refine (eq_shardsOf ?_ fun id => ?_).symm
  · rw [h.map_id, List.pairwise_append]
    refine ⟨List.pairwise_map.2 List.pairwise_lt_range,
      (memory.shardsOf_ascending table.name).filter _, fun id hid other hother => ?_⟩
    obtain ⟨index, hindex, rfl⟩ := List.mem_map.1 hid
    have hlower := List.mem_range.1 hindex
    exact Nat.lt_of_lt_of_le hlower (of_decide_eq_true (List.mem_filter.1 hother).2)
  · rw [List.mem_append, h.mem_ids, List.mem_filter, mem_shardsOf, mem_shardsOf,
      decide_eq_true_eq]
    by_cases hkind : id.kind = .shard
    · rw [documents_shard h hlater hkind]
      by_cases hlt : id.index < fragments.length
      · simp [hkind, hlt]
      · have hle := Nat.le_of_not_lt hlt
        simp [hkind, hlt, hle]
    · simp [hkind]

end MemoryStore

namespace Database

/-- **A cut into shards has its shards stored, and the table can be gathered
from them.** After a cut that succeeds, the shards that are kept for the
table are those it yielded, each with its document, and after them those
which had been kept before with higher indices, each with the document it
had. The rows of the first are those of the table, in order; so where no
shard had a higher index, the shards that are kept are those of the cut and
have the rows of the table. -/
theorem shards_after_cut {db : Database MemoryStore} (h : db.Reachable) {name : String}
    {size : Nat} {fragments : List Fragment}
    (hout : (db.scaleHorizontally name size).1 = .ok fragments) :
    let later := (db.scaleHorizontally name size).2
    let left := (db.storage.shardsOf name).filter (fragments.length ≤ ·.index)
    ∃ table, later.tables[name]? = some table ∧
      later.storage.shardsOf name = fragments.map (·.id) ++ left ∧
      (∀ fragment ∈ fragments, Storage.load later.storage ⟨name, some fragment.id⟩ =
        .ok (some fragment.document)) ∧
      (∀ id ∈ left, Storage.load later.storage ⟨name, some id⟩ =
        Storage.load db.storage ⟨name, some id⟩) ∧
      later.storage.gather name (fragments.map (·.id)) = some table.rows ∧
      (left = [] → later.storage.shardsOf name = fragments.map (·.id) ∧
        later.storage.gather name (later.storage.shardsOf name) = some table.rows) := by
  intro later left
  have hscatter : db.scatter name (·.shards size) = (.ok fragments, later) := Prod.ext hout rfl
  obtain ⟨table, htable, hcut, hlater⟩ := scatter_eq_ok hscatter
  obtain ⟨rfl, -⟩ := h.wellFormed name table htable
  have hnumbers := Table.numbers_shards hcut
  have hdocuments : later.storage.documents = db.storage.documentsWith fragments := by rw [hlater]
  have hstored := MemoryStore.documents_of_mem hnumbers hdocuments
  have hkept : later.storage.shardsOf table.name = fragments.map (·.id) ++ left :=
    MemoryStore.shardsOf_documentsWith hnumbers hdocuments
  have hgathered : later.storage.gather table.name (fragments.map (·.id)) = some table.rows := by
    rw [MemoryStore.gather_fragments hstored, Table.flatten_rows_shards hcut]
  refine ⟨table, ?_, hkept, fun fragment hmem => congrArg Except.ok (hstored fragment hmem),
    fun id hid => ?_, hgathered, fun hnone => ?_⟩
  · rw [hlater]
    exact htable
  · obtain ⟨hshard, hhigher⟩ := List.mem_filter.1 hid
    exact congrArg Except.ok
      (MemoryStore.documents_left hnumbers hdocuments hshard (of_decide_eq_true hhigher))
  · rw [hkept, hnone, List.append_nil]
    exact ⟨rfl, hgathered⟩

/-! ## A cut into fewer shards -/

/-- Two rows, cut one by one. -/
def cutOneByOne : Database MemoryStore :=
  (Event.runAll [.ask (.createTable "t" ["x"]),
    .ask (.execute (.insert ⟨"t", ["x"], [.text "1"]⟩)),
    .ask (.execute (.insert ⟨"t", ["x"], [.text "2"]⟩)),
    .ask (.scaleHorizontally "t" 1)] (.empty {})).2

/-- The row with one text. -/
def cutRow (x : String) : Row :=
  Row.ofPairs [("x", .text x)]

theorem reachable_cutOneByOne : cutOneByOne.Reachable :=
  (Reachable.empty _).runAll _

/-- They are cut by two, into one shard, and the table stays as it is; so it
does where they are cut one by one again. -/
theorem scaleHorizontally_cutOneByOne : (cutOneByOne.scaleHorizontally "t" 2).1 =
      .ok [⟨"t", ⟨.shard, 0⟩, ["x"], [cutRow "1", cutRow "2"]⟩] ∧
    ∀ size ∈ [1, 2], (cutOneByOne.scaleHorizontally "t" size).2.tables["t"]? =
      some ⟨"t", ["x"], [cutRow "1", cutRow "2"]⟩ := by
  decide +kernel

/-- Both rows are in the one shard that is new, and the other one is left
over; cut one by one again, they are gathered from all shards. -/
theorem shards_after_cut_one_by_one :
    let later := (cutOneByOne.scaleHorizontally "t" 2).2
    let again := (cutOneByOne.scaleHorizontally "t" 1).2
    later.storage.shardsOf "t" = [⟨.shard, 0⟩] ++ [⟨.shard, 1⟩] ∧
      later.storage.gather "t" [⟨.shard, 0⟩] = some [cutRow "1", cutRow "2"] ∧
      again.storage.shardsOf "t" = [⟨.shard, 0⟩, ⟨.shard, 1⟩] ∧
      again.storage.gather "t" (again.storage.shardsOf "t") = some [cutRow "1", cutRow "2"] := by
  intro later again
  have hagain : (cutOneByOne.scaleHorizontally "t" 1).1 =
      .ok [⟨"t", ⟨.shard, 0⟩, ["x"], [cutRow "1"]⟩, ⟨"t", ⟨.shard, 1⟩, ["x"], [cutRow "2"]⟩] := by
    decide +kernel
  have hleft : (cutOneByOne.storage.shardsOf "t").filter (1 ≤ ·.index) = [⟨.shard, 1⟩] ∧
      (cutOneByOne.storage.shardsOf "t").filter (2 ≤ ·.index) = [] := by
    decide +kernel
  obtain ⟨hcut, htables⟩ := scaleHorizontally_cutOneByOne
  obtain ⟨table, htable, hkept, -, -, hgathered, -⟩ := shards_after_cut reachable_cutOneByOne hcut
  obtain ⟨table', htable', -, -, -, -, hall⟩ := shards_after_cut reachable_cutOneByOne hagain
  obtain ⟨hkept', hgathered'⟩ := hall hleft.2
  obtain rfl := Option.some.inj (htable.symm.trans (htables 2 (by decide)))
  obtain rfl := Option.some.inj (htable'.symm.trans (htables 1 (by decide)))
  exact ⟨hkept.trans (congrArg _ hleft.1), hgathered, hkept', hgathered'⟩

/-- After a cut into shards that succeeds, the shards that are kept for the
table are those it yielded, and have the rows of the table. -/
def ShardsAreTable : Prop :=
  ∀ (db : Database MemoryStore) (name : String) (size : Nat) (fragments : List Fragment),
    db.Reachable → (db.scaleHorizontally name size).1 = .ok fragments →
      let later := (db.scaleHorizontally name size).2
      later.storage.shardsOf name = fragments.map (·.id) ∧
        ∃ table, later.tables[name]? = some table ∧
          later.storage.gather name (later.storage.shardsOf name) = some table.rows

/-- **A cut into fewer shards leaves the others behind**, and a row that is in
one of them is gathered a second time. -/
theorem not_shardsAreTable : ¬ ShardsAreTable := by
  intro h
  obtain ⟨hcut, htables⟩ := scaleHorizontally_cutOneByOne
  obtain ⟨-, table, htable, hgathered⟩ := h cutOneByOne "t" 2 _ reachable_cutOneByOne hcut
  obtain rfl := Option.some.inj (htable.symm.trans (htables 2 (by decide)))
  have htwice : (cutOneByOne.scaleHorizontally "t" 2).2.storage.gather "t"
      ((cutOneByOne.scaleHorizontally "t" 2).2.storage.shardsOf "t") =
        some [cutRow "1", cutRow "2", cutRow "2"] := by
    decide +kernel
  cases htwice.symm.trans hgathered

end Database

end ShardStore

import Mathlib.Data.List.Sort
import ShardStore.Proofs.Storage.Directory
import ShardStore.Proofs.Storage.Memory
/-!
# Storage — the order of the listed names

Both storages list each table once and in order (`Ascending`), so what they
list is settled by which tables they list: two ascending lists with the
same names are one list.
-/

namespace ShardStore

open Text

/-- Each name stands before the names that are greater, and stands once. -/
def Ascending (names : List String) : Prop :=
  names.Pairwise (· < ·)

namespace Ascending

variable {names more : List String}

/-- **Ascending lists with the same names are the same.** -/
theorem eq_of_mem_iff (h₁ : Ascending names) (h₂ : Ascending more)
    (h : ∀ name, name ∈ names ↔ name ∈ more) : names = more := by
  exact List.Pairwise.eq_of_mem_iff h₁ h₂ h

/-- Names without repetition ascend once they are sorted. -/
theorem mergeSort (h : names.Nodup) : Ascending names.mergeSort := by
  have hsorted : names.mergeSort.Pairwise fun a b => decide (a ≤ b) = true := by
    refine List.pairwise_mergeSort (fun a b c hab hbc => ?_) (fun a b => ?_) names
    · exact decide_eq_true (String.le_trans (of_decide_eq_true hab) (of_decide_eq_true hbc))
    · simpa using String.le_total a b
  have hdistinct : names.mergeSort.Nodup := (List.mergeSort_perm names _).nodup_iff.2 h
  refine (List.pairwise_and_iff.2 ⟨hsorted, hdistinct⟩).imp fun ⟨hle, hne⟩ => ?_
  exact Std.lt_of_le_of_ne (of_decide_eq_true hle) hne

/-- One name more, in its place. -/
theorem insert (h : Ascending names) (name : String) : Ascending (names.insert name).mergeSort := by
  refine mergeSort ?_
  have hnames : names.Nodup := h.imp String.ne_of_lt
  by_cases hmem : name ∈ names
  · rwa [List.insert_of_mem hmem]
  · rw [List.insert_of_not_mem hmem]
    exact List.nodup_cons.2 ⟨hmem, hnames⟩

end Ascending

namespace Storage

variable {σ : Type} [Storage σ] {storage later : σ} {names : List String}

/-- A storage that lists its tables in order. -/
def InOrder (σ : Type) [Storage σ] : Prop :=
  ∀ {storage : σ} {names : List String}, Storage.tableNames storage = .ok names → Ascending names

/-- The list of tables once a document is stored: that of a base document
is put in its place, if it was not there. -/
def listedWith (key : DocumentKey) (names : List String) : List String :=
  if key.fragment = none then (names.insert key.table).mergeSort else names

/-- The same tables are listed as the same list. -/
theorem SameNames.tableNames (h : SameNames storage later) (ho : InOrder σ)
    (hnames : Storage.tableNames storage = .ok names) : Storage.tableNames later = .ok names := by
  obtain ⟨more, hmore, hiff⟩ := h names hnames
  rw [hmore, (ho hmore).eq_of_mem_iff (ho hnames) hiff]

/-- **A stored document puts its table in the list, or none**, over a storage
that lists what it stores. -/
theorem Stored.tableNames {key : DocumentKey} {document : Document}
    (h : Stored storage later key document) (ho : InOrder σ)
    (hlists : ∀ more, key.fragment = none → Storage.tableNames later = .ok more → key.table ∈ more)
    (hnames : Storage.tableNames storage = .ok names) :
    Storage.tableNames later = .ok (listedWith key names) := by
  obtain ⟨table, fragment⟩ := key
  cases fragment with
  | some id => exact h.sameTables.names.tableNames ho hnames
  | none =>
    obtain ⟨more, hmore, hold, hnew⟩ := h.names names hnames
    have hlisted := hlists more rfl hmore
    have hsorted : Ascending (names.insert table).mergeSort := (ho hnames).insert table
    rw [hmore, listedWith, if_pos rfl]
    refine congrArg Except.ok ((ho hmore).eq_of_mem_iff hsorted fun name => ?_)
    rw [List.mem_mergeSort, List.mem_insert_iff]
    constructor
    · intro hname
      rcases hnew name hname with hin | hkey
      · exact .inr hin
      · exact .inl (congrArg DocumentKey.table hkey).symm
    · rintro (rfl | hin)
      · exact hlisted
      · exact hold name hin

end Storage

/-- **Memory lists its tables in order**: so are the keys, and those of base
documents are ordered as their tables are. -/
theorem MemoryStore.inOrder : Storage.InOrder MemoryStore := by
  intro memory names hnames
  obtain rfl : memory.tableNames = names := Except.ok.inj hnames
  rw [Ascending, tableNames, List.pairwise_map, List.pairwise_filter]
  refine memory.documents.ordered_keys.imp fun {key other} hlt hkey hother => ?_
  obtain ⟨table, fragment⟩ := key
  obtain ⟨table', fragment'⟩ := other
  obtain rfl : fragment = none := by simpa using hkey
  obtain rfl : fragment' = none := by simpa using hother
  have hfirst : (compare table table').then (compare (none : Option FragmentId) none) = .lt := hlt
  have htable : compare table table' = .lt := by simpa using hfirst
  exact compareOfLessAndEq_eq_lt.1 htable

/-- **A directory lists its tables in order**: no file name is listed twice,
and each is that of one table. -/
theorem DirectoryStore.inOrder : Storage.InOrder DirectoryStore := by
  intro store names h
  replace h : store.tableNames = .ok names := h
  unfold tableNames at h
  split at h
  · split at h
    · cases h
    · next listed hlisted =>
      cases h
      refine .mergeSort ?_
      rw [List.Nodup, List.pairwise_filterMap]
      refine (Disk.nodup_listNames hlisted).imp fun hne name hname name' hname' heq => hne ?_
      rw [(tableOf?_eq_some_iff.1 hname).2, (tableOf?_eq_some_iff.1 hname').2, heq]
  · cases h
    exact .nil

end ShardStore

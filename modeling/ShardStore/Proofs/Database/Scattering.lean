import ShardStore.Proofs.Database.Partway
/-!
# Databases — fragments in memory

A storage in memory takes all fragments of a cut or none, since its writes
are not switched while a cut is stored (`MemoryStore.storeFragments_cases`).
So after an operation a fragment's document is the one that the operation
stored, which it then yields among its fragments, and otherwise the one there
was before (`Operation.Effect.documents_fragment`); and a cut leaves the base
documents alone (`Operation.Effect.documents_base`).
-/

namespace ShardStore

open Database

/-! ## All fragments or none -/

namespace MemoryStore

/-- The documents with those of some fragments put in. -/
def documentsWith (memory : MemoryStore) (fragments : List Fragment) :
    Std.ExtTreeMap DocumentKey Document :=
  memory.documents.insertMany (fragments.map fun fragment => (fragment.key, fragment.document))

variable {memory : MemoryStore} {fragments : List Fragment} {table : Table} {kind : FragmentKind}

theorem storeFragments_of_writes (h : memory.failWrites = false) :
    storeFragments memory fragments =
      (.ok (), { memory with documents := memory.documentsWith fragments }) := by
  induction fragments generalizing memory with
  | nil => simp [storeFragments, documentsWith]
  | cons fragment fragments ih =>
    let middle : MemoryStore :=
      { memory with documents := memory.documents.insert fragment.key fragment.document }
    have hstore : Storage.store memory ⟨fragment.table, some fragment.id⟩ fragment.document =
        (.ok (), middle) := store_of_writes h
    have hrest : storeFragments middle fragments = _ := ih h
    rw [storeFragments, hstore]
    simp only
    rw [hrest]
    simp [documentsWith, middle, Std.ExtTreeMap.insertMany_cons]

/-- **A storage in memory takes all fragments or none.** -/
theorem storeFragments_cases (memory : MemoryStore) (fragments : List Fragment) :
    (∃ e, storeFragments memory fragments = (.error e, memory)) ∨
      storeFragments memory fragments =
        (.ok (), { memory with documents := memory.documentsWith fragments }) := by
  by_cases hwrites : memory.failWrites = false
  · exact .inr (storeFragments_of_writes hwrites)
  · cases fragments with
    | nil => exact .inr (by simp [storeFragments, documentsWith])
    | cons fragment fragments =>
      refine .inl ⟨.writesDisabled, ?_⟩
      simp [storeFragments, Storage.store, store, hwrites]

/-- What stands under the key of a fragment then: its document, if it is one
of the fragments that were put in. -/
theorem getElem?_documentsWith (h : table.Numbers kind fragments) (name : String)
    (id : FragmentId) : (memory.documentsWith fragments)[(⟨name, some id⟩ : DocumentKey)]? =
      ((if (table.name, kind) = (name, id.kind) then fragments[id.index]? else none).map
        Fragment.document).or memory.documents[(⟨name, some id⟩ : DocumentKey)]? := by
  have hnone : (∀ fragment ∈ fragments, fragment.key ≠ ⟨name, some id⟩) →
      (memory.documentsWith fragments)[(⟨name, some id⟩ : DocumentKey)]? =
        memory.documents[(⟨name, some id⟩ : DocumentKey)]? := by
    intro hne
    refine Std.ExtTreeMap.getElem?_insertMany_list_of_contains_eq_false ?_
    simpa using hne
  split
  · next heq =>
    cases hfragment : fragments[id.index]? with
    | none =>
      refine hnone fun fragment hmem hkey => ?_
      rw [(h.eq_of_key hmem hkey).2] at hfragment
      cases hfragment
    | some fragment =>
      have hkey : fragment.key = ⟨name, some id⟩ := by
        cases heq
        exact h.key_eq hfragment
      have hpair : (fragment.key, fragment.document) ∈
          fragments.map fun fragment => (fragment.key, fragment.document) :=
        List.mem_map_of_mem (List.mem_of_getElem? hfragment)
      have hdistinct : (fragments.map fun fragment => (fragment.key, fragment.document)).Pairwise
          fun a b => ¬ compare a.1 b.1 = .eq := by
        refine List.pairwise_map.2 (h.keys_distinct.imp fun hne heq => hne ?_)
        exact Std.LawfulEqCmp.eq_of_compare heq
      rw [documentsWith, Std.ExtTreeMap.getElem?_insertMany_list_of_mem (by rw [hkey]; simp)
        hdistinct hpair]
      simp
  · next hne => exact hnone fun fragment hmem hkey => hne (h.eq_of_key hmem hkey).1

theorem getElem?_documentsWith_base (name : String) :
    (memory.documentsWith fragments)[DocumentKey.base name]? =
      memory.documents[DocumentKey.base name]? := by
  refine Std.ExtTreeMap.getElem?_insertMany_list_of_contains_eq_false ?_
  simp [DocumentKey.base, Fragment.key]

end MemoryStore

/-- A cut that succeeds over a storage in memory: the loaded table is cut,
all fragments are put in, and nothing else changes. -/
theorem Database.scatter_eq_ok {db later : Database MemoryStore} {name : String}
    {cut : Table → Except ExecutionError (List Fragment)} {fragments : List Fragment}
    (h : db.scatter name cut = (.ok fragments, later)) :
    ∃ table, db.tables[name]? = some table ∧ cut table = .ok fragments ∧
      later = ⟨db.tables, { db.storage with documents := db.storage.documentsWith fragments }⟩ := by
  unfold scatter at h
  split at h
  · cases h
  · next table htable =>
    split at h
    · cases h
    · next parts hcut =>
      rcases MemoryStore.storeFragments_cases db.storage parts with ⟨e, hstore⟩ | hstore
      · rw [hstore] at h
        cases h
      · rw [hstore] at h
        cases h
        exact ⟨table, htable, hcut, rfl⟩

/-! ## What an operation does to a fragment -/

/-- The fragment of one identity that an entry of a trace tells of: that of
a cut of the table which succeeded. -/
def Trace.fragment? (name : String) (id : FragmentId) :
    Operation × Except DatabaseError Operation.Yield → Option Fragment
  | (operation, .ok (.fragments fragments)) =>
    if operation.cuts? = some (name, id.kind) then fragments[id.index]? else none
  | _ => none

variable {db later : Database MemoryStore}

/-- A stored table is no fragment. -/
theorem Attempt.documents_fragment {name : String} {table : Table}
    {outcome : Except StorageError Unit} (h : Attempt db name table outcome later)
    (other : String) (id : FragmentId) :
    later.storage.documents[(⟨other, some id⟩ : DocumentKey)]? =
      db.storage.documents[(⟨other, some id⟩ : DocumentKey)]? := by
  cases h with
  | refused hstore =>
    obtain rfl := MemoryStore.store_eq_error hstore
    rfl
  | done hstore =>
    obtain rfl := MemoryStore.store_eq_ok hstore
    rw [Std.ExtTreeMap.getElem?_insert, if_neg]
    exact fun heq => nomatch Std.LawfulEqCmp.eq_of_compare heq

namespace Operation.Effect

variable {operation : Operation} {outcome : Except DatabaseError Operation.Yield}

/-- **A fragment's document is the one just stored, if one was**, and
otherwise the one that was there. -/
theorem documents_fragment (h : Effect db operation outcome later) (hdb : db.tables.WellFormed)
    (name : String) (id : FragmentId) :
    later.storage.documents[(⟨name, some id⟩ : DocumentKey)]? =
      ((Trace.fragment? name id (operation, outcome)).map Fragment.document).or
        db.storage.documents[(⟨name, some id⟩ : DocumentKey)]? := by
  cases h with
  | refused => rfl
  | selected => rfl
  | @created _ _ _ attempted _ _ _ hatt =>
    rw [hatt.documents_fragment]
    cases attempted <;> rfl
  | @inserted _ _ _ _ attempted _ _ _ _ hatt =>
    rw [hatt.documents_fragment]
    cases attempted <;> rfl
  | @cut _ other table fragments _ hop htable hcut =>
    obtain ⟨kind, hkind, hnumbers⟩ := numbers_of_cut hop hcut
    obtain ⟨rfl, -⟩ := hdb other table htable
    rcases MemoryStore.storeFragments_cases db.storage fragments with ⟨e, hstore⟩ | hstore
    · rw [hstore]
      rfl
    · rw [hstore]
      simp only [MemoryStore.getElem?_documentsWith hnumbers]
      simp [Except.mapError, Except.map, Trace.fragment?, hkind]
  | loaded =>
    rw [storage_loadTables]
    cases db.loadTables.1 <;> rfl

/-- **A cut changes no base document.** -/
theorem documents_base (h : Effect db operation outcome later) (hop : operation.cuts?.isSome = true)
    (name : String) : later.storage.documents[DocumentKey.base name]? =
      db.storage.documents[DocumentKey.base name]? := by
  cases h with
  | refused => rfl
  | selected => rfl
  | created => cases hop
  | inserted hstatement =>
    cases operation with
    | scaleHorizontally | scaleVertically => cases hstatement
    | _ => cases hop
  | @cut _ _ _ fragments =>
    rcases MemoryStore.storeFragments_cases db.storage fragments with ⟨e, hstore⟩ | hstore
    · rw [hstore]
    · rw [hstore]
      exact MemoryStore.getElem?_documentsWith_base name
  | loaded => cases hop

end Operation.Effect

end ShardStore

import ShardStore.Proofs.Storage.Contract
import ShardStore.Storage.Memory
/-!
# Storage — memory keeps the contract

Documents in memory are settled in every state: a refused store changes
nothing at all, and one that is carried out is an insertion in a map. What
is listed has a document, so also a name that is no identifier is found out
when its document is loaded.
-/

namespace ShardStore

namespace MemoryStore

/-- A table is listed exactly when it has a base document. -/
theorem mem_tableNames {memory : MemoryStore} {name : String} :
    name ∈ memory.tableNames ↔ DocumentKey.base name ∈ memory.documents := by
  simp only [tableNames, List.mem_map, List.mem_filter, Std.ExtTreeMap.mem_keys]
  constructor
  · rintro ⟨⟨table, fragment⟩, ⟨hmem, hbase⟩, rfl⟩
    obtain rfl : fragment = none := by simpa using hbase
    exact hmem
  · intro h
    exact ⟨.base name, ⟨h, rfl⟩, rfl⟩

variable {memory later : MemoryStore} {key : DocumentKey} {document : Document}

theorem store_eq_error {e : StorageError}
    (h : memory.store key document = (.error e, later)) : later = memory := by
  unfold store at h
  split at h
  · cases h
    rfl
  · cases h

theorem store_eq_ok (h : memory.store key document = (.ok (), later)) :
    later = { memory with documents := memory.documents.insert key document } := by
  unfold store at h
  split at h
  · cases h
  · cases h
    rfl

/-- With writes on no store is refused. -/
theorem store_of_writes (h : memory.failWrites = false) : memory.store key document =
    (.ok (), { memory with documents := memory.documents.insert key document }) := by
  rw [store, h, if_neg Bool.false_ne_true]

theorem stored_of_store (h : memory.store key document = (.ok (), later)) :
    Storage.Stored memory later key document := by
  obtain rfl := store_eq_ok h
  refine ⟨?_, fun other _ hne => ?_, fun names hnames => ?_⟩
  · simp [Storage.load, load]
  · have hother : (memory.documents.insert key document)[other]? = memory.documents[other]? := by
      rw [Std.ExtTreeMap.getElem?_insert, if_neg]
      exact fun hkey => hne (Std.LawfulEqCmp.eq_of_compare hkey).symm
    simp [Storage.load, load, hother]
  · obtain rfl : memory.tableNames = names := by simpa [Storage.tableNames] using hnames
    refine ⟨_, rfl, fun name hname => ?_, fun name hname => ?_⟩
    · rw [mem_tableNames] at hname ⊢
      exact Std.ExtTreeMap.mem_insert.2 (.inr hname)
    · rw [mem_tableNames] at hname ⊢
      rcases Std.ExtTreeMap.mem_insert.1 hname with hkey | hold
      · exact .inr (Std.LawfulEqCmp.eq_of_compare hkey)
      · exact .inl hold

/-- A refused store leaves every document, also under no identifier. -/
theorem spares (memory : MemoryStore) (key : DocumentKey) : Storage.Spares memory key := by
  intro other document e later hstore _
  obtain rfl := store_eq_error hstore
  rfl

/-- **Memory keeps the contract in every state.** -/
theorem contract : Storage.Contract fun _ : MemoryStore => True where
  listed {storage names name} _ hnames hname := by
    obtain rfl : storage.tableNames = names := by simpa [Storage.tableNames] using hnames
    rw [mem_tableNames] at hname
    refine .inr ⟨storage.documents[DocumentKey.base name], ?_⟩
    simp [Storage.load, load, Std.ExtTreeMap.getElem?_eq_some_getElem hname]
  refused _ h _ := by
    obtain rfl := store_eq_error h
    exact ⟨trivial, .refl _⟩
  stored _ h _ := ⟨trivial, stored_of_store h⟩

theorem lists : Storage.Lists fun _ : MemoryStore => True := by
  intro storage later name document names _ h _ hnames
  obtain rfl := store_eq_ok h
  obtain rfl := Except.ok.inj hnames
  exact mem_tableNames.2 (by simp)

end MemoryStore

end ShardStore

import ShardStore.Proofs.Disk.Path
import ShardStore.Storage.Directory
/-!
# Storage — the files of documents

An identifier holds no dot, so the first dot of a file name ends the table,
and what follows tells a fragment from a base document and one fragment
from another (`DocumentKey.fileName_inj`). A temporary file is told from
every document by its extension. Each of these names is a single step of a
path.
-/

namespace ShardStore

open Text

namespace Text

theorem not_mem_of_isIdentifier {s : String} (h : isIdentifier s = true) {c : Char}
    (hc : isIdentifierChar c = false) : c ∉ s.toList := by
  intro hmem
  have hall := (Bool.and_eq_true_iff.mp h).2
  rw [List.all_eq_true.mp hall c hmem] at hc
  cases hc

theorem ne_empty_of_isIdentifier {s : String} (h : isIdentifier s = true) : s ≠ "" := by
  rintro rfl
  cases h

end Text

namespace FragmentId

/-- The name of a fragment starts with its kind, and the index is read off
the digits behind it. -/
theorem name_inj {a b : FragmentId} (h : a.name = b.name) : a = b := by
  have hchars : a.name.toList = b.name.toList := congrArg String.toList h
  have hindex : ∀ {i j : Nat}, Nat.toDigits 10 i = Nat.toDigits 10 j → i = j := by
    intro i j hdigits
    rw [← Nat.ofDigitChars_ten_toDigits (n := i), hdigits, Nat.ofDigitChars_ten_toDigits]
  obtain ⟨kind, i⟩ := a
  obtain ⟨kind', j⟩ := b
  -- Two kinds differ in the first letter, and with one kind the digits are left.
  cases kind <;> cases kind' <;> simp [name, FragmentKind.tag] at hchars
  · rw [hindex hchars]
  · rw [hindex hchars]

/-- It holds no slash. -/
theorem slash_not_mem_name (id : FragmentId) : '/' ∉ id.name.toList := by
  obtain ⟨kind, i⟩ := id
  have hdigits : '/' ∉ Nat.toDigits 10 i := fun hmem => by
    have hdigit := Nat.isDigit_of_mem_toDigits (by decide) (by decide) hmem
    cases hdigit
  cases kind <;> simp [name, FragmentKind.tag, hdigits]

end FragmentId

namespace DocumentKey

variable {key other : DocumentKey} {name : String}

/-- The characters of a stem: those of the table, and for a fragment a dot
and those of its name. -/
theorem toList_stem (key : DocumentKey) : key.stem.toList =
    key.table.toList ++ (match key.fragment with
      | none => []
      | some id => '.' :: id.name.toList) := by
  unfold stem
  cases key.fragment with
  | none => simp
  | some id => simp

theorem slash_not_mem_stem (h : isIdentifier key.table = true) : '/' ∉ key.stem.toList := by
  have htable := not_mem_of_isIdentifier h (c := '/') rfl
  rw [toList_stem]
  cases key.fragment with
  | none => simpa using htable
  | some id => simpa [htable] using id.slash_not_mem_name

/-- The table goes up to the first dot, or to the end. -/
theorem takeWhile_stem (h : isIdentifier key.table = true) :
    key.stem.toList.takeWhile (· != '.') = key.table.toList := by
  have hdot := not_mem_of_isIdentifier h (c := '.') rfl
  have htable : ∀ c ∈ key.table.toList, (c != '.') = true := by
    intro c hc
    rw [bne_iff_ne]
    rintro rfl
    exact hdot hc
  rw [toList_stem, List.takeWhile_append_of_pos htable]
  cases key.fragment <;> simp

/-- **A stem tells its key.** -/
theorem stem_inj (h : isIdentifier key.table = true) (h' : isIdentifier other.table = true)
    (hstem : key.stem = other.stem) : key = other := by
  have htable : key.table = other.table := by
    rw [← String.toList_inj, ← takeWhile_stem h, ← takeWhile_stem h', hstem]
  -- Once the tables agree, what follows them is the same text as well.
  have hchars := congrArg String.toList hstem
  rw [toList_stem, toList_stem, htable] at hchars
  have hrest := List.append_cancel_left hchars
  obtain ⟨table, fragment⟩ := key
  obtain ⟨table', fragment'⟩ := other
  obtain rfl : table = table' := htable
  cases fragment with
  | none =>
    cases fragment' with
    | none => rfl
    | some id' => cases hrest
  | some id =>
    cases fragment' with
    | none => cases hrest
    | some id' => rw [FragmentId.name_inj (String.toList_inj.1 (List.cons.inj hrest).2)]

theorem fileName_inj (h : isIdentifier key.table = true) (h' : isIdentifier other.table = true)
    (hname : key.fileName = other.fileName) : key = other :=
  stem_inj h h' (by simpa [fileName] using hname)

theorem fileName_base (table : String) : (base table).fileName = table ++ ".json" := rfl

/-- **A document's file is one step of a path.** -/
theorem isName_fileName (h : isIdentifier key.table = true) : Path.IsName key.fileName := by
  have hslash := slash_not_mem_stem h
  refine Path.isName_of_length (by simpa [fileName] using hslash) ?_
  simp only [fileName, String.toList_append, List.length_append]
  exact Nat.lt_add_left _ (by decide)

/-- A stem is neither empty nor a dot, so the extension is put behind it. -/
theorem temporaryName_eq (h : isIdentifier key.table = true) :
    key.temporaryName = key.stem ++ ".json.tmp" := by
  have hpieces : Path.pieces key.stem = [key.stem] := by
    rw [Path.pieces, List.splitOn_eq_singleton (slash_not_mem_stem h)]
    simp
  have htable : key.table.toList ≠ [] := by simpa using ne_empty_of_isIdentifier h
  have hne : ∀ text : String, text.toList.takeWhile (· != '.') = [] → key.stem ≠ text := by
    rintro _ hnone rfl
    rw [takeWhile_stem h] at hnone
    exact htable hnone
  have hempty : key.stem ≠ "" := hne "" rfl
  have hdot : key.stem ≠ "." := hne "." rfl
  unfold temporaryName
  rw [hpieces]
  split
  · next heq => exact absurd (Option.some.inj heq) hempty
  · next heq => exact absurd (Option.some.inj heq) hdot
  · rfl

theorem isName_temporaryName (h : isIdentifier key.table = true) :
    Path.IsName key.temporaryName := by
  have hslash := slash_not_mem_stem h
  refine Path.isName_of_length (by simpa [temporaryName_eq h] using hslash) ?_
  simp only [temporaryName_eq h, String.toList_append, List.length_append]
  exact Nat.lt_add_left _ (by decide)

/-- **No document has the name of a temporary file.** -/
theorem temporaryName_ne_fileName (h : isIdentifier key.table = true) :
    key.temporaryName ≠ other.fileName := by
  intro heq
  have hlast := congrArg (fun s : String => s.toList.getLast?) heq
  simp [temporaryName_eq h, fileName] at hlast

end DocumentKey

namespace DirectoryStore

/-- **The listed names are the identifiers with a base document's file.** -/
theorem tableOf?_eq_some_iff {fileName table : String} : tableOf? fileName = some table ↔
    isIdentifier table = true ∧ fileName = (DocumentKey.base table).fileName := by
  have hsplit : ∀ {stem : List Char},
      fileName.toList.reverse = ".json".toList.reverse ++ stem ↔
        fileName = String.ofList stem.reverse ++ ".json" := by
    intro stem
    rw [← String.toList_inj, String.toList_append, String.toList_ofList, ← List.reverse_inj]
    simp
  unfold tableOf?
  split
  · next stem hstem =>
    have hname := hsplit.1 (after?_eq_some_iff.1 hstem)
    constructor
    · intro h
      dsimp only at h
      split at h
      · next hid =>
        cases h
        exact ⟨hid, hname⟩
      · cases h
    · rintro ⟨hid, heq⟩
      have htable : table = String.ofList stem.reverse := by
        rw [hname, DocumentKey.fileName_base] at heq
        exact ((String.append_left_inj _).1 heq).symm
      rw [← htable, if_pos hid]
  · next hnone =>
    refine iff_of_false (by simp) fun h => ?_
    have hstem : after? ".json".toList.reverse fileName.toList.reverse =
        some table.toList.reverse := by
      rw [after?_eq_some_iff, hsplit, h.2, DocumentKey.fileName_base]
      simp
    rw [hstem] at hnone
    cases hnone

end DirectoryStore

end ShardStore

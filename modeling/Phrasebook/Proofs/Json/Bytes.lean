import Mathlib.Algebra.Order.BigOperators.Group.List
import Phrasebook.Json.Reader

/-!
The bytes of texts. A character of ASCII has one byte, all bytes of other characters are above these, and
a text is had back from its bytes.
-/

set_option autoImplicit false

namespace Phrasebook.Json

def bytesOf (text : List Char) : List UInt8 := text.flatMap String.utf8EncodeChar

@[simp]
theorem bytesOf_append (a b : List Char) : bytesOf (a ++ b) = bytesOf a ++ bytesOf b :=
  List.flatMap_append

theorem utf8EncodeChar_of_ascii {c : Char} (ascii : c.toNat < 128) :
    String.utf8EncodeChar c = [byteOf c] := by
  have low : c.val.toNat ≤ 127 := Nat.le_of_lt_succ ascii
  simp only [String.utf8EncodeChar, low, if_true]
  rfl

theorem bytesOf_cons_of_ascii {c : Char} (ascii : c.toNat < 128) (text : List Char) :
    bytesOf (c :: text) = byteOf c :: bytesOf text := by
  rw [bytesOf, List.flatMap_cons, utf8EncodeChar_of_ascii ascii]
  rfl

theorem ofNat_byteOf {c : Char} (ascii : c.toNat < 128) : Char.ofNat (byteOf c).toNat = c := by
  have same : (byteOf c).toNat = c.toNat := Nat.mod_eq_of_lt (Nat.lt_of_lt_of_le ascii (by decide))
  rw [same, Char.ofNat_toNat]

theorem toNat_of_mem_utf8EncodeChar {c : Char} {byte : UInt8}
    (member : byte ∈ String.utf8EncodeChar c) : byte.toNat = c.toNat ∨ 128 ≤ byte.toNat := by
  simp only [String.utf8EncodeChar] at member
  split_ifs at member with one two three
  · left
    obtain rfl := List.mem_singleton.mp member
    change c.val.toNat % 256 = c.val.toNat
    omega
  all_goals
    right
    simp only [List.mem_cons, List.not_mem_nil, or_false] at member
    rcases member with rfl | rfl | rfl | rfl <;> simp [UInt8.toNat_ofNat'] <;> omega

theorem length_le_bytesOf_flatMap {write : Char → List Char} (full : ∀ c, write c ≠ [])
    (text : List Char) : text.length ≤ (bytesOf (text.flatMap write)).length := by
  have grows {α β : Type} {f : α → List β} (full : ∀ a, f a ≠ []) (list : List α) :
      list.length ≤ (list.flatMap f).length := by
    rw [List.length_flatMap, ← List.length_map (fun a => (f a).length)]
    refine List.length_le_sum_of_one_le _ fun count member => ?_
    obtain ⟨a, -, rfl⟩ := List.mem_map.mp member
    exact List.length_pos_iff.mpr (full a)
  have encoded : ∀ c, String.utf8EncodeChar c ≠ [] := fun c => by simp
  exact (grows full text).trans (grows encoded (text.flatMap write))

private theorem toList_loop (bytes : ByteArray) (start : Nat) (found : List UInt8) :
    ByteArray.toList.loop bytes start found = found.reverse ++ bytes.data.toList.drop start := by
  fun_induction ByteArray.toList.loop bytes start found with
  | case1 start found inside ih =>
    have long : start < bytes.data.toList.length := by simpa using inside
    rw [ih, List.drop_eq_getElem_cons long]
    simp [ByteArray.get!, inside]
  | case2 start found outside =>
    have short : bytes.data.toList.length ≤ start := by simpa using outside
    rw [List.drop_eq_nil_of_le short, List.append_nil]

theorem data_toUTF8 (text : String) : text.toUTF8.data.toList = bytesOf text.toList := by
  have data : (String.ofList text.toList).toUTF8.data.toList = bytesOf text.toList := by
    rw [String.toUTF8, String.toByteArray_ofList, List.utf8Encode, List.data_toByteArray]
    rfl
  rwa [String.ofList_toList] at data

theorem toList_toUTF8 (c : Char) : c.toString.toUTF8.toList = String.utf8EncodeChar c := by
  rw [ByteArray.toList, toList_loop, data_toUTF8]
  simp [bytesOf]

theorem fromUTF8?_bytesOf (text : String) :
    String.fromUTF8? (ByteArray.mk (bytesOf text.toList).toArray) = some text := by
  have same : ByteArray.mk (bytesOf text.toList).toArray = text.toByteArray := by
    rw [← data_toUTF8]
    rfl
  rw [same, String.fromUTF8?, dif_pos text.isValidUTF8]
  rfl

end Phrasebook.Json

import Mathlib.Data.List.Basic
import Navigability.Text.Lines

/-!
# Texts as bytes

A text is stored as the encodings of its characters, one behind another. An ASCII character is
encoded as one byte, and that byte occurs in the encoding of no other character. So the place of an
ASCII character in a text can be found in the bytes, without decoding them.

## Main definitions

* `encode s`: the bytes of the text `s`
* `IsAscii c`: whether the encoding of `c` is one byte

## Main results

* `bytes_ofString`: what the source of a text delivers
* `IsAscii.mem_encode_iff`, `IsAscii.getLast?_encode_iff`: an ASCII character among the bytes
* `decodeLine_eq_ok_iff`: the bytes that can be decoded are the bytes of texts
-/

namespace Navigability.Text

/-- The bytes of a text. -/
def encode (s : List Char) : List UInt8 := s.flatMap String.utf8EncodeChar

@[simp] theorem encode_nil : encode [] = [] := rfl

@[simp] theorem encode_append (s t : List Char) : encode (s ++ t) = encode s ++ encode t :=
  List.flatMap_append

@[simp] theorem encode_eq_nil_iff {s : List Char} : encode s = [] ↔ s = [] := by
  simp [encode, ← List.eq_nil_iff_forall_not_mem]

theorem toByteArray_encode (s : List Char) : (encode s).toByteArray = s.utf8Encode := rfl

theorem bytes_ofString (s : String) : (ByteSource.ofString s).bytes = encode s.toList := by
  rw [ByteSource.ofString, String.toUTF8_eq_toByteArray, ← String.utf8Encode_toList,
    ← toByteArray_encode, List.data_toByteArray]

/-! ## ASCII characters -/

/-- Whether the encoding of a character is one byte. -/
def IsAscii (c : Char) : Prop := c.val ≤ 127

instance (c : Char) : Decidable (IsAscii c) := inferInstanceAs (Decidable (c.val ≤ 127))

theorem le_or_of_le {b mask : UInt8} (high : 128 ≤ mask) : 128 ≤ b ||| mask := by
  rw [UInt8.le_iff_toNat_le] at high ⊢
  rw [UInt8.toNat_or]
  exact Nat.le_trans high Nat.right_le_or

/-- All bytes of a character that is not ASCII are above those of the ASCII characters: each is some
bits of the character, and a mask with the highest bit set. -/
theorem le_of_mem_utf8EncodeChar {c : Char} (wide : ¬ IsAscii c) {b : UInt8}
    (mem : b ∈ String.utf8EncodeChar c) : 128 ≤ b := by
  rcases Char.utf8Size_eq c with one | two | three | four
  · exact absurd (Char.utf8Size_eq_one_iff.1 one) wide
  · rw [String.utf8EncodeChar_eq_cons_cons two] at mem
    simp only [List.mem_cons, List.not_mem_nil, or_false] at mem
    rcases mem with rfl | rfl <;> exact le_or_of_le (by decide)
  · rw [String.utf8EncodeChar_eq_cons_cons_cons three] at mem
    simp only [List.mem_cons, List.not_mem_nil, or_false] at mem
    rcases mem with rfl | rfl | rfl <;> exact le_or_of_le (by decide)
  · rw [String.utf8EncodeChar_eq_cons_cons_cons_cons four] at mem
    simp only [List.mem_cons, List.not_mem_nil, or_false] at mem
    rcases mem with rfl | rfl | rfl | rfl <;> exact le_or_of_le (by decide)

namespace IsAscii

variable {a c : Char} {s : List Char}

theorem utf8EncodeChar_eq (ascii : IsAscii c) : String.utf8EncodeChar c = [c.toUInt8] :=
  String.utf8EncodeChar_eq_singleton (Char.utf8Size_eq_one_iff.2 ascii)

theorem encode_singleton (ascii : IsAscii c) : encode [c] = [c.toUInt8] := by
  rw [encode, List.flatMap_singleton, ascii.utf8EncodeChar_eq]

theorem toNat_toUInt8 (ascii : IsAscii c) : c.toUInt8.toNat = c.toNat := by
  have bound : c.val.toNat ≤ 127 := UInt32.le_iff_toNat_le.1 ascii
  rw [Char.toUInt8, UInt32.toNat_toUInt8, Char.toNat, Nat.mod_eq_of_lt (by omega)]

theorem mem_utf8EncodeChar_iff (ascii : IsAscii a) :
    a.toUInt8 ∈ String.utf8EncodeChar c ↔ c = a := by
  constructor
  · intro mem
    by_cases narrow : IsAscii c
    · rw [narrow.utf8EncodeChar_eq, List.mem_singleton] at mem
      have same := congrArg UInt8.toNat mem
      rw [ascii.toNat_toUInt8, narrow.toNat_toUInt8] at same
      exact (Char.toNat_inj.1 same).symm
    · have above := UInt8.le_iff_toNat_le.1 (le_of_mem_utf8EncodeChar narrow mem)
      rw [ascii.toNat_toUInt8] at above
      exact absurd (UInt32.le_iff_toNat_le.1 ascii) (Nat.not_le.2 above)
  · rintro rfl
    rw [ascii.utf8EncodeChar_eq]
    exact List.mem_singleton_self _

/-- **An ASCII character** is in a text when its byte is among the bytes. -/
theorem mem_encode_iff (ascii : IsAscii a) : a.toUInt8 ∈ encode s ↔ a ∈ s := by
  simp [encode, ascii.mem_utf8EncodeChar_iff]

theorem getLast?_encode_iff (ascii : IsAscii a) :
    (encode s).getLast? = some a.toUInt8 ↔ s.getLast? = some a := by
  rcases List.eq_nil_or_concat s with rfl | ⟨s, c, rfl⟩
  · simp
  · have last : (encode (s.concat c)).getLast? = (String.utf8EncodeChar c).getLast? := by
      rw [List.concat_eq_append, encode_append, List.getLast?_append_of_ne_nil]
      · simp [encode]
      · simp [encode]
    rw [last, List.concat_eq_append, List.getLast?_concat, Option.some_inj]
    constructor
    · intro same
      exact ascii.mem_utf8EncodeChar_iff.1 (List.mem_of_getLast? same)
    · rintro rfl
      rw [ascii.utf8EncodeChar_eq, List.getLast?_singleton]

end IsAscii

/-! ## Decoding -/

theorem fromUTF8?_eq_some_iff {bytes : ByteArray} {text : String} :
    String.fromUTF8? bytes = some text ↔ text.toByteArray = bytes := by
  rw [String.fromUTF8?]
  split
  · rw [Option.some_inj]
    constructor
    · rintro rfl
      rfl
    · rintro rfl
      rfl
  · next invalid =>
    refine iff_of_false (by simp) ?_
    rintro rfl
    exact invalid text.isValidUTF8

theorem decodeLine_encode (s : List Char) : decodeLine (encode s) = .ok s := by
  have found : String.fromUTF8? ⟨(encode s).toArray⟩ = some (String.ofList s) := by
    rw [fromUTF8?_eq_some_iff, String.toByteArray_ofList, ← toByteArray_encode]
    exact ByteArray.ext List.data_toByteArray
  simp only [decodeLine, found, String.toList_ofList]

/-- **Bytes that can be decoded** are the bytes of the text they are decoded to. -/
theorem decodeLine_eq_ok_iff {line : List UInt8} {s : List Char} :
    decodeLine line = .ok s ↔ line = encode s := by
  constructor
  · intro decoded
    rw [decodeLine] at decoded
    split at decoded
    · next text found =>
      rw [fromUTF8?_eq_some_iff, ← String.utf8Encode_toList, ← toByteArray_encode] at found
      have bytes := congrArg ByteArray.data found
      rw [List.data_toByteArray] at bytes
      rw [← Except.ok.inj decoded]
      exact (Array.toList_inj.2 bytes).symm
    · cases decoded
  · rintro rfl
    exact decodeLine_encode s

end Navigability.Text

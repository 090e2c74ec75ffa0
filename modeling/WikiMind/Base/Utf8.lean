import Mathlib.Data.List.Infix

/-!
# UTF-8

Library about the bytes of a text. Lead bytes are no continuation bytes and no encoded character
begins another one, so an encoded text is found in another one at the place of its first
character and nowhere in the middle of a character.
-/

namespace WikiMind.Base

/-- The bytes of a list of characters. -/
def encode (s : List Char) : List UInt8 := s.flatMap String.utf8EncodeChar

@[simp] theorem encode_nil : encode [] = [] := rfl

/-- The bytes of the first character come first. -/
theorem encode_cons (c : Char) (s : List Char) :
    encode (c :: s) = String.utf8EncodeChar c ++ encode s := List.flatMap_cons

@[simp] theorem encode_append (s t : List Char) : encode (s ++ t) = encode s ++ encode t :=
  List.flatMap_append

/-- The loop of `ByteArray.toList` from behind some bytes on. -/
private theorem toList_loop_append (front back read : List UInt8) :
    ByteArray.toList.loop (front ++ back).toByteArray front.length read = read.reverse ++ back := by
  induction back generalizing front read with
  | nil =>
    rw [ByteArray.toList.loop, if_neg (by simp)]
    simp
  | cons b back ih =>
    have hget : (front ++ b :: back).toByteArray.get! front.length = b := by
      simp [ByteArray.get!]
    have hnext := ih (front ++ [b]) (b :: read)
    rw [List.append_assoc, List.length_append] at hnext
    rw [ByteArray.toList.loop, if_pos (by simp), hget]
    exact hnext.trans (by simp)

/-- The bytes of a string are those of its characters. -/
theorem toUTF8_toList (s : List Char) : (String.ofList s).toUTF8.toList = encode s := by
  have hbytes : (String.ofList s).toUTF8 = (encode s).toByteArray := String.toByteArray_ofList
  rw [hbytes]
  exact toList_loop_append [] (encode s) []

/-- Only the empty text has no bytes. -/
theorem encode_eq_nil_iff {s : List Char} : encode s = [] ↔ s = [] := by
  cases s with
  | nil => simp
  | cons c s => simp [encode_cons]

/-- An encoded character that begins with another one is that character. -/
theorem eq_of_encoded_append {c d : Char} {s t : List UInt8}
    (h : String.utf8EncodeChar c ++ s = String.utf8EncodeChar d ++ t) : c = d := by
  have hc := @ByteArray.utf8DecodeChar?_utf8EncodeChar_append s.toByteArray c
  have hd := @ByteArray.utf8DecodeChar?_utf8EncodeChar_append t.toByteArray d
  rw [← List.toByteArray_append] at hc hd
  rw [h, hd] at hc
  exact (Option.some.inj hc).symm

/-- A text cannot be found in the middle of a character. -/
theorem not_encoded_within {c d : Char} {i : Nat} {s t : List UInt8} (hpos : 0 < i)
    (hi : i < (String.utf8EncodeChar d).length) :
    ¬ String.utf8EncodeChar c ++ s <+: (String.utf8EncodeChar d ++ t).drop i := by
  rintro ⟨rest, h⟩
  have hzero : 0 < (String.utf8EncodeChar c).length :=
    List.length_pos_of_ne_nil String.utf8EncodeChar_ne_nil
  have hfirst : (String.utf8EncodeChar c)[0] = (String.utf8EncodeChar d)[i] := by
    have hget := congrArg (fun l ↦ l[0]?) h
    rw [List.append_assoc, List.getElem?_append_left hzero, List.getElem?_drop, Nat.add_zero,
      List.getElem?_append_left hi, List.getElem?_eq_getElem hzero,
      List.getElem?_eq_getElem hi] at hget
    exact Option.some.inj hget
  have hlead : (String.utf8EncodeChar c)[0].IsUTF8FirstByte :=
    UInt8.isUTF8FirstByte_getElem_zero_utf8EncodeChar
  rw [hfirst, UInt8.isUTF8FirstByte_getElem_utf8EncodeChar] at hlead
  omega

/-- A text is not found in one that does not have its first character. -/
theorem not_encoded_of_not_mem {c : Char} {gap : List Char} (hc : c ∉ gap) {i : Nat}
    (hi : i < (encode gap).length) (s t : List UInt8) :
    ¬ String.utf8EncodeChar c ++ s <+: (encode gap ++ t).drop i := by
  induction gap generalizing i with
  | nil => exact absurd hi (Nat.not_lt_zero i)
  | cons d gap ih =>
    rw [List.mem_cons, not_or] at hc
    rw [encode_cons, List.append_assoc]
    by_cases hpos : i = 0
    · rintro ⟨rest, h⟩
      rw [hpos, List.drop_zero, List.append_assoc] at h
      exact hc.1 (eq_of_encoded_append h)
    by_cases hin : i < (String.utf8EncodeChar d).length
    · exact not_encoded_within (Nat.pos_of_ne_zero hpos) hin
    · -- behind the first character
      have hle : (String.utf8EncodeChar d).length ≤ i := Nat.le_of_not_lt hin
      rw [List.drop_append, List.drop_eq_nil_of_le hle, List.nil_append]
      apply ih hc.2
      rw [encode_cons, List.length_append] at hi
      omega

/-- The text of some bytes; `none` if they are not UTF-8. -/
def decodeUtf8 (bytes : List UInt8) : Option (List Char) :=
  bytes.toByteArray.utf8Decode?.map Array.toList

private theorem utf8Encode_eq (s : List Char) : s.utf8Encode = (encode s).toByteArray := rfl

@[simp] theorem decodeUtf8_encode (s : List Char) : decodeUtf8 (encode s) = some s := by
  rw [decodeUtf8, ← utf8Encode_eq, List.utf8Decode?_utf8Encode]
  rfl

/-- Different texts have different bytes. -/
theorem encode_injective {s t : List Char} (h : encode s = encode t) : s = t := by
  have hs := decodeUtf8_encode s
  rw [h, decodeUtf8_encode] at hs
  exact (Option.some.inj hs).symm
end WikiMind.Base

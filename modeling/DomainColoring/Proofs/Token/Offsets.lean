import DomainColoring.Token.Scanner

/-!
# Offsets

What is found at the offset that some characters of a text lead up to: characters begin there, the text is
cut there into the characters before and after, and the byte there is the first one of the next character.
-/

namespace DomainColoring

section Lengths

variable {cs ds : List Char}

theorem byteLength_append : byteLength (cs ++ ds) = byteLength cs + byteLength ds := by
  induction cs with
  | nil => exact (Nat.zero_add _).symm
  | cons c cs ih => rw [List.cons_append, byteLength, byteLength, ih, Nat.add_assoc]

theorem byteLength_pos (h : cs ≠ []) : 0 < byteLength cs := by
  obtain ⟨c, cs, rfl⟩ := List.exists_cons_of_ne_nil h
  exact Nat.add_pos_left c.utf8Size_pos _

theorem length_utf8EncodeChars (cs : List Char) :
    (cs.flatMap String.utf8EncodeChar).length = byteLength cs := by
  induction cs with
  | nil => rfl
  | cons c cs ih =>
    rw [List.flatMap_cons, List.length_append, ih, String.length_utf8EncodeChar, byteLength]

theorem size_utf8Encode (cs : List Char) : cs.utf8Encode.size = byteLength cs := by
  rw [List.utf8Encode, List.size_toByteArray, length_utf8EncodeChars]

end Lengths

section Texts

variable {text : String} {before middle after : List Char}

theorem toByteArray_eq (text : String) : text.toByteArray = text.toList.utf8Encode := by
  rw [← String.toByteArray_ofList, String.ofList_toList]

theorem byteLength_toList (text : String) : byteLength text.toList = text.utf8ByteSize := by
  rw [← size_utf8Encode, ← toByteArray_eq, String.size_toByteArray]

/-- Characters begin, or the text ends, after characters that a text starts with. -/
theorem isValid_byteLength (split : text.toList = before ++ after) :
    (String.Pos.Raw.mk (byteLength before)).IsValid text := by
  refine String.Pos.Raw.isValid_iff_exists_append.2 ⟨.ofList before, .ofList after, ?_, ?_⟩
  · rw [← String.ofList_append, ← split, String.ofList_toList]
  · rw [String.Pos.Raw.ext_iff, String.byteIdx_rawEndPos, ← String.size_toByteArray,
      String.toByteArray_ofList, size_utf8Encode]

/-- Between the offsets before and after some characters a text has these characters. -/
theorem sliceBetween?_eq (split : text.toList = before ++ middle ++ after) :
    sliceBetween? text (byteLength before) (byteLength (before ++ middle)) =
      some (String.ofList middle) := by
  have first : (String.Pos.Raw.mk (byteLength before)).IsValid text :=
    isValid_byteLength (split.trans (List.append_assoc _ _ _))
  have last := isValid_byteLength split
  have le : byteLength before ≤ byteLength (before ++ middle) := by
    rw [byteLength_append]
    exact Nat.le_add_right _ _
  have bytes : text.toByteArray.extract (byteLength before) (byteLength (before ++ middle)) =
      middle.utf8Encode := by
    rw [toByteArray_eq, split, List.append_assoc, List.utf8Encode_append, List.utf8Encode_append,
      byteLength_append]
    exact (ByteArray.extract_append_size_add' (i := 0) (size_utf8Encode before).symm).trans
      (ByteArray.extract_append_eq_left (size_utf8Encode middle).symm)
  rw [sliceBetween?, dif_pos ⟨first, last, le⟩, Option.some_inj, ← String.toByteArray_inj,
    String.toByteArray_extract, String.toByteArray_ofList]
  exact bytes

end Texts

section Bytes

variable {text : String} {before ds after : List Char}

/-- What is no character of ASCII is encoded by bytes that are none. -/
theorem classes_of_high_byte {n : Nat} (low : 192 ≤ n) (high : n < 256) :
    isDigitByte (UInt8.ofNat n) = false ∧ UInt8.ofNat n ≠ pointByte := by
  have range : (UInt8.ofNat n).toNat = n := UInt8.toNat_ofNat_of_lt' high
  constructor
  · simp only [isDigitByte, range, Bool.and_eq_false_iff, decide_eq_false_iff_not]
    omega
  · intro point
    rw [point] at range
    exact absurd range (by simp only [pointByte, UInt8.reduceToNat]; omega)

/-- The first byte of a character tells whether it is a digit or a point. -/
theorem exists_utf8EncodeChar_eq (c : Char) :
    ∃ b bs, String.utf8EncodeChar c = b :: bs ∧ isDigitByte b = c.isDigit ∧
      (b = pointByte ↔ c = '.') := by
  have ascii : ∀ n ≤ 127, isDigitByte (UInt8.ofNat n) = (Char.ofNat n).isDigit ∧
      (UInt8.ofNat n = pointByte ↔ Char.ofNat n = '.') := by decide
  have other {n : Nat} (large : ¬c.val.toNat ≤ 127) (low : 192 ≤ n) (high : n < 256) :
      isDigitByte (UInt8.ofNat n) = c.isDigit ∧ (UInt8.ofNat n = pointByte ↔ c = '.') := by
    obtain ⟨noDigit, noPoint⟩ := classes_of_high_byte low high
    refine ⟨noDigit.trans (Eq.symm ?_), iff_of_false noPoint ?_⟩
    · rw [Char.isDigit, Bool.and_eq_false_iff, decide_eq_false_iff_not, decide_eq_false_iff_not]
      exact .inr fun le => large (Nat.le_trans (UInt32.le_iff_toNat_le.1 le) (by decide))
    · rintro rfl
      exact large (by decide)
  unfold String.utf8EncodeChar
  dsimp only
  split
  · next small =>
    refine ⟨_, _, rfl, ?_⟩
    have classes := ascii c.toNat small
    rwa [Char.ofNat_toNat] at classes
  next large =>
  split
  · exact ⟨_, _, rfl, other large (by omega) (by omega)⟩
  split
  · exact ⟨_, _, rfl, other large (by omega) (by omega)⟩
  · exact ⟨_, _, rfl, other large (by omega) (by omega)⟩

/-- The bytes of a text, one character after the other. -/
theorem getElem?_toByteArray (text : String) (i : Nat) :
    text.toByteArray[i]? = (text.toList.flatMap String.utf8EncodeChar)[i]? := by
  have bytes : text.toByteArray.data.toList = text.toList.flatMap String.utf8EncodeChar := by
    rw [toByteArray_eq, List.utf8Encode, List.data_toByteArray]
  rw [← bytes, getElem?_def, getElem?_def]
  rfl

theorem getElem?_byteLength (split : text.toList = before ++ after) :
    text.toByteArray[byteLength before]? = (after.flatMap String.utf8EncodeChar)[0]? := by
  rw [getElem?_toByteArray, split, List.flatMap_append,
    List.getElem?_append_right (Nat.le_of_eq (length_utf8EncodeChars before)),
    length_utf8EncodeChars, Nat.sub_self]

/-- There is a digit in the bytes where there is one among the characters. -/
theorem any_isDigitByte (split : text.toList = before ++ after) :
    text.toByteArray[byteLength before]?.any isDigitByte = after.head?.any Char.isDigit := by
  rw [getElem?_byteLength split]
  cases after with
  | nil => rfl
  | cons c after =>
    obtain ⟨b, bs, bytes, digit, -⟩ := exists_utf8EncodeChar_eq c
    rw [List.flatMap_cons, bytes]
    exact digit

/-- There is a point in the bytes where there is one among the characters. -/
theorem eq_pointByte_iff (split : text.toList = before ++ after) :
    text.toByteArray[byteLength before]? = some pointByte ↔ after.head? = some '.' := by
  rw [getElem?_byteLength split]
  cases after with
  | nil => simp
  | cons c after =>
    obtain ⟨b, bs, bytes, -, point⟩ := exists_utf8EncodeChar_eq c
    rw [List.flatMap_cons, bytes]
    simpa using point

end Bytes

end DomainColoring

import ProjectHub.Proofs.Run
import ProjectHub.Text.Hex
import ProjectHub.Text.Utf8

/-!
# The bytes of a text

A text is determined by its bytes, and read back from them. A text of bytes below 128
has exactly these bytes. In percent encoding what is kept stands for itself, and each byte
of all else is a percent sign and two digits; if no percent sign is kept, the bytes of a
text are what its encoding stands for.
-/

namespace ProjectHub.Text

theorem toList_loop (bytes : ByteArray) (i : Nat) (seen : List UInt8) :
    ByteArray.toList.loop bytes i seen = seen.reverse ++ bytes.data.toList.drop i := by
  fun_induction ByteArray.toList.loop bytes i seen with
  | case1 i seen hlt ih =>
      have hi : i < bytes.data.toList.length := hlt
      have hget : bytes.get! i = bytes.data.toList[i] := by
        rw [ByteArray.get!, getElem!_pos bytes.data i hlt, Array.getElem_toList]
      rw [ih, List.reverse_cons, List.append_assoc, List.drop_eq_getElem_cons hi, hget]
      rfl
  | case2 i seen hnot =>
      have hi : bytes.data.toList.length ≤ i := Nat.not_lt.mp hnot
      rw [List.drop_eq_nil_of_le hi, List.append_nil]

theorem toList_byteArray (bytes : ByteArray) : bytes.toList = bytes.data.toList := by
  rw [ByteArray.toList, toList_loop]
  rfl

/-- The bytes of a text are those of its characters. -/
theorem toList_toUTF8 (s : String) : s.toUTF8.toList = s.toList.flatMap String.utf8EncodeChar := by
  rw [toList_byteArray, String.toUTF8, ← String.utf8Encode_toList, List.utf8Encode,
    List.toList_data_toByteArray]

theorem toUTF8_injective {s t : String} (h : s.toUTF8.toList = t.toUTF8.toList) : s = t := by
  rw [toList_byteArray, toList_byteArray] at h
  rw [← String.toByteArray_inj]
  exact ByteArray.ext (Array.toList_inj.mp h)

theorem utf8EncodeChar_of_lt :
    ∀ n < 128, String.utf8EncodeChar (Char.ofNat n) = [UInt8.ofNat n] := by
  decide

/-- A text made of bytes below 128 has these bytes. -/
theorem toList_toUTF8_ofList {bytes : List UInt8} (h : ∀ b ∈ bytes, b.toNat < 128) :
    (String.ofList (bytes.map fun b => Char.ofNat b.toNat)).toUTF8.toList = bytes := by
  rw [toList_toUTF8, String.toList_ofList]
  induction bytes with
  | nil => rfl
  | cons b bytes ih =>
      obtain ⟨hb, hbytes⟩ := List.forall_mem_cons.mp h
      rw [List.map_cons, List.flatMap_cons, utf8EncodeChar_of_lt _ hb, ih hbytes, UInt8.ofNat_toNat]
      rfl

private theorem toNat_ofNat_byte {n : Nat} (h : n < 256) : (UInt8.ofNat n).toNat = n := by
  rw [UInt8.toNat_ofNat', Nat.mod_eq_of_lt h]

theorem continuation_byte {code following least greatest n : Nat} {rest : List UInt8}
    (hn : n < 256) (hleast : least ≤ n) (hgreatest : n ≤ greatest) :
    continuation code (following + 1) least greatest (UInt8.ofNat n :: rest) =
      continuation (64 * code + (n - 0x80)) following 0x80 0xBF rest := by
  rw [continuation, toNat_ofNat_byte hn, if_pos ⟨hleast, hgreatest⟩]

/-- The first character of the bytes of a text is the first of the text. -/
theorem nextChar_utf8EncodeChar (c : Char) (rest : List UInt8) :
    ∃ byte tail, String.utf8EncodeChar c = byte :: tail ∧
      nextChar byte (tail ++ rest) = (some c, rest) := by
  have hvalid : c.toNat < 0xD800 ∨ 0xDFFF < c.toNat ∧ c.toNat < 0x110000 := c.valid
  have hback : Char.ofNat c.toNat = c := Char.ofNat_toNat c
  unfold String.utf8EncodeChar
  simp only [show c.val.toNat = c.toNat from rfl]
  generalize c.toNat = v at *
  split
  · refine ⟨_, _, rfl, ?_⟩
    rw [nextChar, toNat_ofNat_byte (by omega), if_pos (by omega), hback]
    rfl
  split
  · refine ⟨_, _, rfl, ?_⟩
    rw [nextChar, toNat_ofNat_byte (by omega), if_neg (by omega), lead?,
      toNat_ofNat_byte (by omega), if_pos (by omega)]
    simp only [List.cons_append, List.nil_append]
    rw [continuation_byte (by omega) (by omega) (by omega), continuation, Option.map_some, ← hback]
    refine congrArg (fun n => (some (Char.ofNat n), rest)) ?_
    omega
  split
  · refine ⟨_, _, rfl, ?_⟩
    rw [nextChar, toNat_ofNat_byte (by omega), if_neg (by omega), lead?,
      toNat_ofNat_byte (by omega), if_neg (by omega), if_pos (by omega)]
    simp only [List.cons_append, List.nil_append]
    rw [continuation_byte (by omega) (by split <;> omega) (by split <;> omega),
      continuation_byte (by omega) (by omega) (by omega), continuation, Option.map_some, ← hback]
    refine congrArg (fun n => (some (Char.ofNat n), rest)) ?_
    omega
  · refine ⟨_, _, rfl, ?_⟩
    rw [nextChar, toNat_ofNat_byte (by omega), if_neg (by omega), lead?,
      toNat_ofNat_byte (by omega), if_neg (by omega), if_neg (by omega), if_pos (by omega)]
    simp only [List.cons_append, List.nil_append]
    rw [continuation_byte (by omega) (by split <;> omega) (by split <;> omega),
      continuation_byte (by omega) (by omega) (by omega),
      continuation_byte (by omega) (by omega) (by omega), continuation, Option.map_some, ← hback]
    refine congrArg (fun n => (some (Char.ofNat n), rest)) ?_
    omega

theorem decodeChars_flatMap (cs : List Char) :
    decodeChars (cs.flatMap String.utf8EncodeChar) = cs.map some := by
  induction cs with
  | nil => rw [List.flatMap_nil, decodeChars, List.map_nil]
  | cons c cs ih =>
      obtain ⟨byte, tail, hbytes, hnext⟩ :=
        nextChar_utf8EncodeChar c (cs.flatMap String.utf8EncodeChar)
      rw [List.flatMap_cons, hbytes, List.cons_append, decodeChars, hnext, ih, List.map_cons]

/-- A text is read back from its bytes. -/
theorem ofUtf8?_toUtf8 (s : String) : ofUtf8? (toUtf8 s) = some s := by
  have hall : (s.toList.map some).mapM id = some s.toList := mapM_map_eq_some fun _ _ => rfl
  rw [ofUtf8?, toUtf8, toList_toUTF8, decodeChars_flatMap, hall, Option.map_some,
    String.ofList_toList]

/-- Nothing is replaced in the bytes of a text. -/
theorem ofUtf8Lossy_toUtf8 (s : String) : ofUtf8Lossy (toUtf8 s) = s := by
  rw [ofUtf8Lossy, toUtf8, toList_toUTF8, decodeChars_flatMap, List.map_map]
  exact (congrArg String.ofList (List.map_id _)).trans String.ofList_toList

/-- Bytes are kept exactly where they are those of a text. -/
theorem toUtf8_ofUtf8Lossy_eq_iff {bytes : List UInt8} :
    toUtf8 (ofUtf8Lossy bytes) = bytes ↔ ∃ s, toUtf8 s = bytes := by
  constructor
  · exact fun h => ⟨_, h⟩
  · rintro ⟨s, rfl⟩
    rw [ofUtf8Lossy_toUtf8]

/-! ## Percent encoding -/

theorem toUtf8_ofList (cs : List Char) :
    toUtf8 (String.ofList cs) = cs.flatMap String.utf8EncodeChar := by
  rw [toUtf8, toList_toUTF8, String.toList_ofList]

theorem toUtf8_injective {s t : String} (h : toUtf8 s = toUtf8 t) : s = t :=
  toUTF8_injective h

theorem utf8EncodeChar_ascii {c : Char} (h : c.toNat < 128) :
    String.utf8EncodeChar c = [UInt8.ofNat c.toNat] := by
  have hchar := utf8EncodeChar_of_lt c.toNat h
  rwa [Char.ofNat_toNat] at hchar

theorem hexDigitUpper_lt : ∀ n < 16, (hexDigitUpper n).toNat < 128 := by
  decide

theorem hexValue_hexDigitUpper : ∀ n < 16,
    hexValue (Char.ofNat (UInt8.ofNat (hexDigitUpper n).toNat).toNat) = some n := by
  decide

/-! ## Bytes -/

theorem percentDecode_cons {byte : UInt8} (h : byte ≠ 37) (rest : List UInt8) :
    percentDecode (byte :: rest) = byte :: percentDecode rest := by
  rw [percentDecode.eq_def]
  split
  · rename_i heq
    exact absurd (List.cons.inj heq).1 h
  · rename_i heq
    obtain ⟨rfl, rfl⟩ := List.cons.inj heq
    rfl
  · rename_i heq
    cases heq

theorem percentDecode_percentByte (byte : UInt8) (rest : List UInt8) :
    percentDecode ((percentByte byte).flatMap String.utf8EncodeChar ++ rest) =
      byte :: percentDecode rest := by
  have hbyte : byte.toNat < 256 := byte.toNat_lt
  have hhigh : byte.toNat / 16 < 16 := by omega
  have hlow : byte.toNat % 16 < 16 := by omega
  have hencoded : (percentByte byte).flatMap String.utf8EncodeChar =
      [37, UInt8.ofNat (hexDigitUpper (byte.toNat / 16)).toNat,
        UInt8.ofNat (hexDigitUpper (byte.toNat % 16)).toNat] := by
    simp only [percentByte, List.flatMap_cons, List.flatMap_nil,
      utf8EncodeChar_ascii (hexDigitUpper_lt _ hhigh),
      utf8EncodeChar_ascii (hexDigitUpper_lt _ hlow)]
    rfl
  rw [hencoded]
  simp only [List.cons_append, List.nil_append, percentDecode, hexValue_hexDigitUpper _ hhigh,
    hexValue_hexDigitUpper _ hlow]
  rw [Nat.div_add_mod, UInt8.ofNat_toNat]

theorem percentDecode_percentBytes (bytes rest : List UInt8) :
    percentDecode ((bytes.flatMap percentByte).flatMap String.utf8EncodeChar ++ rest) =
      bytes ++ percentDecode rest := by
  induction bytes with
  | nil => rfl
  | cons byte bytes ih =>
      rw [List.flatMap_cons, List.flatMap_append, List.append_assoc, percentDecode_percentByte, ih,
        List.cons_append]

/-! ## Texts -/

/-- What is encoded stands for the bytes of the text, if what is kept is ASCII and no percent
sign. -/
theorem percentDecode_percentEncode {keep : Char → Bool}
    (hkeep : ∀ c, keep c = true → c.toNat < 128 ∧ c ≠ '%') (cs : List Char) :
    percentDecode (toUtf8 (String.ofList (percentEncode keep cs))) =
      toUtf8 (String.ofList cs) := by
  rw [toUtf8_ofList, toUtf8_ofList]
  induction cs with
  | nil => rfl
  | cons c cs ih =>
      rw [percentEncode, List.flatMap_cons, ← percentEncode, List.flatMap_append,
        List.flatMap_cons]
      cases hc : keep c with
      | true =>
          obtain ⟨hascii, hne⟩ := hkeep c hc
          have hbyte : UInt8.ofNat c.toNat ≠ 37 := by
            intro heq
            apply hne
            have hnat := congrArg UInt8.toNat heq
            rw [UInt8.toNat_ofNat', Nat.mod_eq_of_lt (by omega)] at hnat
            rw [← Char.ofNat_toNat c, hnat]
            rfl
          simp only [if_true, List.flatMap_cons, List.flatMap_nil, utf8EncodeChar_ascii hascii,
            List.cons_append, List.nil_append, List.append_nil, percentDecode_cons hbyte, ih]
      | false =>
          have hchar : toUtf8 c.toString = String.utf8EncodeChar c := by
            rw [toUtf8, toList_toUTF8]
            simp [Char.toString]
          simp only [Bool.false_eq_true, if_false, hchar, percentDecode_percentBytes, ih]

/-- What is encoded is made of what is kept, percent signs and digits. -/
theorem mem_percentEncode {keep : Char → Bool} {cs : List Char} {c : Char}
    (h : c ∈ percentEncode keep cs) :
    keep c = true ∨ c = '%' ∨ ∃ n < 16, c = hexDigitUpper n := by
  obtain ⟨d, -, hd⟩ := List.mem_flatMap.mp h
  split at hd
  · rename_i hkeep
    rw [List.mem_singleton.mp hd]
    exact .inl hkeep
  · obtain ⟨byte, -, hbyte⟩ := List.mem_flatMap.mp hd
    have hlt : byte.toNat < 256 := byte.toNat_lt
    simp only [percentByte, List.mem_cons, List.not_mem_nil, or_false] at hbyte
    rcases hbyte with rfl | rfl | rfl
    · exact .inr (.inl rfl)
    · exact .inr (.inr ⟨_, by omega, rfl⟩)
    · exact .inr (.inr ⟨_, by omega, rfl⟩)

end ProjectHub.Text

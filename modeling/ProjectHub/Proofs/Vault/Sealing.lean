import ProjectHub.Proofs.Crypto.Gcm
import ProjectHub.Proofs.Encoding.Base64
import ProjectHub.Vault.Sealing

/-!
# What a sealed text opens to

A text opens to a value if and only if it is a text that sealing that value can
give, under some nonce, blanks around it aside. Every other text is unreadable:
so is a sealed text with another tag, and one that spells its bytes in another
way. Of a sealed text that was cut off, what is left is unreadable unless it ends
with a tag of its own, and then it opens to the beginning of the value.
-/

namespace ProjectHub.Vault

variable {key : SealKey} {nonce : Nonce} {plain : List UInt8}

/-! ## Bytes -/

theorem Nonce.ext_bytes {a b : Nonce} (h : a.bytes = b.bytes) : a = b := by
  cases a
  cases b
  cases h
  rfl

theorem length_sealedBytes (key : SealKey) (nonce : Nonce) (plain : List UInt8) :
    (sealedBytes key nonce plain).length = plain.length + 28 := by
  rw [sealedBytes, List.length_append, nonce.length_bytes, Gcm.length_sealBytes]
  omega

/-- Bytes behind a nonce, enough for a tag, are opened as Galois/counter mode opens them. -/
theorem openBytes_behind {rest : List UInt8} (h : 16 ≤ rest.length) :
    openBytes key (nonce.bytes ++ rest) =
      match Gcm.openBytes? key.cipher nonce.bits rest with
      | some plain => .ok plain
      | none => .error (.unreadable .notAuthentic) := by
  have hlength : ¬ (nonce.bytes ++ rest).length < overhead := by
    rw [List.length_append, nonce.length_bytes, overhead]
    omega
  have htake : (nonce.bytes ++ rest).take 12 = nonce.bytes := by
    rw [← nonce.length_bytes, List.take_left]
  have hdrop : (nonce.bytes ++ rest).drop 12 = rest := by
    rw [← nonce.length_bytes, List.drop_left]
  rw [openBytes, dif_neg hlength]
  cases hopen : Gcm.openBytes? key.cipher nonce.bits rest <;> simp only [htake, hdrop, hopen]

theorem openBytes_eq_ok_iff {sealed : List UInt8} :
    openBytes key sealed = .ok plain ↔ ∃ nonce, sealed = sealedBytes key nonce plain := by
  constructor
  · intro h
    by_cases hshort : sealed.length < overhead
    · rw [openBytes, dif_pos hshort] at h
      cases h
    · rw [overhead, Nat.not_lt] at hshort
      let nonce : Nonce := ⟨sealed.take 12, by rw [List.length_take]; omega⟩
      have hsplit : sealed = nonce.bytes ++ sealed.drop 12 := (List.take_append_drop 12 sealed).symm
      rw [hsplit, openBytes_behind (by rw [List.length_drop]; omega)] at h
      split at h
      · rename_i hopen
        cases h
        rw [Gcm.openBytes?_eq_some_iff] at hopen
        exact ⟨nonce, by rw [sealedBytes, ← hopen, ← hsplit]⟩
      · cases h
  · rintro ⟨nonce, rfl⟩
    have hopen : Gcm.openBytes? key.cipher nonce.bits
        (Gcm.sealBytes key.cipher nonce.bits plain) = some plain :=
      (Gcm.openBytes?_eq_some_iff ..).mpr rfl
    rw [sealedBytes, openBytes_behind (by rw [Gcm.length_sealBytes]; omega), hopen]

theorem openBytes_cases (key : SealKey) (sealed : List UInt8) :
    (∃ plain, openBytes key sealed = .ok plain) ∨
      ∃ reason, openBytes key sealed = .error (.unreadable reason) := by
  unfold openBytes
  split
  · exact .inr ⟨_, rfl⟩
  · dsimp only
    split
    · exact .inl ⟨_, rfl⟩
    · exact .inr ⟨_, rfl⟩

/-! ## Texts -/

theorem sealText_eq (key : SealKey) (nonce : Nonce) (plain : List UInt8) :
    sealText key nonce plain =
      Base64.textOfSymbols (Base64.encode (sealedBytes key nonce plain)) :=
  rfl

theorem length_sealText (key : SealKey) (nonce : Nonce) (plain : List UInt8) :
    (sealText key nonce plain).length = 4 * ((plain.length + 30) / 3) := by
  rw [sealText_eq, Base64.length_textOfSymbols, Base64.length_encode, length_sealedBytes]

variable {s : String}

/-- A text opens to a value if and only if it is that value sealed under some nonce. -/
theorem openText_eq_ok_iff :
    openText key s = .ok plain ↔ ∃ nonce, Text.trim s = sealText key nonce plain := by
  constructor
  · intro h
    unfold openText at h
    split at h
    · rename_i hdecode
      obtain ⟨nonce, rfl⟩ := openBytes_eq_ok_iff.mp h
      exact ⟨nonce, Base64.decodeText_eq_ok_iff.mp hdecode⟩
    · cases h
  · rintro ⟨nonce, htext⟩
    rw [openText, Base64.decodeText_eq_ok_iff.mpr htext]
    exact openBytes_eq_ok_iff.mpr ⟨nonce, rfl⟩

theorem openText_sealText (key : SealKey) (nonce : Nonce) (plain : List UInt8) :
    openText key (sealText key nonce plain) = .ok plain :=
  openText_eq_ok_iff.mpr ⟨nonce, Base64.trim_textOfSymbols fun _ => Base64.isSymbol_of_mem_encode⟩

theorem openText_cases (key : SealKey) (s : String) :
    (∃ plain, openText key s = .ok plain) ∨
      ∃ reason, openText key s = .error (.unreadable reason) := by
  unfold openText
  split
  · exact openBytes_cases key _
  · exact .inr ⟨_, rfl⟩

theorem openText_other_tag {tag : List UInt8} (hlength : tag.length = 16)
    (htag : tag ≠ Gcm.tag key.cipher nonce.bits (Gcm.crypt key.cipher nonce.bits 2 plain))
    (hs : Text.trim s = Base64.encodeText
      (nonce.bytes ++ (Gcm.crypt key.cipher nonce.bits 2 plain ++ tag))) :
    openText key s = .error (.unreadable .notAuthentic) := by
  rw [openText, Base64.decodeText_eq_ok_iff.mpr hs]
  dsimp only
  rw [openBytes_behind (by rw [List.length_append]; omega),
    Gcm.openBytes?_of_tag_ne key.cipher nonce.bits hlength htag]

theorem openText_other_spelling
    (hspelled : Base64.spelled? (Text.trim s).toUTF8.toList = some (sealedBytes key nonce plain))
    (hne : Text.trim s ≠ sealText key nonce plain) :
    ∃ fault, openText key s = .error (.unreadable (.notBase64 fault)) := by
  have hsymbols : (Text.trim s).toUTF8.toList ≠ Base64.encode (sealedBytes key nonce plain) := by
    intro h
    exact hne (Base64.decodeText_eq_ok_iff.mp (Base64.decode_eq_ok_iff.mpr h))
  obtain ⟨fault, hdecode⟩ := Base64.decode_error_of_spelled? hspelled hsymbols
  refine ⟨fault, ?_⟩
  rw [openText, Base64.decodeText, hdecode]

/-- Sealed bytes that were cut off, where what is left is sealed bytes again, are those of the
beginning of the value under the same nonce. -/
theorem eq_take_of_sealedBytes_take {other : Nonce} {found : List UInt8} {n : Nat}
    (hn : n < (sealedBytes key nonce plain).length)
    (h : (sealedBytes key nonce plain).take n = sealedBytes key other found) :
    other = nonce ∧ found.length < plain.length ∧ found = plain.take found.length := by
  have hlength := congrArg List.length h
  rw [List.length_take, length_sealedBytes, length_sealedBytes] at hlength
  rw [length_sealedBytes] at hn
  obtain rfl : n = 12 + (found.length + 16) := by omega
  have hfewer : found.length < plain.length := by omega
  have hsplit := h
  rw [sealedBytes, sealedBytes, List.take_append, nonce.length_bytes, Nat.add_sub_cancel_left,
    List.take_of_length_le (by rw [nonce.length_bytes]; omega)] at hsplit
  obtain ⟨hnonce, hrest⟩ := List.append_inj hsplit
    (nonce.length_bytes.trans other.length_bytes.symm)
  obtain rfl := Nonce.ext_bytes hnonce.symm
  -- the encrypted bytes come first on both sides, and as many of them as were found
  have hfront := congrArg (List.take found.length) hrest
  rw [List.take_take, Nat.min_eq_left (by omega), Gcm.take_sealBytes _ _ (Nat.le_of_lt hfewer),
    Gcm.take_sealBytes _ _ (Nat.le_refl _), List.take_length] at hfront
  exact ⟨rfl, hfewer, (Gcm.crypt_injective _ _ hfront).symm⟩

/-- The first characters of a text. -/
def firstChars (count : Nat) (s : String) : String :=
  String.ofList (s.toList.take count)

theorem firstChars_textOfSymbols (count : Nat) (symbols : List UInt8) :
    firstChars count (Base64.textOfSymbols symbols) =
      Base64.textOfSymbols (symbols.take count) := by
  rw [firstChars, Base64.textOfSymbols, String.toList_ofList, ← List.map_take, Base64.textOfSymbols]

/-- Of a sealed text that was cut off, what is left is unreadable, unless it is the sealed text of
the beginning of the value. -/
theorem openText_firstChars {count : Nat} (hcount : count < (sealText key nonce plain).length) :
    (∃ reason, openText key (firstChars count (sealText key nonce plain)) =
      .error (.unreadable reason)) ∨
    ∃ n < plain.length,
      firstChars count (sealText key nonce plain) = sealText key nonce (plain.take n) := by
  have hsymbols : ∀ byte ∈ (Base64.encode (sealedBytes key nonce plain)).take count,
      Base64.IsSymbol byte :=
    fun byte hbyte => Base64.isSymbol_of_mem_encode (List.mem_of_mem_take hbyte)
  have hlong : count < (Base64.encode (sealedBytes key nonce plain)).length := by
    rwa [sealText_eq, Base64.length_textOfSymbols] at hcount
  rw [sealText_eq, firstChars_textOfSymbols]
  obtain ⟨found, hopen⟩ | hunreadable := openText_cases key
    (Base64.textOfSymbols ((Base64.encode (sealedBytes key nonce plain)).take count))
  · obtain ⟨other, htext⟩ := openText_eq_ok_iff.mp hopen
    rw [Base64.trim_textOfSymbols hsymbols] at htext
    have hdecode := Base64.decodeText_eq_ok_iff.mpr htext
    rw [Base64.decodeText, Base64.toUTF8_textOfSymbols hsymbols] at hdecode
    obtain ⟨m, hm, htake⟩ := Base64.eq_take_of_decode_take hlong hdecode
    obtain ⟨rfl, hfewer, hfound⟩ := eq_take_of_sealedBytes_take hm htake.symm
    exact .inr ⟨found.length, hfewer, by rw [htext, ← hfound]⟩
  · exact .inl hunreadable

/-- The key of zeros. -/
def zeroKey : SealKey := ⟨List.replicate 32 0, rfl⟩

/-- The nonce of zeros. -/
def zeroNonce : Nonce := ⟨List.replicate 12 0, rfl⟩

/-- The value whose encrypted bytes are another value, sealed. -/
def nesting (key : SealKey) (nonce : Nonce) (plain : List UInt8) : List UInt8 :=
  Gcm.crypt key.cipher nonce.bits 2 (Gcm.sealBytes key.cipher nonce.bits plain)

/-- The first bytes of a sealed value are other sealed bytes if its encrypted bytes are. -/
theorem sealedBytes_nesting (key : SealKey) (nonce : Nonce) (plain : List UInt8) :
    ∃ tag, sealedBytes key nonce (nesting key nonce plain) = sealedBytes key nonce plain ++ tag ∧
      tag.length = 16 := by
  refine ⟨Gcm.tag key.cipher nonce.bits (Gcm.sealBytes key.cipher nonce.bits plain), ?_,
    Gcm.length_tag ..⟩
  rw [sealedBytes, Gcm.sealBytes, nesting, Gcm.crypt_crypt, sealedBytes, List.append_assoc]

/-- The three values that the cipher under the key of zeros has for texts of one block. -/
def zeroCipher : Gcm.Cipher := fun block =>
  if block = 0 then 0xdc95c078a2408989ad48a21492842087
  else if block = Gcm.counterBlock zeroNonce.bits 1 then 0x530f8afbc74536b9a963b4f1c4cb738b
  else 0xcea7403d4d606b6e074ec5d3baf39d18

theorem cipher_zeroKey : zeroKey.cipher 0 = zeroCipher 0 := by
  decide +kernel

theorem cipher_zeroKey_mask : zeroKey.cipher (Gcm.counterBlock zeroNonce.bits 1) =
    zeroCipher (Gcm.counterBlock zeroNonce.bits 1) := by
  decide +kernel

theorem cipher_zeroKey_stream : zeroKey.cipher (Gcm.counterBlock zeroNonce.bits 2) =
    zeroCipher (Gcm.counterBlock zeroNonce.bits 2) := by
  decide +kernel

/-- A value of one block is what its bytes, sealed with these values, open to. -/
theorem openText_of_zeroCipher {plain : List UInt8} {s : String} (hplain : plain.length ≤ 16)
    (hs : s = Base64.encodeText
      (zeroNonce.bytes ++ Gcm.sealBytes zeroCipher zeroNonce.bits plain)) :
    openText zeroKey s = .ok plain := by
  rw [hs, ← Gcm.sealBytes_congr zeroKey.cipher zeroNonce.bits hplain cipher_zeroKey
    cipher_zeroKey_mask cipher_zeroKey_stream]
  exact openText_sealText zeroKey zeroNonce plain

end ProjectHub.Vault

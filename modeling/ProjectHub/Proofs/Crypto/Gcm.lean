import ProjectHub.Crypto.Gcm

/-!
# What Galois/counter mode opens

Adding the key stream twice changes nothing, also across a last block that is not
full, so what was sealed is opened. The tag is computed from the encrypted bytes
in both directions, so what is opened was sealed. All of this holds for any block
cipher.
-/

namespace ProjectHub.Gcm

variable (cipher : Cipher) (nonce : BitVec 96)

/-- The bytes of a block with the key stream for a counter added. -/
def cryptBlock (counter : Nat) (block : List UInt8) : List UInt8 :=
  List.zipWith (· ^^^ ·) block (bytesOfBlock (cipher (counterBlock nonce counter)))

theorem crypt_eq (counter : Nat) (bytes : List UInt8) :
    crypt cipher nonce counter bytes =
      cryptBlock cipher nonce counter (bytes.take 16) ++
        crypt cipher nonce (counter + 1) (bytes.drop 16) := by
  cases bytes with
  | nil => simp [crypt, cryptBlock]
  | cons b rest =>
      rw [crypt]
      rfl

theorem length_cryptBlock (counter : Nat) {block : List UInt8} (h : block.length ≤ 16) :
    (cryptBlock cipher nonce counter block).length = block.length := by
  simp [cryptBlock, h]

theorem take_cryptBlock (counter n : Nat) (block : List UInt8) :
    (cryptBlock cipher nonce counter block).take n =
      cryptBlock cipher nonce counter (block.take n) := by
  apply List.ext_getElem?
  intro i
  simp only [cryptBlock, List.getElem?_take, List.getElem?_zipWith]
  split <;> rfl

theorem cryptBlock_cryptBlock (counter : Nat) {block : List UInt8} (h : block.length ≤ 16) :
    cryptBlock cipher nonce counter (cryptBlock cipher nonce counter block) = block := by
  refine List.ext_getElem ?_ ?_
  · rw [length_cryptBlock, length_cryptBlock cipher nonce counter h]
    rwa [length_cryptBlock cipher nonce counter h]
  · intro i hi hi'
    simp only [cryptBlock, List.getElem_zipWith, UInt8.xor_assoc, UInt8.xor_self, UInt8.xor_zero]

theorem length_crypt (counter : Nat) (bytes : List UInt8) :
    (crypt cipher nonce counter bytes).length = bytes.length := by
  induction counter, bytes using crypt.induct with
  | case1 counter => rw [crypt]
  | case2 counter b rest ih =>
      have hrest : (crypt cipher nonce (counter + 1) ((b :: rest).drop 16)).length =
          ((b :: rest).drop 16).length := ih
      have hblock := length_cryptBlock cipher nonce counter (List.length_take_le 16 (b :: rest))
      rw [crypt_eq, List.length_append, hrest, hblock, List.length_take, List.length_drop]
      omega

theorem crypt_of_length_le (counter : Nat) {bytes : List UInt8} (h : bytes.length ≤ 16) :
    crypt cipher nonce counter bytes = cryptBlock cipher nonce counter bytes := by
  have hnil : crypt cipher nonce (counter + 1) [] = [] := by rw [crypt]
  rw [crypt_eq, List.take_of_length_le h, List.drop_eq_nil_of_le h, hnil, List.append_nil]

/-- The key stream cancels when it is added a second time. -/
theorem crypt_crypt (counter : Nat) (bytes : List UInt8) :
    crypt cipher nonce counter (crypt cipher nonce counter bytes) = bytes := by
  induction counter, bytes using crypt.induct with
  | case1 counter => rw [crypt, crypt]
  | case2 counter b rest ih =>
      have hrest : crypt cipher nonce (counter + 1) (crypt cipher nonce (counter + 1)
          ((b :: rest).drop 16)) = (b :: rest).drop 16 := ih
      generalize b :: rest = bytes at hrest
      rcases Nat.le_total bytes.length 16 with hshort | hlong
      · -- the last block: nothing follows it
        have hlength := length_cryptBlock cipher nonce counter hshort
        rw [crypt_of_length_le cipher nonce counter hshort,
          crypt_of_length_le cipher nonce counter (Nat.le_trans (Nat.le_of_eq hlength) hshort),
          cryptBlock_cryptBlock cipher nonce counter hshort]
      · have hblock := length_cryptBlock cipher nonce counter (List.length_take_le 16 bytes)
        have hcancel := cryptBlock_cryptBlock cipher nonce counter (List.length_take_le 16 bytes)
        rw [List.length_take] at hblock
        rw [crypt_eq, crypt_eq cipher nonce counter bytes]
        rw [List.take_append_of_le_length (by omega), List.take_of_length_le (by omega),
          List.drop_append_of_le_length (by omega), List.drop_eq_nil_of_le (by omega),
          List.nil_append, hrest, hcancel, List.take_append_drop]

/-- The first of the encrypted bytes are the encrypted first bytes. -/
theorem take_crypt (counter n : Nat) (bytes : List UInt8) :
    (crypt cipher nonce counter bytes).take n = crypt cipher nonce counter (bytes.take n) := by
  induction counter, bytes using crypt.induct generalizing n with
  | case1 counter => simp [crypt]
  | case2 counter b rest ih =>
      have hrest : (crypt cipher nonce (counter + 1) ((b :: rest).drop 16)).take (n - 16) =
          crypt cipher nonce (counter + 1) (((b :: rest).drop 16).take (n - 16)) := ih (n - 16)
      generalize b :: rest = bytes at hrest
      have hfront : (cryptBlock cipher nonce counter (bytes.take 16)).take n =
          cryptBlock cipher nonce counter ((bytes.take n).take 16) := by
        rw [take_cryptBlock, List.take_take, List.take_take, Nat.min_comm]
      have hback : (crypt cipher nonce (counter + 1) (bytes.drop 16)).take
            (n - (cryptBlock cipher nonce counter (bytes.take 16)).length) =
          crypt cipher nonce (counter + 1) ((bytes.take n).drop 16) := by
        rw [length_cryptBlock cipher nonce counter (List.length_take_le 16 _), List.length_take]
        rcases Nat.le_total bytes.length 16 with hshort | hlong
        · have hempty : bytes.drop 16 = [] := List.drop_eq_nil_of_le hshort
          rw [List.drop_take, hempty, List.take_nil, crypt, List.take_nil]
        · rw [Nat.min_eq_left hlong, hrest, List.drop_take]
      rw [crypt_eq, crypt_eq cipher nonce counter (bytes.take n), List.take_append, hfront, hback]

theorem crypt_injective {counter : Nat} {a b : List UInt8}
    (h : crypt cipher nonce counter a = crypt cipher nonce counter b) : a = b := by
  rw [← crypt_crypt cipher nonce counter a, h, crypt_crypt]

theorem length_tag (encrypted : List UInt8) : (tag cipher nonce encrypted).length = 16 :=
  length_bytesOfBlock _

theorem length_sealBytes (plain : List UInt8) :
    (sealBytes cipher nonce plain).length = plain.length + 16 := by
  rw [sealBytes, List.length_append, length_crypt, length_tag]

theorem take_sealBytes {n : Nat} {plain : List UInt8} (h : n ≤ plain.length) :
    (sealBytes cipher nonce plain).take n = crypt cipher nonce 2 (plain.take n) := by
  rw [sealBytes, List.take_append_of_le_length (by rwa [length_crypt]), take_crypt]

/-- Of a cipher only three values matter for a text of one block. -/
theorem sealBytes_congr {other : Cipher} {plain : List UInt8} (hplain : plain.length ≤ 16)
    (hkey : cipher 0 = other 0)
    (hmask : cipher (counterBlock nonce 1) = other (counterBlock nonce 1))
    (hstream : cipher (counterBlock nonce 2) = other (counterBlock nonce 2)) :
    sealBytes cipher nonce plain = sealBytes other nonce plain := by
  have hcrypt : crypt cipher nonce 2 plain = crypt other nonce 2 plain := by
    rw [crypt_of_length_le cipher nonce 2 hplain, crypt_of_length_le other nonce 2 hplain,
      cryptBlock, cryptBlock, hstream]
  simp only [sealBytes, tag, hcrypt, hkey, hmask]

/-- Bytes are opened to a value if and only if they are that value, sealed. -/
theorem openBytes?_eq_some_iff {encrypted plain : List UInt8} :
    openBytes? cipher nonce encrypted = some plain ↔
      encrypted = sealBytes cipher nonce plain := by
  unfold openBytes?
  constructor
  · intro h
    dsimp only at h
    split at h
    · cases h
    · split at h
      · rename_i htag
        cases h
        rw [sealBytes, crypt_crypt, ← htag, List.take_append_drop]
      · cases h
  · rintro rfl
    have hlength : (sealBytes cipher nonce plain).length - 16 =
        (crypt cipher nonce 2 plain).length := by
      rw [length_sealBytes, length_crypt, Nat.add_sub_cancel]
    rw [if_neg (by rw [length_sealBytes]; omega), hlength, sealBytes, List.take_left,
      List.drop_left, if_pos rfl, crypt_crypt]

/-- Under any other tag the same encrypted bytes are not opened. -/
theorem openBytes?_of_tag_ne {encrypted other : List UInt8} (hlength : other.length = 16)
    (hother : other ≠ tag cipher nonce encrypted) :
    openBytes? cipher nonce (encrypted ++ other) = none := by
  have hcut : (encrypted ++ other).length - 16 = encrypted.length := by
    rw [List.length_append, hlength, Nat.add_sub_cancel]
  rw [openBytes?, if_neg (by rw [List.length_append]; omega), hcut, List.take_left,
    List.drop_left, if_neg hother]

end ProjectHub.Gcm

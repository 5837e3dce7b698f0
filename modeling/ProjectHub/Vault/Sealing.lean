import ProjectHub.Crypto.Aes
import ProjectHub.Crypto.Gcm
import ProjectHub.Text.Blank
import ProjectHub.Vault.Error

/-!
# Sealing

A value is sealed by AES-256 in Galois/counter mode under a fresh nonce. The
sealed text is the Base64 form of the nonce, the encrypted bytes and the tag; to
open it gives the bytes back, or says why it does not.
-/

namespace ProjectHub.Vault

/-- A key to seal with: thirty-two bytes. -/
structure SealKey where
  /-- The bytes of the key. -/
  bytes : List UInt8
  /-- There are thirty-two of them. -/
  length_bytes : bytes.length = 32
  deriving DecidableEq

/-- A nonce: twelve bytes, never used twice under one key. -/
structure Nonce where
  /-- The bytes of the nonce. -/
  bytes : List UInt8
  /-- There are twelve of them. -/
  length_bytes : bytes.length = 12
  deriving DecidableEq

namespace SealKey

/-- The key of the given bytes, if they are thirty-two. -/
def ofBytes (bytes : List UInt8) : Except Error SealKey :=
  if h : bytes.length = 32 then .ok ⟨bytes, h⟩ else .error (.keyLength bytes.length)

end SealKey

/-- The word of four bytes at an offset of a list. -/
def wordAt (bytes : List UInt8) (offset : Nat) : Aes.Word :=
  let byte (i : Nat) : UInt8 := bytes[offset + i]?.getD 0
  ⟨byte 0, byte 1, byte 2, byte 3⟩

/-- The block of sixteen bytes at an offset of a list. -/
def blockAt (bytes : List UInt8) (offset : Nat) : Aes.Block :=
  ⟨wordAt bytes offset, wordAt bytes (offset + 4), wordAt bytes (offset + 8),
    wordAt bytes (offset + 12)⟩

/-- The bytes of a block, column by column. -/
def bytesOfBlock (block : Aes.Block) : List UInt8 :=
  [block.p, block.q, block.r, block.s].flatMap fun w => [w.a, w.b, w.c, w.d]

namespace SealKey

/-- The block cipher under a key. -/
def cipher (key : SealKey) : Gcm.Cipher := fun block =>
  Gcm.blockOfBytes (bytesOfBlock
    (Aes.encrypt ⟨blockAt key.bytes 0, blockAt key.bytes 16⟩ (blockAt (Gcm.bytesOfBlock block) 0)))

end SealKey

namespace Nonce

/-- The bits of a nonce. -/
def bits (nonce : Nonce) : BitVec 96 :=
  BitVec.ofNat 96 (Gcm.natOfBytes nonce.bytes)

end Nonce

/-- The least length of what a sealed text encodes: the nonce and the tag. -/
def overhead : Nat := 28

/-- The bytes of a sealed value: nonce, encrypted bytes, tag. -/
def sealedBytes (key : SealKey) (nonce : Nonce) (plain : List UInt8) : List UInt8 :=
  nonce.bytes ++ Gcm.sealBytes key.cipher nonce.bits plain

/-- The sealed text of a value. -/
def sealText (key : SealKey) (nonce : Nonce) (plain : List UInt8) : String :=
  Base64.encodeText (sealedBytes key nonce plain)

/-- The value of the bytes of a sealed value. -/
def openBytes (key : SealKey) (sealed : List UInt8) : Except Error (List UInt8) :=
  if h : sealed.length < overhead then .error (.unreadable (.tooShort sealed.length))
  else
    let nonce : Nonce := ⟨sealed.take 12, by
      simp only [List.length_take, overhead] at *
      omega⟩
    match Gcm.openBytes? key.cipher nonce.bits (sealed.drop 12) with
    | some plain => .ok plain
    | none => .error (.unreadable .notAuthentic)

/-- The value of a sealed text, blanks around it aside. -/
def openText (key : SealKey) (sealed : String) : Except Error (List UInt8) :=
  match Base64.decodeText (Text.trim sealed) with
  | .ok bytes => openBytes key bytes
  | .error fault => .error (.unreadable (.notBase64 fault))

end ProjectHub.Vault

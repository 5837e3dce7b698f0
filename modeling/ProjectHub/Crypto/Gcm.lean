/-!
# Galois/counter mode

Authenticated encryption over a block cipher of 128 bits, with nonces of 96 bits
and no associated data. The text is added to a key stream, the cipher applied
to the nonce and a counter; the tag is a polynomial hash of the result, masked
by the cipher at the first counter. The cipher is a parameter of the mode.
-/

namespace ProjectHub.Gcm

/-- A block cipher under some key. -/
abbrev Cipher := BitVec 128 → BitVec 128

/-- The number that big-endian bytes spell. -/
def natOfBytes (bytes : List UInt8) : Nat :=
  bytes.foldl (fun n b => 256 * n + b.toNat) 0

/-- The block of up to sixteen bytes, filled up with zeros. -/
def blockOfBytes (bytes : List UInt8) : BitVec 128 :=
  BitVec.ofNat 128 (natOfBytes bytes * Nat.pow 256 (16 - bytes.length))

/-- The sixteen bytes of a block. -/
def bytesOfBlock (block : BitVec 128) : List UInt8 :=
  (List.range 16).map fun i => UInt8.ofNat (block.toNat / Nat.pow 256 (15 - i))

@[simp] theorem length_bytesOfBlock (block : BitVec 128) : (bytesOfBlock block).length = 16 := by
  simp [bytesOfBlock]

/-- The input of the cipher for a nonce and a counter. -/
def counterBlock (nonce : BitVec 96) (counter : Nat) : BitVec 128 :=
  nonce ++ BitVec.ofNat 32 counter

/-- The bytes with the key stream from a counter on added. -/
def crypt (cipher : Cipher) (nonce : BitVec 96) (counter : Nat) : List UInt8 → List UInt8
  | [] => []
  | b :: rest =>
    let block := (b :: rest).take 16
    List.zipWith (· ^^^ ·) block (bytesOfBlock (cipher (counterBlock nonce counter))) ++
      crypt cipher nonce (counter + 1) (rest.drop 15)
termination_by bytes => bytes.length
decreasing_by
  simp only [List.length_drop, List.length_cons]
  omega

/-- One bit of a product: the sum so far and the shifted factor. -/
def multiplyStep (z v : BitVec 128) (bit : Bool) : BitVec 128 × BitVec 128 :=
  (if bit then z ^^^ v else z,
   if v.getLsbD 0 then (v >>> 1) ^^^ (0xe1 : BitVec 128) <<< 120 else v >>> 1)

/-- The product of two elements of the field of the hash, where the first bit is the
coefficient of one. -/
def multiply (x y : BitVec 128) : BitVec 128 :=
  ((List.range 128).foldl (fun (z, v) i => multiplyStep z v (x.getMsbD i)) (0, y)).1

/-- The hash with the bytes of a text absorbed, the last block filled up with zeros. -/
def absorb (key : BitVec 128) (hash : BitVec 128) : List UInt8 → BitVec 128
  | [] => hash
  | b :: rest =>
    absorb key (multiply (hash ^^^ blockOfBytes ((b :: rest).take 16)) key) (rest.drop 15)
termination_by bytes => bytes.length
decreasing_by
  simp only [List.length_drop, List.length_cons]
  omega

/-- The tag of an encrypted text. -/
def tag (cipher : Cipher) (nonce : BitVec 96) (encrypted : List UInt8) : List UInt8 :=
  let key := cipher 0
  let hash := absorb key 0 encrypted
  let hash := multiply (hash ^^^ BitVec.ofNat 128 (8 * encrypted.length)) key
  bytesOfBlock (hash ^^^ cipher (counterBlock nonce 1))

/-- The encrypted text followed by its tag. -/
def sealBytes (cipher : Cipher) (nonce : BitVec 96) (plain : List UInt8) : List UInt8 :=
  let encrypted := crypt cipher nonce 2 plain
  encrypted ++ tag cipher nonce encrypted

/-- The text that an encrypted text and its tag hide, if the tag is right. -/
def openBytes? (cipher : Cipher) (nonce : BitVec 96) (sealed : List UInt8) :
    Option (List UInt8) :=
  let encrypted := sealed.take (sealed.length - 16)
  if sealed.length < 16 then none
  else if sealed.drop (sealed.length - 16) = tag cipher nonce encrypted then
    some (crypt cipher nonce 2 encrypted)
  else none

end ProjectHub.Gcm

/-!
# UTF-8

Bytes are read character by character. Where they are ill-formed, the longest
prefix that could still have become a character is passed over; a strict reader
refuses there, a lenient one puts U+FFFD in its place.
-/

namespace ProjectHub.Text

/-- What the first byte of a character announces: how many bytes follow, the range of the
first of them, and the bits of its own. -/
structure Lead where
  /-- The number of bytes that follow. -/
  following : Nat
  /-- The least second byte. -/
  least : Nat
  /-- The greatest second byte. -/
  greatest : Nat
  /-- The bits that the first byte contributes. -/
  bits : Nat

/-- What a byte announces as the first of several. -/
def lead? (byte : UInt8) : Option Lead :=
  let n := byte.toNat
  if 0xC2 ≤ n ∧ n ≤ 0xDF then some ⟨1, 0x80, 0xBF, n - 0xC0⟩
  else if 0xE0 ≤ n ∧ n ≤ 0xEF then
    some ⟨2, if n = 0xE0 then 0xA0 else 0x80, if n = 0xED then 0x9F else 0xBF, n - 0xE0⟩
  else if 0xF0 ≤ n ∧ n ≤ 0xF4 then
    some ⟨3, if n = 0xF0 then 0x90 else 0x80, if n = 0xF4 then 0x8F else 0xBF, n - 0xF0⟩
  else none

/-- The code point of the bytes that follow, as far as they are well-formed, and what is
left. -/
def continuation (code : Nat) : Nat → Nat → Nat → List UInt8 → Option Nat × List UInt8
  | 0, _, _, rest => (some code, rest)
  | _ + 1, _, _, [] => (none, [])
  | following + 1, least, greatest, byte :: rest =>
    if least ≤ byte.toNat ∧ byte.toNat ≤ greatest then
      continuation (64 * code + (byte.toNat - 0x80)) following 0x80 0xBF rest
    else (none, byte :: rest)

theorem length_continuation (code following least greatest : Nat) (bytes : List UInt8) :
    (continuation code following least greatest bytes).2.length ≤ bytes.length := by
  fun_induction continuation code following least greatest bytes with
  | case1 => exact Nat.le_refl _
  | case2 => exact Nat.le_refl _
  | case3 _ _ _ _ _ _ _ ih => exact Nat.le_succ_of_le ih
  | case4 => exact Nat.le_refl _

/-- The character that starts with a byte, or nothing if the bytes are ill-formed there,
and what is left. -/
def nextChar (byte : UInt8) (rest : List UInt8) : Option Char × List UInt8 :=
  if byte.toNat < 0x80 then (some (Char.ofNat byte.toNat), rest)
  else
    match lead? byte with
    | none => (none, rest)
    | some lead =>
      let (code, after) := continuation lead.bits lead.following lead.least lead.greatest rest
      (code.map Char.ofNat, after)

theorem length_nextChar (byte : UInt8) (rest : List UInt8) :
    (nextChar byte rest).2.length ≤ rest.length := by
  unfold nextChar
  split
  · exact Nat.le_refl _
  · split
    · exact Nat.le_refl _
    · exact length_continuation _ _ _ _ _

/-- The characters of bytes, with nothing where they are ill-formed. -/
def decodeChars : List UInt8 → List (Option Char)
  | [] => []
  | byte :: rest => (nextChar byte rest).1 :: decodeChars (nextChar byte rest).2
termination_by bytes => bytes.length
decreasing_by
  have := length_nextChar byte rest
  simp only [List.length_cons]
  omega

/-- The text of well-formed bytes. -/
def ofUtf8? (bytes : List UInt8) : Option String :=
  ((decodeChars bytes).mapM id).map String.ofList

/-- The text of any bytes, U+FFFD standing for each ill-formed piece. -/
def ofUtf8Lossy (bytes : List UInt8) : String :=
  String.ofList ((decodeChars bytes).map fun c => c.getD (Char.ofNat 0xFFFD))

/-- The bytes of a text. -/
def toUtf8 (s : String) : List UInt8 :=
  s.toUTF8.toList

end ProjectHub.Text

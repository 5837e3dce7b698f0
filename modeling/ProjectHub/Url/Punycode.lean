/-!
# Punycode

The spelling of a label in ASCII: the ASCII characters first, then for all
others, in ascending order, how far on in the sequence of characters and places
each one stands, as numbers in a base of thirty-six with digits whose weight
adapts to the numbers before.
-/

namespace ProjectHub.Url.Punycode

/-- The digit of a value below thirty-six. -/
def digit (n : Nat) : Char :=
  if n < 26 then Char.ofNat (97 + n) else Char.ofNat (22 + n)

/-- The threshold of the digit at a weight, between 1 and 26. -/
def threshold (weight bias : Nat) : Nat :=
  if weight ≤ bias then 1 else if bias + 26 ≤ weight then 26 else weight - bias

theorem threshold_bounds (weight bias : Nat) :
    1 ≤ threshold weight bias ∧ threshold weight bias ≤ 26 := by
  unfold threshold
  split
  · omega
  · split <;> omega

/-- A number as digits from a weight on. -/
def digits (bias weight n : Nat) : List Char :=
  let t := threshold weight bias
  if n < t then [digit n]
  else digit (t + (n - t) % (36 - t)) :: digits bias (weight + 36) ((n - t) / (36 - t))
termination_by n
decreasing_by
  have := threshold_bounds weight bias
  have := Nat.div_le_self (n - threshold weight bias) (36 - threshold weight bias)
  omega

/-- Divides by 35 until at most 455 is left; counts the steps in thirty-sixes. -/
def settle (delta k : Nat) : Nat × Nat :=
  if 455 < delta then settle (delta / 35) (k + 36) else (delta, k)
termination_by delta

/-- The bias after a number. -/
def adapt (delta count : Nat) (first : Bool) : Nat :=
  let delta := if first then delta / 700 else delta / 2
  let (delta, k) := settle (delta + delta / count) 0
  k + 36 * delta / (delta + 38)

/-- How far an encoding has come. -/
structure Progress where
  written : List Char
  delta : Nat
  bias : Nat
  /-- The number of characters encoded. -/
  count : Nat

/-- Passes one character of the label while the characters numbered `n` are encoded. -/
def Progress.pass (basic n : Nat) (p : Progress) (c : Char) : Progress :=
  if c.toNat < n then { p with delta := p.delta + 1 }
  else if c.toNat = n then
    { written := p.written ++ digits p.bias 36 p.delta
      delta := 0
      bias := adapt p.delta (p.count + 1) (p.count == basic)
      count := p.count + 1 }
  else p

/-- Encodes the characters of the given numbers, ascending, where `next` was reached. -/
def encodeFrom (label : List Char) (basic : Nat) : List Nat → Nat → Progress → Progress
  | [], _, p => p
  | n :: rest, next, p =>
    let p := label.foldl (Progress.pass basic n)
      { p with delta := p.delta + (n - next) * (p.count + 1) }
    encodeFrom label basic rest (n + 1) { p with delta := p.delta + 1 }

/-- The spelling of a label in ASCII. -/
def encode (label : List Char) : List Char :=
  let basic := label.filter fun c => c.toNat < 128
  let others := ((label.map Char.toNat).filter (128 ≤ ·)).mergeSort.eraseDups
  let front := if basic.isEmpty then [] else basic ++ ['-']
  front ++ (encodeFrom label basic.length others 128 ⟨[], 0, 72, basic.length⟩).written

/-! ## Reading -/

/-- The value of a digit. -/
def digitValue? (c : Char) : Option Nat :=
  if 'a' ≤ c ∧ c ≤ 'z' then some (c.toNat - 97)
  else if c.isDigit then some (c.toNat - 22)
  else none

/-- How far the reading of a spelling has come. -/
structure Reading where
  /-- The characters so far. -/
  label : List Char
  /-- The code of the character placed last. -/
  code : Nat := 128
  /-- The place after that character. -/
  place : Nat := 0
  bias : Nat := 72
  /-- The number that the digits since then add up to. -/
  delta : Nat := 0
  /-- What the next digit counts. -/
  unit : Nat := 1
  weight : Nat := 36

/-- Reads one digit. The last digit of a number places a character. -/
def Reading.read? (r : Reading) (c : Char) : Option Reading := do
  let value ← digitValue? c
  let delta := r.delta + value * r.unit
  let t := threshold r.weight r.bias
  if value < t then
    let count := r.label.length + 1
    let code := r.code + (r.place + delta) / count
    let place := (r.place + delta) % count
    if code.isValidChar then
      return {
        label := r.label.take place ++ Char.ofNat code :: r.label.drop place
        code := code
        place := place + 1
        bias := adapt delta count (r.place == 0) }
    else none
  else return { r with delta := delta, unit := r.unit * (36 - t), weight := r.weight + 36 }

/-- The label of a spelling, if it is one with characters beyond ASCII, spelled as they are
written. -/
def decode? (spelling : List Char) : Option (List Char) := do
  let last := (spelling.reverse.takeWhile fun c => c != '-').reverse
  let basic := (spelling.take (spelling.length - last.length)).dropLast
  let done ← last.foldlM Reading.read? { label := basic }
  if done.label.any (fun c => 128 ≤ c.toNat) && encode done.label == spelling then
    return done.label
  else none

end ProjectHub.Url.Punycode

import ProjectHub.Json.Basic
import ProjectHub.Json.Source

/-!
# The value of a numeral

A numeral without fraction and exponent is an integer where it fits one of 64
bits; a minus zero and all others are doubles. The digits are collected in 64
bits: later digits only move the power of ten, so at most twenty digits
count. The double is the collected significand, times or divided by a power of
ten, each step rounded. A magnitude beyond the largest double has no value.
-/

namespace ProjectHub.Json

/-- A significand being collected, and the power of ten it is multiplied by. -/
structure Scaled where
  /-- The digits collected so far, below `2 ^ 64`. -/
  significand : Nat
  /-- The power of ten. -/
  power : Int

namespace Scaled

/-- Whether another digit still fits. -/
def admits (s : Scaled) (digit : Nat) : Bool :=
  10 * s.significand + digit < UInt64.size

/-- Collects the digits of an integer part. From the first that does not fit, each digit
only adds a place. -/
def addWhole (s : Scaled) : List Nat → Scaled
  | [] => s
  | digit :: rest =>
    if s.admits digit then addWhole { s with significand := 10 * s.significand + digit } rest
    else { s with power := s.power + (rest.length + 1) }

/-- Collects the digits of a fraction. From the first that does not fit, digits are
dropped. -/
def addFraction (s : Scaled) : List Nat → Scaled
  | [] => s
  | digit :: rest =>
    if s.admits digit then
      addFraction ⟨10 * s.significand + digit, s.power - 1⟩ rest
    else s

end Scaled

/-- The power of ten as a double, for exponents up to 308. -/
def powerOfTen (k : Nat) : Float :=
  Float.ofScientific 1 false k

/-- A double divided by a power of ten, 308 places at a time. -/
def scaleDown (value : Float) (k : Nat) : Float :=
  if k ≤ 308 then value / powerOfTen k
  else if value == 0 then value
  else scaleDown (value / powerOfTen 308) (k - 308)
termination_by k

/-- The double of a significand and a power of ten, unless it is too large. -/
def Scaled.magnitude? (s : Scaled) : Option Float :=
  let value := Float.ofNat s.significand
  if s.power < 0 then some (scaleDown value s.power.natAbs)
  else if s.power ≤ 308 then
    let scaled := value * powerOfTen s.power.toNat
    if scaled.isInf then none else some scaled
  else if s.significand = 0 then some value
  else none

/-- The number that digits of an exponent spell. -/
def exponentValue (digits : List Nat) : Nat :=
  digits.foldl (fun n digit => 10 * n + digit) 0

/-- The power after an exponent of a sign and a size is added. An exponent of 31 bits is
the limit: beyond it, zero stays zero, a negative exponent gives zero, and any other has no
value. -/
def Scaled.addExponent? (s : Scaled) (minus : Bool) (digits : List Nat) : Option Scaled :=
  let size := exponentValue digits
  if size < 0x80000000 then
    some { s with power := if minus then s.power - size else s.power + size }
  else if s.significand = 0 ∨ minus then some ⟨0, 0⟩
  else none

/-- The double of a sign and a magnitude. -/
def Number.ofMagnitude (negative : Bool) (magnitude : Float) : Number :=
  .float (if negative then -magnitude else magnitude).toBits

/-- The number a numeral denotes. -/
def Numeral.value? (n : Numeral) : Option Number :=
  let whole := Scaled.addWhole ⟨0, 0⟩ n.whole
  let collected := whole.addFraction (n.fraction.getD [])
  match n.fraction, n.exponent with
  | none, none =>
    if whole.power ≠ 0 then whole.magnitude?.map (Number.ofMagnitude n.negative)
    else if !n.negative then some (.int whole.significand)
    else if whole.significand = 0 ∨ 0x8000000000000000 < whole.significand then
      some (Number.ofMagnitude true (Float.ofNat whole.significand))
    else some (.int (-whole.significand))
  | _, none => collected.magnitude?.map (Number.ofMagnitude n.negative)
  | _, some (minus, digits) => do
    let scaled ← collected.addExponent? minus digits
    return Number.ofMagnitude n.negative (← scaled.magnitude?)

end ProjectHub.Json

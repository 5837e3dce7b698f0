import ProjectHub.Json.Number
import ProjectHub.Proofs.Json.Object

/-!
# Numbers written are read back

A number is written with a minus sign where it is negative, the digits of its
whole part, and then a fraction and an exponent if it has them. Each part is read
up to what cannot go on with it. An integer is written with the digits of its
size alone, and an integer of 64 bits is their value again.
-/

namespace ProjectHub.Json

/-! ### Unsigned numbers -/

/-- An unsigned number by the digits it is written with. -/
structure Unsigned where
  /-- The digits of the whole part. -/
  whole : List Char
  /-- The digits after the point, if there is one. -/
  fraction : Option (List Char)
  /-- The sign, true for minus, and the digits of the exponent, if there is one. -/
  exponent : Option (Bool × List Char)

namespace Unsigned

/-- A fraction as it is written. -/
def fractionText : Option (List Char) → List Char
  | none => []
  | some digits => '.' :: digits

/-- An exponent as it is written, with a sign in any case. -/
def exponentText : Option (Bool × List Char) → List Char
  | none => []
  | some (minus, digits) => 'e' :: (if minus then '-' else '+') :: digits

/-- The number as it is written. -/
def text (u : Unsigned) : List Char :=
  u.whole ++ (fractionText u.fraction ++ exponentText u.exponent)

/-- The numeral of the number with a sign. -/
def numeral (u : Unsigned) (negative : Bool) : Numeral :=
  ⟨negative, digitValues u.whole, u.fraction.map digitValues,
    u.exponent.map fun (minus, digits) => (minus, digitValues digits)⟩

end Unsigned

/-- Digits and at least one. -/
def IsDigits (digits : List Char) : Prop :=
  digits ≠ [] ∧ ∀ c ∈ digits, c.isDigit = true

theorem isDigits_toDigits (n : Nat) : IsDigits (Nat.toDigits 10 n) :=
  ⟨Nat.toDigits_ne_nil, fun _ hc => Nat.isDigit_of_mem_toDigits (by decide) (by decide) hc⟩

/-- Every part has digits, and no zero stands before the others of the whole part. -/
structure Unsigned.Proper (u : Unsigned) : Prop where
  whole : IsDigits u.whole
  leading : (digitValues u.whole).head? = some 0 → u.whole.length = 1
  fraction : ∀ digits ∈ u.fraction, IsDigits digits
  exponent : ∀ e ∈ u.exponent, IsDigits e.2

section Parts

variable {digits rest : List Char}

theorem EndsValue.not_isDigit (h : EndsValue rest) : ∀ c ∈ rest.head?, c.isDigit = false := by
  intro c hc
  rcases h c hc with rfl | rfl | rfl <;> decide

/-- Digits are read up to what is no digit. -/
theorem readDigits?_append (hdigits : IsDigits digits)
    (hrest : ∀ c ∈ rest.head?, c.isDigit = false) :
    readDigits? (digits ++ rest) = some (digitValues digits, rest) := by
  have hstop : rest.takeWhile Char.isDigit = [] ∧ rest.dropWhile Char.isDigit = rest := by
    cases rest with
    | nil => exact ⟨rfl, rfl⟩
    | cons c cs => simp [hrest c rfl]
  obtain ⟨hne, hdigits⟩ := hdigits
  obtain ⟨d, ds, rfl⟩ := List.exists_cons_of_ne_nil hne
  rw [readDigits?, List.takeWhile_append_of_pos hdigits, List.dropWhile_append_of_pos hdigits,
    hstop.1, hstop.2, List.append_nil]

/-- An exponent, or none, is read up to what ends a value. -/
theorem readExponent?_exponentText {exponent : Option (Bool × List Char)}
    (hexponent : ∀ e ∈ exponent, IsDigits e.2) (h : EndsValue rest) :
    readExponent? (Unsigned.exponentText exponent ++ rest) =
      some (exponent.map fun (minus, digits) => (minus, digitValues digits), rest) := by
  cases exponent with
  | none =>
      cases rest with
      | nil => rfl
      | cons c cs =>
          have hletter : ¬ (c = 'e' ∨ c = 'E') := by
            rcases h c rfl with rfl | rfl | rfl <;> decide
          exact if_neg hletter
  | some e =>
      obtain ⟨minus, digits⟩ := e
      have hread := readDigits?_append (hexponent _ rfl) h.not_isDigit
      cases minus with
      | true => simp [Unsigned.exponentText, readExponent?, hread]
      | false => simp [Unsigned.exponentText, readExponent?, hread]

/-- What stands behind a fraction starts with no digit and no point. -/
theorem head?_exponentText (exponent : Option (Bool × List Char)) (h : EndsValue rest) :
    ∀ c ∈ (Unsigned.exponentText exponent ++ rest).head?, c.isDigit = false ∧ c ≠ '.' := by
  intro c hc
  cases exponent with
  | none => rcases h c hc with rfl | rfl | rfl <;> decide
  | some e =>
      cases hc
      decide

/-- A fraction, or none, is read up to what is no digit and no point. -/
theorem readFraction?_fractionText {fraction : Option (List Char)}
    (hfraction : ∀ digits ∈ fraction, IsDigits digits)
    (hrest : ∀ c ∈ rest.head?, c.isDigit = false ∧ c ≠ '.') :
    readFraction? (Unsigned.fractionText fraction ++ rest) =
      some (fraction.map digitValues, rest) := by
  cases fraction with
  | none =>
      cases rest with
      | nil => rfl
      | cons c cs =>
          unfold readFraction?
          split
          · rename_i hpoint
            cases hpoint
            exact absurd rfl (hrest '.' rfl).2
          · rfl
  | some digits =>
      rw [Unsigned.fractionText, List.cons_append, readFraction?,
        readDigits?_append (hfraction digits rfl) fun c hc => (hrest c hc).1]
      rfl

end Parts

/-- An unsigned number is read up to what ends a value. -/
theorem Unsigned.Proper.readNumeral?_text {u : Unsigned} (h : u.Proper) (negative : Bool)
    {rest : List Char} (hrest : EndsValue rest) :
    readNumeral? negative (u.text ++ rest) = some (u.numeral negative, rest) := by
  have hexponent := readExponent?_exponentText h.exponent hrest
  have hfraction := readFraction?_fractionText h.fraction (head?_exponentText u.exponent hrest)
  have hbehind : ∀ c ∈ (fractionText u.fraction ++ (exponentText u.exponent ++ rest)).head?,
      c.isDigit = false := by
    intro c hc
    generalize u.fraction = fraction at hc
    cases fraction with
    | none => exact (head?_exponentText u.exponent hrest c hc).1
    | some digits =>
        cases hc
        rfl
  have hwhole := readDigits?_append h.whole hbehind
  have hzero : ¬ ((digitValues u.whole).head? = some 0 ∧ (digitValues u.whole).length ≠ 1) := by
    rintro ⟨hfirst, hlength⟩
    rw [digitValues, List.length_map] at hlength
    exact hlength (h.leading hfirst)
  rw [text, List.append_assoc, List.append_assoc]
  simp [readNumeral?, hwhole, hzero, hfraction, hexponent, numeral]

private theorem pair_reading? {c : Char} {cs rest : List Char} (value : Source)
    (h : rest.length ≤ cs.length) :
    (@Source.reading? c cs value rest).map Reading.pair = some (value, rest) := by
  rw [Source.reading?, dif_pos h]
  rfl

/-- A digit starts a number and nothing else. -/
private theorem readSource_digit {c : Char} {cs rest : List Char} {numeral : Numeral}
    (hc : c.isDigit = true) (h : readNumeral? false (c :: cs) = some (numeral, rest))
    (hlength : rest.length ≤ cs.length) :
    (readSource (skipSpace (c :: cs))).map Reading.pair = some (.number numeral, rest) := by
  have hother : ∀ d : Char, d.isDigit = false → c ≠ d := by
    rintro d hd rfl
    rw [hc] at hd
    cases hd
  have hblank : isSpace c = false := by
    simp [isSpace, hother ' ' (by decide), hother '\t' (by decide), hother '\n' (by decide),
      hother '\r' (by decide)]
  rw [skipSpace_of_head _ hblank, readSource, if_neg (hother _ (by decide)),
    if_neg (hother _ (by decide)), if_neg (hother _ (by decide)), if_neg (hother _ (by decide)),
    if_neg (hother _ (by decide)), if_neg (hother _ (by decide)), if_neg (hother _ (by decide)), h]
  exact pair_reading? _ hlength

/-- A number that is written as a sign and an unsigned number is read as the
numeral of both. -/
theorem Unsigned.Proper.readAs {u : Unsigned} (h : u.Proper) (negative : Bool) {value : Number}
    (htext : value.render.toList = (if negative then ['-'] else []) ++ u.text) :
    ReadAs (.number value) (.number (u.numeral negative)) := by
  intro rest hrest
  have hread := fun negative => h.readNumeral?_text negative hrest
  rw [render, htext]
  cases negative with
  | true =>
      rw [if_pos rfl, List.append_assoc, List.singleton_append, skipSpace_of_head _ (by decide),
        readSource]
      simp only [Char.reduceEq, if_false, if_true, hread true]
      exact pair_reading? _ (by simp)
  | false =>
      rw [if_neg Bool.false_ne_true, List.nil_append]
      have hfalse := hread false
      obtain ⟨c, cs, hfirst⟩ := List.exists_cons_of_ne_nil h.whole.1
      have hdigit := h.whole.2 c (hfirst ▸ List.mem_cons_self ..)
      rw [text, hfirst] at hfalse ⊢
      exact readSource_digit hdigit hfalse (by simp; omega)

/-! ### Integers -/

/-- The first digit of a number that is not zero is not zero. -/
theorem head?_digitValues_toDigits {n : Nat} (hn : 0 < n) :
    (digitValues (Nat.toDigits 10 n)).head? ≠ some 0 := by
  induction n using Nat.strongRecOn with
  | ind n ih =>
      rw [Nat.toDigits_eq_if (by decide)]
      split
      · rename_i hsmall
        simp only [digitValues, List.map_cons, List.map_nil, List.head?_cons,
          Nat.toNat_digitChar_sub_48_of_lt_ten hsmall, ne_eq, Option.some.injEq]
        omega
      · have hfirst := ih (n / 10) (by omega) (by omega)
        rw [digitValues, List.map_append, List.head?_append_of_ne_nil _ (by simp)]
        exact hfirst

/-- A natural number as it is written. -/
def Unsigned.ofNat (n : Nat) : Unsigned := ⟨Nat.toDigits 10 n, none, none⟩

theorem Unsigned.proper_ofNat (n : Nat) : (ofNat n).Proper where
  whole := isDigits_toDigits n
  leading := by
    intro hfirst
    rcases Nat.eq_zero_or_pos n with rfl | hn
    · rfl
    · exact absurd hfirst (head?_digitValues_toDigits hn)
  fraction := by simp [ofNat]
  exponent := by simp [ofNat]

section Collecting

theorem le_foldl_digits (digits : List Nat) (n : Nat) :
    n ≤ digits.foldl (fun n digit => 10 * n + digit) n := by
  induction digits generalizing n with
  | nil => exact Nat.le_refl n
  | cons digit digits ih =>
      have hstep := ih (10 * n + digit)
      rw [List.foldl_cons]
      omega

/-- Digits of a number of 64 bits are collected to the last. -/
theorem Scaled.addWhole_of_lt {digits : List Nat} {s : Scaled}
    (h : digits.foldl (fun n digit => 10 * n + digit) s.significand < UInt64.size) :
    s.addWhole digits =
      ⟨digits.foldl (fun n digit => 10 * n + digit) s.significand, s.power⟩ := by
  induction digits generalizing s with
  | nil => rfl
  | cons digit digits ih =>
      have hfits : s.admits digit = true := by
        have hle := le_foldl_digits digits (10 * s.significand + digit)
        rw [List.foldl_cons] at h
        exact decide_eq_true (Nat.lt_of_le_of_lt hle h)
      rw [addWhole, if_pos hfits]
      exact ih h

theorem addWhole_toDigits {n : Nat} (h : n < UInt64.size) :
    Scaled.addWhole ⟨0, 0⟩ (digitValues (Nat.toDigits 10 n)) = ⟨n, 0⟩ := by
  have hvalue : (digitValues (Nat.toDigits 10 n)).foldl (fun n digit => 10 * n + digit) 0 = n := by
    rw [digitValues, List.foldl_map]
    exact Nat.ofDigitChars_ten_toDigits
  rw [Scaled.addWhole_of_lt (by rwa [hvalue]), hvalue]

end Collecting

/-- The numeral of an integer. -/
def numeralOf (n : Int) : Numeral :=
  ⟨decide (n < 0), digitValues (Nat.toDigits 10 n.natAbs), none, none⟩

/-- An integer of 64 bits is the value of its numeral. -/
theorem value?_numeralOf {n : Int} (hlow : -0x8000000000000000 ≤ n) (hhigh : n < 0x10000000000000000) :
    (numeralOf n).value? = some (.int n) := by
  have hsize : n.natAbs < UInt64.size := by
    rw [show UInt64.size = 0x10000000000000000 from rfl]
    omega
  rw [Numeral.value?, numeralOf, addWhole_toDigits hsize]
  by_cases hn : n < 0
  · have hrange : ¬ (n.natAbs = 0 ∨ 0x8000000000000000 < n.natAbs) := by omega
    have hvalue : -(n.natAbs : Int) = n := by omega
    simp only [decide_eq_true hn, ne_eq, not_true_eq_false, if_false, Bool.not_true,
      Bool.false_eq_true, if_neg hrange, hvalue]
  · have hvalue : (n.natAbs : Int) = n := by omega
    simp [hn, hvalue]

theorem toList_toString_int (n : Int) :
    (toString n).toList = (if n < 0 then ['-'] else []) ++ Nat.toDigits 10 n.natAbs := by
  rw [Int.toString_eq_repr, Int.repr_eq_if]
  by_cases hn : n < 0
  · rw [if_neg (by omega), if_pos hn, show (-n).toNat = n.natAbs by omega]
    simp
  · rw [if_pos (by omega), if_neg hn, show n.toNat = n.natAbs by omega]
    simp

theorem readAs_int (n : Int) : ReadAs (.number (.int n)) (.number (numeralOf n)) := by
  refine (Unsigned.proper_ofNat n.natAbs).readAs (decide (n < 0)) ?_
  rw [Number.render, toList_toString_int]
  simp [Unsigned.text, Unsigned.ofNat, Unsigned.fractionText, Unsigned.exponentText]

end ProjectHub.Json

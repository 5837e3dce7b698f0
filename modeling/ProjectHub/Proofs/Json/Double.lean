import ProjectHub.Proofs.Json.Value

/-!
# Doubles written are read as numerals

A double is laid out in places or with an exponent, and in each layout its text
is a number as JSON spells it: the digits of a double start with no zero, so no
zero stands before another. With that every value, of whatever kind, is read as
some syntax from its text, whatever number a reader then makes of a numeral.
-/

namespace ProjectHub

namespace Decimal.Binary

variable {b : Binary}

theorem multipleAt?_pos {place : Int} {n : Nat} (h : b.multipleAt? place = some n) : 0 < n := by
  unfold multipleAt? at h
  extract_lets quarter scale unit centre low high inside floor below above lowFirst at h
  split at h
  · rename_i hfloor
    rw [Bool.and_eq_true, Bool.and_eq_true, bne_iff_ne] at hfloor
    rw [← Option.some.inj h]
    exact Nat.pos_of_ne_zero hfloor.1.1
  · split at h
    · rw [← Option.some.inj h]
      exact Nat.succ_pos floor
    · cases h

theorem multipleFrom_pos (h : 0 < b.mantissa) (steps : Nat) (place : Int) :
    0 < (b.multipleFrom steps place).1 := by
  induction steps generalizing place with
  | zero => exact h
  | succ steps ih =>
      rw [multipleFrom]
      split
      · rename_i n hn
        exact multipleAt?_pos hn
      · exact ih (place - 1)

theorem shortest_pos (h : 0 < b.mantissa) : 0 < b.shortest.1 :=
  multipleFrom_pos h _ _

end Decimal.Binary

namespace Json

theorem isDigits_append {digits more : List Char} (h : IsDigits digits)
    (hmore : ∀ c ∈ more, c.isDigit = true) : IsDigits (digits ++ more) :=
  ⟨List.append_ne_nil_of_left_ne_nil h.1 more, fun c hc =>
    (List.mem_append.1 hc).elim (h.2 c) (hmore c)⟩

theorem isDigit_of_mem_zeros {n : Nat} {c : Char} (h : c ∈ List.replicate n '0') :
    c.isDigit = true := by
  rw [List.eq_of_mem_replicate h]
  rfl

theorem isDigits_zero : IsDigits ['0'] :=
  ⟨List.cons_ne_nil _ _, by simp⟩

/-- A number with places is proper if no zero stands before its whole part. -/
theorem proper_places {whole fraction : List Char} (hwhole : IsDigits whole)
    (hleading : (digitValues whole).head? = some 0 → whole.length = 1)
    (hfraction : IsDigits fraction) : Unsigned.Proper ⟨whole, some fraction, none⟩ where
  whole := hwhole
  leading := hleading
  fraction _ h := Option.some.inj h ▸ hfraction
  exponent _ h := nomatch h

/-- A number of one digit before the point and an exponent is proper. -/
theorem proper_scientific {d : Char} (fraction : Option (List Char)) (hd : d.isDigit = true)
    (hfraction : ∀ digits ∈ fraction, IsDigits digits) (minus : Bool) (n : Nat) :
    Unsigned.Proper ⟨[d], fraction, some (minus, Nat.toDigits 10 n)⟩ where
  whole := ⟨List.cons_ne_nil _ _, by simpa using hd⟩
  leading _ := rfl
  fraction := hfraction
  exponent _ h := Option.some.inj h ▸ isDigits_toDigits n

/-- The layout of digits that start with no zero is an unsigned number. -/
theorem exists_layOut_eq {digits : List Char} (hdigits : IsDigits digits)
    (hleading : (digitValues digits).head? ≠ some 0) (place : Int) :
    ∃ u : Unsigned, u.Proper ∧ (floatLayout.layOut digits place).toList = u.text := by
  obtain ⟨d, ds, rfl⟩ := List.exists_cons_of_ne_nil hdigits.1
  have hfirst : ∀ more, (digitValues (d :: more)).head? ≠ some 0 := fun _ => hleading
  have hd : d.isDigit = true := hdigits.2 d (List.mem_cons_self ..)
  have hds : ∀ c ∈ ds, c.isDigit = true := fun c hc => hdigits.2 c (List.mem_cons_of_mem d hc)
  unfold FloatLayout.layOut
  extract_lets exponent whole significand
  split
  · split
    · -- a whole number, with zeros up to its point
      have hwhole : IsDigits (d :: ds ++ List.replicate place.toNat '0') :=
        isDigits_append hdigits fun _ => isDigit_of_mem_zeros
      refine ⟨_, proper_places hwhole (fun h => absurd h (hfirst _)) isDigits_zero, ?_⟩
      simp [Unsigned.text, Unsigned.fractionText, Unsigned.exponentText, floatLayout]
    · split
      · -- a point between the digits
        rename_i hplace hexponent
        have hlength : exponent.toNat < ds.length := by
          have hlength : ((d :: ds).length : Int) = ds.length + 1 := by simp
          omega
        have hwhole : IsDigits (d :: ds.take exponent.toNat) :=
          ⟨List.cons_ne_nil _ _, List.forall_mem_cons.2
            ⟨hd, fun c hc => hds c (List.mem_of_mem_take hc)⟩⟩
        have hfraction : IsDigits (ds.drop exponent.toNat) :=
          ⟨fun hnil => by
            rw [List.drop_eq_nil_iff] at hnil
            omega, fun c hc => hds c (List.mem_of_mem_drop hc)⟩
        refine ⟨_, proper_places hwhole (fun h => absurd h (hfirst _)) hfraction, ?_⟩
        simp [Unsigned.text, Unsigned.fractionText, Unsigned.exponentText, whole]
      · -- a zero before the point, and zeros behind it
        have hfraction : IsDigits (List.replicate (exponent.natAbs - 1) '0' ++ d :: ds) :=
          ⟨by simp, fun c hc => (List.mem_append.1 hc).elim isDigit_of_mem_zeros (hdigits.2 c)⟩
        refine ⟨_, proper_places isDigits_zero (fun _ => rfl) hfraction, ?_⟩
        simp [Unsigned.text, Unsigned.fractionText, Unsigned.exponentText]
  · -- one digit before the point, and an exponent
    have hmark : (if 0 ≤ exponent then floatLayout.exponentMark
        else floatLayout.negativeExponentMark).toList =
          ['e', if decide (exponent < 0) then '-' else '+'] := by
      by_cases hexponent : 0 ≤ exponent
      · rw [if_pos hexponent, decide_eq_false (by omega)]
        rfl
      · rw [if_neg hexponent, decide_eq_true (by omega)]
        rfl
    have hsize : (toString exponent.natAbs).toList = Nat.toDigits 10 exponent.natAbs := by simp
    cases ds with
    | nil =>
        refine ⟨_, proper_scientific none hd (by simp) (decide (exponent < 0))
          exponent.natAbs, ?_⟩
        rw [String.toList_append, String.toList_append, hmark, hsize]
        simp [Unsigned.text, Unsigned.fractionText, Unsigned.exponentText, significand]
    | cons second rest =>
        refine ⟨_, proper_scientific (some (second :: rest)) hd
          (fun _ h => Option.some.inj h ▸ ⟨List.cons_ne_nil _ _, hds⟩) (decide (exponent < 0))
          exponent.natAbs, ?_⟩
        rw [String.toList_append, String.toList_append, hmark, hsize]
        simp [Unsigned.text, Unsigned.fractionText, Unsigned.exponentText, significand]

/-- A double is written as a sign and an unsigned number. -/
theorem exists_textOfBits_eq (bits : UInt64) : ∃ (negative : Bool) (u : Unsigned), u.Proper ∧
    (floatLayout.textOfBits bits).toList = (if negative then ['-'] else []) ++ u.text := by
  have hsign : ∀ tail : String,
      ((if bits < 0x8000000000000000 then "" else "-") ++ tail).toList =
        (if decide (¬ bits < 0x8000000000000000) then ['-'] else []) ++ tail.toList := by
    intro tail
    by_cases hbits : bits < 0x8000000000000000 <;> simp [hbits]
  refine ⟨decide (¬ bits < 0x8000000000000000), ?_⟩
  unfold FloatLayout.textOfBits
  extract_lets sign magnitude
  split
  · refine ⟨_, proper_places isDigits_zero (fun _ => rfl) isDigits_zero, ?_⟩
    rw [String.append_assoc, hsign]
    rfl
  · rename_i hmantissa
    have hpos := Decimal.Binary.shortest_pos (Nat.pos_of_ne_zero hmantissa)
    obtain ⟨u, hu, htext⟩ := exists_layOut_eq (isDigits_toDigits magnitude.shortest.1)
      (head?_digitValues_toDigits hpos) magnitude.shortest.2
    refine ⟨u, hu, ?_⟩
    rw [hsign, ← htext]
    simp

theorem exists_readAs_double (bits : UInt64) :
    ∃ source, ReadAs (.number (.float bits)) source := by
  obtain ⟨negative, u, hu, htext⟩ := exists_textOfBits_eq bits
  exact ⟨_, hu.readAs negative htext⟩

mutual

/-- Every value is read as some syntax from its text. -/
theorem exists_readAs : ∀ value : Json, ∃ source, ReadAs value source
  | .null => ⟨_, readAs_null⟩
  | .bool value => ⟨_, readAs_bool value⟩
  | .number (.int value) => ⟨_, readAs_int value⟩
  | .number (.float bits) => exists_readAs_double bits
  | .text value => ⟨_, readAs_text value⟩
  | .array items =>
      have ⟨_, hsources⟩ := exists_readAs_items items
      ⟨_, readAs_array hsources⟩
  | .object members =>
      have ⟨_, hsources⟩ := exists_readAs_members members
      ⟨_, readAs_object hsources⟩

theorem exists_readAs_items : ∀ items : List Json, ∃ sources, List.Forall₂ ReadAs items sources
  | [] => ⟨[], .nil⟩
  | item :: items =>
      have ⟨_, hsource⟩ := exists_readAs item
      have ⟨_, hsources⟩ := exists_readAs_items items
      ⟨_, .cons hsource hsources⟩

theorem exists_readAs_members :
    ∀ members : List (String × Json), ∃ sources, List.Forall₂ MemberReadAs members sources
  | [] => ⟨[], .nil⟩
  | (name, value) :: members =>
      have ⟨source, hsource⟩ := exists_readAs value
      have ⟨_, hsources⟩ := exists_readAs_members members
      ⟨(name.toList.map unitOf, source) :: _, .cons ⟨rfl, hsource⟩ hsources⟩

end

end Json

end ProjectHub

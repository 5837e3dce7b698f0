import ProjectHub.Encoding.Base64
import ProjectHub.Proofs.Run
import ProjectHub.Proofs.Text.Utf8
import ProjectHub.Proofs.Text.Words

/-!
# One spelling for all bytes

Decoding is the inverse of encoding: it gives back what was encoded, and whatever
it accepts is the encoding of what it gives. So bytes have one spelling only, and
a text that spells them with other padding or other left-over bits is refused.
-/

namespace ProjectHub.Base64

/-! ## Symbols -/

theorem value?_symbol : ∀ v < 64, value? (symbol v) = some v := by
  decide

theorem symbol_ne_padding : ∀ v < 64, symbol v ≠ padding := by
  decide

theorem symbol_of_value? {byte : UInt8} {v : Nat} (h : value? byte = some v) :
    v < 64 ∧ symbol v = byte := by
  have hall : ∀ n < 256, (value? (UInt8.ofNat n)).all fun v =>
      v < 64 ∧ symbol v = UInt8.ofNat n := by
    decide +kernel
  have hbyte := hall byte.toNat byte.toNat_lt
  rw [UInt8.ofNat_toNat, h] at hbyte
  simpa using hbyte

theorem valueAt_symbol (offset : Nat) {v : Nat} (hv : v < 64) :
    valueAt offset (symbol v) = .ok v := by
  simp only [valueAt, value?_symbol v hv]

theorem symbol_of_valueAt {offset v : Nat} {byte : UInt8} (h : valueAt offset byte = .ok v) :
    v < 64 ∧ symbol v = byte := by
  unfold valueAt at h
  split at h
  · rename_i hvalue
    cases h
    exact symbol_of_value? hvalue
  · cases h

/-- Only the last eight bits of a number count for its byte. -/
theorem ofNat_of_mod_eq {n : Nat} {b : UInt8} (h : n % 256 = b.toNat) : UInt8.ofNat n = b := by
  rw [← UInt8.toNat_inj, UInt8.toNat_ofNat', ← h]

/-! ## Groups -/

/-- Three bytes are written as four symbols, whose values give the bytes back. -/
theorem exists_group (a b c : UInt8) : ∃ w x y z, w < 64 ∧ x < 64 ∧ y < 64 ∧ z < 64 ∧
    (∀ rest, encode (a :: b :: c :: rest) =
      symbol w :: symbol x :: symbol y :: symbol z :: encode rest) ∧
    UInt8.ofNat ((((w * 64 + x) * 64 + y) * 64 + z) / 65536) = a ∧
    UInt8.ofNat ((((w * 64 + x) * 64 + y) * 64 + z) / 256) = b ∧
    UInt8.ofNat (((w * 64 + x) * 64 + y) * 64 + z) = c := by
  have ha := a.toNat_lt
  have hb := b.toNat_lt
  have hc := c.toNat_lt
  let n := (a.toNat * 256 + b.toNat) * 256 + c.toNat
  refine ⟨n / 262144, n / 4096 % 64, n / 64 % 64, n % 64, by omega, by omega, by omega, by omega,
    fun rest => rfl, ?_⟩
  have hwhole : ((n / 262144 * 64 + n / 4096 % 64) * 64 + n / 64 % 64) * 64 + n % 64 = n := by
    omega
  rw [hwhole]
  exact ⟨ofNat_of_mod_eq (by omega), ofNat_of_mod_eq (by omega), ofNat_of_mod_eq (by omega)⟩

/-- Four symbols from the bytes of their values. -/
theorem encode_group {a b c d : Nat} (ha : a < 64) (hb : b < 64) (hc : c < 64) (hd : d < 64)
    (rest : List UInt8) {n : Nat} (hn : n = ((a * 64 + b) * 64 + c) * 64 + d) :
    encode (UInt8.ofNat (n / 65536) :: UInt8.ofNat (n / 256) :: UInt8.ofNat n :: rest) =
      symbol a :: symbol b :: symbol c :: symbol d :: encode rest := by
  have hwhole : ((UInt8.ofNat (n / 65536)).toNat * 256 + (UInt8.ofNat (n / 256)).toNat) * 256 +
      (UInt8.ofNat n).toNat = n := by
    simp only [UInt8.toNat_ofNat']
    omega
  have hfirst : n / 262144 = a := by omega
  have hsecond : n / 4096 % 64 = b := by omega
  have hthird : n / 64 % 64 = c := by omega
  have hfourth : n % 64 = d := by omega
  simp only [encode, hwhole, hfirst, hsecond, hthird, hfourth]

theorem encode_pair {w x y : Nat} (hw : w < 64) (hx : x < 64) (hy : y < 64) (hzero : y % 4 = 0)
    {n : Nat} (hn : n = (w * 64 + x) * 64 + y) :
    encode [UInt8.ofNat (n / 1024), UInt8.ofNat (n / 4)] =
      [symbol w, symbol x, symbol y, padding] := by
  have hwhole : (UInt8.ofNat (n / 1024)).toNat * 256 + (UInt8.ofNat (n / 4)).toNat = n / 4 := by
    simp only [UInt8.toNat_ofNat']
    omega
  have hfirst : n / 4 / 1024 = w := by omega
  have hsecond : n / 4 / 16 % 64 = x := by omega
  have hthird : n / 4 % 16 * 4 = y := by omega
  simp only [encode, hwhole, hfirst, hsecond, hthird]

theorem encode_single {w x : Nat} (hw : w < 64) (hx : x < 64) (hzero : x % 16 = 0) :
    encode [UInt8.ofNat ((w * 64 + x) / 16)] = [symbol w, symbol x, padding, padding] := by
  have hbyte : (UInt8.ofNat ((w * 64 + x) / 16)).toNat = (w * 64 + x) / 16 := by
    simp only [UInt8.toNat_ofNat']
    omega
  have hfirst : (w * 64 + x) / 16 / 4 = w := by omega
  have hsecond : (w * 64 + x) / 16 % 4 * 16 = x := by omega
  simp only [encode, hbyte, hfirst, hsecond]

/-! ## The last group -/

theorem lastValues_symbol {offset position v : Nat} (hv : v < 64) (rest : List UInt8) :
    lastValues offset position (symbol v :: rest) =
      (lastValues offset (position + 1) rest).map (v :: ·) := by
  rw [lastValues, if_neg (symbol_ne_padding v hv), valueAt_symbol _ hv]
  cases lastValues offset (position + 1) rest <;> rfl

theorem lastValues_symbols {offset position : Nat} (values : List Nat) (count : Nat)
    (hvalues : ∀ v ∈ values, v < 64)
    (hposition : count ≠ 0 → 2 ≤ position + values.length) :
    lastValues offset position (values.map symbol ++ List.replicate count padding) =
      .ok values := by
  induction values generalizing position with
  | nil =>
      cases count with
      | zero => rfl
      | succ count =>
          have hlate : ¬ position < 2 := Nat.not_lt.mpr (hposition count.succ_ne_zero)
          simp [List.replicate_succ, lastValues, hlate]
  | cons v values ih =>
      have hlater : count ≠ 0 → 2 ≤ position + 1 + values.length := by
        intro hcount
        have := hposition hcount
        rw [List.length_cons] at this
        omega
      rw [List.map_cons, List.cons_append, lastValues_symbol (hvalues v List.mem_cons_self),
        ih (fun w hw => hvalues w (List.mem_cons_of_mem _ hw)) hlater]
      rfl

/-- A last group that is read consists of symbols of the values and of padding, which does not
start before the third place. -/
theorem eq_of_lastValues {offset position : Nat} {group : List UInt8} {values : List Nat}
    (h : lastValues offset position group = .ok values) :
    (∀ v ∈ values, v < 64) ∧
      ∃ count, group = values.map symbol ++ List.replicate count padding := by
  induction group generalizing position values with
  | nil =>
      cases h
      exact ⟨List.forall_mem_nil _, 0, rfl⟩
  | cons byte rest ih =>
      rw [lastValues] at h
      split at h
      · rename_i hpadding
        split at h
        · cases h
        · split at h
          · rename_i hall
            cases h
            refine ⟨List.forall_mem_nil _, rest.length + 1, ?_⟩
            have hrest : rest = List.replicate rest.length padding := by
              rw [List.eq_replicate_iff]
              exact ⟨rfl, by simpa using hall⟩
            rw [hpadding, List.map_nil, List.nil_append, List.replicate_succ, ← hrest]
          · cases h
      · cases hvalue : valueAt (offset + position) byte with
        | error fault =>
            rw [hvalue] at h
            cases h
        | ok v =>
            cases hlater : lastValues offset (position + 1) rest with
            | error fault =>
                rw [hvalue, hlater] at h
                cases h
            | ok later =>
                rw [hvalue, hlater] at h
                cases h
                obtain ⟨hv, hsymbol⟩ := symbol_of_valueAt hvalue
                obtain ⟨hbound, count, rfl⟩ := ih hlater
                exact ⟨List.forall_mem_cons.mpr ⟨hv, hbound⟩, count, by simp [hsymbol]⟩

/-- The left-over bits of a last symbol, and the length of a last group, are as encoding has
them. -/
theorem decodeLast_encode (offset : Nat) (bytes : List UInt8) (h : bytes.length ≤ 3) :
    decodeLast offset (encode bytes) = .ok bytes := by
  match bytes, h with
  | [], _ => rfl
  | [a], _ =>
      have ha := a.toNat_lt
      have hvalues : lastValues offset 0 (encode [a]) = .ok [a.toNat / 4, a.toNat % 4 * 16] :=
        lastValues_symbols [a.toNat / 4, a.toNat % 4 * 16] 2
          (by simp; omega) (by simp)
      have hbyte : UInt8.ofNat ((a.toNat / 4 * 64 + a.toNat % 4 * 16) / 16) = a :=
        ofNat_of_mod_eq (by omega)
      rw [decodeLast, hvalues]
      simp [encode, hbyte, bind, Except.bind, pure, Except.pure]
  | [a, b], _ =>
      have ha := a.toNat_lt
      have hb := b.toNat_lt
      let n := a.toNat * 256 + b.toNat
      have hvalues : lastValues offset 0 (encode [a, b]) =
          .ok [n / 1024, n / 16 % 64, n % 16 * 4] :=
        lastValues_symbols [n / 1024, n / 16 % 64, n % 16 * 4] 1
          (by simp [n]; omega) (by simp)
      have hfirst : UInt8.ofNat (((n / 1024 * 64 + n / 16 % 64) * 64 + n % 16 * 4) / 1024) = a :=
        ofNat_of_mod_eq (by omega)
      have hsecond : UInt8.ofNat (((n / 1024 * 64 + n / 16 % 64) * 64 + n % 16 * 4) / 4) = b :=
        ofNat_of_mod_eq (by omega)
      rw [decodeLast, hvalues]
      simp [encode, hfirst, hsecond, bind, Except.bind, pure, Except.pure]
  | [a, b, c], _ =>
      obtain ⟨w, x, y, z, hw, hx, hy, hz, hencode, hfirst, hsecond, hthird⟩ := exists_group a b c
      have hvalues : lastValues offset 0 (encode [a, b, c]) = .ok [w, x, y, z] := by
        rw [hencode]
        exact lastValues_symbols [w, x, y, z] 0 (by simp [hw, hx, hy, hz])
          (by simp)
      have hlength : (encode [a, b, c]).length = 4 := by simp [encode]
      rw [decodeLast, hvalues]
      simp only [hlength, bind, Except.bind, pure, Except.pure, hfirst, hsecond, hthird]
      rfl

/-- What is read as a last group is the encoding of what it is read as. -/
theorem eq_of_decodeLast {offset : Nat} {group bytes : List UInt8} (hgroup : group.length ≤ 4)
    (h : decodeLast offset group = .ok bytes) : group = encode bytes := by
  unfold decodeLast at h
  cases hvalues : lastValues offset 0 group with
  | error fault =>
      rw [hvalues] at h
      cases h
  | ok values =>
      obtain ⟨hbound, count, rfl⟩ := eq_of_lastValues hvalues
      simp only [hvalues, bind, Except.bind, pure, Except.pure] at h
      simp only [List.length_append, List.length_map, List.length_replicate] at h hgroup
      split at h
      · cases h
      · rename_i hfew
        split at h
        · cases h
        · rename_i hfull
          simp only [Nat.not_lt, ne_eq, not_and, Decidable.not_not] at hfew hfull
          -- in a group of four the number of values says how much of it is padding
          split at h
          · rename_i w x y z
            cases h
            simp only [List.forall_mem_cons, List.length_cons, List.length_nil] at hbound hgroup
            obtain rfl : count = 0 := by omega
            exact (encode_group hbound.1 hbound.2.1 hbound.2.2.1 hbound.2.2.2.1 [] rfl).symm
          · rename_i w x y
            split at h
            · cases h
            · rename_i hzero
              cases h
              simp only [List.forall_mem_cons, List.length_cons, List.length_nil]
                at hbound hgroup hfull
              obtain rfl : count = 1 := by omega
              have hlast := Decidable.not_not.mp hzero
              exact (encode_pair hbound.1 hbound.2.1 hbound.2.2.1 hlast rfl).symm
          · rename_i w x
            split at h
            · cases h
            · rename_i hzero
              cases h
              simp only [List.forall_mem_cons, List.length_cons, List.length_nil]
                at hbound hgroup hfull
              obtain rfl : count = 2 := by omega
              exact (encode_single hbound.1 hbound.2.1 (Decidable.not_not.mp hzero)).symm
          · rename_i hnot4 hnot3 hnot2
            cases h
            match values with
            | [] =>
                obtain rfl : count = 0 := by
                  simp only [List.length_nil] at hgroup hfew
                  omega
                rfl
            | [w] =>
                simp only [List.length_cons, List.length_nil] at hfew
                omega
            | [w, x] => exact absurd rfl (hnot2 w x)
            | [w, x, y] => exact absurd rfl (hnot3 w x y)
            | [w, x, y, z] => exact absurd rfl (hnot4 w x y z)
            | _ :: _ :: _ :: _ :: _ :: rest =>
                simp only [List.length_cons] at hgroup
                omega

/-! ## Texts -/

theorem encode_eq_nil {bytes : List UInt8} : encode bytes = [] ↔ bytes = [] := by
  fun_cases encode bytes <;> simp

theorem decodeFrom_encode (offset : Nat) (bytes : List UInt8) :
    decodeFrom offset (encode bytes) = .ok bytes := by
  fun_induction encode bytes generalizing offset with
  | case1 => rfl
  | case2 a => exact decodeLast_encode offset [a] (by simp)
  | case3 a b => exact decodeLast_encode offset [a, b] (by simp)
  | case4 a b c rest n ih =>
      obtain ⟨w, x, y, z, hw, hx, hy, hz, hencode, hfirst, hsecond, hthird⟩ := exists_group a b c
      change decodeFrom offset (encode (a :: b :: c :: rest)) = _
      cases hrest : encode rest with
      | nil =>
          obtain rfl : rest = [] := encode_eq_nil.mp hrest
          exact decodeLast_encode offset [a, b, c] (by simp)
      | cons next more =>
          have hlater := ih (offset + 4)
          rw [hrest] at hlater
          rw [hencode, hrest, decodeFrom]
          simp only [valueAt_symbol _ hw, valueAt_symbol _ hx, valueAt_symbol _ hy,
            valueAt_symbol _ hz, hlater, bind, Except.bind, pure, Except.pure, hfirst, hsecond,
            hthird]

theorem eq_of_decodeFrom {offset : Nat} {symbols bytes : List UInt8}
    (h : decodeFrom offset symbols = .ok bytes) : symbols = encode bytes := by
  fun_induction decodeFrom offset symbols generalizing bytes with
  | case1 offset a b c d next rest ih =>
      obtain ⟨w, hfirst, h⟩ := exists_of_bind_ok h
      obtain ⟨x, hsecond, h⟩ := exists_of_bind_ok h
      obtain ⟨y, hthird, h⟩ := exists_of_bind_ok h
      obtain ⟨z, hfourth, h⟩ := exists_of_bind_ok h
      obtain ⟨later, hlater, h⟩ := exists_of_bind_ok h
      cases h
      obtain ⟨hw, rfl⟩ := symbol_of_valueAt hfirst
      obtain ⟨hx, rfl⟩ := symbol_of_valueAt hsecond
      obtain ⟨hy, rfl⟩ := symbol_of_valueAt hthird
      obtain ⟨hz, rfl⟩ := symbol_of_valueAt hfourth
      rw [encode_group hw hx hy hz later rfl, ih hlater]
  | case2 offset group hshort =>
      refine eq_of_decodeLast ?_ h
      match group with
      | [] | [_] | [_, _] | [_, _, _] | [_, _, _, _] => simp
      | a :: b :: c :: d :: next :: rest => exact absurd rfl (hshort a b c d next rest)

theorem length_encode (bytes : List UInt8) :
    (encode bytes).length = 4 * ((bytes.length + 2) / 3) := by
  fun_induction encode bytes with
  | case1 => rfl
  | case2 a n => simp
  | case3 a b n => simp
  | case4 a b c rest n ih =>
      simp only [List.length_cons, ih]
      omega

/-- Decoding succeeds on the encoding of bytes and on nothing else. -/
theorem decode_eq_ok_iff {symbols bytes : List UInt8} :
    decode symbols = .ok bytes ↔ symbols = encode bytes := by
  unfold decode
  constructor
  · intro h
    split at h
    · cases h
    · exact eq_of_decodeFrom h
  · rintro rfl
    have hstray : strayLast? (encode bytes) = none := by
      unfold strayLast?
      have hlength : (encode bytes).length % 4 ≠ 1 := by
        rw [length_encode]
        omega
      split
      · rw [if_neg fun hstray => hlength hstray.1]
      · rfl
    rw [hstray]
    exact decodeFrom_encode 0 bytes

theorem encode_injective {a b : List UInt8} (h : encode a = encode b) : a = b := by
  have ha := decode_eq_ok_iff.mpr (rfl : encode a = encode a)
  rw [decode_eq_ok_iff.mpr h] at ha
  exact (Except.ok.inj ha).symm

/-- The bytes that encodings are made of. -/
def IsSymbol (byte : UInt8) : Prop :=
  byte = padding ∨ ∃ v < 64, byte = symbol v

theorem isSymbol_of_mem_encode {bytes : List UInt8} {byte : UInt8} (h : byte ∈ encode bytes) :
    IsSymbol byte := by
  fun_induction encode bytes with
  | case1 => cases h
  | case2 a n =>
      have ha := a.toNat_lt
      simp only [List.mem_cons, List.not_mem_nil, or_false] at h
      rcases h with rfl | rfl | rfl | rfl
      · exact .inr ⟨_, by omega, rfl⟩
      · exact .inr ⟨_, by omega, rfl⟩
      · exact .inl rfl
      · exact .inl rfl
  | case3 a b n =>
      have ha := a.toNat_lt
      have hb := b.toNat_lt
      simp only [List.mem_cons, List.not_mem_nil, or_false] at h
      rcases h with rfl | rfl | rfl | rfl
      · exact .inr ⟨_, by omega, rfl⟩
      · exact .inr ⟨_, by omega, rfl⟩
      · exact .inr ⟨_, by omega, rfl⟩
      · exact .inl rfl
  | case4 a b c rest n ih =>
      obtain ⟨w, x, y, z, hw, hx, hy, hz, hencode, -⟩ := exists_group a b c
      change byte ∈ encode (a :: b :: c :: rest) at h
      rw [hencode] at h
      simp only [List.mem_cons] at h
      rcases h with rfl | rfl | rfl | rfl | h
      · exact .inr ⟨w, hw, rfl⟩
      · exact .inr ⟨x, hx, rfl⟩
      · exact .inr ⟨y, hy, rfl⟩
      · exact .inr ⟨z, hz, rfl⟩
      · exact ih h

/-- The text of symbols, a character for each. -/
def textOfSymbols (symbols : List UInt8) : String :=
  String.ofList (symbols.map fun b => Char.ofNat b.toNat)

theorem length_textOfSymbols (symbols : List UInt8) :
    (textOfSymbols symbols).length = symbols.length := by
  rw [textOfSymbols, String.length_ofList, List.length_map]

section Symbols

variable {symbols : List UInt8} (hsymbols : ∀ byte ∈ symbols, IsSymbol byte)
include hsymbols

theorem toUTF8_textOfSymbols : (textOfSymbols symbols).toUTF8.toList = symbols := by
  refine Text.toList_toUTF8_ofList fun byte hbyte => ?_
  have hsymbol : ∀ v < 64, (symbol v).toNat < 128 := by decide
  obtain rfl | ⟨v, hv, rfl⟩ := hsymbols byte hbyte
  · decide
  · exact hsymbol v hv

theorem trim_textOfSymbols : Text.trim (textOfSymbols symbols) = textOfSymbols symbols := by
  refine Text.trim_of_not_isBlank fun c hc => ?_
  have hsymbol : ∀ v < 64, Text.isBlank (Char.ofNat (symbol v).toNat) = false := by decide
  rw [textOfSymbols, String.toList_ofList] at hc
  obtain ⟨byte, hbyte, rfl⟩ := List.mem_map.mp hc
  obtain rfl | ⟨v, hv, rfl⟩ := hsymbols byte hbyte
  · decide
  · exact hsymbol v hv

end Symbols

/-- A text that decodes to bytes is their encoding. -/
theorem decodeText_eq_ok_iff {text : String} {bytes : List UInt8} :
    decodeText text = .ok bytes ↔ text = encodeText bytes := by
  have hbytes : (encodeText bytes).toUTF8.toList = encode bytes :=
    toUTF8_textOfSymbols fun _ => isSymbol_of_mem_encode
  unfold decodeText
  rw [decode_eq_ok_iff, ← hbytes]
  exact ⟨Text.toUTF8_injective, fun h => h ▸ rfl⟩

/-! ## Other spellings -/

/-- The bytes of the values of symbols; bits that are left over are dropped. -/
def bytesOfValues : List Nat → List UInt8
  | w :: x :: y :: z :: rest =>
    let n := ((w * 64 + x) * 64 + y) * 64 + z
    UInt8.ofNat (n / 65536) :: UInt8.ofNat (n / 256) :: UInt8.ofNat n :: bytesOfValues rest
  | [w, x, y] =>
    let n := (w * 64 + x) * 64 + y
    [UInt8.ofNat (n / 1024), UInt8.ofNat (n / 4)]
  | [w, x] => [UInt8.ofNat ((w * 64 + x) / 16)]
  | _ => []

/-- The bytes that the symbols up to the first padding stand for, however long the padding is and
whatever is left over. -/
def spelled? (symbols : List UInt8) : Option (List UInt8) :=
  ((symbols.takeWhile (· ≠ padding)).mapM value?).map bytesOfValues

theorem mapM_symbols {values : List Nat} (hvalues : ∀ v ∈ values, v < 64) (count : Nat) :
    ((values.map symbol ++ List.replicate count padding).takeWhile (· ≠ padding)).mapM value? =
      some values := by
  induction values with
  | nil => cases count <;> simp [List.replicate_succ]
  | cons v values ih =>
      obtain ⟨hv, hvalues⟩ := List.forall_mem_cons.mp hvalues
      have hsymbol : decide (symbol v ≠ padding) = true := decide_eq_true (symbol_ne_padding v hv)
      rw [List.map_cons, List.cons_append, List.takeWhile_cons, if_pos hsymbol, List.mapM_cons,
        value?_symbol v hv, ih hvalues]
      rfl

theorem exists_values_encode (bytes : List UInt8) : ∃ values count, (∀ v ∈ values, v < 64) ∧
    encode bytes = values.map symbol ++ List.replicate count padding ∧
    bytesOfValues values = bytes := by
  fun_induction encode bytes with
  | case1 => exact ⟨[], 0, List.forall_mem_nil _, rfl, rfl⟩
  | case2 a n =>
      have ha := a.toNat_lt
      refine ⟨[n / 4, n % 4 * 16], 2, by simp; omega, rfl, ?_⟩
      rw [bytesOfValues, ofNat_of_mod_eq (b := a) (by omega)]
  | case3 a b n =>
      have ha := a.toNat_lt
      have hb := b.toNat_lt
      refine ⟨[n / 1024, n / 16 % 64, n % 16 * 4], 1, by simp; omega, rfl, ?_⟩
      rw [bytesOfValues, ofNat_of_mod_eq (b := a) (by omega), ofNat_of_mod_eq (b := b) (by omega)]
  | case4 a b c rest n ih =>
      obtain ⟨values, count, hbound, hrest, hbytes⟩ := ih
      obtain ⟨w, x, y, z, hw, hx, hy, hz, hencode, hfirst, hsecond, hthird⟩ := exists_group a b c
      refine ⟨w :: x :: y :: z :: values, count, ?_, ?_, ?_⟩
      · simpa [hw, hx, hy, hz] using hbound
      · change encode (a :: b :: c :: rest) = _
        rw [hencode, hrest]
        rfl
      · simp only [bytesOfValues, hfirst, hsecond, hthird, hbytes]

/-- Longer padding changes nothing in what is spelled. -/
theorem spelled?_encode_append (bytes : List UInt8) (count : Nat) :
    spelled? (encode bytes ++ List.replicate count padding) = some bytes := by
  obtain ⟨values, first, hbound, hencode, hbytes⟩ := exists_values_encode bytes
  rw [spelled?, hencode, List.append_assoc, List.replicate_append_replicate, mapM_symbols hbound,
    Option.map_some, hbytes]

/-- Of the texts that stand for bytes, whatever their padding and their left-over bits are, only
the encoding of the bytes decodes. -/
theorem decode_error_of_spelled? {symbols bytes : List UInt8}
    (hspelled : spelled? symbols = some bytes) (hne : symbols ≠ encode bytes) :
    ∃ fault, decode symbols = .error fault := by
  cases hdecode : decode symbols with
  | error fault => exact ⟨fault, rfl⟩
  | ok found =>
      obtain rfl := decode_eq_ok_iff.mp hdecode
      have hfound := spelled?_encode_append found 0
      rw [List.replicate_zero, List.append_nil, hspelled] at hfound
      exact absurd (congrArg encode (Option.some.inj hfound).symm) hne

/-- Whole groups of the encoding of bytes, short of all, are the encoding of the first bytes. -/
theorem take_encode {bytes : List UInt8} {count : Nat} (h : 4 * count < (encode bytes).length) :
    (encode bytes).take (4 * count) = encode (bytes.take (3 * count)) := by
  induction count generalizing bytes with
  | zero => rfl
  | succ count ih =>
      rw [length_encode] at h
      match bytes, h with
      | a :: b :: c :: rest, h =>
          obtain ⟨w, x, y, z, -, -, -, -, hencode, -⟩ := exists_group a b c
          have hrest : 4 * count < (encode rest).length := by
            rw [length_encode]
            simp only [List.length_cons] at h
            omega
          have htake : (a :: b :: c :: rest).take (3 * (count + 1)) =
              a :: b :: c :: rest.take (3 * count) := rfl
          rw [htake, hencode, hencode, ← ih hrest]
          rfl
      | [], h | [_], h | [_, _], h =>
          simp only [List.length_cons, List.length_nil] at h
          omega

/-- What is cut off from the encoding of bytes and still decodes gives the first of the bytes. -/
theorem eq_take_of_decode_take {bytes found : List UInt8} {count : Nat}
    (hcount : count < (encode bytes).length) (h : decode ((encode bytes).take count) = .ok found) :
    ∃ m, 3 * m < bytes.length ∧ found = bytes.take (3 * m) := by
  have htake := decode_eq_ok_iff.mp h
  have hlength := congrArg List.length htake
  rw [List.length_take, length_encode, length_encode] at hlength
  rw [length_encode] at hcount
  obtain ⟨m, rfl⟩ : ∃ m, count = 4 * m := ⟨(found.length + 2) / 3, by omega⟩
  refine ⟨m, by omega, ?_⟩
  rw [take_encode (by rw [length_encode]; omega)] at htake
  exact encode_injective htake.symm

end ProjectHub.Base64

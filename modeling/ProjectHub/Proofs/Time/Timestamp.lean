import Mathlib.Data.List.TakeWhile
import ProjectHub.Proofs.Time.Calendar
import ProjectHub.Time.Lenient

/-!
# Timestamps written are read back

Every part of a timestamp is written with a fixed number of digits, so a reader
that counts digits finds the parts again, and the calendar gives back the days.
-/

namespace ProjectHub

namespace Text

variable {width n : Nat}

theorem toList_paddedNat (width n : Nat) :
    (paddedNat width n).toList =
      List.replicate (width - (Nat.toDigits 10 n).length) '0' ++ Nat.toDigits 10 n := by
  simp [paddedNat]

theorem isDigit_of_mem_paddedNat {c : Char} (h : c ∈ (paddedNat width n).toList) :
    c.isDigit = true := by
  rw [toList_paddedNat, List.mem_append] at h
  rcases h with h | h
  · rw [List.eq_of_mem_replicate h]
    decide
  · exact Nat.isDigit_of_mem_toDigits (by decide) (by decide) h

theorem length_paddedNat (width : Nat) {n : Nat} (hw : 0 < width) (h : n < 10 ^ width) :
    (paddedNat width n).toList.length = width := by
  have hlength := (Nat.length_toDigits_le_iff (b := 10) (by decide) hw).mpr h
  rw [toList_paddedNat, List.length_append, List.length_replicate]
  omega

theorem natOfDigits_paddedNat (width n : Nat) : natOfDigits (paddedNat width n).toList = n := by
  show Nat.ofDigitChars 10 _ 0 = n
  rw [toList_paddedNat, Nat.ofDigitChars_append, Nat.ofDigitChars_replicate_zero, Nat.mul_zero,
    Nat.ofDigitChars_ten_toDigits]

end Text

namespace Instant

theorem readFixed_digits {digits : List Char} (h : ∀ c ∈ digits, c.isDigit = true) (start : Nat)
    (rest : List Char) :
    readFixed digits.length start (digits ++ rest) =
      .ok (digits.foldl (fun n c => 10 * n + (c.toNat - 48)) start, rest) := by
  induction digits generalizing start with
  | nil => rfl
  | cons c digits ih =>
      rw [List.length_cons, List.cons_append, readFixed, if_pos (h c (List.mem_cons_self ..))]
      exact ih (fun d hd => h d (List.mem_cons_of_mem _ hd)) _

/-- A number of a fixed width is read back. -/
theorem readFixed_paddedNat (width : Nat) {n : Nat} (hw : 0 < width) (h : n < 10 ^ width)
    (rest : List Char) :
    readFixed width 0 ((Text.paddedNat width n).toList ++ rest) = .ok (n, rest) := by
  have hdigits : ∀ c ∈ (Text.paddedNat width n).toList, c.isDigit = true :=
    fun _ => Text.isDigit_of_mem_paddedNat
  have hread := readFixed_digits hdigits 0 rest
  rw [Text.length_paddedNat width hw h] at hread
  rw [hread]
  exact congrArg (fun m => Except.ok (m, rest)) (Text.natOfDigits_paddedNat width n)

theorem readFraction_point {digits : List Char} (h : ∀ c ∈ digits, c.isDigit = true)
    (hne : digits ≠ []) (hlength : digits.length ≤ 9) {rest : List Char}
    (hrest : ∀ c ∈ rest.head?, c.isDigit = false) :
    readFraction ('.' :: (digits ++ rest)) =
      .ok (Text.natOfDigits digits * Nat.pow 10 (9 - digits.length), rest) := by
  have htake : (digits ++ rest).takeWhile Char.isDigit = digits := by
    rw [List.takeWhile_append_of_pos h]
    cases rest with
    | nil => simp
    | cons c rest => simp [hrest c rfl]
  have hdrop : (digits ++ rest).dropWhile Char.isDigit = rest := by
    rw [List.dropWhile_append_of_pos h]
    cases rest with
    | nil => rfl
    | cons c rest => simp [hrest c rfl]
  unfold readFraction
  simp only [htake, hdrop, List.take_of_length_le hlength]
  cases digits with
  | nil => exact absurd rfl hne
  | cons c digits => rfl

section Fraction

variable {rest : List Char} (hrest : ∀ c ∈ rest.head?, c.isDigit = false ∧ c ≠ '.')
include hrest

private theorem readFraction_paddedNat {width n : Nat} (hw : 0 < width) (hw9 : width ≤ 9)
    (h : n < 10 ^ width) :
    readFraction (("." ++ Text.paddedNat width n).toList ++ rest) =
      .ok (n * 10 ^ (9 - width), rest) := by
  have hlength := Text.length_paddedNat width hw h
  have hne : (Text.paddedNat width n).toList ≠ [] := by
    intro hnil
    rw [hnil] at hlength
    exact absurd hlength (by simp; omega)
  have hread := readFraction_point (fun _ => Text.isDigit_of_mem_paddedNat) hne (by omega)
    fun c hc => (hrest c hc).1
  rw [Text.natOfDigits_paddedNat, hlength] at hread
  rw [String.toList_append]
  exact hread

/-- A fraction of a second is read back. -/
theorem readFraction_fractionText {nanos : Nat} (h : nanos < 1000000000) :
    readFraction ((fractionText nanos).toList ++ rest) = .ok (nanos, rest) := by
  unfold fractionText
  by_cases h0 : nanos = 0
  · rw [if_pos h0, h0]
    cases rest with
    | nil => rfl
    | cons c rest =>
        have hc := (hrest c rfl).2
        unfold readFraction
        split
        · rename_i hpoint
          cases hpoint
          exact absurd rfl hc
        · rfl
  rw [if_neg h0]
  by_cases h3 : nanos % 1000000 = 0
  · rw [if_pos h3, readFraction_paddedNat hrest (by decide) (by decide) (by omega)]
    congr 2
    omega
  rw [if_neg h3]
  by_cases h6 : nanos % 1000 = 0
  · rw [if_pos h6, readFraction_paddedNat hrest (by decide) (by decide) (by omega)]
    congr 2
    omega
  rw [if_neg h6, readFraction_paddedNat hrest (by decide) (by decide) (by omega)]
  congr 2
  omega

end Fraction

theorem length_le_byteLength (cs : List Char) : cs.length ≤ byteLength cs := by
  unfold byteLength
  induction cs with
  | nil => simp
  | cons c cs ih =>
      have hc := c.utf8Size_pos
      rw [List.length_cons, String.ofList_cons, String.utf8ByteSize_append,
        String.utf8ByteSize_singleton]
      omega

/-- The parts of a time that a timestamp can show. -/
structure Parts.Showable (p : Parts) : Prop where
  year : 0 ≤ p.year ∧ p.year ≤ 9999
  month : 1 ≤ p.month ∧ p.month ≤ 12
  day : 1 ≤ p.day ∧ p.day ≤ daysInMonth p.year p.month
  hour : p.hour ≤ 23
  minute : p.minute ≤ 59
  second : p.second ≤ 60
  fraction : p.fraction < 1000000000

/-- The instant that parts of a time denote. -/
def Parts.instant (p : Parts) : Instant :=
  ⟨86400 * daysOfDate p.year p.month p.day +
      (3600 * p.hour + 60 * p.minute + (p.second - p.second / 60) : Nat),
    p.fraction + p.second / 60 * 1000000000⟩

/-- The timestamp of parts of a time is read as the instant they denote. -/
theorem parse_render {t : Instant} (h : t.parts.Showable) :
    parse (t.render "+00:00") = .ok t.parts.instant := by
  unfold render
  generalize t.parts = p at *
  obtain ⟨hyear, hmonth, hday, hhour, hminute, hsecond, hfraction⟩ := h
  have hday31 : p.day ≤ 31 := by
    unfold daysInMonth at hday
    split at hday <;> split at hday <;> omega
  have hyearNat : ((p.year.toNat : Nat) : Int) = p.year := by omega
  have hdate : ¬ (p.month = 0 ∨ 12 < p.month ∨ p.day = 0 ∨ daysInMonth p.year p.month < p.day) := by
    omega
  have htime : ¬ (23 < p.hour ∨ 59 < p.minute ∨ 60 < p.second) := by omega
  obtain ⟨cs, hcs⟩ : ∃ cs, cs = (Text.paddedNat 4 p.year.toNat).toList ++ '-' ::
      ((Text.paddedNat 2 p.month).toList ++ '-' :: ((Text.paddedNat 2 p.day).toList ++ 'T' ::
        ((Text.paddedNat 2 p.hour).toList ++ ':' :: ((Text.paddedNat 2 p.minute).toList ++ ':' ::
          ((Text.paddedNat 2 p.second).toList ++
            ((fractionText p.fraction).toList ++ "+00:00".toList)))))) := ⟨_, rfl⟩
  have hlong : ¬ byteLength cs < 19 := by
    have hle := length_le_byteLength cs
    have h4 := Text.length_paddedNat 4 (n := p.year.toNat) (by decide) (by omega)
    have h2 (n : Nat) (hn : n < 10 ^ 2) := Text.length_paddedNat 2 (by decide) hn
    have hoffset : "+00:00".toList.length = 6 := by decide
    rw [hcs] at hle ⊢
    simp only [List.length_append, List.length_cons, h4, h2 p.month (by omega),
      h2 p.day (by omega), h2 p.hour (by omega), hoffset] at hle
    omega
  have htext : (yearText p.year ++ "-" ++ Text.paddedNat 2 p.month ++ "-" ++
      Text.paddedNat 2 p.day ++ "T" ++ Text.paddedNat 2 p.hour ++ ":" ++
      Text.paddedNat 2 p.minute ++ ":" ++ Text.paddedNat 2 p.second ++
      fractionText p.fraction ++ "+00:00").toList = cs := by
    rw [hcs, yearText, if_pos hyear]
    simp
  have hoffset : readOffset "+00:00".toList = .ok (0, []) := by decide
  have hend : ∀ c ∈ "+00:00".toList.head?, c.isDigit = false ∧ c ≠ '.' := by
    intro c hc
    have hfirst : "+00:00".toList.head? = some '+' := by decide
    rw [hfirst] at hc
    cases hc
    decide
  have hread := readFraction_fractionText hend hfraction
  have hread4 := readFixed_paddedNat 4 (n := p.year.toNat) (by decide) (by omega)
  have hread2 (n : Nat) (hn : n < 10 ^ 2) := readFixed_paddedNat 2 (by decide) hn
  have hdash (rest : List Char) : expectOneOf ['-'] ('-' :: rest) = .ok rest := rfl
  have hcolon (rest : List Char) : expectOneOf [':'] (':' :: rest) = .ok rest := rfl
  have hmark (rest : List Char) : expectOneOf ['T', 't', ' '] ('T' :: rest) = .ok rest := rfl
  unfold parse
  simp only [htext, if_neg hlong]
  rw [hcs]
  simp only [hread4, hread2 p.month (by omega), hread2 p.day (by omega), hread2 p.hour (by omega),
    hread2 p.minute (by omega), hread2 p.second (by omega), hdash, hcolon, hmark, hread, hoffset,
    hyearNat, if_neg hdate, if_neg htime, bind, Except.bind, pure, Except.pure]
  simp [Parts.instant]

/-- Whether a timestamp of four digits for the year can show an instant: its year is one of
0 to 9999, and a leap second lies at the end of a minute. -/
def Showable (t : Instant) : Prop :=
  (-62167219200 ≤ t.seconds ∧ t.seconds < 253402300800) ∧
    (t.nanos < 1000000000 ∨ t.nanos < 2000000000 ∧ t.seconds % 60 = 59)

instance (t : Instant) : Decidable t.Showable :=
  inferInstanceAs (Decidable (_ ∧ _))

theorem Showable.parts {t : Instant} (h : t.Showable) : t.parts.Showable := by
  obtain ⟨⟨h0, h1⟩, hnanos⟩ := h
  obtain ⟨hmonth, hday, -⟩ := dateOfDays_spec (t.seconds / 86400)
  exact {
    year := year_dateOfDays (by omega) (by omega)
    month := hmonth
    day := hday
    hour := by show _ / 3600 ≤ 23; omega
    minute := by show _ / 60 % 60 ≤ 59; omega
    second := by show _ % 60 + _ / 1000000000 ≤ 60; omega
    fraction := Nat.mod_lt _ (by decide) }

theorem Showable.instant_parts {t : Instant} (h : t.Showable) : t.parts.instant = t := by
  obtain ⟨-, hnanos⟩ := h
  obtain ⟨-, -, hdays⟩ := dateOfDays_spec (t.seconds / 86400)
  obtain ⟨seconds, nanos⟩ := t
  unfold Parts.instant Instant.parts
  simp only at hdays hnanos ⊢
  rw [hdays]
  congr 1 <;> omega

/-- An instant that a timestamp can show is read back from its timestamp. -/
theorem Showable.parse_toRfc3339 {t : Instant} (h : t.Showable) : parse t.toRfc3339 = .ok t := by
  rw [toRfc3339, parse_render h.parts, h.instant_parts]

/-! ### Lenient form

The lenient reader passes over blanks before each part and takes as many digits
as a part may have at most. A written timestamp has no blanks, and each of its
numbers has that many digits, so the reader finds the parts that were written.
-/

theorem skipBlanks_of_head {c : Char} (cs : List Char) (h : Text.isBlank c = false) :
    skipBlanks (c :: cs) = c :: cs := by
  rw [skipBlanks, List.dropWhile_cons, h]
  rfl

theorem isBlank_of_isDigit {c : Char} (h : c.isDigit = true) : Text.isBlank c = false := by
  simp only [Char.isDigit, Bool.and_eq_true, decide_eq_true_eq, ge_iff_le,
    UInt32.le_iff_toNat_le] at h
  have hlow : 48 ≤ c.toNat := h.1
  have hhigh : c.toNat ≤ 57 := h.2
  simp only [Text.isBlank, Bool.or_eq_false_iff, Bool.and_eq_false_iff, decide_eq_false_iff_not,
    beq_eq_false_iff_ne]
  omega

theorem mark?_cons (mark : Char) (rest : List Char) (h : Text.isBlank mark = false) :
    mark? mark (mark :: rest) = some rest := by
  rw [mark?, skipBlanks_of_head rest h]
  exact if_pos rfl

section Digits

variable {width n : Nat}

theorem exists_cons_paddedNat (hw : 0 < width) (h : n < 10 ^ width) :
    ∃ c cs, (Text.paddedNat width n).toList = c :: cs ∧ c.isDigit = true := by
  have hlength := Text.length_paddedNat width hw h
  cases htext : (Text.paddedNat width n).toList with
  | nil =>
      rw [htext, List.length_nil] at hlength
      omega
  | cons c cs =>
      exact ⟨c, cs, rfl, Text.isDigit_of_mem_paddedNat (htext ▸ List.mem_cons_self ..)⟩

theorem skipBlanks_paddedNat (hw : 0 < width) (h : n < 10 ^ width) (rest : List Char) :
    skipBlanks ((Text.paddedNat width n).toList ++ rest) =
      (Text.paddedNat width n).toList ++ rest := by
  obtain ⟨c, cs, htext, hc⟩ := exists_cons_paddedNat hw h
  rw [htext, List.cons_append, skipBlanks_of_head _ (isBlank_of_isDigit hc)]

/-- A number with as many digits as it may have is read, whatever follows it. -/
theorem number?_paddedNat (hw : 0 < width) (h : n < 10 ^ width) (rest : List Char) :
    number? width ((Text.paddedNat width n).toList ++ rest) = some (n, rest) := by
  have hlength := Text.length_paddedNat width hw h
  have hdigits : (((Text.paddedNat width n).toList ++ rest).take width).takeWhile Char.isDigit =
      (Text.paddedNat width n).toList := by
    rw [List.take_append_of_le_length (by omega), List.take_of_length_le (by omega)]
    exact List.takeWhile_eq_self_iff.2 fun c hc => Text.isDigit_of_mem_paddedNat hc
  have hsome : (Text.paddedNat width n).toList.isEmpty = false := by
    obtain ⟨c, cs, htext, -⟩ := exists_cons_paddedNat hw h
    rw [htext]
    rfl
  rw [number?, skipBlanks_paddedNat hw h, hdigits, hsome, Text.natOfDigits_paddedNat,
    List.drop_left]
  rfl

end Digits

/-- A year without a sign is read. -/
theorem signedYear?_yearText {year : Int} (h0 : 0 ≤ year) (h1 : year ≤ 9999) (rest : List Char) :
    signedYear? ((yearText year).toList ++ rest) = some (year, rest) := by
  have hn : year.toNat < 10 ^ 4 := by omega
  obtain ⟨c, cs, htext, hc⟩ := exists_cons_paddedNat (by decide) hn
  have hread := number?_paddedNat (by decide) hn rest
  rw [yearText, if_pos ⟨h0, h1⟩, signedYear?, skipBlanks_paddedNat (by decide) hn]
  rw [htext, List.cons_append] at hread ⊢
  split
  · rename_i hsign
    cases hsign
    cases hc
  · rename_i hsign
    cases hsign
    cases hc
  · rw [hread, Option.map_some]
    exact congrArg (fun year => some (year, rest)) (Int.toNat_of_nonneg h0)

section Render

variable {p : Parts} (h : p.Showable)
include h

/-- A written date is read up to the mark of the time. -/
theorem lenientDate?_render (rest : List Char) :
    lenientDate? ((yearText p.year).toList ++ '-' :: ((Text.paddedNat 2 p.month).toList ++
      '-' :: ((Text.paddedNat 2 p.day).toList ++ 'T' :: rest))) =
      some (daysOfDate p.year p.month p.day, rest) := by
  obtain ⟨⟨hyear, hyear'⟩, ⟨hmonth, hmonth'⟩, ⟨hday, hday'⟩, -⟩ := h
  have hday31 : p.day ≤ 31 := by
    unfold daysInMonth at hday'
    split at hday' <;> split at hday' <;> omega
  have hdash (rest : List Char) := mark?_cons '-' rest (by decide)
  have hread (n : Nat) (hn : n < 10 ^ 2) (rest : List Char) :
      number? 2 ((Text.paddedNat 2 n).toList ++ rest) = some (n, rest) :=
    number?_paddedNat (by decide) hn rest
  have hgood : (!isYear p.year || decide (p.month = 0) || decide (12 < p.month) ||
      decide (p.day = 0) || decide (daysInMonth p.year p.month < p.day)) = false := by
    simp only [isYear, Bool.or_eq_false_iff, Bool.not_eq_false', Bool.and_eq_true,
      decide_eq_true_eq, decide_eq_false_iff_not]
    omega
  simp only [lenientDate?, signedYear?_yearText hyear hyear', hdash, hread p.month (by omega),
    hread p.day (by omega), hgood, bind, Option.bind, Bool.false_eq_true, if_false]
  rfl

/-- A written time is read up to the mark of the offset. -/
theorem lenientTime?_render :
    lenientTime? ((Text.paddedNat 2 p.hour).toList ++ ':' :: ((Text.paddedNat 2 p.minute).toList ++
      ':' :: ((Text.paddedNat 2 p.second).toList ++ ((fractionText p.fraction).toList ++ ['Z'])))) =
      some (3600 * p.hour + 60 * p.minute + (p.second - p.second / 60),
        p.fraction + p.second / 60 * 1000000000, ['Z']) := by
  obtain ⟨-, -, -, hhour, hminute, hsecond, hfraction⟩ := h
  have hcolon (rest : List Char) := mark?_cons ':' rest (by decide)
  have hread (n : Nat) (hn : n < 10 ^ 2) (rest : List Char) :
      number? 2 ((Text.paddedNat 2 n).toList ++ rest) = some (n, rest) :=
    number?_paddedNat (by decide) hn rest
  have hpoint : ∀ c ∈ ['Z'].head?, c.isDigit = false ∧ c ≠ '.' := by
    intro c hc
    cases hc
    decide
  have hgood : (decide (23 < p.hour) || decide (59 < p.minute) || decide (60 < p.second)) =
      false := by
    simp only [Bool.or_eq_false_iff, decide_eq_false_iff_not]
    omega
  simp only [lenientTime?, hcolon, hread p.hour (by omega), hread p.minute (by omega),
    hread p.second (by omega), readFraction_fractionText hpoint hfraction, Except.toOption, hgood,
    bind, Option.bind, pure, Bool.false_eq_true, if_false]

end Render

/-- An instant that a timestamp can show is read back, in lenient form, from the
timestamp that ends in `Z`. -/
theorem Showable.parseLenient?_toZulu {t : Instant} (h : t.Showable) :
    parseLenient? t.toZulu = some t := by
  have htext : t.toZulu.toList = (yearText t.parts.year).toList ++ '-' ::
      ((Text.paddedNat 2 t.parts.month).toList ++ '-' :: ((Text.paddedNat 2 t.parts.day).toList ++
        'T' :: ((Text.paddedNat 2 t.parts.hour).toList ++ ':' ::
          ((Text.paddedNat 2 t.parts.minute).toList ++ ':' ::
            ((Text.paddedNat 2 t.parts.second).toList ++
              ((fractionText t.parts.fraction).toList ++ ['Z'])))))) := by
    simp [toZulu, render]
  have hzulu : offset? (skipBlanks ['Z']) = some (0, []) := by decide
  rw [parseLenient?, htext, lenientDate?_render h.parts]
  simp only [Option.bind_eq_bind, Option.bind_some, lenientTime?_render h.parts, hzulu]
  rw [if_neg (by decide), Int.sub_zero]
  exact congrArg some h.instant_parts

end Instant

end ProjectHub

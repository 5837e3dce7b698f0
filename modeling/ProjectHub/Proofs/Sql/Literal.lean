import Mathlib.Algebra.Group.Nat.Even
import ProjectHub.Sql.Constant
import ProjectHub.Text.Hex

/-!
# Literals

Quoted text is read back: what is read is what was written, with each quote in it twice.
A literal is a truth value or NULL, quoted text, a blob of hexadecimal digits, or a
decimal with at most one sign. Main statement: the constants among defaults are the
literals, and besides them just two kinds of text that look like one, a blob of
anything and a decimal with two signs.
-/

namespace ProjectHub.Sql

/-! ## Quoted text -/

section

variable {quote : Char} {cs inner rest : List Char}

theorem double_cons (quote c : Char) (cs : List Char) :
    double quote (c :: cs) = (if c = quote then [quote, quote] else [c]) ++ double quote cs := rfl

theorem undouble_quote_quote (quote : Char) (cs : List Char) :
    undouble quote (quote :: quote :: cs) =
      (undouble quote cs).map fun (inner, after) => (quote :: inner, after) := by
  rw [undouble.eq_def]
  simp

theorem undouble_cons_of_ne {c : Char} (hc : c ≠ quote) (cs : List Char) :
    undouble quote (c :: cs) =
      (undouble quote cs).map fun (inner, after) => (c :: inner, after) := by
  rw [undouble.eq_def]
  simp [hc]

theorem undouble_quote (hrest : rest.head? ≠ some quote) :
    undouble quote (quote :: rest) = some ([], rest) := by
  cases rest with
  | nil => simp [undouble]
  | cons d more =>
      have hd : d ≠ quote := fun heq => hrest (congrArg some heq)
      simp [undouble, hd]

/-- Reading does not stop within a text whose quotes are doubled. -/
theorem undouble_append (inner cs : List Char) : undouble quote (double quote inner ++ cs) =
    (undouble quote cs).map fun (more, after) => (inner ++ more, after) := by
  induction inner with
  | nil =>
      show undouble quote cs = _
      cases undouble quote cs <;> rfl
  | cons c inner ih =>
      rw [double_cons]
      by_cases hc : c = quote
      · subst hc
        rw [if_pos rfl, List.append_assoc, List.cons_append, List.singleton_append,
          undouble_quote_quote, ih, Option.map_map]
        rfl
      · rw [if_neg hc, List.append_assoc, List.singleton_append, undouble_cons_of_ne hc, ih,
          Option.map_map]
        rfl

/-- A text with its quotes doubled is read up to a quote that stands alone. -/
theorem undouble_double (inner : List Char) (hrest : rest.head? ≠ some quote) :
    undouble quote (double quote inner ++ quote :: rest) = some (inner, rest) := by
  rw [undouble_append, undouble_quote hrest, Option.map_some]
  dsimp only
  rw [List.append_nil]

/-- What is read before a quote that stands alone was written with its quotes doubled. -/
theorem eq_of_undouble (h : undouble quote cs = some (inner, rest)) :
    cs = double quote inner ++ quote :: rest ∧ rest.head? ≠ some quote := by
  fun_induction undouble quote cs generalizing inner with
  | case1 => cases h
  | case2 more ih =>
      obtain ⟨⟨inner', rest'⟩, hmore, heq⟩ := Option.map_eq_some_iff.mp h
      cases heq
      obtain ⟨rfl, hrest⟩ := ih hmore
      exact ⟨by simp [double_cons], hrest⟩
  | case3 d more hd =>
      cases h
      exact ⟨rfl, by simpa using hd⟩
  | case4 =>
      cases h
      exact ⟨rfl, nofun⟩
  | case5 c rest' hc ih =>
      obtain ⟨⟨inner', after⟩, hmore, heq⟩ := Option.map_eq_some_iff.mp h
      cases heq
      obtain ⟨rfl, hrest⟩ := ih hmore
      exact ⟨by simp [double_cons, hc], hrest⟩

/-- What is quoted is read back where its text ends if and only if no other quote follows. -/
theorem unenclose_enclose_iff (inner rest : List Char) :
    unenclose quote (enclose quote inner ++ rest) = some (inner, rest) ↔
      rest.head? ≠ some quote := by
  have hread : unenclose quote (enclose quote inner ++ rest) =
      undouble quote (double quote inner ++ quote :: rest) := by
    rw [enclose, List.cons_append, List.cons_append, List.append_assoc, List.singleton_append,
      unenclose, if_pos rfl]
  rw [hread]
  exact ⟨fun h => (eq_of_undouble h).2, undouble_double inner⟩

/-- A text is a literal of one quoted token exactly if it was written as one. -/
theorem unquoteText?_eq_some_iff : unquoteText? cs = some inner ↔ cs = enclose '\'' inner := by
  constructor
  · intro h
    unfold unquoteText? at h
    split at h
    · rename_i found hfound
      cases h
      cases cs with
      | nil => cases hfound
      | cons c rest =>
          simp only [unenclose] at hfound
          split at hfound
          · rename_i hc
            rw [hc, (eq_of_undouble hfound).1]
            rfl
          · cases hfound
    · cases h
  · rintro rfl
    have hread : unenclose '\'' (enclose '\'' inner ++ []) = some (inner, []) :=
      (unenclose_enclose_iff inner []).mpr (by simp)
    rw [List.append_nil] at hread
    rw [unquoteText?, hread]

theorem enclose_injective {other : List Char} (h : enclose '\'' inner = enclose '\'' other) :
    inner = other := by
  have hread := unquoteText?_eq_some_iff.mpr h
  rw [unquoteText?_eq_some_iff.mpr rfl] at hread
  exact Option.some.inj hread

end

/-! ## Quotes in pairs -/

/-- The text without its pairs of quotes, which are taken out from the left. -/
def cancel (quote : Char) : List Char → List Char
  | c :: d :: rest =>
    if c = quote ∧ d = quote then cancel quote rest else c :: cancel quote (d :: rest)
  | cs => cs

section

variable {quote c : Char} {cs : List Char}

theorem cancel_cons_of_ne (hc : c ≠ quote) (cs : List Char) :
    cancel quote (c :: cs) = c :: cancel quote cs := by
  cases cs with
  | nil => rfl
  | cons d rest => rw [cancel, if_neg fun h => hc h.1]

theorem cancel_quote_quote (quote : Char) (cs : List Char) :
    cancel quote (quote :: quote :: cs) = cancel quote cs := by
  rw [cancel, if_pos ⟨rfl, rfl⟩]

theorem cancel_quote (hcs : cs.head? ≠ some quote) :
    cancel quote (quote :: cs) = quote :: cancel quote cs := by
  cases cs with
  | nil => rfl
  | cons d rest => rw [cancel, if_neg fun h => hcs (congrArg some h.2)]

/-- A text is one with doubled quotes exactly if its quotes are in pairs. -/
theorem not_mem_cancel_iff : quote ∉ cancel quote cs ↔ ∃ inner, cs = double quote inner := by
  constructor
  · intro h
    fun_induction cancel quote cs with
    | case1 c d rest hpair ih =>
        obtain ⟨rfl, rfl⟩ := hpair
        obtain ⟨inner, rfl⟩ := ih h
        exact ⟨d :: inner, by simp [double_cons]⟩
    | case2 c d rest hpair ih =>
        obtain ⟨hc, hrest⟩ := not_or.mp (mt List.mem_cons.mpr h)
        obtain ⟨inner, hinner⟩ := ih hrest
        exact ⟨c :: inner, by simp [double_cons, Ne.symm hc, hinner]⟩
    | case3 cs hshort =>
        cases cs with
        | nil => exact ⟨[], rfl⟩
        | cons c rest =>
            cases rest with
            | nil =>
                have hc : quote ≠ c := fun heq => h (heq ▸ List.mem_cons_self)
                exact ⟨[c], by simp [double, Ne.symm hc]⟩
            | cons d rest => exact absurd rfl (hshort c d rest)
  · rintro ⟨inner, rfl⟩
    induction inner with
    | nil => exact List.not_mem_nil
    | cons c inner ih =>
        rw [double_cons]
        by_cases hc : c = quote
        · subst hc
          rw [if_pos rfl, List.cons_append, List.singleton_append, cancel_quote_quote]
          exact ih
        · rw [if_neg hc, List.singleton_append, cancel_cons_of_ne hc]
          exact List.not_mem_cons_of_ne_of_not_mem (Ne.symm hc) ih

/-- A run of quotes in a text, from its first quote to its last. -/
def IsRun (quote : Char) (n : Nat) (cs : List Char) : Prop :=
  ∃ before after, cs = before ++ (List.replicate n quote ++ after) ∧
    before.getLast? ≠ some quote ∧ after.head? ≠ some quote

theorem IsRun.cons_of_ne {n : Nat} (h : IsRun quote n cs) (hc : c ≠ quote) :
    IsRun quote n (c :: cs) := by
  obtain ⟨before, after, rfl, hbefore, hafter⟩ := h
  refine ⟨c :: before, after, rfl, ?_, hafter⟩
  cases before with
  | nil => simpa using hc
  | cons b before => rwa [List.getLast?_cons_cons]

/-- What is taken out from a text up to a run does not depend on the run. -/
theorem cancel_append {before : List Char} (hbefore : before.getLast? ≠ some quote)
    (cs : List Char) : cancel quote (before ++ cs) = cancel quote before ++ cancel quote cs := by
  fun_induction cancel quote before with
  | case1 c d rest hpair ih =>
      obtain ⟨rfl, rfl⟩ := hpair
      rw [List.cons_append, List.cons_append, cancel_quote_quote]
      refine ih ?_
      cases rest with
      | nil => exact Option.some_ne_none _ |>.symm
      | cons e rest => rwa [List.getLast?_cons_cons, List.getLast?_cons_cons] at hbefore
  | case2 c d rest hpair ih =>
      rw [List.getLast?_cons_cons] at hbefore
      rw [List.cons_append, List.cons_append, cancel, if_neg hpair, List.cons_append,
        ← List.cons_append, ih hbefore]
  | case3 before hshort =>
      cases before with
      | nil => rfl
      | cons c rest =>
          cases rest with
          | nil =>
              have hc : c ≠ quote := by simpa using hbefore
              exact cancel_cons_of_ne hc cs
          | cons d rest => exact absurd rfl (hshort c d rest)

/-- Of a run, one quote is left if it is of odd length, and none otherwise. -/
theorem cancel_replicate {after : List Char} (hafter : after.head? ≠ some quote) (n : Nat) :
    cancel quote (List.replicate n quote ++ after) =
      List.replicate (n % 2) quote ++ cancel quote after := by
  induction n using Nat.twoStepInduction with
  | zero => rfl
  | one => exact cancel_quote hafter
  | more n ih _ =>
      rw [List.replicate_succ, List.replicate_succ, List.cons_append, List.cons_append,
        cancel_quote_quote, ih, Nat.add_mod_right]

/-- A quote is left exactly if there is a run of odd length. -/
theorem mem_cancel_iff : quote ∈ cancel quote cs ↔ ∃ n, n % 2 = 1 ∧ IsRun quote n cs := by
  constructor
  · intro h
    fun_induction cancel quote cs with
    | case1 c d rest hpair ih =>
        obtain ⟨rfl, rfl⟩ := hpair
        obtain ⟨n, hodd, before, after, rfl, hbefore, hafter⟩ := ih h
        cases before with
        | nil => exact ⟨n + 2, by omega, [], after, rfl, hbefore, hafter⟩
        | cons b before =>
            refine ⟨n, hodd, d :: d :: b :: before, after, rfl, ?_, hafter⟩
            rwa [List.getLast?_cons_cons, List.getLast?_cons_cons]
    | case2 c d rest hpair ih =>
        by_cases hc : c = quote
        · subst hc
          have hd : d ≠ c := fun heq => hpair ⟨rfl, heq⟩
          exact ⟨1, rfl, [], d :: rest, rfl, by simp, by simpa using hd⟩
        · obtain ⟨n, hodd, hrun⟩ := ih ((List.mem_cons.mp h).resolve_left (Ne.symm hc))
          exact ⟨n, hodd, hrun.cons_of_ne hc⟩
    | case3 cs hshort =>
        cases cs with
        | nil => cases h
        | cons c rest =>
            cases rest with
            | nil =>
                obtain rfl := List.mem_singleton.mp h
                exact ⟨1, rfl, [], [], rfl, by simp, by simp⟩
            | cons d rest => exact absurd rfl (hshort c d rest)
  · rintro ⟨n, hodd, before, after, rfl, hbefore, hafter⟩
    rw [cancel_append hbefore, cancel_replicate hafter, hodd]
    simp

end

/-! ## Decimals -/

/-- Nothing but decimal digits. -/
def AllDigits (cs : List Char) : Prop :=
  ∀ c ∈ cs, c.isDigit = true

/-- At most one sign. -/
def IsSign (sign : List Char) : Prop :=
  sign = [] ∨ sign = ['+'] ∨ sign = ['-']

/-- An exponent that may be missing: a letter, at most one sign, and digits. -/
inductive Exponent : List Char → Prop where
  | missing : Exponent []
  | power {letter : Char} {sign digits : List Char} (hletter : letter = 'e' ∨ letter = 'E')
      (hsign : IsSign sign) (hdigits : AllDigits digits) (hne : digits ≠ []) :
      Exponent (letter :: (sign ++ digits))

/-- An unsigned decimal: digits, with a point behind, before or among them if there is one, and
an exponent. -/
inductive Decimal : List Char → Prop where
  | whole {digits exponent : List Char} (hdigits : AllDigits digits) (hne : digits ≠ [])
      (hexponent : Exponent exponent) : Decimal (digits ++ exponent)
  | point {whole places exponent : List Char} (hwhole : AllDigits whole) (hplaces : AllDigits places)
      (hne : whole ≠ [] ∨ places ≠ []) (hexponent : Exponent exponent) :
      Decimal (whole ++ '.' :: (places ++ exponent))

section

variable {cs digits rest : List Char}

theorem allDigits_takeWhile (cs : List Char) : AllDigits (cs.takeWhile Char.isDigit) :=
  List.all_eq_true.mp List.all_takeWhile

/-- Digits end where no digit follows. -/
theorem span_digits (hdigits : AllDigits digits) (hrest : ∀ c ∈ rest.head?, c.isDigit = false) :
    (digits ++ rest).takeWhile Char.isDigit = digits ∧
      (digits ++ rest).dropWhile Char.isDigit = rest := by
  rw [List.takeWhile_append_of_pos hdigits, List.dropWhile_append_of_pos hdigits]
  cases rest with
  | nil => simp
  | cons c rest => simp [hrest c rfl]

theorem dropSign_of_head (h : ∀ c ∈ cs.head?, c ≠ '+' ∧ c ≠ '-') : Text.dropSign cs = cs := by
  unfold Text.dropSign
  split
  · exact absurd rfl (h '+' rfl).1
  · exact absurd rfl (h '-' rfl).2
  · rfl

theorem exists_sign (cs : List Char) : ∃ sign, IsSign sign ∧ cs = sign ++ Text.dropSign cs := by
  unfold Text.dropSign
  split
  · exact ⟨['+'], .inr (.inl rfl), rfl⟩
  · exact ⟨['-'], .inr (.inr rfl), rfl⟩
  · exact ⟨[], .inl rfl, rfl⟩

theorem dropSign_append {sign : List Char} (hsign : IsSign sign)
    (h : ∀ c ∈ cs.head?, c ≠ '+' ∧ c ≠ '-') : Text.dropSign (sign ++ cs) = cs := by
  rcases hsign with rfl | rfl | rfl
  · exact dropSign_of_head h
  · rfl
  · rfl

theorem ne_sign_of_isDigit {c : Char} (h : c.isDigit = true) : c ≠ '+' ∧ c ≠ '-' := by
  constructor <;> rintro rfl <;> cases h

theorem isExponent_iff : Text.isExponent cs = true ↔ Exponent cs := by
  constructor
  · intro h
    cases cs with
    | nil => exact .missing
    | cons c rest =>
        simp only [Text.isExponent, Bool.and_eq_true, Bool.or_eq_true, beq_iff_eq,
          Bool.not_eq_true', List.all_eq_true] at h
        obtain ⟨⟨hletter, hne⟩, hdigits⟩ := h
        obtain ⟨sign, hsign, hrest⟩ := exists_sign rest
        rw [hrest]
        exact .power hletter hsign hdigits (by simpa using hne)
  · intro h
    cases h with
    | missing => rfl
    | @power letter sign digits hletter hsign hdigits hne =>
        have hfront : ∀ c ∈ digits.head?, c ≠ '+' ∧ c ≠ '-' := fun c hc =>
          ne_sign_of_isDigit (hdigits c (List.mem_of_mem_head? hc))
        simp only [Text.isExponent, dropSign_append hsign hfront]
        simpa [hne] using ⟨hletter, hdigits⟩

/-- What may stand behind digits is no digit and no point. -/
theorem Exponent.head (h : Exponent cs) : ∀ c ∈ cs.head?, c.isDigit = false ∧ c ≠ '.' := by
  intro c hc
  cases h with
  | missing => cases hc
  | power hletter =>
      cases hc
      rcases hletter with rfl | rfl <;> decide

theorem isDecimal_iff : Text.isDecimal cs = true ↔ Decimal cs := by
  constructor
  · intro h
    have hsplit : cs.takeWhile Char.isDigit ++ cs.dropWhile Char.isDigit = cs :=
      List.takeWhile_append_dropWhile
    unfold Text.isDecimal at h
    split at h
    · rename_i rest hpoint
      simp only [Bool.and_eq_true, Bool.or_eq_true, Bool.not_eq_true', List.isEmpty_eq_false_iff,
        isExponent_iff] at h
      rw [← hsplit, hpoint, ← List.takeWhile_append_dropWhile (p := Char.isDigit) (l := rest)]
      exact .point (allDigits_takeWhile cs) (allDigits_takeWhile rest) h.1 h.2
    · simp only [Bool.and_eq_true, Bool.not_eq_true', List.isEmpty_eq_false_iff,
        isExponent_iff] at h
      rw [← hsplit]
      exact .whole (allDigits_takeWhile cs) h.1 h.2
  · intro h
    cases h with
    | @whole digits exponent hdigits hne hexponent =>
        obtain ⟨htake, hdrop⟩ := span_digits hdigits fun c hc => (hexponent.head c hc).1
        unfold Text.isDecimal
        rw [htake, hdrop]
        split
        · exact absurd rfl (hexponent.head '.' rfl).2
        · simp [hne, isExponent_iff.mpr hexponent]
    | @point whole places exponent hwhole hplaces hne hexponent =>
        have hpoint : ∀ c ∈ ('.' :: (places ++ exponent)).head?, c.isDigit = false := by
          intro c hc
          cases hc
          decide
        obtain ⟨htake, hdrop⟩ := span_digits hwhole hpoint
        obtain ⟨htake', hdrop'⟩ := span_digits hplaces fun c hc => (hexponent.head c hc).1
        unfold Text.isDecimal
        rw [htake, hdrop]
        simpa [htake', hdrop', isExponent_iff.mpr hexponent] using hne

/-- A decimal starts with a digit or with its point. -/
theorem Decimal.head (h : Decimal cs) : ∃ c rest, cs = c :: rest ∧ (c.isDigit = true ∨ c = '.') := by
  cases h with
  | @whole digits exponent hdigits hne =>
      obtain ⟨d, ds, rfl⟩ := List.exists_cons_of_ne_nil hne
      exact ⟨d, ds ++ exponent, rfl, .inl (hdigits d List.mem_cons_self)⟩
  | @point whole places exponent hwhole =>
      cases whole with
      | nil => exact ⟨'.', places ++ exponent, rfl, .inr rfl⟩
      | cons d ds => exact ⟨d, _, rfl, .inl (hwhole d List.mem_cons_self)⟩

theorem Decimal.ne_sign (h : Decimal cs) : ∀ c ∈ cs.head?, c ≠ '+' ∧ c ≠ '-' := by
  intro c hc
  obtain ⟨d, rest, rfl, hd⟩ := h.head
  cases hc
  rcases hd with hd | rfl
  · exact ne_sign_of_isDigit hd
  · decide

end

/-! ## Literals and what looks like one -/

/-- An even number of hexadecimal digits in either case. -/
def IsHex (cs : List Char) : Prop :=
  (∀ c ∈ cs, (Text.hexValue c).isSome = true) ∧ Even cs.length

/-- A literal. -/
inductive Literal : List Char → Prop where
  | word {cs : List Char} (word : String) (hword : word ∈ ["TRUE", "FALSE", "NULL"])
      (hsame : Text.sameAscii (String.ofList cs) word = true) : Literal cs
  | quoted (text : List Char) : Literal (enclose '\'' text)
  | blob {letter : Char} {digits : List Char} (hletter : letter = 'x' ∨ letter = 'X')
      (hdigits : IsHex digits) : Literal (letter :: enclose '\'' digits)
  | number {sign cs : List Char} (hsign : IsSign sign) (h : Decimal cs) : Literal (sign ++ cs)

/-- Text that is not a literal although it looks like one. -/
inductive Lookalike : List Char → Prop where
  /-- A blob of something else than bytes. -/
  | blob {letter : Char} {text : List Char} (hletter : letter = 'x' ∨ letter = 'X')
      (htext : ¬IsHex text) : Lookalike (letter :: enclose '\'' text)
  /-- A decimal with two signs. -/
  | number {first second : Char} {cs : List Char} (hfirst : first = '+' ∨ first = '-')
      (hsecond : second = '+' ∨ second = '-') (h : Decimal cs) : Lookalike (first :: second :: cs)

section

variable {cs : List Char}

theorem isQuoted_iff : isQuoted cs = true ↔ ∃ text, cs = enclose '\'' text := by
  simp only [isQuoted, Option.isSome_iff_exists, unquoteText?_eq_some_iff]

/-- A literal that is a word has the first letter of that in some case. -/
theorem head_of_word {c : Char} {rest : List Char} {word : String}
    (hword : word ∈ ["TRUE", "FALSE", "NULL"])
    (hsame : Text.sameAscii (String.ofList (c :: rest)) word = true) :
    c.toLower = 't' ∨ c.toLower = 'f' ∨ c.toLower = 'n' := by
  simp only [Text.sameAscii, Text.lowerAscii, String.toList_ofList, beq_iff_eq,
    String.ofList_inj, List.map_cons] at hsame
  simp only [List.mem_cons, List.not_mem_nil, or_false] at hword
  rcases hword with rfl | rfl | rfl
  · exact .inl (List.cons.inj hsame).1
  · exact .inr (.inl (List.cons.inj hsame).1)
  · exact .inr (.inr (List.cons.inj hsame).1)

/-- A number starts with a sign, a digit or its point. -/
theorem head_of_number {sign : List Char} (hsign : IsSign sign) (h : Decimal cs) :
    ∀ c ∈ (sign ++ cs).head?, c = '+' ∨ c = '-' ∨ c = '.' ∨ c.isDigit = true := by
  intro c hc
  obtain ⟨d, rest, rfl, hd⟩ := h.head
  rcases hsign with rfl | rfl | rfl <;> cases hc
  · exact .inr (.inr hd.symm)
  · exact .inl rfl
  · exact .inr (.inl rfl)

/-- A literal with the letter of a blob in front is one of hexadecimal digits. -/
theorem Literal.isHex {letter : Char} {text : List Char} (h : Literal (letter :: enclose '\'' text))
    (hletter : letter = 'x' ∨ letter = 'X') : IsHex text := by
  generalize hcs : letter :: enclose '\'' text = cs at h
  cases h with
  | word word hword hsame =>
      subst hcs
      have hhead := head_of_word hword hsame
      rcases hletter with rfl | rfl <;> exact absurd hhead (by decide)
  | quoted other =>
      rw [(List.cons.inj hcs).1] at hletter
      exact absurd hletter (by decide)
  | blob _ hdigits => exact enclose_injective (List.cons.inj hcs).2 ▸ hdigits
  | number hsign hdecimal =>
      have hhead := head_of_number hsign hdecimal letter (List.head?_eq_some_iff.mpr ⟨_, hcs.symm⟩)
      rcases hletter with rfl | rfl <;> exact absurd hhead (by decide)

/-- A literal has no sign behind the first. -/
theorem Literal.ne_sign {first second : Char} {rest : List Char}
    (h : Literal (first :: second :: rest)) (hfirst : first = '+' ∨ first = '-') :
    second ≠ '+' ∧ second ≠ '-' := by
  generalize hcs : first :: second :: rest = cs at h
  cases h with
  | word word hword hsame =>
      subst hcs
      have hhead := head_of_word hword hsame
      rcases hfirst with rfl | rfl <;> exact absurd hhead (by decide)
  | quoted other =>
      rw [(List.cons.inj hcs).1] at hfirst
      exact absurd hfirst (by decide)
  | blob hletter _ =>
      rw [(List.cons.inj hcs).1] at hfirst
      rcases hletter with rfl | rfl <;> exact absurd hfirst (by decide)
  | number hsign hdecimal =>
      rcases hsign with rfl | rfl | rfl
      · have hhead := hdecimal.ne_sign first (List.head?_eq_some_iff.mpr ⟨_, hcs.symm⟩)
        exact absurd hfirst (not_or.mpr hhead)
      all_goals
        exact hdecimal.ne_sign second
          (List.head?_eq_some_iff.mpr ⟨rest, (List.cons.inj hcs).2.symm⟩)

/-- No literal is a text that only looks like one. -/
theorem Literal.not_lookalike (h : Literal cs) : ¬Lookalike cs := by
  intro hlike
  cases hlike with
  | blob hletter htext => exact htext (h.isHex hletter)
  | number hfirst hsecond hdecimal =>
      have hnone := h.ne_sign hfirst
      exact hsecond.elim hnone.1 hnone.2

/-- A number may have two signs before its digits. -/
theorem isDecimal_dropSign_iff :
    Text.isDecimal (Text.dropSign (Text.dropSign cs)) = true ↔
      (∃ sign rest, IsSign sign ∧ Decimal rest ∧ cs = sign ++ rest) ∨
        ∃ first second rest, (first = '+' ∨ first = '-') ∧ (second = '+' ∨ second = '-') ∧
          Decimal rest ∧ cs = first :: second :: rest := by
  rw [isDecimal_iff]
  constructor
  · intro h
    obtain ⟨first, hfirst, hcs⟩ := exists_sign cs
    obtain ⟨second, hsecond, hrest⟩ := exists_sign (Text.dropSign cs)
    generalize Text.dropSign (Text.dropSign cs) = rest at *
    rw [hrest] at hcs
    rcases hfirst with rfl | hfirst
    · exact .inl ⟨second, rest, hsecond, h, hcs⟩
    rcases hsecond with rfl | hsecond
    · exact .inl ⟨first, rest, .inr hfirst, h, hcs⟩
    refine .inr ?_
    rcases hfirst with rfl | rfl <;> rcases hsecond with rfl | rfl <;>
      exact ⟨_, _, rest, by decide, by decide, h, hcs⟩
  · rintro (⟨sign, rest, hsign, h, rfl⟩ | ⟨first, second, rest, hfirst, hsecond, h, rfl⟩)
    · rwa [dropSign_append hsign h.ne_sign, dropSign_of_head h.ne_sign]
    · rcases hfirst with rfl | rfl <;> rcases hsecond with rfl | rfl <;> exact h

theorem isQuoted_enclose (text : List Char) : isQuoted (enclose '\'' text) = true :=
  isQuoted_iff.mpr ⟨text, rfl⟩

/-- Quoted text is what is left without a quote when the quotes between its ends are taken out in
pairs. -/
theorem isQuoted_iff_cancel : isQuoted cs = true ↔
    ∃ inner, cs = '\'' :: (inner ++ ['\'']) ∧ '\'' ∉ cancel '\'' inner := by
  simp only [isQuoted_iff, not_mem_cancel_iff]
  constructor
  · rintro ⟨text, rfl⟩
    exact ⟨double '\'' text, rfl, text, rfl⟩
  · rintro ⟨_, rfl, text, rfl⟩
    exact ⟨text, rfl⟩

/-- A text between quotes is no quoted text exactly if a run of quotes in it is of odd length. -/
theorem isQuoted_eq_false_iff (inner : List Char) : isQuoted ('\'' :: (inner ++ ['\''])) = false ↔
    ∃ n, n % 2 = 1 ∧ IsRun '\'' n inner := by
  rw [← mem_cancel_iff, ← Bool.not_eq_true, isQuoted_iff_cancel]
  constructor
  · intro h
    by_contra hmem
    exact h ⟨inner, rfl, hmem⟩
  · rintro hmem ⟨other, heq, hother⟩
    obtain rfl := List.append_cancel_right (List.cons.inj heq).2
    exact hother hmem

theorem trimChars_enclose (text : List Char) :
    Text.trimChars (enclose '\'' text) = enclose '\'' text := by
  have hquote : Text.isBlank '\'' = false := by decide
  have hfront : (enclose '\'' text).dropWhile Text.isBlank = enclose '\'' text := by
    rw [enclose, List.cons_append, List.dropWhile_cons_of_neg (by simp [hquote])]
  rw [Text.trimChars, hfront, Text.trimEnd, enclose, List.reverse_append, List.reverse_singleton,
    List.singleton_append, List.dropWhile_cons_of_neg (by simp [hquote]), List.reverse_cons,
    List.reverse_reverse]

/-- Text between quotes behind the letter of a blob is a blob or looks like one. -/
theorem literal_or_lookalike_of_blob {letter : Char} (hletter : letter = 'x' ∨ letter = 'X')
    {cs : List Char} (h : isQuoted cs = true) :
    Literal (letter :: cs) ∨ Lookalike (letter :: cs) := by
  obtain ⟨text, rfl⟩ := isQuoted_iff.mp h
  by_cases hhex : IsHex text
  · exact .inl (.blob hletter hhex)
  · exact .inr (.blob hletter hhex)

/-- The constants are the literals and what looks like one. -/
theorem isConstant_iff {default : String} :
    isConstant default = true ↔
      Literal (Text.trimChars default.toList) ∨ Lookalike (Text.trimChars default.toList) := by
  unfold isConstant
  generalize Text.trimChars default.toList = cs
  simp only [Bool.or_eq_true]
  constructor
  · rintro ((((h | h) | h) | h) | h)
    · exact .inl (.word "TRUE" (by simp) h)
    · exact .inl (.word "FALSE" (by simp) h)
    · exact .inl (.word "NULL" (by simp) h)
    · obtain ⟨text, rfl⟩ := isQuoted_iff.mp h
      exact .inl (.quoted text)
    · split at h
      · exact literal_or_lookalike_of_blob (.inl rfl) h
      · exact literal_or_lookalike_of_blob (.inr rfl) h
      · rcases isDecimal_dropSign_iff.mp h with ⟨sign, rest, hsign, hdecimal, rfl⟩ |
          ⟨first, second, rest, hfirst, hsecond, hdecimal, rfl⟩
        · exact .inl (.number hsign hdecimal)
        · exact .inr (.number hfirst hsecond hdecimal)
  · rintro (h | h)
    · cases h with
      | word word hword hsame =>
          simp only [List.mem_cons, List.not_mem_nil, or_false] at hword
          rcases hword with rfl | rfl | rfl <;> simp [hsame]
      | quoted text => exact .inl (.inr (isQuoted_enclose text))
      | blob hletter _ => rcases hletter with rfl | rfl <;> exact .inr (isQuoted_enclose _)
      | @number sign rest hsign hdecimal =>
          have hvalue := isDecimal_dropSign_iff.mpr (.inl ⟨sign, rest, hsign, hdecimal, rfl⟩)
          have hhead := head_of_number hsign hdecimal
          right
          split
          · rename_i hx
            exact absurd (hhead 'x' (hx ▸ rfl)) (by decide)
          · rename_i hx
            exact absurd (hhead 'X' (hx ▸ rfl)) (by decide)
          · exact hvalue
    · cases h with
      | blob hletter _ => rcases hletter with rfl | rfl <;> exact .inr (isQuoted_enclose _)
      | @number first second rest hfirst hsecond hdecimal =>
          have hvalue := isDecimal_dropSign_iff.mpr
            (.inr ⟨first, second, rest, hfirst, hsecond, hdecimal, rfl⟩)
          right
          rcases hfirst with rfl | rfl <;> exact hvalue

theorem isConstant_quoteText (text : String) : isConstant (quoteText text) = true := by
  rw [isConstant_iff, quoteText, String.toList_ofList, trimChars_enclose]
  exact .inl (.quoted text.toList)

end

end ProjectHub.Sql

import Mathlib.Data.List.TakeWhile
import ProjectHub.Document.Lexer

/-!
# Tokens written out

Any list of tokens can be written as a document, one item on a line, inner blocks
indented, quoted text escaped. Reading the document gives the tokens back,
whatever characters are in the quoted text; only the lines where they stand are
added.
-/

namespace ProjectHub.Document

/-! ## Quoted text -/

/-- One character of quoted text. -/
def escapeChar (c : Char) : List Char :=
  if c = '"' then ['\\', '"']
  else if c = '\\' then ['\\', '\\']
  else if c = '\n' then ['\\', 'n']
  else if c = '\t' then ['\\', 't']
  else [c]

/-- Text as it stands between quotes. -/
def escaped (cs : List Char) : List Char :=
  cs.flatMap escapeChar

theorem readText_escapeChar (c : Char) (rest : List Char) :
    readText (escapeChar c ++ rest) =
      (readText rest).map fun (value, after) => (c :: value, after) := by
  by_cases hquote : c = '"'
  · subst hquote
    simp [escapeChar, readText, unescape?]
  by_cases hback : c = '\\'
  · subst hback
    simp [escapeChar, readText, unescape?]
  by_cases hline : c = '\n'
  · subst hline
    simp [escapeChar, readText, unescape?]
  by_cases htab : c = '\t'
  · subst htab
    simp [escapeChar, readText, unescape?]
  simp only [escapeChar, hquote, hback, hline, htab, if_false, List.singleton_append]
  rw [readText, if_neg hquote, if_neg hline]
  · intro hc
    exact absurd hc hback
  · intro d tail hc
    exact absurd hc hback

/-- Text between quotes is read back, and what follows it stays. -/
theorem readText_escaped (cs rest : List Char) :
    readText (escaped cs ++ '"' :: rest) = .ok (cs, rest) := by
  induction cs with
  | nil => simp [escaped, readText]
  | cons c cs ih =>
      have hcons :
          escaped (c :: cs) ++ '"' :: rest = escapeChar c ++ (escaped cs ++ '"' :: rest) := by
        simp [escaped]
      rw [hcons, readText_escapeChar, ih]
      rfl

/-! ## One token -/

namespace Token

/-- A token as it is written. -/
def spell : Token → List Char
  | ident name => name.toList
  | text value => '"' :: (escaped value.toList ++ ['"'])
  | number digits => digits.toList
  | openBrace => ['\x7b']
  | closeBrace => ['\x7d']
  | openBracket => ['[']
  | closeBracket => [']']
  | openParen => ['(']
  | closeParen => [')']
  | equals => ['=']
  | comma => [',']

/-- Whether a token has a spelling: its word or number is one. -/
def isSpelled : Token → Bool
  | ident name =>
    match name.toList with
    | [] => false
    | c :: cs => isWordStart c && !Text.isBlank c && cs.all isWordChar
  | number digits =>
    match digits.toList with
    | [] => false
    | c :: cs => startsNumber c cs && cs.all isNumberChar
  | _ => true

/-- Whether a token has no mark at its end, so that a word behind it would run into it. -/
def isBare : Token → Bool
  | ident _ => true
  | number _ => true
  | _ => false

end Token

/-- Whether a character ends a word or a number. -/
def endsBare (c : Char) : Bool :=
  !isWordChar c && !isNumberChar c

/-- Whether a text does not go on with the word or number before it. -/
def Ends (rest : List Char) : Prop :=
  ∀ c ∈ rest.head?, endsBare c = true

section Reading

variable {rest : List Char}

theorem takeWhile_append_of_ends {p : Char → Bool} {cs : List Char} (rest : List Char) 
    (hcs : ∀ c ∈ cs, p c = true) (hrest : ∀ c ∈ rest.head?, p c = false) :
    (cs ++ rest).takeWhile p = cs ∧ (cs ++ rest).dropWhile p = rest := by
  have hhead : rest.takeWhile p = [] ∧ rest.dropWhile p = rest := by
    cases rest with
    | nil => exact ⟨rfl, rfl⟩
    | cons c rest =>
        have hc : p c = false := hrest c rfl
        simp [hc]
  rw [List.takeWhile_append_of_pos hcs, List.dropWhile_append_of_pos hcs, hhead.1, hhead.2,
    List.append_nil]
  exact ⟨rfl, rfl⟩

theorem readToken_text (value : String) :
    readToken '"' (escaped value.toList ++ '"' :: rest) = .ok (.text value, rest) := by
  have hmark : Token.ofMark? '"' = none := rfl
  simp only [readToken, hmark, readText_escaped, Except.map, if_true, String.ofList_toList]

theorem startsNumber_append {c : Char} {cs : List Char} (h : startsNumber c cs = true) :
    startsNumber c (cs ++ rest) = true := by
  cases cs with
  | nil =>
      have hdigit : c.isDigit = true := by simpa [startsNumber] using h
      simp [startsNumber, hdigit]
  | cons d cs => exact h

theorem readToken_number {digits : String} {c : Char} {cs : List Char}
    (hdigits : digits.toList = c :: cs) (hspelled : (Token.number digits).isSpelled = true)
    (hrest : Ends rest) : readToken c (cs ++ rest) = .ok (.number digits, rest) := by
  simp only [Token.isSpelled, hdigits, Bool.and_eq_true, List.all_eq_true] at hspelled
  obtain ⟨hstart, hall⟩ := hspelled
  have hfirst : c.isDigit = true ∨ c = '-' := by
    simp only [startsNumber, Bool.or_eq_true, Bool.and_eq_true, beq_iff_eq] at hstart
    exact hstart.imp_right And.left
  have hmark : Token.ofMark? c = none ∧ c ≠ '"' := by
    constructor
    · unfold Token.ofMark?
      split <;> first | rfl | (exfalso; revert hfirst; decide)
    · rintro rfl
      revert hfirst
      decide
  obtain ⟨htake, hdrop⟩ := takeWhile_append_of_ends rest hall fun d hd => by
    have hends := hrest d hd
    simp only [endsBare, Bool.and_eq_true, Bool.not_eq_true'] at hends
    exact hends.2
  simp only [readToken, hmark.1, if_neg hmark.2, startsNumber_append hstart, if_true, htake, hdrop]
  rw [← hdigits, String.ofList_toList]

theorem toNat_of_isDigit {c : Char} (h : c.isDigit = true) : 48 ≤ c.toNat ∧ c.toNat ≤ 57 := by
  simp only [Char.isDigit, Bool.and_eq_true, decide_eq_true_eq] at h
  exact h

theorem isWordStart_of_lt {c : Char} (h : c.toNat < 65) : isWordStart c = false := by
  have halphabetic : Text.isAlphabetic c = false := by
    rw [Text.isAlphabetic, Text.alphabeticRanges, Text.inRanges, if_pos h]
  have hscore : c ≠ '_' := by
    rintro rfl
    exact absurd h (by decide)
  simp [isWordStart, halphabetic, hscore]

theorem isWordStart_mark :
    ∀ c ∈ ['\x7b', '\x7d', '[', ']', '(', ')', '=', ',', '"', '#', '/', '-', '\n'],
      isWordStart c = false := by
  simp only [List.forall_mem_cons, List.not_mem_nil, false_imp_iff, implies_true, and_true]
  decide +kernel

theorem readToken_ident {name : String} {c : Char} {cs : List Char} (hname : name.toList = c :: cs)
    (hspelled : (Token.ident name).isSpelled = true) (hrest : Ends rest) :
    readToken c (cs ++ rest) = .ok (.ident name, rest) := by
  simp only [Token.isSpelled, hname, Bool.and_eq_true, List.all_eq_true] at hspelled
  obtain ⟨⟨hstart, -⟩, hall⟩ := hspelled
  have hother (d : Char) (hd : isWordStart d = false) : c ≠ d := by
    rintro rfl
    rw [hstart] at hd
    cases hd
  have hmark : Token.ofMark? c = none := by
    unfold Token.ofMark?
    split <;> first | rfl | exact absurd hstart (by decide +kernel)
  have hquote : c ≠ '"' := hother '"' (isWordStart_mark _ (by decide))
  have hdigit : c.isDigit = false := by
    by_contra hdigit
    have hbound : c.toNat < 65 := by
      have hle := (toNat_of_isDigit (by simpa using hdigit)).2
      omega
    exact hother c (isWordStart_of_lt hbound) rfl
  have hnumber : startsNumber c (cs ++ rest) = false := by
    simp [startsNumber, hdigit, hother '-' (isWordStart_mark _ (by decide))]
  obtain ⟨htake, hdrop⟩ := takeWhile_append_of_ends rest hall fun d hd => by
    have hends := hrest d hd
    simp only [endsBare, Bool.and_eq_true, Bool.not_eq_true'] at hends
    exact hends.1
  simp only [readToken, hmark, if_neg hquote, hnumber, hstart, if_true, Bool.false_eq_true,
    if_false, htake, hdrop]
  rw [← hname, String.ofList_toList]

theorem separates_of_number {c : Char} (h : c.isDigit = true ∨ c = '-') :
    c ≠ '\n' ∧ Text.isBlank c = false ∧ c ≠ '#' ∧ c ≠ '/' := by
  rcases h with h | rfl
  · obtain ⟨hlow, hhigh⟩ := toNat_of_isDigit h
    have hother (d : Char) (hd : d.toNat < 48) : c ≠ d := by
      rintro rfl
      omega
    refine ⟨hother _ (by decide), ?_, hother _ (by decide), hother _ (by decide)⟩
    simp only [Text.isBlank, Bool.or_eq_false_iff, Bool.and_eq_false_iff, decide_eq_false_iff_not,
      beq_eq_false_iff_ne]
    omega
  · decide

/-- The first character of a spelled token starts no blank and no comment. -/
theorem head_spell {t : Token} (ht : t.isSpelled = true) :
    ∃ c cs, t.spell = c :: cs ∧ c ≠ '\n' ∧ Text.isBlank c = false ∧ c ≠ '#' ∧ c ≠ '/' := by
  cases t with
  | ident name =>
      cases hname : name.toList with
      | nil => simp [Token.isSpelled, hname] at ht
      | cons c cs =>
          simp only [Token.isSpelled, hname, Bool.and_eq_true, Bool.not_eq_true'] at ht
          obtain ⟨⟨hstart, hblank⟩, -⟩ := ht
          have hother (d : Char) (hd : isWordStart d = false) : c ≠ d := by
            rintro rfl
            rw [hstart] at hd
            cases hd
          exact ⟨c, cs, hname, hother _ (isWordStart_mark _ (by decide)), hblank,
            hother _ (isWordStart_mark _ (by decide)), hother _ (isWordStart_mark _ (by decide))⟩
  | number digits =>
      cases hdigits : digits.toList with
      | nil => simp [Token.isSpelled, hdigits] at ht
      | cons c cs =>
          have hfirst : c.isDigit = true ∨ c = '-' := by
            simp only [Token.isSpelled, hdigits, startsNumber, Bool.or_eq_true, Bool.and_eq_true,
              beq_iff_eq] at ht
            exact ht.1.imp_right And.left
          exact ⟨c, cs, hdigits, separates_of_number hfirst⟩
  | text value => exact ⟨'"', _, rfl, by decide⟩
  | openBrace => exact ⟨_, _, rfl, by decide⟩
  | closeBrace => exact ⟨_, _, rfl, by decide⟩
  | openBracket => exact ⟨_, _, rfl, by decide⟩
  | closeBracket => exact ⟨_, _, rfl, by decide⟩
  | openParen => exact ⟨_, _, rfl, by decide⟩
  | closeParen => exact ⟨_, _, rfl, by decide⟩
  | equals => exact ⟨_, _, rfl, by decide⟩
  | comma => exact ⟨_, _, rfl, by decide⟩

theorem readToken_spell {t : Token} (ht : t.isSpelled = true) {c : Char} {cs : List Char}
    (hspell : t.spell = c :: cs) (hrest : t.isBare = true → Ends rest) :
    readToken c (cs ++ rest) = .ok (t, rest) := by
  cases t with
  | ident name => exact readToken_ident hspell ht (hrest rfl)
  | number digits => exact readToken_number hspell ht (hrest rfl)
  | text value =>
      cases hspell
      rw [List.append_assoc, List.singleton_append]
      exact readToken_text value
  | _ =>
      cases hspell
      rfl

end Reading

/-! ## Layout -/

namespace Token

/-- The depth of nesting after a token. -/
def nest (depth : Nat) : Token → Nat
  | openBrace => depth + 1
  | closeBrace => depth - 1
  | _ => depth

/-- Whether a token starts an item when it stands after another. -/
def startsItem : Token → Token → Bool
  | ident _, previous => previous ∉ [equals, comma, openParen, openBracket]
  | _, _ => false

end Token

/-- The start of a new line at a depth of nesting. -/
def newLine (depth : Nat) : List Char :=
  '\n' :: List.replicate (2 * depth) ' '

/-- What stands between two tokens at a depth of nesting. -/
def gap (depth : Nat) (previous next : Token) : List Char :=
  if next = .closeBrace then newLine (depth - 1)
  else if previous = .openBrace ∨ previous = .closeBrace ∨ next.startsItem previous then
    newLine depth
  else if next ∈ [.comma, .openParen, .closeParen, .closeBracket] ∨
      previous ∈ [.openParen, .openBracket] then []
  else [' ']

/-- The text of tokens after a token, at a depth of nesting. -/
def layout (depth : Nat) (previous : Token) : List Token → List Char
  | [] => ['\n']
  | t :: rest => gap depth previous t ++ (t.spell ++ layout (t.nest depth) t rest)

/-- The document of tokens. -/
def render : List Token → String
  | [] => ""
  | t :: rest => String.ofList (t.spell ++ layout (t.nest 0) t rest)

section Layout

variable {depth : Nat} {previous : Token}

theorem gap_cases (depth : Nat) (previous next : Token) :
    (∃ n, gap depth previous next = newLine n) ∨ gap depth previous next = [] ∨
      gap depth previous next = [' '] := by
  unfold gap
  split
  · exact .inl ⟨_, rfl⟩
  · split
    · exact .inl ⟨_, rfl⟩
    · split
      · exact .inr (.inl rfl)
      · exact .inr (.inr rfl)

theorem isBlank_of_mem_gap {next : Token} {c : Char} (h : c ∈ gap depth previous next) :
    Text.isBlank c = true := by
  rcases gap_cases depth previous next with ⟨n, hgap⟩ | hgap | hgap
  · rw [hgap] at h
    rcases List.mem_cons.mp h with rfl | h
    · decide
    · rw [List.eq_of_mem_replicate h]
      decide
  · rw [hgap] at h
    cases h
  · rw [hgap] at h
    rw [List.mem_singleton.mp h]
    decide

/-- Between two words there is a blank. -/
theorem gap_ne_nil {next : Token} (hprevious : previous.isBare = true)
    (hnext : next.isBare = true) : gap depth previous next ≠ [] := by
  have hmarks : previous ∉ [Token.equals, .comma, .openParen, .openBracket] := by
    cases previous <;> simp_all [Token.isBare]
  cases next with
  | ident name =>
      have hitem : (Token.ident name).startsItem previous = true := decide_eq_true hmarks
      simp [gap, hitem, newLine]
  | number digits => cases previous <;> simp_all [Token.isBare, gap, Token.startsItem]
  | _ => simp [Token.isBare] at hnext

theorem endsBare_of_mark : ∀ c ∈ ['\n', ' ', '"', '\x7b', '\x7d', '[', ']', '(', ')', '=', ','],
    endsBare c = true := by
  rw [← List.all_eq_true]
  decide +kernel

/-- A token that is not a word starts with a mark. -/
theorem spell_of_not_bare {t : Token} (h : t.isBare = false) :
    ∃ c cs, t.spell = c :: cs ∧ endsBare c = true := by
  cases t with
  | ident name => cases h
  | number digits => cases h
  | _ => exact ⟨_, _, rfl, endsBare_of_mark _ (by decide)⟩

/-- What is laid out behind a word does not run into it. -/
theorem ends_layout (hprevious : previous.isBare = true) (ts : List Token) :
    Ends (layout depth previous ts) := by
  intro c hc
  cases ts with
  | nil =>
      cases hc
      exact endsBare_of_mark _ (by decide)
  | cons t rest =>
      rcases gap_cases depth previous t with ⟨n, hgap⟩ | hgap | hgap
      · rw [layout, hgap] at hc
        cases hc
        exact endsBare_of_mark _ (by decide)
      · have hbare : t.isBare = false := by
          by_contra hbare
          exact gap_ne_nil hprevious (by simpa using hbare) hgap
        obtain ⟨d, ds, hspell, hd⟩ := spell_of_not_bare hbare
        rw [layout, hgap, hspell] at hc
        cases hc
        exact hd
      · rw [layout, hgap] at hc
        cases hc
        exact endsBare_of_mark _ (by decide)

end Layout

/-! ## Reading a layout -/

theorem tokensFrom_blanks {blanks : List Char} (h : ∀ c ∈ blanks, Text.isBlank c = true)
    (line : Nat) (rest : List Char) :
    ∃ next, tokensFrom line (blanks ++ rest) = tokensFrom next rest := by
  induction blanks generalizing line with
  | nil => exact ⟨line, rfl⟩
  | cons c blanks ih =>
      have hc := h c List.mem_cons_self
      have hblanks : ∀ d ∈ blanks, Text.isBlank d = true := fun d hd =>
        h d (List.mem_cons_of_mem _ hd)
      rw [List.cons_append, tokensFrom]
      by_cases hline : c = '\n'
      · rw [if_pos hline]
        exact ih hblanks (line + 1)
      · rw [if_neg hline, if_pos hc]
        exact ih hblanks line

theorem tokensFrom_spell {t : Token} (ht : t.isSpelled = true) {rest : List Char}
    (hrest : t.isBare = true → Ends rest) (line : Nat) :
    tokensFrom line (t.spell ++ rest) = (tokensFrom line rest).map (⟨t, line⟩ :: ·) := by
  obtain ⟨c, cs, hspell, hline, hblank, hsharp, hslash⟩ := head_spell ht
  have hread := readToken_spell ht hspell hrest
  rw [hspell, List.cons_append, tokensFrom, if_neg hline, hblank]
  simp only [hsharp, hslash, false_and, or_false, if_false, Bool.false_eq_true]
  split
  · rename_i fault hfault
    rw [hread] at hfault
    cases hfault
  · rename_i token after hafter
    rw [hread] at hafter
    cases hafter
    cases tokensFrom line rest <;> rfl

theorem tokensFrom_layout {ts : List Token} (h : ∀ t ∈ ts, t.isSpelled = true) (depth : Nat)
    (previous : Token) (line : Nat) :
    ∃ placed, tokensFrom line (layout depth previous ts) = .ok placed ∧
      placed.map Placed.token = ts := by
  induction ts generalizing depth previous line with
  | nil =>
      refine ⟨[], ?_, rfl⟩
      rw [layout, tokensFrom, if_pos rfl, tokensFrom]
  | cons t rest ih =>
      -- the gap before the token only moves on to another line
      obtain ⟨next, hnext⟩ := tokensFrom_blanks
        (fun c => isBlank_of_mem_gap) line (t.spell ++ layout (t.nest depth) t rest)
      obtain ⟨placed, hplaced, htokens⟩ :=
        ih (fun other hother => h other (List.mem_cons_of_mem _ hother)) (t.nest depth) t next
      refine ⟨⟨t, next⟩ :: placed, ?_, by rw [List.map_cons, htokens]⟩
      rw [layout, hnext,
        tokensFrom_spell (h t List.mem_cons_self) (fun hbare => ends_layout hbare rest), hplaced]
      rfl

/-- Tokens that are written out are read back. -/
theorem tokens_render {ts : List Token} (h : ∀ t ∈ ts, t.isSpelled = true) :
    ∃ placed, tokens (render ts) = .ok placed ∧ placed.map Placed.token = ts := by
  cases ts with
  | nil =>
      refine ⟨[], ?_, rfl⟩
      rw [tokens, render, String.toList_empty, tokensFrom]
  | cons t rest =>
      obtain ⟨placed, hplaced, htokens⟩ := tokensFrom_layout
        (fun other hother => h other (List.mem_cons_of_mem _ hother)) (t.nest 0) t 1
      refine ⟨⟨t, 1⟩ :: placed, ?_, by rw [List.map_cons, htokens]⟩
      rw [tokens, render, String.toList_ofList,
        tokensFrom_spell (h t List.mem_cons_self) (fun hbare => ends_layout hbare rest), hplaced]
      rfl

end ProjectHub.Document

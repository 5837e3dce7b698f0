import ProjectHub.Proofs.Document.Schema
import ProjectHub.Proofs.Sql.Literal
import ProjectHub.Sqlite.Definition.Plain

/-!
# What is read back of a default

A database tells the default of a column as it was written, without the
parentheses that an expression stands in. What starts with a parenthesis is
therefore never read back as written, and all else is.
-/

namespace ProjectHub.Sqlite

/-! ## Marks -/

section

variable {cs symbol spelling : List Char}

theorem numberAt?_ne_mark : numberAt? cs ≠ some (.mark symbol, spelling) := by
  intro h
  simp only [numberAt?] at h
  repeat' split at h
  all_goals simp at h

theorem blobAt?_ne_mark {x : Char} : blobAt? x cs ≠ some (.mark symbol, spelling) := by
  intro h
  simp only [blobAt?, bind, Option.bind_eq_some_iff] at h
  obtain ⟨_, -, h⟩ := h
  split at h <;> simp at h

theorem variableAt?_ne_mark : variableAt? cs ≠ some (.mark symbol, spelling) := by
  intro h
  unfold variableAt? at h
  repeat' split at h
  all_goals simp at h

theorem spelling_of_markAt? (h : markAt? cs = some (.mark symbol, spelling)) :
    spelling = symbol := by
  unfold markAt? at h
  repeat' split at h
  all_goals simp at h
  all_goals exact h.2.symm.trans h.1

/-- A mark is spelled as it is. -/
theorem spelling_of_tokenAt? (h : tokenAt? cs = some (.mark symbol, spelling)) :
    spelling = symbol := by
  unfold tokenAt? at h
  repeat' split at h
  · cases h
  · simp at h
  · simp at h
  · simp at h
  · exact absurd h blobAt?_ne_mark
  · exact absurd h numberAt?_ne_mark
  · simp at h
  · exact absurd h variableAt?_ne_mark
  · exact spelling_of_markAt? h

end

/-- The first lexeme of a text that starts with an opening parenthesis is that. -/
theorem lexemesWithin_parenthesis {steps : Nat} {rest : List Char} {isOpen : Bool}
    {ls : List Lexeme} {o : Bool}
    (h : lexemesWithin steps [] ('(' :: rest) isOpen = some (ls, o)) :
    ∃ more, ls = ⟨[], ['('], .mark ['(']⟩ :: more := by
  cases steps with
  | zero => cases h
  | succ steps =>
      have hgap : gapAt ('(' :: rest) = (0, false) := rfl
      have htoken : tokenAt? ('(' :: rest) = some (.mark ['('], ['(']) := by
        have hmarks : longMarks.find? (fun symbol => symbol.isPrefixOf ('(' :: rest)) = none := by
          simp [longMarks, List.isPrefixOf]
        have hshort : shortMarks.contains '(' = true := by decide
        show markAt? ('(' :: rest) = _
        simp only [markAt?, hmarks, hshort, if_true]
      simp only [lexemesWithin, hgap, htoken, ne_eq, not_true_eq_false, if_false, bind, Option.bind,
        pure] at h
      split at h
      · cases h
      · rename_i found hfound
        cases h
        exact ⟨found.1, rfl⟩

/-- A first lexeme that is a mark is spelled as it is. -/
theorem spelling_of_lexemesWithin {steps : Nat} {gap cs : List Char} {isOpen o : Bool} {l : Lexeme}
    {ls : List Lexeme} {symbol : List Char} (hmark : l.token = .mark symbol)
    (h : lexemesWithin steps gap cs isOpen = some (l :: ls, o)) : l.spelling = symbol := by
  induction steps generalizing gap cs isOpen with
  | zero =>
      cases cs with
      | nil => simp [lexemesWithin] at h
      | cons c rest => cases h
  | succ steps ih =>
      cases cs with
      | nil => simp [lexemesWithin] at h
      | cons c rest =>
          simp only [lexemesWithin] at h
          split at h
          · exact ih h
          · simp only [bind, Option.bind_eq_some_iff] at h
            obtain ⟨⟨token, spelling⟩, htoken, ⟨more, o'⟩, -, h⟩ := h
            simp only [pure, Option.some.injEq, Prod.mk.injEq, List.cons.injEq] at h
            obtain ⟨⟨rfl, -⟩, -⟩ := h
            cases hmark
            exact spelling_of_tokenAt? htoken

theorem spanText_of_bareLexemes? {text : String} {ls : List Lexeme}
    (h : bareLexemes? text = some ls) :
    spanText ls = text.toList ∧
      ∃ steps o, lexemesWithin steps [] text.toList false = some (ls, o) := by
  unfold bareLexemes? at h
  split at h
  · rename_i found o hfound
    split at h
    · rename_i hbare
      cases h
      rw [Bool.and_eq_true, beq_iff_eq] at hbare
      unfold lexemes? at hfound
      split at hfound
      · cases hfound
      · exact ⟨hbare.2, _, _, hfound⟩
    · cases h
  · cases h

/-! ## Defaults -/

theorem length_trimBlanks_le (cs : List Char) : (trimBlanks cs).length ≤ cs.length := by
  have hback : (trimBlanks cs).length ≤ (cs.dropWhile isBlank).length := by
    simpa [trimBlanks] using ((cs.dropWhile isBlank).reverse.dropWhile_sublist isBlank).length_le
  exact Nat.le_trans hback (cs.dropWhile_sublist isBlank).length_le

/-- An expression takes lexemes from the front. -/
theorem Reader.expression_append {ls rest : List Lexeme} {e : Expr}
    (h : Reader.expression ls = some (e, rest)) :
    ls.take (ls.length - rest.length) ++ rest = ls := by
  simp only [Reader.expression, bind, Option.bind_eq_some_iff, pure, Option.some.injEq,
    Prod.mk.injEq] at h
  obtain ⟨⟨e', tokens⟩, -, -, rfl⟩ := h
  have hlength : ls.length - (ls.drop (ls.length - tokens.length)).length =
      ls.length - tokens.length := by
    rw [List.length_drop]
    omega
  rw [hlength]
  exact List.take_append_drop _ _

/-- The text of a default that stands in parentheses is shorter than what is written. -/
theorem length_text_of_parenthesis {l : Lexeme} {rest : List Lexeme} {d : Default}
    (hmark : l.token.isMark "(" = true) (h : Reader.default (l :: rest) = some (d, [])) :
    d.text.toList.length ≤ (rest.flatMap fun l => l.gap ++ l.spelling).length := by
  simp only [Reader.default, hmark, if_true, bind, Option.bind_eq_some_iff] at h
  obtain ⟨⟨e, after⟩, hexpression, h⟩ := h
  cases after with
  | nil => cases h
  | cons closing after =>
      simp only at h
      split at h
      · simp only [Option.some.injEq, Prod.mk.injEq] at h
        obtain ⟨rfl, rfl⟩ := h
        have hparts := congrArg (fun ls => (ls.flatMap fun l => l.gap ++ l.spelling).length)
          (Reader.expression_append hexpression)
        simp only [List.flatMap_append, List.flatMap_cons, List.flatMap_nil,
          List.length_append] at hparts
        rw [String.toList_ofList]
        refine Nat.le_trans (length_trimBlanks_le _) ?_
        rw [List.length_append]
        omega
      · cases h

/-- A default without parentheses has the text that is written. -/
theorem text_of_not_parenthesis {l : Lexeme} {rest : List Lexeme} {d : Default}
    (hmark : l.token.isMark "(" = false) (h : Reader.default (l :: rest) = some (d, [])) :
    d.text = String.ofList (spanText (l :: rest)) := by
  unfold Reader.default at h
  simp only [hmark, Bool.false_eq_true, if_false] at h
  split at h
  · cases rest with
    | nil => cases h
    | cons term after =>
        simp only [bind, Option.bind_eq_some_iff, pure, Option.some.injEq, Prod.mk.injEq] at h
        obtain ⟨e, -, rfl, rfl⟩ := h
        rfl
  · simp only [bind, Option.bind_eq_some_iff, pure, Option.some.injEq, Prod.mk.injEq] at h
    obtain ⟨e, -, rfl, rfl⟩ := h
    simp [spanText]

/-- What a plain default is read back as is what was written, unless that stands in
parentheses. -/
theorem text_plainDefault? {text : String} {d : Default} (h : plainDefault? text = some d) :
    d.text = text ↔ text.toList.head? ≠ some '(' := by
  unfold plainDefault? at h
  split at h
  · rename_i found hfound
    cases h
    obtain ⟨ls, hls, hdefault⟩ := Option.bind_eq_some_iff.mp hfound
    obtain ⟨hspan, steps, o, hlexemes⟩ := spanText_of_bareLexemes? hls
    cases ls with
    | nil => cases hdefault
    | cons l rest =>
        cases hmark : l.token.isMark "(" with
        | true =>
            have hspelling : l.spelling = ['('] :=
              spelling_of_lexemesWithin (by simpa [Token.isMark] using hmark) hlexemes
            have htext : text.toList = '(' :: rest.flatMap fun l => l.gap ++ l.spelling := by
              rw [← hspan, spanText, hspelling]
              rfl
            have hshort := length_text_of_parenthesis hmark hdefault
            refine iff_of_false ?_ (by simp [htext])
            intro hsame
            rw [hsame, htext, List.length_cons] at hshort
            omega
        | false =>
            refine iff_of_true ?_ ?_
            · rw [text_of_not_parenthesis hmark hdefault, hspan, String.ofList_toList]
            · intro hhead
              cases htext : text.toList with
              | nil => simp [htext] at hhead
              | cons c more =>
                  rw [htext, List.head?_cons, Option.some.injEq] at hhead
                  rw [htext, hhead] at hlexemes
                  obtain ⟨_, hparenthesis⟩ := lexemesWithin_parenthesis hlexemes
                  cases hparenthesis
                  cases hmark
  · cases h

/-! ## Text as a default -/

section Text

variable {s : String}

theorem mem_double {quote c : Char} {cs : List Char} (h : c ∈ Sql.double quote cs) : c ∈ cs := by
  obtain ⟨d, hd, hc⟩ := List.mem_flatMap.mp h
  split at hc
  · rename_i hquote
    simp only [List.mem_cons, List.not_mem_nil, or_false, or_self] at hc
    rwa [hc, ← hquote]
  · rwa [List.mem_singleton.mp hc]

theorem tokenAt?_enclose (value : List Char) : tokenAt? (Sql.enclose '\'' value) =
    some (.text value, Sql.enclose '\'' value) := by
  have hread : Sql.unenclose '\'' (Sql.enclose '\'' value ++ []) = some (value, []) :=
    (Sql.unenclose_enclose_iff value []).mpr (by simp)
  rw [List.append_nil] at hread
  have hquoted : quotedAt? '\'' (Sql.enclose '\'' value) =
      some (value, Sql.enclose '\'' value) := by
    rw [quotedAt?, hread, Option.map_some]
    simp
  rw [Sql.enclose, List.cons_append] at hquoted ⊢
  rw [tokenAt?, if_pos rfl, hquoted]
  rfl

/-- Quoted text is one token, if no character of it has code zero. -/
theorem lexemes?_quoteText (h : '\x00' ∉ s.toList) : lexemes? (Sql.quoteText s) =
    some ([⟨[], Sql.enclose '\'' s.toList, .text s.toList⟩], false) := by
  have hnone : (Sql.enclose '\'' s.toList).contains '\x00' = false := by
    rw [List.contains_eq_mem, decide_eq_false_iff_not]
    intro hin
    have hmarks : '\x00' ∉ ['\''] := by decide
    rcases List.mem_append.mp hin with hin | hin
    · rcases List.mem_cons.mp hin with hin | hin
      · exact hmarks (hin ▸ List.mem_singleton_self _)
      · exact h (mem_double hin)
    · exact hmarks hin
  have htoken := tokenAt?_enclose s.toList
  have hgap : gapAt (Sql.enclose '\'' s.toList) = (0, false) := rfl
  rw [lexemes?, Sql.quoteText, String.toList_ofList, hnone, if_neg Bool.false_ne_true]
  have hsplit : Sql.enclose '\'' s.toList =
      '\'' :: (Sql.double '\'' s.toList ++ ['\'']) := rfl
  rw [hsplit] at htoken hgap ⊢
  rw [lexemesWithin, hgap, htoken]
  simp [lexemesWithin]

/-- Quoted text is read as a default of that text. -/
theorem plainDefault?_quoteText (h : '\x00' ∉ s.toList) :
    plainDefault? (Sql.quoteText s) = some ⟨Sql.quoteText s, .value (.text s)⟩ := by
  have hbare : bareLexemes? (Sql.quoteText s) =
      some [⟨[], Sql.enclose '\'' s.toList, .text s.toList⟩] := by
    rw [bareLexemes?, lexemes?_quoteText h]
    simp [spanText, Sql.quoteText]
  rw [plainDefault?, hbare]
  simp [Reader.default, Token.isMark, Expr.ofLiteral?, Sql.quoteText]

theorem quoteText_inj {other : String} : Sql.quoteText s = Sql.quoteText other ↔ s = other := by
  rw [Sql.quoteText, Sql.quoteText, String.ofList_inj]
  exact ⟨fun h => String.toList_inj.mp (Sql.enclose_injective h), fun h => h ▸ rfl⟩

end Text

open Document in
/-- A text is quoted exactly if it is the default that some text gives, and then of one text only.
That is so if the quotes between its ends are in pairs, which means that no run of them is of odd
length. So a column with text for a default has a constant, which says that very text; a database
reads it as that text too, unless a character in it has code zero. -/
theorem quoted_defaults_are_texts :
    (∀ default : String, Sql.isQuoted default.toList = true ↔
      ∃! s, ∀ line, defaultOfValue line (.text s) = .ok default) ∧
    (∀ cs, Sql.isQuoted cs = true ↔
      ∃ inner, cs = '\'' :: (inner ++ ['\'']) ∧ '\'' ∉ Sql.cancel '\'' inner) ∧
    (∀ inner, Sql.isQuoted ('\'' :: (inner ++ ['\''])) = false ↔
      ∃ n, n % 2 = 1 ∧ Sql.IsRun '\'' n inner) ∧
    ∀ (block : Block) (column : Column), Column.ofBlock block = .ok column →
      ∀ (a : Attribute) (s : String), (attributesOf "default" block.attributes).getLast? = some a →
        a.value = .text s → ∃ default, column.default = some default ∧
          Sql.isConstant default = true ∧ Sql.unquoteText? default.toList = some s.toList ∧
          ('\x00' ∉ s.toList → plainDefault? default = some ⟨default, .value (.text s)⟩) := by
  refine ⟨fun default => ?_, fun cs => Sql.isQuoted_iff_cancel, Sql.isQuoted_eq_false_iff,
    fun block column hcolumn a s hlast hvalue => ?_⟩
  · rw [Sql.isQuoted_iff]
    constructor
    · rintro ⟨text, htext⟩
      have hdefault : default = Sql.quoteText (String.ofList text) := by
        rw [← String.toList_inj, htext, Sql.quoteText, String.toList_ofList, String.toList_ofList]
      refine ⟨String.ofList text, fun line => by rw [hdefault]; rfl, fun other hother => ?_⟩
      have hsame : Sql.quoteText other = default := Except.ok.inj (hother 0)
      exact quoteText_inj.mp (hsame.trans hdefault)
    · rintro ⟨s, hs, -⟩
      have hsame : Sql.quoteText s = default := Except.ok.inj (hs 0)
      exact ⟨s.toList, by rw [← hsame, Sql.quoteText, String.toList_ofList]⟩
  · obtain ⟨default, hdefault, hcolumn⟩ := Column.default_ofBlock hcolumn hlast
    rw [hvalue] at hdefault
    obtain rfl : Sql.quoteText s = default := Except.ok.inj hdefault
    refine ⟨_, hcolumn, Sql.isConstant_quoteText s, ?_, plainDefault?_quoteText⟩
    rw [Sql.unquoteText?_eq_some_iff, Sql.quoteText, String.toList_ofList]

/-- A column with an apostrophe in its default. -/
def apostropheBlock : Document.Block :=
  ⟨"column", ["note"], [⟨"type", .ident "text", 2⟩, ⟨"default", .text "it's", 3⟩], [], 1⟩

theorem apostrophe_is_a_text :
    Column.ofBlock apostropheBlock = .ok ⟨"note", "TEXT", false, some "'it''s'"⟩ ∧
      Sql.isConstant "'it''s'" = true ∧
      Sql.unquoteText? "'it''s'".toList = some "it's".toList ∧
      plainDefault? "'it''s'" = some ⟨"'it''s'", .value (.text "it's")⟩ := by
  have hcolumn : Column.ofBlock apostropheBlock = .ok ⟨"note", "TEXT", false, some "'it''s'"⟩ := by
    rfl
  obtain ⟨default, hdefault, hconstant, htext, hplain⟩ :=
    quoted_defaults_are_texts.2.2.2 apostropheBlock _ hcolumn _ "it's" rfl rfl
  cases hdefault
  exact ⟨hcolumn, hconstant, htext, hplain (by decide)⟩

end ProjectHub.Sqlite

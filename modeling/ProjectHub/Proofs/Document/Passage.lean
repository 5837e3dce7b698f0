import ProjectHub.Proofs.Document.Lexing
import ProjectHub.Proofs.Document.Spelling

/-!
# Free layout

Blanks and comments may stand before, between and behind tokens, in any number
and order. A text of tokens with any such layout is read as these tokens, each on
its line, so the layout has no say in what the text describes. If the text is
faulty, the fault and the token it is found at do not depend on the layout
either; the line that is named is the line of this token.
-/

namespace ProjectHub

namespace Document

/-! ## Layout -/

/-- What separates tokens and means nothing: a blank, a comment to the end of its line, or a
comment between marks. -/
inductive Spacer where
  | blank (c : Char) (h : Text.isBlank c = true)
  | line (sharp : Bool) (body : List Char) (h : '\n' ∉ body)
  | block (body : List Char) (h : ¬['*', '/'] <:+: body)

/-- A spacer as it is written. -/
def Spacer.text : Spacer → List Char
  | blank c _ => [c]
  | line true body _ => '#' :: (body ++ ['\n'])
  | line false body _ => '/' :: '/' :: (body ++ ['\n'])
  | block body _ => '/' :: '*' :: (body ++ ['*', '/'])

/-- The text of spacers one after the other. -/
def fill (gap : List Spacer) : List Char :=
  gap.flatMap Spacer.text

/-- The number of line breaks in a text. -/
def breaks (cs : List Char) : Nat :=
  cs.count '\n'

@[simp] theorem breaks_append (cs ds : List Char) : breaks (cs ++ ds) = breaks cs + breaks ds :=
  List.count_append

theorem breaks_eq_zero {cs : List Char} (h : '\n' ∉ cs) : breaks cs = 0 :=
  List.count_eq_zero.mpr h

section Spacers

variable {body : List Char}

theorem dropLine_body (h : '\n' ∉ body) (rest : List Char) :
    dropLine (body ++ '\n' :: rest) = '\n' :: rest := by
  have hbody (c : Char) (hc : c ∈ body) : (c != '\n') = true := by
    rw [bne_iff_ne]
    rintro rfl
    exact h hc
  exact (takeWhile_append_of_ends ('\n' :: rest) hbody (by simp)).2

/-- A comment between marks ends at its first end mark. -/
theorem dropComment_body (h : ¬['*', '/'] <:+: body) (line : Nat) (rest : List Char) :
    dropComment (body ++ '*' :: '/' :: rest) line = some (rest, line + breaks body) := by
  induction body generalizing line with
  | nil => rfl
  | cons c body ih =>
      have hopen : ¬(c = '*' ∧ (body ++ '*' :: '/' :: rest).head? = some '/') := by
        rintro ⟨rfl, hslash⟩
        cases body with
        | nil => simp at hslash
        | cons d body =>
            cases hslash
            exact h ⟨[], body, rfl⟩
      have hbody : ¬['*', '/'] <:+: body :=
        fun hin => h (hin.trans (List.suffix_cons c body).isInfix)
      have hbreaks : breaks (c :: body) = breaks body + if c = '\n' then 1 else 0 := by
        simp [breaks, List.count_cons]
      rw [List.cons_append, dropComment, if_neg hopen, ih hbody, hbreaks]
      congr 2
      split <;> omega

/-- A spacer only moves what follows to the line it ends on. -/
theorem tokensFrom_spacer (s : Spacer) (line : Nat) (rest : List Char) :
    tokensFrom line (s.text ++ rest) = tokensFrom (line + breaks s.text) rest := by
  cases s with
  | blank c hc =>
      rw [Spacer.text, List.singleton_append, tokensFrom]
      by_cases hline : c = '\n'
      · subst hline
        rw [if_pos rfl]
        rfl
      · rw [if_neg hline, if_pos hc, breaks_eq_zero (by simpa using Ne.symm hline), Nat.add_zero]
  | line sharp body hbody =>
      have hbreaks : breaks (body ++ ['\n']) = 1 := by
        rw [breaks_append, breaks_eq_zero hbody]
        rfl
      cases sharp with
      | true =>
          have hcount : breaks (Spacer.line true body hbody).text = 1 := hbreaks
          rw [hcount, Spacer.text, List.cons_append, List.append_assoc, tokensFrom,
            if_neg (by decide), if_neg (by decide), if_pos (.inl rfl), List.singleton_append,
            dropLine_body hbody, tokensFrom_newline]
      | false =>
          have hcount : breaks (Spacer.line false body hbody).text = 1 := hbreaks
          rw [hcount, Spacer.text, List.cons_append, List.cons_append, List.append_assoc,
            tokensFrom, if_neg (by decide), if_neg (by decide), if_pos (.inr ⟨rfl, rfl⟩),
            List.singleton_append, ← List.cons_append,
            dropLine_body (List.not_mem_cons_of_ne_of_not_mem (by decide) hbody),
            tokensFrom_newline]
  | block body hbody =>
      have hcount : breaks (Spacer.block body hbody).text = breaks body := by
        show breaks (['/', '*'] ++ (body ++ ['*', '/'])) = breaks body
        rw [breaks_append, breaks_append]
        exact Nat.zero_add _
      rw [hcount, Spacer.text, List.cons_append, List.cons_append, List.append_assoc, tokensFrom,
        if_neg (by decide), if_neg (by decide), if_neg (by simp), if_pos ⟨rfl, rfl⟩]
      have hdrop := dropComment_body hbody line rest
      split
      · rename_i hnone
        cases hdrop.symm.trans hnone
      · rename_i hsome
        cases hdrop.symm.trans hsome
        rfl

/-- Layout only moves what follows to the line it ends on. -/
theorem tokensFrom_fill (gap : List Spacer) (line : Nat) (rest : List Char) :
    tokensFrom line (fill gap ++ rest) = tokensFrom (line + breaks (fill gap)) rest := by
  induction gap generalizing line with
  | nil => rfl
  | cons s gap ih =>
      have hcons : fill (s :: gap) = s.text ++ fill gap := List.flatMap_cons
      rw [hcons, List.append_assoc, tokensFrom_spacer, ih, breaks_append, Nat.add_assoc]

end Spacers

/-! ## Words and what stands behind them -/

/-- The blank characters one by one. -/
def blanks : List Char :=
  [9, 10, 11, 12, 13, 0x20, 0x85, 0xA0, 0x1680, 0x2000, 0x2001, 0x2002, 0x2003, 0x2004, 0x2005,
    0x2006, 0x2007, 0x2008, 0x2009, 0x200A, 0x2028, 0x2029, 0x202F, 0x205F,
    0x3000].map Char.ofNat

theorem mem_blanks {c : Char} (h : Text.isBlank c = true) : c ∈ blanks := by
  refine List.mem_map.mpr ⟨c.toNat, ?_, Char.ofNat_toNat c⟩
  simp only [Text.isBlank, Bool.or_eq_true, Bool.and_eq_true, decide_eq_true_eq,
    beq_iff_eq] at h
  simp only [List.mem_cons, List.not_mem_nil, or_false]
  omega

theorem endsBare_of_isBlank {c : Char} (h : Text.isBlank c = true) : endsBare c = true := by
  have hall : blanks.all endsBare = true := by decide +kernel
  exact List.all_eq_true.mp hall c (mem_blanks h)

/-- A spacer does not go on with the word before it. -/
theorem Spacer.ends (s : Spacer) (rest : List Char) : Ends (s.text ++ rest) := by
  have hmarks : endsBare '#' = true ∧ endsBare '/' = true := by decide +kernel
  cases s with
  | blank c hc =>
      intro d hd
      cases hd
      exact endsBare_of_isBlank hc
  | line sharp body hbody =>
      cases sharp with
      | true =>
          intro d hd
          cases hd
          exact hmarks.1
      | false =>
          intro d hd
          cases hd
          exact hmarks.2
  | block body hbody =>
      intro d hd
      cases hd
      exact hmarks.2

theorem not_mem_escapeChar (c : Char) : '\n' ∉ escapeChar c := by
  unfold escapeChar
  split_ifs with hquote hback hline htab
  · decide
  · decide
  · decide
  · decide
  · exact fun h => hline (List.mem_singleton.mp h).symm

theorem not_mem_cons {p : Char → Bool} (hp : p '\n' = false) {c : Char} {cs : List Char}
    (hc : c ≠ '\n') (hcs : ∀ d ∈ cs, p d = true) : '\n' ∉ c :: cs := by
  intro hin
  rcases List.mem_cons.mp hin with rfl | hin
  · exact hc rfl
  · exact Bool.false_ne_true (hp.symm.trans (hcs _ hin))

/-- No token is written with a line break. -/
theorem not_mem_spell {t : Token} (ht : t.isSpelled = true) : '\n' ∉ t.spell := by
  cases t with
  | ident name =>
      obtain ⟨c, cs, hname, hline, -⟩ := head_spell ht
      simp only [Token.spell] at hname
      simp only [Token.isSpelled, hname, Bool.and_eq_true, List.all_eq_true] at ht
      rw [Token.spell, hname]
      exact not_mem_cons isWordChar_newline hline ht.2
  | number digits =>
      obtain ⟨c, cs, hdigits, hline, -⟩ := head_spell ht
      simp only [Token.spell] at hdigits
      simp only [Token.isSpelled, hdigits, Bool.and_eq_true, List.all_eq_true] at ht
      rw [Token.spell, hdigits]
      exact not_mem_cons isNumberChar_newline hline ht.2
  | text value =>
      have hmark : '\n' ∉ ['"'] := by decide
      intro hin
      rcases List.mem_cons.mp hin with hin | hin
      · exact hmark (hin ▸ List.mem_singleton_self _)
      · rcases List.mem_append.mp hin with hin | hin
        · obtain ⟨c, -, hin⟩ := List.mem_flatMap.mp hin
          exact not_mem_escapeChar c hin
        · exact hmark hin
  | _ => decide

/-! ## Passages -/

/-- Whether the layout before a token keeps it off the token before: two words need some. -/
def Apart (previous next : List Spacer × Token) : Prop :=
  previous.2.isBare = true → next.2.isBare = true → next.1 ≠ []

instance : DecidableRel Apart := fun previous next =>
  inferInstanceAs (Decidable (previous.2.isBare = true → next.2.isBare = true → next.1 ≠ []))

/-- The text of tokens, each with the layout before it. -/
def spellPieces (pieces : List (List Spacer × Token)) : List Char :=
  pieces.flatMap fun (gap, t) => fill gap ++ t.spell

/-- The tokens of pieces that follow a text, each on its line: the first line, and one more for
each line break that is somewhere before the token. -/
def placesFrom (before : List Char) : List (List Spacer × Token) → List Placed
  | [] => []
  | (gap, t) :: rest =>
    ⟨t, 1 + breaks (before ++ fill gap)⟩ :: placesFrom (before ++ fill gap ++ t.spell) rest

section Pieces

variable {pieces : List (List Spacer × Token)} {rest : List Char}

theorem spellPieces_cons (gap : List Spacer) (t : Token) (rest : List (List Spacer × Token)) :
    spellPieces ((gap, t) :: rest) = fill gap ++ (t.spell ++ spellPieces rest) := by
  rw [spellPieces, List.flatMap_cons, List.append_assoc, spellPieces]

theorem map_token_placesFrom (before : List Char) :
    (placesFrom before pieces).map Placed.token = pieces.map Prod.snd := by
  induction pieces generalizing before with
  | nil => rfl
  | cons piece rest ih => rw [placesFrom, List.map_cons, List.map_cons, ih]

theorem ends_fill (rest : List Char) {gap : List Spacer} (hgap : gap ≠ []) :
    Ends (fill gap ++ rest) := by
  obtain ⟨s, gap, rfl⟩ := List.exists_cons_of_ne_nil hgap
  rw [fill, List.flatMap_cons, List.append_assoc]
  exact s.ends _

theorem ends_nil : Ends [] :=
  fun _ hc => nomatch hc

/-- What stands behind a word does not run into it. -/
theorem ends_spellPieces {gap : List Spacer} {t : Token} (hbare : t.isBare = true)
    (hapart : ((gap, t) :: pieces).IsChain Apart) (hrest : Ends rest) :
    Ends (spellPieces pieces ++ rest) := by
  cases pieces with
  | nil => exact hrest
  | cons piece others =>
      obtain ⟨gap', t'⟩ := piece
      have hpair : Apart (gap, t) (gap', t') := (List.isChain_cons_cons.mp hapart).1
      rw [spellPieces_cons, List.append_assoc]
      by_cases hgap : gap' = []
      · have hmark : t'.isBare = false := by
          rw [← Bool.not_eq_true]
          exact fun hnext => hpair hbare hnext hgap
        obtain ⟨c, cs, hspell, hc⟩ := spell_of_not_bare hmark
        rw [hgap, hspell]
        intro d hd
        cases hd
        exact hc
      · exact ends_fill _ hgap

/-- Pieces are read as their tokens, each on its line, in front of what does not run into them. -/
theorem tokensFrom_pieces (hspelled : ∀ t ∈ pieces.map Prod.snd, t.isSpelled = true)
    (hapart : pieces.IsChain Apart) (hrest : Ends rest) (before : List Char) :
    tokensFrom (1 + breaks before) (spellPieces pieces ++ rest) =
      (tokensFrom (1 + breaks (before ++ spellPieces pieces)) rest).map
        (placesFrom before pieces ++ ·) := by
  induction pieces generalizing before with
  | nil =>
      rw [spellPieces, List.flatMap_nil, List.append_nil, List.nil_append, placesFrom]
      cases tokensFrom (1 + breaks before) rest <;> rfl
  | cons piece others ih =>
      obtain ⟨gap, t⟩ := piece
      obtain ⟨ht, hothers⟩ := List.forall_mem_cons.mp hspelled
      have hline : 1 + breaks before + breaks (fill gap) =
          1 + breaks (before ++ fill gap) := by
        rw [breaks_append, Nat.add_assoc]
      have hlater : 1 + breaks (before ++ fill gap) =
          1 + breaks (before ++ fill gap ++ t.spell) := by
        rw [breaks_append _ t.spell, breaks_eq_zero (not_mem_spell ht), Nat.add_zero]
      have hwhole : before ++ spellPieces ((gap, t) :: others) =
          before ++ fill gap ++ t.spell ++ spellPieces others := by
        simp only [spellPieces_cons, List.append_assoc]
      rw [hwhole, spellPieces_cons, List.append_assoc, List.append_assoc, tokensFrom_fill,
        tokensFrom_spell ht (fun hbare => ends_spellPieces hbare hapart hrest), hline, hlater,
        ih hothers hapart.of_cons, placesFrom, hlater]
      cases tokensFrom _ rest <;> rfl

end Pieces

/-- Tokens with layout before, between and behind them. Two words are kept apart. -/
structure Passage where
  /-- The tokens, each with the layout before it. -/
  pieces : List (List Spacer × Token)
  /-- The layout behind the last token. -/
  last : List Spacer
  /-- There is layout between two words. -/
  apart : pieces.IsChain Apart

namespace Passage

/-- The tokens of a passage. -/
def tokens (p : Passage) : List Token :=
  p.pieces.map Prod.snd

/-- The document of a passage. -/
def text (p : Passage) : String :=
  String.ofList (spellPieces p.pieces ++ fill p.last)

/-- The tokens of a passage, each on its line. -/
def places (p : Passage) : List Placed :=
  placesFrom [] p.pieces

theorem map_token_places (p : Passage) : p.places.map Placed.token = p.tokens :=
  map_token_placesFrom []

theorem tokens_text (p : Passage) (h : ∀ t ∈ p.tokens, t.isSpelled = true) :
    Document.tokens p.text = .ok p.places := by
  have hends : Ends (fill p.last) := by
    by_cases hlast : p.last = []
    · rw [hlast]
      exact ends_nil
    · have hfill := ends_fill [] hlast
      rwa [List.append_nil] at hfill
  have hfill (line : Nat) : tokensFrom line (fill p.last) = .ok [] := by
    have hnothing := tokensFrom_fill p.last line []
    rwa [List.append_nil, tokensFrom] at hnothing
  rw [Document.tokens, text, String.toList_ofList]
  refine (tokensFrom_pieces h p.apart hends []).trans ?_
  rw [hfill]
  exact congrArg Except.ok (List.append_nil _)

/-- A fault behind a passage is on the line where it stands. -/
theorem tokens_append_fault (p : Passage) (h : ∀ t ∈ p.tokens, t.isSpelled = true)
    (hlast : p.last ≠ []) {c : Char} {rest : List Char} {fault : Fault}
    (hfault : lexFront c rest = .error fault) :
    Document.tokens (p.text ++ String.ofList (c :: rest)) =
      .error ⟨1 + breaks p.text.toList, fault⟩ := by
  have hbehind (line : Nat) : tokensFrom line (fill p.last ++ c :: rest) =
      .error ⟨line + breaks (fill p.last), fault⟩ := by
    rw [tokensFrom_fill, tokensFrom_cons, hfault]
  rw [Document.tokens, String.toList_append, text, String.toList_ofList, String.toList_ofList,
    List.append_assoc]
  refine (tokensFrom_pieces h p.apart (ends_fill (c :: rest) hlast) []).trans ?_
  rw [hbehind, List.nil_append, breaks_append, Nat.add_assoc]
  rfl

end Passage

/-! ## What is read has a spelling -/

section Spelled

variable {c : Char} {rest after : List Char} {t : Token}

theorem isSpelled_of_readToken (hblank : Text.isBlank c = false)
    (h : readToken c rest = .ok (t, after)) : t.isSpelled = true := by
  unfold readToken at h
  split at h
  · rename_i mark hmark
    cases h
    unfold Token.ofMark? at hmark
    split at hmark <;> cases hmark <;> rfl
  · split_ifs at h with hquote hnumber hword
    · obtain ⟨⟨value, left⟩, -, heq⟩ := map_eq_ok_iff.mp h
      cases heq
      rfl
    · cases h
      have hstart : startsNumber c (rest.takeWhile isNumberChar) = true := by
        cases rest with
        | nil => exact hnumber
        | cons d rest =>
            simp only [startsNumber, Bool.or_eq_true, Bool.and_eq_true, List.head?_cons,
              Option.any_some] at hnumber ⊢
            refine hnumber.imp_right fun hsigned => hsigned.imp_right fun hdigit => ?_
            have hd : isNumberChar d = true := by simp [isNumberChar, hdigit]
            rw [List.takeWhile_cons_of_pos hd]
            exact hdigit
      simp [Token.isSpelled, hstart, List.all_takeWhile]
    · cases h
      simp [Token.isSpelled, hword, hblank, List.all_takeWhile]

theorem isSpelled_of_lexFront {lines : Nat} (h : lexFront c rest = .ok (some t, lines, after)) :
    t.isSpelled = true := by
  unfold lexFront at h
  split at h
  · cases h
  · split at h
    · cases h
    · rename_i hblank
      split at h
      · cases h
      · split at h
        · split at h <;> cases h
        · obtain ⟨⟨found, left⟩, hread, heq⟩ := map_eq_ok_iff.mp h
          cases heq
          exact isSpelled_of_readToken (by simpa using hblank) hread

theorem isSpelled_of_tokensFrom {line : Nat} {cs : List Char} {ts : List Placed}
    (h : tokensFrom line cs = .ok ts) : ∀ t ∈ ts, t.token.isSpelled = true := by
  induction cs using lex_induction generalizing line ts with
  | nil =>
      rw [tokensFrom] at h
      cases h
      simp
  | cons c rest ih =>
      rw [tokensFrom_cons] at h
      split at h
      · cases h
      · rename_i token lines after hfront
        obtain ⟨later, hlater, rfl⟩ := map_eq_ok_iff.mp h
        intro t ht
        rcases List.mem_append.mp ht with ht | ht
        · cases token with
          | none => cases ht
          | some token =>
              rw [List.mem_singleton.mp ht]
              exact isSpelled_of_lexFront hfront
        · exact ih hfront hlater t ht

end Spelled

/-! ## Layout and meaning -/

/-- Tokens on lines that number them from zero. -/
def numbered (ts : List Token) : List Placed :=
  ts.zipIdx.map fun (t, i) => ⟨t, i⟩

/-- Any placing of tokens is the numbering on other lines. -/
theorem numbered_moved (placed : List Placed) :
    (numbered (placed.map Placed.token)).map
      (Placed.moved fun i => (placed[i]?.map Placed.line).getD 0) = placed := by
  apply List.ext_getElem
  · simp [numbered]
  · intro i hi hplaced
    simp [numbered, Placed.moved, hplaced]

/-- Tokens that are numbered describe a realm, or are faulty at one of them. -/
theorem numbered_error_lt {ts : List Token} {i : Nat} {fault : Fault}
    (h : (bodyOfTokens (numbered ts) >>= Realm.ofBody) = .error ⟨i, fault⟩) : i < ts.length := by
  -- the lines behind the last number are on no token, so moving them away changes nothing
  let away (j : Nat) : Nat := if j < ts.length then j else j + 1
  have hsame : (numbered ts).map (Placed.moved away) = numbered ts := by
    apply List.ext_getElem
    · simp
    · intro j hj hlength
      have hin : j < ts.length := by simpa [numbered] using hlength
      simp [numbered, Placed.moved, away, hin]
  have hmoved := Realm.ofTokens_moved away (numbered ts)
  rw [hsame, h, moveFault_error] at hmoved
  have hline : i = away i := congrArg Error.line (Except.error.inj hmoved)
  by_contra hout
  rw [show away i = i + 1 from if_neg hout] at hline
  omega

namespace Passage

/-- What a passage describes is what its numbered tokens describe; a fault at a number is on the
line of the token with this number. -/
theorem parse_text (p : Passage) (h : ∀ t ∈ p.tokens, t.isSpelled = true) :
    Realm.parse p.text = moveFault (fun i => (p.places[i]?.map Placed.line).getD 0)
      (bodyOfTokens (numbered p.tokens) >>= Realm.ofBody) := by
  rw [← Realm.ofTokens_moved, ← p.map_token_places, numbered_moved, Realm.parse, p.tokens_text h]
  rfl

/-- A passage is read as its tokens, each on its line, if and only if they all have a spelling. Then
passages of the same tokens all describe the same realm, or all have the same fault at the same
token, and on its line. What cannot be read behind a passage is a fault on the line where it
stands. -/
theorem means_its_tokens :
    (∀ p : Passage,
      Document.tokens p.text = .ok p.places ↔ ∀ t ∈ p.tokens, t.isSpelled = true) ∧
    (∀ ts : List Token, (∀ t ∈ ts, t.isSpelled = true) →
      (∃ r, ∀ p : Passage, p.tokens = ts → Realm.parse p.text = .ok r) ∨
      ∃ (fault : Fault) (i : Nat), ∀ p : Passage, p.tokens = ts →
        ∃ t : Placed, p.places[i]? = some t ∧ Realm.parse p.text = .error ⟨t.line, fault⟩) ∧
    ∀ p : Passage, (∀ t ∈ p.tokens, t.isSpelled = true) → p.last ≠ [] →
      ∀ (c : Char) (rest : List Char) (fault : Fault), lexFront c rest = .error fault →
        Realm.parse (p.text ++ String.ofList (c :: rest)) =
          .error ⟨1 + breaks p.text.toList, fault⟩ := by
  refine ⟨fun p => ⟨fun h t ht => ?_, p.tokens_text⟩, fun ts hts => ?_,
    fun p hp hlast c rest fault hfault => ?_⟩
  · rw [← p.map_token_places] at ht
    obtain ⟨placed, hplaced, rfl⟩ := List.mem_map.mp ht
    exact isSpelled_of_tokensFrom h placed hplaced
  · cases hread : bodyOfTokens (numbered ts) >>= Realm.ofBody with
    | ok r =>
        refine .inl ⟨r, fun p hp => ?_⟩
        subst hp
        rw [p.parse_text hts, hread, moveFault_ok]
    | error error =>
        obtain ⟨i, fault⟩ := error
        refine .inr ⟨fault, i, fun p hp => ?_⟩
        subst hp
        have hlength : p.places.length = p.tokens.length := by
          rw [← p.map_token_places, List.length_map]
        obtain ⟨t, ht⟩ : ∃ t : Placed, p.places[i]? = some t :=
          ⟨_, List.getElem?_eq_getElem (hlength ▸ numbered_error_lt hread)⟩
        refine ⟨t, ht, ?_⟩
        rw [p.parse_text hts, hread, moveFault_error, ht]
        rfl
  · rw [Realm.parse, p.tokens_append_fault hp hlast hfault]
    rfl

/-- A table with text that looks like a comment for a label, between comments that look like text
and tokens. -/
def sample : Passage where
  pieces :=
    [([.line true " table \x7b".toList (by decide)], .ident "table"),
      ([], .text "a \"/* // \n"),
      ([.block " \" *".toList (by decide), .line false "".toList (by decide)],
        .openBrace),
      ([.blank (Char.ofNat 0x3000) (by decide)], .closeBrace)]
  last := [.block "\n\n".toList (by decide)]
  apart := by decide

theorem sample_means_its_tokens :
    sample.text = "# table \x7b\ntable\"a \\\"/* // \\n\"/* \" **///\n\x7b\u3000\x7d/*\n\n*/" ∧
      (∀ t ∈ sample.tokens, t.isSpelled = true) ∧
      Document.tokens sample.text = .ok [⟨.ident "table", 2⟩, ⟨.text "a \"/* // \n", 2⟩,
        ⟨.openBrace, 3⟩, ⟨.closeBrace, 3⟩] ∧
      (∃ i : Nat, ∀ p : Passage, p.tokens = sample.tokens → ∃ t : Placed, p.places[i]? = some t ∧
        Realm.parse p.text = .error ⟨t.line, .noColumns "a \"/* // \n"⟩) ∧
      lexFront '"' ['x'] = .error .unterminatedText ∧
      Realm.parse (sample.text ++ String.ofList ['"', 'x']) = .error ⟨5, .unterminatedText⟩ := by
  have hspelled : ∀ t ∈ sample.tokens, t.isSpelled = true := by decide +kernel
  have hopen : lexFront '"' ['x'] = .error .unterminatedText := by rfl
  have hempty : Realm.parse sample.text = .error ⟨2, .noColumns "a \"/* // \n"⟩ := by
    decide +kernel
  have hfault : ∃ i : Nat, ∀ p : Passage, p.tokens = sample.tokens → ∃ t : Placed,
      p.places[i]? = some t ∧
        Realm.parse p.text = .error ⟨t.line, .noColumns "a \"/* // \n"⟩ := by
    rcases means_its_tokens.2.1 sample.tokens hspelled with ⟨r, hr⟩ | ⟨fault, i, hi⟩
    · cases (hr sample rfl).symm.trans hempty
    · obtain ⟨t, -, ht⟩ := hi sample rfl
      obtain ⟨-, rfl⟩ := Error.mk.inj (Except.error.inj (ht.symm.trans hempty))
      exact ⟨i, hi⟩
  exact ⟨by decide +kernel, hspelled, (means_its_tokens.1 sample).mpr hspelled, hfault, hopen,
    means_its_tokens.2.2 sample hspelled (List.cons_ne_nil _ _) _ _ _ hopen⟩

end Passage

end Document

end ProjectHub

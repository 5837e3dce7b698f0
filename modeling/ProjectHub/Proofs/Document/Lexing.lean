import ProjectHub.Document.Lexer
import ProjectHub.Proofs.Document.Lines

/-!
# Tokens of joined texts

Tokens end at a line break, and so does a comment to the end of its line. So the
tokens of two texts with a line break between them are those of the first and then
those of the second, and what is wrong in the first stays wrong, with one
exception: a block comment that the first text leaves open may end in the second.
-/

namespace ProjectHub.Document

/-! ## One step of the lexer -/

/-- What stands first in a text: a token or none, the number of line breaks in it, and the text
behind it. -/
def lexFront (c : Char) (rest : List Char) : Except Fault (Option Token × Nat × List Char) :=
  if c = '\n' then .ok (none, 1, rest)
  else if Text.isBlank c then .ok (none, 0, rest)
  else if c = '#' ∨ (c = '/' ∧ rest.head? = some '/') then .ok (none, 0, dropLine rest)
  else if c = '/' ∧ rest.head? = some '*' then
    match dropComment rest.tail 0 with
    | none => .error .unterminatedComment
    | some (after, lines) => .ok (none, lines, after)
  else (readToken c rest).map fun (token, after) => (some token, 0, after)

theorem dropComment_add (cs : List Char) (first line : Nat) :
    dropComment cs (first + line) =
      (dropComment cs line).map fun (after, next) => (after, first + next) := by
  fun_induction dropComment cs line with
  | case1 => rfl
  | case2 c rest line hmark => rw [dropComment, if_pos hmark, Option.map_some]
  | case3 c rest line hmark ih =>
      rw [dropComment, if_neg hmark, ← ih]
      split <;> rfl

theorem tokensFrom_cons (line : Nat) (c : Char) (rest : List Char) :
    tokensFrom line (c :: rest) =
      match lexFront c rest with
      | .error fault => .error ⟨line, fault⟩
      | .ok (token, lines, after) =>
        (tokensFrom (line + lines) after).map ((token.map fun t => ⟨t, line⟩).toList ++ ·) := by
  have hid (x : Except Error (List Placed)) : x.map ([] ++ ·) = x := by
    cases x <;> rfl
  rw [tokensFrom, lexFront]
  split
  · exact (hid _).symm
  · split
    · exact (hid _).symm
    · split
      · exact (hid _).symm
      · split
        · have hcomment := dropComment_add rest.tail line 0
          rw [Nat.add_zero] at hcomment
          split
          · rename_i hnone
            rw [hcomment, Option.map_eq_none_iff] at hnone
            rw [hnone]
          · rename_i after next hsome
            rw [hcomment, Option.map_eq_some_iff] at hsome
            obtain ⟨⟨_, lines⟩, hsome, heq⟩ := hsome
            cases heq
            rw [hsome]
            exact (hid _).symm
        · split
          · rename_i fault hread
            rw [hread]
            rfl
          · rename_i token after hread
            rw [hread]
            simp only [Except.map, Option.map_some, Option.toList_some, Nat.add_zero,
              List.singleton_append]
            cases tokensFrom line after <;> rfl

theorem length_lexFront {c : Char} {rest after : List Char} {token : Option Token} {lines : Nat}
    (h : lexFront c rest = .ok (token, lines, after)) : after.length ≤ rest.length := by
  unfold lexFront at h
  split at h
  · cases h
    exact Nat.le_refl _
  · split at h
    · cases h
      exact Nat.le_refl _
    · split at h
      · cases h
        exact length_dropWhile_le _ _
      · split at h
        · split at h
          · cases h
          · rename_i hcomment
            cases h
            have hafter := length_dropComment hcomment
            rw [List.length_tail] at hafter
            omega
        · obtain ⟨⟨found, left⟩, hread, heq⟩ := map_eq_ok_iff.mp h
          cases heq
          exact length_readToken hread

/-! ## A line break behind a text -/

section Append

variable {rest : List Char} (more : List Char)

theorem head?_append_newline (rest : List Char) {c : Char} (hc : c ≠ '\n') :
    (rest ++ '\n' :: more).head? = some c ↔ rest.head? = some c := by
  cases rest with
  | nil => simp [hc.symm]
  | cons d rest => rfl

theorem takeWhile_append_newline {p : Char → Bool} (hp : p '\n' = false) :
    (rest ++ '\n' :: more).takeWhile p = rest.takeWhile p := by
  induction rest with
  | nil => simp [hp]
  | cons c rest ih => rw [List.cons_append, List.takeWhile_cons, List.takeWhile_cons, ih]

theorem dropWhile_append_newline {p : Char → Bool} (hp : p '\n' = false) :
    (rest ++ '\n' :: more).dropWhile p = rest.dropWhile p ++ '\n' :: more := by
  induction rest with
  | nil => simp [hp]
  | cons c rest ih =>
      rw [List.cons_append, List.dropWhile_cons, List.dropWhile_cons, ih]
      split <;> rfl

theorem dropComment_append {cs after : List Char} {line next : Nat}
    (h : dropComment cs line = some (after, next)) :
    dropComment (cs ++ '\n' :: more) line = some (after ++ '\n' :: more, next) := by
  fun_induction dropComment cs line with
  | case1 => cases h
  | case2 c rest line hmark =>
      cases h
      obtain ⟨hstar, hslash⟩ := hmark
      cases rest with
      | nil => cases hslash
      | cons d rest =>
          rw [List.cons_append, List.cons_append, dropComment, if_pos ⟨hstar, hslash⟩]
          rfl
  | case3 c rest line hmark ih =>
      rw [← head?_append_newline more rest (by decide)] at hmark
      rw [List.cons_append, dropComment, if_neg hmark]
      exact ih h

theorem readText_cons {c : Char} (hc : c ≠ '\\') (rest : List Char) :
    readText (c :: rest) =
      if c = '"' then .ok ([], rest)
      else if c = '\n' then .error .unterminatedText
      else (readText rest).map fun (value, after) => (c :: value, after) := by
  rw [readText]
  · exact fun h => absurd h hc
  · exact fun d tail h => absurd h hc

theorem ne_backslash {c : Char} (hnil : c = '\\' → rest = [] → False)
    (hcons : ∀ d tail, c = '\\' → rest = d :: tail → False) : c ≠ '\\' := by
  intro hc
  cases rest with
  | nil => exact hnil hc rfl
  | cons d tail => exact hcons d tail hc rfl

theorem readText_append {cs value after : List Char} (h : readText cs = .ok (value, after)) :
    readText (cs ++ '\n' :: more) = .ok (value, after ++ '\n' :: more) := by
  fun_induction readText cs generalizing value after with
  | case1 => cases h
  | case2 => cases h
  | case3 c rest escaped hescaped ih =>
      obtain ⟨⟨inner, left⟩, hread, heq⟩ := map_eq_ok_iff.mp h
      cases heq
      simp only [List.cons_append, readText, hescaped, ih hread]
      rfl
  | case4 => cases h
  | case5 rest hnil hcons =>
      cases h
      rw [List.cons_append, readText_cons (by decide), if_pos rfl]
  | case6 => cases h
  | case7 c rest hnil hcons hquote hline ih =>
      obtain ⟨⟨inner, left⟩, hread, heq⟩ := map_eq_ok_iff.mp h
      cases heq
      rw [List.cons_append, readText_cons (ne_backslash hnil hcons), if_neg hquote, if_neg hline,
        ih hread]
      rfl

/-- Quoted text that does not end before a line break does not end at all. -/
theorem readText_append_error {cs : List Char} {fault : Fault} (h : readText cs = .error fault) :
    ∃ other, readText (cs ++ '\n' :: more) = .error other := by
  fun_induction readText cs generalizing fault with
  | case1 =>
      refine ⟨.unterminatedText, ?_⟩
      rw [List.nil_append, readText_cons (by decide), if_neg (by decide), if_pos rfl]
  | case2 => exact ⟨.unknownEscape '\n', rfl⟩
  | case3 c rest escaped hescaped ih =>
      obtain ⟨other, hother⟩ := ih (map_eq_error_iff.mp h)
      exact ⟨other, by simp only [List.cons_append, readText, hescaped, hother]; rfl⟩
  | case4 c rest hescaped =>
      exact ⟨.unknownEscape c, by simp only [List.cons_append, readText, hescaped]⟩
  | case5 => cases h
  | case6 rest hnil hcons =>
      refine ⟨.unterminatedText, ?_⟩
      rw [List.cons_append, readText_cons (by decide), if_neg (by decide), if_pos rfl]
  | case7 c rest hnil hcons hquote hline ih =>
      obtain ⟨other, hother⟩ := ih (map_eq_error_iff.mp h)
      refine ⟨other, ?_⟩
      rw [List.cons_append, readText_cons (ne_backslash hnil hcons), if_neg hquote, if_neg hline,
        hother]
      rfl

theorem startsNumber_append_newline (c : Char) :
    startsNumber c (rest ++ '\n' :: more) = startsNumber c rest := by
  cases rest with
  | nil => simp [startsNumber]
  | cons d rest => rfl

theorem isNumberChar_newline : isNumberChar '\n' = false := by decide

theorem isWordChar_newline : isWordChar '\n' = false := by decide +kernel

theorem readToken_append {c : Char} {token : Token} {after : List Char}
    (h : readToken c rest = .ok (token, after)) :
    readToken c (rest ++ '\n' :: more) = .ok (token, after ++ '\n' :: more) := by
  unfold readToken at h ⊢
  rw [startsNumber_append_newline]
  split at h
  · cases h
    rfl
  · split at h
    · obtain ⟨⟨value, left⟩, hread, heq⟩ := map_eq_ok_iff.mp h
      cases heq
      rw [if_pos ‹_›, readText_append more hread]
      rfl
    · rw [if_neg ‹_›]
      split at h
      · cases h
        rw [if_pos ‹_›, takeWhile_append_newline more isNumberChar_newline,
          dropWhile_append_newline more isNumberChar_newline]
      · rw [if_neg ‹_›]
        split at h
        · cases h
          rw [if_pos ‹_›, takeWhile_append_newline more isWordChar_newline,
            dropWhile_append_newline more isWordChar_newline]
        · cases h

theorem readToken_append_error {c : Char} {fault : Fault} (h : readToken c rest = .error fault) :
    ∃ other, readToken c (rest ++ '\n' :: more) = .error other := by
  unfold readToken at h ⊢
  rw [startsNumber_append_newline]
  split at h
  · cases h
  · split at h
    · obtain ⟨other, hother⟩ := readText_append_error more (map_eq_error_iff.mp h)
      exact ⟨other, by rw [if_pos ‹_›, hother]; rfl⟩
    · split at h
      · cases h
      · split at h
        · cases h
        · exact ⟨_, by rw [if_neg ‹_›, if_neg ‹_›, if_neg ‹_›]⟩

theorem lexFront_append {c : Char} {token : Option Token} {lines : Nat} {after : List Char}
    (h : lexFront c rest = .ok (token, lines, after)) :
    lexFront c (rest ++ '\n' :: more) = .ok (token, lines, after ++ '\n' :: more) := by
  have hslash := head?_append_newline more rest (c := '/') (by decide)
  have hstar := head?_append_newline more rest (c := '*') (by decide)
  unfold lexFront at h ⊢
  simp only [hslash, hstar]
  split at h
  · cases h
    rw [if_pos ‹_›]
  · rw [if_neg ‹_›]
    split at h
    · cases h
      rw [if_pos ‹_›]
    · rw [if_neg ‹_›]
      split at h
      · cases h
        rw [if_pos ‹_›, dropLine, dropWhile_append_newline more (by decide)]
        rfl
      · rw [if_neg ‹_›]
        split at h
        · rename_i hcomment
          rw [if_pos hcomment]
          split at h
          · cases h
          · rename_i hdrop
            cases h
            cases rest with
            | nil => cases hcomment.2
            | cons d rest =>
                have hmore := dropComment_append more hdrop
                rw [List.cons_append, List.tail_cons]
                rw [List.tail_cons] at hmore
                rw [hmore]
        · obtain ⟨⟨found, left⟩, hread, heq⟩ := map_eq_ok_iff.mp h
          cases heq
          rw [if_neg ‹_›, readToken_append more hread]
          rfl

/-- What is wrong in a text is not mended by what follows the line, but for an open comment. -/
theorem lexFront_append_error {c : Char} {fault : Fault} (h : lexFront c rest = .error fault)
    (hopen : fault ≠ .unterminatedComment) :
    ∃ other, lexFront c (rest ++ '\n' :: more) = .error other := by
  have hslash := head?_append_newline more rest (c := '/') (by decide)
  have hstar := head?_append_newline more rest (c := '*') (by decide)
  unfold lexFront at h ⊢
  simp only [hslash, hstar]
  split at h
  · cases h
  · rw [if_neg ‹_›]
    split at h
    · cases h
    · rw [if_neg ‹_›]
      split at h
      · cases h
      · rw [if_neg ‹_›]
        split at h
        · split at h
          · cases h
            exact absurd rfl hopen
          · cases h
        · obtain ⟨other, hother⟩ := readToken_append_error more (map_eq_error_iff.mp h)
          exact ⟨other, by rw [if_neg ‹_›, hother]; rfl⟩

end Append

/-! ## Joined texts -/

/-- What holds of the empty text, and of any other once it holds of what is behind its front, holds
of all texts. -/
theorem lex_induction {motive : List Char → Prop} (nil : motive [])
    (cons : ∀ c rest, (∀ {token lines after}, lexFront c rest = .ok (token, lines, after) →
      motive after) → motive (c :: rest)) (cs : List Char) : motive cs := by
  induction hlength : cs.length using Nat.strongRecOn generalizing cs with
  | ind n ih =>
      cases cs with
      | nil => exact nil
      | cons c rest =>
          refine cons c rest fun hfront => ih _ ?_ _ rfl
          rw [← hlength, List.length_cons]
          exact Nat.lt_succ_of_le (length_lexFront hfront)

theorem tokensFrom_newline (line : Nat) (rest : List Char) :
    tokensFrom line ('\n' :: rest) = tokensFrom (line + 1) rest := by
  rw [tokensFrom, if_pos rfl]

/-- The tokens of a text stand in front of those behind a line break. -/
theorem tokensFrom_append {line : Nat} {cs : List Char} {ts : List Placed}
    (h : tokensFrom line cs = .ok ts) : ∃ next, ∀ more,
      tokensFrom line (cs ++ '\n' :: more) = (tokensFrom next more).map (ts ++ ·) := by
  induction cs using lex_induction generalizing line ts with
  | nil =>
      rw [tokensFrom] at h
      cases h
      refine ⟨line + 1, fun more => ?_⟩
      rw [List.nil_append, tokensFrom_newline]
      cases tokensFrom (line + 1) more <;> rfl
  | cons c rest ih =>
      rw [tokensFrom_cons] at h
      split at h
      · cases h
      · rename_i token lines after hfront
        obtain ⟨later, hlater, rfl⟩ := map_eq_ok_iff.mp h
        obtain ⟨next, hnext⟩ := ih hfront hlater
        refine ⟨next, fun more => ?_⟩
        rw [List.cons_append, tokensFrom_cons, lexFront_append more hfront]
        dsimp only
        rw [hnext more]
        cases tokensFrom next more with
        | error error => rfl
        | ok others => exact congrArg Except.ok (List.append_assoc ..).symm

theorem tokensFrom_append_error {line : Nat} {cs : List Char} {error : Error}
    (h : tokensFrom line cs = .error error) (hopen : error.fault ≠ .unterminatedComment)
    (more : List Char) : ∃ other, tokensFrom line (cs ++ '\n' :: more) = .error other := by
  induction cs using lex_induction generalizing line with
  | nil =>
      rw [tokensFrom] at h
      cases h
  | cons c rest ih =>
      rw [tokensFrom_cons] at h
      rw [List.cons_append, tokensFrom_cons]
      split at h
      · rename_i fault hfront
        cases h
        obtain ⟨other, hother⟩ := lexFront_append_error more hfront hopen
        rw [hother]
        exact ⟨_, rfl⟩
      · rename_i token lines after hfront
        obtain ⟨other, hother⟩ := ih hfront (map_eq_error_iff.mp h)
        rw [lexFront_append more hfront]
        dsimp only
        rw [hother]
        exact ⟨other, rfl⟩

/-- The tokens of a text are the same on whatever line it starts. -/
theorem outcome_tokensFrom (line other : Nat) (cs : List Char) :
    outcome ((tokensFrom line cs).map (List.map Placed.token)) =
      outcome ((tokensFrom other cs).map (List.map Placed.token)) := by
  induction cs using lex_induction generalizing line other with
  | nil => rw [tokensFrom, tokensFrom]
  | cons c rest ih =>
      rw [tokensFrom_cons, tokensFrom_cons]
      cases hfront : lexFront c rest with
      | error fault => rfl
      | ok front =>
          obtain ⟨token, lines, after⟩ := front
          have hafter := ih hfront (line + lines) (other + lines)
          dsimp only
          cases hfirst : tokensFrom (line + lines) after with
          | error error =>
              cases hsecond : tokensFrom (other + lines) after with
              | error error' =>
                  rw [hfirst, hsecond] at hafter
                  exact hafter
              | ok ts' =>
                  rw [hfirst, hsecond] at hafter
                  cases hafter
          | ok ts =>
              cases hsecond : tokensFrom (other + lines) after with
              | error error' =>
                  rw [hfirst, hsecond] at hafter
                  cases hafter
              | ok ts' =>
                  rw [hfirst, hsecond] at hafter
                  have hsame : ts.map Placed.token = ts'.map Placed.token := Except.ok.inj hafter
                  cases token <;> simp [Except.map, outcome, Except.mapError, hsame]

end ProjectHub.Document

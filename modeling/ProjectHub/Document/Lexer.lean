import ProjectHub.Document.Error
import ProjectHub.Text.Blank
import ProjectHub.Text.Letter

/-!
# Reading tokens

A document is read from left to right. Blanks and comments only separate
tokens; a newline moves to the next line. Every reader of a part returns the
text after it, which is never longer than the text it was given.
-/

namespace ProjectHub.Document

/-- The text from the end of the line on. -/
def dropLine (cs : List Char) : List Char :=
  cs.dropWhile fun c => c != '\n'

/-- The text after the end mark of a block comment, and the line there. -/
def dropComment : List Char → Nat → Option (List Char × Nat)
  | [], _ => none
  | c :: rest, line =>
    if c = '*' ∧ rest.head? = some '/' then some (rest.tail, line)
    else dropComment rest (if c = '\n' then line + 1 else line)

/-- The character an escape stands for. -/
def unescape? : Char → Option Char
  | 'n' => some '\n'
  | 't' => some '\t'
  | '"' => some '"'
  | '\\' => some '\\'
  | _ => none

/-- Quoted text up to its closing quote, and what follows the quote. -/
def readText : List Char → Except Fault (List Char × List Char)
  | [] => .error .unterminatedText
  | ['\\'] => .error .unterminatedText
  | '\\' :: c :: rest =>
    match unescape? c with
    | some escaped => (readText rest).map fun (value, after) => (escaped :: value, after)
    | none => .error (.unknownEscape c)
  | c :: rest =>
    if c = '"' then .ok ([], rest)
    else if c = '\n' then .error .unterminatedText
    else (readText rest).map fun (value, after) => (c :: value, after)

/-- The characters of a number after its first. -/
def isNumberChar (c : Char) : Bool :=
  c.isDigit || c == '.'

/-- The characters a word starts with. -/
def isWordStart (c : Char) : Bool :=
  Text.isAlphabetic c || c == '_'

/-- The characters of a word. -/
def isWordChar (c : Char) : Bool :=
  Text.isAlphanumeric c || c == '_' || c == '-' || c == '.'

/-- Whether a number starts with `c` when `rest` follows it. -/
def startsNumber (c : Char) (rest : List Char) : Bool :=
  c.isDigit || (c == '-' && rest.head?.any Char.isDigit)

/-- One token at `c :: rest`, where `c` neither is blank nor starts a comment, and the
text after it. -/
def readToken (c : Char) (rest : List Char) : Except Fault (Token × List Char) :=
  match Token.ofMark? c with
  | some token => .ok (token, rest)
  | none =>
    if c = '"' then
      (readText rest).map fun (value, after) => (.text (String.ofList value), after)
    else if startsNumber c rest then
      .ok (.number (String.ofList (c :: rest.takeWhile isNumberChar)), rest.dropWhile isNumberChar)
    else if isWordStart c then
      .ok (.ident (String.ofList (c :: rest.takeWhile isWordChar)), rest.dropWhile isWordChar)
    else .error (.unexpectedCharacter c)

theorem length_dropWhile_le (p : Char → Bool) (cs : List Char) :
    (cs.dropWhile p).length ≤ cs.length :=
  (List.dropWhile_sublist p).length_le

theorem length_dropComment {cs after : List Char} {line next : Nat}
    (h : dropComment cs line = some (after, next)) : after.length ≤ cs.length := by
  fun_induction dropComment cs line with
  | case1 => cases h
  | case2 c rest line mark =>
    cases h
    simp only [List.length_cons, List.length_tail]
    omega
  | case3 c rest line mark ih =>
    have := ih h
    simp only [List.length_cons]
    omega

theorem length_readText {cs value after : List Char} (h : readText cs = .ok (value, after)) :
    after.length ≤ cs.length := by
  fun_induction readText cs generalizing value after with
  | case1 => cases h
  | case2 => cases h
  | case3 c rest escaped _ ih =>
    cases read : readText rest with
    | error fault => simp [read, Except.map] at h
    | ok result =>
      obtain ⟨inner, last⟩ := result
      simp only [read, Except.map, Except.ok.injEq, Prod.mk.injEq] at h
      have := h.2 ▸ ih read
      simp only [List.length_cons]
      omega
  | case4 => cases h
  | case5 rest =>
    cases h
    simp
  | case6 => cases h
  | case7 c rest _ _ _ _ ih =>
    cases read : readText rest with
    | error fault => simp [read, Except.map] at h
    | ok result =>
      obtain ⟨inner, last⟩ := result
      simp only [read, Except.map, Except.ok.injEq, Prod.mk.injEq] at h
      have := h.2 ▸ ih read
      simp only [List.length_cons]
      omega

theorem length_readToken {c : Char} {rest after : List Char} {token : Token}
    (h : readToken c rest = .ok (token, after)) : after.length ≤ rest.length := by
  unfold readToken at h
  split at h
  · cases h
    exact Nat.le_refl _
  · split at h
    · cases read : readText rest with
      | error fault => simp [read, Except.map] at h
      | ok result =>
        obtain ⟨inner, last⟩ := result
        simp only [read, Except.map, Except.ok.injEq, Prod.mk.injEq] at h
        exact h.2 ▸ length_readText read
    · split at h
      · cases h
        exact length_dropWhile_le _ _
      · split at h
        · cases h
          exact length_dropWhile_le _ _
        · cases h

/-- The tokens of a text that starts on `line`. -/
def tokensFrom (line : Nat) : List Char → Except Error (List Placed)
  | [] => .ok []
  | c :: rest =>
    if c = '\n' then tokensFrom (line + 1) rest
    else if Text.isBlank c then tokensFrom line rest
    else if c = '#' ∨ (c = '/' ∧ rest.head? = some '/') then tokensFrom line (dropLine rest)
    else if c = '/' ∧ rest.head? = some '*' then
      match _h : dropComment rest.tail line with
      | none => .error ⟨line, .unterminatedComment⟩
      | some (after, next) => tokensFrom next after
    else
      match _h : readToken c rest with
      | .error fault => .error ⟨line, fault⟩
      | .ok (token, after) => do
        let tokens ← tokensFrom line after
        return ⟨token, line⟩ :: tokens
termination_by cs => cs.length
decreasing_by
  all_goals simp only [List.length_cons]
  · omega
  · omega
  · have := length_dropWhile_le (fun c => c != '\n') rest
    unfold dropLine
    omega
  · have := length_dropComment _h
    simp only [List.length_tail] at this
    omega
  · have := length_readToken _h
    omega

/-- The tokens of a document, or its first fault. -/
def tokens (document : String) : Except Error (List Placed) :=
  tokensFrom 1 document.toList

end ProjectHub.Document

import ProjectHub.Reading
import ProjectHub.Text.Hex

/-!
# TOML text

Text in TOML stands between quotes: double ones with escapes, single ones
without, on one line or, between three of them, on many. Blanks and comments
around values have no meaning.
-/

namespace ProjectHub.Toml

/-- Characters that text and comments may hold: no control characters but the tab. -/
def isTextChar (c : Char) : Bool :=
  c == '\t' || (32 ≤ c.toNat && c.toNat != 127)

/-- The blanks within a line. -/
def isSpace (c : Char) : Bool :=
  c == ' ' || c == '\t'

/-- The text after the blanks of its line. -/
def skipSpaces (cs : List Char) : List Char :=
  cs.dropWhile isSpace

theorem length_skipSpaces (cs : List Char) : (skipSpaces cs).length ≤ cs.length :=
  (List.dropWhile_sublist _).length_le

/-- The end of a line. -/
def newline? : (cs : List Char) → Option (Reading Unit cs)
  | '\n' :: rest => some (.ofHead () '\n' rest)
  | '\r' :: '\n' :: rest => some ((Reading.ofHead () '\n' rest).behind '\r')
  | _ => none

/-- The text after its blanks and line ends. -/
def skipLines (cs : List Char) : List Char :=
  match newline? (skipSpaces cs) with
  | some line => skipLines line.rest
  | none => skipSpaces cs
termination_by cs.length
decreasing_by
  have := line.shorter
  have := length_skipSpaces cs
  omega

theorem length_skipLines (cs : List Char) : (skipLines cs).length ≤ cs.length := by
  fun_induction skipLines cs with
  | case1 cs line _ ih =>
    have := line.shorter
    have := length_skipSpaces cs
    omega
  | case2 cs _ => exact length_skipSpaces cs

/-- The text after a comment, if it starts with one. -/
def skipComment : List Char → List Char
  | '#' :: rest => rest.dropWhile isTextChar
  | cs => cs

theorem length_skipComment (cs : List Char) : (skipComment cs).length ≤ cs.length := by
  unfold skipComment
  split
  · exact Nat.le_succ_of_le (List.dropWhile_sublist _).length_le
  · exact Nat.le_refl _

/-- The text after its blanks, line ends and comments. A comment ends with its line. -/
def skipLayout (cs : List Char) : List Char :=
  match newline? (skipComment (skipSpaces cs)) with
  | some line => skipLayout line.rest
  | none => skipSpaces cs
termination_by cs.length
decreasing_by
  have := line.shorter
  have := length_skipComment (skipSpaces cs)
  have := length_skipSpaces cs
  omega

theorem length_skipLayout (cs : List Char) : (skipLayout cs).length ≤ cs.length := by
  fun_induction skipLayout cs with
  | case1 cs line _ ih =>
    have := line.shorter
    have := length_skipComment (skipSpaces cs)
    have := length_skipSpaces cs
    omega
  | case2 cs _ => exact length_skipSpaces cs

/-- The character of a number of hexadecimal digits. -/
def readCode (digits : Nat) (cs : List Char) : Option (Reading Char cs) := do
  let spelled := cs.take digits
  if spelled.length ≠ digits then none
  let code ← spelled.foldlM (fun n c => (Text.hexValue c).map (16 * n + ·)) 0
  if code.isValidChar then Reading.ofRest? (Char.ofNat code) (cs.drop digits) else none

/-- The character a short escape stands for. -/
def shortEscape? : Char → Option Char
  | 'b' => some '\x08'
  | 't' => some '\t'
  | 'n' => some '\n'
  | 'f' => some '\x0c'
  | 'r' => some '\r'
  | '"' => some '"'
  | '\\' => some '\\'
  | _ => none

/-- What follows the backslash of an escape. -/
def readEscape : (cs : List Char) → Option (Reading Char cs)
  | [] => none
  | c :: rest =>
    if c = 'u' then (readCode 4 rest).map (Reading.behind c)
    else if c = 'U' then (readCode 8 rest).map (Reading.behind c)
    else (shortEscape? c).map fun char => .ofHead char c rest

/-- Text on one line, up to and with its closing quote. -/
def readShort (quote : Char) (escapes : Bool) (cs : List Char) :
    Option (Reading (List Char) cs) :=
  match cs with
  | [] => none
  | c :: rest =>
    if c = quote then some (.ofHead [] c rest)
    else if escapes && c == '\\' then do
      let escape ← readEscape rest
      let tail ← readShort quote escapes escape.rest
      return ((escape.after tail).map (escape.value :: ·)).behind c
    else if isTextChar c then
      (readShort quote escapes rest).map fun tail => (tail.map (c :: ·)).behind c
    else none
termination_by cs.length
decreasing_by
  · have := escape.shorter
    simp only [List.length_cons]
    omega
  · simp

/-- Text on many lines, up to and with the three quotes that close it; one or two quotes in
front of those belong to the text. A backslash at the end of a line passes over it and all
blanks that follow. -/
def readLong (quote : Char) (escapes : Bool) (cs : List Char) :
    Option (Reading (List Char) cs) :=
  match cs with
  | [] => none
  | c :: rest =>
    if c = quote then
      let more := (rest.takeWhile (· == quote)).length
      if more < 2 then
        (readLong quote escapes rest).map fun tail => (tail.map (c :: ·)).behind c
      else
        let extra := min (more - 2) 2
        Reading.ofRest? (List.replicate extra quote) (rest.drop (extra + 2))
    else if escapes && c == '\\' then
      match newline? (skipSpaces rest) with
      | some line =>
        (readLong quote escapes (skipLines line.rest)).map fun tail =>
          (tail.ofSuffix (by
            have := length_skipLines line.rest
            have := line.shorter
            have := length_skipSpaces rest
            omega)).behind c
      | none => do
        let escape ← readEscape rest
        let tail ← readLong quote escapes escape.rest
        return ((escape.after tail).map (escape.value :: ·)).behind c
    else
      match newline? (c :: rest) with
      | some line => do
        let tail ← readLong quote escapes line.rest
        return (line.after tail).map ('\n' :: ·)
      | none =>
        if isTextChar c then
          (readLong quote escapes rest).map fun tail => (tail.map (c :: ·)).behind c
        else none
termination_by cs.length
decreasing_by
  · simp
  · have := length_skipLines line.rest
    have := line.shorter
    have := length_skipSpaces rest
    simp only [List.length_cons]
    omega
  · have := escape.shorter
    simp only [List.length_cons]
    omega
  · exact line.shorter
  · simp

/-- Text after its first quote. Three quotes open text on many lines; a line end right
after them is not part of it. -/
def readText (quote : Char) (cs : List Char) : Option (Reading String cs) :=
  let escapes := quote == '"'
  match cs with
  | a :: b :: rest =>
    if a = quote ∧ b = quote then
      match newline? rest with
      | some line => do
        let text ← readLong quote escapes line.rest
        return (((line.after text).map String.ofList).behind b).behind a
      | none => do
        let text ← readLong quote escapes rest
        return ((text.map String.ofList).behind b).behind a
    else (readShort quote escapes (a :: b :: rest)).map (Reading.map String.ofList)
  | cs => (readShort quote escapes cs).map (Reading.map String.ofList)

end ProjectHub.Toml

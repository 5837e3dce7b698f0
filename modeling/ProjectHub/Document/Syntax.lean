import ProjectHub.Document.Error
import ProjectHub.Reading

/-!
# The syntax of schema documents

A document is a body: attributes, written `name = value`, and blocks, written
as a kind, labels and a body between braces. A value is a word, text, a number,
a truth value, a call, or a list.

The readers are recursive descent over the list of tokens. A reading carries the
tokens after it, with the proof that they are fewer, so the recursion ends.
-/

namespace ProjectHub.Document

/-- The value of an attribute. -/
inductive Value where
  | text (value : String)
  | number (digits : String)
  | bool (value : Bool)
  | ident (name : String)
  | call (name : String) (args : List Value)
  | list (items : List Value)
  deriving Inhabited

/-- An attribute and the line it starts on. -/
structure Attribute where
  name : String
  value : Value
  line : Nat
  deriving Inhabited

/-- A block: its kind, its labels, its attributes and inner blocks in source order, and
the line it starts on. -/
structure Block where
  kind : String
  labels : List String
  attributes : List Attribute
  blocks : List Block
  line : Nat
  deriving Inhabited

/-- Attributes and blocks in source order. -/
structure Body where
  attributes : List Attribute
  blocks : List Block
  deriving Inhabited

/-- What a body is made of. -/
inductive Item where
  | attr (a : Attribute)
  | block (b : Block)

namespace Body

/-- The body without items. -/
def empty : Body := ⟨[], []⟩

/-- The body with an item in front. -/
def cons : Item → Body → Body
  | .attr a, body => { body with attributes := a :: body.attributes }
  | .block b, body => { body with blocks := b :: body.blocks }

end Body

mutual

/-- One value. -/
def readValue (last : Nat) (ts : List Placed) : Except Error (Reading Value ts) :=
  match ts with
  | [] => .error ⟨last, .expectedValue none⟩
  | t :: rest =>
    match t.token with
    | .text value => .ok ⟨.text value, rest, Nat.lt_succ_self _⟩
    | .number digits => .ok ⟨.number digits, rest, Nat.lt_succ_self _⟩
    | .ident "true" => .ok ⟨.bool true, rest, Nat.lt_succ_self _⟩
    | .ident "false" => .ok ⟨.bool false, rest, Nat.lt_succ_self _⟩
    | .ident name =>
      match rest with
      | ⟨.openParen, _⟩ :: inner => do
        let args ← readSequence last .closeParen inner
        return ⟨.call name args.value, args.rest, by
          have := args.shorter
          simp only [List.length_cons]
          omega⟩
      | after => .ok ⟨.ident name, after, Nat.lt_succ_self _⟩
    | .openBracket => do
      let items ← readSequence last .closeBracket rest
      return ⟨.list items.value, items.rest, Nat.lt_succ_of_lt items.shorter⟩
    | token => .error ⟨t.line, .expectedValue (some token)⟩
termination_by (ts.length, 0)

/-- Values separated by commas up to `close`; a comma may stand before it. -/
def readSequence (last : Nat) (close : Token) (ts : List Placed) :
    Except Error (Reading (List Value) ts) :=
  match ts with
  | [] => .error ⟨last, .expectedValue none⟩
  | t :: rest =>
    if t.token = close then .ok ⟨[], rest, Nat.lt_succ_self _⟩
    else do
      let first ← readValue last (t :: rest)
      match h : first.rest with
      | ⟨.comma, _⟩ :: more => do
        let others ← readSequence last close more
        return ⟨first.value :: others.value, others.rest, by
          have := first.shorter
          have := others.shorter
          simp only [h, List.length_cons] at *
          omega⟩
      | next :: more =>
        if next.token = close then
          return ⟨[first.value], more, by
            have := first.shorter
            simp only [h, List.length_cons] at *
            omega⟩
        else throw ⟨next.line, .expectedSeparator close⟩
      | [] => throw ⟨last, .expectedSeparator close⟩
termination_by (ts.length, 1)
decreasing_by
  all_goals simp_wf
  · omega
  · have := first.shorter
    simp only [h, List.length_cons] at *
    omega

end

/-- The label a token is. -/
def label? : Placed → Option String
  | ⟨.ident name, _⟩ => some name
  | ⟨.text value, _⟩ => some value
  | _ => none

/-- The labels at the front. -/
def readLabels : List Placed → List String × List Placed
  | [] => ([], [])
  | t :: rest =>
    match label? t with
    | some label => ((label :: (readLabels rest).1), (readLabels rest).2)
    | none => ([], t :: rest)

theorem length_readLabels (ts : List Placed) : (readLabels ts).2.length ≤ ts.length := by
  fun_induction readLabels ts with
  | case1 => exact Nat.le_refl _
  | case2 t rest label _ ih => exact Nat.le_succ_of_le ih
  | case3 => exact Nat.le_refl _

mutual

/-- The rest of an item after its name: a value after an equals sign, or labels and a body
between braces. -/
def readItem (last : Nat) (name : String) (line : Nat) (ts : List Placed) :
    Except Error (Reading Item ts) :=
  match ts with
  | ⟨.equals, _⟩ :: rest => do
    let value ← readValue last rest
    return ⟨.attr ⟨name, value.value, line⟩, value.rest, Nat.lt_succ_of_lt value.shorter⟩
  | ts =>
    match h : (readLabels ts).2 with
    | ⟨.openBrace, _⟩ :: rest => do
      let body ← readBody last rest
      return ⟨.block ⟨name, (readLabels ts).1, body.value.attributes, body.value.blocks, line⟩,
        body.rest, by
          have := body.shorter
          have := length_readLabels ts
          simp only [h, List.length_cons] at *
          omega⟩
    | _ => .error ⟨line, .incompleteItem name⟩
termination_by ts.length
decreasing_by
  have := length_readLabels ts
  simp only [h, List.length_cons] at *
  omega

/-- Items up to a closing brace. -/
def readBody (last : Nat) (ts : List Placed) : Except Error (Reading Body ts) :=
  match ts with
  | [] => .error ⟨last, .unclosedBlock⟩
  | t :: rest =>
    match t.token with
    | .closeBrace => .ok ⟨.empty, rest, Nat.lt_succ_self _⟩
    | .ident name => do
      let item ← readItem last name t.line rest
      let body ← readBody last item.rest
      return ⟨.cons item.value body.value, body.rest, by
        have := item.shorter
        have := body.shorter
        simp only [List.length_cons]
        omega⟩
    | token => .error ⟨t.line, .unexpectedToken token⟩
termination_by ts.length
decreasing_by
  · exact Nat.lt_succ_self _
  · have := item.shorter
    simp only [List.length_cons]
    omega

end

/-- Items up to the end of the document. -/
def readItems (last : Nat) (ts : List Placed) : Except Error Body :=
  match ts with
  | [] => .ok .empty
  | t :: rest =>
    match t.token with
    | .ident name => do
      let item ← readItem last name t.line rest
      let body ← readItems last item.rest
      return .cons item.value body
    | token => .error ⟨t.line, .unexpectedToken token⟩
termination_by ts.length
decreasing_by
  have := item.shorter
  simp only [List.length_cons]
  omega

/-- The line of the last token, or the first line. -/
def lastLine (ts : List Placed) : Nat :=
  (ts.getLast?.map Placed.line).getD 1

/-- The body that a list of tokens spells. -/
def bodyOfTokens (ts : List Placed) : Except Error Body :=
  readItems (lastLine ts) ts

end ProjectHub.Document

import ProjectHub.Decimal.Double
import ProjectHub.Sqlite.Expression.Basic
import ProjectHub.Sqlite.Token

/-!
# The syntax of expressions

Expressions are read from tokens by how tightly their operators bind. Every
reader gives what it read and the tokens after it; `steps` bounds how deep the
readers call each other. Queries, places for values, and calls over windows are
not read: no column and no constraint may hold them.
-/

namespace ProjectHub.Sqlite.Expr

open Decimal (Double)

/-- How tightly operators bind, loosest first. -/
def orLevel : Nat := 1
/-- The level of AND. -/
def andLevel : Nat := 2
/-- The level of NOT before its operand. -/
def notLevel : Nat := 3
/-- The level of equality and of the operators that read like it. -/
def equalLevel : Nat := 4
/-- The level of COLLATE. -/
def collateLevel : Nat := 11
/-- The level of signs before their operand. -/
def signLevel : Nat := 12

/-- The binary operators that are marks, with their levels. -/
def markOperators : List (String × Nat × BinaryOp) :=
  [("=", 4, .compare .equal), ("==", 4, .compare .equal), ("<>", 4, .compare .unequal),
   ("!=", 4, .compare .unequal), ("<", 5, .compare .less), ("<=", 5, .compare .lessEqual),
   (">", 5, .compare .greater), (">=", 5, .compare .greaterEqual), ("&", 7, .compute .bitAnd),
   ("|", 7, .compute .bitOr), ("<<", 7, .compute .shiftLeft), (">>", 7, .compute .shiftRight),
   ("+", 8, .compute .add), ("-", 8, .compute .subtract), ("*", 9, .compute .multiply),
   ("/", 9, .compute .divide), ("%", 9, .compute .remainder), ("||", 10, .concat),
   ("->", 10, .member), ("->>", 10, .memberValue)]

/-- The functions that the words of matching stand for. -/
def matchWords : List String := ["LIKE", "GLOB", "REGEXP", "MATCH"]

/-- A number with separators, each of which stands between two digits. -/
def ungroup? (cs : List Char) : Option Expr :=
  let isHex := cs.head? == some '0' && cs.tail.head?.any fun c => c == 'x' || c == 'X'
  let isDigit (c : Char) : Bool := if isHex then isHexDigit c else c.isDigit
  let isFramed := (cs.zip (cs.tail.zip cs.tail.tail)).all fun (a, b, c) =>
    b != '_' || (isDigit a && isDigit c)
  let digits := cs.filter fun c => c != '_'
  if !isFramed || cs.getLast? == some '_' then none
  else if isHex then
    some (.hexadecimal ((digits.drop 2).foldl (fun n c => 16 * n + (Text.hexValue c).getD 0) 0))
  else if digits.all Char.isDigit then some (.decimal (Text.natOfDigits digits))
  else some (.value (.real (Double.ofNumeral false digits)))

/-- The expression that a literal token is. -/
def ofLiteral? (t : Token) : Option Expr :=
  match t with
  | .integer digits => some (.decimal (Text.natOfDigits digits))
  | .hexadecimal digits =>
    some (.hexadecimal (digits.foldl (fun n c => 16 * n + (Text.hexValue c).getD 0) 0))
  | .real digits => some (.value (.real (Double.ofNumeral false digits)))
  | .grouped digits => ungroup? digits
  | .text cs => some (.value (.text (String.ofList cs)))
  | .blob digits => (Text.bytesOfHex digits).map fun bytes => .value (.blob bytes)
  | .word _ =>
    match t.keyword with
    | "NULL" => some (.value .null)
    | "CURRENT_DATE" => some (.clock .date)
    | "CURRENT_TIME" => some (.clock .time)
    | "CURRENT_TIMESTAMP" => some (.clock .timestamp)
    | _ => none
  | _ => none

/-- The name that a token is in an expression. -/
def ofName? (t : Token) : Option Expr :=
  match t with
  | .name cs isDouble => some (.name (String.ofList cs) true isDouble)
  | t => t.expressionName?.map fun word => .name word false false

/-- The tokens after a given mark. -/
def afterMark? (symbol : String) : List Token → Option (List Token)
  | t :: rest => if t.isMark symbol then some rest else none
  | [] => none

/-- The tokens after a given word. -/
def afterWord? (word : String) : List Token → Option (List Token)
  | t :: rest => if t.isWord word then some rest else none
  | [] => none

/-- The words of a type, and the tokens after them. -/
def typeWords : List Token → List String × List Token
  | t :: rest =>
    match t.typeName? with
    | some word =>
      let (more, after) := typeWords rest
      (word :: more, after)
    | none => ([], t :: rest)
  | [] => ([], [])

/-- The tokens after a number with an optional sign. -/
def dropSigned? : List Token → Option (List Token)
  | t :: rest =>
    let numbers := if t.isMark "+" || t.isMark "-" then rest else t :: rest
    match numbers with
    | .integer _ :: after => some after
    | .hexadecimal _ :: after => some after
    | .real _ :: after => some after
    | _ => none
  | [] => none

/-- The tokens after a type, which may have one or two numbers in parentheses after its
words. -/
def dropType? (ts : List Token) : Option (List String × List Token) :=
  let (words, after) := typeWords ts
  match afterMark? "(" after with
  | none => some (words, after)
  | some size =>
    if words.isEmpty then some (words, after)
    else do
      let rest ← dropSigned? size
      match afterMark? "," rest with
      | some more => return (words, ← afterMark? ")" (← dropSigned? more))
      | none => return (words, ← afterMark? ")" rest)

/-- An expression that is negated if `isNegated`. -/
def negatedIf (isNegated : Bool) (e : Expr) : Expr :=
  if isNegated then .unary .not e else e

/-- Both of two conditions. What is written as zero settles that, whatever the other is. -/
def conjunction (left right : Expr) : Expr :=
  if left.isZero || right.isZero then .decimal 0 else .binary .and left right

/-- Whether an operand is one of a list. Nothing is one of an empty list, whatever it is. -/
def membership (isNegated : Bool) (operand : Expr) (items : List Expr) : Expr :=
  if items.isEmpty then .decimal (if isNegated then 1 else 0)
  else negatedIf isNegated (.oneOf operand items)

/-- Comparisons of two lists of operands, place by place, with what holds of empty ones. -/
def comparePlaces (op : Comparison) : List (Expr × Expr) → Expr
  | [] => .decimal (if [.equal, .is, .lessEqual, .greaterEqual].contains op then 1 else 0)
  | (a, b) :: rest =>
    let here (op : Comparison) : Expr := .binary (.compare op) a b
    let later := comparePlaces op rest
    match op with
    | .equal | .is => .binary .and (here op) later
    | .unequal | .isNot => .binary .or (here op) later
    | .less | .lessEqual => .binary .or (here .less) (.binary .and (here .equal) later)
    | .greater | .greaterEqual =>
      .binary .or (here .greater) (.binary .and (here .equal) later)

/-- The operator on two operands. Two lists are compared place by place. -/
def combine (op : BinaryOp) (left right : Expr) : Expr :=
  match op, left, right with
  | .compare op, .tuple as, .tuple bs =>
    if as.length = bs.length then comparePlaces op (as.zip bs)
    else .binary (.compare op) left right
  | op, left, right => .binary op left right

mutual

/-- An expression whose operators bind at least as tightly as `level`. -/
def read? : Nat → Nat → List Token → Option (Expr × List Token)
  | 0, _, _ => none
  | steps + 1, level, ts => do
    let (operand, rest) ← readOperand? steps ts
    extend? steps level operand rest

/-- The expression that goes on from a left operand with operators of at least `level`. -/
def extend? : Nat → Nat → Expr → List Token → Option (Expr × List Token)
  | 0, _, _, _ => none
  | _ + 1, _, left, [] => some (left, [])
  | steps + 1, level, left, t :: rest =>
    match t with
    | .mark symbol =>
      match markOperators.lookup (String.ofList symbol) with
      | some (own, op) =>
        if own < level then some (left, t :: rest)
        else do
          let (right, after) ← read? steps (own + 1) rest
          extend? steps level (combine op left right) after
      | none => some (left, t :: rest)
    | _ =>
      match t.keyword with
      | "OR" =>
        if orLevel < level then some (left, t :: rest)
        else do
          let (right, after) ← read? steps (orLevel + 1) rest
          extend? steps level (.binary .or left right) after
      | "AND" =>
        if andLevel < level then some (left, t :: rest)
        else do
          let (right, after) ← read? steps (andLevel + 1) rest
          extend? steps level (conjunction left right) after
      | "COLLATE" =>
        if collateLevel < level then some (left, t :: rest)
        else
          match rest with
          | c :: after => do extend? steps level (.collate left (← c.typeName?)) after
          | [] => none
      | "ISNULL" =>
        if equalLevel < level then some (left, t :: rest)
        else extend? steps level (.unary .isNull left) rest
      | "NOTNULL" =>
        if equalLevel < level then some (left, t :: rest)
        else extend? steps level (.unary .notNull left) rest
      | "IS" =>
        if equalLevel < level then some (left, t :: rest)
        else do
          let (isNot, rest) := match afterWord? "NOT" rest with
            | some rest => (true, rest)
            | none => (false, rest)
          let (isDistinct, rest) := match afterWord? "DISTINCT" rest with
            | some rest => (true, afterWord? "FROM" rest)
            | none => (false, some rest)
          let (right, after) ← read? steps (equalLevel + 1) (← rest)
          let op : Comparison := if isNot == isDistinct then .is else .isNot
          extend? steps level (combine (.compare op) left right) after
      | "NOT" =>
        if equalLevel < level then some (left, t :: rest)
        else
          match afterWord? "NULL" rest with
          | some after => extend? steps level (.unary .notNull left) after
          | none => do
            let (e, after) ← readTest? steps left true rest
            extend? steps level e after
      | word =>
        if (matchWords ++ ["BETWEEN", "IN"]).contains word then
          if equalLevel < level then some (left, t :: rest)
          else do
            let (e, after) ← readTest? steps left false (t :: rest)
            extend? steps level e after
        else some (left, t :: rest)

/-- A test that starts with its word after a left operand: a match, a range, or a list. -/
def readTest? : Nat → Expr → Bool → List Token → Option (Expr × List Token)
  | 0, _, _, _ => none
  | _ + 1, _, _, [] => none
  | steps + 1, left, isNegated, t :: rest =>
    match t.keyword with
    | "BETWEEN" => do
      let (low, after) ← read? steps notLevel rest
      let (high, after) ← read? steps (equalLevel + 1) (← afterWord? "AND" after)
      return (negatedIf isNegated (.between left low high), after)
    | "IN" => do
      let (items, after) ← readList? steps (← afterMark? "(" rest)
      return (membership isNegated left items, after)
    | word =>
      if matchWords.contains word then do
        let (right, after) ← read? steps (equalLevel + 1) rest
        match afterWord? "ESCAPE" after with
        | some more =>
          let (escape, after) ← read? steps (equalLevel + 1) more
          return (negatedIf isNegated (.call word [right, left, escape]), after)
        | none => return (negatedIf isNegated (.call word [right, left]), after)
      else none

/-- An operand: signs, then a literal, a name, a call, a choice, a reading as a type, or what
stands in parentheses. -/
def readOperand? : Nat → List Token → Option (Expr × List Token)
  | 0, _ => none
  | _ + 1, [] => none
  | steps + 1, t :: rest =>
    match ofLiteral? t with
    | some e => some (e, rest)
    | none =>
      match t.keyword with
      | "NOT" => do
        let (e, after) ← read? steps notLevel rest
        return (.unary .not e, after)
      | "RAISE" => none
      | "CASE" => do
        let (operand, after) ←
          if rest.head?.any (Token.isWord "WHEN") then pure (none, rest)
          else (read? steps orLevel rest).map fun (e, after) => (some e, after)
        let (cases, after) ← readCases? steps after
        let (otherwise, after) ← match afterWord? "ELSE" after with
          | some more => (read? steps orLevel more).map fun (e, after) => (some e, after)
          | none => pure (none, after)
        return (.choice operand cases otherwise, ← afterWord? "END" after)
      | "CAST" => do
        let (e, after) ← read? steps orLevel (← afterMark? "(" rest)
        let (words, after) ← dropType? (← afterWord? "AS" after)
        return (.cast e (" ".intercalate words), ← afterMark? ")" after)
      | _ =>
        if t.isMark "-" then do
          let (e, after) ← read? steps signLevel rest
          return (.unary .negate e, after)
        else if t.isMark "+" then do
          let (e, after) ← read? steps signLevel rest
          return (.unary .plus e, after)
        else if t.isMark "~" then do
          let (e, after) ← read? steps signLevel rest
          return (.unary .bitNot e, after)
        else if t.isMark "(" then do
          let (items, after) ← readList? steps rest
          match items with
          | [e] => return (e, after)
          | [] => none
          | items => return (.tuple items, after)
        else do
          let word ← t.anyName?
          match rest with
          | dot :: column :: after =>
            if dot.isMark "." then return (.member word (← column.anyName?), after)
            else readCall? steps t rest
          | rest => readCall? steps t rest

/-- A name, or a call of the function of that name. -/
def readCall? : Nat → Token → List Token → Option (Expr × List Token)
  | 0, _, _ => none
  | steps + 1, t, rest => do
    let word ← t.expressionName?
    match afterMark? "(" rest with
    | none => return (← ofName? t, rest)
    | some args =>
      let args := ((afterWord? "DISTINCT" args).orElse fun _ => afterWord? "ALL" args).getD args
      match args with
      | a :: b :: after =>
        if a.isMark "*" && b.isMark ")" then return (.call word [], after)
        else
          let (items, after) ← readList? steps args
          return (.call word items, after)
      | _ =>
        let (items, after) ← readList? steps args
        return (.call word items, after)

/-- Expressions with commas between them, if any, and a closing parenthesis. -/
def readList? : Nat → List Token → Option (List Expr × List Token)
  | 0, _ => none
  | steps + 1, ts =>
    match afterMark? ")" ts with
    | some after => some ([], after)
    | none => do
      let (e, after) ← read? steps orLevel ts
      match afterMark? "," after with
      | some more =>
        let (items, after) ← readList? steps more
        if items.isEmpty then none else return (e :: items, after)
      | none => return ([e], ← afterMark? ")" after)

/-- The cases of a choice, one at least. -/
def readCases? : Nat → List Token → Option (List (Expr × Expr) × List Token)
  | 0, _ => none
  | steps + 1, ts => do
    let (condition, after) ← read? steps orLevel (← afterWord? "WHEN" ts)
    let (result, after) ← read? steps orLevel (← afterWord? "THEN" after)
    if after.head?.any (Token.isWord "WHEN") then
      let (more, after) ← readCases? steps after
      return ((condition, result) :: more, after)
    else return ([(condition, result)], after)

end

/-- An expression at the front of tokens. -/
def ofTokens? (ts : List Token) : Option (Expr × List Token) :=
  read? (4 * ts.length + 8) orLevel ts

end ProjectHub.Sqlite.Expr

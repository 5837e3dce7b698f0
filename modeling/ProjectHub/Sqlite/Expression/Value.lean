import ProjectHub.Sqlite.Expression.Basic
import ProjectHub.Sqlite.Function
import ProjectHub.Sqlite.JsonText.Function

/-!
# The value of an expression

Expressions are evaluated in a scope that knows the columns of a row. NULL is a
value that is unknown: most operators give it back. Evaluation gives nothing
where the database stops with an error.
-/

namespace ProjectHub.Sqlite

open Decimal (Double)

/-- A column as an expression sees it. -/
structure Field where
  value : Value
  affinity : Affinity
  collation : Collation

/-- What an expression can refer to. -/
structure Scope where
  /-- The column of a name. -/
  column? : String → Option Field := fun _ => none
  /-- Settles the values that are drawn. -/
  seed : Nat := 0
  /-- The milliseconds of the clock since it was set. -/
  moment : Nat := 0
  /-- Whether being a bare truth value means to have that truth. A default takes the truth value
  for a number. -/
  knowsTruth : Bool := true
  /-- Where only the truth of an expression is asked for: what NULL counts as. Parts that cannot
  change the answer are not looked at then. -/
  ifNull : Option Bool := none

namespace Scope

/-- The scope where the value of an expression is asked for. -/
def valued (scope : Scope) : Scope :=
  { scope with ifNull := none }

/-- The scope where only the truth of an expression is asked for. -/
def asking (scope : Scope) (ifNull : Bool) : Scope :=
  { scope with ifNull := some ifNull }

end Scope

namespace Expr

/-! ## What can be evaluated at all -/

/-- Whether an expression can be evaluated where the given names are columns of a table: every
name is one, every function exists, and every number fits. A name in double quotes that is no
column is text. -/
def isSound (table : String) (isColumn : String → Bool) (e : Expr) : Bool :=
  e.all fun
    | .name text isQuoted isDoubleQuoted =>
      isColumn text || isDoubleQuoted ||
        (Expr.name text isQuoted isDoubleQuoted).truthWord?.isSome
    | .member word column => Text.sameAscii word table && isColumn column
    | .call f args => Function.isKnown f args.length
    | .hexadecimal n => n < UInt64.size
    | .unary .negate (.hexadecimal n) => n != 0x8000000000000000
    | _ => true

/-- Whether an expression has the same value whenever it is evaluated. -/
def isSettled (e : Expr) : Bool :=
  e.all fun
    | .call f _ => !Function.isUnsettled f
    | .clock _ => false
    | _ => true

/-! ## How operands are compared -/

mutual

/-- The collation that an expression names, if it names one. -/
def namedCollation? : Expr → Option String
  | .collate _ collation => some collation
  | .unary _ e => e.namedCollation?
  | .binary _ a b => (a.namedCollation?).orElse fun _ => b.namedCollation?
  | .cast e _ => e.namedCollation?
  | .call _ args => namedAmong? args
  | _ => none

/-- The first collation that expressions name. -/
def namedAmong? : List Expr → Option String
  | [] => none
  | e :: rest => (e.namedCollation?).orElse fun _ => namedAmong? rest

end

/-- The column that an expression is, whatever it is read as. -/
def field? (scope : Scope) : Expr → Option Field
  | .name text _ _ => scope.column? text
  | .member _ column => scope.column? column
  | .collate e _ => e.field? scope
  | .unary .plus e => e.field? scope
  | .cast e _ => e.field? scope
  | _ => none

/-- The affinity that an expression gives to what it is compared with. -/
def affinity? (scope : Scope) : Expr → Option Affinity
  | .name text _ _ => (scope.column? text).map Field.affinity
  | .member _ column => (scope.column? column).map Field.affinity
  | .collate e _ => e.affinity? scope
  | .cast _ type => some (Affinity.ofType type)
  | _ => none

/-- The collation by which two operands are compared: the one that the left names, or the
right, or that of a column. A name that is no collation fails. -/
def collationOf? (scope : Scope) (a b : Expr) : Option Collation :=
  match (a.namedCollation?).orElse fun _ => b.namedCollation? with
  | some word => Collation.ofName? word
  | none =>
    let field := (a.field? scope).orElse fun _ => b.field? scope
    some ((field.map Field.collation).getD .binary)

/-- The affinity by which two operands are compared. -/
def commonAffinity (scope : Scope) (a b : Expr) : Affinity :=
  match a.affinity? scope, b.affinity? scope with
  | some a, some b => if a.isNumeric || b.isNumeric then .numeric else .blob
  | some a, none => a
  | none, some b => b
  | none, none => .blob

/-- Two values as a comparison under an affinity sees them. -/
def prepare (affinity : Affinity) (a b : Value) : Value × Value :=
  let isText : Value → Bool
    | .text _ => true
    | _ => false
  if affinity.isNumeric then (Affinity.ofSpelling a, Affinity.ofSpelling b)
  else if affinity = .text && (isText a || isText b) then
    (Affinity.toText a, Affinity.toText b)
  else (a, b)

/-- Whether an order is what a comparison asks for. -/
def holds (op : Comparison) (o : Ordering) : Bool :=
  match op with
  | .equal | .is => o == .eq
  | .unequal | .isNot => o != .eq
  | .less => o == .lt
  | .lessEqual => o != .gt
  | .greater => o == .gt
  | .greaterEqual => o != .lt

/-- The result of a comparison. -/
def compareValues (op : Comparison) (affinity : Affinity) (c : Collation) (a b : Value) : Value :=
  let (a, b) := prepare affinity a b
  let takesNull := op == .is || op == .isNot
  if (a == .null || b == .null) && !takesNull then .null
  else .ofBool (holds op (a.compare c b))

/-! ## Operators -/

/-- A truth value that may be unknown, as a value. -/
def ofTruth : Option Bool → Value
  | some b => .ofBool b
  | none => .null

/-- Both of two truth values. -/
def both : Option Bool → Option Bool → Option Bool
  | some false, _ | _, some false => some false
  | some true, some true => some true
  | _, _ => none

/-- Either of two truth values. -/
def either : Option Bool → Option Bool → Option Bool
  | some true, _ | _, some true => some true
  | some false, some false => some false
  | _, _ => none

/-- A shift to the left by a number of places; a negative one shifts to the right. -/
def shift (n places : Int) : Int :=
  if 64 ≤ places then 0
  else if places ≤ -64 then (if n < 0 then -1 else 0)
  else if 0 ≤ places then wrap64 (n * (Nat.pow 2 places.toNat : Nat))
  else n / (Nat.pow 2 places.natAbs : Nat)

/-- An operation on the bits of two numbers. -/
def onBits (f : Nat → Nat → Nat) (a b : Int) : Int :=
  wrap64 (f (a % 0x10000000000000000).toNat (b % 0x10000000000000000).toNat)

/-- What is left of one number after division by another, of which only the digits before the
point count. -/
def remainder (a b : Value) : Value :=
  if b.toInt = 0 then .null else .real (Double.ofInt (a.toInt.tmod b.toInt))

/-- An operation on two doubles. -/
def onDoubles (op : Arithmetic) (a b : Value) : Value :=
  let x := a.toDouble.toFloat
  let y := b.toDouble.toFloat
  match op with
  | .add => .ofDouble (Double.ofFloat (x + y))
  | .subtract => .ofDouble (Double.ofFloat (x - y))
  | .multiply => .ofDouble (Double.ofFloat (x * y))
  | .divide => if y == 0 then .null else .ofDouble (Double.ofFloat (x / y))
  | _ => remainder a b

/-- An operation on two values as numbers. Whole numbers that leave 64 bits become doubles, and
nothing is divided by zero. -/
def compute (op : Arithmetic) (a b : Value) : Value :=
  if a == .null || b == .null then .null
  else
    match op with
    | .bitAnd => .integer (onBits Nat.land a.toInt b.toInt)
    | .bitOr => .integer (onBits Nat.lor a.toInt b.toInt)
    | .shiftLeft => .integer (shift a.toInt b.toInt)
    | .shiftRight => .integer (shift a.toInt (-b.toInt))
    | op =>
      match a.toNumber, b.toNumber with
      | .integer x, .integer y =>
        let exact (n : Int) : Value :=
          if isInteger64 n then .integer n else onDoubles op (.integer x) (.integer y)
        match op with
        | .add => exact (x + y)
        | .subtract => exact (x - y)
        | .multiply => exact (x * y)
        | .divide => if y = 0 then .null else exact (x.tdiv y)
        | _ => if y = 0 then .null else .integer (x.tmod y)
      | x, y => if op = .remainder then remainder a b else onDoubles op x y

/-- The value read as a type. -/
def castTo (type : String) (v : Value) : Value :=
  if v == .null then .null
  else
    match Affinity.ofType type with
    | .blob => .blob v.bytes
    | .text => .text (v.text?.getD "")
    | .integer => .integer v.toInt
    | .real => .real v.toDouble
    | .numeric =>
      match v with
      | .real d => .real d
      | v => v.toNumber.wholeIfExact

/-- The result of an operator on one value. -/
def applyUnary (op : UnaryOp) (v : Value) : Value :=
  match op with
  | .plus => v
  | .negate => compute .subtract (.integer 0) v
  | .bitNot => if v == .null then .null else .integer (-1 - v.toInt)
  | .not => ofTruth (v.truth?.map not)
  | .isNull => .ofBool (v == .null)
  | .notNull => .ofBool (v != .null)

/-- The result of an operator on two values, comparisons aside. -/
def applyBinary? (op : BinaryOp) (a b : Value) : Option Value :=
  match op with
  | .or => some (ofTruth (either a.truth? b.truth?))
  | .and => some (ofTruth (both a.truth? b.truth?))
  | .compute op => some (compute op a b)
  | .concat =>
    match a.text?, b.text? with
    | some a, some b => some (.text (a ++ b))
    | _, _ => some .null
  | .member => JsonText.arrow? .json a b
  | .memberValue => JsonText.arrow? .ofPart a b
  | .compare _ => none

/-- Whether an expression is written as a whole number other than zero. -/
def isWrittenTrue : Expr → Bool
  | .decimal n | .hexadecimal n => n != 0 && n < 0x80000000
  | _ => false

/-- Whether a list has a value that passes a test, which may be unknown of some. Values after
such a one are not looked at. -/
def anyOf? (test : Value → Option Bool) : List (Option Value) → Option (Option Bool)
  | [] => some (some false)
  | none :: _ => none
  | some v :: rest =>
    if test v = some true then some (some true) else (anyOf? test rest).map (either (test v))

/-- The result of a function whose later arguments count only if earlier ones ask for them. -/
def applyLazily? (name : String) (args : List (Option Value)) : Option (Option Value) :=
  match name, args with
  | "iif", [condition, yes, no] =>
    some (condition.bind fun c => if c.truth? = some true then yes else no)
  | "coalesce", args | "ifnull", args =>
    some (args.foldr (fun v rest => v.bind fun v => if v == .null then rest else some v)
      (some .null))
  | _, _ => none

/-- Whether what an expression gives counts as JSON. -/
def isJson : Expr → Bool
  | .call f _ => JsonText.makers.contains (Text.lowerAscii f)
  | .binary .member _ _ => true
  | _ => false

/-- The scope for a part of an expression, which is drawn for on its own. -/
def seedOf (scope : Scope) (part : Nat) : Scope :=
  { scope with seed := 31 * scope.seed + part + 1, ifNull := none }

mutual

/-- The value of an expression. -/
def eval? (scope : Scope) : Expr → Option Value
  | .value v => some v
  | .decimal n => some (.ofInt n)
  | .hexadecimal n => if n < UInt64.size then some (.integer (wrap64 n)) else none
  | .clock part => some (.text (Clock.partText (Clock.start + scope.moment) part))
  | .name text isQuoted isDoubleQuoted =>
    match scope.column? text with
    | some field => some field.value
    | none =>
      match (Expr.name text isQuoted isDoubleQuoted).truthWord? with
      | some b => some (.ofBool b)
      | none => if isDoubleQuoted then some (.text text) else none
  | .member _ column => (scope.column? column).map Field.value
  | .unary .negate (.decimal n) => some (.ofInt (-n))
  | .unary op e =>
    match scope.ifNull, op with
    | some n, .not => (e.eval? (scope.asking !n)).map fun v => .ofBool !(v.truth?.getD !n)
    | _, op => (e.eval? scope.valued).map (applyUnary op)
  | .binary (.compare op) a b => do
    let left ← a.eval? (seedOf scope 0)
    match (if scope.knowsTruth then b.truthWord? else none), op with
    | some b, .is => return .ofBool (left.truth? = some b)
    | some b, .isNot => return .ofBool (left.truth? ≠ some b)
    | _, _ =>
      let right ← b.eval? (seedOf scope 1)
      return compareValues op (commonAffinity scope a b) (← collationOf? scope a b) left right
  | .binary op a b =>
    match scope.ifNull, op with
    | some n, .and => do
      let left ← a.eval? ((seedOf scope 0).asking n)
      if left.truth?.getD n then b.eval? ((seedOf scope 1).asking n) else return .ofBool false
    | some n, .or =>
      if b.isWrittenTrue then some (.ofBool true)
      else do
        let left ← a.eval? ((seedOf scope 0).asking n)
        if left.truth?.getD n then return .ofBool true else b.eval? ((seedOf scope 1).asking n)
    | _, op => do
      let left ← a.eval? (seedOf scope 0)
      let right ← b.eval? (seedOf scope 1)
      applyBinary? op left right
  | .collate e _ => e.eval? scope.valued
  | .cast e type => (e.eval? scope.valued).map (castTo type)
  | .between e a b => do
    let v ← e.eval? (seedOf scope 0)
    let low ← a.eval? (seedOf scope 1)
    let above := compareValues .greaterEqual (commonAffinity scope e a) (← collationOf? scope e a)
      v low
    if scope.ifNull.any fun n => !above.truth?.getD n then return .ofBool false
    else
      let high ← b.eval? (seedOf scope 2)
      let below := compareValues .lessEqual (commonAffinity scope e b) (← collationOf? scope e b)
        v high
      return ofTruth (both above.truth? below.truth?)
  | .oneOf e items => do
    let v ← e.eval? (seedOf scope 0)
    let values := evalEach scope 1 false items
    let stops := items.length ≤ 2 || !items.all fun item => item.isConstant && item.isSettled
    if !stops && values.contains none then none
    else
      let affinity := (e.affinity? scope).getD .blob
      let c ← collationOf? scope e (.value .null)
      return ofTruth (← anyOf? (fun item => (compareValues .equal affinity c v item).truth?) values)
  | .choice operand cases otherwise => do
    let v ← evalIn? scope operand
    let other := (evalIn? (seedOf scope 0) otherwise).map fun v => v.getD .null
    choose? scope 1 (operand.bind fun e => v.map fun v => (e, v)) other cases
  | .call f args =>
    if !Function.isKnown f args.length then none
    else
      let name := Text.lowerAscii f
      match applyLazily? name (evalEach scope 0 (name == "iif") args) with
      | some result => result
      | none => do
        let values ← evalAll? scope 0 args
        let c ← match (args.findSome? namedCollation?) with
          | some c => Collation.ofName? c
          | none => some (((args.findSome? (field? scope)).map Field.collation).getD .binary)
        if "json".toList.isPrefixOf name.toList then
          JsonText.call? name (values.zip (args.map isJson))
        else Function.call? scope.seed (Clock.start + scope.moment) c name values
  | .tuple _ => none

/-- The values of expressions, all of them or none. -/
def evalAll? (scope : Scope) (part : Nat) : List Expr → Option (List Value)
  | [] => some []
  | e :: rest => do
    let v ← e.eval? (seedOf scope part)
    return v :: (← evalAll? scope (part + 1) rest)

/-- The values of expressions, each for itself; of the first only the truth where that is all
that is asked for. -/
def evalEach (scope : Scope) (part : Nat) (asksFirst : Bool) : List Expr → List (Option Value)
  | [] => []
  | e :: rest =>
    let own := seedOf scope part
    e.eval? (if asksFirst then own.asking false else own) :: evalEach scope (part + 1) false rest

/-- The value of an expression, if there is one. -/
def evalIn? (scope : Scope) : Option Expr → Option (Option Value)
  | none => some none
  | some e => (e.eval? scope).map some

/-- The result of the first case that holds, or equals the operand, or else another one. -/
def choose? (scope : Scope) (part : Nat) (operand : Option (Expr × Value))
    (other : Option Value) : List (Expr × Expr) → Option Value
  | [] => other
  | (condition, result) :: rest => do
    let own := seedOf scope part
    let v ← condition.eval? (if operand.isNone then own.asking false else own)
    let isMet ← match operand with
      | none => some (v.truth? == some true)
      | some (e, w) => do
        let c ← collationOf? scope e condition
        some (compareValues .equal (commonAffinity scope e condition) c w v == .integer 1)
    if isMet then result.eval? (seedOf scope (part + 1))
    else choose? scope (part + 2) operand other rest

end

end Expr

end ProjectHub.Sqlite

import ProjectHub.Sqlite.Clock

/-!
# Expressions

Expressions of SQL as far as columns and constraints can hold them. An
expression is constant when it can be a default: it may call functions, but
names nothing in a row.
-/

namespace ProjectHub.Sqlite

open Decimal (Double)

/-- An operator before or after its operand. -/
inductive UnaryOp where
  | negate
  | plus
  | bitNot
  | not
  | isNull
  | notNull
  deriving DecidableEq

/-- A comparison. -/
inductive Comparison where
  | equal
  | unequal
  | less
  | lessEqual
  | greater
  | greaterEqual
  /-- Equality that takes NULL for a value. -/
  | is
  /-- The opposite of it. -/
  | isNot
  deriving DecidableEq

/-- An operation on numbers. -/
inductive Arithmetic where
  | add
  | subtract
  | multiply
  | divide
  | remainder
  | bitAnd
  | bitOr
  | shiftLeft
  | shiftRight
  deriving DecidableEq

/-- An operator between two operands. -/
inductive BinaryOp where
  | or
  | and
  | compare (op : Comparison)
  | compute (op : Arithmetic)
  | concat
  /-- A part of a JSON text, as JSON. -/
  | member
  /-- A part of a JSON text, as a value. -/
  | memberValue
  deriving DecidableEq

/-- An expression. -/
inductive Expr where
  /-- A value written out: text, a blob, a double, or NULL. -/
  | value (v : Value)
  /-- A whole number in decimal digits, of any size. -/
  | decimal (n : Nat)
  /-- A whole number in hexadecimal digits, of any size. -/
  | hexadecimal (n : Nat)
  /-- The time of the statement. -/
  | clock (part : ClockPart)
  /-- A name; one in double quotes may stand for text. -/
  | name (text : String) (isQuoted isDoubleQuoted : Bool)
  /-- A name with the name of its table. -/
  | member (table column : String)
  | unary (op : UnaryOp) (operand : Expr)
  | binary (op : BinaryOp) (left right : Expr)
  | collate (operand : Expr) (collation : String)
  /-- The operand, read as a type. -/
  | cast (operand : Expr) (type : String)
  /-- Whether the operand lies between two bounds. -/
  | between (operand low high : Expr)
  /-- Whether the operand equals one of a list. -/
  | oneOf (operand : Expr) (items : List Expr)
  /-- The first result whose condition holds, or equals the operand where there is one; the last
  result stands for all other cases. -/
  | choice (operand : Option Expr) (cases : List (Expr × Expr)) (otherwise : Option Expr)
  /-- A call of a function. -/
  | call (function : String) (arguments : List Expr)
  /-- Several values in one. -/
  | tuple (items : List Expr)
  deriving Inhabited

namespace Expr

/-- The truth value that a bare word stands for. -/
def truthWord? : Expr → Option Bool
  | name text false _ =>
    if Text.sameAscii text "TRUE" then some true
    else if Text.sameAscii text "FALSE" then some false
    else none
  | _ => none

mutual

/-- Whether an expression and all expressions in it pass a test. -/
def all (test : Expr → Bool) : Expr → Bool
  | .unary op e => test (.unary op e) && e.all test
  | .binary op a b => test (.binary op a b) && a.all test && b.all test
  | .collate e c => test (.collate e c) && e.all test
  | .cast e type => test (.cast e type) && e.all test
  | .between e a b => test (.between e a b) && e.all test && a.all test && b.all test
  | .oneOf e items => test (.oneOf e items) && e.all test && allOf test items
  | .choice operand cases otherwise =>
    test (.choice operand cases otherwise) && allIn test operand && allCases test cases &&
      allIn test otherwise
  | .call f args => test (.call f args) && allOf test args
  | .tuple items => test (.tuple items) && allOf test items
  | e => test e

/-- Whether all expressions of a list pass a test, with those in them. -/
def allOf (test : Expr → Bool) : List Expr → Bool
  | [] => true
  | e :: rest => e.all test && allOf test rest

/-- Whether all expressions of the cases pass a test, with those in them. -/
def allCases (test : Expr → Bool) : List (Expr × Expr) → Bool
  | [] => true
  | (condition, result) :: rest => condition.all test && result.all test && allCases test rest

/-- Whether an expression passes a test with those in it, if there is one. -/
def allIn (test : Expr → Bool) : Option Expr → Bool
  | none => true
  | some e => e.all test

end

/-- Whether an expression is written as zero. -/
def isZero : Expr → Bool
  | .decimal n | .hexadecimal n => n == 0
  | _ => false

/-- Whether an expression names nothing in a row. -/
def isConstant (e : Expr) : Bool :=
  e.all fun
    | .name text isQuoted isDoubleQuoted =>
      (Expr.name text isQuoted isDoubleQuoted).truthWord?.isSome
    | .member _ _ => false
    | _ => true

/-- Whether an expression names a column. -/
def mentions (column : String) (e : Expr) : Bool :=
  !e.all fun
    | .name text _ _ => !Text.sameAscii text column
    | .member _ text => !Text.sameAscii text column
    | _ => true

/-- The value of a literal: a value written out, a number with any signs, a truth value, or one
of these read as a type. -/
def literal? : Expr → Option Value
  | .value v => some v
  | .decimal n => some (.ofInt n)
  | .hexadecimal n =>
    if n < UInt64.size then some (.integer (wrap64 n)) else none
  | .unary .plus e => e.literal?
  | .unary .negate (.decimal n) => some (.ofInt (-n))
  | .unary .negate e =>
    match e.literal? with
    | some v =>
      match v.toNumber with
      | .integer n => some (.ofInt (-n))
      | .real d => some (.real d.negate)
      | v => some v
    | none => none
  | .cast e type => e.literal?.map (Affinity.ofType type).store
  | .name text isQuoted isDoubleQuoted =>
    (Expr.name text isQuoted isDoubleQuoted).truthWord?.map Value.ofBool
  | _ => none

end Expr

end ProjectHub.Sqlite

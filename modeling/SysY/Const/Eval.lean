import SysY.Const.Value
import SysY.Syntax

/-! # Constant evaluation

The value of an expression that is built from literals and constants. Everything is computed with
32-bit integers that wrap around. Division by zero has no value, and a call has none either. -/

namespace SysY.Const

/-- What a name stands for where a constant is wanted. -/
inductive Binding where
  | unbound
  /-- The name is bound, but not to a constant. -/
  | variable
  | constant (value : Value)
deriving DecidableEq, Repr, Inhabited

/-- The bindings of all names. -/
abbrev Env := String → Binding

/-- The environment that binds no name. -/
def Env.empty : Env := fun _ => .unbound

/-- Truth values are the numbers 1 and 0. -/
def truth (b : Bool) : Int32 := if b then 1 else 0

/-- Apply a binary operator to two numbers. -/
def fold : BinaryOp → Int32 → Int32 → Outcome Int32
  | .add, x, y => return x + y
  | .sub, x, y => return x - y
  | .mul, x, y => return x * y
  | .div, x, y => if y = 0 then .error .notConstant else return x / y
  | .mod, x, y => if y = 0 then .error .notConstant else return x % y
  | .logicalAnd, x, y => return truth (x != 0 && y != 0)
  | .logicalOr, x, y => return truth (x != 0 || y != 0)
  | .eq, x, y => return truth (x == y)
  | .ne, x, y => return truth (x != y)
  | .lt, x, y => return truth (x < y)
  | .le, x, y => return truth (x ≤ y)
  | .gt, x, y => return truth (y < x)
  | .ge, x, y => return truth (y ≤ x)
  | .other _, _, _ => .error .notConstant

/-- Apply a unary operator to a number. -/
def foldUnary : UnaryOp → Int32 → Int32
  | .minus, x => -x
  | .not, x => truth (x == 0)
  | .plus, x | .other _, x => x

/-- The result of a logical operator when its left operand decides it. -/
def decided? : BinaryOp → Int32 → Option Int32
  | .logicalAnd, x => if x = 0 then some 0 else none
  | .logicalOr, x => if x = 0 then none else some 1
  | _, _ => none

/-- The integer at a place whose subscripts `indices` gives. -/
def lookup (env : Env) (p : Expr.Place) (indices : Unit → Outcome (List Int32)) :
    Outcome Int32 := do
  match env p.name with
  | .unbound => .raise (.undefinedIdentifier p.nameSpan p.name)
  | .variable => .error .notConstant
  | .constant v =>
    match ← v.index (← indices ()) with
    | some w => if w.isScalar then w.item else .error .notConstant
    | none => .error .notConstant

mutual

/-- The value of an expression. -/
def eval (env : Env) : Expr → Outcome Int32
  | .lit _ v => return v
  | .group _ inner => eval env inner
  | .ident s name => lookup env ⟨name, s, []⟩ fun _ => return []
  | .index s target idx =>
    let e := Expr.index s target idx
    if e.spineBroken then .outOfRange
    else match e.place? with
      | none => .error .notConstant
      | some p => lookup env p fun _ => do return (← evalIndices env target) ++ [← eval env idx]
  | .call .. => .error .notConstant
  | .unary _ op e => do return foldUnary op (← eval env e)
  | .binary _ op l r => do
    let x ← eval env l
    match decided? op x with
    | some v => return v
    | none => fold op x (← eval env r)
  | .bare _ kind => if kind = 2 ∨ 7 ≤ kind then .error .notConstant else .outOfRange
  | .missing _ => .error .notConstant

/-- The values of the subscripts of a place, in order. -/
def evalIndices (env : Env) : Expr → Outcome (List Int32)
  | .group _ inner => evalIndices env inner
  | .index _ target idx => do return (← evalIndices env target) ++ [← eval env idx]
  | _ => return []

end

end SysY.Const

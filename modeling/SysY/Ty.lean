import SysY.Koopa.Ty

/-! # Source types

The types of declared names: integers, nothing, arrays, and array parameters. -/

namespace SysY

/-- The type of a declared name. Bounds stand outermost first. -/
inductive Ty where
  | int
  | void
  | array (dims : List Int)
  /-- An array parameter `int a[][d₁]…`, which points to elements with the bounds `dims`. -/
  | pointer (dims : List Int)
deriving DecidableEq, Repr, Inhabited

namespace Ty

/-- The array type with the given bounds. Without bounds it is a single integer. -/
def arrayOf (dims : List Int) : Ty := if dims.isEmpty then int else array dims

/-- The name of the kind of a type. -/
def kind : Ty → String
  | int => "int"
  | void => "void"
  | array _ => "array"
  | pointer _ => "pointer"

/-- The bounds of a type. -/
def dims : Ty → List Int
  | array ds | pointer ds => ds
  | int | void => []

/-- Whether values of a type are single numbers. -/
def isScalar (t : Ty) : Bool := t == int

/-- The number of subscripts that lead to an integer. -/
def rank : Ty → Nat
  | array ds => ds.length
  | pointer ds => ds.length + 1
  | int | void => 0

/-- The type after one subscript. -/
def index? : Ty → Option Ty
  | array ds => some (arrayOf ds.tail)
  | pointer ds => some (arrayOf ds)
  | int | void => none

/-- The types after one, two, … subscripts, as many as there can be. -/
def subscripted (t : Ty) : List Ty := go t.rank t
where
  /-- At most `n` subscripts. -/
  go : Nat → Ty → List Ty
    | 0, _ => []
    | n + 1, t => match t.index? with
      | none => []
      | some u => u :: go n u

/-- The type of a value in intermediate code. An array parameter is a pointer to its elements. -/
def toKoopa : Ty → Outcome Koopa.Ty
  | int => return .i32
  | void => return .unit
  | array ds => Koopa.Ty.ofBounds ds
  | pointer ds => do return .pointer (← Koopa.Ty.ofBounds ds)

/-- The type of a value that is passed as an argument: an array is passed as a pointer to its first
element. -/
def decay : Ty → Outcome Koopa.Ty
  | array ds => do return .pointer (← Koopa.Ty.ofBounds ds.tail)
  | t => t.toKoopa

/-- A type as it is shown in messages. -/
def text : Ty → String
  | int => "int"
  | void => "void"
  | array ds => "int" ++ bounds ds
  | pointer ds => "int[]" ++ bounds ds
where
  bounds (ds : List Int) : String := String.join (ds.map fun d => s!"[{d}]")

end Ty
end SysY

import SysY.Const.Eval
import SysY.Koopa.Value
import SysY.Ty

/-! # Symbols

What a name is bound to. -/

namespace SysY

open Source (Span)

/-- What a symbol stands for. -/
inductive Symbol.Meaning where
  /-- A constant. A constant array also has a slot, so that it can be read at run time. -/
  | constant (value : Const.Value) (slot : Option Koopa.ValueId)
  /-- A variable with the slot that holds it. -/
  | variable (slot : Koopa.ValueId)
  /-- A function with its parameter types, and whether its body is known. -/
  | function (fn : Koopa.FnId) (params : List Ty) (defined : Bool)
deriving DecidableEq, Repr, Inhabited

/-- A name, where it was declared, its type and what it stands for. The type of a function is its
return type. -/
structure Symbol where
  name : String
  span : Span
  type : Ty
  meaning : Symbol.Meaning
deriving DecidableEq, Repr, Inhabited

namespace Symbol

/-- The name of the kind of a symbol. -/
def kind (s : Symbol) : String :=
  match s.meaning with
  | .constant .. => "const"
  | .variable _ => "var"
  | .function .. => "func"

/-- Whether a symbol is a function. -/
def isFunction (s : Symbol) : Bool :=
  match s.meaning with
  | .function .. => true
  | _ => false

/-- Whether a symbol is a function whose body is known. -/
def isDefined (s : Symbol) : Bool :=
  match s.meaning with
  | .function _ _ d => d
  | _ => false

/-- The slot of a variable or a constant array. -/
def slot? (s : Symbol) : Option Koopa.ValueId :=
  match s.meaning with
  | .constant _ slot => slot
  | .variable slot => some slot
  | .function .. => none

/-- The function that a symbol stands for. -/
def fn? (s : Symbol) : Option Koopa.FnId :=
  match s.meaning with
  | .function f _ _ => some f
  | _ => none

/-- The parameter types of a function. -/
def params (s : Symbol) : List Ty :=
  match s.meaning with
  | .function _ ps _ => ps
  | _ => []

/-- Whether two symbols are functions with the same return and parameter types. -/
def sameSignature (s t : Symbol) : Bool :=
  s.isFunction && t.isFunction && s.type == t.type && s.params == t.params

/-- What a symbol is where a constant is wanted. -/
def binding (s : Symbol) : Const.Binding :=
  match s.meaning with
  | .constant v _ => .constant v
  | _ => .variable

end Symbol
end SysY

import SysY.Const.Eval
import SysY.Ty

/-! # Types of declarations

The type that a declaration gives to a name. Every array bound is a positive constant. -/

namespace SysY.Ty

/-- The value of an array bound. -/
def bound (env : Const.Env) (e : Expr) : Outcome Int :=
  match e.span? with
  | none => .outOfRange
  | some s =>
    match Const.eval env e with
    | .error .notConstant => .raise (.constantRequired s "array bound")
    | .error f => .error f
    | .ok v =>
      if v ≤ 0 then .raise (.typeMismatch s s!"array bound must be positive, got {v.toInt}")
      else return v.toInt

/-- The type of a defined name. -/
def ofDef (env : Const.Env) (type : BaseType) (d : Def) : Outcome Ty :=
  match type with
  | .void => if d.dims.isEmpty then return void else .raise (.voidVariable d.nameSpan d.name)
  | .int => do return arrayOf (← d.dims.mapM (bound env))

/-- The type of a parameter. -/
def ofParam (env : Const.Env) (p : Param) : Outcome Ty :=
  match p.type with
  | .void => .raise (.voidVariable p.nameSpan p.name)
  | .int => do
    let ds ← p.dims.mapM (bound env)
    return if p.isArray then pointer ds else int

end SysY.Ty

import SysY.Const.Layout
import SysY.Lower.Expr
import SysY.Ty.Resolve

/-! # Lowering declarations

A constant is evaluated while compiling. A constant array and a global variable become global
variables of the program, and a local variable becomes a slot in its function. -/

namespace SysY.Lower

/-- The value of an expression that has to be constant; `what` says why. -/
def constant (env : Const.Env) (what : String) (e : Expr) : Outcome Int32 :=
  match Const.eval env e with
  | .error .notConstant =>
    match e.span? with
    | some s => .raise (.constantRequired s what)
    | none => .outOfRange
  | r => r

/-- The elements of a constant initializer in row-major order. -/
def constantInit (env : Const.Env) (what : String) (ty : Ty) (init : Init) :
    Outcome (List Int32) :=
  if ty.isScalar then
    match init with
    | .missing _ => .outOfRange
    | .list s _ => .raise (.typeMismatch s "brace list initializing a scalar")
    | .expr _ e => do return [← constant env what e]
  else Const.flatten 0 (constant env what) ty.dims init

/-- The type and the value of a constant definition. -/
def constantDef (env : Const.Env) (d : Def) : Outcome (Ty × Const.Value) := do
  let ty ← Ty.ofDef env .int d
  match d.init with
  | none => .raise (.initializerRequired d.nameSpan d.name)
  | some init =>
    let data ← constantInit env "constant initializer" ty init
    return (ty, { dims := ty.dims, data := data })

/-! ## Global variables -/

/-- Make `n` values one after the other. -/
def makeMany (f : Nat → Lower Koopa.ValueId) : (n i : Nat) → Lower (List Koopa.ValueId)
  | 0, _ => return []
  | n + 1, i => do
    let v ← f i
    return v :: (← makeMany f n (i + 1))

/-- Make a global value. -/
def makeGlobal (f : Koopa.Program → Outcome (Koopa.ValueId × Koopa.Program)) :
    Lower Koopa.ValueId := tryMake fun p _ => f p

/-- A global constant with the given bounds and elements. -/
def aggregate : List Int → List Int32 → Lower Koopa.ValueId
  | [], data =>
    match data.head? with
    | some n => makeGlobal fun p => return p.integer none n
    | none => throw (.fault none)
  | d :: ds, data => do
    let stride := data.length / d.toNat
    let elems ← makeMany (fun i => aggregate ds ((data.drop (i * stride)).take stride)) d.toNat 0
    makeGlobal (·.aggregate none elems)

/-- A global variable that starts with the given elements. When all are zero they are not written
out. -/
def globalVariable (name : String) (ty : Ty) (data : List Int32) : Lower Koopa.ValueId := do
  let init ←
    if data.all (· == 0) then do
      let t ← lift ty.toKoopa
      makeGlobal fun p => return p.zeroInit none t
    else aggregate ty.dims data
  let v ← makeGlobal (·.globalAlloc init)
  setProgram (← lift ((← get).program.setGlobalName v ("@" ++ name)))
  return v

/-- The symbol of a constant definition. A constant array is also a global variable. -/
def constantSymbol (d : Def) (ty : Ty) (value : Const.Value) : Lower Symbol := do
  let slot ← if ty.isScalar then pure none else some <$> globalVariable d.name ty value.data
  return { name := d.name, span := d.nameSpan, type := ty, meaning := .constant value slot }

/-- Lower a global definition. Its initializer is constant, whether the definition is or not. -/
def globalDef (isConst : Bool) (d : Def) : Lower Symbol := do
  let env := (← get).symbols.globalEnv
  if isConst then
    let (ty, value) ← lift (constantDef env d)
    constantSymbol d ty value
  else
    let ty ← lift (Ty.ofDef env .int d)
    let size := Const.count ty.dims
    if size < 0 ∨ Const.Layout.maxCount < size then throw (.fault none)
    let data ← match d.init with
      | none => pure []
      | some init => lift (constantInit env "global initializer" ty init)
    let slot ← globalVariable d.name ty data
    return { name := d.name, span := d.nameSpan, type := ty, meaning := .variable slot }

/-- Refuse a declaration of variables without a type. -/
def refuseVoid (d : Decl) : Lower Unit :=
  match d.defs with
  | [] => throw (.fault none)
  | first :: _ => raise (.voidVariable first.nameSpan first.name)

/-- Lower global definitions in order. -/
def globalDefs (isConst : Bool) : List Def → Lower Unit
  | [] => return ()
  | d :: ds => do
    let sym ← globalDef isConst d
    let s ← get
    let (a, t) := s.symbols.define sym
    match a.accepted, a.existing with
    | false, some old => raise (.redefinition d.nameSpan d.name old.span)
    | _, _ => set { s with symbols := t }
    globalDefs isConst ds

/-- Lower a global declaration. -/
def globalDecl (d : Decl) : Lower Unit :=
  match d.type with
  | .void => refuseVoid d
  | .int => globalDefs d.isConst d.defs

/-! ## Local variables -/

/-- The address of element number `index` of an array, of which `count` elements are left. -/
def elementPtr (base : Koopa.ValueId) (count index : Int) : List Int → Lower Koopa.ValueId
  | [] => return base
  | d :: ds => do
    let stride := count.tdiv d
    if stride = 0 then throw (.fault none)
    let i ← integer (index.tdiv stride).toInt32
    let ptr ← tryEmitNew (·.getElemPtr · base i)
    elementPtr ptr stride (index.tmod stride) ds

/-- Store the elements of an array from number `index` on. Missing elements are zero. -/
def storeElements (slot : Koopa.ValueId) (dims : List Int) (index : Nat) :
    List (Option Koopa.ValueId) → Lower Unit
  | [] => return ()
  | e :: es => do
    let v ← match e with
      | some v => pure v
      | none => integer 0
    let ptr ← elementPtr slot (Const.count dims) index dims
    let _ ← tryEmitNew (·.store · v ptr)
    storeElements slot dims (index + 1) es

/-- Store an initializer in a slot. All elements of an array are written. -/
def storeInit (slot : Koopa.ValueId) (ty : Ty) (init : Init) : Lower Unit := do
  if ty.isScalar then
    match init with
    | .missing _ => throw (.fault none)
    | .list s _ => raise (.typeMismatch s "brace list initializing a scalar")
    | .expr _ e =>
      let v ← expr e
      let _ ← tryEmitNew (·.store · v slot)
  else
    let elems ← Const.flatten none (fun e => some <$> expr e) ty.dims init
    storeElements slot ty.dims 0 elems

/-- Give a name to a value that the current function can see. -/
def setName (v : Koopa.ValueId) (name : String) : Lower Unit := do
  let s ← get
  setProgram (← lift (s.program.setName s.frame.fn v name))

/-- Lower the definition of a local constant. -/
def localConstant (d : Def) : Lower Unit := do
  let (ty, value) ← lift (constantDef (← env) d)
  declare (← constantSymbol d ty value)

/-- Lower the definition of a local variable. The name is bound after its initializer. -/
def localVariable (d : Def) : Lower Unit := do
  let ty ← lift (Ty.ofDef (← env) .int d)
  let t ← lift ty.toKoopa
  let slot ← emitNew (·.alloc · t)
  setName slot ("@" ++ d.name)
  match d.init with
  | none => pure ()
  | some init => storeInit slot ty init
  declare { name := d.name, span := d.nameSpan, type := ty, meaning := .variable slot }

/-- Lower a local declaration. -/
def localDecl (d : Decl) : Lower Unit :=
  match d.type with
  | .void => refuseVoid d
  | .int => d.defs.forM (if d.isConst then localConstant else localVariable)

end SysY.Lower

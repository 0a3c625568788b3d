import SysY.Lower.State

/-! # Lowering expressions

An expression that is constant becomes an integer and needs no instruction. Any other expression
becomes the instructions that compute it, operands from left to right. -/

namespace SysY.Lower

open Source (Span)

/-- The instruction for an operator. Logical operators have none. -/
def opOf? : BinaryOp → Option Koopa.Op
  | .add => some .add
  | .sub => some .sub
  | .mul => some .mul
  | .div => some .div
  | .mod => some .mod
  | .eq => some .eq
  | .ne => some .ne
  | .lt => some .lt
  | .le => some .le
  | .gt => some .gt
  | .ge => some .ge
  | .logicalAnd | .logicalOr | .other _ => none

/-! ## Places -/

/-- A place that is being addressed: its symbol, the address reached so far, and the type found
there. A constant integer has no address. -/
structure Place where
  symbol : Symbol
  addr : Option Koopa.ValueId
  type : Ty
  /-- The whole expression. -/
  span : Span

/-- Look up a variable or constant. -/
def findObject (name : String) (span : Span) : Lower Symbol := do
  match (← get).symbols.find? name with
  | none => raise (.undefinedIdentifier span name)
  | some s =>
    if s.isFunction then raise (.typeMismatch span s!"function '{name}' used as a variable")
    else return s

/-- Read an expression as a place. `reason` says what is wrong if it is none. -/
def asPlace (e : Expr) (reason : String) : Lower (Span × Expr.Place) := do
  if e.spineBroken then throw (.fault none)
  match e.span?, e.place? with
  | none, _ => throw (.fault none)
  | some s, none => raise (.typeMismatch s reason)
  | some s, some p => return (s, p)

/-- The place that an expression names, before any subscript. -/
def startPlace (e : Expr) : Lower Place := do
  let (span, p) ← asPlace e "expression is not an lvalue"
  let s ← findObject p.name p.nameSpan
  match s.meaning with
  | .constant v slot =>
    if v.isScalar then
      if p.indices.isEmpty then return ⟨s, none, s.type, span⟩
      else raise (.typeMismatch span "subscripted value is not an array")
    else return ⟨s, slot, s.type, span⟩
  | _ => return ⟨s, s.slot?, s.type, span⟩

/-- The address of a place that has one. -/
def Place.address (p : Place) : Lower Koopa.ValueId := return p.addr.getD 0

/-- Apply a subscript, which `lowered` computes. -/
def subscript (p : Place) (idx : Expr) (lowered : Lower Koopa.ValueId) : Lower Place := do
  match p.type with
  | .pointer ds =>
    let addr ← p.address
    let base ← tryEmitNew (·.load · addr)
    let i ← lowered
    let addr ← tryEmitNew (·.getPtr · base i)
    return { p with addr := some addr, type := .arrayOf ds }
  | .array ds =>
    let base ← p.address
    let i ← lowered
    let addr ← tryEmitNew (·.getElemPtr · base i)
    return { p with addr := some addr, type := .arrayOf ds.tail }
  | _ =>
    match idx.span? with
    | none => throw (.fault none)
    | some s => raise (.typeMismatch s "subscripted value is not an array")

/-- Read the integer at a place. -/
def Place.read (p : Place) : Lower Koopa.ValueId := do
  match p.addr with
  | none =>
    match p.symbol.meaning with
    | .constant v _ => integer (← lift v.item)
    | _ => throw (.fault none)
  | some addr =>
    if p.type.isScalar then tryEmitNew (·.load · addr)
    else raise (.typeMismatch p.span s!"array '{p.symbol.name}' used as a value")

/-! ## Calls -/

/-- Pass an array to a parameter of type `want`. `walk` applies the subscripts. -/
def arrayArg (e : Expr) (want : Ty) (walk : Place → Lower Place) : Lower Koopa.ValueId := do
  let expected := s!"expected an array of type {want.text}"
  let (span, _) ← asPlace e expected
  let p ← walk (← startPlace e)
  match p.addr, p.type with
  | none, _ | _, .int => raise (.typeMismatch span s!"{expected}, got int")
  | some addr, t =>
    if (← lift t.decay) ≠ (← lift want.toKoopa) then
      raise (.typeMismatch span s!"{expected}, got {t.text}")
    match t with
    | .pointer _ => tryEmitNew (·.load · addr)
    | .array _ => do
      let nought ← integer 0
      tryEmitNew (·.getElemPtr · addr nought)
    | _ => raise (.internal span s!"array argument of kind {t.kind}")

/-- Call a function. `lowerArgs` computes the arguments for the given parameter types. -/
def callFn (span : Span) (name : String) (nameSpan : Span) (argCount : Nat)
    (lowerArgs : List Ty → Lower (List Koopa.ValueId)) : Lower (Koopa.ValueId × Symbol) := do
  match (← get).symbols.find? name with
  | none => raise (.undefinedIdentifier nameSpan name)
  | some s =>
    match s.meaning with
    | .function fn params _ =>
      if argCount ≠ params.length then
        raise (.typeMismatch span s!"'{name}' expects {params.length} arguments, got {argCount}")
      let args ← lowerArgs params
      return (← tryEmitNew (·.call · fn args), s)
    | _ => raise (.typeMismatch nameSpan s!"'{name}' is not a function")

/-! ## Operators -/

/-- Compute a unary operator. -/
def applyUnary (op : UnaryOp) (x : Koopa.ValueId) : Lower Koopa.ValueId := do
  match op with
  | .minus =>
    let nought ← integer 0
    emitNew (·.binary · .sub nought x)
  | .not =>
    let nought ← integer 0
    emitNew (·.binary · .eq x nought)
  | .plus | .other _ => return x

/-- Compute `a || b` or `a && b` in a fresh slot. The slot starts with the result that `a` can
decide, and `b` is computed, in a block of its own, only when `a` does not decide it:

    %r = alloc i32
    store 1, %r            // 0 for &&
    %c = eq a, 0           // ne for &&
    br %c, %rhs, %join
    %rhs:
      store (ne b, 0), %r
      jump %join
    %join:
      load %r
-/
def shortCircuit (isOr : Bool) (left right : Lower Koopa.ValueId) : Lower Koopa.ValueId := do
  let slot ← emitNew (·.alloc · .i32)
  let short ← integer (if isOr then 1 else 0)
  let _ ← tryEmitNew (·.store · short slot)
  let a ← left
  let nought ← integer 0
  let cond ← emitNew (·.binary · (if isOr then .eq else .ne) a nought)
  let rhs ← newBlock
  let join ← newBlock
  sealTo (← make (·.branch · cond rhs join)) rhs
  let b ← right
  let nought ← integer 0
  let norm ← emitNew (·.binary · .ne b nought)
  let _ ← tryEmitNew (·.store · norm slot)
  sealTo (← make (·.jump · join)) join
  tryEmitNew (·.load · slot)

/-- Compute any other binary operator. -/
def applyBinary (span : Span) (op : BinaryOp) (left right : Lower Koopa.ValueId) :
    Lower Koopa.ValueId := do
  let a ← left
  let b ← right
  match opOf? op with
  | some op => emitNew (·.binary · op a b)
  | none => raise (.internal span s!"no IR operator for {op.spelling}")

/-! ## Expressions -/

/-- The integer that a constant expression is; `run` computes any other expression. -/
def foldOr (e : Expr) (run : Unit → Lower Koopa.ValueId) : Lower Koopa.ValueId := do
  match Const.eval (← env) e with
  | .ok v => integer v
  | .error .notConstant => run ()
  | .error f => throw f

mutual

/-- Compute an expression. -/
def expr : Expr → Lower Koopa.ValueId
  | .lit s v => foldOr (.lit s v) fun _ => integer v
  | .group s inner => foldOr (.group s inner) fun _ => expr inner
  | .ident s name => foldOr (.ident s name) fun _ => do (← startPlace (.ident s name)).read
  | .index s target idx => foldOr (.index s target idx) fun _ => do
    let p ← walk target (← startPlace (.index s target idx))
    (← subscript p idx (expr idx)).read
  | .unary s op e => foldOr (.unary s op e) fun _ => do applyUnary op (← expr e)
  | .binary s op l r => foldOr (.binary s op l r) fun _ =>
    if op.isShortCircuit then shortCircuit (op == .logicalOr) (expr l) (expr r)
    else applyBinary s op (expr l) (expr r)
  | .call s name ns as => foldOr (.call s name ns as) fun _ => do
    let (v, f) ← callFn s name ns as.length (args as)
    if f.type = .void then
      raise (.typeMismatch s s!"void function '{f.name}' used as a value")
    return v
  | .bare s kind => foldOr (.bare s kind) fun _ =>
    if Expr.lacksContents kind then throw (.fault none)
    else raise (.internal s s!"unexpected expression kind {kind}")
  | .missing id => foldOr (.missing id) fun _ => do
    raise (.internal (← get).frame.span s!"unknown expression {id}")

/-- Apply the subscripts of a place in order. -/
def walk : Expr → Place → Lower Place
  | .group _ inner, p => walk inner p
  | .index _ target idx, p => do subscript (← walk target p) idx (expr idx)
  | _, p => return p

/-- Compute arguments for parameters of the given types. -/
def args : List Expr → List Ty → Lower (List Koopa.ValueId)
  | e :: es, t :: ts => do
    let v ← match t with
      | .pointer _ => arrayArg e t (walk e)
      | _ => expr e
    return v :: (← args es ts)
  | _, _ => return []

end

/-- Compute an expression for its effect. Only here a function may return nothing. -/
def effect (e : Expr) : Lower Unit := do
  match e.stripGroups with
  | .call s name ns as =>
    let _ ← callFn s name ns as.length (args as)
  | _ =>
    let _ ← expr e

end SysY.Lower

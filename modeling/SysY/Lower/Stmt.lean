import SysY.Lower.Decl

/-! # Lowering statements

Statements after a jump or a return are unreachable: they are checked like all others, and their
instructions are dropped. -/

namespace SysY.Lower

open Source (Span)

/-- Assign to a variable or an element of an array. -/
def assign (target value : Expr) : Lower Unit := do
  let (_, named) ← asPlace target "expression is not assignable"
  let s ← findObject named.name named.nameSpan
  match s.meaning with
  | .constant .. => raise (.illegalAssignment named.nameSpan named.name)
  | _ => pure ()
  let p ← walk target (← startPlace target)
  if !p.type.isScalar then
    raise (.typeMismatch p.span s!"cannot assign to array '{named.name}'")
  let v ← expr value
  let addr ← p.address
  let _ ← tryEmitNew (·.store · v addr)

/-- The name of the current function in the source. -/
def currentName : Lower String := do
  let s ← get
  return ((← lift (s.program.fn s.frame.fn)).name.drop 1).toString

/-- Return from the function. A function that returns an integer returns 0 when no value is
given. -/
def ret (span : Span) (value : Option Expr) : Lower Unit := do
  let isVoid := (← get).frame.ret == .void
  let v ← match value, isVoid with
    | some _, true =>
      raise (.typeMismatch span s!"void function '{← currentName}' returns a value")
    | some e, false => some <$> expr e
    | none, true => pure none
    | none, false => some <$> integer 0
  sealOff (← make (·.ret · v))

/-- Jump out of, or back to the start of, the innermost loop. -/
def leaveLoop (span : Span) (keyword : String) (target : LoopTargets → Koopa.BlockId) :
    Lower Unit := do
  match (← get).frame.loops with
  | [] => raise (.invalidControlTransfer span keyword)
  | t :: _ => jump (target t)

/-- Lower one arm of a conditional in its block, and jump to `join` if the arm falls off its end.
Tells whether it does. -/
def arm (reachable : Bool) (block join : Koopa.BlockId) (body : Lower Unit) : Lower Bool := do
  if reachable then switchTo block
  body
  if ← isOpen then
    jump join
    return true
  else return false

/-- Lower a conditional. The join is reachable through an arm that falls off its end, or without an
`else` when the condition fails. -/
def conditional (cond : Expr) (thenArm : Lower Unit) (elseArm : Option (Lower Unit)) :
    Lower Unit := do
  let reachable ← isOpen
  let c ← expr cond
  let thenBlock ← newBlock
  match elseArm with
  | none =>
    let join ← newBlock
    sealOff (← make (·.branch · c thenBlock join))
    let joined ← arm reachable thenBlock join thenArm
    if reachable || joined then switchTo join
  | some other =>
    let elseBlock ← newBlock
    let join ← newBlock
    sealOff (← make (·.branch · c thenBlock elseBlock))
    let joined₁ ← arm reachable thenBlock join thenArm
    let joined₂ ← arm reachable elseBlock join other
    if joined₁ || joined₂ then switchTo join

/-- Lower a loop: a block for the condition, one for the body, and one for what follows. -/
def loop (cond : Expr) (body : Lower Unit) : Lower Unit := do
  let reachable ← isOpen
  let condBlock ← newBlock
  let bodyBlock ← newBlock
  let done ← newBlock
  sealTo (← make (·.jump · condBlock)) condBlock
  let c ← expr cond
  sealOff (← make (·.branch · c bodyBlock done))
  if reachable then switchTo bodyBlock
  inLoop ⟨condBlock, done⟩ body
  if ← isOpen then jump condBlock
  if reachable then switchTo done

mutual

/-- Lower a statement. -/
def stmt : Stmt → Lower Unit
  | .block _ ss => inScope .block (stmts ss)
  | .decl _ none => throw (.fault none)
  | .decl _ (some d) => localDecl d
  | .assign _ target value => assign target value
  | .expr _ none => return ()
  | .expr _ (some e) => effect e
  | .ifThen _ cond thenArm none => conditional cond (stmt thenArm) none
  | .ifThen _ cond thenArm (some elseArm) => conditional cond (stmt thenArm) (some (stmt elseArm))
  | .while _ cond body => loop cond (stmt body)
  | .break s => leaveLoop s "break" (·.breakTo)
  | .continue s => leaveLoop s "continue" (·.continueTo)
  | .return s value => ret s value
  | .bare s kind =>
    if Stmt.lacksContents kind then throw (.fault none)
    else raise (.internal s s!"unexpected statement kind {kind}")
  | .missing id => do raise (.internal (← get).frame.span s!"unknown statement {id}")

/-- Lower statements in order. -/
def stmts : List Stmt → Lower Unit
  | [] => return ()
  | s :: ss => do
    stmt s
    stmts ss

end

end SysY.Lower

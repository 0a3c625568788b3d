import SysY.Koopa.Program
import SysY.Symbol.Table

/-! # The state of lowering

Lowering walks over a syntax tree and builds a program. Its state is the program so far, the symbols
that are visible, and the function that is being built with its current block. An error keeps the
state, and scopes and loops are closed on the way out. -/

namespace SysY

open Source (Span)

/-- Where `continue` and `break` jump to inside a loop. -/
structure LoopTargets where
  continueTo : Koopa.BlockId
  breakTo : Koopa.BlockId
deriving DecidableEq, Repr, Inhabited

/-- The function that is being built. -/
structure Frame where
  fn : Koopa.FnId := 0
  /-- The return type. -/
  ret : Ty := .int
  /-- The name of the function in the source. -/
  span : Span := {}
  /-- The current block; it counts only while it is open. -/
  block : Koopa.BlockId := 0
  /-- Whether the current block takes instructions. If not, the code is unreachable. -/
  isOpen : Bool := false
  /-- The number of the next block. -/
  nextBlock : Nat := 0
  /-- The loops around the current statement, innermost first. -/
  loops : List LoopTargets := []
deriving Repr, Inhabited

namespace Frame

/-- Continue in a block that some branch reaches. -/
def switchTo (f : Frame) (b : Koopa.BlockId) : Frame := { f with block := b, isOpen := true }

/-- Enter a loop. -/
def pushLoop (f : Frame) (t : LoopTargets) : Frame := { f with loops := t :: f.loops }

/-- Leave the loop that was entered as number `depth`, which has to be the innermost one. -/
def popLoop (f : Frame) (depth : Nat) : Outcome Frame :=
  if f.loops.length = depth then return { f with loops := f.loops.tail }
  else .refuse s!"irgen: unbalanced loop stack, depth {f.loops.length} want {depth}"

end Frame

/-- The state of lowering. -/
structure Lower.State where
  program : Koopa.Program := {}
  symbols : SymbolTable := {}
  frame : Frame := {}
  /-- The functions whose bodies were lowered, and whether that succeeded. -/
  bodies : List (String × Bool) := []
deriving Inhabited

/-- Lowering either yields a result or fails, and leaves a state in both cases. -/
abbrev Lower := EStateM Failure Lower.State

namespace Lower

/-- Fail with a diagnostic. -/
def raise {α : Type} (e : Diag.Error) : Lower α := throw (.error e)

/-- Take over the result of an operation that can fail. -/
def lift {α : Type} : Outcome α → Lower α
  | .ok a => return a
  | .error f => throw f

/-- What names stand for where a constant is wanted. -/
def env : Lower Const.Env := return (← get).symbols.env

/-- Change the function that is being built. -/
def modifyFrame (f : Frame → Frame) : Lower Unit := modify fun s => { s with frame := f s.frame }

/-- Replace the program. -/
def setProgram (p : Koopa.Program) : Lower Unit := modify fun s => { s with program := p }

/-- Make a value of the current function. -/
def make (f : Koopa.Program → Koopa.FnId → Koopa.ValueId × Koopa.Program) :
    Lower Koopa.ValueId := do
  let s ← get
  let (v, p) := f s.program s.frame.fn
  setProgram p
  return v

/-- Make a value of the current function, which can fail. -/
def tryMake (f : Koopa.Program → Koopa.FnId → Outcome (Koopa.ValueId × Koopa.Program)) :
    Lower Koopa.ValueId := do
  let s ← get
  let (v, p) ← lift (f s.program s.frame.fn)
  setProgram p
  return v

/-- An integer constant of the current function. -/
def integer (n : Int32) : Lower Koopa.ValueId := make fun p f => p.integer (some f) n

/-- Append an instruction to the current block. Unreachable code is dropped. -/
def emit (v : Koopa.ValueId) : Lower Unit := do
  let s ← get
  if s.frame.isOpen then
    let f ← lift (s.program.fn s.frame.fn)
    match f.insts? s.frame.block with
    | none => throw (.fault none)
    | some _ =>
      match f.pushInst s.frame.block v with
      | .ok f => setProgram (s.program.setFn s.frame.fn f)
      | .error t => do
        let b ← lift (s.program.block s.frame.fn s.frame.block)
        raise (.internal s.frame.span s!"push instruction into {b.name}: {t}")

/-- Make an instruction and append it to the current block. -/
def emitNew (f : Koopa.Program → Koopa.FnId → Koopa.ValueId × Koopa.Program) :
    Lower Koopa.ValueId := do
  let v ← make f
  emit v
  return v

/-- Make an instruction, which can fail, and append it to the current block. -/
def tryEmitNew (f : Koopa.Program → Koopa.FnId → Outcome (Koopa.ValueId × Koopa.Program)) :
    Lower Koopa.ValueId := do
  let v ← tryMake f
  emit v
  return v

/-- Make the next block of the current function and lay it out. -/
def newBlock : Lower Koopa.BlockId := do
  let s ← get
  let name := s!"%bb{s.frame.nextBlock}"
  let (b, p) := s.program.newBlock s.frame.fn name
  set { s with program := p, frame := { s.frame with nextBlock := s.frame.nextBlock + 1 } }
  let f ← lift (p.fn s.frame.fn)
  match f.pushBlock b with
  | .ok f => setProgram (p.setFn s.frame.fn f)
  | .error t => raise (.internal s.frame.span s!"push block {name}: {t}")
  return b

/-- Whether the current code is reachable. -/
def isOpen : Lower Bool := return (← get).frame.isOpen

/-- Continue in a block that some branch reaches. -/
def switchTo (b : Koopa.BlockId) : Lower Unit := modifyFrame (·.switchTo b)

/-- End the current block with a terminator and continue in `next`. After unreachable code `next` is
unreachable as well. -/
def sealTo (term : Koopa.ValueId) (next : Koopa.BlockId) : Lower Unit := do
  let reachable ← isOpen
  emit term
  modifyFrame ({ · with block := next, isOpen := reachable })

/-- End the current block with a terminator. What follows is unreachable. -/
def sealOff (term : Koopa.ValueId) : Lower Unit := do
  emit term
  modifyFrame ({ · with block := 0, isOpen := false })

/-- Jump to a block. -/
def jump (target : Koopa.BlockId) : Lower Unit := do sealOff (← make (·.jump · target))

/-- Run `body`, and then `after` on the state it leaves, whether it succeeded or not. -/
def andFinally {α : Type} (body : Lower α) (after : State → Outcome State) : Lower α := fun s =>
  match body s with
  | .ok a s' =>
    match after s' with
    | .ok s'' => .ok a s''
    | .error f => .error f s'
  | .error e s' =>
    match after s' with
    | .ok s'' => .error e s''
    | .error f => .error f s'

/-- Run `body` in a scope of its own. -/
def inScope {α : Type} (kind : ScopeKind) (body : Lower α) : Lower α := do
  modify fun s => { s with symbols := s.symbols.push kind }
  let depth := (← get).symbols.depth
  andFinally body fun s => do return { s with symbols := ← s.symbols.leave depth }

/-- Run `body` inside a loop. -/
def inLoop {α : Type} (targets : LoopTargets) (body : Lower α) : Lower α := do
  modifyFrame (·.pushLoop targets)
  let depth := (← get).frame.loops.length
  andFinally body fun s => do return { s with frame := ← s.frame.popLoop depth }

/-- Bind a symbol in the innermost scope, in which its name must be new. -/
def declare (sym : Symbol) : Lower Unit := do
  let s ← get
  let (a, t) := s.symbols.insert sym
  match a.existing with
  | some old => if !a.accepted then raise (.redefinition sym.span sym.name old.span)
  | none => pure ()
  set { s with symbols := t }

end Lower
end SysY

import SysY.Koopa.Value

/-! # Koopa programs

A program holds all values and blocks, and for each function the order in which its blocks and
their instructions are laid out. Making a value does not place it in a block. -/

namespace SysY.Koopa

/-- A function. One without blocks is a declaration. -/
structure Fn where
  /-- The name with its `@`. -/
  name : String
  paramTys : List Ty
  ret : Ty
  params : List ValueId
  /-- The blocks in order, each with its instructions in order. -/
  layout : List (BlockId × List ValueId) := []
deriving Repr, Inhabited

namespace Fn

/-- The type of a function. -/
def ty (f : Fn) : Ty := .func f.paramTys f.ret

/-- Whether a function has no body. -/
def isDecl (f : Fn) : Bool := f.layout.isEmpty

/-- The blocks in order. -/
def blocks (f : Fn) : List BlockId := f.layout.map (·.1)

/-- The instructions of a block, if the block is laid out. -/
def insts? (f : Fn) (b : BlockId) : Option (List ValueId) := f.layout.lookup b

/-- Append a block to the layout. -/
def pushBlock (f : Fn) (b : BlockId) : Except String Fn :=
  if (f.insts? b).isSome then .error s!"ir: duplicate key: block {b}"
  else return { f with layout := f.layout ++ [(b, [])] }

/-- Append an instruction to a block that is laid out. -/
def pushInst (f : Fn) (b : BlockId) (v : ValueId) : Except String Fn :=
  if ((f.insts? b).getD []).contains v then .error s!"ir: duplicate key: value {v}"
  else
    return { f with
      layout := f.layout.map fun (c, is) => if c = b then (c, is ++ [v]) else (c, is) }

end Fn

/-- A program. -/
structure Program where
  values : Array Value := #[]
  blocks : Array Block := #[]
  fns : Array Fn := #[]
deriving Inhabited

namespace Program

/-- The entry with a number; numbers count from 1. -/
def numbered? {α : Type} (table : Array α) (id : Nat) : Option α :=
  if id = 0 then none else table[id - 1]?

/-! ## Looking up -/

/-- The value with a number, whatever it belongs to. -/
def value? (p : Program) (v : ValueId) : Option Value := numbered? p.values v

/-- The function with a number. -/
def fn (p : Program) (f : FnId) : Outcome Fn :=
  match numbered? p.fns f with
  | some d => return d
  | none => .refuse s!"ir: unknown function {f}"

/-- The numbers of all functions in the order in which they were made. -/
def fnIds (p : Program) : List FnId := (List.range p.fns.size).map (· + 1)

/-- The first function with a name. -/
def findFn? (p : Program) (name : String) : Option FnId :=
  (p.fns.toList.findIdx? (·.name == name)).map (· + 1)

/-- A value that belongs to no function. -/
def global? (p : Program) (v : ValueId) : Option Value :=
  (p.value? v).filter (·.home.isNone)

/-- A value that belongs to a function. -/
def local? (p : Program) (f : FnId) (v : ValueId) : Option Value :=
  (p.value? v).filter (·.home == some f)

/-- A global value, which has to exist. -/
def global (p : Program) (v : ValueId) : Outcome Value :=
  match p.global? v with
  | some d => return d
  | none => .refuse s!"ir: unknown global value {v}"

/-- A value that a function can see: one of its own, or a global one. -/
def value (p : Program) (f : FnId) (v : ValueId) : Outcome Value :=
  match (p.local? f v).or (p.global? v) with
  | some d => return d
  | none => .refuse s!"ir: unknown value {v}"

/-- A block of a function. -/
def block? (p : Program) (f : FnId) (b : BlockId) : Option Block :=
  (numbered? p.blocks b).filter (·.home == f)

/-- A block of a function, which has to exist. -/
def block (p : Program) (f : FnId) (b : BlockId) : Outcome Block :=
  match p.block? f b with
  | some d => return d
  | none => .refuse s!"ir: unknown basic block {b}"

/-- Whether a value is a global variable. -/
def isGlobalVariable (d : Value) : Bool :=
  match d.home, d.defn with
  | none, .globalAlloc _ => true
  | _, _ => false

/-- The global variables in the order in which they were made. -/
def globals (p : Program) : List ValueId :=
  ((List.range p.values.size).map (· + 1)).filter fun v => (p.value? v).any isGlobalVariable

/-! ## Changing -/

/-- Add a value. -/
def insert (p : Program) (d : Value) : ValueId × Program :=
  (p.values.size + 1, { p with values := p.values.push d })

/-- Replace what is known of a function. -/
def setFn (p : Program) (f : FnId) (d : Fn) : Program :=
  { p with fns := p.fns.setIfInBounds (f - 1) d }

/-- Name a value that exists. -/
def rename (p : Program) (v : ValueId) (name : String) : Program :=
  { p with values := p.values.modify (v - 1) ({ · with name := name }) }

/-- Name a value that a function can see. -/
def setName (p : Program) (f : FnId) (v : ValueId) (name : String) : Outcome Program := do
  let _ ← p.value f v
  return p.rename v name

/-- Name a global value. -/
def setGlobalName (p : Program) (v : ValueId) (name : String) : Outcome Program := do
  let _ ← p.global v
  return p.rename v name

/-- Make a block of a function. It is not laid out yet. -/
def newBlock (p : Program) (f : FnId) (name : String) : BlockId × Program :=
  (p.blocks.size + 1, { p with blocks := p.blocks.push { home := f, name := name } })

/-- Add the parameters of a function, named as far as the names go. -/
def insertParams (p : Program) (f : FnId) (index : Nat) :
    List Ty → List String → List ValueId × Program
  | [], _ => ([], p)
  | t :: ts, names =>
    let (v, p) := p.insert
      { home := some f, ty := t, defn := .arg index, name := names.head?.getD "" }
    let (vs, p) := p.insertParams f (index + 1) ts names.tail
    (v :: vs, p)

/-- Make a function. -/
def newFn (p : Program) (name : String) (ty : Ty) (paramNames : List String) :
    Outcome (FnId × Program) :=
  match ty with
  | .func ps r =>
    let f := p.fns.size + 1
    let (params, p) := p.insertParams f 0 ps paramNames
    let d : Fn := { name := name, paramTys := ps, ret := r, params := params }
    return (f, { p with fns := p.fns.push d })
  | t => .refuse s!"ir: NewFunc {name}: {t.text} is not a function type"

/-! ## Making values

A value belongs to a function, or to none if it is global. -/

/-- The value that `home` can see. -/
def visible (p : Program) (home : Option FnId) (v : ValueId) : Outcome Value :=
  match home with
  | some f => p.value f v
  | none => p.global v

/-- A number. -/
def integer (p : Program) (home : Option FnId) (n : Int32) : ValueId × Program :=
  p.insert { home := home, ty := .i32, defn := .integer n }

/-- All zeros, as a value of a type. -/
def zeroInit (p : Program) (home : Option FnId) (ty : Ty) : ValueId × Program :=
  p.insert { home := home, ty := ty, defn := .zeroInit }

/-- A value of a type that is left open. -/
def undef (p : Program) (home : Option FnId) (ty : Ty) : ValueId × Program :=
  p.insert { home := home, ty := ty, defn := .undef }

/-- Check that all elements have the type of the first one. -/
def checkElems (p : Program) (home : Option FnId) (ty : Ty) : List ValueId → Outcome Unit
  | [] => return ()
  | v :: vs => do
    let d ← p.visible home v
    if d.ty = ty then p.checkElems home ty vs
    else .refuse s!"ir: aggregate mixes {ty.text} and {d.ty.text}"

/-- An array from its elements, which share one type. -/
def aggregate (p : Program) (home : Option FnId) (elems : List ValueId) :
    Outcome (ValueId × Program) :=
  match elems with
  | [] => .refuse "ir: empty aggregate"
  | v :: vs => do
    let ty := (← p.visible home v).ty
    p.checkElems home ty vs
    return p.insert
      { home := home, ty := .array ty elems.length, defn := .aggregate elems }

/-- A global variable that starts with the given value. -/
def globalAlloc (p : Program) (init : ValueId) : Outcome (ValueId × Program) := do
  let d ← p.global init
  return p.insert { home := none, ty := .pointer d.ty, defn := .globalAlloc init }

/-- Make an instruction of a function. -/
def inst (p : Program) (f : FnId) (ty : Ty) (d : ValueDef) : ValueId × Program :=
  p.insert { home := some f, ty := ty, defn := d }

/-- Room for a value on the stack. -/
def alloc (p : Program) (f : FnId) (ty : Ty) : ValueId × Program := p.inst f (.pointer ty) .alloc

/-- Read through a pointer. -/
def load (p : Program) (f : FnId) (src : ValueId) : Outcome (ValueId × Program) := do
  match (← p.value f src).ty with
  | .pointer t => return p.inst f t (.load src)
  | t => .refuse s!"ir: load from non-pointer {t.text}"

/-- Write through a pointer. -/
def store (p : Program) (f : FnId) (value dest : ValueId) : Outcome (ValueId × Program) := do
  match (← p.value f dest).ty with
  | .pointer _ => return p.inst f .unit (.store value dest)
  | t => .refuse s!"ir: store to non-pointer {t.text}"

/-- Move a pointer on by a number of elements. -/
def getPtr (p : Program) (f : FnId) (src index : ValueId) : Outcome (ValueId × Program) := do
  match (← p.value f src).ty with
  | .pointer t => return p.inst f (.pointer t) (.getPtr src index)
  | t => .refuse s!"ir: getptr on non-pointer {t.text}"

/-- From a pointer to an array to a pointer to one of its elements. -/
def getElemPtr (p : Program) (f : FnId) (src index : ValueId) : Outcome (ValueId × Program) := do
  match (← p.value f src).ty with
  | .pointer (.array t _) => return p.inst f (.pointer t) (.getElemPtr src index)
  | t => .refuse s!"ir: getelemptr on {t.text}"

/-- The result of an operator. -/
def binary (p : Program) (f : FnId) (op : Op) (left right : ValueId) : ValueId × Program :=
  p.inst f .i32 (.binary op left right)

/-- Go on at one of two blocks. -/
def branch (p : Program) (f : FnId) (cond : ValueId) (ifTrue ifFalse : BlockId) :
    ValueId × Program :=
  p.inst f .unit (.branch cond ifTrue ifFalse)

/-- Go on at a block. -/
def jump (p : Program) (f : FnId) (target : BlockId) : ValueId × Program :=
  p.inst f .unit (.jump target)

/-- Call a function that exists. -/
def call (p : Program) (f : FnId) (callee : FnId) (args : List ValueId) :
    Outcome (ValueId × Program) := do
  return p.inst f (← p.fn callee).ret (.call callee args)

/-- Return from a function. -/
def ret (p : Program) (f : FnId) (value : Option ValueId) : ValueId × Program :=
  p.inst f .unit (.ret value)

/-! ## Missing returns -/

/-- Close a block that does not end with a terminator: return 0, or nothing from a function that
returns nothing. -/
def closeBlock (p : Program) (f : FnId) (b : BlockId) : Outcome Program := do
  let d ← p.fn f
  let terminated ← match ((d.insts? b).getD []).getLast? with
    | none => pure false
    | some v => do pure (← p.value f v).defn.isTerminator
  if terminated then return p
  let (value, p) := if d.ret = .unit then (none, p) else
    let (z, p) := p.integer (some f) 0
    (some z, p)
  let (r, p) := p.ret f value
  match d.pushInst b r with
  | .ok d => return p.setFn f d
  | .error t => .raise (.internal {} s!"function {d.name}: {t}")

/-- Close all blocks of all functions. -/
def closeBlocks (p : Program) : Outcome Program :=
  p.fnIds.foldlM (fun p f => do
    (← p.fn f).blocks.foldlM (fun p b => p.closeBlock f b) p) p

end Program
end SysY.Koopa

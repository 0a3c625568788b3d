import SysY.Koopa.Program

/-! # Koopa text

The text form of a program: global variables, then functions, each in the order in which they were
made. Every name is made unique, and unnamed results are numbered. -/

namespace SysY.Koopa

/-- Names that are not taken. -/
def freshFrom (used : List String) (candidate : Nat → String) : (fuel i : Nat) → Nat
  | 0, i => i
  | fuel + 1, i => if used.contains (candidate i) then freshFrom used candidate fuel (i + 1) else i

/-- `name`, or when it is taken the first of `name_1`, `name_2`, … that is not. -/
def uniqueName (used : List String) (name : String) : String :=
  let candidate := fun i => if i = 0 then name else s!"{name}_{i}"
  candidate (freshFrom used candidate used.length 0)

/-- The names given to values and blocks, and all names that are taken. -/
structure Naming where
  used : List String := []
  values : List (ValueId × String) := []
  blocks : List (BlockId × String) := []

namespace Naming

/-- Name a value, or name it after `fallback` when there is no wanted name. -/
def nameValue (n : Naming) (v : ValueId) (wanted fallback : String) : Naming :=
  let name := uniqueName n.used (if wanted = "" then fallback else wanted)
  { n with used := name :: n.used, values := (v, name) :: n.values }

/-- Name a block, or name it after `fallback` when there is no wanted name. -/
def nameBlock (n : Naming) (b : BlockId) (wanted fallback : String) : Naming :=
  let name := uniqueName n.used (if wanted = "" then fallback else wanted)
  { n with used := name :: n.used, blocks := (b, name) :: n.blocks }

end Naming

namespace Program

/-- The names of functions and global variables. -/
def globalNaming (p : Program) : Naming :=
  p.globals.foldl
    (fun n g => n.nameValue g (((p.global? g).map (·.name)).getD "") "@g")
    { used := p.fns.toList.map (·.name) }

/-- A value that has to exist. -/
def known {α : Type} : Option α → Outcome α
  | some a => return a
  | none => .outOfRange

/-- A constant as text. Aggregates are nested at most `fuel` deep. -/
def constText (lookup : ValueId → Outcome Value) : (fuel : Nat) → Value → Outcome String
  | 0, _ => return "?"
  | fuel + 1, d =>
    match d.defn with
    | .integer n => return toString n.toInt
    | .zeroInit => return "zeroinit"
    | .undef => return "undef"
    | .aggregate elems => do
      let parts ← elems.mapM fun v => do constText lookup fuel (← lookup v)
      return "\x7b" ++ String.intercalate ", " parts ++ "\x7d"
    | _ => return "?"

/-- The line of a global variable. -/
def globalText (p : Program) (names : Naming) (g : ValueId) : Outcome String := do
  let d ← known (p.global? g)
  match d.ty, d.defn with
  | .pointer t, .globalAlloc init =>
    let text ← constText (fun v => known (p.global? v)) (p.values.size + 1)
      (← known (p.global? init))
    return s!"global {(names.values.lookup g).getD default} = alloc {t.text}, {text}"
  | _, _ => .outOfRange

/-- Name the parameters of a function. -/
def nameParams (p : Program) (f : FnId) (n : Naming) (index : Nat) : List ValueId → Outcome Naming
  | [] => return n
  | v :: vs => do
    let d ← known (p.local? f v)
    nameParams p f (n.nameValue v d.name s!"%arg{index}") (index + 1) vs

/-- Name the blocks of a function. -/
def nameBlocks (p : Program) (f : FnId) (n : Naming) (index : Nat) : List BlockId → Outcome Naming
  | [] => return n
  | b :: bs => do
    let d ← known (p.block? f b)
    nameBlocks p f (n.nameBlock b d.name s!"%bb_{index}") (index + 1) bs

/-- Name the instructions that have a result. Those without a wanted name are numbered; `next` is
the first number that may be free. -/
def nameInsts (p : Program) (f : FnId) (n : Naming) (next : Nat) : List ValueId → Outcome Naming
  | [] => return n
  | v :: vs => do
    let d ← known (p.local? f v)
    if d.ty = .unit then nameInsts p f n next vs
    else if d.name ≠ "" then nameInsts p f (n.nameValue v d.name "") next vs
    else
      let number := freshFrom n.used (fun i => s!"%{i}") n.used.length next
      nameInsts p f (n.nameValue v s!"%{number}" "") (number + 1) vs

/-- The names of the parameters of a function. -/
def paramNaming (p : Program) (f : FnId) (d : Fn) : Outcome Naming :=
  p.nameParams f { used := p.globalNaming.used } 0 d.params

/-- All names inside a function. -/
def fnNaming (p : Program) (f : FnId) (d : Fn) : Outcome Naming := do
  let n ← p.nameBlocks f (← p.paramNaming f d) 0 d.blocks
  p.nameInsts f n 0 (d.layout.flatMap (·.2))

/-- An operand as text: its name, or its value if it is a constant. -/
def operandText (p : Program) (f : FnId) (globals names : Naming) (v : ValueId) :
    Outcome String := do
  match (names.values.lookup v).or (globals.values.lookup v) with
  | some name => return name
  | none =>
    let d ← p.value f v
    if d.defn.isConst then constText (p.value f) (p.values.size + 1) d
    else return s!"?{v}"

/-- An instruction as text. -/
def instText (p : Program) (f : FnId) (globals names : Naming) (v : ValueId) :
    Outcome String := do
  let d ← known (p.local? f v)
  let operand := p.operandText f globals names
  let label (b : BlockId) : String := (names.blocks.lookup b).getD ""
  let body ← match d.defn with
    | .alloc => match d.ty with
      | .pointer t => pure s!"alloc {t.text}"
      | _ => .outOfRange
    | .load src => do pure s!"load {← operand src}"
    | .store value dest => do pure s!"store {← operand value}, {← operand dest}"
    | .getPtr src index => do pure s!"getptr {← operand src}, {← operand index}"
    | .getElemPtr src index => do pure s!"getelemptr {← operand src}, {← operand index}"
    | .binary op l r => do pure s!"{op.name} {← operand l}, {← operand r}"
    | .branch c t e => do pure s!"br {← operand c}, {label t}, {label e}"
    | .jump t => pure s!"jump {label t}"
    | .call callee args => do
      let args ← args.mapM operand
      let name := (← p.fn callee).name
      pure (s!"call {name}(" ++ String.intercalate ", " args ++ ")")
    | .ret none => pure "ret"
    | .ret (some r) => do pure s!"ret {← operand r}"
    | _ => pure "?"
  return match names.values.lookup v with
    | some name => s!"{name} = {body}"
    | none => body

/-- The lines of a function. -/
def fnLines (p : Program) (globals : Naming) (f : FnId) (d : Fn) : Outcome (List String) := do
  let ret := if d.ret = .unit then "" else s!": {d.ret.text}"
  if d.isDecl then
    return [s!"decl {d.name}(" ++ String.intercalate ", " (d.paramTys.map (·.text)) ++ ")" ++ ret]
  let given ← p.paramNaming f d
  let params ← d.params.mapM fun v => do
    return s!"{(given.values.lookup v).getD default}: {(← known (p.local? f v)).ty.text}"
  let names ← p.fnNaming f d
  let head := s!"fun {d.name}(" ++ String.intercalate ", " params ++ ")" ++ ret ++ " \x7b"
  let body ← d.layout.mapM fun (b, is) => do
    let lines ← is.mapM fun v => do return "  " ++ (← p.instText f globals names v)
    return ((names.blocks.lookup b).getD "" ++ ":") :: lines
  return head :: body.flatten ++ ["\x7d"]

/-- The lines of all functions. An empty line stands between functions, and before the first one if
there are global variables. -/
def fnsLines (p : Program) (globals : Naming) : Outcome (List String) := do
  let groups ← p.fnIds.mapM fun f => do p.fnLines globals f (← p.fn f)
  let separate := if p.globals.isEmpty then [] else [""]
  return match groups with
    | [] => []
    | g :: gs => separate ++ g ++ (gs.map ("" :: ·)).flatten

/-- A program as text. -/
def text (p : Program) : Outcome String := do
  let names := p.globalNaming
  let lines := (← p.globals.mapM (p.globalText names)) ++ (← p.fnsLines names)
  return String.join (lines.map (· ++ "\n"))

end Program
end SysY.Koopa

import SysY.Koopa.Program
import SysY.Text.Quoted

/-! # Well-formed programs

The structure that every finished program has: blocks end with their only terminator, operands
and targets exist, and what is returned has the return type. -/

namespace SysY.Koopa

/-- What can be wrong in a block. -/
inductive Issue where
  | emptyBlock
  | alreadyPlaced (v : ValueId) (block : String)
  | notDefinedHere (v : ValueId)
  | notAnInstruction (v : ValueId)
  | earlyTerminator
  | unterminated
  | undefinedOperand (v : ValueId)
  | targetNotLaidOut (b : BlockId)
  | bareReturn (ret : Ty)
  | returnWithValue
  | returnOf (got ret : Ty)
deriving DecidableEq, Repr

/-- The issue in words. -/
def Issue.message : Issue → String
  | emptyBlock => "empty block"
  | alreadyPlaced v block => s!"value {v} already placed in {block}"
  | notDefinedHere v => s!"instruction {v} is not defined in this function"
  | notAnInstruction v => s!"value {v} is not an instruction"
  | earlyTerminator => "terminator before end of block"
  | unterminated => "unterminated block"
  | undefinedOperand v => s!"operand {v} is undefined"
  | targetNotLaidOut b => s!"branch target {b} is not in the layout"
  | bareReturn ret => s!"bare ret in function returning {ret.text}"
  | returnWithValue => "ret with value in function returning unit"
  | returnOf got ret => s!"ret of {got.text} in function returning {ret.text}"

namespace Program

/-- What is wrong with a return instruction. -/
def returnIssue? (p : Program) (f : FnId) (d : Fn) (value : Option ValueId) :
    Outcome (Option Issue) :=
  match value with
  | none => return if d.ret = .unit then none else some (.bareReturn d.ret)
  | some v =>
    if d.ret = .unit then return some .returnWithValue
    else do
      let got := (← p.value f v).ty
      return if got = d.ret then none else some (.returnOf got d.ret)

/-- What is wrong with an instruction, apart from where it is placed. -/
def instIssues (p : Program) (f : FnId) (d : Fn) (v : ValueId) (last : Bool) :
    Outcome (List Issue) := do
  match p.local? f v with
  | none => return [.notDefinedHere v]
  | some x =>
    let kind := if x.defn.isInstruction then [] else [.notAnInstruction v]
    let early := if x.defn.isTerminator && !last then [.earlyTerminator] else []
    let late := if last && !x.defn.isTerminator then [.unterminated] else []
    let operands := (x.defn.operands.filter fun o =>
      (p.local? f o).isNone && (p.global? o).isNone).map Issue.undefinedOperand
    let targets := (x.defn.targets.filter fun b => (d.insts? b).isNone).map Issue.targetNotLaidOut
    let ret ← match x.defn with
      | .ret value => do pure (← p.returnIssue? f d value).toList
      | _ => pure []
    return kind ++ early ++ late ++ operands ++ targets ++ ret

/-- What is wrong with the instructions of a block. `placed` says in which block each value was
placed before; the result says so too. -/
def instsIssues (p : Program) (f : FnId) (d : Fn) (b : BlockId) :
    List (ValueId × BlockId) → List ValueId → Outcome (List Issue × List (ValueId × BlockId))
  | placed, [] => return ([], placed)
  | placed, v :: vs => do
    let twice ← match placed.lookup v with
      | none => pure []
      | some c => do pure [Issue.alreadyPlaced v (← p.block f c).name]
    let here ← p.instIssues f d v vs.isEmpty
    let (later, placed) ← instsIssues p f d b ((v, b) :: placed) vs
    return (twice ++ here ++ later, placed)

/-- What is wrong with the blocks of a function, each issue with the name of its block. -/
def blocksIssues (p : Program) (f : FnId) (d : Fn) :
    List (ValueId × BlockId) → List (BlockId × List ValueId) → Outcome (List (String × Issue))
  | _, [] => return []
  | placed, (b, is) :: rest => do
    let name := (← p.block f b).name
    let (here, placed) ←
      if is.isEmpty then pure ([.emptyBlock], placed) else p.instsIssues f d b placed is
    return here.map (name, ·) ++ (← blocksIssues p f d placed rest)

/-- What is wrong with a function. -/
def fnIssues (p : Program) (f : FnId) (d : Fn) : Outcome (List (String × Issue)) :=
  p.blocksIssues f d [] d.layout

/-- What is wrong with a program: the issues of each function that has some. -/
def issues (p : Program) : Outcome (List (String × List (String × Issue))) := do
  let all ← p.fnIds.mapM fun f => do
    let d ← p.fn f
    return (d.name, ← p.fnIssues f d)
  return all.filter (!·.2.isEmpty)

/-- All that is wrong with a program in words, or none. -/
def validate (p : Program) : Outcome (Option String) := do
  let all ← p.issues
  if all.isEmpty then return none
  return some <| String.intercalate "\n" <| all.map fun (name, is) =>
    s!"function {name}: " ++
      String.intercalate "\n" (is.map fun (block, i) => s!"{block}: {i.message}")

/-- The functions whose name an earlier function has. -/
def repeatedNames : (seen : List String) → List String → List String
  | _, [] => []
  | seen, n :: ns =>
    if seen.contains n then n :: repeatedNames seen ns else repeatedNames (n :: seen) ns

/-- The global variables without a proper name. -/
def unnamedGlobals (p : Program) : List (ValueId × String) :=
  p.globals.filterMap fun g =>
    let name := ((p.global? g).map (·.name)).getD ""
    if name.startsWith "@" then none else some (g, name)

/-- Like `validate`, and when nothing is wrong also check that names of functions are different and
that global variables have names. -/
def check (p : Program) : Outcome (Option String) := do
  if let some t ← p.validate then return some t
  let texts := (repeatedNames [] (p.fns.toList.map (·.name))).map (s!"function {·} defined twice") ++
    p.unnamedGlobals.map fun (g, name) => s!"global {g} has name " ++ Text.quoted name
  return if texts.isEmpty then none else some (String.intercalate "\n" texts)

end Program
end SysY.Koopa

import Mathlib.Logic.Relation
import Mathlib.Logic.Function.Basic
import SysY.Proofs.Koopa.Growth
import SysY.Proofs.Meaning.Memory

/-! # Running programs

A machine that executes the instructions of a program one by one. Each function call has registers
of its own, one for every instruction, and memory is shared. Room that was allocated stays
allocated. -/

namespace SysY.Koopa

/-- The number of cells that a value of a type takes in memory. -/
def Ty.cells : Ty → Nat
  | .i32 | .pointer _ => 1
  | .array e n => n * cells e
  | .unit | .func .. => 0

/-- What a register or a cell holds. -/
inductive Val where
  | int (n : Int32)
  | ptr (object : Nat) (offset : Int)
deriving DecidableEq, Repr

namespace Val

def int? : Val → Option Int32
  | int n => some n
  | ptr .. => none

def ptr? : Val → Option (Nat × Int)
  | ptr o i => some (o, i)
  | int _ => none

end Val

/-- Apply a binary instruction. -/
def Op.eval : Op → Int32 → Int32 → Option Int32
  | .ne, x, y => some (if x != y then 1 else 0)
  | .eq, x, y => some (if x == y then 1 else 0)
  | .gt, x, y => some (if y < x then 1 else 0)
  | .lt, x, y => some (if x < y then 1 else 0)
  | .ge, x, y => some (if y ≤ x then 1 else 0)
  | .le, x, y => some (if x ≤ y then 1 else 0)
  | .add, x, y => some (x + y)
  | .sub, x, y => some (x - y)
  | .mul, x, y => some (x * y)
  | .div, x, y => if y = 0 then none else some (x / y)
  | .mod, x, y => if y = 0 then none else some (x % y)
  | .and, x, y => some (x &&& y)
  | .or, x, y => some (x ||| y)
  | .xor, x, y => some (x ^^^ y)
  | .shl, x, y => some (x <<< y)
  | .shr, x, y => some (x.toUInt32 >>> y.toUInt32).toInt32
  | .sar, x, y => some (x >>> y)
  | .other, _, _ => none

/-- A function call: the function, the instructions that are left in the current block, and the
registers. -/
structure Activation where
  fn : FnId
  rest : List ValueId
  regs : ValueId → Option Val

/-- Write a register. -/
def Activation.set (a : Activation) (v : ValueId) (x : Val) : Activation :=
  { a with regs := Function.update a.regs v (some x) }

/-- The name of a function without its `@`. -/
def Fn.symbol (d : Fn) : String := String.ofList d.name.toList.tail

/-- The registers at the start of a function. -/
def Fn.enter (d : Fn) (args : List Val) (v : ValueId) : Option Val := (d.params.zip args).lookup v

/-- A moment of running a program. The functions that wait for the current one stand innermost
first, each with the register that takes the result. -/
inductive Config (W : Type) where
  | run (here : Activation) (callers : List (ValueId × Activation)) (memory : Memory Val) (world : W)
  | done (result : Option Val) (memory : Memory Val) (world : W)

/-- Return to the caller. -/
def Config.finish {W : Type} : List (ValueId × Activation) → Option Val → Memory Val → W → Config W
  | [], r, m, w => .done r m w
  | (_, a) :: callers, none, m, w => .run a callers m w
  | (v, a) :: callers, some r, m, w => .run (a.set v r) callers m w

/-- Read through an argument that is a pointer. -/
def readVal (args : List Val) (m : Memory Val) (a : Nat) (i : Int) : Option Int32 := do
  let (o, j) ← (← args[a]?).ptr?
  (← m.read o (j + i)).int?

/-- Write through an argument that is a pointer. -/
def writeVal (args : List Val) (m : Memory Val) (a : Nat) (i : Int) (v : Int32) :
    Option (Memory Val) := do
  let (o, j) ← (← args[a]?).ptr?
  m.write o (j + i) (.int v)

namespace Program

variable (p : Program)

/-- What a value is. -/
def defn? (v : ValueId) : Option ValueDef := (p.value? v).map (·.defn)

/-- The object of a global variable. The global variables are the first objects in memory. -/
def place (g : ValueId) : Nat := p.globals.idxOf g

/-- The value of an operand. -/
def operand (regs : ValueId → Option Val) (v : ValueId) : Option Val :=
  match p.defn? v with
  | some (.integer n) => some (.int n)
  | some (.globalAlloc _) => some (.ptr (p.place v) 0)
  | _ => regs v

/-- The length of the array that a value points to. -/
def length? (v : ValueId) : Option Nat :=
  match p.value? v with
  | some ⟨_, .pointer (.array _ n), _, _⟩ => some n
  | _ => none

/-- What a global variable with the given initializer holds at first. -/
def payload : Ty → ValueId → Option (List Int32)
  | .array e n, v =>
    match p.defn? v with
    | some (.aggregate elems) => (elems.mapM (payload e)).map List.flatten
    | some .zeroInit => some (List.replicate (Ty.array e n).cells 0)
    | _ => none
  | t, v =>
    match p.defn? v with
    | some (.integer n) => some [n]
    | some .zeroInit => some (List.replicate t.cells 0)
    | _ => none

theorem payload_array (e : Ty) (n : Nat) (v : ValueId) : p.payload (.array e n) v =
    match p.defn? v with
    | some (.aggregate elems) => (elems.mapM (p.payload e)).map List.flatten
    | some .zeroInit => some (List.replicate (Ty.array e n).cells 0)
    | _ => none := rfl

theorem payload_single {t : Ty} (single : ∀ e n, t ≠ .array e n) (v : ValueId) : p.payload t v =
    match p.defn? v with
    | some (.integer n) => some [n]
    | some .zeroInit => some (List.replicate t.cells 0)
    | _ => none := by
  cases t with
  | array e n => exact absurd rfl (single e n)
  | i32 | unit | pointer _ | func _ _ => rfl

/-- Go on at the start of a block. -/
def goto (a : Activation) (b : BlockId) : Option Activation := do
  let d ← p.fn? a.fn
  return { a with rest := ← d.insts? b }

variable {W : Type} (ext : External W)

/-- Call a function. -/
def enter (callee : FnId) (args : List Val) (v : ValueId) (a : Activation)
    (callers : List (ValueId × Activation)) (m : Memory Val) (w : W) : Option (Config W) := do
  let d ← p.fn? callee
  match d.layout with
  | [] =>
    let r ← ext w d.symbol (args.map Val.int?)
    let (w, n, m) ← r.run (readVal args) (writeVal args) m
    return .run (if d.ret = .unit then a else a.set v (.int n)) callers m w
  | (_, is) :: _ => return .run ⟨callee, is, d.enter args⟩ ((v, a) :: callers) m w

/-- Execute instruction `v`, which is `x`. -/
def exec (v : ValueId) (x : Value) (a : Activation) (callers : List (ValueId × Activation))
    (m : Memory Val) (w : W) : Option (Config W) :=
  match x.defn with
  | .alloc =>
    match x.ty with
    | .pointer t =>
      some (.run (a.set v (.ptr m.length 0)) callers (m ++ [List.replicate t.cells none]) w)
    | _ => none
  | .load src => do
    let (o, i) ← (← p.operand a.regs src).ptr?
    return .run (a.set v (← m.read o i)) callers m w
  | .store value dest => do
    let (o, i) ← (← p.operand a.regs dest).ptr?
    return .run a callers (← m.write o i (← p.operand a.regs value)) w
  | .getPtr src index =>
    match x.ty with
    | .pointer t => do
      let (o, i) ← (← p.operand a.regs src).ptr?
      let n ← (← p.operand a.regs index).int?
      return .run (a.set v (.ptr o (i + n.toInt * t.cells))) callers m w
    | _ => none
  | .getElemPtr src index =>
    match x.ty with
    | .pointer t => do
      let (o, i) ← (← p.operand a.regs src).ptr?
      let n ← (← p.operand a.regs index).int?
      let length ← p.length? src
      if 0 ≤ n.toInt ∧ n.toInt < length then
        return .run (a.set v (.ptr o (i + n.toInt * t.cells))) callers m w
      else none
    | _ => none
  | .binary op left right => do
    let l ← (← p.operand a.regs left).int?
    let r ← (← p.operand a.regs right).int?
    return .run (a.set v (.int (← op.eval l r))) callers m w
  | .branch cond ifTrue ifFalse => do
    let n ← (← p.operand a.regs cond).int?
    return .run (← p.goto a (if n != 0 then ifTrue else ifFalse)) callers m w
  | .jump target => do return .run (← p.goto a target) callers m w
  | .call callee args => do p.enter ext callee (← args.mapM (p.operand a.regs)) v a callers m w
  | .ret none => some (.finish callers none m w)
  | .ret (some value) => do return .finish callers (some (← p.operand a.regs value)) m w
  | _ => none

/-- One step of the machine. -/
def step : Config W → Option (Config W)
  | .run ⟨_, [], _⟩ _ _ _ => none
  | .run ⟨f, v :: rest, regs⟩ callers m w => do
    p.exec ext v (← p.value? v) ⟨f, rest, regs⟩ callers m w
  | .done .. => none

/-- Any number of steps of the machine. -/
def Steps : Config W → Config W → Prop := Relation.ReflTransGen fun c c' => p.step ext c = some c'

/-- Any number of steps of the machine, each from a moment at which `P` holds. -/
def StepsIf (P : Config W → Prop) : Config W → Config W → Prop :=
  Relation.ReflTransGen fun c c' => P c ∧ p.step ext c = some c'

end Program

/-- An instruction is no call, and it does not store anything below object number `limit`. -/
def ValueDef.Calm (limit : Nat) (operand : ValueId → Option Val) : ValueDef → Prop
  | .call .. => False
  | .store _ dest => ∀ o i, operand dest = some (.ptr o i) → limit ≤ o
  | _ => True

/-- The instruction that comes next is no call, and it does not store anything below object number
`limit`. -/
def Program.Quiet {W : Type} (p : Program) (limit : Nat) : Config W → Prop
  | .run ⟨_, v :: _, regs⟩ _ _ _ => ∀ x, p.defn? v = some x → x.Calm limit (p.operand regs)
  | _ => True

section Quiet

variable {W : Type} {p : Program} {ext : External W} {P Q : Config W → Prop} {c c' : Config W}

theorem Program.StepsIf.mono (steps : p.StepsIf ext P c c') (weaker : ∀ {c}, P c → Q c) :
    p.StepsIf ext Q c c' :=
  Relation.ReflTransGen.mono (fun _ _ h => ⟨weaker h.1, h.2⟩) _ _ steps

theorem Program.StepsIf.steps (steps : p.StepsIf ext P c c') : p.Steps ext c c' :=
  Relation.ReflTransGen.mono (fun _ _ h => h.2) _ _ steps

theorem ValueDef.Calm.mono {low limit : Nat} (le : low ≤ limit) {operand : ValueId → Option Val}
    {x : ValueDef} (calm : x.Calm limit operand) : x.Calm low operand := by
  cases x with
  | store value dest => exact fun o i h => Nat.le_trans le (calm o i h)
  | call => exact calm.elim
  | _ => trivial

theorem Program.Quiet.mono {low limit : Nat} (le : low ≤ limit) (quiet : p.Quiet limit c) :
    p.Quiet low c := by
  unfold Quiet at quiet ⊢
  split
  · exact fun x found => (quiet x found).mono le
  · trivial

end Quiet

end SysY.Koopa

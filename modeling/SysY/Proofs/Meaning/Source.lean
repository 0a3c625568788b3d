import Mathlib.Algebra.BigOperators.Group.List.Defs
import Mathlib.Algebra.Ring.Int.Defs
import SysY.Const.Layout
import SysY.Lower.Unit
import SysY.Proofs.Meaning.Memory

/-! # The meaning of units

An evaluator for syntax trees, in the order in which things happen. It is undefined (`none`) where a
unit does something that has no meaning: it divides by zero, reads a variable that was never
written, leaves an array, or writes to a constant array. Every step costs fuel, so a run that never
ends is undefined for every amount of fuel.

Names are looked up in a list with the innermost binding in front. Every variable is an object of its
own; a constant array is no object, it is only data. -/

namespace SysY.Meaning

/-! ## States -/

/-- What a pointer points into: an object, or a constant array. -/
inductive Base where
  | object (id : Nat)
  | table (data : List Int32)
deriving DecidableEq, Repr

/-- A pointer to a cell. -/
structure Pointer where
  base : Base
  offset : Int
deriving DecidableEq, Repr

/-- What is passed to a function. -/
inductive Arg where
  | int (value : Int32)
  | array (pointer : Pointer)
deriving DecidableEq, Repr

/-- What a name stands for. -/
inductive Binding where
  /-- A constant with the given bounds (none for a single integer). -/
  | constant (dims : List Int) (data : List Int32)
  | object (dims : List Int) (id : Nat)
  /-- An array parameter, which points to elements with the bounds `dims`. -/
  | array (dims : List Int) (pointer : Pointer)
  | function (params : List Ty) (ret : Ty)
deriving DecidableEq, Repr

/-- The names that can be seen, innermost first. -/
abbrev Env := List (String × Binding)

/-- Memory, and the world outside. -/
structure State (W : Type) where
  memory : Memory Int32
  world : W
deriving DecidableEq, Repr

/-- A computation that changes the state, or is undefined. -/
abbrev Run (W α : Type) := StateT (State W) Option α

variable {W α β : Type}

/-- The computation that is undefined. -/
def stuck : Run W α := fun _ => none

/-- Take over a result that may be undefined. -/
def ofOption : Option α → Run W α
  | some a => pure a
  | none => stuck

/-- Make a new object. -/
def create (cells : List (Option Int32)) : Run W Nat := fun s =>
  some (s.memory.length, { s with memory := s.memory ++ [cells] })

/-! ## Pointers and places -/

/-- Read the cell `i` cells after a pointer. -/
def Pointer.read (m : Memory Int32) (p : Pointer) (i : Int) : Option Int32 :=
  match p.base with
  | .object id => m.read id (p.offset + i)
  | .table data => if p.offset + i < 0 then none else data[(p.offset + i).toNat]?

/-- Write the cell `i` cells after a pointer. -/
def Pointer.write (m : Memory Int32) (p : Pointer) (i : Int) (v : Int32) : Option (Memory Int32) :=
  match p.base with
  | .object id => m.write id (p.offset + i) v
  | .table _ => none

/-- What an expression denotes before it is read: storage with the given bounds (none for a single
integer), or an array parameter. -/
inductive Place where
  | storage (dims : List Int) (pointer : Pointer)
  | param (dims : List Int) (pointer : Pointer)
deriving DecidableEq, Repr

namespace Place

/-- The place that a binding stands for. -/
def ofBinding : Binding → Option Place
  | .constant dims data => some (.storage dims ⟨.table data, 0⟩)
  | .object dims id => some (.storage dims ⟨.object id, 0⟩)
  | .array dims p => some (.param dims p)
  | .function .. => none

/-- Apply a subscript, which has to be within its bound. An array parameter has no first bound. -/
def subscript : Place → Int → Option Place
  | .storage (d :: ds) p, i =>
    if 0 ≤ i ∧ i < d then some (.storage ds { p with offset := p.offset + i * ds.prod }) else none
  | .param ds p, i => some (.storage ds { p with offset := p.offset + i * ds.prod })
  | _, _ => none

/-- The integer at a place. -/
def read (m : Memory Int32) : Place → Option Int32
  | .storage [] p => p.read m 0
  | _ => none

/-- Write the integer at a place. -/
def write (m : Memory Int32) : Place → Int32 → Option (Memory Int32)
  | .storage [] p, v => p.write m 0 v
  | _, _ => none

/-- An array is passed as a pointer to its first element. -/
def decay : Place → Option Arg
  | .storage (_ :: _) p | .param _ p => some (.array p)
  | _ => none

end Place

/-! ## Operators -/

/-- Truth values are the numbers 1 and 0. -/
def truth (b : Bool) : Int32 := if b then 1 else 0

/-- Binary operators, apart from the logical ones. Numbers wrap around. -/
def binary : BinaryOp → Int32 → Int32 → Option Int32
  | .add, x, y => some (x + y)
  | .sub, x, y => some (x - y)
  | .mul, x, y => some (x * y)
  | .div, x, y => if y = 0 then none else some (x / y)
  | .mod, x, y => if y = 0 then none else some (x % y)
  | .eq, x, y => some (truth (x == y))
  | .ne, x, y => some (truth (x != y))
  | .lt, x, y => some (truth (x < y))
  | .le, x, y => some (truth (x ≤ y))
  | .gt, x, y => some (truth (y < x))
  | .ge, x, y => some (truth (y ≤ x))
  | .logicalAnd, _, _ | .logicalOr, _, _ | .other _, _, _ => none

/-- Unary operators. -/
def unary : UnaryOp → Int32 → Option Int32
  | .plus, x => some x
  | .minus, x => some (-x)
  | .not, x => some (truth (x == 0))
  | .other _, _ => none

/-! ## Initializers -/

open Const (Placement)

mutual

/-- Where the elements of one initializer go that stands at `base + position` in an array with
bounds `dims`, and how many positions it takes. A list in braces fills the largest proper sub-array
that begins at its position. -/
def placesOf (dims : List Int) (base position : Int) : Init → Option (List Placement × Int)
  | .expr _ e => some ([⟨base + position, e⟩], 1)
  | .list _ elems => do
    let sub ← dims.tail.tails.find? fun ds => !ds.isEmpty && decide (ds.prod ∣ position)
    return (← places sub (base + position) 0 elems, sub.prod)
  | .missing _ => none

/-- Where the elements of a list in braces go, from `base + position` on. -/
def places (dims : List Int) (base position : Int) : List Init → Option (List Placement)
  | [] => some []
  | i :: is => do
    if dims.prod ≤ position then none
    let (here, taken) ← placesOf dims base position i
    return here ++ (← places dims base (position + taken) is)

end

/-- No array has so many elements. -/
def tooMany : Int := 0x8000000000000000

/-! ## Evaluation -/

/-- How a statement ends. -/
inductive Outcome where
  | normal (env : Env)
  | break
  | continue
  | return (value : Option Int32)
deriving DecidableEq, Repr

/-- What is declared inside a statement is not seen after it. -/
def Outcome.leave (env : Env) : Outcome → Outcome
  | .normal _ => .normal env
  | o => o

/-- What a call yields: nothing, or an integer, which is 0 when no value is returned. -/
def Outcome.result (ret : Ty) : Outcome → Option (Option Int32)
  | .normal _ => some (if ret = .void then none else some 0)
  | .return v => some (if ret = .void then none else some (v.getD 0))
  | .break | .continue => none

/-- What a unit is run with: the functions from elsewhere, its own functions, and its global
names. -/
structure Context (W : Type) where
  external : External W
  fns : List Fn
  globals : Env

/-- Make the parameters of a function. An integer is copied, and an array stays the array of the
caller. -/
def bindParams : List Param → List Ty → List Arg → Env → Run W Env
  | p :: ps, .int :: ts, .int v :: as, env => do
    let id ← create [some v]
    bindParams ps ts as ((p.name, .object [] id) :: env)
  | p :: ps, .pointer dims :: ts, .array a :: as, env =>
    bindParams ps ts as ((p.name, .array dims a) :: env)
  | [], [], [], env => return env
  | _, _, _, _ => stuck

/-- The number that an argument is. -/
def Arg.number? : Arg → Option Int32
  | .int v => some v
  | .array _ => none

/-- Read through an argument that is an array. -/
def readArg (args : List Arg) (m : Memory Int32) (a : Nat) (i : Int) : Option Int32 :=
  match args[a]? with
  | some (.array p) => p.read m i
  | _ => none

/-- Write through an argument that is an array. -/
def writeArg (args : List Arg) (m : Memory Int32) (a : Nat) (i : Int) (v : Int32) :
    Option (Memory Int32) :=
  match args[a]? with
  | some (.array p) => p.write m i v
  | _ => none

/-- Call a function from elsewhere. -/
def callExternal (external : External W) (name : String) (ret : Ty) (args : List Arg) :
    Run W (Option Int32) := fun s => do
  let r ← external s.world name (args.map Arg.number?)
  let (world, value, memory) ← r.run (readArg args) (writeArg args) s.memory
  return (if ret = .void then none else some value, ⟨memory, world⟩)

section Evaluate

variable (k : Context W)

mutual

/-- The value of an expression. Operands are evaluated from left to right, and the right operand of
a logical operator only if the left one does not decide. -/
def expr : Nat → Env → Expr → Run W Int32
  | 0, _, _ => stuck
  | n + 1, env, e =>
    match e with
    | .lit _ v => return v
    | .group _ inner => expr n env inner
    | .ident .. | .index .. => do
      let p ← place n env e
      ofOption (p.read (← get).memory)
    | .unary _ op x => do ofOption (unary op (← expr n env x))
    | .binary _ op l r => do
      let x ← expr n env l
      match op with
      | .logicalAnd => if x = 0 then return 0 else return truth ((← expr n env r) != 0)
      | .logicalOr => if x ≠ 0 then return 1 else return truth ((← expr n env r) != 0)
      | _ => ofOption (binary op x (← expr n env r))
    | .call _ name _ as => do ofOption (← call n env name as)
    | .bare .. | .missing _ => stuck

/-- The place that an expression denotes. Subscripts are evaluated from left to right. -/
def place : Nat → Env → Expr → Run W Place
  | 0, _, _ => stuck
  | n + 1, env, e =>
    match e with
    | .ident _ name => ofOption ((env.lookup name).bind Place.ofBinding)
    | .group _ inner => place n env inner
    | .index _ target idx => do
      let p ← place n env target
      ofOption (p.subscript (← expr n env idx).toInt)
    | _ => stuck

/-- The arguments for parameters of the given types, from left to right. -/
def args : Nat → Env → List Expr → List Ty → Run W (List Arg)
  | n + 1, env, e :: es, t :: ts => do
    let a ← match t with
      | .pointer _ => place n env e >>= fun p => ofOption p.decay
      | _ => Arg.int <$> expr n env e
    return a :: (← args n env es ts)
  | _ + 1, _, [], [] => return []
  | _, _, _, _ => stuck

/-- Call a function by its name. -/
def call : Nat → Env → String → List Expr → Run W (Option Int32)
  | 0, _, _, _ => stuck
  | n + 1, env, name, as =>
    match env.lookup name with
    | some (.function params ret) => do invoke n name params ret (← args n env as params)
    | _ => stuck

/-- Run a function. Its body sees the global names and the parameters. -/
def invoke : Nat → String → List Ty → Ty → List Arg → Run W (Option Int32)
  | 0, _, _, _, _ => stuck
  | n + 1, name, params, ret, as =>
    match k.fns.find? (·.name == name) with
    | none => callExternal k.external name ret as
    | some f => do
      let env ← bindParams f.params params as k.globals
      match f.body with
      | some (.block _ ss) => do ofOption ((← stmts n env ss).result ret)
      | _ => stuck

/-- Array bounds, which are positive. -/
def bounds : Nat → Env → List Expr → Run W (List Int)
  | n + 1, env, e :: es => do
    let v ← expr n env e
    if v.toInt ≤ 0 then stuck
    return v.toInt :: (← bounds n env es)
  | _ + 1, _, [] => return []
  | 0, _, _ => stuck

/-- Evaluate elements in order, and put each at its position. -/
def fill : Nat → Env → List Placement → List Int32 → Run W (List Int32)
  | n + 1, env, p :: ps, out => do
    let v ← expr n env p.value
    fill n env ps (out.set p.position.toNat v)
  | _ + 1, _, [], out => return out
  | 0, _, _, _ => stuck

/-- The elements of a variable with the given bounds. Those that are missing are zero. -/
def elements : Nat → Env → List Int → Init → Run W (List Int32)
  | n + 1, env, [], .expr _ e => do return [← expr n env e]
  | n + 1, env, d :: ds, .list _ is => do
    let ps ← ofOption (places (d :: ds) 0 0 is)
    fill n env ps (List.replicate (d :: ds).prod.toNat 0)
  | _, _, _, _ => stuck

/-- Bind a name with the given bounds. `blank` is what a variable without initializer holds. -/
def bindName : Nat → Option Int32 → Bool → Env → String → List Int → Option Init → Run W Env
  | n + 1, _, true, env, name, dims, some init => do
    return (name, .constant dims (← elements n env dims init)) :: env
  | _ + 1, blank, false, env, name, dims, none => do
    let id ← create (List.replicate dims.prod.toNat blank)
    return (name, .object dims id) :: env
  | n + 1, _, false, env, name, dims, some init => do
    let id ← create ((← elements n env dims init).map some)
    return (name, .object dims id) :: env
  | _, _, _, _, _, _, _ => stuck

/-- Define a name, which can be seen afterwards. -/
def define : Nat → Option Int32 → Bool → Env → Def → Run W Env
  | 0, _, _, _, _ => stuck
  | n + 1, blank, isConst, env, d => do
    let dims ← bounds n env d.dims
    if tooMany ≤ dims.prod then stuck
    bindName n blank isConst env d.name dims d.init

/-- Define names in order. -/
def defines : Nat → Option Int32 → Bool → Env → List Def → Run W Env
  | n + 1, blank, isConst, env, d :: ds => do
    defines n blank isConst (← define n blank isConst env d) ds
  | _ + 1, _, _, env, [] => return env
  | 0, _, _, _, _ => stuck

/-- Execute a statement. The place of an assignment is found before the value is computed. -/
def stmt : Nat → Env → Stmt → Run W Outcome
  | 0, _, _ => stuck
  | n + 1, env, s =>
    match s with
    | .block _ ss => do return (← stmts n env ss).leave env
    | .decl _ (some d) => do return .normal (← defines n none d.isConst env d.defs)
    | .assign _ target value => do
      let p ← place n env target
      let v ← expr n env value
      let s ← get
      set { s with memory := ← ofOption (p.write s.memory v) }
      return .normal env
    | .expr _ none => return .normal env
    | .expr _ (some e) =>
      match e.stripGroups with
      | .call _ name _ as => do
        let _ ← call n env name as
        return .normal env
      | _ => do
        let _ ← expr n env e
        return .normal env
    | .ifThen _ cond thenArm elseArm => do
      if (← expr n env cond) != 0 then return (← stmt n env thenArm).leave env
      else match elseArm with
        | none => return .normal env
        | some other => return (← stmt n env other).leave env
    | .while span cond body => do
      if (← expr n env cond) != 0 then
        match ← stmt n env body with
        | .normal _ | .continue => stmt n env (.while span cond body)
        | .break => return .normal env
        | .return v => return .return v
      else return .normal env
    | .break _ => return .break
    | .continue _ => return .continue
    | .return _ none => return .return none
    | .return _ (some e) => do return .return (some (← expr n env e))
    | .decl _ none | .bare .. | .missing _ => stuck

/-- Execute statements in order, until one does not end normally. -/
def stmts : Nat → Env → List Stmt → Run W Outcome
  | n + 1, env, s :: ss => do
    match ← stmt n env s with
    | .normal env => stmts n env ss
    | o => return o
  | _ + 1, env, [] => return .normal env
  | 0, _, _ => stuck

end

end Evaluate

/-! ## Units -/

/-- The function of an item, if it has a body. -/
def ownFn? : Item → Option Fn
  | .fn _ f => if f.isDecl then none else some f
  | _ => none

/-- The functions of a unit that have a body. -/
def bodies (u : CompUnit) : List Fn := u.items.filterMap ownFn?

/-- The return type of a function. -/
def returnTy (f : Fn) : Ty :=
  match f.returnType with
  | .int => .int
  | .void => .void

/-- The context of constants, in which nothing can be called. -/
def constants : Context Unit := { external := fun _ _ _ => none, fns := [], globals := [] }

/-- The types of parameters. -/
def paramTys (n : Nat) (env : Env) : List Param → Run Unit (List Ty)
  | [] => return []
  | p :: ps => do
    let dims ← bounds constants n env p.dims
    return (if p.isArray then .pointer dims else .int) :: (← paramTys n env ps)

/-- Bind the global names of an item. A variable without initializer starts with zeros. -/
def loadItem (n : Nat) (env : Env) : Item → Run Unit Env
  | .fn _ f =>
    match env.lookup f.name with
    | some (.function ..) => return env
    | _ => do return (f.name, .function (← paramTys n env f.params) (returnTy f)) :: env
  | .decl _ (some d) => defines constants n (some 0) d.isConst env d.defs
  | .decl _ none | .bare .. | .missing _ => stuck

/-- Bind the global names of items in order. -/
def loadItems (n : Nat) (env : Env) : List Item → Run Unit Env
  | [] => return env
  | i :: is => do loadItems n (← loadItem n env i) is

/-- The names of the runtime library. -/
def libraryEnv : Env := Lower.library.map fun l => (l.name, .function l.params l.ret)

/-- The global names of a unit, and what its global variables hold at first. -/
def load (withLibrary : Bool) (n : Nat) (u : CompUnit) : Option (Env × Memory Int32) :=
  (loadItems n (if withLibrary then libraryEnv else []) u.items ⟨[], ()⟩).map fun r =>
    (r.1, r.2.memory)

/-! ## Undoing a computation -/

theorem bind_eq_some {m : Run W α} {next : α → Run W β} {s s' : State W} {b : β} :
    (m >>= next) s = some (b, s') ↔ ∃ a s₁, m s = some (a, s₁) ∧ next a s₁ = some (b, s') := by
  change (m s).bind (fun r => next r.1 r.2) = _ ↔ _
  rw [Option.bind_eq_some_iff]
  constructor
  · rintro ⟨⟨a, s₁⟩, h, h'⟩
    exact ⟨a, s₁, h, h'⟩
  · rintro ⟨a, s₁, h, h'⟩
    exact ⟨(a, s₁), h, h'⟩

theorem pure_eq_some {a b : α} {s s' : State W} :
    (pure a : Run W α) s = some (b, s') ↔ a = b ∧ s = s' := by
  change some (a, s) = some (b, s') ↔ _
  simp

theorem ofOption_eq_some {o : Option α} {b : α} {s s' : State W} :
    (ofOption o : Run W α) s = some (b, s') ↔ o = some b ∧ s = s' := by
  cases o with
  | none => simp [ofOption, stuck]
  | some a => simp [ofOption, pure_eq_some]

theorem create_eq_some {cells : List (Option Int32)} {id : Nat} {s s' : State W} :
    (create cells : Run W Nat) s = some (id, s') ↔
      id = s.memory.length ∧ s' = ⟨s.memory ++ [cells], s.world⟩ := by
  simp only [create, Option.some.injEq, Prod.mk.injEq]
  exact and_congr eq_comm eq_comm

end SysY.Meaning

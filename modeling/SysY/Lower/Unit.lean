import SysY.Lower.Stmt

/-! # Lowering compilation units

Items are lowered in order. A function may be declared any number of times and defined once, always
with the same types. The runtime library is declared ahead of the first item. -/

namespace SysY

open Source (Span)

namespace Lower

/-- A function of the runtime library. -/
structure LibraryFn where
  name : String
  params : List Ty := []
  ret : Ty := .int

/-- The runtime library. -/
def library : List LibraryFn :=
  [{ name := "getint" },
   { name := "getch" },
   { name := "getarray", params := [.pointer []] },
   { name := "putint", params := [.int] },
   { name := "putch", params := [.int] },
   { name := "putarray", params := [.int, .pointer []] },
   { name := "starttime" },
   { name := "stoptime" }]

/-- Make a function of the program. -/
def newFn (name : String) (params : List Ty) (ret : Ty) (paramNames : List String) :
    Lower Koopa.FnId := do
  let ps ← params.mapM fun t => lift t.toKoopa
  let r ← lift ret.toKoopa
  let (f, p) ← lift ((← get).program.newFn ("@" ++ name) (.func ps r) paramNames)
  setProgram p
  return f

/-- Declare the runtime library. -/
def declareLibrary : List LibraryFn → Lower Unit
  | [] => return ()
  | l :: ls => do
    let f ← newFn l.name l.params l.ret []
    modify fun s => { s with
      symbols := (s.symbols.declare
        { name := l.name, span := {}, type := l.ret, meaning := .function f l.params false }).2 }
    declareLibrary ls

/-- Copy each parameter into a slot of its own, so that it can be used like a variable. -/
def spillParams : List Param → List Ty → List Koopa.ValueId → Lower Unit
  | p :: ps, t :: ts, v :: vs => do
    setName v ("@" ++ p.name)
    let ty ← lift t.toKoopa
    let slot ← emitNew (·.alloc · ty)
    setName slot ("@" ++ p.name)
    let _ ← tryEmitNew (·.store · v slot)
    declare { name := p.name, span := p.nameSpan, type := t, meaning := .variable slot }
    spillParams ps ts vs
  | _, _, _ => return ()

/-- Record that the body of a function was lowered. -/
def recordBody (name : String) (body : Lower Unit) : Lower Unit := fun s =>
  match body s with
  | .ok a s' => .ok a { s' with bodies := s'.bodies ++ [(name, true)] }
  | .error e s' => .error e { s' with bodies := s'.bodies ++ [(name, false)] }

/-- Lower the body of a function. It shares a scope with the parameters. -/
def body (f : Fn) (id : Koopa.FnId) (ret : Ty) (params : List Ty) (block : Stmt) : Lower Unit :=
  recordBody f.name do
    modifyFrame fun _ => { fn := id, ret := ret, span := f.nameSpan }
    switchTo (← newBlock)
    inScope .function do
      spillParams f.params params (← lift ((← get).program.fn id)).params
      match block with
      | .block _ ss => stmts ss
      | _ => raise (.internal f.nameSpan s!"function {f.name} has no block body")

/-- The function of the program for a function item: that of an earlier declaration, which has to
fit, or a new one. -/
def header (f : Fn) (ret : Ty) (params : List Ty) : Lower Koopa.FnId := do
  match (← get).symbols.findGlobal? f.name with
  | none => newFn f.name params ret (f.params.map ("@" ++ ·.name))
  | some old =>
    match old.meaning with
    | .function id ps defined =>
      if defined && !f.isDecl then raise (.redefinition f.nameSpan f.name old.span)
      if old.type ≠ ret ∨ ps ≠ params then
        raise { Diag.Error.redefinition f.nameSpan f.name old.span with
          detail := "conflicting signature" }
      return id
    | _ => raise (.redefinition f.nameSpan f.name old.span)

/-- Bind a function, which is known to its own body. -/
def bindFn (f : Fn) (sym : Symbol) : Lower Unit := do
  let s ← get
  let (a, t) := if f.isDecl then s.symbols.declare sym else s.symbols.define sym
  match a.accepted, a.existing with
  | false, some old => raise (.redefinition f.nameSpan f.name old.span)
  | _, _ => set { s with symbols := t }

/-- Lower a function. -/
def function (f : Fn) : Lower Unit := do
  let ret : Ty := match f.returnType with
    | .int => .int
    | .void => .void
  let env := (← get).symbols.globalEnv
  let params ← lift (f.params.mapM (Ty.ofParam env))
  let id ← header f ret params
  bindFn f { name := f.name, span := f.nameSpan, type := ret,
             meaning := .function id params (!f.isDecl) }
  match f.body with
  | none => return ()
  | some block => body f id ret params block

/-- Lower an item. -/
def item : Item → Lower Unit
  | .fn _ f => function f
  | .decl _ (some d) => globalDecl d
  | .decl _ none | .missing _ => throw (.fault none)
  | .bare s kind =>
    if kind < 2 then throw (.fault none)
    else raise (.internal s s!"unexpected item kind {kind}")

/-- Lower items in order. Work that was called off ends before the next item. -/
def items (canceled : Bool) : List Item → Lower Unit
  | [] => return ()
  | i :: is => do
    if canceled then throw .canceled
    item i
    items canceled is

/-- Lower a whole unit, and close the blocks that do not end with a terminator. -/
def unit (withLibrary canceled : Bool) (u : CompUnit) : Lower Unit := do
  if withLibrary then declareLibrary library
  items canceled u.items
  setProgram (← lift (← get).program.closeBlocks)

end Lower

/-- The result of lowering a unit. -/
structure Lowered where
  result : Outcome Koopa.Program
  /-- The functions whose bodies were lowered, and whether that succeeded. -/
  bodies : List (String × Bool)

/-- Lower a unit to a program. -/
def Lowered.ofUnit (u : CompUnit) (withLibrary canceled : Bool) : Lowered :=
  match Lower.unit withLibrary canceled u {} with
  | .ok _ s => { result := .ok s.program, bodies := s.bodies }
  | .error e s => { result := .error e, bodies := s.bodies }

end SysY

import SysY.Symbol

/-! # Symbol tables

Nested scopes over a global scope that is always open. Symbols are numbered from 1 in the order in
which they are bound, and a scope maps names to these numbers. -/

namespace SysY

/-- What a scope belongs to. -/
inductive ScopeKind where
  | invalid | global | function | block
deriving DecidableEq, Repr, Inhabited

namespace ScopeKind

/-- The name of a kind of scope. -/
def name : ScopeKind → String
  | invalid => "invalid"
  | global => "global"
  | function => "function"
  | block => "block"

/-- The kind with a name. -/
def ofName (s : String) : ScopeKind :=
  ([global, function, block].find? (·.name = s)).getD invalid

end ScopeKind

/-- The names that are bound directly in a scope. -/
structure Scope where
  kind : ScopeKind
  /-- The number of the symbol that each name is bound to now. -/
  names : List (String × Nat) := []
  /-- The first symbol of each name, in the order in which the names were bound. -/
  order : List Nat := []
deriving Repr, Inhabited

namespace Scope

/-- The symbol that a name is bound to. -/
def find? (s : Scope) (name : String) : Option Nat := s.names.lookup name

/-- Bind a name, or bind it anew. -/
def bind (s : Scope) (name : String) (id : Nat) : Scope :=
  { s with
    names := (name, id) :: s.names.filter (·.1 != name)
    order := if (s.find? name).isSome then s.order else s.order ++ [id] }

end Scope

/-- All symbols, the global scope, and the open local scopes with the innermost first. Also counts
how often scopes were opened and closed. -/
structure SymbolTable where
  symbols : Array Symbol := #[]
  global : Scope := { kind := .global }
  locals : List Scope := []
  pushes : Nat := 0
  pops : Nat := 0
deriving Inhabited

namespace SymbolTable

/-- The symbol with a number. -/
def get? (t : SymbolTable) (id : Nat) : Option Symbol :=
  if id = 0 then none else t.symbols[id - 1]?

/-- The number of open local scopes. -/
def depth (t : SymbolTable) : Nat := t.locals.length

/-! ## Scopes -/

/-- Open a local scope. -/
def push (t : SymbolTable) (kind : ScopeKind) : SymbolTable :=
  { t with locals := { kind := kind } :: t.locals, pushes := t.pushes + 1 }

/-- Close the innermost local scope. The global scope cannot be closed. -/
def pop (t : SymbolTable) : Outcome SymbolTable :=
  match t.locals with
  | [] => .refuse "symbols: pop without matching push"
  | _ :: outer => return { t with locals := outer, pops := t.pops + 1 }

/-- Close the scope that was opened as number `depth`, which has to be the innermost one. -/
def leave (t : SymbolTable) (depth : Nat) : Outcome SymbolTable :=
  if t.depth = depth then t.pop
  else .refuse s!"symbols: unbalanced scope, depth {t.depth} want {depth}"

/-! ## Looking up -/

/-- The number of a global symbol. -/
def globalId? (t : SymbolTable) (name : String) : Option Nat := t.global.find? name

/-- Look up a name in the global scope only. -/
def findGlobal? (t : SymbolTable) (name : String) : Option Symbol :=
  (t.globalId? name).bind t.get?

/-- Look up a name, innermost scope first. -/
def find? (t : SymbolTable) (name : String) : Option Symbol :=
  match t.locals.findSome? (·.find? name) with
  | some id => t.get? id
  | none => t.findGlobal? name

/-- The global symbols in the order in which their names were first declared. -/
def globals (t : SymbolTable) : List Symbol :=
  t.global.order.filterMap fun id => (t.get? id).bind fun s => t.findGlobal? s.name

/-- The bindings of all names for constant evaluation. -/
def env (t : SymbolTable) : Const.Env := fun name =>
  match t.find? name with
  | none => .unbound
  | some s => s.binding

/-- The global bindings for constant evaluation. -/
def globalEnv (t : SymbolTable) : Const.Env := fun name =>
  match t.findGlobal? name with
  | none => .unbound
  | some s => s.binding

/-! ## Binding

An attempt to bind a name tells whether it succeeded, and the symbol that was there before if that
symbol stays. -/

/-- The outcome of an attempt to bind a name. -/
structure Attempt where
  accepted : Bool
  existing : Option Symbol := none

/-- Bind a symbol in the global scope. -/
def bindGlobal (t : SymbolTable) (s : Symbol) : SymbolTable :=
  { t with
    symbols := t.symbols.push s
    global := t.global.bind s.name (t.symbols.size + 1) }

/-- Bind a symbol in the innermost scope, unless the name is bound there. -/
def insert (t : SymbolTable) (s : Symbol) : Attempt × SymbolTable :=
  match t.locals with
  | [] =>
    match t.globalId? s.name with
    | some id => (⟨false, t.get? id⟩, t)
    | none => (⟨true, none⟩, t.bindGlobal s)
  | inner :: outer =>
    match inner.find? s.name with
    | some id => (⟨false, t.get? id⟩, t)
    | none =>
      (⟨true, none⟩,
        { t with
          symbols := t.symbols.push s
          locals := inner.bind s.name (t.symbols.size + 1) :: outer })

/-- Bind a definition in the global scope. It can only take the place of a function that was
declared and not yet defined. -/
def define (t : SymbolTable) (s : Symbol) : Attempt × SymbolTable :=
  match t.findGlobal? s.name with
  | none => (⟨true, none⟩, t.bindGlobal s)
  | some old =>
    if old.isFunction && !old.isDefined && s.isFunction then (⟨true, none⟩, t.bindGlobal s)
    else (⟨false, some old⟩, t)

/-- Declare a symbol in the global scope. A function may be declared again, and the earlier symbol
stays. -/
def declare (t : SymbolTable) (s : Symbol) : Attempt × SymbolTable :=
  match t.findGlobal? s.name with
  | none => (⟨true, none⟩, t.bindGlobal s)
  | some old => (⟨old.isFunction && s.isFunction, some old⟩, t)

end SymbolTable
end SysY

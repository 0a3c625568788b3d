import Mathlib.Data.Finmap
import Mathlib.Data.List.Forall2
import SysY.Proofs.Symbol.Scopes

/-! # The symbol table as a stack of maps

A table keeps the symbols of all scopes, also of those that are closed, in one array, and its scopes
map names to numbers. What can be asked of it depends on less: for each open scope the symbols that
its names stand for, on top of a global scope whose names are in order. `ScopeStack` has just that,
and a table and a stack give the same answers after every sequence of operations. -/

namespace SysY

/-- The symbols that the names of a scope stand for. -/
abbrev NameMap := Finmap fun _ : String => Symbol

/-- The names of the open local scopes, innermost first, the global names, and the latter in the
order of their first declaration. -/
structure ScopeStack where
  locals : List NameMap := []
  global : NameMap := ∅
  order : List String := []

/-- An operation on scopes. -/
inductive ScopeOp where
  | push (kind : ScopeKind)
  | pop
  | insert (s : Symbol)
  | define (s : Symbol)
  | declare (s : Symbol)

/-- All that can be asked: what names stand for, also where a constant is wanted, each in all scopes
and in the global one, and the list of global symbols. -/
structure Answers where
  find : String → Option Symbol
  findGlobal : String → Option Symbol
  env : Const.Env
  globalEnv : Const.Env
  globals : List Symbol

/-- The bindings for constant evaluation that symbols amount to. -/
def bindings (find : String → Option Symbol) : Const.Env := fun name =>
  match find name with
  | none => .unbound
  | some s => s.binding

open SymbolTable (Attempt)

/-! ## Stacks -/

namespace ScopeStack

/-- Look up a name, innermost scope first. -/
def find? (m : ScopeStack) (name : String) : Option Symbol :=
  (m.locals.findSome? (·.lookup name)).or (m.global.lookup name)

/-- The global symbols in the order in which their names were first declared. -/
def globals (m : ScopeStack) : List Symbol := m.order.filterMap (m.global.lookup ·)

/-- The answers of a stack. -/
def answers (m : ScopeStack) : Answers where
  find := m.find?
  findGlobal := (m.global.lookup ·)
  env := bindings m.find?
  globalEnv := bindings (m.global.lookup ·)
  globals := m.globals

/-- Bind a global name. -/
def bindGlobal (m : ScopeStack) (s : Symbol) : ScopeStack :=
  { m with
    global := m.global.insert s.name s
    order := if s.name ∈ m.global then m.order else m.order ++ [s.name] }

/-- Bind a name in the innermost scope, unless it is bound there. -/
def insert (m : ScopeStack) (s : Symbol) : Attempt × ScopeStack :=
  match m.locals with
  | [] =>
    match m.global.lookup s.name with
    | some old => (⟨false, some old⟩, m)
    | none => (⟨true, none⟩, m.bindGlobal s)
  | inner :: outer =>
    match inner.lookup s.name with
    | some old => (⟨false, some old⟩, m)
    | none => (⟨true, none⟩, { m with locals := inner.insert s.name s :: outer })

/-- Define a global name. A function takes the place of one that is not defined. -/
def define (m : ScopeStack) (s : Symbol) : Attempt × ScopeStack :=
  match m.global.lookup s.name with
  | none => (⟨true, none⟩, m.bindGlobal s)
  | some old =>
    if old.isFunction && !old.isDefined && s.isFunction then (⟨true, none⟩, m.bindGlobal s)
    else (⟨false, some old⟩, m)

/-- Declare a global name. The first function of a name stays. -/
def declare (m : ScopeStack) (s : Symbol) : Attempt × ScopeStack :=
  match m.global.lookup s.name with
  | none => (⟨true, none⟩, m.bindGlobal s)
  | some old => (⟨old.isFunction && s.isFunction, some old⟩, m)

/-- The outcome of an attempt to bind a name, if it was one, and the stack after an operation. A
stack without local scopes cannot be popped. -/
def step (m : ScopeStack) : ScopeOp → Option (Option Attempt × ScopeStack)
  | .push _ => some (none, { m with locals := ∅ :: m.locals })
  | .pop =>
    match m.locals with
    | [] => none
    | _ :: outer => some (none, { m with locals := outer })
  | .insert s => some (some (m.insert s).1, (m.insert s).2)
  | .define s => some (some (m.define s).1, (m.define s).2)
  | .declare s => some (some (m.declare s).1, (m.declare s).2)

/-- A sequence of operations. -/
def run (m : ScopeStack) : List ScopeOp → Option (List (Option Attempt) × ScopeStack)
  | [] => some ([], m)
  | op :: ops => do
    let (a, m) ← m.step op
    let (as, m) ← m.run ops
    return (a :: as, m)

end ScopeStack

namespace SymbolTable

/-- The answers of a table. -/
def answers (t : SymbolTable) : Answers where
  find := t.find?
  findGlobal := t.findGlobal?
  env := t.env
  globalEnv := t.globalEnv
  globals := t.globals

/-- The outcome of an attempt to bind a name, if it was one, and the table after an operation. -/
def step (t : SymbolTable) : ScopeOp → Outcome (Option Attempt × SymbolTable)
  | .push kind => return (none, t.push kind)
  | .pop => do return (none, ← t.pop)
  | .insert s => return (some (t.insert s).1, (t.insert s).2)
  | .define s => return (some (t.define s).1, (t.define s).2)
  | .declare s => return (some (t.declare s).1, (t.declare s).2)

/-- A sequence of operations. -/
def run (t : SymbolTable) : List ScopeOp → Outcome (List (Option Attempt) × SymbolTable)
  | [] => return ([], t)
  | op :: ops => do
    let (a, t) ← t.step op
    let (as, t) ← t.run ops
    return (a :: as, t)

/-! ## What a table shows -/

/-- A number, if there is one, is that of a symbol. -/
def Numbers (t : SymbolTable) : Option Nat → Option Symbol → Prop :=
  Option.Rel fun id s => t.get? id = some s

/-- A scope of a table shows a map: its names stand for the same symbols. -/
def Shows (t : SymbolTable) (sc : Scope) (names : NameMap) : Prop :=
  ∀ n, t.Numbers (sc.find? n) (names.lookup n)

/-- A table shows a stack. -/
structure Represents (t : SymbolTable) (m : ScopeStack) : Prop where
  locals : List.Forall₂ t.Shows t.locals m.locals
  global : t.Shows t.global m.global
  order : t.global.order.map (fun id => (t.get? id).map (·.name)) = m.order.map some

variable {t t' : SymbolTable} {m : ScopeStack} {sc : Scope} {names : NameMap} {s : Symbol}

theorem Numbers.cases {id : Option Nat} {found : Option Symbol} (h : t.Numbers id found) :
    (id = none ∧ found = none) ∨ ∃ i s, id = some i ∧ found = some s ∧ t.get? i = some s := by
  cases h with
  | none => exact .inl ⟨rfl, rfl⟩
  | some known => exact .inr ⟨_, _, rfl, rfl, known⟩

theorem Numbers.bind_get? {id : Option Nat} {found : Option Symbol} (h : t.Numbers id found) :
    id.bind t.get? = found := by
  cases h with
  | none => rfl
  | some known => exact known

theorem Numbers.isSome {id : Option Nat} {found : Option Symbol} (h : t.Numbers id found) :
    id.isSome ↔ found.isSome := by
  cases h <;> rfl

theorem Numbers.kept {id : Option Nat} {found : Option Symbol} (h : t.Numbers id found)
    (kept : ∀ {id s}, t.get? id = some s → t'.get? id = some s) : t'.Numbers id found := by
  cases h with
  | none => exact .none
  | some known => exact .some (kept known)

/-- Symbols keep their numbers, so scopes go on showing what they show. -/
theorem Shows.kept (shows : t.Shows sc names)
    (kept : ∀ {id s}, t.get? id = some s → t'.get? id = some s) : t'.Shows sc names :=
  fun n => (shows n).kept kept

theorem Shows.bind (shows : t.Shows sc names) {id : Nat} (new : t.get? id = some s) :
    t.Shows (sc.bind s.name id) (names.insert s.name s) := by
  intro n
  rw [Scope.find?_bind]
  by_cases same : n = s.name
  · rw [if_pos same, same, Finmap.lookup_insert]
    exact .some new
  · rw [if_neg same, Finmap.lookup_insert_of_ne _ same]
    exact shows n

theorem shows_empty (t : SymbolTable) (kind : ScopeKind) : t.Shows { kind := kind } ∅ := by
  intro n
  rw [Finmap.lookup_empty]
  exact .none

theorem numbers_findSome? {scs : List Scope} {maps : List NameMap}
    (shows : List.Forall₂ t.Shows scs maps) (n : String) :
    t.Numbers (scs.findSome? (·.find? n)) (maps.findSome? (·.lookup n)) := by
  induction shows with
  | nil => exact .none
  | cons first _ ih =>
    rw [List.findSome?_cons, List.findSome?_cons]
    rcases (first n).cases with ⟨no, no'⟩ | ⟨id, s, found, found', known⟩
    · rw [no, no']
      exact ih
    · rw [found, found']
      exact .some known

namespace Represents

theorem findGlobal? (h : t.Represents m) (n : String) : t.findGlobal? n = m.global.lookup n :=
  (h.global n).bind_get?

theorem find? (h : t.Represents m) (n : String) : t.find? n = m.find? n := by
  unfold SymbolTable.find? ScopeStack.find?
  rcases (numbers_findSome? h.locals n).cases with ⟨no, no'⟩ | ⟨id, s, found, found', known⟩
  · rw [no, no']
    exact h.findGlobal? n
  · rw [found, found']
    exact known

theorem globals (h : t.Represents m) : t.globals = m.globals := by
  have look : t.findGlobal? = (m.global.lookup ·) := funext h.findGlobal?
  -- A table lists the first symbol of each name, which counts only for its name.
  calc t.globals
    _ = (t.global.order.map fun id => (t.get? id).map (·.name)).filterMap
        (·.bind t.findGlobal?) := by
      rw [List.filterMap_map]
      unfold SymbolTable.globals
      congr 1
      funext id
      dsimp only [Function.comp]
      cases t.get? id <;> rfl
    _ = (m.order.map some).filterMap (·.bind t.findGlobal?) := by rw [h.order]
    _ = m.globals := by
      rw [List.filterMap_map, look]
      rfl

theorem answers (h : t.Represents m) : t.answers = m.answers := by
  have find : t.find? = m.find? := funext h.find?
  have findGlobal : t.findGlobal? = (m.global.lookup ·) := funext h.findGlobal?
  have env : t.env = bindings t.find? := rfl
  have globalEnv : t.globalEnv = bindings t.findGlobal? := rfl
  rw [SymbolTable.answers, ScopeStack.answers, env, globalEnv, find, findGlobal, h.globals]

/-! ## The same steps -/

theorem empty : Represents {} {} :=
  ⟨.nil, shows_empty _ _, rfl⟩

theorem push (h : t.Represents m) (kind : ScopeKind) :
    (t.push kind).Represents { m with locals := ∅ :: m.locals } :=
  ⟨.cons (shows_empty _ _) h.locals, h.global, h.order⟩

/-- The names of the symbols that are listed stay the same. -/
theorem order_kept (h : t.Represents m)
    (kept : ∀ {id s}, t.get? id = some s → t'.get? id = some s) :
    t.global.order.map (fun id => (t'.get? id).map (·.name)) = m.order.map some := by
  rw [← h.order]
  apply List.map_congr_left
  intro id mem
  have named : (t.get? id).map (·.name) ∈ m.order.map some := by
    rw [← h.order]
    exact List.mem_map_of_mem mem
  obtain ⟨n, -, same⟩ := List.mem_map.mp named
  obtain ⟨s, known, -⟩ := Option.map_eq_some_iff.mp same.symm
  rw [known, kept known]

theorem bindGlobal (h : t.Represents m) (s : Symbol) :
    (t.bindGlobal s).Represents (m.bindGlobal s) := by
  have kept : ∀ {id s'}, t.get? id = some s' → (t.bindGlobal s).get? id = some s' :=
    get?_bindGlobal_of_some
  have new : (t.bindGlobal s).get? (t.symbols.size + 1) = some s := by
    rw [get?_bindGlobal, if_pos rfl]
  refine ⟨h.locals.imp fun _ _ shows => shows.kept kept, (h.global.kept kept).bind new, ?_⟩
  have old := h.order_kept kept
  have taken : (t.global.find? s.name).isSome ↔ s.name ∈ m.global :=
    (h.global s.name).isSome.trans Finmap.lookup_isSome
  change (if (t.global.find? s.name).isSome then t.global.order
    else t.global.order ++ [t.symbols.size + 1]).map _ = _
  rw [ScopeStack.bindGlobal]
  by_cases bound : s.name ∈ m.global
  · rw [if_pos (taken.mpr bound), if_pos bound]
    exact old
  · rw [if_neg (bound ∘ taken.mp), if_neg bound, List.map_append, List.map_append, old,
      List.map_singleton, new]
    rfl

theorem bound (h : t.Represents m) {inner : Scope} {outer : List Scope} {names : NameMap}
    {maps : List NameMap} (shows : t.Shows inner names) (rest : List.Forall₂ t.Shows outer maps)
    (s : Symbol) : (t.bound s inner outer).Represents
      { m with locals := names.insert s.name s :: maps } := by
  have kept : ∀ {id s'}, t.get? id = some s' → (t.bound s inner outer).get? id = some s' :=
    (t.later_bound s inner outer).kept
  exact ⟨.cons ((shows.kept kept).bind (t.get?_bound s inner outer))
    (rest.imp fun _ _ shows => shows.kept kept), h.global.kept kept, h.order_kept kept⟩

theorem insert (h : t.Represents m) (s : Symbol) :
    (t.insert s).1 = (m.insert s).1 ∧ (t.insert s).2.Represents (m.insert s).2 := by
  have shows := h.locals
  unfold SymbolTable.insert ScopeStack.insert
  cases scopes : t.locals with
  | nil =>
    rw [scopes] at shows
    rw [List.forall₂_nil_left_iff.mp shows]
    dsimp only [globalId?]
    rcases (h.global s.name).cases with ⟨no, no'⟩ | ⟨id, old, found, found', known⟩
    · rw [no, no']
      exact ⟨rfl, h.bindGlobal s⟩
    · rw [found, found']
      exact ⟨congrArg (Attempt.mk false) known, h⟩
  | cons inner outer =>
    rw [scopes] at shows
    obtain ⟨names, maps, first, rest, eq⟩ := List.forall₂_cons_left_iff.mp shows
    rw [eq]
    dsimp only
    rcases (first s.name).cases with ⟨no, no'⟩ | ⟨id, old, found, found', known⟩
    · rw [no, no']
      exact ⟨rfl, h.bound first rest s⟩
    · rw [found, found']
      exact ⟨congrArg (Attempt.mk false) known, h⟩

theorem define (h : t.Represents m) (s : Symbol) :
    (t.define s).1 = (m.define s).1 ∧ (t.define s).2.Represents (m.define s).2 := by
  unfold SymbolTable.define ScopeStack.define
  rw [h.findGlobal?]
  cases m.global.lookup s.name with
  | none => exact ⟨rfl, h.bindGlobal s⟩
  | some old =>
    dsimp only
    split
    · exact ⟨rfl, h.bindGlobal s⟩
    · exact ⟨rfl, h⟩

theorem declare (h : t.Represents m) (s : Symbol) :
    (t.declare s).1 = (m.declare s).1 ∧ (t.declare s).2.Represents (m.declare s).2 := by
  unfold SymbolTable.declare ScopeStack.declare
  rw [h.findGlobal?]
  cases m.global.lookup s.name with
  | none => exact ⟨rfl, h.bindGlobal s⟩
  | some old => exact ⟨rfl, h⟩

/-- A table and the stack that it shows do the same. -/
theorem step (h : t.Represents m) (op : ScopeOp) :
    (∃ a t' m', t.step op = .ok (a, t') ∧ m.step op = some (a, m') ∧ t'.Represents m') ∨
      (∃ e, t.step op = .error e) ∧ m.step op = none := by
  cases op with
  | push kind => exact .inl ⟨none, _, _, rfl, rfl, h.push kind⟩
  | pop =>
    have shows := h.locals
    unfold SymbolTable.step SymbolTable.pop ScopeStack.step
    cases scopes : t.locals with
    | nil =>
      rw [scopes] at shows
      rw [List.forall₂_nil_left_iff.mp shows]
      exact .inr ⟨⟨_, rfl⟩, rfl⟩
    | cons inner outer =>
      rw [scopes] at shows
      obtain ⟨names, maps, -, rest, eq⟩ := List.forall₂_cons_left_iff.mp shows
      rw [eq]
      exact .inl ⟨none, _, _, rfl, rfl, rest, h.global, h.order⟩
  | insert s =>
    obtain ⟨same, shows⟩ := h.insert s
    exact .inl ⟨some (t.insert s).1, _, _, rfl, by rw [same]; rfl, shows⟩
  | define s =>
    obtain ⟨same, shows⟩ := h.define s
    exact .inl ⟨some (t.define s).1, _, _, rfl, by rw [same]; rfl, shows⟩
  | declare s =>
    obtain ⟨same, shows⟩ := h.declare s
    exact .inl ⟨some (t.declare s).1, _, _, rfl, by rw [same]; rfl, shows⟩

/-- And so after any number of operations. -/
theorem run (h : t.Represents m) (ops : List ScopeOp) :
    (∃ as t' m', t.run ops = .ok (as, t') ∧ m.run ops = some (as, m') ∧ t'.Represents m') ∨
      (∃ e, t.run ops = .error e) ∧ m.run ops = none := by
  induction ops generalizing t m with
  | nil => exact .inl ⟨[], t, m, rfl, rfl, h⟩
  | cons op ops ih =>
    rw [SymbolTable.run, ScopeStack.run]
    rcases h.step op with ⟨a, t', m', left, right, shows⟩ | ⟨⟨e, left⟩, right⟩
    · rw [left, right]
      rcases ih shows with ⟨as, t'', m'', left, right, shows⟩ | ⟨⟨e, left⟩, right⟩
      · refine .inl ⟨a :: as, t'', m'', ?_, ?_, shows⟩
        · simp only [bind, Except.bind, left]
          rfl
        · simp only [bind, Option.bind, right]
          rfl
      · refine .inr ⟨⟨e, ?_⟩, ?_⟩
        · simp only [bind, Except.bind, left]
        · simp only [bind, Option.bind, right]
    · rw [left, right]
      exact .inr ⟨⟨e, rfl⟩, rfl⟩

end Represents

end SymbolTable

/-! ## What a step can do -/

namespace ScopeStack

variable {m m' : ScopeStack}

/-- What an operation can do to a stack, with the outcome if it was an attempt to bind a name. -/
inductive Change (m : ScopeStack) : Option Attempt → ScopeStack → Prop
  | same {a : Attempt} : Change m (some a) m
  | opened : Change m none { m with locals := ∅ :: m.locals }
  | closed {inner : NameMap} {outer : List NameMap} : m.locals = inner :: outer →
      Change m none { m with locals := outer }
  | bound {inner : NameMap} {outer : List NameMap} {s : Symbol} : m.locals = inner :: outer →
      Change m (some ⟨true, none⟩) { m with locals := inner.insert s.name s :: outer }
  | global {s : Symbol} : Change m (some ⟨true, none⟩) (m.bindGlobal s)

theorem step_cases {op : ScopeOp} {a : Option Attempt} (ran : m.step op = some (a, m')) :
    m.Change a m' := by
  cases op with
  | push kind =>
    cases ran
    exact .opened
  | pop =>
    unfold step at ran
    cases locals : m.locals with
    | nil =>
      rw [locals] at ran
      cases ran
    | cons inner outer =>
      rw [locals] at ran
      cases ran
      exact .closed locals
  | insert s =>
    obtain ⟨rfl, rfl⟩ : some (m.insert s).1 = a ∧ (m.insert s).2 = m' := by simpa [step] using ran
    unfold insert
    cases locals : m.locals with
    | nil => cases m.global.lookup s.name with
      | none => exact .global
      | some old => exact .same
    | cons inner outer =>
      dsimp only
      cases inner.lookup s.name with
      | none => exact .bound locals
      | some old => exact .same
  | define s =>
    obtain ⟨rfl, rfl⟩ : some (m.define s).1 = a ∧ (m.define s).2 = m' := by simpa [step] using ran
    unfold define
    cases m.global.lookup s.name with
    | none => exact .global
    | some old =>
      dsimp only
      split
      · exact .global
      · exact .same
  | declare s =>
    obtain ⟨rfl, rfl⟩ : some (m.declare s).1 = a ∧ (m.declare s).2 = m' := by
      simpa [step] using ran
    unfold declare
    cases m.global.lookup s.name with
    | none => exact .global
    | some old => exact .same

/-- The global names are listed once each, and symbols are found under their names. -/
structure Orderly (m : ScopeStack) : Prop where
  nodup : m.order.Nodup
  mem : ∀ {n}, n ∈ m.order ↔ n ∈ m.global
  named : ∀ {n s}, m.global.lookup n = some s → s.name = n

theorem orderly_empty : Orderly {} where
  nodup := List.nodup_nil
  mem := by
    intro n
    exact ⟨fun mem => (by cases mem), fun mem => absurd mem Finmap.notMem_empty⟩
  named := by
    intro n s found
    rw [Finmap.lookup_empty] at found
    cases found

theorem Orderly.bindGlobal (orderly : m.Orderly) (s : Symbol) : (m.bindGlobal s).Orderly where
  nodup := by
    unfold ScopeStack.bindGlobal
    by_cases bound : s.name ∈ m.global
    · rw [if_pos bound]
      exact orderly.nodup
    · rw [if_neg bound, List.nodup_append]
      refine ⟨orderly.nodup, by simp, ?_⟩
      intro n mem n' mem' same
      obtain rfl := List.mem_singleton.mp mem'
      exact bound (orderly.mem.mp (same ▸ mem))
  mem := by
    intro n
    unfold ScopeStack.bindGlobal
    rw [Finmap.mem_insert]
    by_cases bound : s.name ∈ m.global
    · rw [if_pos bound, orderly.mem]
      exact ⟨.inr, fun mem => mem.elim (fun same => same ▸ bound) id⟩
    · rw [if_neg bound, List.mem_append, List.mem_singleton, orderly.mem]
      exact or_comm
  named := by
    intro n s' found
    by_cases same : n = s.name
    · rw [ScopeStack.bindGlobal, same, Finmap.lookup_insert] at found
      cases found
      exact same.symm
    · rw [ScopeStack.bindGlobal, Finmap.lookup_insert_of_ne _ same] at found
      exact orderly.named found

theorem Change.orderly {a : Option Attempt} (change : m.Change a m') (orderly : m.Orderly) :
    m'.Orderly := by
  cases change with
  | same => exact orderly
  | opened | closed | bound => exact ⟨orderly.nodup, orderly.mem, orderly.named⟩
  | global => exact orderly.bindGlobal _

theorem run_orderly {ops : List ScopeOp} {as : List (Option Attempt)}
    (ran : m.run ops = some (as, m')) (orderly : m.Orderly) : m'.Orderly := by
  induction ops generalizing m as with
  | nil =>
    cases ran
    exact orderly
  | cons op ops ih =>
    rw [run] at ran
    obtain ⟨⟨a, m₁⟩, step, ran⟩ := Option.bind_eq_some_iff.mp ran
    obtain ⟨⟨as', m₂⟩, rest, same⟩ := Option.bind_eq_some_iff.mp ran
    cases same
    exact ih rest ((step_cases step).orderly orderly)

/-- New global names come after the others. -/
theorem Change.order {a : Option Attempt} (change : m.Change a m') : m.order <+: m'.order := by
  cases change with
  | same | opened | closed | bound => exact List.prefix_rfl
  | @global s =>
    unfold bindGlobal
    split
    · exact List.prefix_rfl
    · exact List.prefix_append _ _

theorem Orderly.map_globals (orderly : m.Orderly) : m.globals.map (·.name) = m.order := by
  have found : ∀ n ∈ m.order, (m.global.lookup n).map (·.name) = some n := by
    intro n mem
    obtain ⟨s, found⟩ := Finmap.mem_iff.mp (orderly.mem.mp mem)
    rw [found, Option.map_some, orderly.named found]
  rw [globals, List.map_filterMap, List.filterMap_congr found, List.filterMap_some]

theorem Orderly.mem_globals (orderly : m.Orderly) {s : Symbol} :
    s ∈ m.globals ↔ m.global.lookup s.name = some s := by
  rw [globals, List.mem_filterMap]
  constructor
  · rintro ⟨n, -, found⟩
    rw [orderly.named found]
    exact found
  · intro found
    exact ⟨s.name, orderly.mem.mpr (Finmap.mem_of_lookup_eq_some found), found⟩

end ScopeStack

/-! ## Scopes that are closed again -/

/-- Whether an operation is about the global scope whatever scopes are open. -/
def ScopeOp.isGlobal : ScopeOp → Bool
  | define _ | declare _ => true
  | _ => false

/-- Operations that close the scopes they open and no others. -/
inductive Balanced : List ScopeOp → Prop
  | nil : Balanced []
  | insert {s : Symbol} {ops : List ScopeOp} : Balanced ops → Balanced (.insert s :: ops)
  | global {op : ScopeOp} {ops : List ScopeOp} : op.isGlobal = true → Balanced ops →
      Balanced (op :: ops)
  | scope {kind : ScopeKind} {body ops : List ScopeOp} : Balanced body → Balanced ops →
      Balanced (.push kind :: body ++ .pop :: ops)

namespace ScopeStack

variable {m m₁ m₂ : ScopeStack} {body : List ScopeOp}

theorem run_cons {op : ScopeOp} {ops : List ScopeOp} {a : Option Attempt}
    {as : List (Option Attempt)} (first : m.step op = some (a, m₁))
    (rest : m₁.run ops = some (as, m₂)) : m.run (op :: ops) = some (a :: as, m₂) := by
  rw [run, first]
  simp only [bind, Option.bind, rest]
  rfl

theorem run_append {xs ys : List ScopeOp} {as bs : List (Option Attempt)}
    (first : m.run xs = some (as, m₁)) (second : m₁.run ys = some (bs, m₂)) :
    m.run (xs ++ ys) = some (as ++ bs, m₂) := by
  induction xs generalizing m as with
  | nil =>
    cases first
    exact second
  | cons op ops ih =>
    rw [run] at first
    obtain ⟨⟨a, m₀⟩, step, first⟩ := Option.bind_eq_some_iff.mp first
    obtain ⟨⟨as', m₁'⟩, rest, same⟩ := Option.bind_eq_some_iff.mp first
    cases same
    exact run_cons step (ih rest)

/-- The stack with other local scopes. -/
def withLocals (m : ScopeStack) (maps : List NameMap) : ScopeStack := { m with locals := maps }

theorem define_withLocals (m : ScopeStack) (s : Symbol) (maps : List NameMap) :
    (m.withLocals maps).define s = (m.define s).map id (·.withLocals maps) := by
  change (match m.global.lookup s.name with
    | none => _
    | some old => _) = _
  unfold define
  cases m.global.lookup s.name with
  | none => rfl
  | some old =>
    dsimp only
    split <;> rfl

theorem declare_withLocals (m : ScopeStack) (s : Symbol) (maps : List NameMap) :
    (m.withLocals maps).declare s = (m.declare s).map id (·.withLocals maps) := by
  unfold declare
  change (match m.global.lookup s.name with
    | none => _
    | some old => _) = _
  cases m.global.lookup s.name <;> rfl

/-- An operation on the global scope does the same whatever local scopes are open. -/
theorem step_global {op : ScopeOp} (isGlobal : op.isGlobal = true) (m : ScopeStack) :
    ∃ a, ∃ m' : ScopeStack,
      ∀ maps, (m.withLocals maps).step op = some (a, m'.withLocals maps) := by
  cases op with
  | push | pop | insert => cases isGlobal
  | define s =>
    refine ⟨some (m.define s).1, (m.define s).2, fun maps => ?_⟩
    rw [step, define_withLocals]
    rfl
  | declare s =>
    refine ⟨some (m.declare s).1, (m.declare s).2, fun maps => ?_⟩
    rw [step, declare_withLocals]
    rfl

/-- A local insertion leaves the global scope and the outer scopes as they are. -/
theorem step_insert {inner : NameMap} {outer : List NameMap} (locals : m.locals = inner :: outer)
    (s : Symbol) : ∃ a inner', m.step (.insert s) = some (a, m.withLocals (inner' :: outer)) := by
  rw [step, insert, locals]
  dsimp only
  cases inner.lookup s.name with
  | none => exact ⟨_, inner.insert s.name s, rfl⟩
  | some old => exact ⟨_, inner, by rw [withLocals, ← locals]⟩

/-- Operations inside a scope change only the scope and the global names, and the latter as if there
were no scope, whatever scopes are open instead. -/
def Confined (body : List ScopeOp) : Prop :=
  ∀ (m : ScopeStack) (inner : NameMap) (outer : List NameMap), m.locals = inner :: outer →
    ∃ as m' inner', m.run body = some (as, m') ∧ m'.locals = inner' :: outer ∧
      ∀ maps, ∃ bs, (m.withLocals maps).run (body.filter (·.isGlobal)) =
        some (bs, m'.withLocals maps)

/-- Outside of a scope that is closed again, only what was done to the global names can be seen. -/
theorem Confined.closed (confined : Confined body) (m : ScopeStack) (kind : ScopeKind) :
    ∃ as m', m.run (.push kind :: body ++ [.pop]) = some (as, m') ∧ m'.locals = m.locals ∧
      ∀ maps, ∃ bs, (m.withLocals maps).run (body.filter (·.isGlobal)) =
        some (bs, m'.withLocals maps) := by
  obtain ⟨as, m₁, inner, ran, locals, alike⟩ :=
    confined (m.withLocals (∅ :: m.locals)) ∅ m.locals rfl
  have pop : m₁.run [.pop] = some ([none], m₁.withLocals m.locals) := by
    rw [run, step, locals]
    rfl
  exact ⟨_, _, run_append (run_cons rfl ran) pop, rfl, alike⟩

theorem confined_of_balanced (balanced : Balanced body) : Confined body := by
  -- Scopes inside the scope are closed too, so that they leave what global operations leave.
  induction balanced with
  | nil =>
    intro m inner outer locals
    exact ⟨[], m, inner, rfl, locals, fun maps => ⟨[], rfl⟩⟩
  | insert rest ih =>
    intro m inner outer locals
    obtain ⟨a, inner₁, first⟩ := step_insert locals _
    obtain ⟨as, m', inner', ran, locals', alike⟩ := ih (m.withLocals (inner₁ :: outer)) _ _ rfl
    exact ⟨_, m', inner', run_cons first ran, locals', alike⟩
  | global isGlobal rest ih =>
    intro m inner outer locals
    obtain ⟨a, m₁, first⟩ := step_global isGlobal m
    have here : m.withLocals (inner :: outer) = m := by rw [withLocals, ← locals]
    obtain ⟨as, m', inner', ran, locals', alike⟩ :=
      ih (m₁.withLocals (inner :: outer)) _ _ rfl
    refine ⟨_, m', inner', run_cons (here ▸ first _) ran, locals', fun maps => ?_⟩
    obtain ⟨bs, ran⟩ := alike maps
    rw [List.filter_cons_of_pos isGlobal]
    exact ⟨_, run_cons (first maps) ran⟩
  | @scope kind body ops _ _ ihBody ihOps =>
    intro m inner outer locals
    obtain ⟨as, m₁, ran, locals₁, alike⟩ := Confined.closed ihBody m kind
    obtain ⟨bs, m', inner', ran', locals', alike'⟩ := ihOps m₁ inner outer (locals₁.trans locals)
    have both := run_append ran ran'
    rw [List.append_assoc] at both
    refine ⟨as ++ bs, m', inner', both, locals', fun maps => ?_⟩
    obtain ⟨cs, ran⟩ := alike maps
    obtain ⟨ds, ran'⟩ := alike' maps
    have parts : (ScopeOp.push kind :: body ++ .pop :: ops).filter (·.isGlobal) =
        body.filter (·.isGlobal) ++ ops.filter (·.isGlobal) := by
      simp [ScopeOp.isGlobal]
    rw [parts]
    exact ⟨_, run_append ran ran'⟩

end ScopeStack

/-! ## Every sequence of operations -/

namespace SymbolTable

/-- What a table shows that was reached from the empty one. -/
theorem exists_represents {ops : List ScopeOp} {as : List (Option Attempt)} {t : SymbolTable}
    (ran : ({} : SymbolTable).run ops = .ok (as, t)) :
    ∃ m, t.Represents m ∧ m.Orderly := by
  rcases Represents.empty.run ops with ⟨bs, t', m, left, right, shows⟩ | ⟨⟨e, left⟩, -⟩
  · rw [ran] at left
    cases left
    exact ⟨m, shows, ScopeStack.run_orderly right ScopeStack.orderly_empty⟩
  · rw [ran] at left
    cases left

variable {t t' : SymbolTable} {m : ScopeStack}

theorem Represents.step_ok (h : t.Represents m) {op : ScopeOp} {a : Option Attempt}
    (ran : t.step op = .ok (a, t')) : ∃ m', m.Change a m' ∧ t'.Represents m' := by
  rcases h.step op with ⟨b, t₁, m', left, right, shows⟩ | ⟨⟨e, left⟩, -⟩
  · rw [ran] at left
    cases left
    exact ⟨m', ScopeStack.step_cases right, shows⟩
  · rw [ran] at left
    cases left

theorem Represents.run_ok (h : t.Represents m) {ops : List ScopeOp} {as : List (Option Attempt)}
    {m' : ScopeStack} (ran : m.run ops = some (as, m')) :
    ∃ t', t.run ops = .ok (as, t') ∧ t'.Represents m' := by
  rcases h.run ops with ⟨bs, t', m₁, left, right, shows⟩ | ⟨-, right⟩
  · rw [ran] at right
    cases right
    exact ⟨t', left, shows⟩
  · rw [ran] at right
    cases right

/-- A symbol table is a stack of finite maps. After every sequence of operations it gives the
answers of the stack, and it fails when the stack does. An attempt that is not accepted changes no
answer, a scope that is closed leaves only what was done to the global names, and the list of global
symbols has each global name once with what it stands for, where new names come last. -/
theorem table_is_stack :
    (∀ ops, ((({} : SymbolTable).run ops).toOption.map fun r => (r.1, r.2.answers)) =
      (({} : ScopeStack).run ops).map fun r => (r.1, r.2.answers)) ∧
    ∀ {ops as t}, ({} : SymbolTable).run ops = .ok (as, t) →
      (∀ {op a t'}, t.step op = .ok (some a, t') → a.accepted = false → t'.answers = t.answers) ∧
      (∀ kind body, Balanced body → ∃ bs t₁ cs t₂,
        t.run (.push kind :: body ++ [.pop]) = .ok (bs, t₁) ∧
        t.run (body.filter (·.isGlobal)) = .ok (cs, t₂) ∧ t₁.answers = t₂.answers) ∧
      (t.globals.map (·.name)).Nodup ∧
      (∀ {n s}, s ∈ t.globals ∧ s.name = n ↔ t.findGlobal? n = some s) ∧
      ∀ {op a t'}, t.step op = .ok (a, t') →
        t.globals.map (·.name) <+: t'.globals.map (·.name) := by
  constructor
  · intro ops
    rcases Represents.empty.run ops with ⟨as, t, m, left, right, shows⟩ | ⟨⟨e, left⟩, right⟩
    · rw [left, right]
      change some (as, t.answers) = some (as, m.answers)
      rw [shows.answers]
    · rw [left, right]
      rfl
  intro ops as t ran
  obtain ⟨m, shows, orderly⟩ := exists_represents ran
  refine ⟨?_, ?_, ?_, ?_, ?_⟩
  · intro op a t' step rejected
    obtain ⟨m', change, shows'⟩ := shows.step_ok step
    cases change with
    | same => rw [shows'.answers, shows.answers]
    | bound | global => cases rejected
  · intro kind body balanced
    obtain ⟨bs, m', ran, locals, alike⟩ := (ScopeStack.confined_of_balanced balanced).closed m kind
    obtain ⟨cs, ran'⟩ := alike m.locals
    have same : m'.withLocals m.locals = m' := by rw [ScopeStack.withLocals, ← locals]
    rw [same] at ran'
    obtain ⟨t₁, left, shows₁⟩ := shows.run_ok ran
    obtain ⟨t₂, right, shows₂⟩ := shows.run_ok ran'
    exact ⟨bs, t₁, cs, t₂, left, right, by rw [shows₁.answers, shows₂.answers]⟩
  · rw [shows.globals, orderly.map_globals]
    exact orderly.nodup
  · intro n s
    rw [shows.globals, shows.findGlobal?, orderly.mem_globals]
    constructor
    · rintro ⟨found, rfl⟩
      exact found
    · intro found
      obtain rfl := orderly.named found
      exact ⟨found, rfl⟩
  · intro op a t' step
    obtain ⟨m', change, shows'⟩ := shows.step_ok step
    rw [shows.globals, shows'.globals, orderly.map_globals, (change.orderly orderly).map_globals]
    exact change.order

/-- A function `f` whose body is known or not. -/
def sampleFn (defined : Bool) : Symbol := ⟨"f", default, .int, .function 1 [] defined⟩

/-- A variable `x` in a slot. -/
def sampleVar (slot : Koopa.ValueId) : Symbol := ⟨"x", default, .int, .variable slot⟩

theorem shadowed_is_stack : ∃ as t bs t',
    ({} : SymbolTable).run [.declare (sampleFn false), .insert (sampleVar 1)] = .ok (as, t) ∧
    t.run (.push .block :: [.insert (sampleVar 2), .define (sampleFn true),
      .insert (sampleVar 3)] ++ [.pop]) = .ok (bs, t') ∧
    t'.find? "x" = some (sampleVar 1) ∧ t'.globals = [sampleFn true, sampleVar 1] := by
  have ran : ({} : SymbolTable).run [.declare (sampleFn false), .insert (sampleVar 1)] =
      .ok (_, _) := rfl
  obtain ⟨bs, t', cs, t₂, left, right, same⟩ := (table_is_stack.2 ran).2.1 .block
    [.insert (sampleVar 2), .define (sampleFn true), .insert (sampleVar 3)]
    (.insert (.global rfl (.insert .nil)))
  cases right
  have find := congrArg (Answers.find · "x") same
  have globals := congrArg Answers.globals same
  exact ⟨_, _, bs, t', ran, left, find.trans (by decide), globals.trans (by decide)⟩

end SymbolTable

end SysY

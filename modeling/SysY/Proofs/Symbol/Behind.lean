import SysY.Proofs.Const.Only
import SysY.Proofs.Koopa.Behind
import SysY.Proofs.Symbol.Scopes

/-! # A symbol table behind another one

`t.behind front base` is the table `t` with the symbols of `front` ahead of its own, which then
stand for values and functions behind those of the program `base`. The names of `front` are bound
globally. For all other names it does not matter whether they are looked up or bound there or in `t`
alone. -/

namespace SysY

open Koopa (past past_succ past_injective)

/-! ## Symbols -/

namespace Symbol

/-- What a symbol stands for, behind a program. -/
def Meaning.behind (base : Koopa.Program) : Meaning → Meaning
  | constant value slot => constant value (slot.map base.pastValue)
  | «variable» slot => «variable» (base.pastValue slot)
  | function fn params defined => function (base.pastFn fn) params defined

/-- A symbol behind a program. -/
def behind (base : Koopa.Program) (s : Symbol) : Symbol :=
  { s with meaning := s.meaning.behind base }

variable (base : Koopa.Program) (s : Symbol)

theorem isFunction_behind : (s.behind base).isFunction = s.isFunction := by
  unfold isFunction behind
  cases s.meaning <;> rfl

theorem isDefined_behind : (s.behind base).isDefined = s.isDefined := by
  unfold isDefined behind
  cases s.meaning <;> rfl

theorem binding_behind : (s.behind base).binding = s.binding := by
  unfold binding behind
  cases s.meaning <;> rfl

theorem slot?_behind : (s.behind base).slot? = s.slot?.map base.pastValue := by
  unfold slot? behind
  cases s.meaning <;> rfl

end Symbol

/-! ## Scopes -/

namespace Scope

/-- A scope whose symbols are numbered behind `n` others. -/
def behind (n : Nat) (s : Scope) : Scope :=
  { s with
    names := s.names.map fun (name, id) => (name, past n id)
    order := s.order.map (past n) }

variable (n : Nat) (s : Scope)

theorem find?_behind (name : String) : (s.behind n).find? name = (s.find? name).map (past n) := by
  unfold find? behind
  induction s.names with
  | nil => rfl
  | cons entry names ih =>
    rw [List.map_cons, List.lookup_cons, List.lookup_cons]
    cases name == entry.1 with
    | true => rfl
    | false => exact ih

theorem bind_behind (name : String) (id : Nat) :
    (s.behind n).bind name (past n id) = (s.bind name id).behind n := by
  have others : (s.behind n).names.filter (·.1 != name) =
      (s.names.filter (·.1 != name)).map fun (name, id) => (name, past n id) := List.filter_map
  unfold bind
  rw [others, find?_behind, Option.isSome_map]
  split
  · rfl
  · simp [behind]

/-- A scope that also has the names of another one, which were bound before. -/
def after (s front : Scope) : Scope :=
  { s with names := s.names ++ front.names, order := front.order ++ s.order }

section After

variable {front : Scope} {name : String} (free : front.find? name = none)

include free

theorem find?_after : (s.after front).find? name = s.find? name := by
  unfold find? at *
  rw [after, List.lookup_append, free, Option.or_none]

theorem bind_after (id : Nat) : (s.after front).bind name id = (s.bind name id).after front := by
  have others : front.names.filter (·.1 != name) = front.names :=
    (List.cons.inj (@names_bind _ _ id free)).2
  unfold bind
  rw [find?_after s free]
  cases (s.find? name).isSome <;> simp [after, others]

end After

end Scope

namespace SymbolTable

/-! ## Tables -/

/-- A table with the global symbols of another one ahead of its own. -/
def behind (t front : SymbolTable) (base : Koopa.Program) : SymbolTable where
  symbols := front.symbols ++ t.symbols.map (·.behind base)
  global := (t.global.behind front.symbols.size).after front.global
  locals := t.locals.map (·.behind front.symbols.size)
  pushes := t.pushes
  pops := t.pops

/-- An attempt to bind a name behind a program. -/
def Attempt.behind (base : Koopa.Program) (a : Attempt) : Attempt :=
  { a with existing := a.existing.map (·.behind base) }

variable (t front : SymbolTable) (base : Koopa.Program)

theorem get?_behind (id : Nat) :
    (t.behind front base).get? (past front.symbols.size id) = (t.get? id).map (·.behind base) :=
  Koopa.Program.numbered?_past front.symbols t.symbols (·.behind base) id

theorem depth_behind : (t.behind front base).depth = t.depth := List.length_map ..

theorem leave_follows (depth : Nat) : Outcome.Follows (·.behind front base) (t.leave depth)
    ((t.behind front base).leave depth) := by
  unfold leave pop
  rw [depth_behind]
  split
  · have locals : (t.behind front base).locals = t.locals.map (·.behind front.symbols.size) := rfl
    rw [locals]
    cases t.locals with
    | nil => exact Outcome.follows_refuse _ _
    | cons inner outer => exact .ok { t with locals := outer, pops := t.pops + 1 }
  · exact Outcome.follows_refuse _ _

section Free

variable {name : String} (free : front.globalId? name = none)

include free

theorem globalId?_behind :
    (t.behind front base).globalId? name = (t.globalId? name).map (past front.symbols.size) := by
  rw [globalId?, behind, Scope.find?_after _ free, Scope.find?_behind, globalId?]

theorem findGlobal?_behind :
    (t.behind front base).findGlobal? name = (t.findGlobal? name).map (·.behind base) := by
  unfold findGlobal?
  rw [globalId?_behind t front base free]
  cases t.globalId? name with
  | none => rfl
  | some id => exact get?_behind t front base id

theorem find?_behind :
    (t.behind front base).find? name = (t.find? name).map (·.behind base) := by
  have locals : (t.behind front base).locals.findSome? (·.find? name) =
      (t.locals.findSome? (·.find? name)).map (past front.symbols.size) := by
    rw [behind, List.findSome?_map, List.map_findSome?]
    exact congrArg (List.findSome? · t.locals) (funext fun s => s.find?_behind _ name)
  unfold find?
  rw [locals]
  cases t.locals.findSome? (·.find? name) with
  | none => exact findGlobal?_behind t front base free
  | some id => exact get?_behind t front base id

end Free

/-- Names that `front` does not bind stand for the same constants. -/
theorem env_behind :
    t.env.Agree (fun name => front.globalId? name = none) (t.behind front base).env := by
  intro name free
  unfold env
  rw [find?_behind t front base free]
  cases t.find? name with
  | none => rfl
  | some s => exact s.binding_behind base

theorem globalEnv_behind :
    t.globalEnv.Agree (fun name => front.globalId? name = none)
      (t.behind front base).globalEnv := by
  intro name free
  unfold globalEnv
  rw [findGlobal?_behind t front base free]
  cases t.findGlobal? name with
  | none => rfl
  | some s => exact s.binding_behind base

/-! ## Binding -/

section Binding

variable {s : Symbol}

theorem size_behind : (t.behind front base).symbols.size + 1 =
    past front.symbols.size (t.symbols.size + 1) := by
  simp [behind, past_succ]

theorem bindGlobal_behind (free : front.globalId? s.name = none) :
    (t.behind front base).bindGlobal (s.behind base) = (t.bindGlobal s).behind front base := by
  unfold bindGlobal
  rw [size_behind, behind, show (s.behind base).name = s.name from rfl, Scope.bind_after _ free,
    Scope.bind_behind]
  simp [behind]

/-- Where a name is bound already, both attempts find the same symbol. -/
theorem insert_behind (free : front.globalId? s.name = none) :
    (t.behind front base).insert (s.behind base) =
      ((t.insert s).1.behind base, (t.insert s).2.behind front base) := by
  cases scopes : t.locals with
  | nil =>
    have scopes' : (t.behind front base).locals = [] := by rw [behind, scopes]; rfl
    unfold insert
    rw [scopes, scopes']
    dsimp only
    rw [show (s.behind base).name = s.name from rfl, globalId?_behind t front base free]
    cases t.globalId? s.name with
    | none => exact congrArg (Prod.mk _) (bindGlobal_behind t front base free)
    | some id => exact congrArg (fun e => (Attempt.mk false e, _)) (get?_behind t front base id)
  | cons inner outer =>
    have scopes' : (t.behind front base).locals =
        inner.behind front.symbols.size :: outer.map (·.behind front.symbols.size) := by
      rw [behind, scopes]
      rfl
    have found := inner.find?_behind front.symbols.size s.name
    cases bound : inner.find? s.name with
    | some id =>
      rw [bound] at found
      rw [insert_taken scopes bound, insert_taken scopes' (s := s.behind base) found]
      exact congrArg (fun e => (Attempt.mk false e, _)) (get?_behind t front base id)
    | none =>
      rw [bound] at found
      rw [insert_fresh scopes bound, insert_fresh scopes' (s := s.behind base) found]
      refine congrArg (Prod.mk _) ?_
      unfold SymbolTable.bound
      rw [size_behind, show (s.behind base).name = s.name from rfl, Scope.bind_behind]
      simp [behind]

theorem define_behind (free : front.globalId? s.name = none) :
    (t.behind front base).define (s.behind base) =
      ((t.define s).1.behind base, (t.define s).2.behind front base) := by
  unfold define
  rw [show (s.behind base).name = s.name from rfl, findGlobal?_behind t front base free]
  cases t.findGlobal? s.name with
  | none => exact congrArg (Prod.mk _) (bindGlobal_behind t front base free)
  | some old =>
    dsimp only [Option.map_some]
    rw [Symbol.isFunction_behind, Symbol.isDefined_behind, Symbol.isFunction_behind]
    split
    · exact congrArg (Prod.mk _) (bindGlobal_behind t front base free)
    · rfl

theorem declare_behind (free : front.globalId? s.name = none) :
    (t.behind front base).declare (s.behind base) =
      ((t.declare s).1.behind base, (t.declare s).2.behind front base) := by
  unfold declare
  rw [show (s.behind base).name = s.name from rfl, findGlobal?_behind t front base free]
  cases t.findGlobal? s.name with
  | none => exact congrArg (Prod.mk _) (bindGlobal_behind t front base free)
  | some old =>
    dsimp only [Option.map_some]
    rw [Symbol.isFunction_behind, Symbol.isFunction_behind]
    rfl

end Binding

end SymbolTable
end SysY

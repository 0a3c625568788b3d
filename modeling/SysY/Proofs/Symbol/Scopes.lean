import Mathlib.Data.Set.Basic
import SysY.Proofs.Koopa.Growth
import SysY.Symbol.Table

/-! # Scopes while lowering

Symbols keep their numbers, and inside a function only the innermost scope gets new names.
`SymbolTable.Later` and `Widens` say so. -/

namespace SysY

namespace Scope

theorem mem_of_find? {s : Scope} {name : String} {id : Nat} (h : s.find? name = some id) :
    (name, id) ∈ s.names := by
  obtain ⟨l₁, l₂, eq, -⟩ := List.lookup_eq_some_iff.mp h
  rw [eq]
  simp

/-- Binding a new name puts it in front of the others. -/
theorem names_bind {s : Scope} {name : String} {id : Nat} (fresh : s.find? name = none) :
    (s.bind name id).names = (name, id) :: s.names := by
  have keep : s.names.filter (·.1 != name) = s.names := by
    rw [List.filter_eq_self]
    intro entry mem
    have other := List.lookup_eq_none_iff.mp fresh entry mem
    rw [bne_comm]
    simpa [bne, Bool.not_eq_true] using other
  simp [bind, keep]

theorem not_mem_of_find? {s : Scope} {name : String} (fresh : s.find? name = none) (id : Nat) :
    (name, id) ∉ s.names := by
  intro mem
  simpa using List.lookup_eq_none_iff.mp fresh _ mem

/-- Binding a name takes the place of what it was bound to. -/
theorem mem_bind {s : Scope} {name n : String} {id i : Nat} :
    (n, i) ∈ (s.bind name id).names ↔ n = name ∧ i = id ∨ n ≠ name ∧ (n, i) ∈ s.names := by
  simp only [bind, List.mem_cons, Prod.mk.injEq, List.mem_filter, bne_iff_ne]
  exact or_congr_right and_comm

/-- What a name is bound to after a name was bound. -/
theorem find?_bind (s : Scope) (name : String) (id : Nat) (n : String) :
    (s.bind name id).find? n = if n = name then some id else s.find? n := by
  have other : n ≠ name → (s.names.filter (·.1 != name)).lookup n = s.names.lookup n := by
    intro different
    induction s.names with
    | nil => rfl
    | cons entry names ih =>
      obtain ⟨m, i⟩ := entry
      by_cases same : m = name
      · rw [List.filter_cons_of_neg (by simp [same]), ih, same, List.lookup_cons,
          beq_eq_false_iff_ne.mpr different]
      · rw [List.filter_cons_of_pos (by simp [same]), List.lookup_cons, List.lookup_cons, ih]
  change List.lookup n ((name, id) :: s.names.filter (·.1 != name)) = _
  rw [List.lookup_cons]
  by_cases same : n = name
  · rw [if_pos same, beq_iff_eq.mpr same]
  · rw [if_neg same, beq_eq_false_iff_ne.mpr same, other same]
    rfl

end Scope

/-- Names were only added to the innermost scope. -/
inductive Widens : List Scope → List Scope → Prop
  | refl (scopes : List Scope) : Widens scopes scopes
  | inner {inner inner' : Scope} {outer : List Scope} (new : List (String × Nat)) :
      inner'.names = new ++ inner.names → Widens (inner :: outer) (inner' :: outer)

namespace Widens

theorem trans {a b c : List Scope} (h : Widens a b) (h' : Widens b c) : Widens a c := by
  cases h with
  | refl => exact h'
  | inner new names =>
    cases h' with
    | refl => exact .inner new names
    | inner more names' => exact .inner (more ++ new) (by rw [names', names, List.append_assoc])

theorem length_eq {a b : List Scope} (h : Widens a b) : b.length = a.length := by
  cases h <;> rfl

theorem tail_eq {a b : List Scope} (h : Widens a b) : b.tail = a.tail := by
  cases h <;> rfl

end Widens

namespace SymbolTable

/-- A later state of a table inside one function. -/
structure Later (t t' : SymbolTable) : Prop where
  kept : ∀ {id s}, t.get? id = some s → t'.get? id = some s
  global : t'.global = t.global

theorem Later.refl (t : SymbolTable) : t.Later t := ⟨id, rfl⟩

theorem Later.trans {a b c : SymbolTable} (h : a.Later b) (h' : b.Later c) : a.Later c :=
  ⟨fun found => h'.kept (h.kept found), h'.global.trans h.global⟩

theorem get?_push (t : SymbolTable) (s : Symbol) (scopes : List Scope) (g : Scope) (id : Nat) :
    ({ t with symbols := t.symbols.push s, locals := scopes, global := g } : SymbolTable).get? id =
      if id = t.symbols.size + 1 then some s else t.get? id :=
  Koopa.Program.numbered?_push t.symbols s id

theorem get?_le_size {t : SymbolTable} {id : Nat} {s : Symbol} (found : t.get? id = some s) :
    id ≤ t.symbols.size := by
  change Koopa.Program.numbered? t.symbols id = some s at found
  exact (Koopa.Program.numbered?_bounds found).2

/-- Where a name that is found is bound. -/
theorem find?_eq_some {t : SymbolTable} {name : String} {s : Symbol}
    (h : t.find? name = some s) :
    (∃ sc ∈ t.locals, ∃ id, (name, id) ∈ sc.names ∧ t.get? id = some s) ∨
      ∃ id, (name, id) ∈ t.global.names ∧ t.get? id = some s := by
  unfold find? at h
  split at h
  · rename_i id found
    obtain ⟨sc, mem, here⟩ := List.exists_of_findSome?_eq_some found
    exact .inl ⟨sc, mem, id, Scope.mem_of_find? here, h⟩
  · unfold findGlobal? globalId? at h
    obtain ⟨id, found, h⟩ := Option.bind_eq_some_iff.mp h
    exact .inr ⟨id, Scope.mem_of_find? found, h⟩

theorem findGlobal?_eq_some {t : SymbolTable} {name : String} {s : Symbol}
    (h : t.findGlobal? name = some s) : ∃ id, (name, id) ∈ t.global.names ∧ t.get? id = some s := by
  unfold findGlobal? globalId? at h
  obtain ⟨id, found, h⟩ := Option.bind_eq_some_iff.mp h
  exact ⟨id, Scope.mem_of_find? found, h⟩

theorem get?_bindGlobal (t : SymbolTable) (s : Symbol) (id : Nat) :
    (t.bindGlobal s).get? id = if id = t.symbols.size + 1 then some s else t.get? id :=
  get?_push t s t.locals _ id

/-- Symbols keep their numbers when a name is bound. -/
theorem get?_bindGlobal_of_some {t : SymbolTable} {s s' : Symbol} {id : Nat}
    (found : t.get? id = some s) : (t.bindGlobal s').get? id = some s := by
  rw [get?_bindGlobal, if_neg (by have := get?_le_size found; omega)]
  exact found

/-- The table after a symbol was bound in the innermost scope. -/
def bound (t : SymbolTable) (s : Symbol) (inner : Scope) (outer : List Scope) : SymbolTable :=
  { t with
    symbols := t.symbols.push s
    locals := inner.bind s.name (t.symbols.size + 1) :: outer }

theorem insert_fresh {t : SymbolTable} {s : Symbol} {inner : Scope} {outer : List Scope}
    (scopes : t.locals = inner :: outer) (fresh : inner.find? s.name = none) :
    t.insert s = (⟨true, none⟩, t.bound s inner outer) := by
  simp only [insert, scopes, fresh, bound]

theorem insert_taken {t : SymbolTable} {s : Symbol} {inner : Scope} {outer : List Scope} {id : Nat}
    (scopes : t.locals = inner :: outer) (taken : inner.find? s.name = some id) :
    t.insert s = (⟨false, t.get? id⟩, t) := by
  simp only [insert, scopes, taken]

theorem later_bound (t : SymbolTable) (s : Symbol) (inner : Scope) (outer : List Scope) :
    t.Later (t.bound s inner outer) where
  kept := fun {id _} found => by
    unfold bound
    rw [get?_push, if_neg (by have := get?_le_size found; omega)]
    exact found
  global := rfl

theorem get?_bound (t : SymbolTable) (s : Symbol) (inner : Scope) (outer : List Scope) :
    (t.bound s inner outer).get? (t.symbols.size + 1) = some s := by
  unfold bound
  rw [get?_push, if_pos rfl]

/-! ### Views of all symbols -/

/-- A table that shows of each symbol what `f` shows. -/
def map (f : Symbol → Symbol) (t : SymbolTable) : SymbolTable :=
  { t with symbols := t.symbols.map f }

section View

variable (f : Symbol → Symbol) (t : SymbolTable)

theorem get?_map (id : Nat) : (t.map f).get? id = (t.get? id).map f := by
  unfold get? map
  split
  · rfl
  · rw [Array.getElem?_map]

theorem findGlobal?_map (name : String) :
    (t.map f).findGlobal? name = (t.findGlobal? name).map f := by
  unfold findGlobal?
  change (t.globalId? name).bind (t.map f).get? = _
  rw [Option.map_bind]
  congr 1
  exact funext (t.get?_map f)

theorem find?_map (name : String) : (t.map f).find? name = (t.find? name).map f := by
  have locals : (t.map f).locals = t.locals := rfl
  unfold find?
  rw [locals]
  cases t.locals.findSome? (·.find? name) with
  | some id => exact t.get?_map f id
  | none => exact t.findGlobal?_map f name

variable {f}

/-- A view that shows what symbols are worth leaves constant expressions as they are. -/
theorem env_map (binding : ∀ s, (f s).binding = s.binding) : (t.map f).env = t.env := by
  funext name
  unfold env
  rw [find?_map]
  cases t.find? name with
  | none => rfl
  | some s => exact binding s

theorem globalEnv_map (binding : ∀ s, (f s).binding = s.binding) :
    (t.map f).globalEnv = t.globalEnv := by
  funext name
  unfold globalEnv
  rw [findGlobal?_map]
  cases t.findGlobal? name with
  | none => rfl
  | some s => exact binding s

variable (name : ∀ s, (f s).name = s.name) (s : Symbol)

include name in
theorem bound_map (inner : Scope) (outer : List Scope) :
    (t.map f).bound (f s) inner outer = (t.bound s inner outer).map f := by
  simp only [bound, map, Array.map_push, Array.size_map, name]

include name in
theorem bindGlobal_map : (t.map f).bindGlobal (f s) = (t.bindGlobal s).map f := by
  simp only [bindGlobal, map, Array.map_push, Array.size_map, name]

end View

/-- Symbols were bound, but no scope was opened or closed. -/
structure Gains (t t' : SymbolTable) : Prop where
  depth : t'.depth = t.depth
  pushes : t'.pushes = t.pushes
  pops : t'.pops = t.pops
  kept : ∀ {id s}, t.get? id = some s → t'.get? id = some s

theorem Gains.refl (t : SymbolTable) : t.Gains t := ⟨rfl, rfl, rfl, id⟩

theorem gains_bindGlobal (t : SymbolTable) (s : Symbol) : t.Gains (t.bindGlobal s) :=
  ⟨rfl, rfl, rfl, get?_bindGlobal_of_some⟩

theorem gains_insert (t : SymbolTable) (s : Symbol) : t.Gains (t.insert s).2 := by
  cases scopes : t.locals with
  | nil =>
    rw [insert, scopes]
    dsimp only
    split
    · exact .refl t
    · exact gains_bindGlobal t s
  | cons inner outer =>
    cases found : inner.find? s.name with
    | some id =>
      rw [insert_taken scopes found]
      exact .refl t
    | none =>
      rw [insert_fresh scopes found]
      exact ⟨by simp [bound, depth, scopes], rfl, rfl, (later_bound t s inner outer).kept⟩

/-- In a local scope no global name is bound. -/
theorem insert_global {t : SymbolTable} (inside : t.depth ≠ 0) (s : Symbol) :
    (t.insert s).2.global = t.global := by
  cases scopes : t.locals with
  | nil => simp [depth, scopes] at inside
  | cons inner outer =>
    cases found : inner.find? s.name with
    | some id => rw [insert_taken scopes found]
    | none =>
      rw [insert_fresh scopes found]
      rfl

/-- No local name stands for a function. -/
def Apart (t : SymbolTable) : Prop :=
  ∀ sc ∈ t.locals, ∀ {n id}, (n, id) ∈ sc.names → ∃ s, t.get? id = some s ∧ s.isFunction = false

theorem Apart.push {t : SymbolTable} (apart : t.Apart) (kind : ScopeKind) :
    (t.push kind).Apart := by
  intro sc mem n id here
  rcases List.mem_cons.mp mem with rfl | outer
  · cases here
  · exact apart sc outer here

theorem Apart.insert {t : SymbolTable} (apart : t.Apart) {s : Symbol}
    (value : s.isFunction = false) : (t.insert s).2.Apart := by
  have gains := gains_insert t s
  cases scopes : t.locals with
  | nil =>
    have none : (t.insert s).2.locals = [] :=
      List.length_eq_zero_iff.mp (gains.depth.trans (by rw [depth, scopes]; rfl))
    intro sc mem
    rw [none] at mem
    cases mem
  | cons inner outer =>
    cases found : inner.find? s.name with
    | some id =>
      rw [insert_taken scopes found]
      exact apart
    | none =>
      rw [insert_fresh scopes found] at gains ⊢
      intro sc mem n id here
      have old : ∀ {sc}, sc ∈ t.locals → (n, id) ∈ sc.names →
          ∃ s', (t.bound s inner outer).get? id = some s' ∧ s'.isFunction = false := by
        intro sc mem here
        obtain ⟨s', known, isValue⟩ := apart sc mem here
        exact ⟨s', gains.kept known, isValue⟩
      rcases List.mem_cons.mp mem with rfl | later
      · rcases Scope.mem_bind.mp here with ⟨-, rfl⟩ | ⟨-, before⟩
        · exact ⟨s, get?_bound t s inner outer, value⟩
        · exact old (by simp [scopes]) before
      · exact old (by simp [scopes, later]) here

/-- A function that is found under a name is a global one. -/
theorem Apart.findGlobal? {t : SymbolTable} (apart : t.Apart) {name : String} {s : Symbol}
    (found : t.find? name = some s) (isFunction : s.isFunction = true) :
    t.findGlobal? name = some s := by
  unfold find? at found
  split at found
  · rename_i id here
    obtain ⟨sc, mem, bound⟩ := List.exists_of_findSome?_eq_some here
    obtain ⟨s', known, isValue⟩ := apart sc mem (Scope.mem_of_find? bound)
    cases known.symm.trans found
    rw [isFunction] at isValue
    cases isValue
  · exact found

theorem gains_define (t : SymbolTable) (s : Symbol) : t.Gains (t.define s).2 := by
  unfold define
  split
  · exact gains_bindGlobal t s
  · split
    · exact gains_bindGlobal t s
    · exact .refl t

theorem gains_declare (t : SymbolTable) (s : Symbol) : t.Gains (t.declare s).2 := by
  unfold declare
  split
  · exact gains_bindGlobal t s
  · exact .refl t

theorem leave_eq {t : SymbolTable} {inner : Scope} {outer : List Scope}
    (scopes : t.locals = inner :: outer) :
    t.leave (outer.length + 1) = .ok { t with locals := outer, pops := t.pops + 1 } := by
  simp only [leave, depth, scopes, List.length_cons, if_true, pop]
  rfl

/-- Every name that is bound stands for a symbol. -/
structure Valid (t : SymbolTable) : Prop where
  locals : ∀ {sc n id}, sc ∈ t.locals → (n, id) ∈ sc.names → ∃ s, t.get? id = some s
  global : ∀ {n id}, (n, id) ∈ t.global.names → ∃ s, t.get? id = some s

/-- Global names stand for the same in a later table. -/
theorem Later.findGlobal? {t t' : SymbolTable} (later : t.Later t') (valid : t.Valid)
    (name : String) : t'.findGlobal? name = t.findGlobal? name := by
  unfold SymbolTable.findGlobal? globalId?
  rw [later.global]
  cases bound : t.global.find? name with
  | none => rfl
  | some id =>
    obtain ⟨s, found⟩ := valid.global (Scope.mem_of_find? bound)
    exact (later.kept found).trans found.symm

/-- Names that are bound in the same scopes stand for the same in a later table. -/
theorem Later.find? {t t' : SymbolTable} (later : t.Later t') (valid : t.Valid)
    (locals : t'.locals = t.locals) (name : String) : t'.find? name = t.find? name := by
  unfold SymbolTable.find?
  rw [locals]
  cases bound : t.locals.findSome? (·.find? name) with
  | none => exact later.findGlobal? valid name
  | some id =>
    obtain ⟨sc, mem, here⟩ := List.exists_of_findSome?_eq_some bound
    obtain ⟨s, found⟩ := valid.locals mem (Scope.mem_of_find? here)
    exact (later.kept found).trans found.symm

/-- What a name stands for after a symbol was bound in the innermost scope. -/
theorem Valid.find?_bound {t : SymbolTable} (valid : t.Valid) (s : Symbol) {inner : Scope}
    {outer : List Scope} (scopes : t.locals = inner :: outer) (name : String) :
    (t.bound s inner outer).find? name = if name = s.name then some s else t.find? name := by
  have here := Scope.find?_bind inner s.name (t.symbols.size + 1) name
  have locals : (t.bound s inner outer).locals = inner.bind s.name (t.symbols.size + 1) :: outer := rfl
  by_cases same : name = s.name
  · rw [if_pos same] at here ⊢
    unfold SymbolTable.find?
    rw [locals, List.findSome?_cons, here]
    exact t.get?_bound s inner outer
  · -- The scopes differ from those before in the new name only.
    rw [if_neg same] at here ⊢
    have later : t.Later { t.bound s inner outer with locals := t.locals } :=
      ⟨(t.later_bound s inner outer).kept, rfl⟩
    rw [← later.find? valid rfl name]
    unfold SymbolTable.find?
    rw [locals, scopes, List.findSome?_cons, List.findSome?_cons, here]
    rfl

/-- What a name stands for after a symbol was bound in the global scope. -/
theorem Valid.findGlobal?_bindGlobal {t : SymbolTable} (valid : t.Valid) (s : Symbol)
    (name : String) : (t.bindGlobal s).findGlobal? name =
      if name = s.name then some s else t.findGlobal? name := by
  have here : (t.bindGlobal s).global.find? name =
      if name = s.name then some (t.symbols.size + 1) else t.global.find? name :=
    Scope.find?_bind ..
  unfold SymbolTable.findGlobal? globalId?
  rw [here]
  by_cases same : name = s.name
  · rw [if_pos same, if_pos same]
    exact (get?_bindGlobal ..).trans (if_pos rfl)
  · rw [if_neg same, if_neg same]
    cases bound : t.global.find? name with
    | none => rfl
    | some id =>
      obtain ⟨s', found⟩ := valid.global (Scope.mem_of_find? bound)
      exact (get?_bindGlobal_of_some found).trans found.symm

/-- The slots of the local variables that are bound in some scope. -/
def localSlots (t : SymbolTable) : Set Koopa.ValueId :=
  { v | ∃ sc ∈ t.locals, ∃ n id s, (n, id) ∈ sc.names ∧ t.get? id = some s ∧
      s.meaning = .variable v }

end SymbolTable
end SysY

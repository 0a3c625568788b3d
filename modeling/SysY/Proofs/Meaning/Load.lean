import SysY.Proofs.Lower.Items
import SysY.Proofs.Meaning.Invoke

/-! # Loading a unit

Lowering a unit and loading it go through the items side by side. After every item, a global name
that lowering knows stands for the same thing in both (`Loads`). What was lowered stays as it is
while the rest of the unit is lowered (`Onward`), so at the end every function with a body is one
that was built (`Built`), and every other one comes from elsewhere (`Prepared`). -/

namespace SysY

/-- The slot of a global variable. -/
def SymbolTable.variableSlot? (t : SymbolTable) (name : String) : Option Koopa.ValueId :=
  (t.findGlobal? name).bind fun s =>
    match s.meaning with
    | .variable slot => some slot
    | _ => none

end SysY

namespace SysY.Meaning

open Koopa (Val Activation ValueId BlockId FnId Program Avail)
open Lower (Top BindsFn valid_of_top globalDefs_cons_eq_ok globalDecl_eq_ok declaring unit_eq_ok)

variable {avail avail' : Avail} {σ σ' : Lower.State} {env env' : Env} {m m' : Memory Int32}
  {p p' : Program} {n : Nat}

/-! ## Global variables -/

/-- The slots of the global variables of a unit, in the order in which they are defined. -/
def globalSlots (t : SymbolTable) (env : Env) : List ValueId :=
  env.reverse.filterMap fun
    | (name, .object ..) => t.variableSlot? name
    | _ => none

theorem globalSlots_congr {t t' : SymbolTable}
    (same : ∀ entry ∈ env, t'.variableSlot? entry.1 = t.variableSlot? entry.1) :
    globalSlots t' env = globalSlots t env := by
  refine List.filterMap_congr fun entry mem => ?_
  obtain ⟨name, b⟩ := entry
  cases b with
  | object dims id => exact same _ (List.mem_reverse.mp mem)
  | constant | array | function => rfl

theorem globalSlots_cons_object (t : SymbolTable) (name : String) (dims : List Int) (id : Nat)
    (env : Env) : globalSlots t ((name, .object dims id) :: env) =
      globalSlots t env ++ (t.variableSlot? name).toList := by
  cases found : t.variableSlot? name <;> simp [globalSlots, List.filterMap_append, found]

theorem globalSlots_cons_other (t : SymbolTable) (name : String) {b : Binding}
    (other : ∀ dims id, b ≠ .object dims id) (env : Env) :
    globalSlots t ((name, b) :: env) = globalSlots t env := by
  cases b with
  | object dims id => exact absurd rfl (other dims id)
  | constant | array | function => simp [globalSlots, List.filterMap_append]

/-- A global variable of the program that starts with the given data. -/
def Initial (p : Program) (g : ValueId) (data : List Int32) : Prop :=
  ∃ t init, p.Has g none (.pointer t) (.globalAlloc init) ∧ p.payload t init = some data

theorem Initial.grows {g : ValueId} {data : List Int32} (initial : Initial p g data)
    (grows : p.Grows p') : Initial p' g data := by
  obtain ⟨t, init, has, payload⟩ := initial
  exact ⟨t, init, grows.values has, payload_grows grows t payload⟩

theorem Initial.le_size {g : ValueId} {data : List Int32} (initial : Initial p g data) :
    g ≤ p.values.size := by
  obtain ⟨t, init, has, -⟩ := initial
  exact has.le_size.2

/-! ## Global names -/

/-- What a global name stands for in the program and in the unit, where `vars` are the slots of the
variables. -/
inductive StandsFor (p : Program) (vars : List ValueId) (s : Symbol) : Binding → Prop
  | constant {v : Const.Value} {slot : Option ValueId} : s.meaning = .constant v slot →
      Bounds v.dims → (v.data.length : Int) = v.dims.prod →
      (∀ g, slot = some g → Initial p g v.data ∧ g ∉ vars) →
      StandsFor p vars s (.constant v.dims v.data)
  | variable {slot : ValueId} {id : Nat} {data : List Int32} : s.meaning = .variable slot →
      s.type.IsObject → vars[id]? = some slot → Initial p slot data →
      StandsFor p vars s (.object s.type.dims id)
  | function {id : FnId} {params : List Ty} {defined : Bool} :
      s.meaning = .function id params defined → StandsFor p vars s (.function params s.type)

theorem StandsFor.onward {vars new : List ValueId} {s : Symbol} {b : Binding}
    (standsFor : StandsFor p vars s b) (grows : p.Grows p') (large : ∀ g ∈ new, p.values.size < g) :
    StandsFor p' (vars ++ new) s b := by
  cases standsFor with
  | constant meaning bounds length table =>
    refine .constant meaning bounds length fun g hg => ?_
    obtain ⟨initial, other⟩ := table g hg
    refine ⟨initial.grows grows, fun mem => ?_⟩
    rcases List.mem_append.mp mem with old | late
    · exact other old
    · exact absurd initial.le_size (Nat.not_le_of_lt (large g late))
  | «variable» meaning isObject found initial =>
    refine .variable meaning isObject ?_ (initial.grows grows)
    rw [List.getElem?_append_left (List.getElem?_eq_some_iff.mp found).1]
    exact found
  | function meaning => exact .function meaning

/-- Every global name that lowering knows stands for the same thing in the unit, and memory holds
what the variables start with. -/
structure Loads (avail : Avail) (σ : Lower.State) (env : Env) (m : Memory Int32) : Prop
    extends Top avail σ where
  bound : ∀ {name s}, σ.symbols.findGlobal? name = some s →
    ∃ b, env.lookup name = some b ∧ StandsFor σ.program (globalSlots σ.symbols env) s b
  missing : ∀ {name}, σ.symbols.findGlobal? name = none → env.lookup name = none
  vars : List.Forall₂ (fun g cells => ∃ data, Initial σ.program g data ∧ cells = data.map some)
    (globalSlots σ.symbols env) m
  distinct : (globalSlots σ.symbols env).Nodup

/-- What was lowered stays as it is. Only functions without a body can still change. -/
structure Onward (σ : Lower.State) (env : Env) (σ' : Lower.State) (env' : Env) : Prop where
  grows : σ.program.Grows σ'.program
  built : ∀ {f d}, σ.program.fn? f = some d → d.layout ≠ [] → σ'.program.fn? f = some d
  functions : ∀ {name s id params defined}, σ.symbols.findGlobal? name = some s →
    s.meaning = .function id params defined → ∃ s' defined',
      σ'.symbols.findGlobal? name = some s' ∧ s'.meaning = .function id params defined' ∧
      s'.type = s.type
  lookup : ∀ {name b}, env.lookup name = some b → env'.lookup name = some b
  vars : ∃ new, globalSlots σ'.symbols env' = globalSlots σ.symbols env ++ new ∧ ∀ g ∈ new, size σ < g

theorem Onward.refl (σ : Lower.State) (env : Env) : Onward σ env σ env where
  grows := .refl _
  built := fun found _ => found
  functions := fun found meaning => ⟨_, _, found, meaning, rfl⟩
  lookup := id
  vars := ⟨[], by simp, by simp⟩

theorem Onward.withBodies (h : Onward σ env σ' env') (bodies : List (String × Bool)) :
    Onward σ env { σ' with bodies := bodies } env' :=
  ⟨h.grows, h.built, h.functions, h.lookup, h.vars⟩

theorem Onward.trans {σ'' : Lower.State} {env'' : Env} (h : Onward σ env σ' env')
    (h' : Onward σ' env' σ'' env'') : Onward σ env σ'' env'' where
  grows := h.grows.trans h'.grows
  built := fun found filled => h'.built (h.built found filled) filled
  functions := fun found meaning => by
    obtain ⟨s₁, _, found₁, meaning₁, type₁⟩ := h.functions found meaning
    obtain ⟨s₂, _, found₂, meaning₂, type₂⟩ := h'.functions found₁ meaning₁
    exact ⟨s₂, _, found₂, meaning₂, type₂.trans type₁⟩
  lookup := fun found => h'.lookup (h.lookup found)
  vars := by
    obtain ⟨new, eq, large⟩ := h.vars
    obtain ⟨new', eq', large'⟩ := h'.vars
    refine ⟨new ++ new', by rw [eq', eq, List.append_assoc], fun g mem => ?_⟩
    rcases List.mem_append.mp mem with first | second
    · exact large g first
    · exact Nat.lt_of_le_of_lt h.grows.values_size (large' g second)

section Loads

theorem Loads.small (loads : Loads avail σ env m) {g : ValueId} (mem : g ∈ globalSlots σ.symbols env) :
    g ≤ size σ := by
  obtain ⟨i, small, rfl⟩ := List.getElem_of_mem mem
  obtain ⟨data, initial, -⟩ := loads.vars.get small (loads.vars.length_eq ▸ small)
  exact initial.le_size

/-- The constants that lowering knows are those of the unit. -/
theorem Loads.knows (loads : Loads avail σ env m) : Knows σ.symbols.globalEnv env where
  constant := fun {name v} h => by
    unfold SymbolTable.globalEnv at h
    split at h
    · cases h
    · rename_i s found
      obtain ⟨b, here, standsFor⟩ := loads.bound found
      cases standsFor with
      | constant meaning bounds length table =>
        rw [Symbol.binding, meaning] at h
        cases h
        exact ⟨here, bounds, length⟩
      | «variable» meaning | function meaning =>
        rw [Symbol.binding, meaning] at h
        cases h

/-- A new name is bound. `new` are the slots of the variables that it adds, which hold `cells`. -/
theorem Loads.bind {s : Symbol} {b : Binding} {new : List ValueId} {cells : Memory Int32}
    (loads : Loads avail σ env m) (fresh : σ.symbols.findGlobal? s.name = none)
    (top : Top avail ((σ.withProgram p).bound s)) (grows : σ.program.Grows p)
    (kept : ∀ {f d}, σ.program.fn? f = some d → p.fn? f = some d)
    (lookup : ∀ name, env'.lookup name = if name = s.name then some b else env.lookup name)
    (vars : globalSlots (σ.symbols.bindGlobal s) env' = globalSlots σ.symbols env ++ new)
    (holds : List.Forall₂ (fun g cells => ∃ data, Initial p g data ∧ cells = data.map some) new cells)
    (distinct : new.Nodup) (large : ∀ g ∈ new, size σ < g)
    (standsFor : StandsFor p (globalSlots σ.symbols env ++ new) s b) :
    Loads avail ((σ.withProgram p).bound s) env' (m ++ cells) ∧
      Onward σ env ((σ.withProgram p).bound s) env' := by
  have find : ∀ name, ((σ.withProgram p).bound s).symbols.findGlobal? name =
      if name = s.name then some s else σ.symbols.findGlobal? name :=
    (valid_of_top loads.toTop).findGlobal?_bindGlobal s
  have sameVars : globalSlots ((σ.withProgram p).bound s).symbols env' =
      globalSlots σ.symbols env ++ new := vars
  have others : ∀ {name}, σ.symbols.findGlobal? name ≠ none → name ≠ s.name := by
    rintro _ known rfl
    exact known fresh
  refine ⟨⟨top, fun {name sym} found => ?_, fun {name} gone => ?_, ?_, ?_⟩, grows, ?_, ?_, ?_, ?_⟩
  · rw [find] at found
    rw [lookup, sameVars]
    by_cases self : name = s.name
    · rw [if_pos self] at found
      cases found
      exact ⟨b, if_pos self, standsFor⟩
    · rw [if_neg self] at found ⊢
      obtain ⟨b', here, old⟩ := loads.bound found
      exact ⟨b', here, old.onward grows large⟩
  · rw [find] at gone
    rw [lookup]
    by_cases self : name = s.name
    · rw [if_pos self] at gone
      cases gone
    · rw [if_neg self] at gone ⊢
      exact loads.missing gone
  · rw [sameVars]
    refine List.rel_append (loads.vars.imp ?_) holds
    rintro g _ ⟨data, initial, rfl⟩
    exact ⟨data, initial.grows grows, rfl⟩
  · rw [sameVars]
    refine List.nodup_append.mpr ⟨loads.distinct, distinct, ?_⟩
    rintro g old _ late rfl
    exact absurd (loads.small old) (Nat.not_le_of_lt (large g late))
  · exact fun found _ => kept found
  · intro name sym id params defined found meaning
    refine ⟨sym, defined, ?_, meaning, rfl⟩
    rw [find, if_neg (others (by simp [found]))]
    exact found
  · intro name b' found
    rw [lookup, if_neg]
    · exact found
    · rintro rfl
      rw [loads.missing fresh] at found
      cases found
  · exact ⟨new, sameVars, large⟩

/-- A name that is bound in front of the others. -/
theorem lookup_cons_eq (name : String) (b : Binding) (env : Env) (other : String) :
    ((name, b) :: env).lookup other = if other = name then some b else env.lookup other := by
  rw [List.lookup_cons]
  by_cases same : other = name
  · rw [if_pos same, beq_iff_eq.mpr same]
  · rw [if_neg same, beq_eq_false_iff_ne.mpr same]

theorem Loads.sameSlots (loads : Loads avail σ env m) {s : Symbol}
    (fresh : σ.symbols.findGlobal? s.name = none) :
    globalSlots (σ.symbols.bindGlobal s) env = globalSlots σ.symbols env := by
  refine globalSlots_congr fun entry mem => ?_
  have other : entry.1 ≠ s.name := by
    intro same
    have := List.lookup_eq_none_iff.mp (loads.missing fresh) _ mem
    simp [same] at this
  unfold SymbolTable.variableSlot?
  rw [(valid_of_top loads.toTop).findGlobal?_bindGlobal, if_neg other]

/-- A name that is no variable is bound. -/
theorem Loads.cons {s : Symbol} {b : Binding} (loads : Loads avail σ env m)
    (fresh : σ.symbols.findGlobal? s.name = none) (top : Top avail ((σ.withProgram p).bound s))
    (grows : σ.program.Grows p) (kept : ∀ {f d}, σ.program.fn? f = some d → p.fn? f = some d)
    (other : ∀ dims id, b ≠ .object dims id)
    (standsFor : StandsFor p (globalSlots σ.symbols env) s b) :
    Loads avail ((σ.withProgram p).bound s) ((s.name, b) :: env) m ∧
      Onward σ env ((σ.withProgram p).bound s) ((s.name, b) :: env) := by
  have vars : globalSlots (σ.symbols.bindGlobal s) ((s.name, b) :: env) =
      globalSlots σ.symbols env ++ [] := by
    rw [globalSlots_cons_other _ _ other, loads.sameSlots fresh, List.append_nil]
  have bound := loads.bind fresh top grows kept (lookup_cons_eq s.name b env) vars .nil
    List.nodup_nil (by simp) (by rwa [List.append_nil])
  rwa [List.append_nil] at bound

/-- A variable is bound. -/
theorem Loads.cons_variable {s : Symbol} {g : ValueId} {data : List Int32}
    (loads : Loads avail σ env m) (fresh : σ.symbols.findGlobal? s.name = none)
    (top : Top avail ((σ.withProgram p).bound s)) (grows : σ.program.Grows p)
    (kept : ∀ {f d}, σ.program.fn? f = some d → p.fn? f = some d)
    (meaning : s.meaning = .variable g) (isObject : s.type.IsObject) (initial : Initial p g data)
    (large : size σ < g) :
    Loads avail ((σ.withProgram p).bound s) ((s.name, .object s.type.dims m.length) :: env)
        (m ++ [data.map some]) ∧
      Onward σ env ((σ.withProgram p).bound s)
        ((s.name, .object s.type.dims m.length) :: env) := by
  have slot : (σ.symbols.bindGlobal s).variableSlot? s.name = some g := by
    unfold SymbolTable.variableSlot?
    rw [(valid_of_top loads.toTop).findGlobal?_bindGlobal, if_pos rfl]
    simp [meaning]
  have vars : globalSlots (σ.symbols.bindGlobal s)
      ((s.name, .object s.type.dims m.length) :: env) = globalSlots σ.symbols env ++ [g] := by
    rw [globalSlots_cons_object, loads.sameSlots fresh, slot]
    rfl
  refine loads.bind fresh top grows kept (lookup_cons_eq s.name _ env) vars
    (.cons ⟨data, initial, rfl⟩ .nil) (List.nodup_singleton g) (by simpa using large) (.variable meaning isObject ?_ initial)
  rw [← loads.vars.length_eq, List.getElem?_append_right (Nat.le_refl _), Nat.sub_self]
  rfl

/-- Symbols that stand for the same function. -/
def SameFn (s s' : Symbol) : Prop :=
  ∃ id params defined defined', s.meaning = .function id params defined ∧
    s'.meaning = .function id params defined' ∧ s'.type = s.type

/-- The program grows, and functions become defined. -/
theorem Loads.evolve (loads : Loads avail σ env m) (top : Top avail' σ')
    (grows : σ.program.Grows σ'.program)
    (built : ∀ {f d}, σ.program.fn? f = some d → d.layout ≠ [] → σ'.program.fn? f = some d)
    (names : ∀ name, σ'.symbols.findGlobal? name = σ.symbols.findGlobal? name ∨ ∃ s s',
      σ.symbols.findGlobal? name = some s ∧ σ'.symbols.findGlobal? name = some s' ∧ SameFn s s') :
    Loads avail' σ' env m ∧ Onward σ env σ' env := by
  have sameVars : globalSlots σ'.symbols env = globalSlots σ.symbols env := by
    refine globalSlots_congr fun entry _ => ?_
    unfold SymbolTable.variableSlot?
    rcases names entry.1 with same | ⟨s, s', found, found', _, _, _, _, meaning, meaning', -⟩
    · rw [same]
    · rw [found, found']
      simp [meaning, meaning']
  have still : ∀ {s b}, StandsFor σ.program (globalSlots σ.symbols env) s b →
      StandsFor σ'.program (globalSlots σ.symbols env) s b := fun {s b} standsFor => by
    have later : StandsFor σ'.program (globalSlots σ.symbols env ++ []) s b :=
      standsFor.onward grows (by simp)
    rwa [List.append_nil] at later
  refine ⟨⟨top, fun {name s'} found' => ?_, fun {name} gone => ?_, ?_, ?_⟩, grows, built, ?_, id,
    [], by simp [sameVars], by simp⟩
  · rw [sameVars]
    rcases names name with same | ⟨s, s₁, found, found₁, _, _, _, _, meaning, meaning', type⟩
    · rw [same] at found'
      obtain ⟨b, here, standsFor⟩ := loads.bound found'
      exact ⟨b, here, still standsFor⟩
    · obtain rfl := Option.some.inj (found'.symm.trans found₁)
      obtain ⟨b, here, standsFor⟩ := loads.bound found
      cases standsFor with
      | constant m₁ | «variable» m₁ =>
        rw [meaning] at m₁
        cases m₁
      | function m₁ =>
        rw [meaning] at m₁
        cases m₁
        refine ⟨_, here, ?_⟩
        rw [← type]
        exact .function meaning'
  · rcases names name with same | ⟨s, s', -, found', -⟩
    · rw [same] at gone
      exact loads.missing gone
    · rw [found'] at gone
      cases gone
  · rw [sameVars]
    refine loads.vars.imp ?_
    rintro g _ ⟨data, initial, rfl⟩
    exact ⟨data, initial.grows grows, rfl⟩
  · rw [sameVars]
    exact loads.distinct
  · intro name s id params defined found meaning
    rcases names name with same | ⟨s₁, s', found₁, found', _, _, _, _, meaning₁, meaning', type⟩
    · exact ⟨s, defined, same.trans found, meaning, rfl⟩
    · obtain rfl := Option.some.inj (found.symm.trans found₁)
      rw [meaning] at meaning₁
      cases meaning₁
      exact ⟨s', _, found', meaning', type⟩

end Loads

/-! ## Items -/

/-- The body of a function was lowered on the way to a state at which the global names are `env'`. -/
inductive Compiled (f : Fn) (σ' : Lower.State) (env' : Env) : Prop
  | intro {id : FnId} {params : List Ty} {avail : Avail} {σ₁ σ₂ : Lower.State} {d : Koopa.Fn}
      {span : Source.Span} {ss : List Stmt} {env : Env} {m : Memory Int32} {s : Symbol}
      {defined : Bool} (body : Bodied f id params (returnTy f) avail σ₁ σ₂ d span ss)
      (loads : Loads avail σ₁ env m) (bound : σ₁.symbols.findGlobal? f.name = some s)
      (meaning : s.meaning = .function id params defined) (type : s.type = returnTy f)
      (before : Onward σ₁ env σ' env') (after : Onward σ₂ env σ' env') : Compiled f σ' env'

theorem Compiled.onward {f : Fn} {σ'' : Lower.State} {env'' : Env} (compiled : Compiled f σ' env')
    (onward : Onward σ' env' σ'' env'') : Compiled f σ'' env'' := by
  obtain ⟨body, loads, bound, meaning, type, before, after⟩ := compiled
  exact ⟨body, loads, bound, meaning, type, before.trans onward, after.trans onward⟩

/-- What an item of a unit does: names stand for the same thing afterwards, and `fs` are the
functions with a body. -/
structure Advances (σ : Lower.State) (env : Env) (σ' : Lower.State) (env' : Env)
    (m' : Memory Int32) (fs : List Fn) : Prop where
  loads : ∃ avail', Loads avail' σ' env' m'
  onward : Onward σ env σ' env'
  compiled : ∀ f ∈ fs, Compiled f σ' env'
  defined : ∀ {name s}, σ'.symbols.findGlobal? name = some s → s.isDefined = true →
    (∃ s, σ.symbols.findGlobal? name = some s ∧ s.isDefined = true) ∨ ∃ f ∈ fs, f.name = name

theorem Advances.nil (loads : Loads avail σ env m) : Advances σ env σ env m [] :=
  ⟨⟨avail, loads⟩, .refl .., by simp, fun {_ s} found isDefined => .inl ⟨s, found, isDefined⟩⟩

theorem Advances.append {σ₁ : Lower.State} {env₁ : Env} {m₁ : Memory Int32} {fs gs : List Fn}
    (h : Advances σ env σ₁ env₁ m₁ fs) (h' : Advances σ₁ env₁ σ' env' m' gs) :
    Advances σ env σ' env' m' (fs ++ gs) where
  loads := h'.loads
  onward := h.onward.trans h'.onward
  compiled := fun f mem => by
    rcases List.mem_append.mp mem with first | second
    · exact (h.compiled f first).onward h'.onward
    · exact h'.compiled f second
  defined := fun found isDefined => by
    rcases h'.defined found isDefined with ⟨s₁, found₁, isDefined₁⟩ | ⟨f, mem, name⟩
    · rcases h.defined found₁ isDefined₁ with before | ⟨f, mem, name⟩
      · exact .inl before
      · exact .inr ⟨f, List.mem_append_left _ mem, name⟩
    · exact .inr ⟨f, List.mem_append_right _ mem, name⟩

/-! ## Definitions -/

theorem lift_eq_ok {α : Type} {o : SysY.Outcome α} {a : α} (h : Lower.lift o σ = .ok a σ') :
    o = .ok a ∧ σ' = σ := by
  cases o with
  | error e => cases h
  | ok b =>
    cases h
    exact ⟨rfl, rfl⟩

/-- A constant of the unit. -/
theorem constantDef_loads {d : Def} {sym : Symbol} {s' : State Unit} {σ₁ : Lower.State}
    (loads : Loads avail σ env m) (fresh : σ.symbols.findGlobal? d.name = none)
    (lowered : Lower.globalDef true d σ = .ok sym σ₁)
    (ran : define constants n (some 0) true env d ⟨m, ()⟩ = some (env', s')) :
    Loads avail (σ₁.bound sym) env' s'.memory ∧ Onward σ env (σ₁.bound sym) env' := by
  have site := σ.at_site
  obtain ⟨p, rfl, -, defines⟩ := (Lower.globalDef_ends true d site loads.program).ok lowered
  have top := loads.toTop.bind_value defines.toAdded defines.globals defines.symbol defines.value
  rw [Lower.globalDef_const] at lowered
  obtain ⟨⟨ty, value⟩, σ₂, lifted, lowered⟩ := bind_eq_ok.mp lowered
  obtain ⟨defined, rfl⟩ := lift_eq_ok lifted
  obtain ⟨type, dims, count⟩ := Lower.constantDef_eq_ok defined
  obtain ⟨solid, object⟩ := Ty.ofDef_solid type
  obtain ⟨rfl, rfl, bounds, length⟩ := define_constant loads.knows defined ran
  have made := fun {g} => constantSymbol_made (g := g) solid object (dims ▸ length) site
    loads.program lowered
  obtain ⟨-, slot, -, -, -, rfl, -⟩ :=
    (Lower.constantSymbol_ends solid object dims count site loads.program).ok lowered
  refine loads.cons (s := ⟨d.name, d.nameSpan, ty, .constant value slot⟩) fresh top defines.grows
    (fun found => (defines.fn? _).trans found) (by simp) (.constant rfl bounds length ?_)
  rintro g rfl
  obtain ⟨-, ⟨init, has, payload⟩, new, -⟩ := made rfl
  refine ⟨⟨_, init, has, payload⟩, fun mem => ?_⟩
  exact absurd (loads.small mem) (Nat.not_le_of_lt new)

/-- The parts of the definition of a global variable. -/
theorem variableDef_eq_ok {d : Def} {sym : Symbol}
    (lowered : Lower.globalDef false d σ = .ok sym σ') : ∃ dims given,
      d.dims.mapM (Ty.bound σ.symbols.globalEnv) = .ok dims ∧ Bounds dims ∧
      (d.init = none ∧ given = [] ∨ ∃ init, d.init = some init ∧
        Lower.constantInit σ.symbols.globalEnv "global initializer" (.arrayOf dims) init = .ok given) ∧
      Lower.variableSymbol d (.arrayOf dims) given σ = .ok sym σ' := by
  rw [Lower.globalDef_var] at lowered
  obtain ⟨ty, σ₁, lifted, lowered⟩ := bind_eq_ok.mp lowered
  obtain ⟨type, rfl⟩ := lift_eq_ok lifted
  obtain ⟨dims, found, rfl, bounds⟩ := ofDef_eq_ok type
  split at lowered
  · cases lowered
  · cases init : d.init with
    | none =>
      rw [init] at lowered
      exact ⟨dims, [], found, bounds, .inl ⟨rfl, rfl⟩, lowered⟩
    | some i =>
      rw [init] at lowered
      change (Lower.lift (Lower.constantInit σ₁.symbols.globalEnv "global initializer" (.arrayOf dims)
        i) >>= Lower.variableSymbol d (.arrayOf dims)) σ₁ = .ok sym σ' at lowered
      obtain ⟨given, σ₂, lifted, done⟩ := bind_eq_ok.mp lowered
      obtain ⟨folded, rfl⟩ := lift_eq_ok lifted
      exact ⟨dims, given, found, bounds, .inr ⟨i, rfl, folded⟩, done⟩

/-- A variable of the unit. -/
theorem variableDef_loads {d : Def} {sym : Symbol} {s' : State Unit} {σ₁ : Lower.State}
    (loads : Loads avail σ env m) (fresh : σ.symbols.findGlobal? d.name = none)
    (lowered : Lower.globalDef false d σ = .ok sym σ₁)
    (ran : define constants n (some 0) false env d ⟨m, ()⟩ = some (env', s')) :
    Loads avail (σ₁.bound sym) env' s'.memory ∧ Onward σ env (σ₁.bound sym) env' := by
  have site := σ.at_site
  obtain ⟨p, rfl, -, defines⟩ := (Lower.globalDef_ends false d site loads.program).ok lowered
  have top := loads.toTop.bind_value defines.toAdded defines.globals defines.symbol defines.value
  obtain ⟨dims, given, folded, bounds, initial, done⟩ := variableDef_eq_ok lowered
  obtain ⟨slot, σ₂, made, ⟨⟩⟩ := bind_eq_ok.mp done
  have solid := Ty.solid_arrayOf bounds
  have object := Ty.isObject_arrayOf dims
  cases n with
  | zero => cases ran
  | succ n =>
    obtain ⟨dims', s₁, ran₁, small, ran₂⟩ := define_dims ran
    obtain ⟨rfl, rfl⟩ := bounds_of_mapM loads.knows folded ran₁
    obtain ⟨cells, s₂, rfl, rfl, held⟩ := bindName_variable ran₂
    -- What the variable starts with, in the program and in the unit.
    obtain ⟨data, lays, rfl, rfl⟩ : ∃ data, Lays (Ty.arrayOf dims').koopa data
        (Lower.initializer (.arrayOf dims') given) ∧ cells = data.map some ∧ s₂ = ⟨m, ()⟩ := by
      rcases initial with ⟨noInit, rfl⟩ | ⟨init, isInit, constant⟩
      · obtain ⟨-, rfl, rfl⟩ | ⟨_, _, _, isInit, -⟩ := held
        · refine ⟨_, zeros_lays solid rfl, ?_, rfl⟩
          have count := cells_grid bounds
          rw [Ty.koopa_arrayOf, List.map_replicate, ← count, Int.toNat_natCast]
        · rw [noInit] at isInit
          cases isInit
      · obtain ⟨noInit, -⟩ | ⟨_, n', data, isInit', rfl, ran₃, rfl⟩ := held
        · rw [isInit] at noInit
          cases noInit
        · rw [isInit] at isInit'
          cases isInit'
          have length := elements_length bounds ran₃
          obtain ⟨rfl, rfl⟩ := elements_of_constantInit loads.knows bounds small constant ran₃
          exact ⟨data, initializer_lays solid object (by rwa [Ty.dims_arrayOf]), rfl, rfl⟩
    have isMade := globalVariable_made solid object lays site loads.program made
    obtain ⟨init, has, payload⟩ := isMade.has
    have bound := loads.cons_variable (s := ⟨d.name, d.nameSpan, .arrayOf dims', .variable slot⟩)
      fresh top defines.grows (fun found => (defines.fn? _).trans found) rfl object
      ⟨_, init, has, payload⟩ isMade.new
    rwa [Ty.dims_arrayOf] at bound

/-- A definition of a global name. -/
theorem globalDef_advances {isConst : Bool} {d : Def} {sym : Symbol} {s' : State Unit}
    {σ₁ : Lower.State} (loads : Loads avail σ env m)
    (fresh : σ.symbols.findGlobal? d.name = none)
    (lowered : Lower.globalDef isConst d σ = .ok sym σ₁)
    (ran : define constants n (some 0) isConst env d ⟨m, ()⟩ = some (env', s')) :
    Advances σ env (σ₁.bound sym) env' s'.memory [] := by
  obtain ⟨loads', onward⟩ : Loads avail (σ₁.bound sym) env' s'.memory ∧
      Onward σ env (σ₁.bound sym) env' := by
    cases isConst with
    | true => exact constantDef_loads loads fresh lowered ran
    | false => exact variableDef_loads loads fresh lowered ran
  refine ⟨⟨avail, loads'⟩, onward, by simp, fun {name s} found isDefined => .inl ⟨s, ?_, isDefined⟩⟩
  obtain ⟨p, rfl, -, defines⟩ :=
    (Lower.globalDef_ends isConst d σ.at_site loads.program).ok lowered
  have find := (valid_of_top loads.toTop).findGlobal?_bindGlobal sym name
  by_cases self : name = sym.name
  · obtain rfl := Option.some.inj (found.symm.trans (find.trans (if_pos self)))
    have value := defines.value
    unfold Symbol.isFunction at value
    unfold Symbol.isDefined at isDefined
    split at isDefined
    · rename_i meaning
      rw [meaning] at value
      cases value
    · cases isDefined
  · exact ((if_neg self).symm.trans find.symm).trans found

/-- Definitions of global names, in order. -/
theorem globalDefs_advances {isConst : Bool} {ds : List Def} {s' : State Unit}
    (loads : Loads avail σ env m) (lowered : Lower.globalDefs isConst ds σ = .ok () σ')
    (ran : defines constants n (some 0) isConst env ds ⟨m, ()⟩ = some (env', s')) :
    Advances σ env σ' env' s'.memory [] := by
  induction ds generalizing avail σ env m n with
  | nil =>
    cases lowered
    cases n with
    | zero => cases ran
    | succ n =>
      rw [defines] at ran
      obtain ⟨rfl, rfl⟩ := pure_eq_some.mp ran
      exact .nil loads
  | cons d ds ih =>
    cases n with
    | zero => cases ran
    | succ n =>
      rw [defines] at ran
      obtain ⟨env₁, s₁, ran₁, ran₂⟩ := bind_eq_some.mp ran
      obtain ⟨sym, σ₁, lowered₁, fresh, lowered₂⟩ := globalDefs_cons_eq_ok loads.toTop lowered
      have first := globalDef_advances loads fresh lowered₁ ran₁
      obtain ⟨avail₁, loads₁⟩ := first.loads
      exact first.append (ih loads₁ lowered₂ ran₂)

/-! ## Functions -/

theorem paramTys_eq {cenv : Const.Env} (knows : Knows cenv env) {ps : List Param}
    {ts ts' : List Ty} {s s' : State Unit} (folded : ps.mapM (Ty.ofParam cenv) = .ok ts)
    (ran : paramTys n env ps s = some (ts', s')) : ts' = ts ∧ s' = s := by
  have pairs := Outcome.mapM_eq_ok folded
  clear folded
  induction pairs generalizing ts' s with
  | nil =>
    obtain ⟨rfl, rfl⟩ := pure_eq_some.mp ran
    exact ⟨rfl, rfl⟩
  | @cons q t qs ts head _ ih =>
    rw [paramTys] at ran
    obtain ⟨dims, s₁, ran₁, rest₁⟩ := bind_eq_some.mp ran
    obtain ⟨us, s₂, ran₂, rest₂⟩ := bind_eq_some.mp rest₁
    obtain ⟨rfl, rfl⟩ := pure_eq_some.mp rest₂
    unfold Ty.ofParam at head
    split at head
    · cases head
    · obtain ⟨ds, found, head⟩ := Except.bind_eq_ok.mp head
      cases head
      obtain ⟨rfl, rfl⟩ := bounds_of_mapM knows found ran₁
      obtain ⟨rfl, rfl⟩ := ih ran₂
      exact ⟨rfl, rfl⟩

section Function

variable {f : Fn} {id : FnId} {params : List Ty} {ret : Ty}

theorem BindsFn.loads {span : Source.Span} {s' : State Unit} {σ₁ : Lower.State}
    (binds : BindsFn avail σ f (returnTy f) params id σ₁) (loads : Loads avail σ env m)
    (top : Top avail σ₁) (folded : f.params.mapM (Ty.ofParam σ.symbols.globalEnv) = .ok params)
    (ran : loadItem n env (.fn span f) ⟨m, ()⟩ = some (env', s')) :
    s'.memory = m ∧ Loads avail σ₁ env' m ∧ Onward σ env σ₁ env' := by
  rw [loadItem] at ran
  -- A name that is known keeps its binding.
  have again : ∀ {s defined}, σ.symbols.findGlobal? f.name = some s →
      s.meaning = .function id params defined → s.type = returnTy f → env' = env ∧ s' = ⟨m, ()⟩ := by
    intro s defined found meaning type
    obtain ⟨b, here, standsFor⟩ := loads.bound found
    cases standsFor with
    | constant m₁ | «variable» m₁ =>
      rw [meaning] at m₁
      cases m₁
    | function m₁ =>
      rw [here] at ran
      obtain ⟨rfl, rfl⟩ := pure_eq_some.mp ran
      exact ⟨rfl, rfl⟩
  cases binds with
  | @new p missing new =>
    rw [loads.missing missing] at ran
    obtain ⟨ts, s₁, ran₁, rest₁⟩ := bind_eq_some.mp ran
    obtain ⟨rfl, rfl⟩ := pure_eq_some.mp rest₁
    obtain ⟨rfl, rfl⟩ := paramTys_eq loads.knows folded ran₁
    refine ⟨rfl, loads.cons missing top new.grows (fun {g d} found => ?_) (by simp) (.function rfl)⟩
    rw [new.others]
    · exact found
    · rintro rfl
      rw [new.fresh] at found
      cases found
  | again found meaning type isDecl =>
    obtain ⟨rfl, rfl⟩ := again found meaning type
    exact ⟨rfl, loads, .refl ..⟩
  | @define s found meaning type isDef =>
    obtain ⟨rfl, rfl⟩ := again found meaning type
    refine ⟨rfl, loads.evolve top (.refl _) (fun found _ => found) fun name => ?_⟩
    have find := (valid_of_top loads.toTop).findGlobal?_bindGlobal
      (Lower.fnSymbol f.name f.nameSpan (returnTy f) id params true) name
    by_cases self : name = f.name
    · subst self
      exact .inr ⟨s, _, found, find.trans (if_pos rfl), id, params, false, true, meaning, rfl,
        type.symm⟩
    · exact .inl (find.trans (if_neg self))

theorem returnTy_ok (f : Fn) : returnTy f = .int ∨ returnTy f = .void := by
  unfold returnTy
  cases f.returnType with
  | int => exact .inl rfl
  | void => exact .inr rfl

/-- Lowering the body of a function leaves the global names as they are. -/
theorem body_loads {block : Stmt} {s : Symbol} {defined : Bool} (whole : f.Whole)
    (isBody : f.body = some block) (paramsOk : Lower.ParamTys params) (loads : Loads avail σ env m)
    (ready : Lower.Ready σ f id (returnTy f) params)
    (bound : σ.symbols.findGlobal? f.name = some s)
    (meaning : s.meaning = .function id params defined) (type : s.type = returnTy f)
    (lowered : Lower.body f id (returnTy f) params block σ = .ok () σ') :
    (∃ avail', Loads avail' σ' env m) ∧ Onward σ env σ' env ∧ Compiled f σ' env ∧
      ∀ name, σ'.symbols.findGlobal? name = σ.symbols.findGlobal? name := by
  obtain ⟨span, ss, rfl, ssWhole⟩ := whole.body block (by rw [isBody]; rfl)
  obtain ⟨d, found, name, empty, isRet, paramTys⟩ := ready.fn
  have fresh := (loads.program.fns found).fresh_block
  rw [Lower.body_eq] at lowered
  cases inner : Lower.enterBody f id (returnTy f) params (.block span ss) σ with
  | error e σ₁ =>
    simp only [Lower.recordBody, inner] at lowered
    cases lowered
  | ok _ σ₁ =>
    simp only [Lower.recordBody, inner] at lowered
    cases lowered
    rw [Lower.enterBody_eq found fresh] at inner
    have body : Bodied f id params (returnTy f) avail σ σ₁ d span ss :=
      ⟨loads.toTop, found, name, empty, isRet, returnTy_ok f, paramTys, paramsOk, isBody, ssWhole, inner⟩
    obtain ⟨avail', inv, evo⟩ := body.evo
    have top : Top avail' σ₁ := loads.toTop.leave ready found inv evo
    have later : σ.symbols.Later σ₁.symbols := evo.keeps.1
    have names := later.findGlobal? (valid_of_top loads.toTop)
    have grows := (Program.grows_withBlock found fresh _).trans evo.grows
    have built : ∀ {g e}, σ.program.fn? g = some e → e.layout ≠ [] →
        σ₁.program.fn? g = some e := by
      intro g e foundG filled
      have other : g ≠ id := by
        rintro rfl
        obtain rfl := Option.some.inj (foundG.symm.trans found)
        exact filled empty
      rw [evo.others other]
      exact ((Program.fn?_withBlock found _ _).trans (if_neg other)).trans foundG
    obtain ⟨loads', onward⟩ := loads.evolve (top.withBodies (σ₁.bodies ++ [(f.name, true)]))
      grows built fun name => .inl (names name)
    exact ⟨⟨avail', loads'⟩, onward,
      ⟨body, loads, bound, meaning, type, onward, (Onward.refl σ₁ env).withBodies _⟩, names⟩

theorem function_advances {span : Source.Span} {s' : State Unit} (whole : f.Whole)
    (loads : Loads avail σ env m) (lowered : Lower.function f σ = .ok () σ')
    (ran : loadItem n env (.fn span f) ⟨m, ()⟩ = some (env', s')) :
    Advances σ env σ' env' s'.memory (ownFn? (.fn span f)).toList := by
  have isFunction : Lower.functionOf f (returnTy f) σ = .ok () σ' := lowered
  unfold Lower.functionOf at isFunction
  rw [Lower.get_bind] at isFunction
  obtain ⟨params, σ₁, lifted, rest⟩ := bind_eq_ok.mp isFunction
  obtain ⟨folded, rfl⟩ := lift_eq_ok lifted
  obtain ⟨id, σ₂, headed, rest⟩ := bind_eq_ok.mp rest
  obtain ⟨_, σ₃, named, rest⟩ := bind_eq_ok.mp rest
  have paramsOk := Lower.paramTys_of_mapM folded
  have retOk := returnTy_ok f
  have heads := (Lower.header_safe paramsOk retOk loads.toTop).ok headed
  obtain ⟨top, -, ready⟩ := (Lower.bindFn_safe paramsOk retOk loads.toTop heads).ok named
  have binds := Lower.bindFn_binds heads named
  obtain ⟨sameMemory, loads₃, onward₃⟩ := BindsFn.loads binds loads top folded ran
  rw [sameMemory]
  cases isBody : f.body with
  | none =>
    have isDecl : f.isDecl = true := by rw [Fn.isDecl, isBody]; rfl
    rw [isBody] at rest
    cases rest
    refine ⟨⟨_, loads₃⟩, onward₃, by simp [ownFn?, isDecl], fun {name s} found isDefined => ?_⟩
    rcases binds.defined loads.toTop found isDefined with old | ⟨isDef, -⟩
    · exact .inl ⟨s, old, isDefined⟩
    · rw [isDecl] at isDef
      cases isDef
  | some block =>
    have isDecl : f.isDecl = false := by rw [Fn.isDecl, isBody]; rfl
    rw [isBody] at rest
    obtain ⟨sym, defined, bound, meaning, type⟩ := binds.symbol loads.toTop
    obtain ⟨loads', onward', compiled, names⟩ := body_loads whole isBody paramsOk loads₃
      (ready isDecl) bound meaning type rest
    refine ⟨loads', onward₃.trans onward', by simpa [ownFn?, isDecl] using compiled,
      fun {name s} found isDefined => ?_⟩
    rw [names] at found
    rcases binds.defined loads.toTop found isDefined with old | ⟨-, rfl⟩
    · exact .inl ⟨s, old, isDefined⟩
    · exact .inr ⟨f, by simp [ownFn?, isDecl], rfl⟩

end Function

theorem item_advances {i : Item} {s' : State Unit} (whole : i.Whole) (loads : Loads avail σ env m)
    (lowered : Lower.item i σ = .ok () σ') (ran : loadItem n env i ⟨m, ()⟩ = some (env', s')) :
    Advances σ env σ' env' s'.memory (ownFn? i).toList := by
  cases i with
  | fn span f => exact function_advances whole loads lowered ran
  | decl span d =>
    obtain ⟨d, rfl, dWhole⟩ := whole
    exact globalDefs_advances loads (globalDecl_eq_ok dWhole lowered) ran
  | bare span kind => exact whole.elim
  | missing id => exact whole.elim

/-- Items in order. -/
theorem items_advance {is : List Item} {s' : State Unit} (whole : ∀ i ∈ is, i.Whole)
    (loads : Loads avail σ env m) (lowered : Lower.items false is σ = .ok () σ')
    (ran : loadItems n env is ⟨m, ()⟩ = some (env', s')) :
    Advances σ env σ' env' s'.memory (is.filterMap ownFn?) := by
  induction is generalizing avail σ env m with
  | nil =>
    cases lowered
    obtain ⟨rfl, rfl⟩ := pure_eq_some.mp ran
    exact .nil loads
  | cons i is ih =>
    obtain ⟨env₁, s₁, ran₁, ran₂⟩ := bind_eq_some.mp ran
    have rest : (Lower.item i >>= fun _ => Lower.items false is) σ = .ok () σ' := lowered
    obtain ⟨_, σ₁, lowered₁, lowered₂⟩ := bind_eq_ok.mp rest
    have first := item_advances (whole i (by simp)) loads lowered₁ ran₁
    obtain ⟨avail₁, loads₁⟩ := first.loads
    have both := first.append (ih (fun j mem => whole j (by simp [mem])) loads₁ lowered₂ ran₂)
    cases own : ownFn? i with
    | none => simpa [List.filterMap_cons, own] using both
    | some f => simpa [List.filterMap_cons, own] using both

/-! ## The library -/

/-- A name that is bound behind the others. -/
theorem lookup_concat_eq {name : String} (b : Binding) (fresh : env.lookup name = none)
    (other : String) :
    (env ++ [(name, b)]).lookup other = if other = name then some b else env.lookup other := by
  induction env with
  | nil => exact lookup_cons_eq name b [] other
  | cons entry env ih =>
    obtain ⟨first, b'⟩ := entry
    rw [lookup_cons_eq] at fresh
    rw [List.cons_append, lookup_cons_eq, lookup_cons_eq]
    split at fresh
    · cases fresh
    · rename_i differs
      rw [ih fresh]
      by_cases self : other = name
      · rw [if_pos self, if_pos self, if_neg (self ▸ differs)]
      · rw [if_neg self, if_neg self]

theorem globalSlots_concat_function (t : SymbolTable) (name : String) (params : List Ty) (ret : Ty)
    (env : Env) : globalSlots t (env ++ [(name, .function params ret)]) = globalSlots t env := by
  simp [globalSlots]

theorem declareLibrary_loads {ls : List Lower.LibraryFn} (distinct : (ls.map (·.name)).Nodup)
    (typed : ∀ l ∈ ls, Lower.ParamTys l.params ∧ (l.ret = .int ∨ l.ret = .void))
    (missing : ∀ l ∈ ls, σ.symbols.findGlobal? l.name = none)
    (undefined : ∀ {name s}, σ.symbols.findGlobal? name = some s → s.isDefined = false)
    (loads : Loads avail σ env m) (lowered : Lower.declareLibrary ls σ = .ok () σ') :
    Loads avail σ' (env ++ ls.map fun l => (l.name, .function l.params l.ret)) m ∧
      ∀ {name s}, σ'.symbols.findGlobal? name = some s → s.isDefined = false := by
  induction ls generalizing σ env with
  | nil =>
    cases lowered
    rw [List.map_nil, List.append_nil]
    exact ⟨loads, undefined⟩
  | cons l ls ih =>
    obtain ⟨paramsOk, retOk⟩ := typed l (by simp)
    have here := missing l (by simp)
    obtain ⟨f, p, eq, new⟩ :=
      Lower.newFn_eq loads.program [] (loads.toTop.fresh_fn here) paramsOk retOk (by simp)
    rw [Lower.declareLibrary_cons here eq] at lowered
    have top := loads.toTop.bind_new paramsOk retOk new {} false
    have vars : globalSlots (σ.symbols.bindGlobal (Lower.fnSymbol l.name {} l.ret f l.params false))
        (env ++ [(l.name, .function l.params l.ret)]) = globalSlots σ.symbols env ++ [] := by
      rw [globalSlots_concat_function, List.append_nil]
      exact loads.sameSlots here
    have kept : ∀ {g d}, σ.program.fn? g = some d → p.fn? g = some d := by
      intro g d found
      rw [new.others]
      · exact found
      · rintro rfl
        rw [new.fresh] at found
        cases found
    obtain ⟨loads', -⟩ := loads.bind here top new.grows kept
      (lookup_concat_eq _ (loads.missing here)) vars .nil List.nodup_nil (by simp) (.function rfl)
    have find := (valid_of_top loads.toTop).findGlobal?_bindGlobal
      (Lower.fnSymbol l.name {} l.ret f l.params false)
    rw [List.map_cons, List.nodup_cons] at distinct
    rw [List.append_nil] at loads'
    have done := ih distinct.2 (fun l' mem => typed l' (by simp [mem])) ?_ ?_ loads' lowered
    · rwa [List.append_assoc] at done
    · intro l' mem
      refine (find l'.name).trans ((if_neg fun same => ?_).trans (missing l' (by simp [mem])))
      exact distinct.1 (List.mem_map.mpr ⟨l', mem, same⟩)
    · intro name s found
      by_cases self : name = l.name
      · obtain rfl := Option.some.inj (found.symm.trans ((find name).trans (if_pos self)))
        rfl
      · exact undefined (((if_neg self).symm.trans (find name).symm).trans found)

theorem Loads.empty : Loads (fun _ => ∅) {} [] [] where
  toTop := .empty
  bound := fun found => (by cases found)
  missing := fun _ => rfl
  vars := .nil
  distinct := List.nodup_nil

/-! ## Units -/

/-- A unit all of which was lowered: `σ₁` is the state after the last item, whose blocks are closed
in `σ`. -/
structure Linked (u : CompUnit) (globals : Env) (m : Memory Int32) (avail : Avail)
    (σ₁ σ : Lower.State) : Prop where
  loads : Loads avail σ₁ globals m
  compiled : ∀ f ∈ bodies u, Compiled f σ₁ globals
  defined : ∀ {name s}, σ₁.symbols.findGlobal? name = some s → s.isDefined = true →
    ∃ f ∈ bodies u, f.name = name
  symbols : σ.symbols = σ₁.symbols
  ok : σ.program.Ok avail
  returned : σ₁.program.Returned σ.program
  finished : σ.program.Finished

theorem declaring_loads {withLibrary : Bool} (lowered : declaring withLibrary {} = .ok () σ) :
    Loads (fun _ => ∅) σ (if withLibrary then libraryEnv else []) [] ∧
      ∀ {name s}, σ.symbols.findGlobal? name = some s → s.isDefined = false := by
  cases withLibrary with
  | false =>
    cases lowered
    exact ⟨.empty, fun found => (by cases found)⟩
  | true =>
    exact declareLibrary_loads (by decide) Lower.library_typed (fun _ _ => rfl)
      (fun found => (by cases found)) .empty lowered

theorem unit_links {u : CompUnit} {withLibrary : Bool} {globals : Env} (whole : u.Whole)
    (lowered : Lower.unit withLibrary false u {} = .ok () σ)
    (loaded : load withLibrary n u = some (globals, m)) :
    ∃ avail σ₁, Linked u globals m avail σ₁ σ := by
  obtain ⟨⟨env', s'⟩, ran, same⟩ := Option.map_eq_some_iff.mp loaded
  cases same
  obtain ⟨σ₀, σ₁, p, declared, lowered₁, closed, rfl⟩ := unit_eq_ok lowered
  obtain ⟨loads, undefined⟩ := declaring_loads declared
  have advances := items_advance whole loads lowered₁ ran
  obtain ⟨avail, loads₁⟩ := advances.loads
  obtain ⟨p', closed', ok, returned, finished⟩ := Program.closeBlocks_spec loads₁.program
  cases closed.symm.trans closed'
  refine ⟨avail, σ₁, loads₁, advances.compiled, fun found isDefined => ?_, rfl, ok, returned,
    finished⟩
  rcases advances.defined found isDefined with ⟨s, before, isDefined'⟩ | own
  · rw [undefined before] at isDefined'
    cases isDefined'
  · exact own

/-- The program of a unit, ready to run. -/
def Loaded.ofState {W : Type} (σ : Lower.State) (globals : Env) (external : External W) :
    Loaded W := ⟨σ.program, external, σ.symbols, globalSlots σ.symbols globals⟩

section Linked

variable {W : Type} {u : CompUnit} {globals : Env} {σ₁ : Lower.State}

/-- A global name stands for the same thing while the program runs. -/
theorem StandsFor.bound {l : Loaded W} {s : Symbol} {b : Binding} {j : List Nat} {M : Memory Val}
    {regs : ValueId → Option Val} {name : String} (standsFor : StandsFor l.program l.slots s b)
    (image : Image l j M)
    (has : ∀ {id params defined}, s.meaning = .function id params defined →
      l.Has name id params s.type) : Bound l j M regs name s b := by
  cases standsFor with
  | constant meaning bounds length table =>
    refine .constant meaning bounds length fun g isSlot => ?_
    obtain ⟨⟨t, init, isGlobal, payload⟩, other⟩ := table g isSlot
    obtain ⟨unknown, here⟩ := image.tables isGlobal payload other
    exact ⟨_, operand_global isGlobal _, .table unknown here⟩
  | «variable» meaning isObject found initial =>
    obtain ⟨t, init, isGlobal, -⟩ := initial
    exact .object meaning isObject (operand_global isGlobal _) (image.vars found)
  | function meaning => exact .function meaning (has meaning)

/-- The slots of the variables of a unit do not change while a body is lowered. -/
theorem Bodied.globalSlots {f : Fn} {id : FnId} {params : List Ty} {ret : Ty} {d : Koopa.Fn}
    {span : Source.Span} {ss : List Stmt} (body : Bodied f id params ret avail σ σ' d span ss)
    (env : Env) : globalSlots σ'.symbols env = globalSlots σ.symbols env := by
  obtain ⟨_, -, evo⟩ := body.evo
  have later : σ.symbols.Later σ'.symbols := evo.keeps.1
  refine globalSlots_congr fun entry _ => ?_
  unfold SymbolTable.variableSlot?
  rw [later.findGlobal? (valid_of_top body.top)]

/-- A function with a body, in the program that is run. -/
theorem Linked.built (linked : Linked u globals m avail σ₁ σ) (ext : External W) {f : Fn}
    (mem : f ∈ bodies u) {id : FnId} {params : List Ty} {ret : Ty}
    (has : (Loaded.ofState σ globals ext).Has f.name id params ret) :
    ∃ avail σ₂ σ₃ d span ss, Built (Loaded.ofState σ globals ext) ⟨ext, bodies u, globals⟩ f id params
      ret avail σ₂ σ₃ d span ss := by
  obtain @⟨id', params', avail₂, σ₂, σ₃, d, span, ss, env, m₂, s, defined, body, loads, bound,
    meaning, type, before, after⟩ := linked.compiled f mem
  -- The name still stands for the same function.
  obtain ⟨s₁, _, found₁, meaning₁, type₁⟩ := before.functions bound meaning
  obtain ⟨s', _, found', meaning', rfl⟩ := has
  change σ.symbols.findGlobal? f.name = some s' at found'
  rw [linked.symbols, found₁] at found'
  cases found'
  rw [meaning₁] at meaning'
  cases meaning'
  rw [type₁, type]
  have vars : (Loaded.ofState σ globals ext).slots = globalSlots σ₁.symbols globals :=
    congrArg (globalSlots · globals) linked.symbols
  refine ⟨avail₂, σ₂, σ₃, d, span, ss, body, ⟨after.grows.trans linked.returned.grows, ?_⟩,
    ⟨⟨σ₁.program, after.grows, ?_, linked.returned⟩, linked.finished⟩, ?_⟩
  · intro g isVar
    obtain ⟨new, eq, large⟩ := after.vars
    rw [vars, eq, body.globalSlots] at isVar
    rcases List.mem_append.mp isVar with old | late
    · exact .inl (loads.small old)
    · exact .inr (large g late)
  · obtain ⟨_, inv, -⟩ := body.evo
    obtain ⟨e, found, -, filled⟩ := inv.fn
    rw [found]
    refine after.built found fun empty => filled ?_
    rw [Koopa.Fn.blocks, empty]
    rfl
  · intro j M regs image name s₂ found
    have isGlobal : σ₂.symbols.findGlobal? name = some s₂ := by
      rw [SymbolTable.find?, loads.outer] at found
      exact found
    obtain ⟨b, here, standsFor⟩ := loads.bound isGlobal
    obtain ⟨new, eq, large⟩ := before.vars
    refine ⟨b, before.lookup here, StandsFor.bound ?_ image fun isFn => ?_⟩
    · rw [vars, eq]
      exact standsFor.onward (before.grows.trans linked.returned.grows) large
    · obtain ⟨s₃, _, found₃, meaning₃, type₃⟩ := before.functions isGlobal isFn
      refine ⟨s₃, _, ?_, meaning₃, type₃⟩
      change σ.symbols.findGlobal? name = some s₃
      rw [linked.symbols]
      exact found₃

/-- A function without a body, in the program that is run. -/
theorem Linked.foreign (linked : Linked u globals m avail σ₁ σ) (ext : External W) {name : String}
    (notOwn : ∀ f ∈ bodies u, f.name ≠ name) {id : FnId} {params : List Ty} {ret : Ty}
    (has : (Loaded.ofState σ globals ext).Has name id params ret) :
    (ret = .int ∨ ret = .void) ∧ ∃ d, σ.program.fn? id = some d ∧ d.layout = [] ∧
      d.symbol = name ∧ d.ret = ret.koopa := by
  obtain ⟨s, defined, found, meaning, rfl⟩ := has
  change σ.symbols.findGlobal? name = some s at found
  rw [linked.symbols] at found
  have waits : defined = false := by
    cases defined with
    | false => rfl
    | true =>
      obtain ⟨f, mem, isName⟩ := linked.defined found (by rw [Symbol.isDefined, meaning])
      exact absurd isName (notOwn f mem)
  subst waits
  obtain ⟨i, mem, here⟩ := SymbolTable.findGlobal?_eq_some found
  obtain ⟨d, foundFn, isName, empty⟩ := linked.loads.waiting mem here meaning
  obtain ⟨retOk, -, d', foundFn', isRet, -⟩ : (s.type = .int ∨ s.type = .void) ∧
      Lower.ParamTys params ∧ ∃ d, σ₁.program.fn? id = some d ∧ d.ret = s.type.koopa ∧
        d.paramTys = params.map Ty.koopa := by
    obtain ⟨s', here', ok⟩ := linked.loads.global mem
    obtain rfl := Option.some.inj (here.symm.trans here')
    rw [Symbol.Ok, meaning] at ok
    exact ok
  obtain rfl := Option.some.inj (foundFn.symm.trans foundFn')
  obtain ⟨e, foundE, blocks, -⟩ := linked.returned.fns foundFn
  obtain ⟨e', foundE', later⟩ := linked.returned.grows.fns foundFn
  obtain rfl := Option.some.inj (foundE.symm.trans foundE')
  refine ⟨retOk, e, foundE, ?_, ?_, later.ret.trans isRet⟩
  · rw [Koopa.Fn.blocks, Koopa.Fn.blocks, empty] at blocks
    exact List.map_eq_nil_iff.mp blocks
  · rw [Koopa.Fn.symbol, later.name, isName]
    simp

/-- A unit that was lowered is ready to run. -/
theorem Linked.prepared (linked : Linked u globals m avail σ₁ σ) (ext : External W) :
    Prepared (Loaded.ofState σ globals ext) ⟨ext, bodies u, globals⟩ where
  external := rfl
  foreign := fun has notOwn => linked.foreign ext
    (fun f mem isName => by simpa [isName] using List.find?_eq_none.mp notOwn f mem) has
  own := fun {name id params ret f} has isOwn => by
    have isName : f.name = name := by simpa using List.find?_some isOwn
    subst isName
    exact linked.built ext (List.mem_of_find?_eq_some isOwn) has

end Linked

end SysY.Meaning

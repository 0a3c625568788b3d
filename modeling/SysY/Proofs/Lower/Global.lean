import SysY.Lower.Unit
import SysY.Proofs.Lower.Stmt

/-! # Between functions

`Top avail σ` holds whenever one item of a unit ends and the next one begins: no local scope is
open, and functions that are not defined yet have no blocks. Binding a global symbol keeps it,
provided that what the symbol stands for is in the program. -/

namespace SysY.Lower

open Koopa (ValueId BlockId FnId Avail)

variable {avail : Avail} {σ : State}

/-- What holds between two items. -/
structure Top (avail : Avail) (σ : State) : Prop extends Sound avail σ where
  outer : σ.symbols.locals = []
  waiting : ∀ {n id s f ps}, (n, id) ∈ σ.symbols.global.names → σ.symbols.get? id = some s →
    s.meaning = .function f ps false →
    ∃ d, σ.program.fn? f = some d ∧ d.name = "@" ++ n ∧ d.layout = []

/-- An operation succeeds with `Q`, or it fails in an expected way. -/
abbrev Safe {α : Type} (m : Lower α) (σ : State) (Q : α → State → Prop) : Prop :=
  Ends (fun _ => True) m σ Q

theorem Ends.safe {α : Type} {E : State → Prop} {m : Lower α} {Q : α → State → Prop}
    (h : Ends E m σ Q) : Safe m σ Q := ⟨h.ok, fun e => ⟨(h.error e).1, trivial⟩⟩

theorem Safe.raise {α : Type} {Q : α → State → Prop} {e : Diag.Error} (code : Diag.Code)
    (has : e.code = code) (other : code ≠ .internalError) : Safe (raise e) σ Q :=
  .throw (Failure.expected_code code has other) trivial

/-- The site of a state. -/
def State.site (σ : State) : Site := ⟨σ.frame.fn, σ.frame.ret, σ.frame.loops, σ.symbols.depth⟩

theorem State.at_site (σ : State) : At σ.site σ := ⟨rfl, rfl, rfl, rfl⟩

/-! ## Global names -/

/-- The state after a symbol was bound in the global scope. -/
def State.bound (σ : State) (s : Symbol) : State :=
  { σ with symbols := σ.symbols.bindGlobal s }

/-- A name that is not found is not bound. -/
theorem Sound.fresh (sound : Sound avail σ) {name : String}
    (missing : σ.symbols.findGlobal? name = none) (id : Nat) :
    (name, id) ∉ σ.symbols.global.names := by
  refine Scope.not_mem_of_find? ?_ id
  cases found : σ.symbols.global.find? name with
  | none => rfl
  | some i =>
    obtain ⟨s, here, -⟩ := sound.global (Scope.mem_of_find? found)
    simp [SymbolTable.findGlobal?, SymbolTable.globalId?, found, here] at missing

/-- No function has the name that a new global symbol gets. -/
theorem Sound.fresh_fn (sound : Sound avail σ) {name : String}
    (missing : σ.symbols.findGlobal? name = none) :
    "@" ++ name ∉ σ.program.fns.toList.map (·.name) := by
  intro mem
  obtain ⟨m, id, same, here⟩ := sound.named _ mem
  obtain rfl : name = m := by simpa using same
  exact sound.fresh missing id here

/-- Binding a symbol. The program may have grown by what the symbol stands for. -/
theorem Top.bind {p : Koopa.Program} {s : Symbol} (top : Top avail σ)
    (grows : σ.program.Grows p) (ok : p.Ok avail) (tidy : p.Tidy)
    (old : ∀ {f d}, σ.program.fn? f = some d → p.fn? f = some d)
    (names : ∀ n ∈ p.fns.toList.map (·.name),
      n ∈ σ.program.fns.toList.map (·.name) ∨ n = "@" ++ s.name)
    (globals : ∀ {g t init}, p.Has g none t (.globalAlloc init) →
      σ.program.Has g none t (.globalAlloc init) ∨
        s.slot? = some g ∧ s.type.Solid ∧ t = .pointer s.type.koopa)
    (symOk : s.Ok p none)
    (waiting : ∀ {f ps}, s.meaning = .function f ps false →
      ∃ d, p.fn? f = some d ∧ d.name = "@" ++ s.name ∧ d.layout = []) :
    Top avail ((σ.withProgram p).bound s) where
  program := ok
  tidy := tidy
  named := fun n hn => by
    have self : (s.name, σ.symbols.symbols.size + 1) ∈
        ((σ.withProgram p).bound s).symbols.global.names := Scope.mem_bind.mpr (.inl ⟨rfl, rfl⟩)
    rcases names n hn with before | rfl
    · obtain ⟨m, id, rfl, mem⟩ := top.named n before
      by_cases same : m = s.name
      · exact ⟨m, _, rfl, same ▸ self⟩
      · exact ⟨m, id, rfl, Scope.mem_bind.mpr (.inr ⟨same, mem⟩)⟩
    · exact ⟨_, _, rfl, self⟩
  slots := fun has => by
    rcases globals has with before | ⟨isSlot, solid, type⟩
    · obtain ⟨id, s', found, rest⟩ := top.slots before
      exact ⟨id, s', SymbolTable.get?_bindGlobal_of_some found, rest⟩
    · refine ⟨σ.symbols.symbols.size + 1, s, ?_, isSlot, solid, type⟩
      exact (SymbolTable.get?_bindGlobal ..).trans (if_pos rfl)
  global := fun mem => by
    rcases Scope.mem_bind.mp mem with ⟨-, rfl⟩ | ⟨-, before⟩
    · exact ⟨s, (SymbolTable.get?_bindGlobal ..).trans (if_pos rfl), symOk⟩
    · obtain ⟨s', found, symOk'⟩ := top.global before
      exact ⟨s', SymbolTable.get?_bindGlobal_of_some found, symOk'.grows grows⟩
  outer := top.outer
  waiting := fun mem found meaning => by
    rcases Scope.mem_bind.mp mem with ⟨rfl, rfl⟩ | ⟨-, before⟩
    · obtain rfl : s = _ := Option.some.inj
        (((SymbolTable.get?_bindGlobal ..).trans (if_pos rfl)).symm.trans found)
      exact waiting meaning
    · obtain ⟨s', found', -⟩ := top.global before
      obtain rfl := Option.some.inj
        ((SymbolTable.get?_bindGlobal_of_some found').symm.trans found)
      obtain ⟨d, here, name, empty⟩ := top.waiting before found' meaning
      exact ⟨d, old here, name, empty⟩

/-- Binding a symbol that stands for a value. -/
theorem Top.bind_value {p : Koopa.Program} {s : Symbol} (top : Top avail σ)
    (added : Added avail σ.program p)
    (globals : ∀ {g t init}, p.Has g none t (.globalAlloc init) →
      σ.program.Has g none t (.globalAlloc init) ∨
        s.slot? = some g ∧ s.type.Solid ∧ t = .pointer s.type.koopa)
    (symOk : s.Ok p none) (value : s.isFunction = false) :
    Top avail ((σ.withProgram p).bound s) := by
  refine top.bind added.grows added.ok (top.tidy.grows added.grows added.fns)
    (fun found => (added.fn? _).trans found) ?_ globals symOk ?_
  · rw [added.fns]
    exact fun n hn => .inl hn
  · intro f ps meaning
    rw [Symbol.isFunction, meaning] at value
    cases value

/-! ## Global definitions -/

/-- What a global definition adds: what its symbol stands for, which is not a function. -/
structure Defines (avail : Avail) (p p' : Koopa.Program) (s : Symbol) : Prop
    extends Added avail p p' where
  globals : ∀ {g t init}, p'.Has g none t (.globalAlloc init) →
    p.Has g none t (.globalAlloc init) ∨
      s.slot? = some g ∧ s.type.Solid ∧ t = .pointer s.type.koopa
  symbol : s.Ok p' none
  value : s.isFunction = false

theorem globalDef_const (d : Def) (σ : State) :
    globalDef true d σ = (do
      let (ty, value) ← lift (constantDef σ.symbols.globalEnv d)
      constantSymbol d ty value : Lower Symbol) σ := rfl

theorem globalDef_var (d : Def) (σ : State) :
    globalDef false d σ = (do
      let ty ← lift (Ty.ofDef σ.symbols.globalEnv .int d)
      if Const.count ty.dims < 0 ∨ Const.Layout.maxCount < Const.count ty.dims then
        throw (.fault none)
      let data ← match d.init with
        | none => pure []
        | some init => lift (constantInit σ.symbols.globalEnv "global initializer" ty init)
      let slot ← globalVariable d.name ty data
      return { name := d.name, span := d.nameSpan, type := ty, meaning := .variable slot } :
        Lower Symbol) σ := rfl

theorem globalDef_ends (isConst : Bool) (d : Def) {c : Site} (site : At c σ)
    (ok : σ.program.Ok avail) : Ends (At c) (globalDef isConst d) σ fun s σ' =>
      ∃ p, σ' = σ.withProgram p ∧ s.name = d.name ∧ Defines avail σ.program p s := by
  cases isConst with
  | true =>
    refine Ends.of_eq (globalDef_const d σ) ?_
    refine Ends.bind (Ends.lift site (constantDef_plain _ _).expected
      (Q := fun r σ' => constantDef σ.symbols.globalEnv d = .ok r ∧ σ' = σ)
      fun r hr => ⟨hr, rfl⟩) ?_
    rintro ⟨ty, value⟩ _ ⟨defined, rfl⟩
    obtain ⟨type, dims, length⟩ := constantDef_eq_ok defined
    obtain ⟨solid, object⟩ := Ty.ofDef_solid type
    refine (constantSymbol_ends solid object dims length site ok).mono ?_
    rintro s _ ⟨p, slot, rfl, added, symOk, rfl, globals⟩
    exact ⟨p, rfl, rfl, added, globals, symOk, rfl⟩
  | false =>
    -- The data of the initializer, which makes no difference here.
    have named : ∀ {ty : Ty} (data : List Int32), ty.Solid → ty.IsObject →
        Ends (At c) (variableSymbol d ty data) σ fun s σ' =>
          ∃ p, σ' = σ.withProgram p ∧ s.name = d.name ∧ Defines avail σ.program p s := by
      intro ty data solid object
      refine (globalVariable_ends solid object d.name data site ok).bind ?_
      rintro g _ ⟨p, rfl, added, slotOk, globals⟩
      refine .pure _ ⟨p, rfl, rfl, added, ?_, ⟨solid, slotOk⟩, rfl⟩
      intro g' t init has
      exact (globals has).imp_right fun h => ⟨by rw [h.1]; rfl, solid, h.2⟩
    refine Ends.of_eq (globalDef_var d σ) ?_
    refine Ends.bind (Ends.lift site (Ty.ofDef_plain _ _ _).expected
      (Q := fun ty σ' => Ty.ofDef σ.symbols.globalEnv .int d = .ok ty ∧ σ' = σ)
      fun r hr => ⟨hr, rfl⟩) ?_
    rintro ty σ ⟨type, rfl⟩
    obtain ⟨solid, object⟩ := Ty.ofDef_solid type
    by_cases large : Const.count ty.dims < 0 ∨ Const.Layout.maxCount < Const.count ty.dims
    · rw [if_pos large]
      exact Ends.throw (f := .fault none) rfl site
    · rw [if_neg large]
      cases d.init with
      | none => exact named [] solid object
      | some init =>
        refine Ends.bind (Ends.lift site (constantInit_plain _ _ _ _).expected
          (Q := fun _ σ' => σ' = σ) fun _ _ => rfl) ?_
        rintro data _ rfl
        exact named data solid object

/-- A name can be defined once. -/
theorem define_value {s : Symbol} (value : s.isFunction = false) :
    σ.symbols.define s = (⟨true, none⟩, σ.symbols.bindGlobal s) ∨
      ∃ old, σ.symbols.define s = (⟨false, some old⟩, σ.symbols) := by
  unfold SymbolTable.define
  split
  · exact .inl rfl
  · rename_i old _
    simp only [value, Bool.and_false, Bool.false_eq_true, if_false]
    exact .inr ⟨old, rfl⟩

theorem globalDefs_safe (isConst : Bool) (ds : List Def) (top : Top avail σ) :
    Safe (globalDefs isConst ds) σ fun _ σ' => Top avail σ' ∧ σ.program.Grows σ'.program := by
  induction ds generalizing σ with
  | nil => exact .pure _ ⟨top, .refl _⟩
  | cons d ds ih =>
    rw [globalDefs]
    refine (globalDef_ends isConst d σ.at_site top.program).safe.bind ?_
    rintro s _ ⟨p, rfl, -, defines⟩
    rcases define_value (σ := σ) defines.value with new | ⟨old, taken⟩
    · have top' := top.bind_value defines.toAdded defines.globals defines.symbol defines.value
      refine Ends.of_eq (n := globalDefs isConst ds) (s := (σ.withProgram p).bound s) ?_
        ((ih top').mono fun _ σ' h => ⟨h.1, defines.grows.trans h.2⟩)
      simp only [get_bind,
        State.withProgram, new]
      rfl
    · refine Ends.of_eq (n := raise (.redefinition d.nameSpan d.name old.span)) ?_
        (Safe.raise (σ := σ.withProgram p) .redefinition rfl (by decide))
      simp only [get_bind,
        State.withProgram, taken]
      rfl

theorem globalDecl_safe {d : Decl} (whole : d.Whole) (top : Top avail σ) :
    Safe (globalDecl d) σ fun _ σ' => Top avail σ' ∧ σ.program.Grows σ'.program := by
  unfold globalDecl
  split
  · unfold refuseVoid
    split
    · rename_i empty
      exact absurd empty whole.nonempty
    · exact Safe.raise .voidVariable rfl (by decide)
  · exact globalDefs_safe d.isConst d.defs top

end SysY.Lower

import SysY.Proofs.Lower.Unit

/-! # What items do to the global names

A declaration that is accepted binds new names, a function item binds its name to a function, and
nothing else in a unit binds a global name. -/

namespace SysY.Lower

open Koopa (FnId Avail)

variable {avail : Avail} {σ σ' : State}

theorem valid_of_top (top : Top avail σ) : σ.symbols.Valid where
  locals := fun mem => by
    rw [top.outer] at mem
    cases mem
  global := fun bound => (top.global bound).imp fun _ ok => ok.1

/-! ## Declarations -/

theorem define_fresh {s : Symbol} {t : SymbolTable} (value : s.isFunction = false)
    (defined : σ.symbols.define s = (⟨true, none⟩, t)) : σ.symbols.findGlobal? s.name = none := by
  unfold SymbolTable.define at defined
  split at defined
  · rename_i missing
    exact missing
  · simp [value] at defined

/-- The first of several definitions. -/
theorem globalDefs_cons_eq_ok {isConst : Bool} {d : Def} {ds : List Def} (top : Top avail σ)
    (lowered : globalDefs isConst (d :: ds) σ = .ok () σ') : ∃ sym σ₁,
      globalDef isConst d σ = .ok sym σ₁ ∧ σ.symbols.findGlobal? d.name = none ∧
      globalDefs isConst ds (σ₁.bound sym) = .ok () σ' := by
  rw [globalDefs] at lowered
  obtain ⟨sym, σ₁, lowered₁, rest⟩ := bind_eq_ok.mp lowered
  obtain ⟨p, rfl, name, defines⟩ :=
    (globalDef_ends isConst d σ.at_site top.program).ok lowered₁
  rcases define_value (σ := σ) defines.value with new | ⟨old, taken⟩
  · refine ⟨sym, _, lowered₁, name ▸ define_fresh defines.value new, ?_⟩
    rw [← rest]
    simp only [get_bind, State.withProgram, new]
    rfl
  · simp only [get_bind, State.withProgram, taken] at rest
    cases rest

/-- A declaration that is accepted defines numbers. -/
theorem globalDecl_eq_ok {d : Decl} (whole : d.Whole)
    (lowered : globalDecl d σ = .ok () σ') :
    globalDefs d.isConst d.defs σ = .ok () σ' := by
  cases type : d.type with
  | int =>
    simp only [globalDecl, type] at lowered
    exact lowered
  | void =>
    simp only [globalDecl, type, refuseVoid] at lowered
    cases defs : d.defs with
    | nil => exact absurd defs whole.nonempty
    | cons first _ =>
      rw [defs] at lowered
      cases lowered

/-! ## Functions -/

section Function

variable {f : Fn} {id : FnId} {params : List Ty} {ret : Ty}

/-- The symbol of a function after its item. -/
theorem BindsFn.symbol (binds : BindsFn avail σ f ret params id σ') (top : Top avail σ) :
    ∃ s defined, σ'.symbols.findGlobal? f.name = some s ∧ s.meaning = .function id params defined ∧
      s.type = ret := by
  have valid := valid_of_top top
  cases binds with
  | new => exact ⟨_, _, (valid.findGlobal?_bindGlobal ..).trans (if_pos rfl), rfl, rfl⟩
  | again found meaning type => exact ⟨_, _, found, meaning, type⟩
  | define => exact ⟨_, _, (valid.findGlobal?_bindGlobal ..).trans (if_pos rfl), rfl, rfl⟩

/-- Only a function with a body becomes defined. -/
theorem BindsFn.defined (binds : BindsFn avail σ f ret params id σ') (top : Top avail σ)
    {name : String} {s : Symbol} (found : σ'.symbols.findGlobal? name = some s)
    (isDefined : s.isDefined = true) :
    σ.symbols.findGlobal? name = some s ∨ f.isDecl = false ∧ name = f.name := by
  have valid := valid_of_top top
  cases binds with
  | new =>
    have find := valid.findGlobal?_bindGlobal
      (fnSymbol f.name f.nameSpan ret id params (!f.isDecl)) name
    by_cases self : name = f.name
    · obtain rfl := Option.some.inj (found.symm.trans (find.trans (if_pos self)))
      exact .inr ⟨by simpa [Symbol.isDefined, fnSymbol] using isDefined, self⟩
    · exact .inl (((if_neg self).symm.trans find.symm).trans found)
  | again => exact .inl found
  | define _ _ _ isDef =>
    have find := valid.findGlobal?_bindGlobal
      (fnSymbol f.name f.nameSpan ret id params true) name
    by_cases self : name = f.name
    · exact .inr ⟨isDef, self⟩
    · exact .inl (((if_neg self).symm.trans find.symm).trans found)

end Function

/-! ## Units -/

/-- Declare the library, if it is wanted. -/
def declaring (withLibrary : Bool) : Lower Unit :=
  if withLibrary then declareLibrary library else pure ()

/-- The parts of lowering a unit. -/
theorem unit_eq_ok {u : CompUnit} {withLibrary : Bool}
    (lowered : unit withLibrary false u {} = .ok () σ) : ∃ σ₀ σ₁ p,
      declaring withLibrary {} = .ok () σ₀ ∧ items false u.items σ₀ = .ok () σ₁ ∧
      σ₁.program.closeBlocks = .ok p ∧ σ = σ₁.withProgram p := by
  have parts : (declaring withLibrary >>= fun _ => do
      items false u.items
      setProgram (← lift (← get).program.closeBlocks) : Lower Unit) {} = .ok () σ := by
    cases withLibrary <;> exact lowered
  obtain ⟨_, σ₀, declared, rest₀⟩ := bind_eq_ok.mp parts
  obtain ⟨_, σ₁, lowered₁, rest₁⟩ := bind_eq_ok.mp rest₀
  rw [get_bind] at rest₁
  obtain ⟨p, σ₂, lifted, rest₂⟩ := bind_eq_ok.mp rest₁
  obtain ⟨closed, rfl⟩ := lift_ok lifted
  cases rest₂
  exact ⟨σ₀, σ₂, p, declared, lowered₁, closed, rfl⟩

end SysY.Lower

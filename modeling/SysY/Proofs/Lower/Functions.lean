import SysY.Proofs.Lower.Endings
import SysY.Proofs.Lower.Items
import SysY.Proofs.Lower.Output

/-! # One function for each name

However often a function is declared, and wherever it is defined, the program has one function with
its name. The symbols keep the numbers of these functions, the global scope finds the symbols by
their names, and the program finds the functions by their numbers. `Filed` says that the three
agree; every item keeps it. -/

namespace SysY

/-- The name of the function that an item declares. -/
def Item.fnName? : Item → Option String
  | .fn _ f => some f.name
  | _ => none

/-- An item gives the function with a name a body. -/
def Implements (is : List Item) (name : String) : Prop :=
  ∃ span f, Item.fn span f ∈ is ∧ f.name = name ∧ f.isDecl = false

namespace Lower

open Koopa (ValueId FnId Avail)
open Source (Span)

variable {avail : Avail} {σ σ' σ₁ τ : State} {f : Fn} {id : FnId} {params : List Ty} {ret : Ty}
  {names : List String} {is done : List Item}

/-- The names of the functions that are declared, those of the library first. -/
def functionNames (withLibrary : Bool) (is : List Item) : List String :=
  (if withLibrary then library.map (·.name) else []) ++ is.filterMap Item.fnName?

/-! ## Headers -/

/-- What is done for a function item before its body: find the function or make it, and bind its
name. -/
def heading (f : Fn) (params : List Ty) : Lower FnId := do
  let id ← header f (returnTy f) params
  bindFn f (fnSymbol f.name f.nameSpan (returnTy f) id params (!f.isDecl))
  return id

theorem function_heading (f : Fn) : function f = (do
    let params ← lift (f.params.mapM (Ty.ofParam (← get).symbols.globalEnv))
    let id ← heading f params
    match f.body with
    | none => return ()
    | some block => body f id (returnTy f) params block) := by
  have eq : function f = functionOf f (returnTy f) := rfl
  rw [eq]
  simp only [functionOf, heading, bind_assoc, pure_bind]
  rfl

/-- A function item does not go with what comes before it. -/
inductive Conflicts (done : List Item) (t : SymbolTable) (f : Fn) (params : List Ty) : Prop
  /-- The name is that of a variable or a constant. -/
  | taken {s} : t.findGlobal? f.name = some s → s.isFunction = false → Conflicts done t f params
  /-- There are two bodies. -/
  | twice : Implements done f.name → f.isDecl = false → Conflicts done t f params
  /-- The types differ from those of the function that has the name. -/
  | differs {s id ps defined} : t.findGlobal? f.name = some s →
      s.meaning = .function id ps defined → s.type ≠ returnTy f ∨ ps ≠ params →
      Conflicts done t f params

/-- A function item is refused because of its name, before its body. -/
def Rejected (f : Fn) (params : List Ty) (σ : State) : Prop :=
  ∃ old detail, σ.symbols.findGlobal? f.name = some old ∧ ∃ e : Diag.Error,
    e = { Diag.Error.redefinition f.nameSpan f.name old.span with detail := detail } ∧
    heading f params σ = .error (.error e) σ ∧ function f σ = .error (.error e) σ

/-- What is done for the header of a function whose name stands for a function. -/
theorem header_function (ret : Ty) (params : List Ty) {s : Symbol} {ps : List Ty} {defined : Bool}
    (found : σ.symbols.findGlobal? f.name = some s) (meaning : s.meaning = .function id ps defined) :
    header f ret params σ = (do
      if defined && !f.isDecl then raise (.redefinition f.nameSpan f.name s.span)
      if s.type ≠ ret ∨ ps ≠ params then
        raise { Diag.Error.redefinition f.nameSpan f.name s.span with
          detail := "conflicting signature" }
      return id : Lower FnId) σ := by
  rw [header]
  simp only [get_bind, found, meaning]

theorem bind_refused {α β : Type} {m : Lower α} {next : α → Lower β} {e : Failure}
    (refused : m σ = .error e σ) : (m >>= next) σ = .error e σ := by
  change EStateM.bind m next σ = _
  rw [EStateM.bind, refused]

theorem rejected_of_header {old : Symbol} {detail : String}
    (resolved : f.params.mapM (Ty.ofParam σ.symbols.globalEnv) = .ok params)
    (found : σ.symbols.findGlobal? f.name = some old)
    (refused : header f (returnTy f) params σ = .error (.error
      { Diag.Error.redefinition f.nameSpan f.name old.span with detail := detail }) σ) :
    Rejected f params σ := by
  have headed : heading f params σ = .error _ σ := bind_refused refused
  refine ⟨old, detail, found, _, rfl, headed, ?_⟩
  rw [function_heading, get_bind, resolved, lift_bind]
  exact bind_refused headed

theorem heading_binds (heads : Heads avail σ f (returnTy f) params id σ₁)
    (found : header f (returnTy f) params σ = .ok id σ₁) :
    ∃ σ', heading f params σ = .ok id σ' ∧ BindsFn avail σ f (returnTy f) params id σ' := by
  obtain ⟨σ', bound, binds⟩ := bindFn_ok heads
  exact ⟨σ', (bind_ok found).trans (bind_ok bound), binds⟩

/-! ## The functions so far -/

/-- The functions of the program, the global symbols of functions, and the names agree. `names` are
those that were declared, and `is` the items so far. -/
structure Filed (names : List String) (is : List Item) (σ : State) : Prop where
  symbol : ∀ {n s}, σ.symbols.findGlobal? n = some s → s.isFunction = true →
    ∃ id ps defined d, s.meaning = .function id ps defined ∧ σ.program.fn? id = some d ∧
      d.name = "@" ++ n ∧ (defined = true ↔ Implements is n)
  bound : ∀ n ∈ names, ∃ s, σ.symbols.findGlobal? n = some s ∧ s.isFunction = true
  listed : ∀ x ∈ σ.program.fns.toList.map (·.name), ∃ n ∈ names, x = "@" ++ n
  implemented : ∀ {n}, Implements is n → n ∈ names

/-- A program has a function with a number, a name and certain types. -/
def Declares (p : Koopa.Program) (id : FnId) (name : String) (params : List Ty) (ret : Ty) : Prop :=
  ∃ d, p.fn? id = some d ∧ d.name = "@" ++ name ∧ d.paramTys = params.map Ty.koopa ∧
    d.ret = ret.koopa

theorem Declares.grows {p p' : Koopa.Program} {name : String}
    (declares : Declares p id name params ret) (grows : p.Grows p') :
    Declares p' id name params ret := by
  obtain ⟨d, found, isName, paramTys, isRet⟩ := declares
  obtain ⟨d', found', more⟩ := grows.fns found
  exact ⟨d', found', more.name.trans isName, more.paramTys.trans paramTys, more.ret.trans isRet⟩

/-- Every function that is defined has blocks. -/
def Filled (σ : State) : Prop :=
  ∀ {n s id ps}, σ.symbols.findGlobal? n = some s → s.meaning = .function id ps true →
    ∃ d, σ.program.fn? id = some d ∧ d.layout ≠ []

/-- At the header of a function item, either there is a conflict and the item is refused, or there is
none and the name is bound. -/
theorem heading_spec (top : Top avail σ) (filed : Filed names done σ)
    (resolved : f.params.mapM (Ty.ofParam σ.symbols.globalEnv) = .ok params) :
    Conflicts done σ.symbols f params ∧ Rejected f params σ ∨
      ¬ Conflicts done σ.symbols f params ∧
        ∃ id σ', heading f params σ = .ok id σ' ∧ BindsFn avail σ f (returnTy f) params id σ' := by
  have paramsOk := paramTys_of_mapM resolved
  cases found : σ.symbols.findGlobal? f.name with
  | none =>
    refine .inr ⟨fun conflict => ?_, ?_⟩
    · cases conflict with
      | taken here => cases found.symm.trans here
      | twice implemented =>
        obtain ⟨s, here, -⟩ := filed.bound _ (filed.implemented implemented)
        cases found.symm.trans here
      | differs here => cases found.symm.trans here
    · obtain ⟨id, p, eq, new⟩ := newFn_eq top.program (f.params.map ("@" ++ ·.name))
        (top.fresh_fn found) paramsOk (returnTy_ok f) (by
          intro n hn
          obtain ⟨q, -, rfl⟩ := List.mem_map.mp hn
          exact head_at q.name)
      have head : header f (returnTy f) params σ = .ok id (σ.withProgram p) := by
        rw [← eq, header]
        simp only [get_bind, found]
      exact ⟨id, heading_binds (.new found new) head⟩
  | some s =>
    cases isFunction : s.isFunction with
    | false =>
      have head : header f (returnTy f) params σ =
          .error (.error (.redefinition f.nameSpan f.name s.span)) σ := by
        rw [header]
        cases meaning : s.meaning with
        | function => rw [Symbol.isFunction, meaning] at isFunction; cases isFunction
        | constant | «variable» =>
          simp only [get_bind, found, meaning]
          rfl
      exact .inl ⟨.taken found isFunction, rejected_of_header resolved found head⟩
    | true =>
      obtain ⟨id, ps, defined, d, meaning, -, -, implemented⟩ := filed.symbol found isFunction
      have head := header_function (returnTy f) params found meaning
      by_cases twice : (defined && !f.isDecl) = true
      · rw [if_pos twice] at head
        obtain ⟨isDefined, isDef⟩ := Bool.and_eq_true_iff.mp twice
        exact .inl ⟨.twice (implemented.mp isDefined) (by simpa using isDef),
          rejected_of_header resolved found head⟩
      · rw [if_neg twice] at head
        by_cases differs : s.type ≠ returnTy f ∨ ps ≠ params
        · simp only [if_pos differs] at head
          exact .inl ⟨.differs found meaning differs, rejected_of_header resolved found head⟩
        · simp only [if_neg differs] at head
          refine .inr ⟨fun conflict => ?_, ?_⟩
          · cases conflict with
            | taken here value =>
              cases found.symm.trans here
              rw [isFunction] at value
              cases value
            | twice both isDef =>
              exact twice (by rw [implemented.mpr both, isDef]; rfl)
            | differs here meaning' differs' =>
              cases found.symm.trans here
              cases meaning.symm.trans meaning'
              exact differs differs'
          · obtain ⟨sameTy, samePs⟩ := not_or.mp differs
            obtain rfl := not_not.mp samePs
            refine ⟨id, heading_binds (.old found meaning (not_not.mp sameTy) fun isDefined => ?_) head⟩
            cases isDecl : f.isDecl with
            | true => rfl
            | false => simp [isDefined, isDecl] at twice

/-! ### Binding a function -/

theorem implements_append {n : String} :
    Implements (is ++ done) n ↔ Implements is n ∨ Implements done n := by
  simp only [Implements, List.mem_append]
  constructor
  · rintro ⟨span, f, here | here, rest⟩
    · exact .inl ⟨span, f, here, rest⟩
    · exact .inr ⟨span, f, here, rest⟩
  · rintro (⟨span, f, here, rest⟩ | ⟨span, f, here, rest⟩)
    · exact ⟨span, f, .inl here, rest⟩
    · exact ⟨span, f, .inr here, rest⟩

theorem implements_fn {span : Span} {n : String} :
    Implements [.fn span f] n ↔ f.name = n ∧ f.isDecl = false := by
  constructor
  · rintro ⟨span', f', mem, rest⟩
    cases List.mem_singleton.mp mem
    exact rest
  · exact fun rest => ⟨span, f, by simp, rest⟩

/-- A function that was just made is bound. -/
theorem Filed.new {p : Koopa.Program} {n : String} {ks : List Koopa.Ty} {r : Koopa.Ty}
    (filed : Filed names is σ) (valid : σ.symbols.Valid)
    (new : Koopa.Program.NewFn avail σ.program ("@" ++ n) ks r id p) {span : Span}
    {defined : Bool} (self : defined = true ↔ Implements done n)
    (others : ∀ {m}, Implements done m ↔ Implements is m ∨ m = n ∧ defined = true) :
    Filed (names ++ [n]) done
      ((σ.withProgram p).bound (fnSymbol n span ret id params defined)) where
  symbol := fun {m s} found isFunction => by
    have find := valid.findGlobal?_bindGlobal (fnSymbol n span ret id params defined) m
    by_cases same : m = n
    · obtain ⟨d, here, isName, -⟩ := new.fn
      cases found.symm.trans (find.trans (if_pos same))
      exact ⟨id, params, defined, d, rfl, here, same ▸ isName, same ▸ self⟩
    · obtain ⟨id', ps, b, d, meaning, here, isName, implemented⟩ :=
        filed.symbol (((if_neg same).symm.trans find.symm).trans found) isFunction
      obtain ⟨d', here', grows⟩ := new.grows.fns here
      refine ⟨id', ps, b, d', meaning, here', grows.name.trans isName, implemented.trans ?_⟩
      rw [others]
      exact ⟨.inl, fun h => h.resolve_right fun own => same own.1⟩
  bound := fun m mem => by
    have find := valid.findGlobal?_bindGlobal (fnSymbol n span ret id params defined) m
    by_cases same : m = n
    · exact ⟨_, find.trans (if_pos same), rfl⟩
    · rcases List.mem_append.mp mem with old | last
      · obtain ⟨s, found, isFunction⟩ := filed.bound m old
        exact ⟨s, find.trans ((if_neg same).trans found), isFunction⟩
      · exact absurd (List.mem_singleton.mp last) same
  listed := fun x mem => by
    rw [show ((σ.withProgram p).bound _).program.fns.toList.map (·.name) = _ from new.names] at mem
    rcases List.mem_append.mp mem with old | last
    · obtain ⟨m, known, eq⟩ := filed.listed x old
      exact ⟨m, by simp [known], eq⟩
    · exact ⟨n, by simp, List.mem_singleton.mp last⟩
  implemented := fun {m} here => by
    rcases others.mp here with old | ⟨rfl, -⟩
    · exact List.mem_append_left _ (filed.implemented old)
    · simp

theorem BindsFn.filed {span : Span} (binds : BindsFn avail σ f ret params id σ₁)
    (top : Top avail σ) (filed : Filed names done σ) :
    Filed (names ++ [f.name]) (done ++ [.fn span f]) σ₁ := by
  have valid := valid_of_top top
  have others : ∀ {m}, Implements (done ++ [.fn span f]) m ↔
      Implements done m ∨ m = f.name ∧ f.isDecl = false := by
    intro m
    rw [implements_append, implements_fn, eq_comm (a := f.name)]
  cases binds with
  | new missing new =>
    have others' : ∀ {m}, Implements (done ++ [.fn span f]) m ↔
        Implements done m ∨ m = f.name ∧ (!f.isDecl) = true := by
      intro m
      rw [others, Bool.not_eq_true']
    refine filed.new valid new ?_ others'
    rw [others']
    refine ⟨fun own => .inr ⟨rfl, own⟩, fun h => (h.resolve_left fun implemented => ?_).2⟩
    obtain ⟨s, found, -⟩ := filed.bound _ (filed.implemented implemented)
    cases missing.symm.trans found
  | @again s defined found meaning type isDecl =>
    have same : ∀ {m}, Implements (done ++ [.fn span f]) m ↔ Implements done m := by
      intro m
      simp [others, isDecl]
    refine ⟨fun found isFunction => ?_, fun m mem => ?_, fun x mem => ?_, fun here => ?_⟩
    · simp only [same]
      exact filed.symbol found isFunction
    · rcases List.mem_append.mp mem with old | last
      · exact filed.bound m old
      · obtain rfl := List.mem_singleton.mp last
        exact ⟨s, found, by rw [Symbol.isFunction, meaning]⟩
    · obtain ⟨m, known, eq⟩ := filed.listed x mem
      exact ⟨m, by simp [known], eq⟩
    · exact List.mem_append_left _ (filed.implemented (same.mp here))
  | @define s found meaning type isDef =>
    have isFunction : s.isFunction = true := by rw [Symbol.isFunction, meaning]
    have find := valid.findGlobal?_bindGlobal (fnSymbol f.name f.nameSpan ret id params true)
    refine ⟨fun {m s'} found' isFunction' => ?_, fun m mem => ?_, fun x mem => ?_, fun {m} here => ?_⟩
    · rw [others]
      by_cases same : m = f.name
      · cases found'.symm.trans ((find m).trans (if_pos same))
        obtain ⟨id', ps, b, d, meaning', here, isName, -⟩ := filed.symbol found isFunction
        cases meaning.symm.trans meaning'
        exact ⟨id, params, true, d, rfl, here, same ▸ isName, by simp [same, isDef]⟩
      · obtain ⟨id', ps, b, d, meaning', here, isName, implemented⟩ :=
          filed.symbol (((if_neg same).symm.trans (find m).symm).trans found') isFunction'
        exact ⟨id', ps, b, d, meaning', here, isName, by simp [same, implemented]⟩
    · by_cases same : m = f.name
      · exact ⟨_, (find m).trans (if_pos same), rfl⟩
      · rcases List.mem_append.mp mem with old | last
        · obtain ⟨s', found', isFunction'⟩ := filed.bound m old
          exact ⟨s', (find m).trans ((if_neg same).trans found'), isFunction'⟩
        · exact absurd (List.mem_singleton.mp last) same
    · obtain ⟨m, known, eq⟩ := filed.listed x mem
      exact ⟨m, by simp [known], eq⟩
    · rcases others.mp here with old | ⟨rfl, -⟩
      · exact List.mem_append_left _ (filed.implemented old)
      · simp

/-- After the body of a function every name stands for what it stood for before. -/
theorem Filed.evolve (filed : Filed names is σ) (larger : σ.program.Enlarges σ'.program)
    (same : ∀ n, σ'.symbols.findGlobal? n = σ.symbols.findGlobal? n) : Filed names is σ' where
  symbol := fun {n s} found isFunction => by
    obtain ⟨id, ps, b, d, meaning, here, isName, implemented⟩ :=
      filed.symbol ((same n).symm.trans found) isFunction
    obtain ⟨d', here', grows⟩ := larger.fns here
    exact ⟨id, ps, b, d', meaning, here', grows.name.trans isName, implemented⟩
  bound := fun n mem => by
    obtain ⟨s, found, isFunction⟩ := filed.bound n mem
    exact ⟨s, (same n).trans found, isFunction⟩
  listed := fun x mem => filed.listed x (larger.names ▸ mem)
  implemented := filed.implemented

/-! ### Binding a value -/

theorem Filed.value {p : Koopa.Program} {s : Symbol} (filed : Filed names is σ)
    (valid : σ.symbols.Valid) (fns : p.fns = σ.program.fns) (isValue : s.isFunction = false)
    (fresh : σ.symbols.findGlobal? s.name = none) : Filed names is ((σ.withProgram p).bound s) where
  symbol := fun {n s'} found isFunction => by
    have find := valid.findGlobal?_bindGlobal s n
    by_cases same : n = s.name
    · cases found.symm.trans (find.trans (if_pos same))
      rw [isFunction] at isValue
      cases isValue
    · obtain ⟨id, ps, b, d, meaning, here, rest⟩ :=
        filed.symbol (((if_neg same).symm.trans find.symm).trans found) isFunction
      exact ⟨id, ps, b, d, meaning, (congrArg (Koopa.Program.numbered? · id) fns).trans here, rest⟩
  bound := fun n mem => by
    obtain ⟨s', found, isFunction⟩ := filed.bound n mem
    refine ⟨s', (valid.findGlobal?_bindGlobal s n).trans ((if_neg ?_).trans found), isFunction⟩
    rintro rfl
    cases fresh.symm.trans found
  listed := fun x mem => filed.listed x (fns ▸ mem)
  implemented := filed.implemented

theorem Filled.value {p : Koopa.Program} {s : Symbol} (filled : Filled σ)
    (valid : σ.symbols.Valid) (fns : p.fns = σ.program.fns) (isValue : s.isFunction = false) :
    Filled ((σ.withProgram p).bound s) := fun {n s' id ps} found meaning => by
  have find := valid.findGlobal?_bindGlobal s n
  by_cases same : n = s.name
  · cases found.symm.trans (find.trans (if_pos same))
    rw [Symbol.isFunction, meaning] at isValue
    cases isValue
  · obtain ⟨d, here, blocks⟩ := filled (((if_neg same).symm.trans find.symm).trans found) meaning
    exact ⟨d, (congrArg (Koopa.Program.numbered? · id) fns).trans here, blocks⟩

theorem globalDefs_filed {isConst : Bool} {ds : List Def} (top : Top avail σ)
    (filed : Filed names is σ) (filled : Filled σ) (ran : globalDefs isConst ds σ = .ok () σ') :
    Filed names is σ' ∧ Filled σ' := by
  induction ds generalizing σ with
  | nil =>
    cases ran
    exact ⟨filed, filled⟩
  | cons d ds ih =>
    obtain ⟨s, σ₁, defined, fresh, rest⟩ := globalDefs_cons_eq_ok top ran
    obtain ⟨p, rfl, name, defines⟩ := (globalDef_ends isConst d σ.at_site top.program).ok defined
    have valid := valid_of_top top
    exact ih (top.bind_value defines.toAdded defines.globals defines.symbol defines.value)
      (filed.value valid defines.fns defines.value (name ▸ fresh))
      (filled.value valid defines.fns defines.value) rest

/-! ### From item to item -/

/-- What holds between two items, with the items so far. -/
structure Between (withLibrary : Bool) (avail : Avail) (done : List Item) (σ : State) : Prop
    extends Top avail σ where
  filed : Filed (functionNames withLibrary done) done σ
  filled : Filled σ

/-- The parts of lowering a function. -/
theorem function_eq_ok (top : Top avail σ) (ran : function f σ = .ok () σ') : ∃ params id σ₁,
    f.params.mapM (Ty.ofParam σ.symbols.globalEnv) = .ok params ∧
      heading f params σ = .ok id σ₁ ∧ BindsFn avail σ f (returnTy f) params id σ₁ ∧
      (match f.body with
        | none => return ()
        | some block => body f id (returnTy f) params block : Lower Unit) σ₁ = .ok () σ' := by
  rw [function_heading, get_bind] at ran
  obtain ⟨params, σ₀, lifted, rest⟩ := bind_eq_ok.mp ran
  obtain ⟨resolved, rfl⟩ := lift_ok lifted
  obtain ⟨id, σ₁, headed, last⟩ := bind_eq_ok.mp rest
  obtain ⟨id', σ₂, found, binding⟩ := bind_eq_ok.mp headed
  obtain ⟨_, σ₃, bound, returned⟩ := bind_eq_ok.mp binding
  cases returned
  have heads := (header_safe (paramTys_of_mapM resolved) (returnTy_ok f) top).ok found
  exact ⟨params, id, _, resolved, headed, bindFn_binds heads bound, last⟩

/-- A function that is defined has blocks, but for the one whose body comes next. -/
theorem BindsFn.filled (binds : BindsFn avail σ f ret params id σ₁) (top : Top avail σ)
    (grows : σ.program.Grows σ₁.program) (filled : Filled σ) {n : String} {s : Symbol} {g : FnId}
    {ps : List Ty} (found : σ₁.symbols.findGlobal? n = some s) (meaning : s.meaning = .function g ps true) :
    (∃ d, σ₁.program.fn? g = some d ∧ d.layout ≠ []) ∨ f.isDecl = false ∧ g = id := by
  have isDefined : s.isDefined = true := by rw [Symbol.isDefined, meaning]
  rcases binds.defined top found isDefined with old | ⟨isDef, rfl⟩
  · obtain ⟨d, here, blocks⟩ := filled old meaning
    obtain ⟨d', here', more⟩ := grows.fns here
    exact .inl ⟨d', here', Koopa.Program.filled_of_grows more blocks⟩
  · obtain ⟨s', b, found', meaning', -⟩ := binds.symbol top
    cases found.symm.trans found'
    cases meaning.symm.trans meaning'
    exact .inr ⟨isDef, rfl⟩

theorem functionNames_append (withLibrary : Bool) (is js : List Item) :
    functionNames withLibrary (is ++ js) =
      functionNames withLibrary is ++ js.filterMap Item.fnName? := by
  rw [functionNames, List.filterMap_append, ← List.append_assoc, functionNames]

variable {withLibrary : Bool} {span : Span}

theorem function_between (whole : f.Whole) (between : Between withLibrary avail done σ)
    (ran : function f σ = .ok () σ') :
    ∃ avail', Between withLibrary avail' (done ++ [.fn span f]) σ' := by
  have top := between.toTop
  obtain ⟨params, id, σ₁, resolved, -, binds, ran⟩ := function_eq_ok top ran
  have paramsOk := paramTys_of_mapM resolved
  obtain ⟨top₁, grows₁, ready⟩ := binds.top paramsOk (returnTy_ok f) top
  have filed : Filed (functionNames withLibrary (done ++ [.fn span f])) (done ++ [.fn span f]) σ₁ := by
    rw [functionNames_append]
    exact binds.filed top between.filed
  have filled : ∀ {n s g ps}, σ₁.symbols.findGlobal? n = some s → s.meaning = .function g ps true →
      (∃ d, σ₁.program.fn? g = some d ∧ d.layout ≠ []) ∨ f.isDecl = false ∧ g = id :=
    binds.filled top grows₁ between.filled
  cases isBody : f.body with
  | none =>
    rw [isBody] at ran
    cases ran
    have isDecl : f.isDecl = true := by rw [Fn.isDecl, isBody]; rfl
    refine ⟨avail, top₁, filed, fun found meaning => (filled found meaning).resolve_right ?_⟩
    rintro ⟨isDef, -⟩
    rw [isDecl] at isDef
    cases isDef
  | some block =>
    rw [isBody] at ran
    have isDef : f.isDecl = false := by rw [Fn.isDecl, isBody]; rfl
    obtain ⟨avail', top', grows, d, built, blocks⟩ :=
      (body_safe whole isBody paramsOk (returnTy_ok f) top₁ (ready isDef)).ok ran
    have encloses := body_encloses f id (returnTy f) params block σ₁
    rw [after_ok ran] at encloses
    have same : ∀ n, σ'.symbols.findGlobal? n = σ₁.symbols.findGlobal? n :=
      SymbolTable.Later.findGlobal? ⟨encloses.symbols, encloses.globals⟩ (valid_of_top top₁)
    refine ⟨avail', top', filed.evolve ⟨encloses.program, encloses.functions⟩ same, ?_⟩
    intro n s g ps found meaning
    rcases filled ((same n).symm.trans found) meaning with ⟨d', here, old⟩ | ⟨-, rfl⟩
    · obtain ⟨d'', here', more⟩ := grows.fns here
      exact ⟨d'', here', Koopa.Program.filled_of_grows more old⟩
    · exact ⟨d, built, blocks⟩

theorem item_between {i : Item} (whole : i.Whole) (between : Between withLibrary avail done σ)
    (ran : item i σ = .ok () σ') : ∃ avail', Between withLibrary avail' (done ++ [i]) σ' := by
  match i, whole with
  | .fn span f, whole => exact function_between whole between ran
  | .decl s (some d), whole =>
    obtain ⟨_, ⟨⟩, dWhole⟩ := whole
    have top := between.toTop
    have ran := globalDecl_eq_ok dWhole ran
    obtain ⟨filed, filled⟩ := globalDefs_filed top between.filed between.filled ran
    refine ⟨avail, ((globalDefs_safe d.isConst d.defs top).ok ran).1, ?_, filled⟩
    have same : ∀ {n}, Implements (done ++ [.decl s (some d)]) n ↔ Implements done n := by
      intro n
      rw [implements_append]
      refine or_iff_left fun ⟨span, f, mem, _⟩ => ?_
      cases List.mem_singleton.mp mem
    rw [functionNames_append]
    refine ⟨fun found isFunction => ?_, by simpa [Item.fnName?] using filed.bound,
      by simpa [Item.fnName?] using filed.listed, fun here => by
        simpa [Item.fnName?] using filed.implemented (same.mp here)⟩
    simp only [same]
    exact filed.symbol found isFunction
  | .decl _ none, whole =>
    obtain ⟨d, hd, -⟩ := whole
    cases hd

theorem items_between {is : List Item} (whole : ∀ i ∈ is, i.Whole)
    (between : Between withLibrary avail done σ) (ran : items false is σ = .ok () σ') :
    ∃ avail', Between withLibrary avail' (done ++ is) σ' := by
  induction is generalizing avail done σ with
  | nil =>
    cases ran
    exact ⟨avail, by rwa [List.append_nil]⟩
  | cons i is ih =>
    obtain ⟨_, σ₁, first, rest⟩ := bind_eq_ok.mp ran
    obtain ⟨avail₁, between₁⟩ := item_between (whole i (by simp)) between first
    obtain ⟨avail', between'⟩ := ih (fun j hj => whole j (by simp [hj])) between₁ rest
    exact ⟨avail', by rwa [List.append_assoc] at between'⟩

/-! ### The library -/

theorem declareLibrary_filed {ls : List LibraryFn} (distinct : (ls.map (·.name)).Nodup)
    (typed : ∀ l ∈ ls, ParamTys l.params ∧ (l.ret = .int ∨ l.ret = .void))
    (missing : ∀ l ∈ ls, σ.symbols.findGlobal? l.name = none) (top : Top avail σ)
    (filed : Filed names [] σ) (filled : Filled σ) (ran : declareLibrary ls σ = .ok () σ') :
    Filed (names ++ ls.map (·.name)) [] σ' ∧ Filled σ' ∧
      ∀ l ∈ ls, ∃ id, Declares σ'.program id l.name l.params l.ret := by
  induction ls generalizing σ names with
  | nil =>
    cases ran
    exact ⟨by simpa using filed, filled, by simp⟩
  | cons l ls ih =>
    obtain ⟨paramsOk, retOk⟩ := typed l (by simp)
    have here := missing l (by simp)
    obtain ⟨g, p, eq, new⟩ := newFn_eq top.program [] (top.fresh_fn here) paramsOk retOk (by simp)
    have top' := top.bind_new paramsOk retOk new {} false
    rw [declareLibrary_cons here eq] at ran
    rw [List.map_cons, List.nodup_cons] at distinct
    have find := (valid_of_top top).findGlobal?_bindGlobal (fnSymbol l.name {} l.ret g l.params false)
    have filed' : Filed (names ++ [l.name]) [] ((σ.withProgram p).bound
        (fnSymbol l.name {} l.ret g l.params false)) :=
      filed.new (valid_of_top top) new (by simp [Implements]) (by simp)
    have filled' : Filled ((σ.withProgram p).bound (fnSymbol l.name {} l.ret g l.params false)) := by
      intro n s id ps found meaning
      by_cases same : n = l.name
      · cases found.symm.trans ((find n).trans (if_pos same))
        cases meaning
      · obtain ⟨d, built, blocks⟩ := filled (((if_neg same).symm.trans (find n).symm).trans found) meaning
        obtain ⟨d', built', grows⟩ := new.grows.fns built
        exact ⟨d', built', Koopa.Program.filled_of_grows grows blocks⟩
    have rest : ∀ m ∈ ls, ((σ.withProgram p).bound
        (fnSymbol l.name {} l.ret g l.params false)).symbols.findGlobal? m.name = none := by
      intro m mem
      refine (find m.name).trans ((if_neg fun same => ?_).trans (missing m (by simp [mem])))
      exact distinct.1 (List.mem_map.mpr ⟨m, mem, same⟩)
    obtain ⟨filed'', filled'', declares⟩ := ih distinct.2 (fun m mem => typed m (by simp [mem])) rest
      top' filed' filled' ran
    rw [List.append_assoc] at filed''
    refine ⟨filed'', filled'', fun m mem => ?_⟩
    rcases List.mem_cons.mp mem with rfl | later
    · obtain ⟨d, built, isName, paramTys, isRet, -⟩ := new.fn
      have made : Declares p g m.name m.params m.ret := ⟨d, built, isName, paramTys, isRet⟩
      exact ⟨g, made.grows ((declareLibrary_passes ls).ok ran).program⟩
    · exact declares m later

theorem declaring_between (ran : declaring withLibrary {} = .ok () σ) :
    Between withLibrary (fun _ => ∅) [] σ ∧ (withLibrary = true → ∀ l ∈ library, ∃ id,
      Declares σ.program id l.name l.params l.ret) := by
  have top : Top (fun _ => ∅) σ := (library_safe withLibrary).ok ran
  have empty : Filed [] [] {} := ⟨fun found => (by cases found), fun n mem => (by cases mem),
    fun x mem => (by cases mem), fun ⟨_, _, mem, _⟩ => (by cases mem)⟩
  have nothing : Filled {} := fun found => (by cases found)
  have listed : functionNames withLibrary [] = if withLibrary then library.map (·.name) else [] := by
    rw [functionNames, List.filterMap_nil, List.append_nil]
  cases withLibrary with
  | false =>
    cases ran
    exact ⟨⟨top, listed ▸ empty, nothing⟩, nofun⟩
  | true =>
    obtain ⟨filed, filled, declares⟩ := declareLibrary_filed (by decide) library_typed
      (fun _ _ => rfl) .empty empty nothing ran
    exact ⟨⟨top, listed ▸ filed, filled⟩, fun _ => declares⟩

/-! ## Calls -/

/-- A part is a call, of which the value is needed or not. -/
inductive Part.IsCall (span : Span) (name : String) (nameSpan : Span) (as : List Expr) : Part → Prop
  | value : IsCall span name nameSpan as (.expr (.call span name nameSpan as))
  | effect {s e} : e.stripGroups = .call span name nameSpan as →
      IsCall span name nameSpan as (.stmt (.expr s (some e)))

/-- An instruction that was made is in the program. -/
theorem tryEmitNew_makes {f : Koopa.Program → FnId → Outcome (ValueId × Koopa.Program)}
    {x : Koopa.ValueDef} {v : ValueId}
    (inserts : ∀ {p fn r}, f p fn = .ok r → ∃ h t n, r = p.insert ⟨h, t, x, n⟩)
    (ran : tryEmitNew f σ = .ok v τ) : ∃ home t, τ.program.Has v home t x := by
  obtain ⟨w, σ₁, made, ran⟩ := bind_eq_ok.mp ran
  obtain ⟨_, σ₂, emitted, done⟩ := bind_eq_ok.mp ran
  cases done
  have grows := ((emit_kept v).ok emitted).program
  unfold tryMake at made
  rw [get_bind] at made
  obtain ⟨r, σ₃, lifted, made⟩ := bind_eq_ok.mp made
  obtain ⟨inserted, rfl⟩ := lift_ok lifted
  obtain ⟨h, t, n, rfl⟩ := inserts inserted
  cases made
  exact ⟨h, t, grows.values (Koopa.Program.has_insert ..)⟩

/-- A call that succeeds makes the instruction for the function that the name stands for. -/
theorem callFn_makes {nameSpan : Span} {name : String} {count : Nat}
    {lowerArgs : List Ty → Lower (List ValueId)} {v : ValueId} {s : Symbol}
    (ran : callFn span name nameSpan count lowerArgs σ = .ok (v, s) τ) :
    σ.symbols.find? name = some s ∧ ∃ id params defined vs home t,
      s.meaning = .function id params defined ∧ τ.program.Has v home t (.call id vs) := by
  rw [callFn_eq] at ran
  cases found : σ.symbols.find? name with
  | none =>
    rw [found] at ran
    cases ran
  | some s' =>
    simp only [found] at ran
    cases meaning : s'.meaning with
    | constant | «variable» =>
      simp only [meaning] at ran
      cases ran
    | function id ps defined =>
      simp only [meaning] at ran
      split at ran
      · cases ran
      · obtain ⟨vs, σ₁, -, ran⟩ := bind_eq_ok.mp ran
        obtain ⟨v', σ₂, called, done⟩ := bind_eq_ok.mp ran
        cases done
        obtain ⟨home, t, has⟩ := tryEmitNew_makes Koopa.Program.call_inserts called
        exact ⟨rfl, id, ps, defined, vs, home, t, meaning, has⟩

/-- What is reached inside of a function: no global name was bound since the name of the function
was, and no local name stands for a function. -/
structure Nests (σ σ' : State) : Prop where
  symbols : ∀ {id s}, σ.symbols.get? id = some s → σ'.symbols.get? id = some s
  global : σ'.symbols.global = σ.symbols.global
  program : σ.program.Grows σ'.program
  inside : σ'.symbols.depth ≠ 0
  apart : σ'.symbols.Apart

theorem Nests.stays (nests : Nests σ σ₁) (stays : Stays σ₁ σ') : Nests σ σ' where
  symbols := fun found => stays.symbols (nests.symbols found)
  global := (stays.global nests.inside).trans nests.global
  program := nests.program.trans stays.program
  inside := by
    rw [stays.depth]
    exact nests.inside
  apart := stays.apart nests.apart

/-- Scopes and loops may be entered on the way. -/
theorem Nests.leads {part part' : Part} (nests : Nests σ₁ σ) (leads : Leads part σ part' σ')
    (isBody : part.InBody) : Nests σ₁ σ' := by
  rcases leads.keeps isBody with stays | rfl | ⟨_, cond, _, -, -, repeated⟩
  · exact nests.stays stays
  · exact ⟨nests.symbols, nests.global, nests.program, Nat.succ_ne_zero _, nests.apart.push _⟩
  · obtain ⟨_, _, _, _, σ₂, -, stays, rfl⟩ := repeating_enters repeated
    exact { nests.stays stays with }

/-- Before the first statement of a function its parameters are bound, in a scope of their own. -/
theorem opening_nests (top : Top avail σ) (opened : opening f σ = .ok () σ') : ∃ avail₁ params id σ₁,
    BindsFn avail σ f (returnTy f) params id σ₁ ∧ Top avail₁ σ₁ ∧ Nests σ₁ σ' := by
  unfold opening at opened
  rw [get_bind] at opened
  obtain ⟨params, σ₀, lifted, rest₀⟩ := bind_eq_ok.mp opened
  obtain ⟨resolved, rfl⟩ := lift_ok lifted
  obtain ⟨id, σ₁, found, rest₁⟩ := bind_eq_ok.mp rest₀
  obtain ⟨_, σ₂, bound, rest₂⟩ := bind_eq_ok.mp rest₁
  obtain ⟨_, σ₃, framed, rest₃⟩ := bind_eq_ok.mp rest₂
  obtain ⟨b, σ₄, laid, rest₄⟩ := bind_eq_ok.mp rest₃
  obtain ⟨_, σ₅, switched, rest₅⟩ := bind_eq_ok.mp rest₄
  obtain ⟨_, σ₆, pushed, spilled⟩ := bind_eq_ok.mp rest₅
  have paramsOk := paramTys_of_mapM resolved
  have heads := (header_safe paramsOk (returnTy_ok f) top).ok found
  have binds := bindFn_binds heads bound
  have top₂ := (binds.top paramsOk (returnTy_ok f) top).1
  have spill : Kept (do
      spillParams f.params params (← lift ((← get).program.fn id)).params) :=
    get_keeps fun _ => bind_keeps (lift_keeps _) fun _ => spillParams_kept _ _ _
  cases framed
  cases switched
  cases pushed
  have encloses := newBlock_encloses.ok laid
  have apart : σ₂.symbols.Apart := fun sc mem => by
    rw [top₂.outer] at mem
    cases mem
  refine ⟨avail, params, id, σ₂, binds, top₂, Nests.stays ?_ (spill.ok spilled)⟩
  exact ⟨encloses.symbols, encloses.globals, encloses.program, Nat.succ_ne_zero _,
    (encloses.apart apart).push _⟩

/-- Where lowering is: between two items, or in a function. -/
def Part.Placed (withLibrary : Bool) (u : CompUnit) (part : Part) (σ : State) : Prop :=
  match part with
  | .items is => ∃ done avail, u.items = done ++ is ∧ Between withLibrary avail done σ
  | _ => ∃ names is avail σ₁, Top avail σ₁ ∧ Filed names is σ₁ ∧ Nests σ₁ σ

theorem Part.Placed.of_body {u : CompUnit} {part : Part} {names : List String} {is : List Item}
    (isBody : part.InBody) (top : Top avail σ₁) (filed : Filed names is σ₁) (nests : Nests σ₁ σ) :
    part.Placed withLibrary u σ := by
  cases part with
  | items => exact isBody.elim
  | _ => exact ⟨names, is, avail, σ₁, top, filed, nests⟩

theorem Leads.inBody {part part' : Part} (leads : Leads part σ part' σ') (isBody : part.InBody) :
    part'.InBody := by
  cases leads <;> trivial

theorem Reached.placed {u : CompUnit} (whole : u.Whole) {part : Part}
    (reached : Reached withLibrary u part σ) : part.Placed withLibrary u σ := by
  induction reached with
  | start ran => exact ⟨[], _, rfl, (declaring_between ran).1⟩
  | @step part part' σ σ' reached leads ih =>
    cases part with
    | items is =>
      obtain ⟨done, avail, items, between⟩ := ih
      cases leads with
      | @body span _ f ss rest _ _ isBody opened =>
        obtain ⟨avail₁, params, id, σ₁, binds, top₁, nests⟩ := opening_nests between.toTop opened
        have filed : Filed _ (done ++ [.fn span f]) σ₁ := binds.filed between.toTop between.filed
        exact .of_body trivial top₁ filed nests
      | @nextItem i rest _ _ ran =>
        have itemWhole : i.Whole := whole i (by simp [items])
        obtain ⟨avail', between'⟩ := item_between itemWhole between ran
        exact ⟨done ++ [i], avail', by simp [items], between'⟩
    | _ =>
      obtain ⟨names, is, avail, σ₁, top, filed, nests⟩ := ih
      exact .of_body (leads.inBody trivial) top filed (nests.leads leads trivial)

/-! ## The program of a unit -/

/-- The function with a name in a program has certain types. -/
def Signature (p : Koopa.Program) (name : String) (params : List Ty) (ret : Ty) : Prop :=
  ∃ id d ks r, p.named? ("@" ++ name) = some id ∧ p.fn? id = some d ∧
    params.mapM Ty.toKoopa = .ok ks ∧ ret.toKoopa = .ok r ∧ d.ty = .func ks r

theorem toKoopa_params (paramsOk : ParamTys params) :
    params.mapM Ty.toKoopa = .ok (params.map Ty.koopa) := by
  induction params with
  | nil => rfl
  | cons t ts ih =>
    rw [List.mapM_cons, Ty.toKoopa_eq (paramsOk.solid (by simp)),
      ih fun u mem => paramsOk u (by simp [mem])]
    rfl

/-- A function that was declared has its types in every later program. -/
theorem Declares.signature {p p' : Koopa.Program} {name : String}
    (declares : Declares p id name params ret) (grows : p.Grows p')
    (distinct : (p'.fns.toList.map (·.name)).Nodup) (paramsOk : ParamTys params)
    (retOk : ret = .int ∨ ret = .void) : Signature p' name params ret := by
  obtain ⟨d, found, isName, paramTys, isRet⟩ := declares.grows grows
  have named := Koopa.Program.named?_eq distinct found
  rw [isName] at named
  refine ⟨id, d, params.map Ty.koopa, ret.koopa, named, found, toKoopa_params paramsOk, ?_, ?_⟩
  · rcases retOk with rfl | rfl <;> rfl
  · rw [Koopa.Fn.ty, paramTys, isRet]

/-- The state before an item, and after those in front of it. -/
def ahead (withLibrary : Bool) (done : List Item) : Lower Unit := do
  declaring withLibrary
  items false done

theorem ahead_between (whole : ∀ i ∈ done, i.Whole) (ran : ahead withLibrary done {} = .ok () σ) :
    ∃ avail, Between withLibrary avail done σ := by
  obtain ⟨_, σ₀, declared, ran⟩ := bind_eq_ok.mp ran
  exact items_between whole (declaring_between declared).1 ran

theorem items_append {js : List Item} (ran : items false (is ++ js) σ = .ok () τ) :
    ∃ σ', items false is σ = .ok () σ' ∧ items false js σ' = .ok () τ := by
  induction is generalizing σ with
  | nil => exact ⟨σ, rfl, ran⟩
  | cons i is ih =>
    obtain ⟨_, σ₁, first, rest⟩ := bind_eq_ok.mp ran
    obtain ⟨σ', before, after⟩ := ih rest
    exact ⟨σ', (bind_ok first).trans before, after⟩

/-- A unit that is accepted was not called off. -/
theorem unit_calm {u : CompUnit} {canceled : Bool}
    (accepted : unit withLibrary canceled u {} = .ok () τ) :
    unit withLibrary false u {} = .ok () τ := by
  cases canceled with
  | false => exact accepted
  | true =>
    have parts : (declaring withLibrary >>= fun _ => do
        items true u.items
        setProgram (← lift (← get).program.closeBlocks) : Lower Unit) {} = .ok () τ := by
      cases withLibrary <;> exact accepted
    obtain ⟨_, σ₀, declared, rest⟩ := bind_eq_ok.mp parts
    obtain ⟨_, σ₁, ran, closed⟩ := bind_eq_ok.mp rest
    have calm : items false u.items σ₀ = .ok () σ₁ := by
      cases isItems : u.items with
      | nil =>
        rw [isItems] at ran
        exact ran
      | cons i is =>
        rw [isItems] at ran
        cases ran
    have begun : (declaring withLibrary >>= fun _ => do
        items false u.items
        setProgram (← lift (← get).program.closeBlocks) : Lower Unit) {} = .ok () τ := by
      rw [bind_ok declared, bind_ok calm]
      exact closed
    cases withLibrary <;> exact begun

/-- The function that is bound has the types of the item. -/
theorem BindsFn.declares (binds : BindsFn avail σ f ret params id σ₁) (top : Top avail σ)
    (filed : Filed names done σ) : Declares σ₁.program id f.name params ret := by
  have old : ∀ {s defined}, σ.symbols.findGlobal? f.name = some s →
      s.meaning = .function id params defined → s.type = ret →
      Declares σ.program id f.name params ret := by
    rintro s defined found meaning rfl
    have isFunction : s.isFunction = true := by rw [Symbol.isFunction, meaning]
    obtain ⟨id', ps, b, d, meaning', here, isName, -⟩ := filed.symbol found isFunction
    cases meaning.symm.trans meaning'
    obtain ⟨i, mem, known⟩ := SymbolTable.findGlobal?_eq_some found
    obtain ⟨s', known', ok⟩ := top.global mem
    cases known.symm.trans known'
    rw [Symbol.Ok, meaning] at ok
    obtain ⟨-, -, d', here', isRet, paramTys⟩ := ok
    cases here.symm.trans here'
    exact ⟨d, here, isName, paramTys, isRet⟩
  cases binds with
  | new _ new =>
    obtain ⟨d, here, isName, paramTys, isRet, -⟩ := new.fn
    exact ⟨d, here, isName, paramTys, isRet⟩
  | again found meaning type => exact old found meaning type
  | define found meaning type => exact old found meaning type

/-- A call that is reached in a unit that is accepted is made. -/
theorem Part.IsCall.completes {part : Part} {name : String} {nameSpan : Span} {as : List Expr}
    (isCall : part.IsCall span name nameSpan as) (completes : Completes part.run σ τ) :
    Completes (callFn span name nameSpan as.length (Lower.args as)) σ τ := by
  obtain ⟨_, τ₁, ran, grows⟩ := completes
  cases isCall with
  | value =>
    obtain ⟨v, ran⟩ := expr_computed (e := .call span name nameSpan as) rfl rfl ran
    exact (Completes.of_bind ran fun _ => guard_keeps (raise_keeps _) fun _ => pure_keeps _).grows grows
  | @effect s e isCall =>
    have eq : Lower.effect e = (do let _ ← callFn span name nameSpan as.length (Lower.args as)) := by
      rw [Lower.effect, isCall]
    have ran := (congrFun eq σ).symm.trans ran
    exact (Completes.of_bind ran fun _ => pure_keeps _).grows grows

/-- What is known of the functions of a program that a unit is lowered to. -/
structure Directory (withLibrary : Bool) (u : CompUnit) (p : Koopa.Program) : Prop where
  /-- No two functions have the same name. -/
  distinct : (p.fns.toList.map (·.name)).Nodup
  /-- The functions are those that are declared. -/
  names : ∀ x, x ∈ p.fns.toList.map (·.name) ↔
    ∃ n ∈ functionNames withLibrary u.items, x = "@" ++ n
  /-- The functions of the library have their types. -/
  library : withLibrary = true → ∀ l ∈ library, Signature p l.name l.params l.ret
  /-- Each item declares its function with the types that the function has. -/
  declared : ∀ {done span f rest}, u.items = done ++ .fn span f :: rest → ∃ σ params,
    ahead withLibrary done {} = .ok () σ ∧
      f.params.mapM (Ty.ofParam σ.symbols.globalEnv) = .ok params ∧
      Signature p f.name params (returnTy f)
  /-- A function has no blocks exactly if no item gives it a body. -/
  bodies : ∀ {n}, n ∈ functionNames withLibrary u.items → ∃ id d,
    p.named? ("@" ++ n) = some id ∧ p.fn? id = some d ∧
      (d.isDecl = true ↔ ¬ Implements u.items n)
  /-- Every call that lowering gets to is made, and it calls the function with its name. -/
  calls : ∀ {part σ span name nameSpan as}, Reached withLibrary u part σ →
    part.IsCall span name nameSpan as → ∃ v s τ id vs home t,
      callFn span name nameSpan as.length (args as) σ = .ok (v, s) τ ∧
      p.named? ("@" ++ name) = some id ∧ p.Has v home t (.call id vs)

/-! ### Units that are accepted -/

section Accepted

variable {u : CompUnit}

theorem fn_mem {p : Koopa.Program} {d : Koopa.Fn} (found : p.fn? id = some d) :
    d.name ∈ p.fns.toList.map (·.name) := by
  refine List.mem_map.mpr ⟨d, ?_, rfl⟩
  unfold Koopa.Program.fn? Koopa.Program.numbered? at found
  split at found
  · cases found
  · exact Array.mem_toList_iff.mpr (Array.mem_of_getElem? found)

/-- A call calls the function that has its name in every later program. -/
theorem Reached.calls {part : Part} {name : String} {nameSpan : Span} {as : List Expr}
    (whole : u.Whole) (reached : Reached withLibrary u part σ)
    (accepted : unit withLibrary false u {} = .ok () τ)
    (distinct : (τ.program.fns.toList.map (·.name)).Nodup)
    (isCall : part.IsCall span name nameSpan as) : ∃ v s σ' id vs home t,
      callFn span name nameSpan as.length (args as) σ = .ok (v, s) σ' ∧
      τ.program.named? ("@" ++ name) = some id ∧ τ.program.Has v home t (.call id vs) := by
  obtain ⟨⟨v, s⟩, σ', called, grows⟩ := isCall.completes (reached.completes accepted)
  obtain ⟨found, id, ps, defined, vs, home, t, meaning, has⟩ := callFn_makes called
  have isFunction : s.isFunction = true := by rw [Symbol.isFunction, meaning]
  obtain ⟨names, is, avail, σ₁, top, filed, nests⟩ : ∃ names is avail σ₁, Top avail σ₁ ∧
      Filed names is σ₁ ∧ Nests σ₁ σ := by
    have placed := reached.placed whole
    cases isCall <;> exact placed
  have same := SymbolTable.Later.findGlobal? (t := σ₁.symbols) ⟨nests.symbols, nests.global⟩
    (valid_of_top top) name
  have bound := same.symm.trans (nests.apart.findGlobal? found isFunction)
  obtain ⟨id', ps', b, d, meaning', here, isName, -⟩ := filed.symbol bound isFunction
  cases meaning.symm.trans meaning'
  have later := (callFn_kept span name nameSpan as.length (args_kept as)).ok called
  obtain ⟨d', here', more⟩ := (nests.program.trans (later.program.trans grows)).fns here
  have named := Koopa.Program.named?_eq distinct here'
  rw [more.name, isName] at named
  exact ⟨v, s, σ', id, vs, home, t, called, named, grows.values has⟩

theorem unit_directory (whole : u.Whole) (accepted : unit withLibrary false u {} = .ok () τ) :
    Directory withLibrary u τ.program := by
  obtain ⟨σ₀, σ₁, p, declared, ran, closed, rfl⟩ := unit_eq_ok accepted
  obtain ⟨between₀, lib⟩ := declaring_between declared
  obtain ⟨avail, between⟩ := items_between whole between₀ ran
  rw [List.nil_append] at between
  have larger := Koopa.Program.closeBlocks_enlarges closed
  obtain ⟨p', closed', ok, returned, -⟩ := Koopa.Program.closeBlocks_spec between.program
  cases closed.symm.trans closed'
  have distinct : (p.fns.toList.map (·.name)).Nodup := ok.distinct
  have filed := between.filed
  refine ⟨distinct, fun x => ?_, fun wanted l mem => ?_, fun {done span f rest} isItems => ?_,
    fun {n} mem => ?_, fun reached isCall => reached.calls whole accepted distinct isCall⟩
  · change x ∈ p.fns.toList.map (·.name) ↔ _
    rw [larger.names]
    refine ⟨filed.listed x, ?_⟩
    rintro ⟨n, mem, rfl⟩
    obtain ⟨s, found, isFunction⟩ := filed.bound n mem
    obtain ⟨id, ps, b, d, -, here, isName, -⟩ := filed.symbol found isFunction
    exact isName ▸ fn_mem here
  · obtain ⟨id, declares⟩ := lib wanted l mem
    obtain ⟨paramsOk, retOk⟩ := library_typed l mem
    exact declares.signature (((items_crosses false _).ok ran).program.trans larger.toGrows) distinct
      paramsOk retOk
  · rw [isItems] at ran
    obtain ⟨σ, before, after⟩ := items_append ran
    have doneWhole : ∀ i ∈ done, i.Whole := fun i mem => whole i (by simp [isItems, mem])
    have begun : ahead withLibrary done {} = .ok () σ := (bind_ok declared).trans before
    obtain ⟨avail', between'⟩ := ahead_between doneWhole begun
    obtain ⟨_, σ₂, first, later⟩ := bind_eq_ok.mp after
    obtain ⟨params, id, σ₃, resolved, -, binds, built⟩ := function_eq_ok between'.toTop first
    have onward : σ₃.program.Grows σ₂.program := by
      refine (Keeps.ok (R := Crosses) ?_ built).program
      split
      · exact pure_keeps _
      · exact body_crosses _ _ _ _ _
    have grows := onward.trans (((items_crosses false _).ok later).program.trans larger.toGrows)
    exact ⟨σ, params, begun, resolved, (binds.declares between'.toTop between'.filed).signature grows
      distinct (paramTys_of_mapM resolved) (returnTy_ok f)⟩
  · obtain ⟨s, found, isFunction⟩ := filed.bound n mem
    obtain ⟨id, ps, defined, d, meaning, here, isName, implemented⟩ := filed.symbol found isFunction
    obtain ⟨d', here', blocks, -⟩ := returned.fns here
    obtain ⟨_, here'', more⟩ := larger.fns here
    cases here'.symm.trans here''
    have named := Koopa.Program.named?_eq distinct here'
    rw [more.name, isName] at named
    refine ⟨id, d', named, here', ?_⟩
    have isDecl : d'.isDecl = true ↔ d.layout = [] := by
      rw [Koopa.Fn.isDecl, List.isEmpty_iff, ← List.map_eq_nil_iff (f := (·.1)), ← Koopa.Fn.blocks,
        blocks, Koopa.Fn.blocks, List.map_eq_nil_iff]
    rw [isDecl, ← implemented]
    cases defined with
    | true =>
      obtain ⟨_, here₁, built⟩ := between.filled found meaning
      cases here.symm.trans here₁
      simpa using built
    | false =>
      obtain ⟨i, bound, known⟩ := SymbolTable.findGlobal?_eq_some found
      obtain ⟨_, here₁, -, empty⟩ := between.waiting bound known meaning
      cases here.symm.trans here₁
      simpa using empty

end Accepted

end Lower

/-! ## Sources -/

section Source

variable {file : Source.File} {stop : Bool} {u : CompUnit}

/-- A function item is refused exactly if it does not go with what comes before it; and when a unit is
accepted, its program has one function for each name, which is the one of all declarations, of the
definition, and of all calls. -/
theorem one_function_per_name (parsed : (Parsed.ofLexed (.ofFile file) stop).result = .ok u)
    (withLibrary : Bool) :
    (∀ {done span f rest σ params}, u.items = done ++ .fn span f :: rest →
      Lower.ahead withLibrary done {} = .ok () σ →
      f.params.mapM (Ty.ofParam σ.symbols.globalEnv) = .ok params →
      (Lower.Rejected f params σ ↔ Lower.Conflicts done σ.symbols f params) ∧
        (¬ Lower.Conflicts done σ.symbols f params →
          ∃ id σ', Lower.heading f params σ = .ok id σ')) ∧
      ∀ {canceled p}, (Lowered.ofUnit u withLibrary canceled).result = .ok p →
        Lower.Directory withLibrary u p := by
  have whole := Parsed.whole parsed
  refine ⟨fun {done span f rest σ params} isItems ran resolved => ?_, fun accepted => ?_⟩
  · have doneWhole : ∀ i ∈ done, i.Whole := fun i mem => whole i (by simp [isItems, mem])
    obtain ⟨avail, between⟩ := Lower.ahead_between doneWhole ran
    obtain ⟨conflict, rejected⟩ | ⟨fits, id, σ', headed, -⟩ :=
      Lower.heading_spec between.toTop between.filed resolved
    · exact ⟨iff_of_true rejected conflict, fun fits => absurd conflict fits⟩
    · refine ⟨iff_of_false (fun ⟨_, _, _, _, _, refused, _⟩ => ?_) fits, fun _ => ⟨id, σ', headed⟩⟩
      cases headed.symm.trans refused
  · obtain ⟨σ, ran, rfl⟩ := Lowered.ofUnit_ok accepted
    exact Lower.unit_directory whole (Lower.unit_calm ran)

/-- A source with a call between the declaration of a function and its definition. -/
def forwardCall : Source.File :=
  { id := 0
    path := "forward.c"
    content := Bytes.ofString "int f(int x); int main() \x7b return f(1); \x7d int f(int y) \x7b return y; \x7d"
    flags := default }

/-- A source with two declarations of a function that differ in its return type. -/
def clash : Source.File :=
  { id := 0
    path := "clash.c"
    content := Bytes.ofString "int f(int x); void f(int x) \x7b \x7d"
    flags := default }

/-- The unit of a source, and nothing if there is none. -/
def unitOf (file : Source.File) : CompUnit :=
  (Parsed.ofLexed (.ofFile file) false).result.toOption.getD default

/-- The second of two items is a function of which the header fails. -/
theorem Lower.clashing {u : CompUnit} (check : (match u.items with
    | [i, .fn _ f] =>
      match ahead false [i] {} with
      | .ok _ σ =>
        match f.params.mapM (Ty.ofParam σ.symbols.globalEnv) with
        | .ok params =>
          match heading f params σ with
          | .ok .. => false
          | .error .. => true
        | .error _ => false
      | .error .. => false
    | _ => false) = true) : ∃ i span f σ params, u.items = [i] ++ .fn span f :: [] ∧
      ahead false [i] {} = .ok () σ ∧ f.params.mapM (Ty.ofParam σ.symbols.globalEnv) = .ok params ∧
      ∀ id σ', heading f params σ ≠ .ok id σ' := by
  split at check
  · rename_i i span f items
    split at check
    · rename_i σ ran
      split at check
      · rename_i params resolved
        refine ⟨i, span, f, σ, params, items, ran, resolved, fun id σ' headed => ?_⟩
        rw [headed] at check
        cases check
      · cases check
    · cases check
  · cases check

/-- In the first example the call, the declaration and the definition share a function, and in the
second one the types clash. -/
theorem forwardCall_once : (∃ p, (Lowered.ofUnit (unitOf forwardCall) false false).result = .ok p ∧
      p.fns.size = 2 ∧ Lower.Directory false (unitOf forwardCall) p) ∧
    ∃ i span f σ params, (unitOf clash).items = [i] ++ .fn span f :: [] ∧
      Lower.ahead false [i] {} = .ok () σ ∧ Lower.Rejected f params σ := by
  have parsed : (Parsed.ofLexed (.ofFile forwardCall) false).result = .ok (unitOf forwardCall) :=
    eq_ok_of_isSome (by decide +kernel)
  have parsed' : (Parsed.ofLexed (.ofFile clash) false).result = .ok (unitOf clash) :=
    eq_ok_of_isSome (by decide +kernel)
  obtain ⟨i, span, f, σ, params, items, ran, resolved, fails⟩ :=
    Lower.clashing (u := unitOf clash) (by decide +kernel)
  have accepted : (Lowered.ofUnit (unitOf forwardCall) false false).result = .ok
      ((Lowered.ofUnit (unitOf forwardCall) false false).result.toOption.getD default) :=
    eq_ok_of_isSome (by decide +kernel)
  refine ⟨⟨_, accepted, by decide +kernel, (one_function_per_name parsed false).2 accepted⟩,
    i, span, f, σ, params, items, ran, ?_⟩
  obtain ⟨iff, fits⟩ := (one_function_per_name parsed' false).1 items ran resolved
  refine iff.mpr (by_contra fun none => ?_)
  obtain ⟨id, σ', headed⟩ := fits none
  exact fails id σ' headed

end Source

end SysY

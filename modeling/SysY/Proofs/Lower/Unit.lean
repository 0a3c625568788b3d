import SysY.Proofs.Koopa.Finish
import SysY.Proofs.Lower.Global

/-! # Lowering a unit keeps the invariant

A function is bound before its body is lowered, and the body starts in an empty block that no branch
leads to. From then on the lemmas about statements apply, and at the end of the body everything but
that function is as it was. -/

namespace SysY.Lower

open Koopa (ValueId BlockId FnId Avail)

variable {c : Site} {avail : Avail} {σ : State}

/-! ## New functions -/

/-- The types that parameters can have. -/
def ParamTys (ts : List Ty) : Prop := ∀ t ∈ ts, t = .int ∨ ∃ ds, t = .pointer ds ∧ Bounds ds

theorem ParamTys.solid {ts : List Ty} (ok : ParamTys ts) {t : Ty} (mem : t ∈ ts) : t.Solid := by
  rcases ok t mem with rfl | ⟨ds, rfl, bounds⟩
  · trivial
  · exact bounds

theorem paramTys_of_mapM {env : Const.Env} {ps : List Param} {ts : List Ty}
    (h : ps.mapM (Ty.ofParam env) = .ok ts) : ParamTys ts := by
  have pairs := Outcome.mapM_eq_ok h
  clear h
  induction pairs with
  | nil => exact fun t ht => (by cases ht)
  | cons head _ ih =>
    intro t ht
    rcases List.mem_cons.mp ht with rfl | later
    · exact Ty.ofParam_solid head
    · exact ih t later

theorem toKoopa_mapM {ts : List Ty} (ok : ParamTys ts) (σ : State) :
    ts.mapM (fun t => (lift t.toKoopa : Lower Koopa.Ty)) σ = .ok (ts.map Ty.koopa) σ := by
  induction ts with
  | nil => rfl
  | cons t ts ih =>
    have head : (lift t.toKoopa : Lower Koopa.Ty) σ = .ok t.koopa σ := by
      rw [Ty.toKoopa_eq (ok.solid (by simp))]
      rfl
    rw [List.mapM_cons, bind_ok head, bind_ok (ih fun u hu => ok u (by simp [hu]))]
    rfl

/-- A function with a new name can be made. -/
theorem newFn_eq (ok : σ.program.Ok avail) {name : String} {params : List Ty} {ret : Ty}
    (names : List String) (fresh : "@" ++ name ∉ σ.program.fns.toList.map (·.name))
    (paramsOk : ParamTys params) (retOk : ret = .int ∨ ret = .void)
    (isName : ∀ n ∈ names, n.toList.head? = some '@') :
    ∃ f p, newFn name params ret names σ = .ok f (σ.withProgram p) ∧
      Koopa.Program.NewFn avail σ.program ("@" ++ name) (params.map Ty.koopa) ret.koopa f p := by
  have koopa : (lift ret.toKoopa : Lower Koopa.Ty) σ = .ok ret.koopa σ := by
    rcases retOk with rfl | rfl <;> rfl
  have retKoopa : ret.koopa = .unit ∨ ret.koopa = .i32 := by
    rcases retOk with rfl | rfl
    · exact .inr rfl
    · exact .inl rfl
  obtain ⟨f, p, eq, new⟩ := Koopa.Program.newFn_spec ok (params.map Ty.koopa) retKoopa fresh isName
  refine ⟨f, p, ?_, new⟩
  rw [newFn, bind_ok (toKoopa_mapM paramsOk σ), bind_ok koopa]
  simp only [get_bind, eq, lift]
  rfl

/-- The symbol of a function. -/
def fnSymbol (name : String) (span : Source.Span) (ret : Ty) (f : FnId) (params : List Ty)
    (defined : Bool) : Symbol :=
  { name := name, span := span, type := ret, meaning := .function f params defined }

/-- Binding a function that was just made. -/
theorem Top.bind_new {p : Koopa.Program} {name : String} {params : List Ty} {ret : Ty} {f : FnId}
    (top : Top avail σ) (paramsOk : ParamTys params) (retOk : ret = .int ∨ ret = .void)
    (new : Koopa.Program.NewFn avail σ.program ("@" ++ name) (params.map Ty.koopa) ret.koopa f p)
    (span : Source.Span) (defined : Bool) :
    Top avail ((σ.withProgram p).bound (fnSymbol name span ret f params defined)) := by
  obtain ⟨d, found, isName, paramTys, isRet, empty⟩ := new.fn
  refine top.bind new.grows new.ok (new.tidy top.tidy) ?_ ?_ (fun has => .inl (new.globals has))
    ⟨retOk, paramsOk, d, found, isRet, paramTys⟩ ?_
  · intro g e old
    rw [new.others]
    · exact old
    · rintro rfl
      rw [new.fresh] at old
      cases old
  · intro n hn
    rw [new.names] at hn
    rcases List.mem_append.mp hn with old | last
    · exact .inl old
    · exact .inr (List.mem_singleton.mp last)
  · rintro g ps ⟨⟩
    exact ⟨d, found, isName, empty⟩

theorem findGlobal?_bound {s : Symbol} {name : String} (other : name ≠ s.name)
    (missing : σ.symbols.findGlobal? name = none) (sound : Sound avail σ) :
    (σ.bound s).symbols.findGlobal? name = none := by
  cases found : (σ.bound s).symbols.findGlobal? name with
  | none => rfl
  | some s' =>
    obtain ⟨id, mem, -⟩ := SymbolTable.findGlobal?_eq_some found
    rcases Scope.mem_bind.mp mem with ⟨same, -⟩ | ⟨-, before⟩
    · exact absurd same other
    · exact absurd before (sound.fresh missing id)

/-- The state after a function of the library was declared. -/
theorem declareLibrary_cons {l : LibraryFn} {ls : List LibraryFn} {f : FnId} {p : Koopa.Program}
    (missing : σ.symbols.findGlobal? l.name = none)
    (made : newFn l.name l.params l.ret [] σ = .ok f (σ.withProgram p)) :
    declareLibrary (l :: ls) σ = declareLibrary ls
      ((σ.withProgram p).bound (fnSymbol l.name {} l.ret f l.params false)) := by
  have gone : (σ.withProgram p).symbols.findGlobal?
      (fnSymbol l.name {} l.ret f l.params false).name = none := missing
  have declared : (σ.withProgram p).symbols.declare
      (fnSymbol l.name {} l.ret f l.params false) =
        (⟨true, none⟩, σ.symbols.bindGlobal (fnSymbol l.name {} l.ret f l.params false)) := by
    rw [SymbolTable.declare, gone]
    rfl
  rw [declareLibrary, bind_ok made]
  change declareLibrary ls { σ.withProgram p with
    symbols := ((σ.withProgram p).symbols.declare
      (fnSymbol l.name {} l.ret f l.params false)).2 } = _
  rw [declared]
  rfl

/-- The runtime library can be declared when none of its names is bound. -/
theorem declareLibrary_safe {ls : List LibraryFn} (distinct : (ls.map (·.name)).Nodup)
    (typed : ∀ l ∈ ls, ParamTys l.params ∧ (l.ret = .int ∨ l.ret = .void))
    (missing : ∀ l ∈ ls, σ.symbols.findGlobal? l.name = none) (top : Top avail σ) :
    Safe (declareLibrary ls) σ fun _ σ' => Top avail σ' ∧ σ.program.Grows σ'.program := by
  induction ls generalizing σ with
  | nil => exact .pure _ ⟨top, .refl _⟩
  | cons l ls ih =>
    obtain ⟨paramsOk, retOk⟩ := typed l (by simp)
    have here := missing l (by simp)
    obtain ⟨f, p, eq, new⟩ := newFn_eq top.program [] (top.fresh_fn here) paramsOk retOk (by simp)
    have top' := top.bind_new paramsOk retOk new {} false
    rw [List.map_cons, List.nodup_cons] at distinct
    have rest : ∀ m ∈ ls, ((σ.withProgram p).bound
        (fnSymbol l.name {} l.ret f l.params false)).symbols.findGlobal? m.name = none := by
      intro m hm
      refine findGlobal?_bound (σ := σ) (s := fnSymbol l.name {} l.ret f l.params false) ?_
        (missing m (by simp [hm])) top.toSound
      intro same
      exact distinct.1 (List.mem_map.mpr ⟨m, hm, same⟩)
    exact Ends.of_eq (n := declareLibrary ls) (declareLibrary_cons here eq)
      ((ih distinct.2 (fun m hm => typed m (by simp [hm])) rest top').mono
        fun _ σ' h => ⟨h.1, new.grows.trans h.2⟩)

/-! ## Binding a function -/

/-- The function for a function item: a new one, or that of an earlier declaration. -/
inductive Heads (avail : Avail) (σ : State) (f : Fn) (ret : Ty) (params : List Ty) (id : FnId) :
    State → Prop
  | new {p : Koopa.Program} : σ.symbols.findGlobal? f.name = none →
      Koopa.Program.NewFn avail σ.program ("@" ++ f.name) (params.map Ty.koopa) ret.koopa id p →
      Heads avail σ f ret params id (σ.withProgram p)
  | old {sym : Symbol} {defined : Bool} : σ.symbols.findGlobal? f.name = some sym →
      sym.meaning = .function id params defined → sym.type = ret →
      (defined = true → f.isDecl = true) → Heads avail σ f ret params id σ

theorem header_safe {f : Fn} {ret : Ty} {params : List Ty} (paramsOk : ParamTys params)
    (retOk : ret = .int ∨ ret = .void) (top : Top avail σ) :
    Safe (header f ret params) σ (Heads avail σ f ret params) := by
  cases found : σ.symbols.findGlobal? f.name with
  | none =>
    obtain ⟨id, p, eq, new⟩ := newFn_eq top.program (f.params.map ("@" ++ ·.name))
      (top.fresh_fn found) paramsOk retOk (by
        intro n hn
        obtain ⟨q, -, rfl⟩ := List.mem_map.mp hn
        exact head_at q.name)
    refine .of_ok (s := σ.withProgram p) ?_ (.new found new)
    rw [← eq, header]
    simp only [get_bind, found]
  | some sym =>
    cases meaning : sym.meaning with
    | constant v slot | «variable» slot =>
      refine .of_eq (n := raise (.redefinition f.nameSpan f.name sym.span)) (s := σ) ?_
        (Safe.raise .redefinition rfl (by decide))
      rw [header]
      simp only [get_bind, found, meaning]
    | function id ps defined =>
      have eq : header f ret params σ = (do
          if defined && !f.isDecl then raise (.redefinition f.nameSpan f.name sym.span)
          if sym.type ≠ ret ∨ ps ≠ params then
            raise { Diag.Error.redefinition f.nameSpan f.name sym.span with
              detail := "conflicting signature" }
          return id : Lower FnId) σ := by
        rw [header]
        simp only [get_bind, found,
          meaning]
      refine .of_eq eq ?_
      by_cases twice : (defined && !f.isDecl) = true
      · rw [if_pos twice]
        exact Ends.bind (Q := fun _ _ => False) (Safe.raise .redefinition rfl (by decide))
          fun _ _ h => h.elim
      · rw [if_neg twice]
        by_cases conflict : sym.type ≠ ret ∨ ps ≠ params
        · simp only [if_pos conflict]
          exact Ends.bind (Q := fun _ _ => False) (Safe.raise .redefinition rfl (by decide))
            fun _ _ h => h.elim
        · simp only [if_neg conflict]
          obtain ⟨sameTy, samePs⟩ := not_or.mp conflict
          obtain rfl := not_not.mp samePs
          refine .pure id (.old found meaning (not_not.mp sameTy) fun isDefined => ?_)
          cases isDecl : f.isDecl with
          | true => rfl
          | false => simp [isDefined, isDecl] at twice

/-- A function whose body can be lowered: it has no blocks yet, and its name stands for a function
with a body. -/
structure Ready (σ : State) (f : Fn) (id : FnId) (ret : Ty) (params : List Ty) : Prop where
  fn : ∃ d, σ.program.fn? id = some d ∧ d.name = "@" ++ f.name ∧ d.layout = [] ∧
    d.ret = ret.koopa ∧ d.paramTys = params.map Ty.koopa
  defined : ∀ {i s}, (f.name, i) ∈ σ.symbols.global.names → σ.symbols.get? i = some s →
    s.isDefined = true

theorem Ready.bound {f : Fn} {id : FnId} {ret : Ty} {params : List Ty} {d : Koopa.Fn}
    (found : σ.program.fn? id = some d) (name : d.name = "@" ++ f.name) (empty : d.layout = [])
    (isRet : d.ret = ret.koopa) (paramTys : d.paramTys = params.map Ty.koopa) :
    Ready (σ.bound (fnSymbol f.name f.nameSpan ret id params true)) f id ret params where
  fn := ⟨d, found, name, empty, isRet, paramTys⟩
  defined := fun mem here => by
    rcases Scope.mem_bind.mp mem with ⟨-, rfl⟩ | ⟨other, -⟩
    · obtain rfl := Option.some.inj
        (((SymbolTable.get?_bindGlobal ..).trans (if_pos rfl)).symm.trans here)
      rfl
    · exact absurd rfl other

/-- What a function item does to the symbols. -/
inductive BindsFn (avail : Avail) (σ : State) (f : Fn) (ret : Ty) (params : List Ty) (id : FnId) :
    State → Prop
  | new {p : Koopa.Program} : σ.symbols.findGlobal? f.name = none →
      Koopa.Program.NewFn avail σ.program ("@" ++ f.name) (params.map Ty.koopa) ret.koopa id p →
      BindsFn avail σ f ret params id
        ((σ.withProgram p).bound (fnSymbol f.name f.nameSpan ret id params (!f.isDecl)))
  | again {s : Symbol} {defined : Bool} : σ.symbols.findGlobal? f.name = some s →
      s.meaning = .function id params defined → s.type = ret → f.isDecl = true →
      BindsFn avail σ f ret params id σ
  | define {s : Symbol} : σ.symbols.findGlobal? f.name = some s →
      s.meaning = .function id params false → s.type = ret → f.isDecl = false →
      BindsFn avail σ f ret params id (σ.bound (fnSymbol f.name f.nameSpan ret id params true))

section Binding

variable {f : Fn} {id : FnId} {ret : Ty} {params : List Ty} {σ₁ σ' : State}

/-- A function that fits can be bound. -/
theorem bindFn_ok (heads : Heads avail σ f ret params id σ₁) :
    ∃ σ', bindFn f (fnSymbol f.name f.nameSpan ret id params (!f.isDecl)) σ₁ = .ok () σ' ∧
      BindsFn avail σ f ret params id σ' := by
  cases heads with
  | @new p missing new =>
    refine ⟨_, ?_, .new missing new⟩
    have gone : σ.symbols.findGlobal?
        (fnSymbol f.name f.nameSpan ret id params (!f.isDecl)).name = none := missing
    cases isDecl : f.isDecl <;>
      (simp only [isDecl] at gone
       simp only [bindFn, isDecl, get_bind, State.withProgram, SymbolTable.declare,
         SymbolTable.define, gone]
       rfl)
  | @old sym defined found meaning type once =>
    subst type
    have isFn : sym.isFunction = true := by rw [Symbol.isFunction, meaning]
    have again : ∀ d, σ.symbols.findGlobal?
        (fnSymbol f.name f.nameSpan sym.type id params d).name = some sym := fun _ => found
    cases isDecl : f.isDecl with
    | true =>
      refine ⟨σ, ?_, .again found meaning rfl isDecl⟩
      simp only [bindFn, isDecl, get_bind, SymbolTable.declare, Bool.not_true, again, isFn]
      rfl
    | false =>
      have waits : defined = false := by
        cases defined with
        | false => rfl
        | true => rw [once rfl] at isDecl; cases isDecl
      subst waits
      have notDefined : sym.isDefined = false := by rw [Symbol.isDefined, meaning]
      refine ⟨_, ?_, .define found meaning rfl isDecl⟩
      simp only [bindFn, isDecl, get_bind, SymbolTable.define, Bool.not_false, again, isFn,
        notDefined]
      rfl

theorem bindFn_binds (heads : Heads avail σ f ret params id σ₁)
    (bound : bindFn f (fnSymbol f.name f.nameSpan ret id params (!f.isDecl)) σ₁ = .ok () σ') :
    BindsFn avail σ f ret params id σ' := by
  obtain ⟨σ₂, eq, binds⟩ := bindFn_ok heads
  cases eq.symm.trans bound
  exact binds

/-- A function that is defined now has no blocks yet. -/
theorem BindsFn.top (paramsOk : ParamTys params) (retOk : ret = .int ∨ ret = .void)
    (top : Top avail σ) (binds : BindsFn avail σ f ret params id σ') :
    Top avail σ' ∧ σ.program.Grows σ'.program ∧ (f.isDecl = false → Ready σ' f id ret params) := by
  cases binds with
  | @new p missing new =>
    refine ⟨top.bind_new paramsOk retOk new f.nameSpan (!f.isDecl), new.grows, fun isDef => ?_⟩
    obtain ⟨d, found, name, paramTys, isRet, empty⟩ := new.fn
    rw [isDef]
    exact .bound (σ := σ.withProgram p) found name empty isRet paramTys
  | again _ _ _ isDecl => exact ⟨top, .refl _, fun isDef => by rw [isDecl] at isDef; cases isDef⟩
  | @define sym found meaning type isDef =>
    subst type
    obtain ⟨i, mem, here⟩ := SymbolTable.findGlobal?_eq_some found
    obtain ⟨d, foundFn, name, empty⟩ := top.waiting mem here meaning
    obtain ⟨d', foundFn', isRet, paramTys⟩ : ∃ d, σ.program.fn? id = some d ∧
        d.ret = sym.type.koopa ∧ d.paramTys = params.map Ty.koopa := by
      obtain ⟨sym', here', symOk⟩ := top.global mem
      obtain rfl := Option.some.inj (here.symm.trans here')
      rw [Symbol.Ok, meaning] at symOk
      exact symOk.2.2
    obtain rfl := Option.some.inj (foundFn.symm.trans foundFn')
    have top' : Top avail (σ.bound (fnSymbol f.name f.nameSpan sym.type id params true)) :=
      top.bind (p := σ.program) (.refl _) top.program top.tidy (fun h => h) (fun n hn => .inl hn) .inl
        ⟨retOk, paramsOk, d, foundFn, isRet, paramTys⟩ (fun h => (by cases h))
    exact ⟨top', .refl _, fun _ => .bound foundFn name empty isRet paramTys⟩

theorem bindFn_safe (paramsOk : ParamTys params) (retOk : ret = .int ∨ ret = .void)
    (top : Top avail σ) (heads : Heads avail σ f ret params id σ₁) :
    Safe (bindFn f (fnSymbol f.name f.nameSpan ret id params (!f.isDecl))) σ₁ fun _ σ' =>
      Top avail σ' ∧ σ.program.Grows σ'.program ∧
        (f.isDecl = false → Ready σ' f id ret params) := by
  obtain ⟨σ', eq, binds⟩ := bindFn_ok heads
  exact .of_ok eq (binds.top paramsOk retOk top)

end Binding

/-! ## Bodies -/

/-- The state in which the first block of a function is made. -/
def State.framed (σ : State) (id : FnId) (ret : Ty) (span : Source.Span) : State :=
  { σ with frame := { fn := id, ret := ret, span := span } }

/-- The state at the start of the body of a function. -/
def State.entered (σ : State) (id : FnId) (ret : Ty) (span : Source.Span) (d : Koopa.Fn) : State :=
  ((σ.framed id ret span).withBlock d).switched (σ.program.blocks.size + 1)

/-- Nothing is available in the first block of a function. -/
def enter (σ : State) (avail : Avail) : Avail :=
  Function.update avail (σ.program.blocks.size + 1) ∅

section Enter

variable {f : Fn} {id : FnId} {ret : Ty} {params : List Ty} {d : Koopa.Fn}

theorem Top.entered (top : Top avail σ) (found : σ.program.fn? id = some d)
    (empty : d.layout = []) (isRet : d.ret = ret.koopa) (retOk : ret = .int ∨ ret = .void)
    (span : Source.Span) :
    Inv ⟨id, ret, [], 0⟩ (enter σ avail) (σ.entered id ret span d) := by
  have fresh := (top.program.fns found).fresh_block
  have grows := Koopa.Program.grows_withBlock found fresh s!"%bb{0}"
  have extended : (σ.program.withBlock id d s!"%bb{0}").fn? id =
      some (d.extend (σ.program.blocks.size + 1)) :=
    Koopa.Program.fn?_withBlock_self found _
  have noBlocks : d.blocks = [] := by rw [Koopa.Fn.blocks, empty]; rfl
  exact {
    program := top.program.withBlock found _ (fun _ => rfl) (by simp)
    tidy := top.tidy.withBlock found fresh _
    named := by
      change ∀ n ∈ (σ.program.withBlock id d s!"%bb{0}").fns.toList.map (·.name), _
      rw [Koopa.Program.names_withBlock found]
      exact top.named
    slots := top.slots
    global := fun mem => by
      obtain ⟨s, here, symOk⟩ := top.global mem
      exact ⟨s, here, symOk.grows grows⟩
    site := ⟨rfl, rfl, rfl, congrArg List.length top.outer⟩
    fn := ⟨_, extended, isRet, by rw [Koopa.Fn.blocks_extend]; simp⟩
    ret := retOk
    scopes := fun sc hsc => by
      change sc ∈ σ.symbols.locals at hsc
      rw [top.outer] at hsc
      cases hsc
    loops := fun t ht => (by cases ht)
    live := fun _ => by
      refine ⟨⟨_, [], extended, ?_, by simp, ?_⟩, ?_, fun t ht => (by cases ht)⟩
      · exact Koopa.Fn.insts?_extend_self d fresh
      · exact ⟨_, .entry (by rw [Koopa.Fn.blocks_extend, noBlocks]; rfl)⟩
      · rintro v ⟨sc, hsc, -⟩
        change sc ∈ σ.symbols.locals at hsc
        rw [top.outer] at hsc
        cases hsc }

/-- Parameters of the function that is being built, each with its type. -/
def Params (p : Koopa.Program) (f : FnId) : List Ty → List ValueId → Prop :=
  List.Forall₂ fun t v => ∃ i, p.Has v (some f) t.koopa (.arg i)

theorem Params.grows {p p' : Koopa.Program} (grows : p.Grows p') {f : FnId} {ts : List Ty}
    {vs : List ValueId} (h : Params p f ts vs) : Params p' f ts vs :=
  List.Forall₂.imp (fun _ _ ⟨i, has⟩ => ⟨i, grows.values has⟩) h

theorem params_of_fnOk {p : Koopa.Program} {f : FnId} {ts : List Ty} (ok : p.FnOk avail f d)
    (paramTys : d.paramTys = ts.map Ty.koopa) : Params p f ts d.params := by
  have length : d.params.length = ts.length := by rw [ok.arity, paramTys, List.length_map]
  refine List.forall₂_iff_get.mpr ⟨length.symm, fun i hi hv => ⟨i, ?_⟩⟩
  refine ok.params (by simp) ?_
  rw [paramTys, List.getElem?_map]
  simp [hi]

theorem spillParams_runs {ps : List Param} {ts : List Ty} {vs : List ValueId}
    (depth : 0 < c.depth) (paramsOk : ParamTys ts) (inv : Inv c avail σ)
    (args : Params σ.program c.fn ts vs) :
    Runs .item c avail σ (spillParams ps ts vs) fun _ _ _ => True := by
  induction ts generalizing avail σ ps vs with
  | nil => cases ps <;> exact Runs.pure inv trivial
  | cons t ts ih =>
    obtain ⟨v, vs, head, tail, rfl⟩ := List.forall₂_cons_left_iff.mp args
    cases ps with
    | nil => exact Runs.pure inv trivial
    | cons p ps =>
      have solid := paramsOk.solid (t := t) (by simp)
      obtain ⟨i, has⟩ := head
      have arg : Operand avail σ v t.koopa := by
        refine .of_has has (.inl ?_) rfl (koopa_ne_unit solid)
        rw [inv.site.fn]
      rw [spillParams]
      refine Runs.bind inv (RunsFrom.of_expr (setName_runs inv arg.sees (head_at p.name))) ?_
      intro _ avail₁ σ₁ inv₁ evo₁ _
      rw [Ty.toKoopa_eq solid]
      refine Runs.lift inv₁ (Outcome.expected_ok _) ?_
      rintro _ ⟨⟩
      refine Runs.bind inv₁ (RunsFrom.of_expr (alloc_runs inv₁ t.koopa)) ?_
      intro slot avail₂ σ₂ inv₂ evo₂ placed
      have slotOk : Operand avail₂ σ₂ slot (.pointer t.koopa) := placed.operand (by simp)
      refine Runs.bind inv₂ (RunsFrom.of_expr (setName_runs inv₂ slotOk.sees (head_at p.name))) ?_
      intro _ avail₃ σ₃ inv₃ evo₃ _
      refine Runs.bind inv₃ (store_runs inv₃ (((arg.evo evo₁).evo evo₂).evo evo₃)
        (slotOk.evo evo₃)) ?_
      intro _ avail₄ σ₄ inv₄ evo₄ _
      have evo₂₄ := evo₃.trans evo₄ inv₂.laid
      refine Runs.bind inv₄ (declare_runs inv₄ depth (.refl inv₄.program) .inl
        ⟨solid, .inr ⟨_, rfl, ?_⟩⟩ ?_) ?_
      · have slotHas := evo₂₄.grows.values placed.has
        rwa [inv₂.site.fn] at slotHas
      · intro isOpen w meaning
        cases meaning
        exact evo₂₄.avail isOpen (placed.avail (evo₂₄.here isOpen).1)
      · intro _ avail₅ σ₅ inv₅ evo₅ _
        refine ih (fun u hu => paramsOk u (by simp [hu])) inv₅ (Params.grows ?_ tail)
        exact evo₁.grows.trans (evo₂.grows.trans (evo₂₄.grows.trans evo₅.grows))

/-- What is lowered once the first block of a function is there. -/
def fnBody (f : Fn) (id : FnId) (params : List Ty) (block : Stmt) : Lower Unit :=
  inScope .function do
    spillParams f.params params (← lift ((← get).program.fn id)).params
    match block with
    | .block _ ss => stmts ss
    | _ => raise (.internal f.nameSpan s!"function {f.name} has no block body")

/-- Make the first block of a function, and lower its body there. -/
def enterBody (f : Fn) (id : FnId) (ret : Ty) (params : List Ty) (block : Stmt) : Lower Unit := do
  modifyFrame fun _ => { fn := id, ret := ret, span := f.nameSpan }
  switchTo (← newBlock)
  fnBody f id params block

theorem body_eq (f : Fn) (id : FnId) (ret : Ty) (params : List Ty) (block : Stmt) :
    body f id ret params block = recordBody f.name (enterBody f id ret params block) := rfl

theorem enterBody_eq (found : σ.program.fn? id = some d)
    (fresh : d.insts? (σ.program.blocks.size + 1) = none) (block : Stmt) :
    enterBody f id ret params block σ =
      fnBody f id params block (σ.entered id ret f.nameSpan d) := by
  have frame : modifyFrame (fun _ => { fn := id, ret := ret, span := f.nameSpan }) σ =
      .ok () (σ.framed id ret f.nameSpan) := rfl
  have first : newBlock (σ.framed id ret f.nameSpan) = .ok (σ.program.blocks.size + 1)
      ((σ.framed id ret f.nameSpan).withBlock d) :=
    newBlock_eq (σ := σ.framed id ret f.nameSpan) found fresh
  have switch : switchTo (σ.program.blocks.size + 1)
      ((σ.framed id ret f.nameSpan).withBlock d) = .ok () (σ.entered id ret f.nameSpan d) := rfl
  rw [enterBody, bind_ok frame, bind_ok first, bind_ok switch]

theorem recordBody_safe {name : String} {m : Lower Unit} {Q R : Unit → State → Prop}
    (h : Safe m σ Q) (record : ∀ a σ' bodies, Q a σ' → R a { σ' with bodies := bodies }) :
    Safe (recordBody name m) σ R := by
  cases hm : m σ with
  | ok a σ' =>
    refine .of_ok (a := a) (s := { σ' with bodies := σ'.bodies ++ [(name, true)] }) ?_
      (record a σ' _ (h.ok hm))
    simp only [recordBody, hm]
  | error e σ' =>
    refine .of_eq (n := throw e) (s := { σ' with bodies := σ'.bodies ++ [(name, false)] }) ?_
      (.throw (h.error hm).1 trivial)
    simp only [recordBody, hm]
    rfl

theorem Top.withBodies (top : Top avail σ) (bodies : List (String × Bool)) :
    Top avail { σ with bodies := bodies } where
  program := top.program
  tidy := top.tidy
  named := top.named
  slots := top.slots
  global := top.global
  outer := top.outer
  waiting := top.waiting

/-- The statements of a body, with the parameters in front. -/
theorem fnBody_runs (span : Source.Span) {ss : List Stmt} (whole : Stmt.AllWhole ss)
    (paramsOk : ParamTys params) (inv : Inv c avail σ) (found : σ.program.fn? id = some d)
    (same : c.fn = id) (paramTys : d.paramTys = params.map Ty.koopa) :
    Runs .stmt c avail σ (fnBody f id params (.block span ss)) fun _ _ _ => True := by
  subst same
  have depth : 0 < c.inScope.depth := Nat.succ_pos _
  refine (inScope_runs (Q := fun _ _ _ => True) inv ?_).mono fun _ _ _ _ _ _ => trivial
  have fn : (lift ((σ.pushed .function).program.fn c.fn) : Lower Koopa.Fn) (σ.pushed .function) =
      .ok d (σ.pushed .function) := by
    change (lift (σ.program.fn c.fn) : Lower Koopa.Fn) (σ.pushed .function) = _
    rw [Koopa.Program.fn_eq_ok.mpr found]
    rfl
  refine Ends.of_eq (bind_ok (a := σ.pushed .function) rfl) (.of_eq (bind_ok fn) ?_)
  refine Runs.bind (inv.pushed _) (spillParams_runs depth paramsOk (inv.pushed _)
    (params_of_fnOk (inv.program.fns found) paramTys)) ?_
  intro _ avail₁ σ₁ inv₁ _ _
  exact (stmts_acts ss whole depth).runs inv₁

/-- After the body of a function, everything but that function is as it was. -/
theorem Top.leave {avail' : Avail} {σ' : State} {span : Source.Span} (top : Top avail σ)
    (ready : Ready σ f id ret params) (found : σ.program.fn? id = some d)
    (inv : Inv c avail' σ')
    (evo : Evo .stmt (enter σ avail) (σ.entered id ret span d) avail' σ') : Top avail' σ' where
  toSound := inv.toSound
  outer := evo.keeps.2.trans top.outer
  waiting := fun {n i s g ps} mem here meaning => by
    have mem' : (n, i) ∈ σ.symbols.global.names := by
      have := evo.keeps.1.global
      rw [this] at mem
      exact mem
    obtain ⟨s', here', -⟩ := top.global mem'
    obtain rfl := Option.some.inj (here.symm.trans (evo.keeps.1.kept here'))
    obtain ⟨e, foundG, name, empty⟩ := top.waiting mem' here' meaning
    have other : g ≠ id := by
      rintro rfl
      obtain ⟨d', found', name', -⟩ := ready.fn
      obtain rfl := Option.some.inj (foundG.symm.trans found')
      obtain rfl : n = f.name := by simpa using name.symm.trans name'
      have := ready.defined mem' here'
      rw [Symbol.isDefined, meaning] at this
      cases this
    refine ⟨e, ?_, name, empty⟩
    rw [evo.others other]
    exact ((Koopa.Program.fn?_withBlock found _ _).trans (if_neg other)).trans foundG

theorem body_safe {block : Stmt} (whole : f.Whole) (isBody : f.body = some block)
    (paramsOk : ParamTys params) (retOk : ret = .int ∨ ret = .void) (top : Top avail σ)
    (ready : Ready σ f id ret params) : Safe (body f id ret params block) σ fun _ σ' =>
      ∃ avail', Top avail' σ' ∧ σ.program.Grows σ'.program ∧
        ∃ d, σ'.program.fn? id = some d ∧ d.layout ≠ [] := by
  obtain ⟨span, ss, rfl, ssWhole⟩ := whole.body block (by rw [isBody]; rfl)
  obtain ⟨d, found, -, empty, isRet, paramTys⟩ := ready.fn
  have fresh := (top.program.fns found).fresh_block
  have grows := Koopa.Program.grows_withBlock found fresh s!"%bb{0}"
  have inv := top.entered found empty isRet retOk f.nameSpan
  have found' : (σ.entered id ret f.nameSpan d).program.fn? id =
      some (d.extend (σ.program.blocks.size + 1)) :=
    Koopa.Program.fn?_withBlock_self found _
  have runs := fnBody_runs (f := f) span ssWhole paramsOk inv found' rfl paramTys
  rw [body_eq]
  refine recordBody_safe (Q := fun _ σ' => ∃ avail', Top avail' σ' ∧ σ.program.Grows σ'.program ∧
    ∃ d, σ'.program.fn? id = some d ∧ d.layout ≠ []) (.of_eq (enterBody_eq found fresh _) ?_) ?_
  · refine (Ends.safe runs).mono ?_
    rintro _ σ' ⟨avail', inv', evo, -⟩
    obtain ⟨d', found', -, laid⟩ := inv'.fn
    exact ⟨avail', top.leave ready found inv' evo, grows.trans evo.grows, d', found',
      fun none => laid (by rw [Koopa.Fn.blocks, none]; rfl)⟩
  · rintro _ σ' bodies ⟨avail', top', grows'⟩
    exact ⟨avail', top'.withBodies bodies, grows'⟩

end Enter

/-! ## Items -/

/-- A function with the given return type. -/
def functionOf (f : Fn) (ret : Ty) : Lower Unit := do
  let params ← lift (f.params.mapM (Ty.ofParam (← get).symbols.globalEnv))
  let id ← header f ret params
  bindFn f { name := f.name, span := f.nameSpan, type := ret,
             meaning := .function id params (!f.isDecl) }
  match f.body with
  | none => return ()
  | some block => body f id ret params block

theorem function_eq (f : Fn) : function f = functionOf f (match f.returnType with
    | .int => .int
    | .void => .void) := rfl

theorem function_safe {f : Fn} (whole : f.Whole) (top : Top avail σ) :
    Safe (function f) σ fun _ σ' => ∃ avail', Top avail' σ' ∧ σ.program.Grows σ'.program := by
  have general : ∀ ret : Ty, ret = .int ∨ ret = .void → Safe (functionOf f ret) σ fun _ σ' =>
      ∃ avail', Top avail' σ' ∧ σ.program.Grows σ'.program := by
    intro ret retOk
    refine Ends.of_eq (get_bind _ σ) ?_
    refine Ends.bind (Q := fun params σ' => ParamTys params ∧ σ' = σ) (Ends.lift trivial
      (Outcome.plain_mapM (Ty.ofParam_plain _) _).expected fun ts hts => ⟨paramTys_of_mapM hts, rfl⟩) ?_
    rintro params σ ⟨paramsOk, rfl⟩
    refine (header_safe paramsOk retOk top).bind fun id σ₁ heads => ?_
    refine (bindFn_safe paramsOk retOk top heads).bind ?_
    rintro _ σ₂ ⟨top₂, grows, ready⟩
    cases isBody : f.body with
    | none => exact .pure _ ⟨avail, top₂, grows⟩
    | some block =>
      refine (body_safe whole isBody paramsOk retOk top₂ (ready ?_)).mono ?_
      · rw [Fn.isDecl, isBody]
        rfl
      · rintro _ σ' ⟨avail', top', grows', -⟩
        exact ⟨avail', top', grows.trans grows'⟩
  rw [function_eq]
  cases f.returnType with
  | int => exact general .int (.inl rfl)
  | void => exact general .void (.inr rfl)

theorem item_safe {i : Item} (whole : i.Whole) (top : Top avail σ) :
    Safe (item i) σ fun _ σ' => ∃ avail', Top avail' σ' ∧ σ.program.Grows σ'.program := by
  match i, whole with
  | .fn _ f, whole => exact function_safe whole top
  | .decl _ (some d), whole =>
    obtain ⟨_, ⟨⟩, dWhole⟩ := whole
    exact (globalDecl_safe dWhole top).mono fun _ σ' h => ⟨avail, h⟩
  | .decl _ none, whole =>
    obtain ⟨d, hd, -⟩ := whole
    cases hd

theorem items_safe {canceled : Bool} {is : List Item} (whole : ∀ i ∈ is, i.Whole)
    (top : Top avail σ) : Safe (items canceled is) σ fun _ σ' =>
      ∃ avail', Top avail' σ' ∧ σ.program.Grows σ'.program := by
  induction is generalizing avail σ with
  | nil => exact .pure _ ⟨avail, top, .refl _⟩
  | cons i is ih =>
    have rest : Safe (item i >>= fun _ => items canceled is) σ fun _ σ' =>
        ∃ avail', Top avail' σ' ∧ σ.program.Grows σ'.program := by
      refine (item_safe (whole i (by simp)) top).bind ?_
      rintro _ σ₁ ⟨avail₁, top₁, grows₁⟩
      refine (ih (fun j hj => whole j (by simp [hj])) top₁).mono ?_
      rintro _ σ₂ ⟨avail₂, top₂, grows₂⟩
      exact ⟨avail₂, top₂, grows₁.trans grows₂⟩
    rw [items]
    cases canceled with
    | true => exact Ends.throw (f := .canceled) trivial trivial
    | false => exact rest

/-- Nothing is there at the start. -/
theorem Top.empty : Top (fun _ => ∅) {} := by
  have noTable : ∀ {α : Type} (i : Nat), Koopa.Program.numbered? (#[] : Array α) i = none := by
    intro α i
    simp [Koopa.Program.numbered?]
  have noFn : ∀ {f d}, ({} : State).program.fn? f ≠ some d := by
    intro f d found
    cases (noTable f).symm.trans found
  have noValue : ∀ {v x}, ({} : State).program.value? v ≠ some x := by
    intro v x found
    cases (noTable v).symm.trans found
  exact {
    program := {
      values := fun has => absurd has.choose_spec noValue
      fns := fun found => absurd found noFn
      names := fun found => absurd found noValue
      distinct := List.nodup_nil }
    tidy := ⟨fun found => absurd found noFn⟩
    named := fun n hn => (by cases hn)
    slots := fun has => absurd has.choose_spec noValue
    global := fun mem => (by cases mem)
    outer := rfl
    waiting := fun mem => (by cases mem) }

theorem library_typed : ∀ l ∈ library, ParamTys l.params ∧ (l.ret = .int ∨ l.ret = .void) := by
  simp [library, ParamTys, Bounds.nil]

/-- What comes ahead of the first item. -/
theorem library_safe (withLibrary : Bool) :
    Safe (if withLibrary then declareLibrary library else pure ()) {} fun _ σ' =>
      Top (fun _ => ∅) σ' := by
  cases withLibrary with
  | false => exact .pure _ .empty
  | true =>
    exact (declareLibrary_safe (by decide) library_typed (fun _ _ => rfl) .empty).mono
      fun _ _ h => h.1

/-- What a unit is lowered to: blocks are closed after the last item. -/
def Closes (avail : Avail) (σ₁ σ' : State) : Prop :=
  ∃ p, σ₁.program.closeBlocks = .ok p ∧ σ' = σ₁.withProgram p ∧ p.Ok avail ∧
    σ₁.program.Returned p ∧ p.Finished

theorem closeBlocks_safe (top : Top avail σ) :
    Safe (do setProgram (← lift (← get).program.closeBlocks)) σ fun _ σ' => Closes avail σ σ' := by
  obtain ⟨p, eq, ok, returned, finished⟩ := Koopa.Program.closeBlocks_spec top.program
  refine .of_ok (a := ()) (s := σ.withProgram p) ?_ ⟨p, eq, rfl, ok, returned, finished⟩
  simp only [get_bind, eq, lift]
  rfl

/-- Lowering a whole unit. -/
theorem unit_safe {u : CompUnit} (whole : u.Whole) (withLibrary canceled : Bool) :
    Safe (unit withLibrary canceled u) {} fun _ σ' =>
      ∃ avail σ₁, Top avail σ₁ ∧ Closes avail σ₁ σ' := by
  have rest : ∀ {σ}, Top (fun _ => ∅) σ → Safe (do
      items canceled u.items
      setProgram (← lift (← get).program.closeBlocks)) σ fun _ σ' =>
        ∃ avail σ₁, Top avail σ₁ ∧ Closes avail σ₁ σ' := by
    intro σ top
    refine (items_safe whole top).bind ?_
    rintro _ σ₁ ⟨avail, top₁, -⟩
    exact (closeBlocks_safe top₁).mono fun _ _ closes => ⟨avail, σ₁, top₁, closes⟩
  cases withLibrary with
  | false => exact rest .empty
  | true => exact (library_safe true).bind fun _ _ top => rest top

end SysY.Lower

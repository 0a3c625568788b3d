import SysY.Proofs.Lower.Behind

/-! # Functions that are declared ahead but not named

Each function of lowering runs beside itself behind a state in which functions were declared ahead.
A tree that names none of these functions is lowered to the program that it is lowered to without
them, behind their declarations. -/

namespace SysY

open Koopa (ValueId BlockId FnId)

namespace Lower

variable {base : Ahead}

/-! ## Places -/

/-- A place behind what was declared ahead. -/
def Place.behind (base : Ahead) (p : Place) : Place :=
  { p with symbol := p.symbol.behind base.program, addr := p.addr.map base.pastValue }

theorem findObject_beside {name : String} (free : base.Free name) (span : Source.Span) :
    Beside base (Symbol.behind base.program) (findObject name span) (findObject name span) :=
  get_beside fun σ _ => by
    rw [show (σ.behind base).symbols.find? name = _ from
      σ.symbols.find?_behind base.symbols base.program free]
    cases σ.symbols.find? name with
    | none => exact raise_beside _
    | some s =>
      dsimp only [Option.map_some]
      rw [Symbol.isFunction_behind]
      exact ite_beside (fun _ => raise_beside _) fun _ => pure_beside rfl

theorem asPlace_cases (e : Expr) (reason : String) :
    (∃ f : Failure, asPlace e reason = throw f) ∨
      ∃ s p, e.place? = some p ∧ asPlace e reason = pure (s, p) := by
  unfold asPlace
  by_cases broken : e.spineBroken = true
  · rw [if_pos broken]
    exact .inl ⟨_, rfl⟩
  · rw [if_neg broken]
    cases e.span? with
    | none => exact .inl ⟨_, rfl⟩
    | some s =>
      cases found : e.place? with
      | none => exact .inl ⟨_, rfl⟩
      | some p => exact .inr ⟨s, p, rfl, rfl⟩

/-- A step after an expression was read as a place. -/
theorem asPlace_beside {α α' : Type} {g : α → α'} {e : Expr} (reason : String)
    {f : Source.Span × Expr.Place → Lower α} {f' : Source.Span × Expr.Place → Lower α'}
    (next : ∀ s p, e.place? = some p → Beside base g (f (s, p)) (f' (s, p))) :
    Beside base g (asPlace e reason >>= f) (asPlace e reason >>= f') := by
  rcases asPlace_cases e reason with ⟨failure, failed⟩ | ⟨s, p, found, done⟩
  · rw [failed]
    exact fun _ _ => .error (.inl rfl)
  · rw [done]
    exact next s p found

theorem startPlace_beside {e : Expr} (only : e.Only base.Free) :
    Beside base (Place.behind base) (startPlace e) (startPlace e) := by
  unfold startPlace
  refine asPlace_beside _ fun span p found => ?_
  refine (findObject_beside (only.place found) _).bind fun s => ?_
  rw [Symbol.slot?_behind]
  unfold Symbol.behind
  cases meaning : s.meaning with
  | constant v slot =>
    dsimp only [Symbol.Meaning.behind]
    have start (addr : Option ValueId) : Place.behind base ⟨s, addr, s.type, span⟩ =
        ⟨{ s with meaning := .constant v (slot.map base.pastValue) }, addr.map base.pastValue,
          s.type, span⟩ := by
      simp [Place.behind, Symbol.behind, meaning, Symbol.Meaning.behind]
    split
    · split
      · exact pure_beside (start _)
      · exact raise_beside _
    · exact pure_beside (start _)
  | «variable» | function =>
    exact pure_beside (by simp [Place.behind, Symbol.behind, meaning, Symbol.Meaning.behind])

section Places

variable (p : Place)

theorem address_beside :
    Beside base base.pastValue p.address (p.behind base).address :=
  pure_beside (by cases h : p.addr <;> simp [Place.behind, h, Koopa.past])

theorem subscript_beside (idx : Expr) {m n : Lower ValueId}
    (lowered : Beside base base.pastValue m n) :
    Beside base (Place.behind base) (subscript p idx m) (subscript (p.behind base) idx n) := by
  unfold subscript
  rw [show (p.behind base).type = p.type from rfl]
  cases p.type with
  | pointer ds =>
    refine (address_beside p).bind fun addr => (load_beside _).bind fun front => ?_
    refine lowered.bind fun i => (getPtr_beside _ _).bind fun addr => ?_
    exact pure_beside rfl
  | array ds =>
    refine (address_beside p).bind fun front => lowered.bind fun i => ?_
    exact (getElemPtr_beside _ _).bind fun addr => pure_beside rfl
  | int | void =>
    cases idx.span? with
    | none => exact fault_beside
    | some s => exact raise_beside _

theorem read_beside : Beside base base.pastValue p.read (p.behind base).read := by
  unfold Place.read Place.behind
  cases p.addr with
  | none =>
    dsimp only [Option.map_none, Symbol.behind]
    cases p.symbol.meaning with
    | constant v slot => exact (lift_same _).next fun n => integer_beside n
    | «variable» | function => exact fault_beside
  | some addr => exact ite_beside (fun _ => load_beside addr) fun _ => raise_beside _

end Places

/-! ## Calls -/

theorem arrayArg_beside {e : Expr} (only : e.Only base.Free) (want : Ty)
    {walk walk' : Place → Lower Place}
    (walks : ∀ p, Beside base (Place.behind base) (walk p) (walk' (p.behind base))) :
    Beside base base.pastValue (arrayArg e want walk) (arrayArg e want walk') := by
  unfold arrayArg
  refine asPlace_beside _ fun span place _ => ?_
  refine (startPlace_beside only).bind fun p => (walks p).bind fun q => ?_
  unfold Place.behind
  cases q.addr with
  | none => exact raise_beside _
  | some addr =>
    dsimp only [Option.map_some]
    cases q.type with
    | int => exact raise_beside _
    | void =>
      refine (lift_same _).next fun t => (lift_same _).next fun t' => ?_
      exact check_beside (raise_beside _) (raise_beside _)
    | pointer ds =>
      refine (lift_same _).next fun t => (lift_same _).next fun t' => ?_
      exact check_beside (raise_beside _) (load_beside addr)
    | array ds =>
      refine (lift_same _).next fun t => (lift_same _).next fun t' => ?_
      refine check_beside (raise_beside _) ?_
      exact (integer_beside 0).bind fun nought => getElemPtr_beside addr nought

theorem callFn_beside {name : String} (free : base.Free name) (span nameSpan : Source.Span)
    (count : Nat) {args args' : List Ty → Lower (List ValueId)}
    (same : ∀ ts, Beside base (·.map base.pastValue) (args ts) (args' ts)) :
    Beside base (fun r => (base.pastValue r.1, r.2.behind base.program))
      (callFn span name nameSpan count args) (callFn span name nameSpan count args') :=
  get_beside fun σ _ => by
    rw [show (σ.behind base).symbols.find? name = _ from
      σ.symbols.find?_behind base.symbols base.program free]
    cases σ.symbols.find? name with
    | none => exact raise_beside _
    | some s =>
      dsimp only [Option.map_some]
      rw [show (s.behind base.program).meaning = s.meaning.behind base.program from rfl]
      cases s.meaning with
      | function fn params defined =>
        refine check_beside (raise_beside _) ?_
        refine (same params).bind fun as => (call_beside fn as).bind fun v => ?_
        exact pure_beside rfl
      | constant | «variable» => exact raise_beside _

/-! ## Operators -/

theorem applyUnary_beside (op : UnaryOp) (x : ValueId) :
    Beside base base.pastValue (applyUnary op x) (applyUnary op (base.pastValue x)) := by
  cases op with
  | minus => exact (integer_beside 0).bind fun nought => binary_beside _ nought x
  | not => exact (integer_beside 0).bind fun nought => binary_beside _ x nought
  | plus | other => exact pure_beside rfl

theorem shortCircuit_beside (isOr : Bool) {left left' right right' : Lower ValueId}
    (lefts : Beside base base.pastValue left left')
    (rights : Beside base base.pastValue right right') :
    Beside base base.pastValue (shortCircuit isOr left right) (shortCircuit isOr left' right') := by
  refine (alloc_beside _).bind fun slot => (integer_beside _).bind fun short => ?_
  refine (store_beside short slot).bind fun _ => lefts.bind fun a => ?_
  refine (integer_beside 0).bind fun nought => (binary_beside _ a nought).bind fun cond => ?_
  refine newBlock_beside.next fun rhs => newBlock_beside.next fun join => ?_
  refine (branch_beside cond rhs join).bind fun branch => ?_
  refine (sealTo_beside branch rhs).next fun _ => rights.bind fun b => ?_
  refine (integer_beside 0).bind fun nought => ?_
  refine (binary_beside _ b nought).bind fun norm => (store_beside norm slot).bind fun _ => ?_
  refine (jumpTo_beside join).bind fun jump => (sealTo_beside jump join).next fun _ => ?_
  exact load_beside slot

theorem applyBinary_beside (span : Source.Span) (op : BinaryOp)
    {left left' right right' : Lower ValueId} (lefts : Beside base base.pastValue left left')
    (rights : Beside base base.pastValue right right') :
    Beside base base.pastValue (applyBinary span op left right)
      (applyBinary span op left' right') := by
  refine lefts.bind fun a => rights.bind fun b => ?_
  cases opOf? op with
  | some op => exact binary_beside op a b
  | none => exact raise_beside _

/-! ## Expressions -/

theorem foldOr_beside {e : Expr} (only : e.Only base.Free) {run run' : Unit → Lower ValueId}
    (runs : Beside base base.pastValue (run ()) (run' ())) :
    Beside base base.pastValue (foldOr e run) (foldOr e run') := by
  unfold foldOr
  refine env_beside fun env env' agree => ?_
  rw [Const.eval_agree agree e only]
  cases Const.eval env e with
  | ok v => exact integer_beside v
  | error f =>
    cases f with
    | notConstant => exact runs
    | _ => exact throw_beside (.inl rfl)

mutual

theorem expr_beside : (e : Expr) → e.Only base.Free →
    Beside base base.pastValue (expr e) (expr e)
  | .lit s v, only => foldOr_beside (e := .lit s v) only (integer_beside v)
  | .group s inner, only => foldOr_beside (e := .group s inner) only (expr_beside inner only)
  | .ident s name, only => foldOr_beside (e := .ident s name) only <|
    (startPlace_beside (e := .ident s name) only).bind read_beside
  | .index s target idx, only => foldOr_beside (e := .index s target idx) only <|
    (startPlace_beside (e := .index s target idx) only).bind fun p =>
      (walk_beside target only.1 p).bind fun p =>
        (subscript_beside p idx (expr_beside idx only.2)).bind read_beside
  | .unary s op e, only => foldOr_beside (e := .unary s op e) only <|
    (expr_beside e only).bind (applyUnary_beside op)
  | .binary s op l r, only => foldOr_beside (e := .binary s op l r) only <|
    ite_beside (fun _ => shortCircuit_beside _ (expr_beside l only.1) (expr_beside r only.2))
      fun _ => applyBinary_beside s op (expr_beside l only.1) (expr_beside r only.2)
  | .call s name ns as, only => foldOr_beside (e := .call s name ns as) only <|
    (callFn_beside only.1 s ns as.length (args_beside as only.2)).bind fun _ =>
      check_beside (raise_beside _) (pure_beside rfl)
  | .bare s kind, only => foldOr_beside (e := .bare s kind) only <|
    ite_beside (fun _ => fault_beside) fun _ => raise_beside _
  | .missing id, only => foldOr_beside (e := .missing id) only <|
    get_beside fun _ _ => raise_beside _

theorem walk_beside : (e : Expr) → e.Only base.Free → (p : Place) →
    Beside base (Place.behind base) (walk e p) (walk e (p.behind base))
  | .group _ inner, only, p => walk_beside inner only p
  | .index _ target idx, only, p => (walk_beside target only.1 p).bind fun p =>
    subscript_beside p idx (expr_beside idx only.2)
  | .lit .., _, _ | .ident .., _, _ | .call .., _, _ | .unary .., _, _ | .binary .., _, _
  | .bare .., _, _ | .missing .., _, _ => pure_beside rfl

theorem args_beside : (es : List Expr) → Expr.AllOnly base.Free es → (ts : List Ty) →
    Beside base (·.map base.pastValue) (args es ts) (args es ts)
  | e :: es, only, t :: ts => by
    cases t with
    | pointer ds =>
      exact (arrayArg_beside only.1 (.pointer ds) (walk_beside e only.1)).bind fun v =>
        (args_beside es only.2 ts).bind fun vs => pure_beside rfl
    | _ =>
      exact (expr_beside e only.1).bind fun v =>
        (args_beside es only.2 ts).bind fun vs => pure_beside rfl
  | [], _, _ => pure_beside rfl
  | _ :: _, _, [] => pure_beside rfl

end

theorem effect_beside {e : Expr} (only : e.Only base.Free) :
    Beside base id (effect e) (effect e) := by
  have bare := only.stripGroups
  unfold effect
  cases stripped : e.stripGroups with
  | call s name ns as =>
    rw [stripped] at bare
    exact (callFn_beside bare.1 s ns as.length (args_beside as bare.2)).bind fun _ =>
      pure_beside rfl
  | _ => exact (expr_beside e only).bind fun _ => pure_beside rfl

/-! ## Declarations -/

theorem makeMany_beside {f f' : Nat → Lower ValueId}
    (each : ∀ i, Beside base base.pastValue (f i) (f' i)) (n i : Nat) :
    Beside base (·.map base.pastValue) (makeMany f n i) (makeMany f' n i) := by
  induction n generalizing i with
  | zero => exact pure_beside rfl
  | succ n ih => exact (each i).bind fun v => (ih (i + 1)).bind fun vs => pure_beside rfl

theorem aggregate_beside (dims : List Int) (data : List Int32) :
    Beside base base.pastValue (aggregate dims data) (aggregate dims data) := by
  induction dims generalizing data with
  | nil =>
    unfold aggregate
    cases data.head? with
    | some n => exact tryMake_beside fun p f => .ok ⟨none, .i32, .integer n, ""⟩ rfl
    | none => exact fault_beside
  | cons d ds ih =>
    refine (makeMany_beside (fun i => ih _) _ _).bind fun elems => ?_
    exact tryMake_beside fun p f => p.aggregate_mirrors base.program none elems

theorem namedGlobal_beside {name : String} (free : base.Free name) (init : ValueId) :
    Beside base base.pastValue (namedGlobal name init) (namedGlobal name (base.pastValue init)) := by
  refine (tryMake_beside fun p f => p.globalAlloc_mirrors base.program init).bind fun v => ?_
  refine get_beside fun σ avoids => ?_
  refine liftBind_beside (σ.program.setGlobalName_follows base.program v _) fun p named => ?_
  obtain ⟨x, -, named⟩ := Except.bind_eq_ok.mp named
  cases named
  exact (setProgram_beside (avoids.rename v (Ahead.fresh_name free))).next fun _ => pure_beside rfl

theorem globalVariable_beside {name : String} (free : base.Free name) (ty : Ty)
    (data : List Int32) :
    Beside base base.pastValue (globalVariable name ty data) (globalVariable name ty data) := by
  rw [globalVariable_eq]
  refine Beside.bind (ite_beside (fun _ => ?_) fun _ => aggregate_beside ty.dims data)
    (namedGlobal_beside free)
  exact (lift_same _).next fun t => tryMake_beside fun p f => .ok ⟨none, t, .zeroInit, ""⟩ rfl

theorem constantSymbol_beside {d : Def} (free : base.Free d.name) (ty : Ty)
    (value : Const.Value) :
    Beside base (Symbol.behind base.program) (constantSymbol d ty value)
      (constantSymbol d ty value) := by
  refine ite_beside (fun _ => ?_) fun _ => ?_
  · exact (pure_beside (g := Option.map base.pastValue) rfl).bind fun slot => pure_beside rfl
  · refine (map_beside (g := Option.map base.pastValue) (globalVariable_beside free _ _)
      fun _ => rfl).bind fun slot => pure_beside rfl

theorem globalDef_beside (isConst : Bool) {d : Def} (only : d.Only base.Free) :
    Beside base (Symbol.behind base.program) (globalDef isConst d) (globalDef isConst d) := by
  refine get_beside fun σ _ => ?_
  have agree : σ.symbols.globalEnv.Agree base.Free (σ.behind base).symbols.globalEnv :=
    σ.globalEnv_agree
  dsimp only
  rw [constantDef_agree agree only, Ty.ofDef_agree agree .int only]
  refine ite_beside (fun _ => ?_) fun _ => ?_
  · exact (lift_same _).next fun r => constantSymbol_beside only.name r.1 r.2
  · refine (lift_same _).next fun ty => ?_
    have named (data : List Int32) : Beside base (Symbol.behind base.program)
        (variableSymbol d ty data) (variableSymbol d ty data) :=
      (globalVariable_beside only.name ty data).bind fun slot => pure_beside rfl
    refine check_beside fault_beside ?_
    cases init : d.init with
    | none => exact .next (pure_beside rfl) named
    | some i =>
      dsimp only
      rw [constantInit_agree agree _ _ (only.init i init)]
      exact (lift_same _).next named

theorem refuseVoid_beside (d : Decl) : Beside base id (refuseVoid d) (refuseVoid d) := by
  unfold refuseVoid
  cases d.defs with
  | nil => exact fault_beside
  | cons first rest => exact raise_beside _

theorem globalDefs_beside (isConst : Bool) {ds : List Def} (only : ∀ d ∈ ds, d.Only base.Free) :
    Beside base id (globalDefs isConst ds) (globalDefs isConst ds) := by
  induction ds with
  | nil => exact pure_beside rfl
  | cons d ds ih =>
    obtain ⟨first, rest⟩ := List.forall_mem_cons.mp only
    refine .bind_of (globalDef_gives isConst d) (globalDef_beside isConst first) fun s symbol => ?_
    refine get_beside fun σ avoids => ?_
    have free : base.Free s.name := symbol.1 ▸ first.name
    dsimp only
    rw [show (σ.behind base).symbols.define (s.behind base.program) = _ from
      σ.symbols.define_behind base.symbols base.program free]
    generalize σ.symbols.define s = r
    obtain ⟨⟨accepted, existing⟩, t⟩ := r
    have bound : Beside base id (set { σ with symbols := t } : Lower PUnit)
        (set { σ.behind base with symbols := t.behind base.symbols base.program }) :=
      set_beside (σ := { σ with symbols := t }) avoids
    cases existing with
    | none => cases accepted <;> exact bound.next fun _ => ih rest
    | some old =>
      cases accepted with
      | true => exact bound.next fun _ => ih rest
      | false => exact (raise_beside _).next fun _ => ih rest

theorem globalDecl_beside {d : Decl} (only : d.Only base.Free) :
    Beside base id (globalDecl d) (globalDecl d) := by
  unfold globalDecl
  cases d.type with
  | void => exact refuseVoid_beside d
  | int => exact globalDefs_beside d.isConst only

/-! ### Local declarations -/

theorem elementPtr_beside (array : ValueId) (count index : Int) (dims : List Int) :
    Beside base base.pastValue (elementPtr array count index dims)
      (elementPtr (base.pastValue array) count index dims) := by
  induction dims generalizing array count index with
  | nil => exact pure_beside rfl
  | cons d ds ih =>
    unfold elementPtr
    refine check_beside fault_beside ?_
    exact (integer_beside _).bind fun i => (getElemPtr_beside array i).bind fun ptr => ih _ _ _

theorem storeElements_beside (slot : ValueId) (dims : List Int) (index : Nat)
    (elems : List (Option ValueId)) :
    Beside base id (storeElements slot dims index elems)
      (storeElements (base.pastValue slot) dims index
        (elems.map (Option.map base.pastValue))) := by
  induction elems generalizing index with
  | nil => exact pure_beside rfl
  | cons e es ih =>
    have filled (v : ValueId) : Beside base id (filling slot dims index es v)
        (filling (base.pastValue slot) dims index (es.map (Option.map base.pastValue))
          (base.pastValue v)) :=
      (elementPtr_beside slot _ _ _).bind fun ptr => (store_beside v ptr).bind fun _ => ih _
    cases e with
    | some v => exact (pure_beside (g := base.pastValue) rfl).bind filled
    | none => exact (integer_beside 0).bind filled

theorem store_elements_beside (ps : List Const.Placement)
    (only : ∀ p ∈ ps, p.value.Only base.Free) (out : List (Option ValueId)) :
    Beside base (·.map (Option.map base.pastValue))
      (Const.Layout.store (fun e => some <$> expr e) ps out)
      (Const.Layout.store (fun e => some <$> expr e) ps
        (out.map (Option.map base.pastValue))) := by
  induction ps generalizing out with
  | nil => exact pure_beside rfl
  | cons p ps ih =>
    obtain ⟨first, rest⟩ := List.forall_mem_cons.mp only
    unfold Const.Layout.store
    refine (map_beside (g := Option.map base.pastValue) (expr_beside p.value first)
      fun _ => rfl).bind fun v => ?_
    rw [List.length_map, ← List.map_set]
    exact ite_beside (fun _ => ih rest _) fun _ => fault_beside

theorem flatten_beside (dims : List Int) {i : Init} (only : i.Only base.Free) :
    Beside base (·.map (Option.map base.pastValue))
      (Const.flatten none (fun e => some <$> expr e) dims i)
      (Const.flatten none (fun e => some <$> expr e) dims i) := by
  unfold Const.flatten
  cases layout : Const.Layout.ofArray dims i with
  | error f => exact throw_beside (.inl rfl)
  | ok r =>
    have placed : ∀ p ∈ r.1.placements, p.value.Only base.Free := fun p mem =>
      only.values p.value (Const.Layout.ofArray_from layout p mem)
    have stored := store_elements_beside r.1.placements placed (List.replicate r.2 none)
    rw [List.map_replicate] at stored
    unfold Const.Layout.fill
    refine stored.bind fun out => ?_
    cases r.1.stop with
    | some f => exact throw_beside (.inl rfl)
    | none => exact pure_beside rfl

theorem storeInit_beside (slot : ValueId) (ty : Ty) {i : Init} (only : i.Only base.Free) :
    Beside base id (storeInit slot ty i) (storeInit (base.pastValue slot) ty i) := by
  refine ite_beside (fun _ => ?_) fun _ => ?_
  · cases i with
    | expr s e =>
      exact (expr_beside e only).bind fun v => (store_beside v slot).bind fun _ => pure_beside rfl
    | list => exact raise_beside _
    | missing => exact fault_beside
  · exact (flatten_beside ty.dims only).bind (storeElements_beside slot ty.dims 0)

theorem setName_beside (v : ValueId) {name : String} (fresh : name ∉ base.fnNames) :
    Beside base id (setName v name) (setName (base.pastValue v) name) :=
  get_beside fun σ avoids => by
    refine liftBind_beside (σ.program.setName_follows base.program σ.frame.fn v name)
      fun p named => ?_
    obtain ⟨x, -, named⟩ := Except.bind_eq_ok.mp named
    cases named
    exact setProgram_beside (avoids.rename v fresh)

theorem localConstant_beside {d : Def} (only : d.Only base.Free) :
    Beside base id (localConstant d) (localConstant d) := by
  unfold localConstant
  refine env_beside fun env env' agree => ?_
  rw [constantDef_agree agree only]
  refine (lift_same _).next fun r => ?_
  refine .bind_of (constantSymbol_gives d r.1 r.2) (constantSymbol_beside only.name r.1 r.2) ?_
  exact fun s symbol => declare_beside (symbol.1 ▸ only.name)

theorem localVariable_beside {d : Def} (only : d.Only base.Free) :
    Beside base id (localVariable d) (localVariable d) := by
  unfold localVariable
  refine env_beside fun env env' agree => ?_
  rw [Ty.ofDef_agree agree .int only]
  refine (lift_same _).next fun ty => (lift_same _).next fun t => ?_
  refine (alloc_beside t).bind fun slot => ?_
  refine (setName_beside slot (Ahead.fresh_name only.name)).next fun _ => ?_
  have declared : Beside base id (declare ⟨d.name, d.nameSpan, ty, .«variable» slot⟩)
      (declare ⟨d.name, d.nameSpan, ty, .«variable» (base.pastValue slot)⟩) :=
    declare_beside (s := ⟨d.name, d.nameSpan, ty, .«variable» slot⟩) only.name
  cases init : d.init with
  | none => exact declared
  | some i => exact (storeInit_beside slot ty (only.init i init)).next fun _ => declared

theorem localDecl_beside {d : Decl} (only : d.Only base.Free) :
    Beside base id (localDecl d) (localDecl d) := by
  unfold localDecl
  cases d.type with
  | void => exact refuseVoid_beside d
  | int =>
    refine forM_beside d.defs fun e mem => ?_
    split
    · exact localConstant_beside (only e mem)
    · exact localVariable_beside (only e mem)

/-! ## Statements -/

theorem storing_beside (named : Expr.Place) {value : Expr} (only : value.Only base.Free)
    (p : Place) :
    Beside base id (storing named value p) (storing named value (p.behind base)) := by
  unfold storing
  refine check_beside (raise_beside _) ?_
  refine (expr_beside value only).bind fun v => (address_beside p).bind fun addr => ?_
  exact (store_beside v addr).bind fun _ => pure_beside rfl

theorem assign_beside {target value : Expr} (target_only : target.Only base.Free)
    (value_only : value.Only base.Free) :
    Beside base id (assign target value) (assign target value) := by
  unfold assign
  refine asPlace_beside _ fun span named found => ?_
  refine (findObject_beside (target_only.place found) _).bind fun s => ?_
  have aimed : Beside base id (assigning target value named) (assigning target value named) :=
    (startPlace_beside target_only).bind fun p => (walk_beside target target_only p).bind fun q =>
      storing_beside named value_only q
  dsimp only
  rw [show (s.behind base.program).meaning = s.meaning.behind base.program from rfl]
  cases s.meaning with
  | constant => exact stop_beside _
  | «variable» | function => exact aimed

theorem currentName_beside : Beside base id currentName currentName :=
  get_beside fun σ _ =>
    (lift_beside (σ.program.fn_follows base.program σ.frame.fn)).bind fun _ => pure_beside rfl

theorem ret_beside (span : Source.Span) {value : Option Expr}
    (only : ∀ e ∈ value, e.Only base.Free) : Beside base id (ret span value) (ret span value) := by
  refine get_beside fun σ _ => ?_
  have rest (v : Option ValueId) : Beside base id (do sealOff (← make (·.ret · v)))
      (do sealOff (← make (·.ret · (v.map base.pastValue)))) :=
    (make_beside fun _ f => .ok ⟨some f, .unit, .ret v, ""⟩ rfl).bind sealOff_beside
  dsimp only
  rw [show (σ.behind base).frame.ret = σ.frame.ret from rfl]
  cases value with
  | none =>
    cases σ.frame.ret == .void with
    | true => exact (pure_beside (g := Option.map base.pastValue) rfl).bind rest
    | false =>
      have nought : Beside base base.pastValue (integer 0) (integer 0) := integer_beside 0
      exact (map_beside (g := Option.map base.pastValue) nought fun _ => rfl).bind rest
  | some e =>
    cases σ.frame.ret == .void with
    | true => exact currentName_beside.next fun name => stop_beside _
    | false =>
      have lowered := expr_beside e (only e rfl)
      exact (map_beside (g := Option.map base.pastValue) lowered fun _ => rfl).bind rest

theorem leaveLoop_beside (span : Source.Span) (keyword : String)
    (target : LoopTargets → BlockId) :
    Beside base id (leaveLoop span keyword target) (leaveLoop span keyword target) := by
  refine get_beside fun σ _ => ?_
  rw [show (σ.behind base).frame.loops = σ.frame.loops from rfl]
  cases σ.frame.loops with
  | nil => exact raise_beside _
  | cons t _ => exact jump_beside _

theorem arm_beside (reachable : Bool) (block join : BlockId) {body body' : Lower Unit}
    (bodies : Beside base id body body') :
    Beside base id (arm reachable block join body) (arm reachable block join body') := by
  unfold arm
  refine check_beside (switchTo_beside _) ?_
  refine bodies.next fun _ => isOpen_beside.next fun goes => ?_
  exact ite_beside (fun _ => (jump_beside _).next fun _ => pure_beside rfl) fun _ => pure_beside rfl

section Branches

variable {cond : Expr} (only : cond.Only base.Free)

include only

theorem conditional_beside {thenArm thenArm' : Lower Unit}
    (thens : Beside base id thenArm thenArm') :
    Beside base id (conditional cond thenArm none) (conditional cond thenArm' none) := by
  unfold conditional
  refine isOpen_beside.next fun reachable => (expr_beside cond only).bind fun c => ?_
  refine newBlock_beside.next fun thenBlock => newBlock_beside.next fun join => ?_
  refine (branch_beside c thenBlock join).bind fun branch => ?_
  refine (sealOff_beside branch).next fun _ => ?_
  refine (arm_beside _ _ _ thens).next fun joined => ?_
  exact ite_beside (fun _ => switchTo_beside _) fun _ => pure_beside rfl

theorem conditional_else_beside {thenArm thenArm' elseArm elseArm' : Lower Unit}
    (thens : Beside base id thenArm thenArm') (elses : Beside base id elseArm elseArm') :
    Beside base id (conditional cond thenArm (some elseArm))
      (conditional cond thenArm' (some elseArm')) := by
  unfold conditional
  refine isOpen_beside.next fun reachable => (expr_beside cond only).bind fun c => ?_
  refine newBlock_beside.next fun thenBlock => newBlock_beside.next fun elseBlock => ?_
  refine newBlock_beside.next fun join => ?_
  refine (branch_beside c thenBlock elseBlock).bind fun branch => ?_
  refine (sealOff_beside branch).next fun _ => (arm_beside _ _ _ thens).next fun joined => ?_
  refine (arm_beside _ _ _ elses).next fun other => ?_
  exact ite_beside (fun _ => switchTo_beside _) fun _ => pure_beside rfl

theorem loop_beside {body body' : Lower Unit} (bodies : Beside base id body body') :
    Beside base id (loop cond body) (loop cond body') := by
  unfold loop
  refine isOpen_beside.next fun reachable => newBlock_beside.next fun condBlock => ?_
  refine newBlock_beside.next fun bodyBlock => newBlock_beside.next fun done => ?_
  refine (jumpTo_beside condBlock).bind fun enter => ?_
  refine (sealTo_beside enter condBlock).next fun _ => (expr_beside cond only).bind fun c => ?_
  refine (branch_beside c bodyBlock done).bind fun branch => ?_
  refine (sealOff_beside branch).next fun _ => check_beside (switchTo_beside _) ?_
  refine (inLoop_beside _ bodies).next fun _ => isOpen_beside.next fun goes => ?_
  refine check_beside (jump_beside _) ?_
  exact ite_beside (fun _ => switchTo_beside _) fun _ => pure_beside rfl

end Branches

mutual

theorem stmt_beside : (s : Stmt) → s.Only base.Free → Beside base id (stmt s) (stmt s)
  | .block _ ss, only => inScope_beside .block (stmts_beside ss only)
  | .decl _ none, _ => fault_beside
  | .decl _ (some d), only => localDecl_beside (only d rfl)
  | .assign _ target value, only => assign_beside only.1 only.2
  | .expr _ none, _ => pure_beside rfl
  | .expr _ (some e), only => effect_beside (only e rfl)
  | .ifThen _ cond thenArm none, only => by
    rw [Stmt.Only] at only
    exact conditional_beside only.1 (stmt_beside thenArm only.2)
  | .ifThen _ cond thenArm (some elseArm), only => by
    rw [Stmt.Only] at only
    exact conditional_else_beside only.1 (stmt_beside thenArm only.2.1)
      (stmt_beside elseArm only.2.2)
  | .while _ cond body, only => by
    rw [Stmt.Only] at only
    exact loop_beside only.1 (stmt_beside body only.2)
  | .break s, _ => leaveLoop_beside s _ _
  | .continue s, _ => leaveLoop_beside s _ _
  | .return s value, only => ret_beside s only
  | .bare .., _ => ite_beside (fun _ => fault_beside) fun _ => raise_beside _
  | .missing _, _ => get_beside fun _ _ => raise_beside _

theorem stmts_beside : (ss : List Stmt) → Stmt.AllOnly base.Free ss →
    Beside base id (stmts ss) (stmts ss)
  | [], _ => pure_beside rfl
  | s :: ss, only => (stmt_beside s only.1).next fun _ => stmts_beside ss only.2

end

/-! ## Functions -/

theorem mapM_beside {γ : Type} {f : γ → Lower Koopa.Ty} (each : ∀ c, Beside base id (f c) (f c))
    (cs : List γ) : Beside base id (cs.mapM f) (cs.mapM f) := by
  induction cs with
  | nil => exact pure_beside rfl
  | cons c cs ih =>
    rw [List.mapM_cons]
    exact (each c).next fun b => ih.next fun bs => pure_beside rfl

theorem newFn_beside (name : String) (params : List Ty) (ret : Ty) {names : List String}
    (fresh : ∀ n ∈ names, n ∉ base.fnNames) :
    Beside base base.pastFn (newFn name params ret names) (newFn name params ret names) := by
  unfold newFn
  refine (mapM_beside (fun t => lift_same _) params).next fun ps => (lift_same _).next fun r => ?_
  refine get_beside fun σ avoids => ?_
  refine liftBind_beside (σ.program.newFn_follows base.program _ _ names) fun q made => ?_
  have avoids : q.2.Avoids base.fnNames := by
    cases made
    have inserted := avoids.insertParams base.declares.nameless (σ.program.fns.size + 1) 0 ps fresh
    exact ⟨inserted.values, inserted.blocks⟩
  exact (setProgram_beside avoids).next fun _ => pure_beside rfl

theorem spillParams_beside {ps : List Param} (only : ∀ p ∈ ps, p.Only base.Free) (ts : List Ty)
    (vs : List ValueId) :
    Beside base id (spillParams ps ts vs) (spillParams ps ts (vs.map base.pastValue)) := by
  induction ps generalizing ts vs with
  | nil => exact pure_beside rfl
  | cons p ps ih =>
    obtain ⟨first, rest⟩ := List.forall_mem_cons.mp only
    cases ts with
    | nil => exact pure_beside rfl
    | cons t ts =>
      cases vs with
      | nil => exact pure_beside rfl
      | cons v vs =>
        have fresh := Ahead.fresh_name first.name
        rw [List.map_cons]
        unfold spillParams
        refine (setName_beside v fresh).next fun _ => (lift_same _).next fun ty => ?_
        refine (alloc_beside ty).bind fun slot => (setName_beside slot fresh).next fun _ => ?_
        refine (store_beside v slot).bind fun _ => ?_
        have declared : Beside base id (declare ⟨p.name, p.nameSpan, t, .«variable» slot⟩)
            (declare ⟨p.name, p.nameSpan, t, .«variable» (base.pastValue slot)⟩) :=
          declare_beside (s := ⟨p.name, p.nameSpan, t, .«variable» slot⟩) first.name
        exact declared.next fun _ => ih rest ts vs

theorem recordBody_beside (name : String) {body body' : Lower Unit}
    (bodies : Beside base id body body') :
    Beside base id (recordBody name body) (recordBody name body') := fun σ avoids => by
  have ends := bodies σ avoids
  unfold recordBody
  generalize body σ = x, body' (σ.behind base) = y at ends
  cases ends with
  | @ok a τ avoids => exact .ok (σ := { τ with bodies := τ.bodies ++ [(name, true)] }) avoids
  | @error e f τ alike =>
    exact .error (σ := { τ with bodies := τ.bodies ++ [(name, false)] }) alike

theorem body_beside {f : Fn} (only : f.Only base.Free) (fn : FnId) (ret : Ty) (params : List Ty)
    {block : Stmt} (block_only : block.Only base.Free) :
    Beside base id (body f fn ret params block) (body f (base.pastFn fn) ret params block) := by
  refine recordBody_beside f.name ?_
  refine (modifyFrame_beside fun _ => rfl).next fun _ => newBlock_beside.next fun b => ?_
  refine (switchTo_beside b).next fun _ => inScope_beside .function ?_
  refine get_beside fun σ _ => liftBind_beside (σ.program.fn_follows base.program fn) fun d _ => ?_
  refine (spillParams_beside only.params params d.params).next fun _ => ?_
  cases block with
  | block s ss => exact stmts_beside ss block_only
  | ifThen s c t e => cases e <;> exact raise_beside _
  | _ => exact raise_beside _

theorem header_beside {f : Fn} (only : f.Only base.Free) (ret : Ty) (params : List Ty) :
    Beside base base.pastFn (header f ret params) (header f ret params) := by
  refine get_beside fun σ _ => ?_
  rw [show (σ.behind base).symbols.findGlobal? f.name = _ from
    σ.symbols.findGlobal?_behind base.symbols base.program only.name]
  cases σ.symbols.findGlobal? f.name with
  | none =>
    refine newFn_beside f.name params ret fun n mem => ?_
    obtain ⟨p, here, rfl⟩ := List.mem_map.mp mem
    exact Ahead.fresh_name (only.params p here).name
  | some s =>
    dsimp only [Option.map_some]
    rw [show (s.behind base.program).meaning = s.meaning.behind base.program from rfl]
    cases s.meaning with
    | function id ps defined =>
      refine check_beside (raise_beside _) ?_
      exact check_beside (raise_beside _) (pure_beside rfl)
    | constant | «variable» => exact raise_beside _

theorem bindFn_beside {f : Fn} {s : Symbol} (free : base.Free s.name) :
    Beside base id (bindFn f s) (bindFn f (s.behind base.program)) := by
  refine get_beside fun σ avoids => ?_
  have bound : (if f.isDecl then (σ.behind base).symbols.declare (s.behind base.program)
      else (σ.behind base).symbols.define (s.behind base.program)) =
      let r := if f.isDecl then σ.symbols.declare s else σ.symbols.define s
      (r.1.behind base.program, r.2.behind base.symbols base.program) := by
    split
    · exact σ.symbols.declare_behind base.symbols base.program free
    · exact σ.symbols.define_behind base.symbols base.program free
  dsimp only at bound ⊢
  rw [bound]
  generalize (if f.isDecl then σ.symbols.declare s else σ.symbols.define s) = r
  obtain ⟨⟨accepted, existing⟩, t⟩ := r
  have bound : Beside base id (set { σ with symbols := t } : Lower PUnit)
      (set { σ.behind base with symbols := t.behind base.symbols base.program }) :=
    set_beside (σ := { σ with symbols := t }) avoids
  cases existing with
  | none => cases accepted <;> exact bound
  | some old =>
    cases accepted with
    | true => exact bound
    | false => exact raise_beside _

theorem function_beside {f : Fn} (only : f.Only base.Free) :
    Beside base id (function f) (function f) := by
  refine get_beside fun σ _ => ?_
  dsimp only
  rw [Ty.ofParams_agree σ.globalEnv_agree only.params]
  refine (lift_same _).next fun ts => (header_beside only _ ts).bind fun id => ?_
  refine .next (bindFn_beside (s := ⟨f.name, f.nameSpan, _, .function id ts (!f.isDecl)⟩)
    only.name) fun _ => ?_
  cases contents : f.body with
  | none => exact pure_beside rfl
  | some block => exact body_beside only id _ ts (only.body block contents)

theorem item_beside {i : Item} (only : i.Only base.Free) : Beside base id (item i) (item i) := by
  cases i with
  | fn s f => exact function_beside only
  | decl s d =>
    cases d with
    | none => exact fault_beside
    | some d => exact globalDecl_beside (only d rfl)
  | bare s kind => exact ite_beside (fun _ => fault_beside) fun _ => raise_beside _
  | missing id => exact fault_beside

theorem items_beside (canceled : Bool) {is : List Item} (only : ∀ i ∈ is, i.Only base.Free) :
    Beside base id (items canceled is) (items canceled is) := by
  induction is with
  | nil => exact pure_beside rfl
  | cons i is ih =>
    obtain ⟨first, rest⟩ := List.forall_mem_cons.mp only
    unfold items
    refine check_beside (throw_beside (.inl rfl)) ?_
    exact (item_beside first).next fun _ => ih rest

end Lower
end SysY

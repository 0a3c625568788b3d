import SysY.Proofs.Const.Words
import SysY.Proofs.Lower.Parts
import SysY.Proofs.Lower.Spans

/-! # Only words count to lowering

Each function of lowering runs in parallel on a tree and on the same tree without its spans. So two
trees of the same words are lowered to the same program, or both are refused for the same reason. -/

namespace SysY

open Koopa (ValueId BlockId)

namespace Lower

/-! ## Places -/

/-- A place without spans. -/
def Place.blank (p : Place) : Place := { p with symbol := p.symbol.blank, span := {} }

/-- Places that differ in their spans only. -/
abbrev Place.Same (p p' : Place) : Prop := p.blank = p'.blank

theorem findObject_parallel (name : String) (span span' : Source.Span) :
    Parallel Symbol.Same (findObject name span) (findObject name span') :=
  get_parallel fun σ τ same => by
    obtain ⟨none, none'⟩ | ⟨s, s', here, here', symbols⟩ := find?_same same name
    · rw [none, none']
      exact raise_parallel rfl
    · rw [here, here']
      dsimp only
      rw [show s'.isFunction = s.isFunction from congrArg (·.isFunction) symbols.symm]
      exact ite_parallel (fun _ => raise_parallel rfl) fun _ => pure_parallel symbols

theorem asPlace_parallel (e : Expr) (reason : String) :
    Parallel (fun r r' => r'.2 = r.2.blank) (asPlace e reason) (asPlace e.blank reason) := by
  unfold asPlace
  rw [Expr.spineBroken_blank, Expr.span?_blank, Expr.place?_blank]
  refine check_parallel (throw_parallel rfl) ?_
  cases e.span? with
  | none => exact throw_parallel rfl
  | some s =>
    cases e.place? with
    | none => exact raise_parallel rfl
    | some p => exact pure_parallel rfl

theorem startPlace_parallel (e : Expr) :
    Parallel Place.Same (startPlace e) (startPlace e.blank) := by
  unfold startPlace
  refine (asPlace_parallel e _).bind fun ⟨span, p⟩ ⟨span', p'⟩ place => ?_
  obtain rfl : p' = p.blank := place
  refine (findObject_parallel _ _ _).bind fun s s' symbols => ?_
  have meaning : s'.meaning = s.meaning := congrArg (·.meaning) symbols.symm
  have type : s'.type = s.type := congrArg (·.type) symbols.symm
  have slot : s'.slot? = s.slot? := congrArg (·.slot?) symbols.symm
  have start (addr : Option ValueId) (sp sp' : Source.Span) :
      (⟨s, addr, s.type, sp⟩ : Place).blank = (⟨s', addr, s'.type, sp'⟩ : Place).blank := by
    simp only [Place.blank, symbols, type]
  rw [meaning, slot, show p.blank.indices = p.indices.map Expr.blank from rfl, List.isEmpty_map]
  cases s.meaning with
  | constant v slot =>
    dsimp only
    split
    · split
      · exact pure_parallel (start _ _ _)
      · exact raise_parallel rfl
    · exact pure_parallel (start _ _ _)
  | «variable» => exact pure_parallel (start _ _ _)
  | function => exact pure_parallel (start _ _ _)

section Places

variable {p p' : Place}

theorem Place.addr_same (same : p.blank = p'.blank) : p.addr = p'.addr := congrArg (·.addr) same

theorem Place.type_same (same : p.blank = p'.blank) : p.type = p'.type := congrArg (·.type) same

theorem Place.symbol_same (same : p.blank = p'.blank) : p.symbol.blank = p'.symbol.blank :=
  congrArg (·.symbol) same

theorem address_parallel (same : p.blank = p'.blank) : Parallel Eq p.address p'.address :=
  pure_parallel (congrArg (·.getD 0) (Place.addr_same same))

theorem subscript_parallel (same : p.blank = p'.blank) (idx : Expr) {m n : Lower ValueId}
    (lowered : Parallel Eq m n) :
    Parallel Place.Same (subscript p idx m) (subscript p' idx.blank n) := by
  unfold subscript
  rw [Expr.span?_blank, ← Place.type_same same]
  have found (addr : ValueId) (t : Ty) : ({ p with addr := some addr, type := t } : Place).blank =
      ({ p' with addr := some addr, type := t } : Place).blank :=
    congrArg (fun q : Place => { q with addr := some addr, type := t }) same
  cases p.type with
  | pointer ds =>
    refine (address_parallel same).next fun addr => ?_
    refine (tryEmitNew_blind _).next fun base => lowered.next fun i => ?_
    exact (tryEmitNew_blind _).next fun addr => pure_parallel (found addr _)
  | array ds =>
    refine (address_parallel same).next fun base => lowered.next fun i => ?_
    exact (tryEmitNew_blind _).next fun addr => pure_parallel (found addr _)
  | int | void =>
    cases idx.span? with
    | none => exact throw_parallel rfl
    | some s => exact raise_parallel rfl

theorem read_parallel (same : p.blank = p'.blank) : Parallel Eq p.read p'.read := by
  unfold Place.read
  have meaning : p'.symbol.meaning = p.symbol.meaning :=
    congrArg (·.meaning) (Place.symbol_same same).symm
  have name : p'.symbol.name = p.symbol.name := congrArg (·.name) (Place.symbol_same same).symm
  rw [← Place.addr_same same, ← Place.type_same same, meaning, name]
  cases p.addr with
  | none =>
    dsimp only
    split
    · exact (lift_parallel (.rfl _)).next fun n => integer_blind n
    · exact throw_parallel rfl
  | some addr => exact ite_parallel (fun _ => tryEmitNew_blind _) fun _ => raise_parallel rfl

end Places

/-! ## Calls -/

theorem arrayArg_parallel (e : Expr) (want : Ty) {walk walk' : Place → Lower Place}
    (walks : ∀ p p', p.Same p' → Parallel Place.Same (walk p) (walk' p')) :
    Parallel Eq (arrayArg e want walk) (arrayArg e.blank want walk') := by
  unfold arrayArg
  refine (asPlace_parallel e _).bind fun ⟨span, place⟩ ⟨span', place'⟩ _ => ?_
  refine (startPlace_parallel e).bind fun p p' same => ?_
  refine (walks p p' same).bind fun q q' same => ?_
  dsimp only
  rw [← Place.addr_same same, ← Place.type_same same]
  split
  · exact raise_parallel rfl
  · exact raise_parallel rfl
  · refine (lift_parallel (.rfl _)).next fun t => (lift_parallel (.rfl _)).next fun t' => ?_
    refine check_parallel (raise_parallel rfl) ?_
    split
    · exact tryEmitNew_blind _
    · exact (integer_blind 0).next fun nought => tryEmitNew_blind _
    · exact raise_parallel rfl

theorem callFn_parallel (span span' nameSpan nameSpan' : Source.Span) (name : String) (count : Nat)
    {args args' : List Ty → Lower (List ValueId)}
    (same : ∀ ts, Parallel Eq (args ts) (args' ts)) :
    Parallel (fun r r' => r.1 = r'.1 ∧ r.2.Same r'.2) (callFn span name nameSpan count args)
      (callFn span' name nameSpan' count args') :=
  get_parallel fun σ τ states => by
    obtain ⟨none, none'⟩ | ⟨s, s', here, here', symbols⟩ := find?_same states name
    · rw [none, none']
      exact raise_parallel rfl
    · rw [here, here']
      dsimp only
      rw [show s'.meaning = s.meaning from congrArg (·.meaning) symbols.symm]
      split
      · refine check_parallel (raise_parallel rfl) ?_
        refine (same _).next fun as => (tryEmitNew_blind _).next fun v => ?_
        exact pure_parallel ⟨rfl, symbols⟩
      · exact raise_parallel rfl

/-! ## Operators -/

theorem applyUnary_blind (op : UnaryOp) (x : ValueId) : Blind (applyUnary op x) := by
  cases op with
  | minus => exact (integer_blind 0).next fun _ => emitNew_blind _
  | not => exact (integer_blind 0).next fun _ => emitNew_blind _
  | plus => exact pure_parallel rfl
  | other => exact pure_parallel rfl

theorem shortCircuit_parallel (isOr : Bool) {left left' right right' : Lower ValueId}
    (lefts : Parallel Eq left left') (rights : Parallel Eq right right') :
    Parallel Eq (shortCircuit isOr left right) (shortCircuit isOr left' right') := by
  refine (emitNew_blind _).next fun slot => (integer_blind _).next fun short => ?_
  refine (tryEmitNew_blind _).next fun _ => lefts.next fun a => ?_
  refine (integer_blind 0).next fun nought => (emitNew_blind _).next fun cond => ?_
  refine newBlock_blind.next fun rhs => newBlock_blind.next fun join => ?_
  refine (make_blind _).next fun branch => (sealTo_blind branch rhs).next fun _ => ?_
  refine rights.next fun b => (integer_blind 0).next fun nought => ?_
  refine (emitNew_blind _).next fun norm => (tryEmitNew_blind _).next fun _ => ?_
  refine (make_blind _).next fun jump => (sealTo_blind jump join).next fun _ => ?_
  exact tryEmitNew_blind _

theorem applyBinary_parallel (span span' : Source.Span) (op : BinaryOp)
    {left left' right right' : Lower ValueId} (lefts : Parallel Eq left left')
    (rights : Parallel Eq right right') :
    Parallel Eq (applyBinary span op left right) (applyBinary span' op left' right') := by
  refine lefts.next fun a => rights.next fun b => ?_
  split
  · exact emitNew_blind _
  · exact raise_parallel rfl

/-! ## Expressions -/

theorem env_blind : Blind env := get_parallel fun _ _ same => pure_parallel (env_same same)

theorem foldOr_parallel (e : Expr) {run run' : Unit → Lower ValueId}
    (runs : Parallel Eq (run ()) (run' ())) :
    Parallel Eq (foldOr e run) (foldOr e.blank run') := by
  refine env_blind.next fun env => ?_
  have value := Const.eval_blank env e
  generalize Const.eval env e = x, Const.eval env e.blank = x' at value
  cases value with
  | ok related => exact related ▸ integer_blind _
  | @error f f' related =>
    rcases Failure.cases_of_blank related with rfl | ⟨d, d', rfl, rfl⟩
    · cases f with
      | notConstant => exact runs
      | _ => exact throw_parallel rfl
    · exact throw_parallel related

mutual

theorem expr_blank : (e : Expr) → Parallel Eq (expr e) (expr e.blank)
  | .lit s v => foldOr_parallel (.lit s v) (integer_blind v)
  | .group s inner => foldOr_parallel (.group s inner) (expr_blank inner)
  | .ident s name => foldOr_parallel (.ident s name) <|
    (startPlace_parallel (.ident s name)).bind fun _ _ same => read_parallel same
  | .index s target idx => foldOr_parallel (.index s target idx) <|
    (startPlace_parallel (.index s target idx)).bind fun _ _ same =>
      (walk_blank target same).bind fun _ _ same =>
        (subscript_parallel same idx (expr_blank idx)).bind fun _ _ same => read_parallel same
  | .unary s op e => foldOr_parallel (.unary s op e) <|
    (expr_blank e).next fun x => applyUnary_blind op x
  | .binary s op l r => foldOr_parallel (.binary s op l r) <|
    ite_parallel (fun _ => shortCircuit_parallel _ (expr_blank l) (expr_blank r)) fun _ =>
      applyBinary_parallel s {} op (expr_blank l) (expr_blank r)
  | .call s name ns as => foldOr_parallel (.call s name ns as) <| by
    rw [Expr.blankAll_eq_map, List.length_map, ← Expr.blankAll_eq_map]
    refine (callFn_parallel _ _ _ _ _ _ (args_blank as)).bind fun r r' ⟨values, callees⟩ => ?_
    have type : r'.2.type = r.2.type := congrArg (·.type) callees.symm
    have name : r'.2.name = r.2.name := congrArg (·.name) callees.symm
    dsimp only
    rw [type, name]
    exact check_parallel (raise_parallel rfl) (pure_parallel values)
  | .bare s kind => foldOr_parallel (.bare s kind) <|
    ite_parallel (fun _ => throw_parallel rfl) fun _ => raise_parallel rfl
  | .missing id => foldOr_parallel (.missing id) <|
    get_parallel fun _ _ _ => raise_parallel rfl

theorem walk_blank : (e : Expr) → {p p' : Place} → p.blank = p'.blank →
    Parallel Place.Same (walk e p) (walk e.blank p')
  | .group _ inner, _, _, same => walk_blank inner same
  | .index _ target idx, _, _, same => (walk_blank target same).bind fun _ _ same =>
    subscript_parallel same idx (expr_blank idx)
  | .lit .., _, _, same | .ident .., _, _, same | .call .., _, _, same | .unary .., _, _, same
  | .binary .., _, _, same | .bare .., _, _, same | .missing .., _, _, same => pure_parallel same

theorem args_blank : (es : List Expr) → (ts : List Ty) →
    Parallel Eq (args es ts) (args (Expr.blankAll es) ts)
  | e :: es, t :: ts => by
    cases t with
    | pointer ds =>
      exact (arrayArg_parallel e (.pointer ds) fun _ _ same => walk_blank e same).next fun v =>
        (args_blank es ts).next fun vs => pure_parallel rfl
    | _ => exact (expr_blank e).next fun v => (args_blank es ts).next fun vs => pure_parallel rfl
  | [], _ => pure_parallel rfl
  | _ :: _, [] => pure_parallel rfl

end

/-- Expressions of the same words are computed in parallel. -/
theorem expr_same {e e' : Expr} (same : e.blank = e'.blank) : Parallel Eq (expr e) (expr e') :=
  (expr_blank e).trans (same ▸ (expr_blank e').symm)

theorem effect_blank (e : Expr) : Parallel Eq (effect e) (effect e.blank) := by
  unfold effect
  rw [Expr.stripGroups_blank]
  cases e.stripGroups with
  | call s name ns as =>
    rw [Expr.blank]
    dsimp only
    rw [Expr.blankAll_eq_map, List.length_map, ← Expr.blankAll_eq_map]
    exact (callFn_parallel _ _ _ _ _ _ (args_blank as)).bind fun _ _ _ => pure_parallel rfl
  | _ => exact (expr_blank e).next fun _ => pure_parallel rfl

/-! ## Declarations -/

theorem constant_blank (env : Const.Env) (what : String) (e : Expr) :
    Outcome.Same Eq (constant env what e) (constant env what e.blank) := by
  unfold constant
  rw [Expr.span?_blank]
  have value := Const.eval_blank env e
  generalize Const.eval env e = x, Const.eval env e.blank = x' at value
  cases value with
  | ok related => exact .ok related
  | @error f f' related =>
    rcases Failure.cases_of_blank related with rfl | ⟨d, d', rfl, rfl⟩
    · cases f with
      | notConstant => cases e.span? <;> exact .error rfl
      | _ => exact .error rfl
    · exact .error related

theorem constant_same (env : Const.Env) (what : String) {e e' : Expr} (same : e.blank = e'.blank) :
    Outcome.Same Eq (constant env what e) (constant env what e') :=
  (constant_blank env what e).trans (same ▸ (constant_blank env what e').symm)

theorem constantInit_blank (env : Const.Env) (what : String) (ty : Ty) (init : Init) :
    Outcome.Same Eq (constantInit env what ty init) (constantInit env what ty init.blank) := by
  unfold constantInit
  split
  · cases init with
    | expr s e => exact (constant_blank env what e).next fun v => .rfl _
    | list => exact .error rfl
    | missing => exact .error rfl
  · exact Const.flatten_blank .outcome (constant_same env what) 0 ty.dims init

theorem constantDef_blank (env : Const.Env) (d : Def) :
    Outcome.Same Eq (constantDef env d) (constantDef env d.blank) := by
  refine (Ty.ofDef_blank env .int d).next fun ty => ?_
  rw [show d.blank.init = d.init.map Init.blank from rfl]
  cases d.init with
  | none => exact .error rfl
  | some init => exact (constantInit_blank env _ ty init).next fun data => .rfl _

theorem makeMany_blind {f : Nat → Lower ValueId} (each : ∀ i, Blind (f i)) (n i : Nat) :
    Blind (makeMany f n i) := by
  induction n generalizing i with
  | zero => exact pure_parallel rfl
  | succ n ih => exact (each i).next fun v => (ih (i + 1)).next fun vs => pure_parallel rfl

theorem aggregate_blind (dims : List Int) (data : List Int32) : Blind (aggregate dims data) := by
  induction dims generalizing data with
  | nil =>
    unfold aggregate
    split
    · exact tryMake_blind _
    · exact throw_parallel rfl
  | cons d ds ih => exact (makeMany_blind (fun i => ih _) _ _).next fun elems => tryMake_blind _

theorem namedGlobal_blind (name : String) (init : ValueId) : Blind (namedGlobal name init) := by
  refine (tryMake_blind _).next fun v => get_parallel fun σ τ same => ?_
  rw [program_same same]
  exact (lift_parallel (.rfl _)).next fun p => (setProgram_blind p).next fun _ => pure_parallel rfl

theorem globalVariable_blind (name : String) (ty : Ty) (data : List Int32) :
    Blind (globalVariable name ty data) := by
  rw [globalVariable_eq]
  refine Parallel.next (ite_parallel (fun _ => ?_) fun _ => aggregate_blind ty.dims data)
    (namedGlobal_blind name)
  exact (lift_parallel (.rfl _)).next fun t => tryMake_blind _

theorem constantSymbol_blank (d : Def) (ty : Ty) (value : Const.Value) :
    Parallel Symbol.Same (constantSymbol d ty value)
      (constantSymbol d.blank ty value) := by
  refine ite_parallel (fun _ => ?_) fun _ => ?_
  · exact .next (pure_parallel rfl) fun slot => pure_parallel rfl
  · exact (map_parallel some (globalVariable_blind _ _ _)).next fun slot => pure_parallel rfl

theorem globalDef_blank (isConst : Bool) (d : Def) :
    Parallel Symbol.Same (globalDef isConst d) (globalDef isConst d.blank) := by
  refine get_parallel fun σ τ same => ?_
  dsimp only
  rw [globalEnv_same same]
  refine ite_parallel (fun _ => ?_) fun _ => ?_
  · exact (lift_parallel (constantDef_blank _ d)).next fun r => constantSymbol_blank d r.1 r.2
  · refine (lift_parallel (Ty.ofDef_blank _ .int d)).next fun ty => ?_
    refine check_parallel (throw_parallel rfl) ?_
    have named (data : List Int32) : Parallel Symbol.Same (variableSymbol d ty data)
        (variableSymbol d.blank ty data) :=
      (globalVariable_blind _ _ _).next fun slot => pure_parallel rfl
    rw [show d.blank.init = d.init.map Init.blank from rfl]
    cases d.init with
    | none => exact .next (pure_parallel rfl) named
    | some init => exact (lift_parallel (constantInit_blank _ _ ty init)).next named

theorem refuseVoid_blank (d : Decl) : Parallel Eq (refuseVoid d) (refuseVoid d.blank) := by
  unfold refuseVoid
  rw [show d.blank.defs = d.defs.map Def.blank from rfl]
  cases d.defs with
  | nil => exact throw_parallel rfl
  | cons first rest => exact raise_parallel rfl

theorem globalDefs_blank (isConst : Bool) (ds : List Def) :
    Parallel Eq (globalDefs isConst ds) (globalDefs isConst (ds.map Def.blank)) := by
  induction ds with
  | nil => exact pure_parallel rfl
  | cons d ds ih =>
    refine (globalDef_blank isConst d).bind fun s s' symbols => get_parallel fun σ τ same => ?_
    obtain ⟨accepted, t, t', tables, ⟨eq, eq'⟩ | ⟨old, old', eq, eq'⟩⟩ :=
      SymbolTable.attempts_same (SymbolTable.define_same (symbols_same same) symbols)
    · rw [eq, eq']
      cases accepted <;> exact (set_parallel (withSymbols_same same tables)).next fun _ => ih
    · rw [eq, eq']
      cases accepted with
      | false => exact .next (raise_parallel rfl) fun _ => ih
      | true => exact (set_parallel (withSymbols_same same tables)).next fun _ => ih

theorem globalDecl_blank (d : Decl) : Parallel Eq (globalDecl d) (globalDecl d.blank) := by
  unfold globalDecl
  rw [show d.blank.type = d.type from rfl]
  cases d.type with
  | void => exact refuseVoid_blank d
  | int => exact globalDefs_blank d.isConst d.defs

/-! ### Local declarations -/

theorem elementPtr_blind (base : ValueId) (count index : Int) (dims : List Int) :
    Blind (elementPtr base count index dims) := by
  induction dims generalizing base count index with
  | nil => exact pure_parallel rfl
  | cons d ds ih =>
    unfold elementPtr
    refine check_parallel (throw_parallel rfl) ?_
    exact (integer_blind _).next fun i => (tryEmitNew_blind _).next fun ptr => ih _ _ _

theorem storeElements_blind (slot : ValueId) (dims : List Int) (index : Nat)
    (elems : List (Option ValueId)) : Blind (storeElements slot dims index elems) := by
  induction elems generalizing index with
  | nil => exact pure_parallel rfl
  | cons e es ih =>
    have filled (v : ValueId) : Blind (filling slot dims index es v) :=
      (elementPtr_blind _ _ _ _).next fun ptr => (tryEmitNew_blind _).next fun _ => ih _
    cases e with
    | some v => exact .next (pure_parallel rfl) filled
    | none => exact (integer_blind 0).next filled

/-- Lowering, as a monad in which operations run in parallel. -/
def concurrence : Const.Concurrence Lower where
  rel := Parallel Eq
  pure := fun _ => pure_parallel rfl
  bind := .next
  throw := throw_parallel

theorem storeInit_blank (slot : ValueId) (ty : Ty) (init : Init) :
    Parallel Eq (storeInit slot ty init) (storeInit slot ty init.blank) := by
  refine ite_parallel (fun _ => ?_) fun _ => ?_
  · cases init with
    | expr s e =>
      exact (expr_blank e).next fun v => (tryEmitNew_blind _).next fun _ => pure_parallel rfl
    | list => exact raise_parallel rfl
    | missing => exact throw_parallel rfl
  · refine Parallel.next ?_ fun elems => storeElements_blind slot ty.dims 0 elems
    exact Const.flatten_blank concurrence (fun same => map_parallel some (expr_same same)) none
      ty.dims init

theorem setName_blind (v : ValueId) (name : String) : Blind (setName v name) :=
  get_parallel fun σ τ same => by
    rw [program_same same, fn_same same]
    exact (lift_parallel (.rfl _)).next fun p => setProgram_blind p

theorem localConstant_blank (d : Def) : Parallel Eq (localConstant d) (localConstant d.blank) :=
  env_blind.next fun env => (lift_parallel (constantDef_blank env d)).next fun r =>
    (constantSymbol_blank d r.1 r.2).bind fun _ _ symbols => declare_parallel symbols

theorem localVariable_blank (d : Def) : Parallel Eq (localVariable d) (localVariable d.blank) := by
  refine env_blind.next fun env => (lift_parallel (Ty.ofDef_blank env .int d)).next fun ty => ?_
  refine (lift_parallel (.rfl _)).next fun t => (emitNew_blind _).next fun slot => ?_
  refine (setName_blind _ _).next fun _ => ?_
  rw [show d.blank.init = d.init.map Init.blank from rfl]
  cases d.init with
  | none => exact declare_parallel (by rfl)
  | some init => exact (storeInit_blank slot ty init).next fun _ => declare_parallel (by rfl)

theorem localDecl_blank (d : Decl) : Parallel Eq (localDecl d) (localDecl d.blank) := by
  unfold localDecl
  rw [show d.blank.type = d.type from rfl]
  cases d.type with
  | void => exact refuseVoid_blank d
  | int =>
    refine forM_parallel (fun e => ?_) d.defs
    rw [show d.blank.isConst = d.isConst from rfl]
    split
    · exact localConstant_blank e
    · exact localVariable_blank e

/-! ## Statements -/

theorem assign_blank (target value : Expr) :
    Parallel Eq (assign target value) (assign target.blank value.blank) := by
  refine (asPlace_parallel target _).bind fun ⟨span, named⟩ ⟨span', named'⟩ place => ?_
  obtain rfl : named' = named.blank := place
  refine (findObject_parallel _ _ _).bind fun s s' symbols => ?_
  dsimp only
  rw [show s'.meaning = s.meaning from congrArg (·.meaning) symbols.symm]
  split
  · exact stop_parallel (by rfl)
  · refine (startPlace_parallel target).bind fun p p' same => ?_
    refine (walk_blank target same).bind fun q q' same => ?_
    rw [← Place.type_same same]
    refine check_parallel (raise_parallel rfl) ?_
    refine (expr_blank value).next fun v => (address_parallel same).next fun addr => ?_
    exact (tryEmitNew_blind _).next fun _ => pure_parallel rfl

theorem currentName_blind : Blind currentName :=
  get_parallel fun σ τ same => by
    rw [program_same same, fn_same same]
    exact (lift_parallel (.rfl _)).next fun f => pure_parallel rfl

theorem ret_blank (span span' : Source.Span) (value : Option Expr) :
    Parallel Eq (ret span value) (ret span' (value.map Expr.blank)) := by
  refine get_parallel fun σ τ same => ?_
  dsimp only
  rw [ret_same same]
  have rest (v : Option ValueId) : Blind (do sealOff (← make (·.ret · v))) :=
    (make_blind _).next fun r => sealOff_blind r
  cases value with
  | none =>
    cases τ.frame.ret == .void with
    | true => exact .next (pure_parallel rfl) rest
    | false => exact (map_parallel some (integer_blind 0)).next rest
  | some e =>
    cases τ.frame.ret == .void with
    | true => exact currentName_blind.next fun name => stop_parallel (by rfl)
    | false => exact (map_parallel some (expr_blank e)).next rest

theorem leaveLoop_blind (span span' : Source.Span) (keyword : String)
    (target : LoopTargets → BlockId) :
    Parallel Eq (leaveLoop span keyword target) (leaveLoop span' keyword target) := by
  refine get_parallel fun σ τ same => ?_
  rw [loops_same same]
  split
  · exact raise_parallel rfl
  · exact jump_blind _

theorem arm_parallel (reachable : Bool) (block join : BlockId) {body body' : Lower Unit}
    (bodies : Parallel Eq body body') :
    Parallel Eq (arm reachable block join body) (arm reachable block join body') := by
  unfold arm
  refine check_parallel (switchTo_blind _) ?_
  refine bodies.next fun _ => isOpen_blind.next fun goes => ?_
  exact ite_parallel (fun _ => (jump_blind _).next fun _ => pure_parallel rfl) fun _ =>
    pure_parallel rfl

theorem conditional_parallel (cond : Expr) {thenArm thenArm' : Lower Unit}
    (thens : Parallel Eq thenArm thenArm') :
    Parallel Eq (conditional cond thenArm none) (conditional cond.blank thenArm' none) := by
  refine isOpen_blind.next fun reachable => (expr_blank cond).next fun c => ?_
  refine newBlock_blind.next fun thenBlock => newBlock_blind.next fun join => ?_
  refine (make_blind _).next fun branch => (sealOff_blind branch).next fun _ => ?_
  refine (arm_parallel _ _ _ thens).next fun joined => ?_
  exact ite_parallel (fun _ => switchTo_blind _) fun _ => pure_parallel rfl

theorem conditional_else_parallel (cond : Expr) {thenArm thenArm' elseArm elseArm' : Lower Unit}
    (thens : Parallel Eq thenArm thenArm') (elses : Parallel Eq elseArm elseArm') :
    Parallel Eq (conditional cond thenArm (some elseArm))
      (conditional cond.blank thenArm' (some elseArm')) := by
  refine isOpen_blind.next fun reachable => (expr_blank cond).next fun c => ?_
  refine newBlock_blind.next fun thenBlock => newBlock_blind.next fun elseBlock => ?_
  refine newBlock_blind.next fun join => ?_
  refine (make_blind _).next fun branch => (sealOff_blind branch).next fun _ => ?_
  refine (arm_parallel _ _ _ thens).next fun joined => ?_
  refine (arm_parallel _ _ _ elses).next fun other => ?_
  exact ite_parallel (fun _ => switchTo_blind _) fun _ => pure_parallel rfl

theorem loop_parallel (cond : Expr) {body body' : Lower Unit} (bodies : Parallel Eq body body') :
    Parallel Eq (loop cond body) (loop cond.blank body') := by
  refine isOpen_blind.next fun reachable => newBlock_blind.next fun condBlock => ?_
  refine newBlock_blind.next fun bodyBlock => newBlock_blind.next fun done => ?_
  refine (make_blind _).next fun enter => (sealTo_blind enter condBlock).next fun _ => ?_
  refine (expr_blank cond).next fun c => (make_blind _).next fun branch => ?_
  refine (sealOff_blind branch).next fun _ => ?_
  refine check_parallel (switchTo_blind _) ?_
  refine (inLoop_parallel _ bodies).next fun _ => isOpen_blind.next fun goes => ?_
  refine check_parallel (jump_blind _) ?_
  exact ite_parallel (fun _ => switchTo_blind _) fun _ => pure_parallel rfl

mutual

theorem stmt_blank : (s : Stmt) → Parallel Eq (stmt s) (stmt s.blank)
  | .block _ ss => inScope_parallel .block (stmts_blank ss)
  | .decl _ none => throw_parallel rfl
  | .decl _ (some d) => localDecl_blank d
  | .assign _ target value => assign_blank target value
  | .expr _ none => pure_parallel rfl
  | .expr _ (some e) => effect_blank e
  | .ifThen _ cond thenArm none => conditional_parallel cond (stmt_blank thenArm)
  | .ifThen _ cond thenArm (some elseArm) =>
    conditional_else_parallel cond (stmt_blank thenArm) (stmt_blank elseArm)
  | .while _ cond body => loop_parallel cond (stmt_blank body)
  | .break s => leaveLoop_blind s {} _ _
  | .continue s => leaveLoop_blind s {} _ _
  | .return s value => ret_blank s {} value
  | .bare .. => ite_parallel (fun _ => throw_parallel rfl) fun _ => raise_parallel rfl
  | .missing _ => get_parallel fun _ _ _ => raise_parallel rfl

theorem stmts_blank : (ss : List Stmt) → Parallel Eq (stmts ss) (stmts (Stmt.blankAll ss))
  | [] => pure_parallel rfl
  | s :: ss => (stmt_blank s).next fun _ => stmts_blank ss

end

/-! ## Functions -/

theorem mapM_blind {α β : Type} {f : α → Lower β} (each : ∀ a, Blind (f a)) (as : List α) :
    Blind (as.mapM f) := by
  induction as with
  | nil => exact pure_parallel rfl
  | cons a as ih =>
    rw [List.mapM_cons]
    exact (each a).next fun b => ih.next fun bs => pure_parallel rfl

theorem newFn_blind (name : String) (params : List Ty) (ret : Ty) (names : List String) :
    Blind (newFn name params ret names) := by
  refine (mapM_blind (fun t => lift_parallel (.rfl _)) params).next fun ps => ?_
  refine (lift_parallel (.rfl _)).next fun r => get_parallel fun σ τ same => ?_
  rw [program_same same]
  exact (lift_parallel (.rfl _)).next fun q => (setProgram_blind q.2).next fun _ =>
    pure_parallel rfl

theorem declareLibrary_blind (ls : List LibraryFn) : Blind (declareLibrary ls) := by
  induction ls with
  | nil => exact pure_parallel rfl
  | cons l ls ih =>
    refine (newFn_blind _ _ _ _).next fun f => ?_
    refine .next (modify_parallel fun σ τ same => ?_) fun _ => ih
    exact withSymbols_same same
      (Prod.mk.inj (SymbolTable.declare_same (symbols_same same) rfl)).2

theorem spillParams_blank (ps : List Param) (ts : List Ty) (vs : List ValueId) :
    Parallel Eq (spillParams ps ts vs) (spillParams (ps.map Param.blank) ts vs) := by
  induction ps generalizing ts vs with
  | nil => exact pure_parallel rfl
  | cons p ps ih =>
    cases ts with
    | nil => exact pure_parallel rfl
    | cons t ts =>
      cases vs with
      | nil => exact pure_parallel rfl
      | cons v vs =>
        refine (setName_blind _ _).next fun _ => (lift_parallel (.rfl _)).next fun ty => ?_
        refine (emitNew_blind _).next fun slot => (setName_blind _ _).next fun _ => ?_
        refine (tryEmitNew_blind _).next fun _ => .next (declare_parallel (by rfl)) fun _ => ?_
        exact ih ts vs

theorem recordBody_parallel (name : String) {body body' : Lower Unit}
    (bodies : Parallel Eq body body') :
    Parallel Eq (recordBody name body) (recordBody name body') := fun σ τ same => by
  have ends := bodies σ τ same
  unfold recordBody
  generalize body σ = x, body' τ = y at ends
  cases ends with
  | @ok a b σ' τ' related states =>
    exact .ok related (congrArg (fun ρ : State => { ρ with bodies := ρ.bodies ++ [(name, true)] })
      states)
  | @error e f σ' τ' related states =>
    exact .error related (congrArg (fun ρ : State =>
      { ρ with bodies := ρ.bodies ++ [(name, false)] }) states)

theorem body_blank (f : Fn) (id : Koopa.FnId) (ret : Ty) (params : List Ty) (block : Stmt) :
    Parallel Eq (body f id ret params block) (body f.blank id ret params block.blank) := by
  refine recordBody_parallel f.name ?_
  refine .next (modify_parallel fun σ τ same => ?_) fun _ => newBlock_blind.next fun b => ?_
  · exact congrArg (fun ρ : State => { ρ with frame := { fn := id, ret := ret } }) same
  · refine (switchTo_blind b).next fun _ => inScope_parallel .function ?_
    refine get_parallel fun σ τ same => ?_
    rw [program_same same]
    refine (lift_parallel (.rfl _)).next fun d => ?_
    refine (spillParams_blank f.params params _).next fun _ => ?_
    cases block with
    | block s ss => exact stmts_blank ss
    | ifThen s c t e => cases e <;> exact raise_parallel rfl
    | _ => exact raise_parallel rfl

theorem header_blank (f : Fn) (ret : Ty) (params : List Ty) :
    Parallel Eq (header f ret params) (header f.blank ret params) := by
  refine get_parallel fun σ τ same => ?_
  rw [show f.blank.name = f.name from rfl]
  obtain ⟨none, none'⟩ | ⟨s, s', here, here', symbols⟩ := findGlobal?_same same f.name
  · rw [none, none', show f.blank.params = f.params.map Param.blank from rfl, List.map_map]
    exact newFn_blind _ _ _ _
  · rw [here, here']
    dsimp only
    rw [show s'.meaning = s.meaning from congrArg (·.meaning) symbols.symm,
      show s'.type = s.type from congrArg (·.type) symbols.symm,
      show f.blank.isDecl = f.isDecl from Option.isNone_map]
    split
    · refine check_parallel (raise_parallel rfl) ?_
      exact check_parallel (raise_parallel rfl) (pure_parallel rfl)
    · exact raise_parallel rfl

theorem bindFn_blank (f : Fn) {s s' : Symbol} (symbols : s.blank = s'.blank) :
    Parallel Eq (bindFn f s) (bindFn f.blank s') := by
  refine get_parallel fun σ τ same => ?_
  have attempts : ∀ isDecl : Bool,
      let r := if isDecl then σ.symbols.declare s else σ.symbols.define s
      let r' := if isDecl then τ.symbols.declare s' else τ.symbols.define s'
      (r.1.blank, r.2.blank) = (r'.1.blank, r'.2.blank) := fun isDecl => by
    cases isDecl with
    | false => exact SymbolTable.define_same (symbols_same same) symbols
    | true => exact SymbolTable.declare_same (symbols_same same) symbols
  obtain ⟨accepted, t, t', tables, ⟨eq, eq'⟩ | ⟨old, old', eq, eq'⟩⟩ :=
    SymbolTable.attempts_same (attempts f.isDecl)
  · rw [show f.blank.isDecl = f.isDecl from Option.isNone_map, eq, eq']
    cases accepted <;> exact set_parallel (withSymbols_same same tables)
  · rw [show f.blank.isDecl = f.isDecl from Option.isNone_map, eq, eq']
    cases accepted with
    | false => exact raise_parallel rfl
    | true => exact set_parallel (withSymbols_same same tables)

theorem function_blank (f : Fn) : Parallel Eq (function f) (function f.blank) := by
  refine get_parallel fun σ τ same => ?_
  dsimp only
  rw [globalEnv_same same, show f.blank.params = f.params.map Param.blank from rfl,
    show f.blank.returnType = f.returnType from rfl,
    show f.blank.isDecl = f.isDecl from Option.isNone_map]
  refine (lift_parallel (.mapM (Ty.ofParam_blank _) f.params)).next fun params => ?_
  refine (header_blank f _ params).next fun id => .next (bindFn_blank f (by rfl)) fun _ => ?_
  rw [show f.blank.body = f.body.map Stmt.blank from rfl]
  cases f.body with
  | none => exact pure_parallel rfl
  | some block => exact body_blank f id _ params block

theorem item_blank (i : Item) : Parallel Eq (item i) (item i.blank) := by
  cases i with
  | fn s f => exact function_blank f
  | decl s d =>
    cases d with
    | none => exact throw_parallel rfl
    | some d => exact globalDecl_blank d
  | bare s kind => exact ite_parallel (fun _ => throw_parallel rfl) fun _ => raise_parallel rfl
  | missing id => exact throw_parallel rfl

theorem items_blank (canceled : Bool) (is : List Item) :
    Parallel Eq (items canceled is) (items canceled (is.map Item.blank)) := by
  induction is with
  | nil => exact pure_parallel rfl
  | cons i is ih =>
    rw [List.map_cons]
    unfold items
    refine check_parallel (throw_parallel rfl) ?_
    exact (item_blank i).next fun _ => ih

/-- Lowering makes the same program of a unit without its spans. -/
theorem unit_blank (withLibrary canceled : Bool) (u : CompUnit) :
    Parallel Eq (unit withLibrary canceled u) (unit withLibrary canceled u.blank) := by
  unfold unit
  refine check_parallel (declareLibrary_blind library) ?_
  refine (items_blank canceled u.items).next fun _ => get_parallel fun σ τ same => ?_
  rw [program_same same]
  exact (lift_parallel (.rfl _)).next fun p => setProgram_blind p

end Lower

/-- Units of the same words are lowered to the same program, or with the same failure. -/
theorem Lowered.result_same {u u' : CompUnit} (same : u.blank = u'.blank)
    (withLibrary canceled : Bool) :
    Outcome.Same Eq (Lowered.ofUnit u withLibrary canceled).result
      (Lowered.ofUnit u' withLibrary canceled).result := by
  have ends := ((Lower.unit_blank withLibrary canceled u).trans
    (same ▸ (Lower.unit_blank withLibrary canceled u').symm)) {} {} rfl
  unfold ofUnit
  generalize Lower.unit withLibrary canceled u {} = x,
    Lower.unit withLibrary canceled u' {} = y at ends
  cases ends with
  | ok related states => exact .ok (Lower.program_same states)
  | error related states => exact .error related

end SysY

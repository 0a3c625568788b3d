import SysY.Proofs.Lower.Unit

/-! # The moments of lowering

Lowering a unit works on one part of it after the other: an item, a statement, an expression, and so
on. `Leads part σ part' σ'` says that lowering `part` from state `σ` gets to `part'` in state `σ'`;
what is done before `part'` is written out in each case. The moments of lowering are the states in
which it begins or ends a part. The invariant holds at all of them. -/

namespace SysY.Lower

open Koopa (ValueId BlockId FnId Avail ValueDef)
open Source (Span)

/-! ## Parts -/

/-- What lowering works on. -/
inductive Part where
  | items (is : List Item)
  | stmts (ss : List Stmt)
  | stmt (s : Stmt)
  /-- Local definitions. -/
  | defs (isConst : Bool) (ds : List Def)
  /-- The elements of a brace initializer, and the values of those before them. -/
  | elements (ps : List Const.Placement) (out : List (Option ValueId))
  | expr (e : Expr)
  | walk (e : Expr) (p : Place)
  | subscript (p : Place) (idx : Expr)
  | args (es : List Expr) (ts : List Ty)

/-- Lower a part. -/
def Part.run : Part → Lower Unit
  | .items is => Lower.items false is
  | .stmts ss => Lower.stmts ss
  | .stmt s => Lower.stmt s
  | .defs isConst ds => ds.forM (if isConst then localConstant else localVariable)
  | .elements ps out => do let _ ← Const.Layout.store (fun e => some <$> Lower.expr e) ps out
  | .expr e => do let _ ← Lower.expr e
  | .walk e p => do let _ ← Lower.walk e p
  | .subscript p idx => do let _ ← Lower.subscript p idx (Lower.expr idx)
  | .args es ts => do let _ ← Lower.args es ts

/-- Whether a part belongs to the body of a function. -/
def Part.InBody : Part → Prop
  | .items _ => False
  | _ => True

/-! ## What comes before a part -/

/-- The return type of a function. -/
def returnTy (f : Fn) : Ty :=
  match f.returnType with
  | .int => .int
  | .void => .void

theorem returnTy_ok (f : Fn) : returnTy f = .int ∨ returnTy f = .void := by
  unfold returnTy
  split
  · exact .inl rfl
  · exact .inr rfl

/-- What is done for a function before its first statement. -/
def opening (f : Fn) : Lower Unit := do
  let params ← lift (f.params.mapM (Ty.ofParam (← get).symbols.globalEnv))
  let id ← header f (returnTy f) params
  bindFn f { name := f.name, span := f.nameSpan, type := returnTy f,
             meaning := .function id params (!f.isDecl) }
  modifyFrame fun _ => { fn := id, ret := returnTy f, span := f.nameSpan }
  switchTo (← newBlock)
  modify fun s => { s with symbols := s.symbols.push .function }
  spillParams f.params params (← lift ((← get).program.fn id)).params

/-- What is done for a variable before its initializer. -/
def allotting (d : Def) : Lower Ty := do
  let ty ← lift (Ty.ofDef (← env) .int d)
  let t ← lift ty.toKoopa
  let slot ← emitNew (·.alloc · t)
  setName slot ("@" ++ d.name)
  return ty

/-- What is done for an assignment before the subscripts of its target. -/
def aiming (target : Expr) : Lower Place := do
  let (_, named) ← asPlace target "expression is not assignable"
  let s ← findObject named.name named.nameSpan
  match s.meaning with
  | .constant .. => raise (.illegalAssignment named.nameSpan named.name)
  | _ => pure ()
  startPlace target

/-- What is done for a conditional without `else` before its arm. -/
def testing (cond : Expr) : Lower Unit := do
  let reachable ← isOpen
  let c ← expr cond
  let thenBlock ← newBlock
  let join ← newBlock
  sealOff (← make (·.branch · c thenBlock join))
  if reachable then switchTo thenBlock

/-- What is done for a conditional with `else` before both arms: where they begin, where they meet,
and whether they are reachable. -/
def forking (cond : Expr) : Lower (BlockId × BlockId × BlockId × Bool) := do
  let reachable ← isOpen
  let c ← expr cond
  let thenBlock ← newBlock
  let elseBlock ← newBlock
  let join ← newBlock
  sealOff (← make (·.branch · c thenBlock elseBlock))
  return (thenBlock, elseBlock, join, reachable)

/-- What is done for a loop before its condition: its three blocks. -/
def looping : Lower (BlockId × BlockId × BlockId) := do
  let condBlock ← newBlock
  let bodyBlock ← newBlock
  let done ← newBlock
  sealTo (← make (·.jump · condBlock)) condBlock
  return (condBlock, bodyBlock, done)

/-- What is done for a loop before its body. -/
def repeating (cond : Expr) : Lower Unit := do
  let reachable ← isOpen
  let (condBlock, bodyBlock, done) ← looping
  let c ← expr cond
  sealOff (← make (·.branch · c bodyBlock done))
  if reachable then switchTo bodyBlock
  modifyFrame (·.pushLoop ⟨condBlock, done⟩)

/-- What is done for a logical operator before its left operand. -/
def presetting (isOr : Bool) : Lower Unit := do
  let slot ← emitNew (·.alloc · .i32)
  let short ← integer (if isOr then 1 else 0)
  let _ ← tryEmitNew (·.store · short slot)

/-- What is done for a logical operator before its right operand. -/
def deciding (isOr : Bool) (left : Lower ValueId) : Lower Unit := do
  presetting isOr
  let a ← left
  let nought ← integer 0
  let cond ← emitNew (·.binary · (if isOr then .eq else .ne) a nought)
  let rhs ← newBlock
  let join ← newBlock
  sealTo (← make (·.branch · cond rhs join)) rhs

/-- An expression whose instructions are needed. -/
def Runtime (σ : State) (e : Expr) : Prop := Const.eval σ.symbols.env e = .error .notConstant

/-- A call of a function with as many arguments as it has parameters. -/
def Calls (σ : State) (name : String) (as : List Expr) (params : List Ty) : Prop :=
  ∃ s fn defined, σ.symbols.find? name = some s ∧ s.meaning = .function fn params defined ∧
    as.length = params.length

/-- Lowering one part leads to another one inside of it. -/
inductive Leads : Part → State → Part → State → Prop
  | body {span blockSpan f ss is σ σ'} : f.body = some (.block blockSpan ss) →
      opening f σ = .ok () σ' → Leads (.items (.fn span f :: is)) σ (.stmts ss) σ'
  | nextItem {i is σ σ'} : item i σ = .ok () σ' → Leads (.items (i :: is)) σ (.items is) σ'
  | firstStmt {s ss σ} : Leads (.stmts (s :: ss)) σ (.stmt s) σ
  | nextStmts {s ss σ σ'} : stmt s σ = .ok () σ' → Leads (.stmts (s :: ss)) σ (.stmts ss) σ'
  | block {span ss σ} : Leads (.stmt (.block span ss)) σ (.stmts ss)
      { σ with symbols := σ.symbols.push .block }
  | decl {span d σ} : d.type = .int →
      Leads (.stmt (.decl span (some d))) σ (.defs d.isConst d.defs) σ
  | scalarInit {d ds span e ty σ σ'} : d.init = some (.expr span e) → allotting d σ = .ok ty σ' →
      ty.isScalar = true → Leads (.defs false (d :: ds)) σ (.expr e) σ'
  | arrayInit {d ds init ty l size σ σ'} : d.init = some init → allotting d σ = .ok ty σ' →
      ty.isScalar = false → Const.Layout.ofArray ty.dims init = .ok (l, size) →
      Leads (.defs false (d :: ds)) σ (.elements l.placements (List.replicate size none)) σ'
  | nextConst {d ds σ σ'} : localConstant d σ = .ok () σ' →
      Leads (.defs true (d :: ds)) σ (.defs true ds) σ'
  | nextVar {d ds σ σ'} : localVariable d σ = .ok () σ' →
      Leads (.defs false (d :: ds)) σ (.defs false ds) σ'
  | firstElement {p ps out σ} : Leads (.elements (p :: ps) out) σ (.expr p.value) σ
  | nextElements {p ps out v σ σ'} : expr p.value σ = .ok v σ' →
      0 ≤ p.position ∧ p.position < out.length →
      Leads (.elements (p :: ps) out) σ (.elements ps (out.set p.position.toNat (some v))) σ'
  | target {span target value p σ σ'} : aiming target σ = .ok p σ' →
      Leads (.stmt (.assign span target value)) σ (.walk target p) σ'
  | value {span target value p σ σ'} : (do walk target (← aiming target)) σ = .ok p σ' →
      p.type.isScalar = true → Leads (.stmt (.assign span target value)) σ (.expr value) σ'
  | effectCall {span e s name ns as params σ} : e.stripGroups = .call s name ns as →
      Calls σ name as params → Leads (.stmt (.expr span (some e))) σ (.args as params) σ
  | effect {span e σ} : (∀ s name ns as, e.stripGroups ≠ .call s name ns as) →
      Leads (.stmt (.expr span (some e))) σ (.expr e) σ
  | condition {span cond thenArm elseArm σ} :
      Leads (.stmt (.ifThen span cond thenArm elseArm)) σ (.expr cond) σ
  | onlyArm {span cond thenArm σ σ'} : testing cond σ = .ok () σ' →
      Leads (.stmt (.ifThen span cond thenArm none)) σ (.stmt thenArm) σ'
  | thenArm {span cond thenArm elseArm σ σ'} :
      (do
        let (thenBlock, _, _, reachable) ← forking cond
        if reachable then switchTo thenBlock) σ = .ok () σ' →
      Leads (.stmt (.ifThen span cond thenArm (some elseArm))) σ (.stmt thenArm) σ'
  | elseArm {span cond thenArm elseArm σ σ'} :
      (do
        let (thenBlock, elseBlock, join, reachable) ← forking cond
        let _ ← arm reachable thenBlock join (stmt thenArm)
        if reachable then switchTo elseBlock) σ = .ok () σ' →
      Leads (.stmt (.ifThen span cond thenArm (some elseArm))) σ (.stmt elseArm) σ'
  | loopCondition {span cond body blocks σ σ'} : looping σ = .ok blocks σ' →
      Leads (.stmt (.while span cond body)) σ (.expr cond) σ'
  | loopBody {span cond body σ σ'} : repeating cond σ = .ok () σ' →
      Leads (.stmt (.while span cond body)) σ (.stmt body) σ'
  | returned {span e σ} : σ.frame.ret ≠ .void →
      Leads (.stmt (.return span (some e))) σ (.expr e) σ
  | group {span inner σ} : Runtime σ (.group span inner) →
      Leads (.expr (.group span inner)) σ (.expr inner) σ
  | place {span target idx p σ σ'} : Runtime σ (.index span target idx) →
      startPlace (.index span target idx) σ = .ok p σ' →
      Leads (.expr (.index span target idx)) σ (.walk target p) σ'
  | lastSubscript {span target idx p σ σ'} : Runtime σ (.index span target idx) →
      (do walk target (← startPlace (.index span target idx))) σ = .ok p σ' →
      Leads (.expr (.index span target idx)) σ (.subscript p idx) σ'
  | operand {span op e σ} : Runtime σ (.unary span op e) →
      Leads (.expr (.unary span op e)) σ (.expr e) σ
  | decisive {span op l r σ σ'} : Runtime σ (.binary span op l r) → op.isShortCircuit = true →
      presetting (op == .logicalOr) σ = .ok () σ' →
      Leads (.expr (.binary span op l r)) σ (.expr l) σ'
  | undecided {span op l r σ σ'} : Runtime σ (.binary span op l r) → op.isShortCircuit = true →
      deciding (op == .logicalOr) (expr l) σ = .ok () σ' →
      Leads (.expr (.binary span op l r)) σ (.expr r) σ'
  | left {span op l r σ} : Runtime σ (.binary span op l r) → op.isShortCircuit = false →
      Leads (.expr (.binary span op l r)) σ (.expr l) σ
  | right {span op l r v σ σ'} : Runtime σ (.binary span op l r) → op.isShortCircuit = false →
      expr l σ = .ok v σ' → Leads (.expr (.binary span op l r)) σ (.expr r) σ'
  | call {span name ns as params σ} : Runtime σ (.call span name ns as) → Calls σ name as params →
      Leads (.expr (.call span name ns as)) σ (.args as params) σ
  | walkGroup {span inner p σ} : Leads (.walk (.group span inner) p) σ (.walk inner p) σ
  | walkTarget {span target idx p σ} :
      Leads (.walk (.index span target idx) p) σ (.walk target p) σ
  | walkSubscript {span target idx p q σ σ'} : walk target p σ = .ok q σ' →
      Leads (.walk (.index span target idx) p) σ (.subscript q idx) σ'
  | arrayIndex {p idx ds σ} : p.type = .array ds → Leads (.subscript p idx) σ (.expr idx) σ
  | pointerIndex {p idx ds base σ σ'} : p.type = .pointer ds →
      tryEmitNew (·.load · (p.addr.getD 0)) σ = .ok base σ' →
      Leads (.subscript p idx) σ (.expr idx) σ'
  | arrayArg {e es ds ts p σ σ'} : startPlace e σ = .ok p σ' →
      Leads (.args (e :: es) (.pointer ds :: ts)) σ (.walk e p) σ'
  | numberArg {e es t ts σ} : (∀ ds, t ≠ .pointer ds) →
      Leads (.args (e :: es) (t :: ts)) σ (.expr e) σ
  | nextArgs {e es t ts v σ σ'} :
      (match t with
        | .pointer _ => arrayArg e t (walk e)
        | _ => expr e : Lower ValueId) σ = .ok v σ' →
      Leads (.args (e :: es) (t :: ts)) σ (.args es ts) σ'

/-- Lowering a unit gets to a part in a state. -/
inductive Reached (withLibrary : Bool) (u : CompUnit) : Part → State → Prop
  | start {σ} : (if withLibrary then declareLibrary library else pure ()) {} = .ok () σ →
      Reached withLibrary u (.items u.items) σ
  | step {part part' σ σ'} : Reached withLibrary u part σ → Leads part σ part' σ' →
      Reached withLibrary u part' σ'

/-- A moment of lowering the body of a function: a part of it begins or ends. -/
inductive Moment (withLibrary : Bool) (u : CompUnit) : State → Prop
  | begins {part σ} : Reached withLibrary u part σ → part.InBody → Moment withLibrary u σ
  | ends {part σ σ'} : Reached withLibrary u part σ → part.InBody → part.run σ = .ok () σ' →
      Moment withLibrary u σ'

/-! ## The invariant at a part -/

/-- Nothing is missing from the part of the tree. -/
def Part.Whole : Part → Prop
  | .items is => ∀ i ∈ is, i.Whole
  | .stmts ss => Stmt.AllWhole ss
  | .stmt s => s.Whole
  | .defs _ ds => ∀ d ∈ ds, d.Whole
  | .elements ps _ => ∀ p ∈ ps, p.value.Whole
  | .expr e => e.Whole
  | .walk e _ => e.Whole
  | .subscript _ idx => idx.Whole
  | .args es ts => Expr.AllWhole es ∧ ParamTys ts ∧ ts.length = es.length

/-- The values that a part works with can be read. -/
def Part.Reads (avail : Avail) (σ : State) : Part → Prop
  | .elements _ out => ElemsOk avail σ out
  | .walk _ p | .subscript p _ => PlaceOk avail σ p
  | _ => True

/-- What holds when a part begins. -/
inductive Part.Holds (σ : State) : Part → Prop
  | top {is avail} : (∀ i ∈ is, i.Whole) → Top avail σ → Holds σ (.items is)
  | body {part c avail} : part.InBody → part.Whole → 0 < c.depth → Inv c avail σ →
      part.Reads avail σ → Holds σ part

section Holds

variable {c : Site} {avail avail₀ : Avail} {σ σ₀ σ' : State} {part part' : Part}

theorem Part.Holds.inBody (holds : part.Holds σ) (isBody : part.InBody) :
    part.Whole ∧ ∃ c avail, 0 < c.depth ∧ Inv c avail σ ∧ part.Reads avail σ := by
  cases holds with
  | top => exact isBody.elim
  | body _ whole depth inv reads => exact ⟨whole, _, _, depth, inv, reads⟩

/-! ### What comes before a part keeps the invariant -/

theorem allotting_runs {d : Def} (inv : Inv c avail σ) :
    Runs .expr c avail σ (allotting d) fun _ _ _ => True := by
  have env : Lower.env σ = .ok σ.symbols.env σ := rfl
  refine Ends.of_eq (bind_ok env) (Runs.lift inv (Ty.ofDef_plain _ _ _).expected fun ty type => ?_)
  rw [Ty.toKoopa_eq (Ty.ofDef_solid type).1]
  refine Runs.lift inv (Outcome.expected_ok _) ?_
  rintro _ ⟨⟩
  refine Runs.bind inv (alloc_runs inv ty.koopa) ?_
  intro slot avail₁ σ₁ inv₁ _ placed
  refine Runs.bind inv₁ (setName_runs inv₁ (placed.operand (by simp)).sees (head_at d.name)) ?_
  intro _ avail₂ σ₂ inv₂ _ _
  exact Runs.pure inv₂ trivial

theorem aiming_runs {target : Expr} (inv : Inv c avail σ) :
    Runs .expr c avail σ (aiming target) fun p avail' σ' => PlaceOk avail' σ' p := by
  unfold aiming
  refine Runs.bind inv (asPlace_runs inv target _) ?_
  rintro ⟨span, named⟩ avail₁ σ₁ - - ⟨rfl, rfl, -, -⟩
  refine Runs.bind inv (findObject_runs inv named.name named.nameSpan) ?_
  rintro s avail₂ σ₂ - - ⟨rfl, rfl, -, -⟩
  have start : Runs .expr c avail₂ σ₂ (startPlace target) fun p avail' σ' => PlaceOk avail' σ' p :=
    (startPlace_runs inv target).mono fun _ _ _ _ _ h => h.1
  split
  · exact Ends.of_eq (n := raise (.illegalAssignment named.nameSpan named.name)) (by rfl)
      (Runs.raise inv .illegalAssignment rfl (by decide))
  · exact start

/-- The subscripts of a place are applied from where it starts. -/
theorem walkFrom_runs {e : Expr} {start : Lower Place} (whole : e.Whole) (inv : Inv c avail σ)
    (starts : Runs .expr c avail σ start fun p avail' σ' => PlaceOk avail' σ' p) :
    Runs .expr c avail σ (do walk e (← start)) fun p avail' σ' => PlaceOk avail' σ' p :=
  Runs.bind inv starts fun _ _ _ inv₁ _ ok =>
    (walk_runs e whole inv₁ ok).mono fun _ _ _ _ _ walked => walked.1

theorem testing_ends {cond : Expr} (whole : cond.Whole) (inv : Inv c avail σ) :
    Ends (At c) (testing cond) σ fun _ σ' => ∃ avail', Inv c avail' σ' := by
  have first : isOpen σ = .ok σ.frame.isOpen σ := rfl
  unfold testing
  refine Ends.of_eq (bind_ok first) (Ends.bind ((expr_computes cond whole).runs inv) ?_)
  rintro v σ₀ ⟨avail₀, inv₀, evo₀, vOk⟩
  rw [← evo₀.keeps.2]
  refine Ends.bind (newBlock_waits inv₀) ?_
  rintro thenBlock σ₁ ⟨avail₁, waits⟩
  refine Ends.bind (waits.fork inv₀) ?_
  rintro join σ₂ ⟨avail₂, fork⟩
  have branched := fork.branched inv₀ (vOk.evo fork.since)
  refine Ends.of_eq ((bind_ok (make_eq rfl)).trans (bind_ok (sealOff_made fork.inv.takes _))) ?_
  refine Ends.mono (switch_runs inv₀ branched.inv branched.since branched.first fork.firstNew
    fun open₀ => ⟨open₀, branched.reaches open₀ _ (by simp)⟩) ?_
  rintro _ σ₃ ⟨avail₃, inv₃, -⟩
  exact ⟨avail₃, inv₃⟩

/-- What is known when both arms of a conditional are to come. The blocks were made at the moment
`σ₀`, and the branch to the arms comes after `σ`. -/
structure Forked (c : Site) (avail₀ : Avail) (σ₀ : State) (avail : Avail) (σ σ' : State)
    (thenBlock elseBlock join : BlockId) : Prop where
  start : Inv c avail₀ σ₀
  arms : Fork c avail₀ σ₀ avail σ thenBlock elseBlock
  thenJoin : Fork c avail₀ σ₀ avail σ thenBlock join
  branched : Branched c avail₀ σ₀ avail σ σ' thenBlock elseBlock

theorem forking_ends {cond : Expr} (whole : cond.Whole) (inv : Inv c avail σ) :
    Ends (At c) (forking cond) σ fun r σ' => ∃ avail₀ σ₀ avail' σ₁,
      r.2.2.2 = σ₀.frame.isOpen ∧ Forked c avail₀ σ₀ avail' σ₁ σ' r.1 r.2.1 r.2.2.1 := by
  have first : isOpen σ = .ok σ.frame.isOpen σ := rfl
  unfold forking
  refine Ends.of_eq (bind_ok first) (Ends.bind ((expr_computes cond whole).runs inv) ?_)
  rintro v σ₀ ⟨avail₀, inv₀, evo₀, vOk⟩
  rw [← evo₀.keeps.2]
  refine Ends.bind (newBlock_waits inv₀) ?_
  rintro thenBlock σ₁ ⟨avail₁, waits⟩
  refine Ends.bind (waits.fork inv₀) ?_
  rintro elseBlock σ₂ ⟨avail₂, arms⟩
  refine Ends.bind (arms.more inv₀) ?_
  rintro join σ₃ ⟨avail₃, arms, thenJoin, -⟩
  refine Ends.of_eq ((bind_ok (make_eq rfl)).trans (bind_ok (sealOff_made arms.inv.takes _))) ?_
  exact .pure _ ⟨avail₀, σ₀, avail₃, σ₃, rfl, inv₀, arms, thenJoin,
    arms.branched inv₀ (vOk.evo arms.since)⟩

theorem thenArm_ends {cond : Expr} (whole : cond.Whole) (inv : Inv c avail σ) :
    Ends (At c) (do
      let (thenBlock, _, _, reachable) ← forking cond
      if reachable then switchTo thenBlock) σ fun _ σ' => ∃ avail', Inv c avail' σ' := by
  refine Ends.bind (forking_ends whole inv) ?_
  rintro ⟨thenBlock, elseBlock, join, _⟩ σ₂ ⟨avail₀, σ₀, avail₁, σ₁, rfl, forked⟩
  have branched := forked.branched
  refine Ends.mono (switch_runs forked.start branched.inv branched.since branched.first
    forked.arms.firstNew fun open₀ => ⟨open₀, branched.reaches open₀ _ (by simp)⟩) ?_
  rintro _ σ₃ ⟨avail₃, inv₃, -⟩
  exact ⟨avail₃, inv₃⟩

theorem elseArm_ends {cond : Expr} {thenArm : Lower Unit} (whole : cond.Whole)
    (acts : Acts .stmt c thenArm) (inv : Inv c avail σ) :
    Ends (At c) (do
      let (thenBlock, elseBlock, join, reachable) ← forking cond
      let _ ← arm reachable thenBlock join thenArm
      if reachable then switchTo elseBlock) σ fun _ σ' => ∃ avail', Inv c avail' σ' := by
  refine Ends.bind (forking_ends whole inv) ?_
  rintro ⟨thenBlock, elseBlock, join, _⟩ σ₂ ⟨avail₀, σ₀, avail₁, σ₁, rfl, forked⟩
  have branched := forked.branched
  refine Ends.bind (arm_ends forked.start branched.inv branched.since branched.first
    (forked.thenJoin.last.evo forked.arms.inv branched.evo) forked.thenJoin.apart.symm
    forked.arms.firstNew (fun open₀ => branched.reaches open₀ _ (by simp)) acts) ?_
  rintro joined σ₃ ⟨avail₃, after⟩
  refine Ends.mono (switch_runs forked.start after.inv after.since
    (after.waiting forked.arms.apart.symm branched.last) forked.arms.lastNew fun open₀ =>
      ⟨open₀, after.still branched.since (branched.reaches open₀ _ (by simp))⟩) ?_
  rintro _ σ₄ ⟨avail₄, inv₄, -⟩
  exact ⟨avail₄, inv₄⟩

theorem looping_ends (inv₀ : Inv c avail₀ σ₀) :
    Ends (At c) looping σ₀ fun r σ' => ∃ avail', Looped c avail₀ σ₀ avail' σ' r.1 r.2.1 r.2.2 := by
  unfold looping
  refine Ends.bind (newBlock_waits inv₀) ?_
  rintro condBlock σ₁ ⟨avail₁, waits⟩
  refine Ends.bind (waits.fork inv₀) ?_
  rintro bodyBlock σ₂ ⟨avail₂, condBody⟩
  refine Ends.bind (condBody.more inv₀) ?_
  rintro done σ₃ ⟨avail₃, condBody, condDone, bodyDone⟩
  refine Ends.of_eq
    ((bind_ok (make_eq rfl)).trans (bind_ok (sealTo_made condBody.inv.takes _ condBlock))) ?_
  exact .pure _ ⟨avail₃, .entered inv₀ condBody condDone bodyDone⟩

theorem repeating_ends {cond : Expr} (whole : cond.Whole) (inv₀ : Inv c avail₀ σ₀) :
    Ends (At c) (repeating cond) σ₀ fun _ σ' => ∃ t avail', Inv (c.inLoop t) avail' σ' := by
  have first : isOpen σ₀ = .ok σ₀.frame.isOpen σ₀ := rfl
  unfold repeating
  refine Ends.of_eq (bind_ok first) (Ends.bind (looping_ends inv₀) ?_)
  rintro ⟨condBlock, bodyBlock, done⟩ σ₁ ⟨avail₁, enters⟩
  refine Ends.bind ((expr_computes cond whole).runs enters.fork.inv) ?_
  rintro v σ₂ ⟨avail₂, inv₂, evo₂, vOk⟩
  have looped := enters.evo inv₀ inv₂ evo₂
  have branched := looped.fork.branched inv₀ vOk
  refine Ends.of_eq ((bind_ok (make_eq rfl)).trans (bind_ok (sealOff_made inv₂.takes _))) ?_
  refine Ends.enter inv₀ branched.inv branched.since branched.first looped.fork.firstNew
    (fun open₀ => ⟨open₀, branched.reaches open₀ _ (by simp)⟩) fun {σ₃} entered => ?_
  exact Ends.of_ok rfl ⟨⟨condBlock, done⟩, avail₂,
    entered.looping (looped.marked.evo inv₂ branched.evo) branched.last.marked⟩

theorem presetting_runs {isOr : Bool} (inv : Inv c avail σ) :
    Runs .expr c avail σ (presetting isOr) fun _ _ _ => True := by
  unfold presetting
  refine Runs.bind inv (alloc_runs inv .i32) ?_
  intro slot avail₁ σ₁ inv₁ evo₁ placed
  have slotOk : Operand avail₁ σ₁ slot (.pointer .i32) := placed.operand (by simp)
  refine Runs.bind inv₁ (integer_runs inv₁ _) ?_
  intro short avail₂ σ₂ inv₂ evo₂ shortOk
  refine Runs.bind inv₂ (store_runs inv₂ shortOk (slotOk.evo evo₂)) ?_
  intro _ avail₃ σ₃ inv₃ _ _
  exact Runs.pure inv₃ trivial

theorem deciding_ends {isOr : Bool} {left : Lower ValueId} (l : Computes c left)
    (inv : Inv c avail σ) :
    Ends (At c) (deciding isOr left) σ fun _ σ' => ∃ avail', Inv c avail' σ' := by
  unfold deciding
  refine Ends.bind (presetting_runs inv) ?_
  rintro _ σ₁ ⟨avail₁, inv₁, -, -⟩
  refine Ends.bind (l.runs inv₁) ?_
  rintro a σ₂ ⟨avail₂, inv₂, -, aOk⟩
  refine Ends.bind (integer_runs (k := .expr) inv₂ 0) ?_
  rintro nought σ₃ ⟨avail₃, inv₃, evo₃, noughtOk⟩
  refine Ends.bind (binary_runs (k := .expr) inv₃ _ (aOk.evo evo₃) noughtOk) ?_
  rintro cond σ₀ ⟨avail₀, inv₀, -, condOk⟩
  refine Ends.bind (newBlock_waits inv₀) ?_
  rintro rhs σ₁ ⟨avail₁, waits⟩
  refine Ends.bind (waits.fork inv₀) ?_
  rintro join σ₂ ⟨avail₂, fork⟩
  exact Ends.of_ok ((bind_ok (make_eq rfl)).trans (sealTo_made fork.inv.takes _ rhs))
    ⟨avail₂, (fork.taken inv₀ (condOk.evo fork.since)).1⟩

theorem opening_safe {f : Fn} (isDef : f.isDecl = false) (top : Top avail σ) :
    Safe (opening f) σ fun _ σ' => ∃ c avail', 0 < c.depth ∧ Inv c avail' σ' := by
  have retOk := returnTy_ok f
  unfold opening
  refine Ends.of_eq (get_bind _ σ) ?_
  refine Ends.bind (Q := fun params σ' => ParamTys params ∧ σ' = σ) (Ends.lift trivial
    (Outcome.plain_mapM (Ty.ofParam_plain _) _).expected fun ts hts => ⟨paramTys_of_mapM hts, rfl⟩) ?_
  rintro params σ ⟨paramsOk, rfl⟩
  refine (header_safe paramsOk retOk top).bind fun id σ₁ heads => ?_
  refine (bindFn_safe paramsOk retOk top heads).bind ?_
  rintro _ σ₂ ⟨top₂, -, ready⟩
  obtain ⟨d, found, -, empty, isRet, paramTys⟩ := (ready isDef).fn
  have fresh := (top₂.program.fns found).fresh_block
  have inv := (top₂.entered found empty isRet retOk f.nameSpan).pushed .function
  have first : newBlock (σ₂.framed id (returnTy f) f.nameSpan) = .ok (σ₂.program.blocks.size + 1)
      ((σ₂.framed id (returnTy f) f.nameSpan).withBlock d) :=
    newBlock_eq (σ := σ₂.framed id (returnTy f) f.nameSpan) found fresh
  have found' : (σ₂.entered id (returnTy f) f.nameSpan d).program.fn? id =
      some (d.extend (σ₂.program.blocks.size + 1)) :=
    Koopa.Program.fn?_withBlock_self found _
  have fn : (lift ((σ₂.entered id (returnTy f) f.nameSpan d).program.fn id) : Lower Koopa.Fn)
      ((σ₂.entered id (returnTy f) f.nameSpan d).pushed .function) =
        .ok (d.extend (σ₂.program.blocks.size + 1))
          ((σ₂.entered id (returnTy f) f.nameSpan d).pushed .function) := by
    rw [Koopa.Program.fn_eq_ok.mpr found']
    rfl
  refine Ends.of_eq (bind_ok (modifyFrame_eq _ σ₂)) (.of_eq (bind_ok first)
    (.of_eq (bind_ok (modifyFrame_eq _ _)) (.of_eq (bind_ok rfl) ?_)))
  refine Ends.of_eq (bind_ok rfl) (.of_eq (bind_ok fn) ?_)
  refine (Ends.safe (spillParams_runs (Nat.succ_pos _) paramsOk inv
    (params_of_fnOk (inv.program.fns found') paramTys))).mono ?_
  rintro _ σ₃ ⟨avail₃, inv₃, -, -⟩
  exact ⟨_, avail₃, Nat.succ_pos _, inv₃⟩

/-! ### One step -/

theorem Leads.of_items {is : List Item} (leads : Leads (.items is) σ part' σ')
    (holds : Part.Holds σ (.items is)) : part'.Holds σ' := by
  obtain ⟨whole, avail, top⟩ : (∀ i ∈ is, i.Whole) ∧ ∃ avail, Top avail σ := by
    cases holds with
    | top whole top => exact ⟨whole, _, top⟩
    | body isBody => exact isBody.elim
  cases leads with
  | @body span blockSpan f ss is _ _ isBody opened =>
    have fnWhole : f.Whole := whole (.fn span f) (by simp)
    obtain ⟨_, _, ⟨⟩, ssWhole⟩ := fnWhole.body _ (by rw [isBody]; rfl)
    have isDef : f.isDecl = false := by
      rw [Fn.isDecl, isBody]
      rfl
    obtain ⟨c, avail', depth, inv⟩ := (opening_safe isDef top).ok opened
    exact .body trivial ssWhole depth inv trivial
  | nextItem done =>
    obtain ⟨avail', top', -⟩ := (item_safe (whole _ (by simp)) top).ok done
    exact .top (fun i hi => whole i (by simp [hi])) top'

theorem Leads.of_stmts {ss : List Stmt} (leads : Leads (.stmts ss) σ part' σ')
    (holds : Part.Holds σ (.stmts ss)) : part'.Holds σ' := by
  obtain ⟨whole, c, avail, depth, inv, -⟩ := holds.inBody trivial
  cases leads with
  | firstStmt => exact .body trivial whole.1 depth inv trivial
  | nextStmts done =>
    obtain ⟨avail', inv', -⟩ := ((stmt_acts _ whole.1 depth).item.runs inv).ok done
    exact .body trivial whole.2 depth inv' trivial

/-- The arguments of a call fit the parameters of the function. -/
theorem Inv.calls (inv : Inv c avail σ) {name : String} {as : List Expr} {params : List Ty}
    (calls : Calls σ name as params) : ParamTys params ∧ params.length = as.length := by
  obtain ⟨s, fn, defined, found, meaning, length⟩ := calls
  have ok := inv.symbol found
  rw [Symbol.Ok, meaning] at ok
  exact ⟨ok.2.1, length.symm⟩

/-- The condition of a conditional and its arms. -/
theorem ifThen_whole {span : Span} {cond : Expr} {thenArm : Stmt} {elseArm : Option Stmt}
    (whole : (Stmt.ifThen span cond thenArm elseArm).Whole) :
    cond.Whole ∧ thenArm.Whole ∧ thenArm.isDecl = false ∧ ∀ s ∈ elseArm, s.Whole := by
  cases elseArm with
  | none => exact ⟨whole.1, whole.2.1, whole.2.2, by simp⟩
  | some other =>
    refine ⟨whole.1, whole.2.1.1, whole.2.1.2, ?_⟩
    rintro _ ⟨⟩
    exact whole.2.2.1

theorem Leads.of_stmt {s : Stmt} (leads : Leads (.stmt s) σ part' σ')
    (holds : Part.Holds σ (.stmt s)) : part'.Holds σ' := by
  obtain ⟨whole, c, avail, depth, inv, -⟩ := holds.inBody trivial
  cases leads with
  | block => exact .body trivial whole (Nat.succ_pos _) (inv.pushed .block) trivial
  | decl =>
    obtain ⟨d, ⟨⟩, dWhole⟩ := whole
    exact .body trivial dWhole.defs depth inv trivial
  | target aimed =>
    obtain ⟨avail', inv', -, ok⟩ := (aiming_runs inv).ok aimed
    exact .body trivial whole.1 depth inv' ok
  | value walked =>
    obtain ⟨avail', inv', -⟩ := (walkFrom_runs whole.1 inv (aiming_runs inv)).ok walked
    exact .body trivial whole.2 depth inv' trivial
  | effectCall isCall calls =>
    have inner := stripGroups_whole (whole _ rfl)
    rw [isCall] at inner
    obtain ⟨paramsOk, length⟩ := inv.calls calls
    exact .body trivial ⟨inner, paramsOk, length⟩ depth inv trivial
  | effect => exact .body trivial (whole _ rfl) depth inv trivial
  | condition => exact .body trivial (ifThen_whole whole).1 depth inv trivial
  | onlyArm tested =>
    obtain ⟨condWhole, thenWhole, -⟩ := ifThen_whole whole
    obtain ⟨avail', inv'⟩ := (testing_ends condWhole inv).ok tested
    exact .body trivial thenWhole depth inv' trivial
  | thenArm reached =>
    obtain ⟨condWhole, thenWhole, -⟩ := ifThen_whole whole
    obtain ⟨avail', inv'⟩ := (thenArm_ends condWhole inv).ok reached
    exact .body trivial thenWhole depth inv' trivial
  | elseArm reached =>
    obtain ⟨condWhole, thenWhole, plain, elseWhole⟩ := ifThen_whole whole
    have acts := stmt_acts _ thenWhole depth
    rw [kindOf, plain] at acts
    obtain ⟨avail', inv'⟩ := (elseArm_ends condWhole acts inv).ok reached
    exact .body trivial (elseWhole _ rfl) depth inv' trivial
  | loopCondition entered =>
    obtain ⟨avail', looped⟩ := (looping_ends inv).ok entered
    exact .body trivial whole.1 depth looped.fork.inv trivial
  | loopBody entered =>
    obtain ⟨t, avail', inv'⟩ := (repeating_ends whole.1 inv).ok entered
    exact .body (c := c.inLoop t) trivial whole.2.1 depth inv' trivial
  | returned => exact .body trivial (whole _ rfl) depth inv trivial

theorem Leads.of_defs {isConst : Bool} {ds : List Def} (leads : Leads (.defs isConst ds) σ part' σ')
    (holds : Part.Holds σ (.defs isConst ds)) : part'.Holds σ' := by
  obtain ⟨whole, c, avail, depth, inv, -⟩ := holds.inBody trivial
  cases leads with
  | scalarInit isInit allotted =>
    obtain ⟨avail', inv', -⟩ := (allotting_runs inv).ok allotted
    have initWhole := (whole _ (by simp)).init _ isInit
    exact .body trivial initWhole depth inv' trivial
  | arrayInit isInit allotted notScalar laidOut =>
    obtain ⟨avail', inv', -⟩ := (allotting_runs inv).ok allotted
    have initWhole := (whole _ (by simp)).init _ isInit
    refine .body trivial (Const.Layout.ofArray_whole initWhole laidOut) depth inv' ?_
    intro v hv
    cases List.eq_of_mem_replicate hv
  | nextConst done =>
    obtain ⟨avail', inv', -⟩ := (localConstant_runs depth inv).ok done
    exact .body trivial (fun d hd => whole d (by simp [hd])) depth inv' trivial
  | nextVar done =>
    obtain ⟨avail', inv', -⟩ := (localVariable_runs (whole _ (by simp)) depth inv).ok done
    exact .body trivial (fun d hd => whole d (by simp [hd])) depth inv' trivial

theorem Leads.of_elements {ps : List Const.Placement} {out : List (Option ValueId)}
    (leads : Leads (.elements ps out) σ part' σ') (holds : Part.Holds σ (.elements ps out)) :
    part'.Holds σ' := by
  obtain ⟨whole, c, avail, depth, inv, reads⟩ := holds.inBody trivial
  cases leads with
  | firstElement => exact .body trivial (whole _ (by simp)) depth inv trivial
  | nextElements done =>
    obtain ⟨avail', inv', evo, ok⟩ := ((expr_computes _ (whole _ (by simp))).runs inv).ok done
    refine .body trivial (fun q hq => whole q (by simp [hq])) depth inv' ?_
    intro w hw
    rcases List.mem_or_eq_of_mem_set hw with old | new
    · exact (reads w old).evo evo
    · cases new
      exact ok

theorem Leads.of_expr {e : Expr} (leads : Leads (.expr e) σ part' σ')
    (holds : Part.Holds σ (.expr e)) : part'.Holds σ' := by
  obtain ⟨whole, c, avail, depth, inv, -⟩ := holds.inBody trivial
  cases leads with
  | group => exact .body trivial whole depth inv trivial
  | place _ started =>
    obtain ⟨avail', inv', -, ok, -⟩ := (startPlace_runs (k := .expr) inv _).ok started
    exact .body trivial whole.1 depth inv' ok
  | @lastSubscript span target idx _ _ _ _ walked =>
    have starts := (startPlace_runs (k := .expr) inv (.index span target idx)).mono
      fun _ _ _ _ _ started => started.1
    obtain ⟨avail', inv', -, ok⟩ := (walkFrom_runs whole.1 inv starts).ok walked
    exact .body trivial whole.2 depth inv' ok
  | operand => exact .body trivial whole.2 depth inv trivial
  | decisive _ _ preset =>
    obtain ⟨avail', inv', -⟩ := (presetting_runs inv).ok preset
    exact .body trivial whole.2.1 depth inv' trivial
  | undecided _ _ decided =>
    obtain ⟨avail', inv'⟩ := (deciding_ends (expr_computes _ whole.2.1) inv).ok decided
    exact .body trivial whole.2.2 depth inv' trivial
  | left => exact .body trivial whole.2.1 depth inv trivial
  | right _ _ done =>
    obtain ⟨avail', inv', -⟩ := ((expr_computes _ whole.2.1).runs inv).ok done
    exact .body trivial whole.2.2 depth inv' trivial
  | call _ calls =>
    obtain ⟨paramsOk, length⟩ := inv.calls calls
    exact .body trivial ⟨whole, paramsOk, length⟩ depth inv trivial

theorem Leads.of_walk {e : Expr} {p : Place} (leads : Leads (.walk e p) σ part' σ')
    (holds : Part.Holds σ (.walk e p)) : part'.Holds σ' := by
  obtain ⟨whole, c, avail, depth, inv, reads⟩ := holds.inBody trivial
  cases leads with
  | walkGroup => exact .body trivial whole depth inv reads
  | walkTarget => exact .body trivial whole.1 depth inv reads
  | walkSubscript done =>
    obtain ⟨avail', inv', -, ok, -⟩ := (walk_runs _ whole.1 inv reads).ok done
    exact .body trivial whole.2 depth inv' ok

theorem Leads.of_subscript {p : Place} {idx : Expr} (leads : Leads (.subscript p idx) σ part' σ')
    (holds : Part.Holds σ (.subscript p idx)) : part'.Holds σ' := by
  obtain ⟨whole, c, avail, depth, inv, reads⟩ := holds.inBody trivial
  cases leads with
  | arrayIndex => exact .body trivial whole depth inv trivial
  | pointerIndex type loaded =>
    obtain ⟨-, base⟩ := PlaceOk.address reads (by simp [type])
    rw [type] at base
    obtain ⟨avail', inv', -⟩ := (load_runs (k := .expr) inv base (by simp [Ty.koopa])).ok loaded
    exact .body trivial whole depth inv' trivial

theorem Leads.of_args {es : List Expr} {ts : List Ty} (leads : Leads (.args es ts) σ part' σ')
    (holds : Part.Holds σ (.args es ts)) : part'.Holds σ' := by
  obtain ⟨⟨whole, paramsOk, length⟩, c, avail, depth, inv, -⟩ := holds.inBody trivial
  cases leads with
  | arrayArg started =>
    obtain ⟨avail', inv', -, ok, -⟩ := (startPlace_runs (k := .expr) inv _).ok started
    exact .body trivial whole.1 depth inv' ok
  | numberArg => exact .body trivial whole.1 depth inv trivial
  | @nextArgs e es t ts v _ _ done =>
    have rest : Part.Whole (.args es ts) :=
      ⟨whole.2, fun u hu => paramsOk u (by simp [hu]), by simpa using length⟩
    rcases paramsOk t (by simp) with rfl | ⟨ds, rfl, bounds⟩
    · obtain ⟨avail', inv', -⟩ := ((expr_computes e whole.1).runs inv).ok done
      exact .body trivial rest depth inv' trivial
    · obtain ⟨avail', inv', -⟩ := (arrayArg_runs bounds inv
        fun inv ok => walk_runs e whole.1 inv ok).ok done
      exact .body trivial rest depth inv' trivial

/-- Where lowering gets to, the invariant holds. -/
theorem Leads.holds (leads : Leads part σ part' σ') (holds : part.Holds σ) : part'.Holds σ' := by
  cases part with
  | items is => exact leads.of_items holds
  | stmts ss => exact leads.of_stmts holds
  | stmt s => exact leads.of_stmt holds
  | defs isConst ds => exact leads.of_defs holds
  | elements ps out => exact leads.of_elements holds
  | expr e => exact leads.of_expr holds
  | walk e p => exact leads.of_walk holds
  | subscript p idx => exact leads.of_subscript holds
  | args es ts => exact leads.of_args holds

/-! ### All steps -/

theorem start_holds {withLibrary : Bool} {u : CompUnit} (whole : u.Whole)
    (h : (if withLibrary then declareLibrary library else pure ()) {} = .ok () σ) :
    Part.Holds σ (.items u.items) :=
  .top whole ((library_safe withLibrary).ok h)

theorem Reached.holds {withLibrary : Bool} {u : CompUnit} (whole : u.Whole)
    (reached : Reached withLibrary u part σ) : part.Holds σ := by
  induction reached with
  | start h => exact start_holds whole h
  | step _ leads ih => exact leads.holds ih

/-- A part of a body ends at a moment at which the invariant holds. -/
theorem Part.Holds.ends (holds : part.Holds σ) (isBody : part.InBody) :
    ∃ c, Ends (At c) part.run σ fun _ σ' => ∃ avail', Inv c avail' σ' := by
  obtain ⟨whole, c, avail, depth, inv, reads⟩ := holds.inBody isBody
  have finish : ∀ {α : Type} {k : Kind} {m : Lower α} {Q : α → Avail → State → Prop},
      Runs k c avail σ m Q → Ends (At c) m σ fun _ σ' => ∃ avail', Inv c avail' σ' :=
    fun runs => Ends.mono runs fun _ _ ⟨avail', inv', _⟩ => ⟨avail', inv'⟩
  have drop : ∀ {α : Type} {k : Kind} {m : Lower α} {Q : α → Avail → State → Prop},
      Runs k c avail σ m Q →
        Ends (At c) (do let _ ← m) σ fun _ σ' => ∃ avail', Inv c avail' σ' :=
    fun runs => Ends.bind (finish runs) fun _ _ h => .pure _ h
  refine ⟨c, ?_⟩
  cases part with
  | items is => exact isBody.elim
  | stmts ss => exact finish ((stmts_acts ss whole depth).runs inv)
  | stmt s => exact finish ((stmt_acts s whole depth).runs inv)
  | defs isConst ds => exact finish (localDefs_runs whole depth inv)
  | elements ps out => exact drop (storeLayout_runs whole inv reads)
  | expr e => exact drop ((expr_computes e whole).runs inv)
  | walk e p => exact drop (walk_runs e whole inv reads)
  | subscript p idx => exact drop (subscript_runs inv reads (expr_computes idx whole))
  | args es ts => exact drop (args_runs es whole.1 whole.2.1 whole.2.2 inv)

/-- The invariant holds at every moment of lowering. -/
theorem Moment.inv {withLibrary : Bool} {u : CompUnit} (whole : u.Whole)
    (moment : Moment withLibrary u σ) : ∃ c avail, Inv c avail σ := by
  cases moment with
  | begins reached isBody =>
    obtain ⟨-, c, avail, -, inv, -⟩ := (reached.holds whole).inBody isBody
    exact ⟨c, avail, inv⟩
  | ends reached isBody done =>
    obtain ⟨c, ends⟩ := (reached.holds whole).ends isBody
    obtain ⟨avail, inv⟩ := ends.ok done
    exact ⟨c, avail, inv⟩

end Holds

end SysY.Lower

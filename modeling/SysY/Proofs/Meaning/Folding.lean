import SysY.Proofs.Lower.Moments
import SysY.Proofs.Lower.Output
import SysY.Proofs.Meaning.Expr

/-! # Folding agrees with running

An expression that is constant is folded to a number. Its instructions, had they been made, would
have computed the same number: they call nothing, they store nothing outside the slots of their own
logical operators, and they need nothing but the tables of the constant arrays. -/

namespace SysY.Meaning

open Koopa (Val Activation Config ValueId BlockId FnId Program Avail ValueDef)
open Lower (Inv PlaceOk Computes)

/-! ## Subscripts of constants -/

/-- What all subscripts but the last one select, and what the last one selects of that. -/
theorem select_init {offset stride : Int} {dims : List Int} {is : List Int32} {i : Int32}
    {r : List Int × Int × Int}
    (h : Const.Value.select offset stride dims (is ++ [i]) = .ok (some r)) : ∃ ds o n,
      Const.Value.select offset stride dims is = .ok (some (ds, o, n)) ∧
      Const.Value.select o n ds [i] = .ok (some r) := by
  induction is generalizing offset stride dims with
  | nil => exact ⟨dims, offset, stride, by cases dims <;> rfl, h⟩
  | cons j js ih =>
    cases dims with
    | nil => cases h
    | cons d dims =>
      rw [List.cons_append, Const.Value.select] at h
      rw [Const.Value.select]
      split at h
      · cases h
      · rename_i nonzero
        rw [if_neg nonzero]
        split at h
        · cases h
        · rename_i range
          rw [if_neg range]
          exact ih h

/-- A place in a constant array, after the subscripts so far. -/
def Selects (c : Const.Value) (is : List Int32) (P : Place) : Prop :=
  ∃ ds o, Const.Value.select 0 c.data.length c.dims is = .ok (some (ds, o, ds.prod)) ∧ 0 ≤ o ∧
    Bounds ds ∧ P = .storage ds ⟨.table c.data, o⟩

theorem Selects.start {c : Const.Value} (bounds : Bounds c.dims)
    (length : (c.data.length : Int) = c.dims.prod) :
    Selects c [] (.storage c.dims ⟨.table c.data, 0⟩) := by
  refine ⟨c.dims, 0, ?_, Int.le_refl 0, bounds, rfl⟩
  rw [length]
  cases c.dims <;> rfl

/-- A subscript that selects something is one of the place. -/
theorem Selects.subscript {c : Const.Value} {is : List Int32} {P : Place} (selects : Selects c is P)
    {i : Int32} {r : List Int × Int × Int}
    (h : Const.Value.select 0 c.data.length c.dims (is ++ [i]) = .ok (some r)) :
    ∃ P', P.subscript i.toInt = some P' ∧ Selects c (is ++ [i]) P' := by
  obtain ⟨ds, o, selected, positive, bounds, rfl⟩ := selects
  have last := (Const.Value.select_snoc selected i).symm.trans h
  cases ds with
  | nil => cases last
  | cons d ds =>
    have rest := (bounds_cons.mp bounds).2
    have range : 0 ≤ i.toInt ∧ i.toInt < d := by
      by_contra outside
      rw [Const.Value.select] at last
      split at last
      · cases last
      · rw [if_pos (by omega)] at last
        cases last
    refine ⟨_, if_pos range, ds, _, (Const.Value.select_snoc selected i).trans
      (select_one bounds o range), ?_, rest, rfl⟩
    have offset := Int.mul_nonneg range.1 rest.prod_pos.le
    omega

/-- The number at a place without further subscripts. -/
theorem Selects.read {c : Const.Value} {is : List Int32} {P : Place} (selects : Selects c is P)
    {o n : Int} {v : Int32}
    (h : Const.Value.select 0 c.data.length c.dims is = .ok (some ([], o, n)))
    (head : ((c.data.drop o.toNat).take n.toNat).head? = some v) : P.read [] = some v := by
  obtain ⟨ds, o', selected, positive, -, rfl⟩ := selects
  rw [h] at selected
  cases selected
  change (if o + 0 < 0 then none else c.data[(o + 0).toNat]?) = some v
  rw [if_neg (by omega), Int.add_zero]
  simpa [List.head?_take] using head

/-! ## Constants in memory -/

variable {W : Type} {l : Loaded W} {q : Prop} {cenv : Const.Env}

/-- The constants that lowering can see are as `cenv` says, and the tables of constant arrays hold
their elements. -/
structure Constants (l : Loaded W) (cenv : Const.Env) (t : SymbolTable) (a : Point W) : Prop where
  known : a.known = []
  env : t.env = cenv
  bound : ∀ {name s v slot}, t.find? name = some s → s.meaning = .constant v slot →
    Bound l a.known a.memory a.here.regs name s (.constant v.dims v.data)

/-- A constant has as many elements as its bounds say. -/
theorem Bound.sizes {j : List Nat} {M : Memory Val} {regs : ValueId → Option Val} {name : String}
    {s : Symbol} {B : Binding} (bound : Bound l j M regs name s B) {ds : List Int}
    {data : List Int32} (isConstant : B = .constant ds data) :
    Bounds ds ∧ (data.length : Int) = ds.prod := by
  cases bound with
  | constant _ bounds length =>
    cases isConstant
    exact ⟨bounds, length⟩
  | object | array | function => cases isConstant

/-- The view of a run that only knows constants. -/
def constantView (l : Loaded W) (q : Prop) (cenv : Const.Env) : View l q Unit where
  Fits := fun t _ a => Constants l cenv t a
  memory := fun _ => []
  holds := fun fits => {
    length := by rw [fits.known]; rfl
    nodup := by rw [fits.known]; exact List.nodup_nil
    same := fun _ here => by cases here }
  rebase := fun inv first goes last known _ _ => {
    known := known.trans last.known
    env := last.env
    bound := fun found meaning => (first.bound found meaning).later goes.later goes.keeps
      fun _ slot => slot_le_size inv found slot }

/-- A name of a constant stands for that constant. -/
theorem find?_of_env {t : SymbolTable} {name : String} {s : Symbol} {v : Const.Value}
    (h : t.env name = .constant v) (found : t.find? name = some s) :
    ∃ slot, s.meaning = .constant v slot := by
  simp only [SymbolTable.env, found, Symbol.binding] at h
  split at h
  · rename_i w slot meaning
    cases h
    exact ⟨slot, meaning⟩
  · cases h

/-! ## Plain lowering -/

/-- Lower an expression without folding anything. -/
def plain : Expr → Lower ValueId := Lower.exprBy fun _ run => run ()

/-- Apply the subscripts of a place without folding anything. -/
def plainWalk : Expr → Lower.Place → Lower Lower.Place := Lower.walkBy fun _ run => run ()

theorem plain_computes {c : Lower.Site} (e : Expr) (whole : e.Whole) : Computes c (plain e) :=
  Lower.exprBy_computes ⟨fun h => h⟩ e whole

theorem plainWalk_runs {c : Lower.Site} {avail : Avail} {σ : Lower.State} {p : Lower.Place}
    (e : Expr) (whole : e.Whole) (inv : Inv c avail σ) (ok : PlaceOk avail σ p) :
    Lower.Runs .expr c avail σ (plainWalk e p) fun p' avail' σ' =>
      PlaceOk avail' σ' p' ∧ p'.symbol = p.symbol :=
  Lower.walkBy_runs ⟨fun h => h⟩ e whole inv ok

/-- What an expression is folded to. -/
def Folded (cenv : Const.Env) (e : Expr) : Unit → Int32 → Unit → Prop :=
  fun _ r _ => Const.eval cenv e = .ok r

theorem binary_of_fold {op : BinaryOp} (notLogical : op.isShortCircuit = false) {x y r : Int32}
    (folded : Const.fold op x y = .ok r) : binary op x y = some r := by
  cases op with
  | logicalAnd | logicalOr => cases notLogical
  | other => cases folded
  | div | mod =>
    rw [Const.fold] at folded
    split at folded
    · cases folded
    · rename_i nonzero
      cases folded
      exact if_neg nonzero
  | add | sub | mul | eq | ne | lt | le | gt | ge =>
    cases folded
    rfl

theorem unary_of_fold {op : UnaryOp} (known : op.Known) (x : Int32) :
    unary op x = some (Const.foldUnary op x) := by
  cases op with
  | other => cases known
  | plus | minus | not => rfl

/-- An operator that is folded is applied to its folded operands. -/
theorem both_of_eval {s : Source.Span} {op : BinaryOp} {left right : Expr}
    (notLogical : op.isShortCircuit = false) {r : Int32}
    (folded : Const.eval cenv (.binary s op left right) = .ok r) :
    Both op (Folded cenv left) (Folded cenv right) () r () := by
  rw [Const.eval] at folded
  obtain ⟨x, first, rest⟩ := Except.bind_eq_ok.mp folded
  have undecided : Const.decided? op x = none := by
    cases op <;> first | rfl | cases notLogical
  rw [undecided] at rest
  obtain ⟨y, second, result⟩ := Except.bind_eq_ok.mp rest
  exact ⟨x, (), y, first, second, binary_of_fold notLogical result⟩

/-- A logical operator is folded as it is run: the right operand only counts if the left one does not
decide. -/
theorem logical_of_eval {s : Source.Span} {op : BinaryOp} {left right : Expr}
    (isLogical : op.isShortCircuit = true) {r : Int32}
    (folded : Const.eval cenv (.binary s op left right) = .ok r) :
    Logical (op == .logicalOr) (Folded cenv left) (Folded cenv right) () r () := by
  rw [Const.eval] at folded
  obtain ⟨x, first, rest⟩ := Except.bind_eq_ok.mp folded
  refine ⟨x, (), first, ?_⟩
  cases op with
  | logicalAnd =>
    by_cases zero : x = 0
    · subst zero
      cases rest
      exact .inl ⟨rfl, rfl, rfl⟩
    · simp only [Const.decided?, if_neg zero] at rest
      obtain ⟨y, second, result⟩ := Except.bind_eq_ok.mp rest
      cases result
      exact .inr ⟨by change ¬ (x != 0) = false; simp [zero], y, second,
        by simp [zero, truth, Const.truth]⟩
  | logicalOr =>
    by_cases zero : x = 0
    · subst zero
      obtain ⟨y, second, result⟩ := Except.bind_eq_ok.mp rest
      cases result
      exact .inr ⟨by simp, y, second, by simp [truth, Const.truth]⟩
    · simp only [Const.decided?, if_neg zero] at rest
      cases rest
      exact .inl ⟨by simp [zero], rfl, rfl⟩
  | _ => cases isLogical

section Simulation

variable {callers : List (ValueId × Activation)} {c : Lower.Site} {avail : Avail}
  {σ σ' : Lower.State} {p p' : Lower.Place} {a : Point W} {v : Const.Value}

/-- A place in a constant starts with the whole constant. -/
theorem startPlace_constant {e : Expr} {named : Expr.Place} (inv : Inv c avail σ)
    (fits : Constants l cenv σ.symbols a) (isPlace : e.place? = some named)
    (isConstant : cenv named.name = .constant v)
    (lowered : Lower.startPlace e σ = .ok p σ') : σ' = σ ∧ ∃ avail', Inv c avail' σ ∧
      PlaceOk avail' σ p ∧ ∃ P, Selects v [] P ∧ Denotes l p a P := by
  obtain ⟨rfl, -, -, -, named', isPlace', found⟩ := startPlace_eq_ok inv lowered
  obtain rfl := Option.some.inj (isPlace.symm.trans isPlace')
  obtain ⟨avail', inv', -, ok, -⟩ := (Lower.startPlace_runs (k := .expr) inv e).ok lowered
  rw [← fits.env] at isConstant
  obtain ⟨slot, meaning⟩ := find?_of_env isConstant found
  have bound := fits.bound found meaning
  obtain ⟨P, place, denotes⟩ := startPlace_denotes inv lowered bound
  cases place
  obtain ⟨bounds, length⟩ := bound.sizes rfl
  exact ⟨rfl, avail', inv', ok, _, .start bounds length, denotes⟩

/-- The instructions for the subscripts of an expression lead to what the subscripts select. -/
def Walks (l : Loaded W) (q : Prop) (cenv : Const.Env) (e : Expr) : Prop :=
  ∀ ⦃callers c avail σ σ' p p' a v is r P⦄, Inv c avail σ → σ.frame.isOpen = true →
    PlaceOk avail σ p → e.place?.isSome → Const.evalIndices cenv e = .ok is →
    Const.Value.select 0 v.data.length v.dims is = .ok (some r) → Selects v [] P →
    Denotes l p a P → plainWalk e p σ = .ok p' σ' → σ'.program.Grows l.program →
    Stands l.program σ a.here → Constants l cenv σ.symbols a →
    Reaches l q callers σ a σ' fun b => Constants l cenv σ.symbols b ∧
      ∃ P, Selects v is P ∧ Denotes l p' b P

theorem index_walks {span : Source.Span} {target idx : Expr} (wholeTarget : target.Whole)
    (wholeIdx : idx.Whole) (walks : Walks l q cenv target)
    (simulates : Simulates (constantView l q cenv) (plain idx) (Folded cenv idx) (Gives l)) :
    Walks l q cenv (.index span target idx) := by
  intro callers c avail σ σ' p p' a v is r P inv isOpen ok isPlace indices selected selects denotes
    lowered grows stands fits
  rw [Const.evalIndices] at indices
  obtain ⟨js, targetIndices, indices₁⟩ := Except.bind_eq_ok.mp indices
  obtain ⟨i, folded, indices₂⟩ := Except.bind_eq_ok.mp indices₁
  cases indices₂
  obtain ⟨ds, o, n, selected₁, -⟩ := select_init selected
  rw [plainWalk, Lower.walkBy] at lowered
  obtain ⟨p₁, σ₁, lowered₁, lowered₂⟩ := bind_eq_ok.mp lowered
  obtain ⟨avail₁, inv₁, evo₁, ok₁, -⟩ := (plainWalk_runs target wholeTarget inv ok).ok lowered₁
  obtain ⟨_, -, evo₂, -⟩ :=
    (Lower.subscript_runs inv₁ ok₁ (plain_computes idx wholeIdx)).ok lowered₂
  refine (walks inv isOpen ok (by simpa [Expr.place?] using isPlace) targetIndices selected₁ selects
    denotes lowered₁ (evo₂.grows.trans grows) stands fits).bind (size_le evo₁) ?_
  rintro b goes stands₁ ⟨fits₁, P₁, selects₁, denotes₁⟩
  rw [← evo₁.keeps.1] at fits₁ ⊢
  obtain ⟨P₂, sub, selects₂⟩ := selects₁.subscript selected
  have index : Folded cenv idx () i () := folded
  refine (subscript_reaches (plain_computes idx wholeIdx) simulates inv₁
    (evo₁.keeps.2.trans isOpen) ok₁ lowered₂ grows stands₁ fits₁ denotes₁ index sub).mono ?_
  rintro b₂ ⟨fits₂, denotes₂⟩
  exact ⟨fits₂, P₂, selects₂, denotes₂⟩

/-- A constant is read after all its subscripts have been applied. -/
theorem place_simulates {e : Expr} (whole : e.Whole)
    (isPlace : (∃ s name, e = .ident s name) ∨ ∃ s t i, e = .index s t i)
    (lowers : ∀ {σ}, plain e σ = (do (← plainWalk e (← Lower.startPlace e)).read : Lower ValueId) σ)
    (walks : Walks l q cenv e) :
    Simulates (constantView l q cenv) (plain e) (Folded cenv e) (Gives l) := by
  intro c avail σ σ' u callers s r s' a inv isOpen lowered grows stands fits folded
  obtain ⟨named, v, is, o, n, place, isConstant, indices, selected, head⟩ :=
    Const.eval_place folded isPlace
  rw [lowers] at lowered
  obtain ⟨p, σ₁, lowered₁, rest₁⟩ := bind_eq_ok.mp lowered
  obtain ⟨rfl, avail₁, inv₁, ok, P, selects, denotes⟩ :=
    startPlace_constant inv fits place isConstant lowered₁
  obtain ⟨p₂, σ₂, lowered₂, rest₂⟩ := bind_eq_ok.mp rest₁
  obtain ⟨avail₂, inv₂, evo₂, ok₂, -⟩ := (plainWalk_runs e whole inv₁ ok).ok lowered₂
  obtain ⟨_, -, evo₃, -⟩ := (Lower.read_runs inv₂ ok₂).ok rest₂
  refine (walks inv₁ isOpen ok (by simp [place]) indices selected selects denotes lowered₂
    (evo₃.grows.trans grows) stands fits).bind (size_le evo₂) ?_
  rintro b goes stands₂ ⟨fits₂, P₂, selects₂, denotes₂⟩
  rw [← evo₂.keeps.1] at fits₂ ⊢
  exact read_reaches inv₂ (evo₂.keeps.2.trans isOpen) ok₂ rest₂ grows stands₂ fits₂ denotes₂
    (selects₂.read selected head)

theorem ident_walks (span : Source.Span) (name : String) : Walks l q cenv (.ident span name) := by
  intro callers c avail σ σ' p p' a v is r P inv isOpen ok isPlace indices selected selects denotes
    lowered grows stands fits
  cases indices
  cases lowered
  exact .refl stands ⟨fits, P, selects, denotes⟩

mutual

/-- The instructions of a constant expression compute its value. -/
theorem plain_simulates : (e : Expr) → e.Whole →
    Simulates (constantView l q cenv) (plain e) (Folded cenv e) (Gives l)
  | .lit span v, _ => by
    intro c avail σ σ' u callers s r s' a inv isOpen lowered grows stands fits folded
    rw [Folded, Const.eval] at folded
    cases folded
    rw [plain, Lower.exprBy] at lowered
    exact integer_reaches lowered grows stands fits
  | .group span inner, whole => by
    intro c avail σ σ' u callers s r s' a inv isOpen lowered grows stands fits folded
    rw [Folded, Const.eval] at folded
    rw [plain, Lower.exprBy] at lowered
    exact plain_simulates inner whole inv isOpen lowered grows stands fits folded
  | .unary span op e, ⟨known, whole⟩ => by
    intro c avail σ σ' u callers s r s' a inv isOpen lowered grows stands fits folded
    rw [Folded, Const.eval] at folded
    obtain ⟨x, folded₁, rest⟩ := Except.bind_eq_ok.mp folded
    cases rest
    rw [plain, Lower.exprBy] at lowered
    obtain ⟨v, σ₁, lowered₁, rest₁⟩ := bind_eq_ok.mp lowered
    obtain ⟨avail₁, inv₁, evo₁, ok₁⟩ := ((plain_computes e whole).runs inv).ok lowered₁
    obtain ⟨_, -, evo₂, -⟩ := (Lower.applyUnary_runs inv₁ ok₁).ok rest₁
    have operand : Folded cenv e () x () := folded₁
    refine (plain_simulates e whole inv isOpen lowered₁ (evo₂.grows.trans grows) stands fits
      operand).bind (size_le evo₁) ?_
    rintro b goes stands₁ ⟨fits₁, gives⟩
    rw [← evo₁.keeps.1] at fits₁ ⊢
    exact applyUnary_reaches inv₁ (evo₁.keeps.2.trans isOpen) ok₁ rest₁ grows stands₁ fits₁ gives
      (unary_of_fold known x)
  | .binary span op left right, ⟨known, wholeLeft, wholeRight⟩ => by
    intro c avail σ σ' u callers s r s' a inv isOpen lowered grows stands fits folded
    rw [plain, Lower.exprBy] at lowered
    cases isLogical : op.isShortCircuit with
    | true =>
      rw [isLogical, if_pos rfl] at lowered
      exact shortCircuit_simulates (plain_computes left wholeLeft) (plain_computes right wholeRight)
        (plain_simulates left wholeLeft) (plain_simulates right wholeRight) inv isOpen lowered grows
        stands fits (logical_of_eval isLogical folded)
    | false =>
      rw [isLogical, if_neg (by simp)] at lowered
      exact applyBinary_simulates (plain_computes left wholeLeft) (plain_computes right wholeRight)
        (plain_simulates left wholeLeft) (plain_simulates right wholeRight) inv isOpen lowered grows
        stands fits (both_of_eval isLogical folded)
  | .ident span name, whole =>
    place_simulates whole (.inl ⟨span, name, rfl⟩) (by simp [plain, plainWalk, Lower.exprBy, Lower.walkBy])
      (ident_walks span name)
  | .index span target idx, ⟨wholeTarget, wholeIdx⟩ =>
    place_simulates ⟨wholeTarget, wholeIdx⟩ (.inr ⟨span, target, idx, rfl⟩)
      (by simp [plain, plainWalk, Lower.exprBy, Lower.walkBy])
      (index_walks wholeTarget wholeIdx (plain_walks target wholeTarget)
        (plain_simulates idx wholeIdx))
  | .call .., _ => by
    intro c avail σ σ' u callers s r s' a inv isOpen lowered grows stands fits folded
    rw [Folded, Const.eval] at folded
    cases folded
  | .bare .., whole => whole.elim
  | .missing _, whole => whole.elim

theorem plain_walks : (e : Expr) → e.Whole → Walks l q cenv e
  | .group span inner, whole => by
    intro callers c avail σ σ' p p' a v is r P inv isOpen ok isPlace indices selected selects denotes
      lowered grows stands fits
    rw [Const.evalIndices] at indices
    rw [plainWalk, Lower.walkBy] at lowered
    exact plain_walks inner whole inv isOpen ok isPlace indices selected selects denotes lowered
      grows stands fits
  | .index span target idx, ⟨wholeTarget, wholeIdx⟩ =>
    index_walks wholeTarget wholeIdx (plain_walks target wholeTarget) (plain_simulates idx wholeIdx)
  | .ident span name, _ => ident_walks span name
  | .lit .., _ | .unary .., _ | .binary .., _ | .call .., _ => by
    intro callers c avail σ σ' p p' a v is r P inv isOpen ok isPlace
    cases isPlace
  | .bare .., whole => whole.elim
  | .missing _, whole => whole.elim

end

/-- What is needed of memory for the constants that lowering can see: each constant array has a
number of elements that can be counted, and its table holds them. -/
theorem constants_of_tables {p : Program} {ext : External W} {here : Activation} {M : Memory Val}
    {w : W} (inv : Inv c avail σ) (grows : σ.program.Grows p)
    (sizes : ∀ {name s v slot}, σ.symbols.find? name = some s → s.meaning = .constant v slot →
      v.dims.prod < tooMany)
    (tables : ∀ {name s v g}, σ.symbols.find? name = some s → s.meaning = .constant v (some g) →
      M[p.place g]? = some (cellsOf (v.data.map some))) :
    Constants ⟨p, ext, {}, []⟩ σ.symbols.env σ.symbols ⟨[], M, here, w⟩ where
  known := rfl
  env := rfl
  bound := fun {name s v slot} found meaning => by
    have ok := inv.symbol found
    unfold Symbol.Ok at ok
    rw [meaning] at ok
    obtain ⟨solid, object, dims, length, number, table⟩ := ok
    have bounds : Bounds v.dims := by
      rw [dims]
      cases type : s.type with
      | int => exact .nil
      | array ds =>
        rw [type] at solid
        exact solid.2
      | void | pointer =>
        rw [type] at object
        cases object
    rw [Const.count_eq bounds (sizes found meaning)] at length
    refine .constant meaning bounds length fun g hg => ?_
    subst hg
    have array : s.type ≠ .int := fun int => by cases number int
    obtain ⟨_, ⟨⟩, ⟨init, has⟩ | ⟨_, none, -⟩⟩ := table array
    · exact ⟨_, operand_global (grows.values has) _, .table (by simp) (tables found meaning)⟩
    · cases none

end Simulation

/-- At every moment of lowering, an expression that is folded there to `v` has instructions that
compute `v`. They call nothing, and all they write are objects that they made themselves. In
unreachable code there are no instructions. -/
theorem folded_runs {file : Source.File} {stop : Bool} {u : CompUnit}
    (parsed : (Parsed.ofLexed (.ofFile file) stop).result = .ok u) {withLibrary : Bool}
    {σ σ' : Lower.State} (moment : Lower.Moment withLibrary u σ) (isOpen : σ.frame.isOpen = true)
    (sizes : ∀ {name s v slot}, σ.symbols.find? name = some s → s.meaning = .constant v slot →
      v.dims.prod < tooMany)
    {e : Expr} (whole : e.Whole) {v : Int32} (folded : Const.eval σ.symbols.env e = .ok v)
    {x : ValueId} (lowered : plain e σ = .ok x σ') {p : Program} (grows : σ'.program.Grows p)
    (ext : External W) {here : Activation} (callers : List (ValueId × Activation)) {M : Memory Val}
    (w : W) (stands : Stands p σ here)
    (tables : ∀ {name s v g}, σ.symbols.find? name = some s → s.meaning = .constant v (some g) →
      M[p.place g]? = some (cellsOf (v.data.map some))) :
    ∃ here' M', p.StepsIf ext (p.Quiet M.length) (.run here callers M w) (.run here' callers M' w) ∧
      Stands p σ' here' ∧ p.operand here'.regs x = some (.int v) ∧
      ∀ o < M.length, M'[o]? = M[o]? := by
  obtain ⟨c, avail, inv⟩ := moment.inv (Parsed.whole parsed)
  obtain ⟨_, -, evo, -⟩ := ((plain_computes e whole).runs inv).ok lowered
  have constants : Constants ⟨p, ext, {}, []⟩ σ.symbols.env σ.symbols ⟨[], M, here, w⟩ :=
    constants_of_tables inv (evo.grows.trans grows) sizes tables
  have value : Folded σ.symbols.env e () v () := folded
  obtain ⟨b, goes, stands', -, gives⟩ : Reaches ⟨p, ext, {}, []⟩ True callers σ ⟨[], M, here, w⟩ σ'
      fun b => _ ∧ Gives _ x v b :=
    plain_simulates e whole inv isOpen lowered grows stands constants value
  have world : b.world = w := goes.world trivial
  have steps := goes.steps.mono (Q := p.Quiet M.length) fun quiet => quiet trivial
  rw [Point.config, Point.config, world] at steps
  exact ⟨b.here, b.memory, steps, stands', gives, fun o small => goes.later.kept small (by simp)⟩

/-! ## An example -/

/-- A source with a constant array. -/
def tabled : Source.File :=
  { id := 0
    path := "tabled.c"
    content := Bytes.ofString "const int a[2] = \x7b3, 4\x7d; int f() \x7b return 0; \x7d"
    flags := default }

/-- Its unit. -/
def tabledUnit : CompUnit := (Parsed.ofLexed (.ofFile tabled) false).result.toOption.getD default

/-- The expression `a[1] == 4 && (a[0] - 5 || 0)`. -/
def choice : Expr :=
  let element := fun i => Expr.index {} (.ident {} "a") (.lit {} i)
  .binary {} .logicalAnd (.binary {} .eq (element 1) (.lit {} 4))
    (.group {} (.binary {} .logicalOr (.binary {} .sub (element 0) (.lit {} 5)) (.lit {} 0)))

/-- What can be seen by its name is bound in a scope. -/
theorem find?_all {t : SymbolTable} {f : Symbol → Bool}
    (check : ((t.global :: t.locals).all fun sc =>
      sc.names.all fun n => (t.get? n.2).all f) = true) {name : String} {s : Symbol}
    (found : t.find? name = some s) : f s = true := by
  simp only [List.all_cons, List.all_eq_true, Bool.and_eq_true] at check
  rcases SymbolTable.find?_eq_some found with ⟨sc, mem, id, bound, here⟩ | ⟨id, bound, here⟩
  · simpa [here] using check.2 sc mem (name, id) bound
  · simpa [here] using check.1 (name, id) bound

/-- The start of the body of the second item is a moment of lowering. -/
theorem moment_of_second {u : CompUnit} {f : Lower.State → Bool} (check : (match u.items with
    | i :: .fn _ g :: _ =>
      match Lower.item i {} with
      | .ok _ σ =>
        match g.body, Lower.opening g σ with
        | some (.block ..), .ok _ σ => f σ
        | _, _ => false
      | .error .. => false
    | _ => false) = true) : ∃ σ, Lower.Moment false u σ ∧ f σ = true := by
  split at check
  · rename_i i span g is items
    split at check
    · rename_i σ first
      split at check
      · rename_i isBody opened
        have start : Lower.Reached false u (.items u.items) {} := .start rfl
        rw [items] at start
        exact ⟨_, .begins (.step (.step start (.nextItem first)) (.body isBody opened)) trivial, check⟩
      · cases check
    · cases check
  · cases check

/-- Lowering is where the machine can be, in any later program. -/
theorem stands_of_grows {c : Lower.Site} {avail : Avail} {σ : Lower.State} {p : Program}
    (inv : Inv c avail σ) (isOpen : σ.frame.isOpen = true) (grows : σ.program.Grows p) :
    ∃ here, Stands p σ here := by
  obtain ⟨d, is, found, block, -⟩ := inv.block isOpen
  obtain ⟨d', found', later⟩ := grows.fns found
  obtain ⟨rest, block'⟩ := later.insts block
  refine ⟨⟨σ.frame.fn, rest, fun _ => none⟩, rfl, d', found', ?_⟩
  rw [Lower.State.insts_eq found block]
  exact block'

/-- What the example needs at the start of the body. -/
def tabledCheck (σ : Lower.State) : Bool :=
  match plain choice σ with
  | .ok _ σ' =>
    σ.frame.isOpen && (Const.eval σ.symbols.env choice).toOption == some 1 &&
      (σ.symbols.global :: σ.symbols.locals).all fun sc => sc.names.all fun n =>
        (σ.symbols.get? n.2).all fun s =>
          match s.meaning with
          | .constant v slot => decide (v.dims.prod < tooMany) && slot.all fun g =>
            [[some (Val.int 3), some (.int 4)]][σ'.program.place g]? ==
              some (cellsOf (v.data.map some))
          | _ => true
  | .error .. => false

/-- In the example the instructions compute 1, with a table that holds the constant array. -/
theorem choice_runs : ∃ σ σ' x here here' M', Lower.Moment false tabledUnit σ ∧
    Const.eval σ.symbols.env choice = .ok 1 ∧ plain choice σ = .ok x σ' ∧
    Stands σ'.program σ here ∧
    σ'.program.StepsIf (fun (_ : Unit) _ _ => none) (σ'.program.Quiet 1)
      (.run here [] [[some (.int 3), some (.int 4)]] ()) (.run here' [] M' ()) ∧
    Stands σ'.program σ' here' ∧ σ'.program.operand here'.regs x = some (.int 1) := by
  have parsed : (Parsed.ofLexed (.ofFile tabled) false).result = .ok tabledUnit :=
    eq_ok_of_isSome (by decide +kernel)
  obtain ⟨σ, moment, check⟩ := moment_of_second (u := tabledUnit) (f := tabledCheck)
    (by decide +kernel)
  unfold tabledCheck at check
  split at check
  · rename_i x σ' lowered
    simp only [Bool.and_eq_true] at check
    obtain ⟨⟨isOpen, value⟩, symbols⟩ := check
    have whole : choice.Whole := by simp [choice, Expr.Whole, BinaryOp.Known]
    have folded : Const.eval σ.symbols.env choice = .ok 1 := by
      cases result : Const.eval σ.symbols.env choice with
      | ok v => simpa [result, Except.toOption] using value
      | error f => simp [result, Except.toOption] at value
    obtain ⟨c, avail, inv⟩ := moment.inv (Parsed.whole parsed)
    obtain ⟨_, -, evo, -⟩ := ((plain_computes choice whole).runs inv).ok lowered
    obtain ⟨here, stands⟩ := stands_of_grows inv isOpen evo.grows
    obtain ⟨here', M', steps, stands', result, -⟩ := folded_runs parsed moment isOpen
      (fun found meaning => by
        have fits := find?_all symbols found
        simp only [meaning, Bool.and_eq_true, decide_eq_true_eq] at fits
        exact fits.1)
      whole folded lowered (.refl _) (fun (_ : Unit) _ _ => none) [] () stands
      (M := [[some (.int 3), some (.int 4)]])
      (fun found meaning => by
        have fits := find?_all symbols found
        simp only [meaning, Bool.and_eq_true, Option.all_some, beq_iff_eq] at fits
        exact fits.2)
    exact ⟨σ, σ', x, here, here', M', moment, folded, lowered, stands, steps, stands', result⟩
  · cases check

end SysY.Meaning

import SysY.Proofs.Lower.Immutable
import SysY.Proofs.Meaning.Folding
import SysY.Proofs.Meaning.Load

/-! # Units have a meaning

Loading a unit that was lowered does not get stuck: what lowering computes while compiling, the
evaluator computes as well, given enough fuel. Only an array that is too large has no meaning. -/

namespace SysY.Meaning

open Const (Placement)

variable {W α β : Type} {k : Context W} {cenv : Const.Env} {env env' : Env} {s s₁ s' : State W}

/-! ## Enough fuel -/

/-- With enough fuel, a computation yields `a` and leads from `s` to `s'`. -/
def Settles (f : Nat → Run W α) (s : State W) (a : α) (s' : State W) : Prop :=
  ∃ least, ∀ n ≥ least, f n s = some (a, s')

theorem Settles.pure (a : α) (s : State W) : Settles (fun _ => (pure a : Run W α)) s a s :=
  ⟨0, fun _ _ => rfl⟩

theorem Settles.ofOption {o : Option α} {a : α} (h : o = some a) (s : State W) :
    Settles (fun _ => (ofOption o : Run W α)) s a s :=
  ⟨0, fun _ _ => ofOption_eq_some.mpr ⟨h, rfl⟩⟩

theorem Settles.bind {f : Nat → Run W α} {g : Nat → α → Run W β} {a : α} {b : β}
    (first : Settles f s a s₁) (second : Settles (fun n => g n a) s₁ b s') :
    Settles (fun n => f n >>= g n) s b s' := by
  obtain ⟨n₁, ran₁⟩ := first
  obtain ⟨n₂, ran₂⟩ := second
  refine ⟨max n₁ n₂, fun n large => bind_eq_some.mpr ⟨a, s₁, ran₁ n ?_, ran₂ n ?_⟩⟩
  · exact Nat.le_trans (Nat.le_max_left ..) large
  · exact Nat.le_trans (Nat.le_max_right ..) large

theorem Settles.map {f : Nat → Run W α} {a : α} (h : Settles f s a s') (g : α → β) :
    Settles (fun n => do return g (← f n)) s (g a) s' := h.bind (.pure (g a) s')

/-- One step costs one unit of fuel. -/
theorem Settles.step {f g : Nat → Run W α} {a : α} (h : Settles f s a s')
    (eq : ∀ n, g (n + 1) = f n) : Settles g s a s' := by
  obtain ⟨least, ran⟩ := h
  refine ⟨least + 1, fun n large => ?_⟩
  obtain ⟨n, rfl⟩ : ∃ m, n = m + 1 := ⟨n - 1, by omega⟩
  rw [eq]
  exact ran n (by omega)

/-! ## Expressions -/

/-- The place in a constant that subscripts select is found. -/
def PlaceSettles (k : Context W) (cenv : Const.Env) (env : Env) (e : Expr) : Prop :=
  ∀ ⦃q c is ds o m⦄ (s : State W), e.place? = some q → cenv q.name = .constant c →
    Const.evalIndices cenv e = .ok is →
    Const.Value.select 0 c.data.length c.dims is = .ok (some (ds, o, m)) →
    Settles (fun n => place k n env e) s (.storage ds ⟨.table c.data, o⟩) s ∧ Bounds ds ∧
      m = ds.prod ∧ 0 ≤ o

/-- An expression that is folded has a value. -/
def ExprSettles (k : Context W) (cenv : Const.Env) (env : Env) (e : Expr) : Prop :=
  ∀ ⦃v⦄ (s : State W), Const.eval cenv e = .ok v → Settles (fun n => expr k n env e) s v s

theorem identPlace_settles (knows : Knows cenv env) (span : Source.Span) (name : String) :
    PlaceSettles k cenv env (.ident span name) := by
  intro q c is ds o m s isPlace bound indices selected
  cases isPlace
  obtain ⟨found, bounds, length⟩ := knows.constant bound
  rw [Const.evalIndices] at indices
  · cases indices
    have eq : Const.Value.select 0 c.data.length c.dims [] =
        .ok (some (c.dims, 0, c.data.length)) := by
      cases c.dims <;> rfl
    rw [eq] at selected
    cases selected
    refine ⟨(Settles.ofOption (o := (env.lookup name).bind Place.ofBinding) ?_ s).step
      (fun n => by rw [place]), bounds, length, Int.le_refl 0⟩
    rw [found]
    rfl
  all_goals simp

theorem indexPlace_settles {target idx : Expr} (span : Source.Span)
    (targets : PlaceSettles k cenv env target) (indexes : ExprSettles k cenv env idx) :
    PlaceSettles k cenv env (.index span target idx) := by
  intro q c is ds o m s isPlace bound indices selected
  rw [Const.evalIndices] at indices
  obtain ⟨js, hjs, indices⟩ := Except.bind_eq_ok.mp indices
  obtain ⟨i, hi, indices⟩ := Except.bind_eq_ok.mp indices
  cases indices
  rw [Expr.place?] at isPlace
  obtain ⟨q', isPlace', rfl⟩ := Option.map_eq_some_iff.mp isPlace
  obtain ⟨ds', o', m', selected', -⟩ := select_init selected
  obtain ⟨found, bounds, rfl, positive⟩ := targets s isPlace' bound hjs selected'
  rw [Const.Value.select_snoc selected'] at selected
  cases ds' with
  | nil => cases selected
  | cons d ds' =>
    have range : 0 ≤ i.toInt ∧ i.toInt < d := by
      rw [Const.Value.select] at selected
      split at selected
      · cases selected
      · split at selected
        · cases selected
        · omega
    rw [select_one bounds o' range] at selected
    cases selected
    obtain ⟨-, rest⟩ := bounds_cons.mp bounds
    refine ⟨(found.bind ((indexes s hi).bind (Settles.ofOption ?_ s))).step (fun n => by rw [place]),
      rest, rfl, ?_⟩
    · exact if_pos range
    · exact Int.add_nonneg positive (Int.mul_nonneg range.1 rest.prod_pos.le)

/-- A constant that is read. -/
theorem read_settles {e : Expr} (places : PlaceSettles k cenv env e)
    (isPlace : (∃ s name, e = .ident s name) ∨ ∃ s t i, e = .index s t i) :
    ExprSettles k cenv env e := by
  intro v s folded
  obtain ⟨q, c, is, o, m, place, bound, indices, selected, head⟩ := Const.eval_place folded isPlace
  obtain ⟨found, -, rfl, positive⟩ := places s place bound indices selected
  have read : (Place.storage [] ⟨.table c.data, o⟩).read s.memory = some v := by
    change (if o + 0 < 0 then none else c.data[(o + 0).toNat]?) = some v
    rw [Int.add_zero, if_neg (Int.not_lt.mpr positive)]
    simpa [List.head?_take, List.head?_drop] using head
  have reads : Settles (fun n => do
      let p ← Meaning.place k n env e
      Meaning.ofOption (p.read (← get).memory) : Nat → Run W Int32) s v s :=
    found.bind (Settles.ofOption read s)
  refine reads.step fun n => ?_
  rcases isPlace with ⟨_, _, rfl⟩ | ⟨_, _, _, rfl⟩ <;> rw [expr]

theorem binary_settles {left right : Expr} (span : Source.Span) (op : BinaryOp)
    (lefts : ExprSettles k cenv env left) (rights : ExprSettles k cenv env right) :
    ExprSettles k cenv env (.binary span op left right) := by
  intro v s folded
  rw [Const.eval] at folded
  obtain ⟨x, hx, folded⟩ := Except.bind_eq_ok.mp folded
  -- A logical operator whose left operand decides does not look at the right one.
  have logical : ∀ {D : Prop} [Decidable D] {short : Int32} {f : Int32 → Int32},
      (¬ D → ∀ y, Const.fold op x y = .ok (f y)) →
      Const.decided? op x = (if D then some short else none) →
      Settles (fun n => if D then pure short else expr k n env right >>= fun y => pure (f y) :
        Nat → Run W Int32) s v s := by
    intro D _ short f fold decided
    rw [decided] at folded
    by_cases h : D
    · simp only [if_pos h] at folded ⊢
      cases folded
      exact .pure v s
    · simp only [if_neg h] at folded ⊢
      obtain ⟨y, hy, folded⟩ := Except.bind_eq_ok.mp folded
      rw [fold h] at folded
      cases folded
      exact (rights s hy).bind (.pure _ s)
  have first := lefts s hx
  cases op with
  | logicalAnd =>
    refine (first.bind (logical (D := x = 0) ?_ rfl)).step fun n => by rw [expr]
    intro nonzero y
    simp [Const.fold, nonzero, pure, Except.pure, truth, Const.truth]
  | logicalOr =>
    refine (first.bind (logical (D := x ≠ 0) ?_ ?_)).step fun n => by rw [expr]
    · intro zero y
      simp [Const.fold, not_not.mp zero, pure, Except.pure, truth, Const.truth]
    · by_cases zero : x = 0 <;> simp [Const.decided?, zero]
  | _ =>
    obtain ⟨y, hy, folded⟩ := Except.bind_eq_ok.mp folded
    have applied := binary_of_fold rfl folded
    exact (first.bind ((rights s hy).bind (.ofOption applied s))).step fun n => by rw [expr]

/-- What is folded while compiling has a value, and constants are places. -/
theorem folded_settles (knows : Knows cenv env) : (e : Expr) → e.Whole →
    PlaceSettles k cenv env e ∧ ExprSettles k cenv env e
  | .lit span x, _ => by
    refine ⟨fun _ _ _ _ _ _ _ isPlace => (by cases isPlace), fun v s folded => ?_⟩
    rw [Const.eval] at folded
    cases folded
    exact (Settles.pure x s).step fun n => by rw [expr]
  | .group span inner, whole => by
    obtain ⟨places, exprs⟩ := folded_settles knows inner whole
    refine ⟨fun _ _ _ _ _ _ s isPlace bound indices selected => ?_, fun _ s folded => ?_⟩
    · rw [Const.evalIndices] at indices
      rw [Expr.place?] at isPlace
      obtain ⟨found, rest⟩ := places s isPlace bound indices selected
      exact ⟨found.step fun n => by rw [place], rest⟩
    · rw [Const.eval] at folded
      exact (exprs s folded).step fun n => by rw [expr]
  | .ident span name, _ =>
    have places := identPlace_settles knows span name
    ⟨places, read_settles places (.inl ⟨span, name, rfl⟩)⟩
  | .index span target idx, whole =>
    have places := indexPlace_settles span (folded_settles knows target whole.1).1
      (folded_settles knows idx whole.2).2
    ⟨places, read_settles places (.inr ⟨span, target, idx, rfl⟩)⟩
  | .unary span op x, whole => by
    refine ⟨fun _ _ _ _ _ _ _ isPlace => (by cases isPlace), fun v s folded => ?_⟩
    rw [Const.eval] at folded
    obtain ⟨y, hy, folded⟩ := Except.bind_eq_ok.mp folded
    cases folded
    have applied : unary op y = some (Const.foldUnary op y) := by
      cases op with
      | other => exact whole.1.elim
      | plus | minus | not => rfl
    exact (((folded_settles knows x whole.2).2 s hy).bind (.ofOption applied s)).step
      fun n => by rw [expr]
  | .binary span op left right, whole =>
    ⟨fun _ _ _ _ _ _ _ isPlace => (by cases isPlace), binary_settles span op
      (folded_settles knows left whole.2.1).2 (folded_settles knows right whole.2.2).2⟩
  | .call .., _ => ⟨fun _ _ _ _ _ _ _ isPlace => (by cases isPlace), fun _ _ folded => (by cases folded)⟩
  | .bare .., whole | .missing _, whole => whole.elim

theorem expr_settles (knows : Knows cenv env) {e : Expr} (whole : e.Whole) {v : Int32}
    (folded : Const.eval cenv e = .ok v) (s : State W) :
    Settles (fun n => expr k n env e) s v s := (folded_settles knows e whole).2 s folded

/-! ## Definitions -/

theorem bounds_settles (knows : Knows cenv env) {es : List Expr} (whole : ∀ e ∈ es, e.Whole)
    {ds : List Int} (folded : es.mapM (Ty.bound cenv) = .ok ds) (s : State W) :
    Settles (fun n => bounds k n env es) s ds s := by
  have positive := Ty.bounds_of_mapM folded
  have pairs := Outcome.mapM_eq_ok folded
  clear folded
  induction pairs with
  | nil => exact (Settles.pure [] s).step fun n => by rw [bounds]
  | @cons e d es ds head _ ih =>
    obtain ⟨v, hv, rfl⟩ := bound_eq_eval head
    obtain ⟨⟨large, -⟩, rest⟩ := bounds_cons.mp positive
    have others := ih (fun e' mem => whole e' (by simp [mem])) rest
    refine ((expr_settles knows (whole e (by simp)) hv s).bind
      (g := fun n v => do
        if v.toInt ≤ 0 then stuck
        return v.toInt :: (← bounds k n env es)) ?_).step fun n => by rw [bounds]
    simp only [if_neg (show ¬ v.toInt ≤ 0 by omega)]
    exact others.bind (.pure _ s)

theorem fill_settles (knows : Knows cenv env) {what : String} {ps : List Placement}
    (whole : ∀ p ∈ ps, p.value.Whole) {out out' : List Int32}
    (folded : Const.Layout.store (Lower.constant cenv what) ps out = .ok out') (s : State W) :
    Settles (fun n => fill k n env ps out) s out' s := by
  induction ps generalizing out with
  | nil =>
    cases folded
    exact (Settles.pure _ s).step fun n => by rw [fill]
  | cons p ps ih =>
    rw [Const.Layout.store] at folded
    obtain ⟨v, hv, folded⟩ := Except.bind_eq_ok.mp folded
    split at folded
    · have others := ih (fun q mem => whole q (by simp [mem])) folded
      exact ((expr_settles knows (whole p (by simp)) (constant_eq_eval hv) s).bind others).step
        fun n => by rw [fill]
    · cases folded

theorem elements_settles (knows : Knows cenv env) {what : String} {dims : List Int} {init : Init}
    {data : List Int32} (whole : init.Whole) (bounds : Bounds dims) (small : dims.prod < tooMany)
    (folded : Lower.constantInit cenv what (Ty.arrayOf dims) init = .ok data) (s : State W) :
    Settles (fun n => elements k n env dims init) s data s := by
  unfold Lower.constantInit at folded
  cases dims with
  | nil =>
    rw [if_pos (show (Ty.arrayOf []).isScalar = true from rfl)] at folded
    cases init with
    | expr span e =>
      obtain ⟨v, hv, folded⟩ := Except.bind_eq_ok.mp folded
      cases folded
      exact ((expr_settles knows whole (constant_eq_eval hv) s).bind (.pure [v] s)).step
        fun n => by rw [elements]
    | list | missing => cases folded
  | cons d ds =>
    rw [if_neg (by simp [Ty.arrayOf, Ty.isScalar]), Ty.dims_arrayOf] at folded
    unfold Const.flatten at folded
    split at folded
    · cases folded
    · rename_i l size layout
      unfold Const.Layout.fill at folded
      obtain ⟨out, hout, folded⟩ := Except.bind_eq_ok.mp folded
      split at folded
      · cases folded
      · rename_i done
        cases folded
        have placed := Const.Layout.ofArray_whole whole layout
        obtain ⟨_, _, rfl, places, rfl⟩ := Const.Layout.ofArray_eq_ok bounds small layout done
        exact ((Settles.ofOption places s).bind (fill_settles knows placed hout s)).step
          fun n => by rw [elements]

/-- Bounds come before everything else in a definition. -/
theorem define_settles (knows : Knows cenv env) {isConst : Bool} {blank : Option Int32} {d : Def}
    {dims : List Int} (whole : ∀ e ∈ d.dims, e.Whole)
    (folded : d.dims.mapM (Ty.bound cenv) = .ok dims) (small : dims.prod < tooMany)
    (binds : Settles (fun n => bindName k n blank isConst env d.name dims d.init) s env' s') :
    Settles (fun n => define k n blank isConst env d) s env' s' := by
  refine ((bounds_settles knows whole folded s).bind (g := fun n dims => do
    if tooMany ≤ dims.prod then stuck
    bindName k n blank isConst env d.name dims d.init) ?_).step fun n => by rw [define]
  simp only [if_neg (Int.not_le.mpr small)]
  exact binds

/-- A constant has a value. -/
theorem constantDef_settles (knows : Knows cenv env) {blank : Option Int32} {d : Def} {ty : Ty}
    {value : Const.Value} (whole : d.Whole)
    (folded : Lower.constantDef cenv d = .ok (ty, value)) (small : ty.dims.prod < tooMany)
    (s : State W) : ∃ env' s', Settles (fun n => define k n blank true env d) s env' s' := by
  unfold Lower.constantDef at folded
  obtain ⟨t, type, folded⟩ := Except.bind_eq_ok.mp folded
  obtain ⟨dims, hdims, rfl, isBounds⟩ := ofDef_eq_ok type
  cases init : d.init with
  | none =>
    rw [init] at folded
    cases folded
  | some i =>
    rw [init] at folded
    obtain ⟨data, hdata, folded⟩ := Except.bind_eq_ok.mp folded
    cases folded
    rw [Ty.dims_arrayOf] at small
    have elems := elements_settles (k := k) knows (whole.init i (by rw [init]; rfl)) isBounds small
      hdata s
    have binds : Settles (fun n => bindName k n blank true env d.name dims d.init) s
        ((d.name, .constant dims data) :: env) s := by
      rw [init]
      refine (elems.map fun data => (d.name, .constant dims data) :: env).step fun n => ?_
      rw [bindName]
    exact ⟨_, s, define_settles knows whole.dims hdims small binds⟩

theorem Settles.create (cells : List (Option Int32)) (s : State W) :
    Settles (fun _ => create cells) s s.memory.length ⟨s.memory ++ [cells], s.world⟩ :=
  ⟨0, fun _ _ => rfl⟩

/-- A variable starts with something. -/
theorem variableDef_settles (knows : Knows cenv env) {blank : Option Int32} {what : String} {d : Def}
    {dims : List Int} {given : List Int32} (whole : d.Whole)
    (folded : d.dims.mapM (Ty.bound cenv) = .ok dims) (small : dims.prod < tooMany)
    (initial : d.init = none ∨ ∃ init, d.init = some init ∧
      Lower.constantInit cenv what (Ty.arrayOf dims) init = .ok given) (s : State W) :
    ∃ env' s', Settles (fun n => define k n blank false env d) s env' s' := by
  have isBounds := Ty.bounds_of_mapM folded
  rcases initial with init | ⟨i, init, hdata⟩
  · have binds : Settles (fun n => bindName k n blank false env d.name dims d.init) s
        ((d.name, .object dims s.memory.length) :: env)
        ⟨s.memory ++ [List.replicate dims.prod.toNat blank], s.world⟩ := by
      rw [init]
      refine ((Settles.create _ s).map fun id => (d.name, .object dims id) :: env).step fun n => ?_
      rw [bindName]
    exact ⟨_, _, define_settles knows whole.dims folded small binds⟩
  · have elems := elements_settles (k := k) knows (whole.init i (by rw [init]; rfl)) isBounds small
      hdata s
    have binds : Settles (fun n => bindName k n blank false env d.name dims d.init) s
        ((d.name, .object dims s.memory.length) :: env) ⟨s.memory ++ [given.map some], s.world⟩ := by
      rw [init]
      exact (elems.bind ((Settles.create _ s).map fun id => (d.name, .object dims id) :: env)).step
        fun n => by rw [bindName]
    exact ⟨_, _, define_settles knows whole.dims folded small binds⟩

theorem paramTys_settles (knows : Knows cenv env) {ps : List Param} {ts : List Ty}
    (whole : ∀ p ∈ ps, ∀ e ∈ p.dims, e.Whole) (folded : ps.mapM (Ty.ofParam cenv) = .ok ts)
    (s : State Unit) : Settles (fun n => paramTys n env ps) s ts s := by
  have pairs := Outcome.mapM_eq_ok folded
  clear folded
  induction pairs with
  | nil => exact .pure [] s
  | @cons q t qs ts head _ ih =>
    unfold Ty.ofParam at head
    split at head
    · cases head
    · obtain ⟨ds, found, head⟩ := Except.bind_eq_ok.mp head
      cases head
      have dims := bounds_settles (k := constants) knows (whole q (by simp)) found s
      exact dims.bind ((ih fun p mem => whole p (by simp [mem])).bind (.pure _ s))

/-! ## Units -/

section Load

open Koopa (Avail)

variable {avail : Avail} {σ σ' : Lower.State} {m : Memory Int32}

/-- No array has too many elements. -/
def Sized (σ : Lower.State) : Prop := ∀ s ∈ σ.symbols.symbols, s.type.dims.prod < tooMany

instance : DecidablePred Sized := fun σ =>
  inferInstanceAs (Decidable (∀ s ∈ σ.symbols.symbols, s.type.dims.prod < tooMany))

theorem globalDef_settles {isConst : Bool} {d : Def} {sym : Symbol} (whole : d.Whole)
    (loads : Loads avail σ env m) (lowered : Lower.globalDef isConst d σ = .ok sym σ')
    (small : sym.type.dims.prod < tooMany) :
    ∃ env' s', Settles (fun n => define constants n (some 0) isConst env d) ⟨m, ()⟩ env' s' := by
  cases isConst with
  | true =>
    rw [Lower.globalDef_const] at lowered
    obtain ⟨⟨ty, value⟩, σ₁, lifted, rest⟩ := bind_eq_ok.mp lowered
    obtain ⟨defined, rfl⟩ := lift_eq_ok lifted
    obtain ⟨type, dims, count⟩ := Lower.constantDef_eq_ok defined
    obtain ⟨solid, object⟩ := Ty.ofDef_solid type
    obtain ⟨-, slot, -, -, -, rfl, -⟩ :=
      (Lower.constantSymbol_ends solid object dims count σ₁.at_site loads.program).ok rest
    exact constantDef_settles loads.knows whole defined small _
  | false =>
    obtain ⟨dims, given, folded, bounds, initial, done⟩ := variableDef_eq_ok lowered
    obtain ⟨slot, σ₁, -, rest⟩ := bind_eq_ok.mp done
    cases rest
    rw [Ty.dims_arrayOf] at small
    exact variableDef_settles loads.knows whole folded small (initial.imp_left And.left) _

theorem globalDefs_settle {isConst : Bool} {ds : List Def} (whole : ∀ d ∈ ds, d.Whole)
    (loads : Loads avail σ env m) (guarded : Lower.Guarded σ)
    (lowered : Lower.globalDefs isConst ds σ = .ok () σ') (sized : Sized σ') :
    ∃ env' s', Settles (fun n => defines constants n (some 0) isConst env ds) ⟨m, ()⟩ env' s' := by
  induction ds generalizing avail σ env m with
  | nil => exact ⟨env, _, (Settles.pure env _).step fun n => by rw [defines]⟩
  | cons d ds ih =>
    obtain ⟨sym, σ₁, lowered₁, fresh, lowered₂⟩ := Lower.globalDefs_cons_eq_ok loads.toTop lowered
    obtain ⟨guarded₁, -, admits⟩ := (Lower.globalDef_guards isConst d guarded).ok lowered₁
    obtain ⟨guarded₂, -⟩ := guarded₁.bound (t := σ₁.symbols.bindGlobal sym) admits (.inr rfl)
    obtain ⟨-, since, -⟩ := ((Lower.globalDefs_guarding isConst ds).guards guarded₂).ok lowered₂
    have small := sized sym (since.symbols (Array.mem_push_self ..))
    obtain ⟨env₁, s₁, settles₁⟩ := globalDef_settles (whole d (by simp)) loads lowered₁ small
    -- Any run with enough fuel says what is known afterwards.
    obtain ⟨least, ran⟩ := settles₁
    obtain ⟨avail₁, loads₁⟩ :=
      (globalDef_advances loads fresh lowered₁ (ran least (Nat.le_refl _))).loads
    obtain ⟨env₂, s₂, settles₂⟩ :=
      ih (fun e mem => whole e (by simp [mem])) loads₁ guarded₂ lowered₂
    exact ⟨env₂, s₂, (Settles.bind ⟨least, ran⟩ settles₂).step fun n => by rw [defines]⟩

theorem item_settles {i : Item} (whole : i.Whole) (loads : Loads avail σ env m)
    (guarded : Lower.Guarded σ) (lowered : Lower.item i σ = .ok () σ') (sized : Sized σ') :
    ∃ env' s', Settles (fun n => loadItem n env i) ⟨m, ()⟩ env' s' := by
  cases i with
  | fn span f =>
    have isFunction : Lower.functionOf f (returnTy f) σ = .ok () σ' := lowered
    unfold Lower.functionOf at isFunction
    rw [Lower.get_bind] at isFunction
    obtain ⟨params, σ₁, lifted, -⟩ := bind_eq_ok.mp isFunction
    obtain ⟨folded, -⟩ := lift_eq_ok lifted
    have settles := (paramTys_settles loads.knows whole.params folded ⟨m, ()⟩).map
      fun ts => (f.name, .function ts (returnTy f)) :: env
    simp only [loadItem]
    split
    · exact ⟨env, _, .pure env _⟩
    · exact ⟨_, _, settles⟩
  | decl span d =>
    obtain ⟨d, rfl, dWhole⟩ := whole
    exact globalDefs_settle dWhole.defs loads guarded (Lower.globalDecl_eq_ok dWhole lowered) sized
  | bare span kind => exact whole.elim
  | missing id => exact whole.elim

theorem items_settle {is : List Item} (whole : ∀ i ∈ is, i.Whole) (loads : Loads avail σ env m)
    (guarded : Lower.Guarded σ) (lowered : Lower.items false is σ = .ok () σ') (sized : Sized σ') :
    ∃ env' s', Settles (fun n => loadItems n env is) ⟨m, ()⟩ env' s' := by
  induction is generalizing avail σ env m with
  | nil => exact ⟨env, _, .pure env _⟩
  | cons i is ih =>
    have rest : (Lower.item i >>= fun _ => Lower.items false is) σ = .ok () σ' := lowered
    obtain ⟨_, σ₁, lowered₁, lowered₂⟩ := bind_eq_ok.mp rest
    obtain ⟨guarded₁, -⟩ := ((Lower.item_guarding i).guards guarded).ok lowered₁
    obtain ⟨-, since, -⟩ := ((Lower.items_guarding false is).guards guarded₁).ok lowered₂
    have whole₁ := whole i (by simp)
    obtain ⟨env₁, s₁, least, ran⟩ := item_settles whole₁ loads guarded lowered₁
      fun s mem => sized s (since.symbols mem)
    obtain ⟨avail₁, loads₁⟩ :=
      (item_advances whole₁ loads lowered₁ (ran least (Nat.le_refl _))).loads
    obtain ⟨env₂, s₂, settles₂⟩ := ih (fun j mem => whole j (by simp [mem])) loads₁ guarded₁ lowered₂
    exact ⟨env₂, s₂, Settles.bind ⟨least, ran⟩ settles₂⟩

/-- A unit that was lowered can be loaded, unless an array is too large. -/
theorem load_defined {u : CompUnit} {withLibrary : Bool} (whole : u.Whole)
    (lowered : Lower.unit withLibrary false u {} = .ok () σ) (sized : Sized σ) :
    ∃ globals m least, ∀ n ≥ least, load withLibrary n u = some (globals, m) := by
  obtain ⟨σ₀, σ₁, p, declared, lowered₁, -, rfl⟩ := Lower.unit_eq_ok lowered
  obtain ⟨loads, -⟩ := declaring_loads declared
  have guarded : Lower.Guarded σ₀ := by
    cases withLibrary with
    | false =>
      cases declared
      exact Lower.guarded_empty
    | true =>
      exact (((Lower.declareLibrary_guarding _).guards Lower.guarded_empty).ok declared).1
  obtain ⟨env', s', least, ran⟩ := items_settle whole loads guarded lowered₁ sized
  exact ⟨env', s'.memory, least, fun n large =>
    Option.map_eq_some_iff.mpr ⟨(env', s'), ran n large, rfl⟩⟩

end Load

end SysY.Meaning

import SysY.Proofs.Meaning.Expr

/-! # Calls, and expressions as a whole

Arguments are computed from left to right, and then a function runs. What functions do is left open
here: `Invokes` says that it is the same in the unit and in the program, for runs with some amount
of fuel. Expressions that cost one more are then computed as they are evaluated. -/

namespace SysY.Meaning

open Koopa (Val Activation Config ValueId BlockId FnId Program Avail ValueDef)
open Lower (Inv Operand PlaceOk Computes Evo ParamTys)
open Source (Span)

variable {W α β : Type} {l : Loaded W} {k : Context W} {n : Nat} {env : Env}
  {callers : List (ValueId × Activation)} {c : Lower.Site} {avail : Avail} {σ σ' : Lower.State}
  {a b : Point W} {s s' : State W}

/-- What a computation of the unit does. -/
def Does (m : Run W β) (s : State W) (r : β) (s' : State W) : Prop := m s = some (r, s')

/-- The operand `v` is the argument `arg`. -/
def Hands (l : Loaded W) (v : ValueId) (arg : Arg) (b : Point W) : Prop :=
  ∃ x, b.operand l v = some x ∧ Passes b.known b.memory arg x

theorem Hands.goes {v : ValueId} {arg : Arg} {t : Koopa.Ty} {q : Prop} (hands : Hands l v arg a)
    (operand : Operand avail σ v t) (goes : Goes l q callers (size σ) a.memory.length a b) :
    Hands l v arg b := by
  obtain ⟨x, value, passes⟩ := hands
  exact ⟨x, (goes.operand (le_size operand)).trans value, passes.later goes.later⟩

/-! ## Places -/

/-- The instructions for the subscripts of an expression lead to the place that it denotes, from the
place that its name stands for. -/
def WalksTo (l : Loaded W) (k : Context W) (n : Nat) (env : Env) (e : Expr) : Prop :=
  ∀ ⦃c avail σ σ' p p' callers s P s' a⦄, Inv c avail σ → σ.frame.isOpen = true →
    PlaceOk avail σ p → Lower.walk e p σ = .ok p' σ' → σ'.program.Grows l.program →
    Stands l.program σ a.here → Matches l σ.symbols env s a →
    (∀ named, e.place? = some named → ∀ P₀, (env.lookup named.name).bind Place.ofBinding = some P₀ →
      Denotes l p a P₀) →
    place k n env e s = some (P, s') →
    Reaches l False callers σ a σ' fun b => Matches l σ.symbols env s' b ∧ Denotes l p' b P

/-- The instructions of an expression compute its value. -/
def Computed (l : Loaded W) (k : Context W) (n : Nat) (env : Env) (e : Expr) : Prop :=
  Simulates (unitView l False env) (Lower.expr e) (Does (expr k n env e)) (Gives l)

theorem walksTo_succ {e : Expr} (whole : e.Whole) (walks : ∀ {e}, e.Whole → WalksTo l k n env e)
    (computed : ∀ {e}, e.Whole → Computed l k n env e) : WalksTo l k (n + 1) env e := by
  intro c avail σ σ' p p' callers s P s' a inv isOpen ok lowered grows stands fits start ran
  cases e with
  | ident span name =>
    rw [place] at ran
    obtain ⟨binding, rfl⟩ := ofOption_eq_some.mp ran
    rw [Lower.walk] at lowered
    · cases lowered
      exact .refl stands ⟨fits, start ⟨name, span, []⟩ rfl P binding⟩
    all_goals simp
  | group span inner =>
    rw [place] at ran
    rw [Lower.walk] at lowered
    exact walks (e := inner) whole inv isOpen ok lowered grows stands fits start ran
  | index span target idx =>
    rw [place] at ran
    obtain ⟨P₁, s₁, ran₁, rest₁⟩ := bind_eq_some.mp ran
    obtain ⟨i, s₂, ran₂, rest₂⟩ := bind_eq_some.mp rest₁
    obtain ⟨sub, rfl⟩ := ofOption_eq_some.mp rest₂
    rw [Lower.walk] at lowered
    obtain ⟨p₁, σ₁, lowered₁, lowered₂⟩ := bind_eq_ok.mp lowered
    obtain ⟨avail₁, inv₁, evo₁, ok₁, -⟩ := (Lower.walk_runs target whole.1 inv ok).ok lowered₁
    have idxComputes := fun {c} => Lower.expr_computes (c := c) idx whole.2
    obtain ⟨_, -, evo₂, -⟩ := (Lower.subscript_runs inv₁ ok₁ idxComputes).ok lowered₂
    have start₁ : ∀ named, target.place? = some named → ∀ P₀,
        (env.lookup named.name).bind Place.ofBinding = some P₀ → Denotes l p a P₀ := by
      intro named isPlace
      exact start { named with indices := named.indices ++ [idx] } (by rw [Expr.place?, isPlace]; rfl)
    refine (walks whole.1 inv isOpen ok lowered₁ (evo₂.grows.trans grows) stands fits start₁
      ran₁).bind (size_le evo₁) ?_
    rintro b goes stands₁ ⟨fits₁, denotes₁⟩
    rw [← evo₁.keeps.1] at fits₁ ⊢
    exact subscript_reaches (K := unitView l False env) idxComputes (computed whole.2) inv₁
      (evo₁.keeps.2.trans isOpen) ok₁ lowered₂ grows stands₁ fits₁ denotes₁ ran₂ sub
  | lit | unary | binary | call | bare | missing => cases ran

/-- A place is found through its name. -/
theorem startWalk_simulates {e : Expr} (walks : WalksTo l k n env e) :
    Simulates (unitView l False env) (do Lower.walk e (← Lower.startPlace e))
      (Does (place k n env e)) fun p P b => Denotes l p b P := by
  intro c avail σ σ' p callers s P s' a inv isOpen lowered grows stands fits ran
  obtain ⟨p₀, σ₁, lowered₁, lowered₂⟩ := bind_eq_ok.mp lowered
  obtain ⟨rfl, -, -, -, named, isPlace, found⟩ := startPlace_eq_ok inv lowered₁
  obtain ⟨avail₁, inv₁, -, ok, -⟩ := (Lower.startPlace_runs (k := .expr) inv e).ok lowered₁
  obtain ⟨B, here, bound⟩ := fits.sees found
  obtain ⟨P₀, binding, denotes⟩ := startPlace_denotes inv lowered₁ bound
  refine walks inv₁ isOpen ok lowered₂ grows stands fits (fun named' isPlace' P₁ binding' => ?_) ran
  obtain rfl := Option.some.inj (isPlace.symm.trans isPlace')
  rw [here, Option.bind_some, binding] at binding'
  cases binding'
  exact denotes

/-- The place of an expression, as lowering finds it. -/
theorem startWalk_runs {e : Expr} (whole : e.Whole) (inv : Inv c avail σ) :
    Lower.Runs .expr c avail σ (do Lower.walk e (← Lower.startPlace e)) fun p avail' σ' =>
      PlaceOk avail' σ' p :=
  Lower.Runs.bind inv (Lower.startPlace_runs inv e) fun _ _ _ inv₁ _ started =>
    (Lower.walk_runs e whole inv₁ started.1).mono fun _ _ _ _ _ walked => walked.1

/-! ## Arguments -/

/-- What comes after a check of types. -/
theorem of_checked {t t' : SysY.Outcome Koopa.Ty} {e : Diag.Error} {m : Lower α} {u : α}
    (lowered : (do
      if (← Lower.lift t) ≠ (← Lower.lift t') then Lower.raise e
      m) σ = .ok u σ') : m σ = .ok u σ' := by
  cases t with
  | error f => cases lowered
  | ok t =>
    cases t' with
    | error f => cases lowered
    | ok t' =>
      change (if t ≠ t' then Lower.raise e >>= fun _ => m else m) σ = .ok u σ' at lowered
      split at lowered
      · cases lowered
      · exact lowered

/-- What is left of passing an array once its place is found: a parameter is handed on, and the
address of an array becomes the address of its first element. -/
theorem arrayArg_eq_ok {e : Expr} (whole : e.Whole) {ds : List Int} {u : ValueId}
    (inv : Inv c avail σ)
    (lowered : Lower.arrayArg e (.pointer ds) (Lower.walk e) σ = .ok u σ') :
    ∃ p avail₁ σ₁ addr, (do Lower.walk e (← Lower.startPlace e)) σ = .ok p σ₁ ∧
      Inv c avail₁ σ₁ ∧ Evo .expr avail σ avail₁ σ₁ ∧ p.addr = some addr ∧ p.type.Solid ∧
      Operand avail₁ σ₁ addr (.pointer p.type.koopa) ∧
      ((∃ es, p.type = .pointer es ∧ Lower.tryEmitNew (·.load · addr) σ₁ = .ok u σ') ∨
        ∃ d es, p.type = .array (d :: es) ∧ (do
          let nought ← Lower.integer 0
          Lower.tryEmitNew (·.getElemPtr · addr nought)) σ₁ = .ok u σ') := by
  obtain ⟨⟨span, named⟩, σ₀, lowered₀, rest₀⟩ := bind_eq_ok.mp lowered
  obtain ⟨_, -, -, rfl, -⟩ := (Lower.asPlace_runs (k := .expr) inv e _).ok lowered₀
  obtain ⟨p₀, σ₁, lowered₁, rest₁⟩ := bind_eq_ok.mp rest₀
  obtain ⟨p, σ₂, lowered₂, rest₂⟩ := bind_eq_ok.mp rest₁
  have walked : (do Lower.walk e (← Lower.startPlace e)) σ₀ = .ok p σ₂ :=
    bind_eq_ok.mpr ⟨p₀, σ₁, lowered₁, lowered₂⟩
  obtain ⟨avail₂, inv₂, evo₂, ok⟩ := (startWalk_runs whole inv).ok walked
  cases found : p.addr with
  | none =>
    simp only [found] at rest₂
    cases rest₂
  | some addr =>
    unfold PlaceOk at ok
    rw [found] at ok
    obtain ⟨solid, operand⟩ := ok
    refine ⟨p, avail₂, σ₂, addr, walked, inv₂, evo₂, found, solid, operand, ?_⟩
    cases type : p.type with
    | int =>
      simp only [found, type] at rest₂
      cases rest₂
    | void =>
      rw [type] at solid
      exact solid.elim
    | pointer es =>
      simp only [found, type] at rest₂
      exact .inl ⟨es, rfl, of_checked rest₂⟩
    | array es =>
      cases es with
      | nil =>
        rw [type] at solid
        exact absurd rfl solid.1
      | cons d es =>
        simp only [found, type] at rest₂
        exact .inr ⟨d, es, rfl, of_checked rest₂⟩

/-- An array is passed as a pointer to its first element. -/
theorem arrayArg_simulates {e : Expr} (whole : e.Whole) {ds : List Int}
    (walks : WalksTo l k n env e) :
    Simulates (unitView l False env) (Lower.arrayArg e (.pointer ds) (Lower.walk e))
      (Does (place k n env e >>= fun p => ofOption p.decay)) (Hands l) := by
  intro c avail σ σ' u callers s arg s' a inv isOpen lowered grows stands fits ran
  obtain ⟨P, s₁, ran₁, rest₁⟩ := bind_eq_some.mp ran
  obtain ⟨decays, rfl⟩ := ofOption_eq_some.mp rest₁
  obtain ⟨p, avail₁, σ₁, addr, walked, inv₁, evo₁, found, solid, addrOk, passed⟩ :=
    arrayArg_eq_ok whole inv lowered
  have isOpen₁ := evo₁.keeps.2.trans isOpen
  rcases passed with ⟨es, type, loaded⟩ | ⟨d, es, type, moved⟩
  · rw [type] at addrOk
    obtain ⟨_, -, evo₂, -⟩ :=
      (Lower.load_runs (k := .expr) inv₁ addrOk (by simp [Ty.koopa])).ok loaded
    refine (startWalk_simulates walks inv isOpen walked (evo₂.grows.trans grows) stands fits
      ran₁).bind (size_le evo₁) ?_
    rintro b goes stands₁ ⟨fits₁, denotes⟩
    rw [← evo₁.keeps.1] at fits₁ ⊢
    cases denotes with
    | number noAddr =>
      rw [found] at noAddr
      cases noAddr
    | @storage _ ds' _ _ _ isArray =>
      rw [type] at isArray
      cases ds' <;> cases isArray
    | param hasAddr isParam value unknown here points =>
      rename_i y
      rw [found] at hasAddr
      cases hasAddr
      cases decays
      have read : b.memory.read _ 0 = some y :=
        Memory.read_eq_some.mpr ⟨_, here, Int.le_refl 0, rfl⟩
      obtain ⟨b₂, moves, result⟩ := load_moves inv₁ isOpen₁ addrOk loaded grows stands₁ value read
      refine moves.reaches (K := unitView l False env) inv₁ fits₁ ⟨y, result, .array ?_⟩
      rw [moves.known, moves.memory]
      exact points
  · rw [type] at addrOk solid
    obtain ⟨nought, σ₂, lowered₂, lowered₃⟩ := bind_eq_ok.mp moved
    obtain ⟨avail₂, inv₂, evo₂, noughtOk⟩ := (Lower.integer_runs (k := .expr) inv₁ 0).ok lowered₂
    obtain ⟨_, -, evo₃, -⟩ :=
      (Lower.getElemPtr_runs (k := .expr) inv₂ (addrOk.evo evo₂) noughtOk).ok lowered₃
    have grows₂ := evo₃.grows.trans grows
    refine (startWalk_simulates walks inv isOpen walked (evo₂.grows.trans grows₂) stands fits
      ran₁).bind (size_le evo₁) ?_
    rintro b goes stands₁ ⟨fits₁, denotes⟩
    rw [← evo₁.keeps.1, ← evo₂.keeps.1] at fits₁ ⊢
    obtain ⟨stands₂, zero⟩ := integer_stays lowered₂ grows₂ stands₁
    cases denotes with
    | number noAddr =>
      rw [found] at noAddr
      cases noAddr
    | param _ isParam =>
      rw [type] at isParam
      cases isParam
    | storage hasAddr isArray value points =>
      rename_i ds' x y
      rw [found] at hasAddr
      cases hasAddr
      rw [type] at isArray
      cases ds' with
      | nil => cases isArray
      | cons d' ds' =>
        cases decays
        obtain ⟨⟨positive, -⟩, -⟩ := bounds_cons.mp solid.2
        obtain ⟨o, rfl⟩ := points.ptr
        obtain ⟨b₃, moves, result⟩ := getElemPtr_moves inv₂ (evo₂.keeps.2.trans isOpen₁)
          (addrOk.evo evo₂) noughtOk lowered₃ grows stands₂ value zero (by simp; omega)
        rw [Int32.toInt_zero, Int.zero_mul, Int.add_zero] at result
        refine (moves.reaches (K := unitView l False env) inv₂ fits₁
          ⟨_, result, .array ?_⟩).since (size_le evo₂)
        rw [moves.known, moves.memory]
        exact points

/-- Arguments are computed from left to right. -/
def Passed (l : Loaded W) (k : Context W) (n : Nat) (env : Env) (es : List Expr) (ts : List Ty) :
    Prop :=
  Simulates (unitView l False env) (Lower.args es ts) (Does (args k n env es ts)) fun vs as b =>
    List.Forall₂ (fun v arg => Hands l v arg b) vs as

/-- One argument, and then those after it. -/
theorem Passed.cons {t : Ty} {es : List Expr} {ts : List Ty} (whole : Expr.AllWhole es)
    (paramsOk : ParamTys ts) (length : ts.length = es.length) {first : Lower ValueId}
    {run : Run W Arg}
    (runs : ∀ {c avail σ}, Inv c avail σ → Lower.Runs .expr c avail σ first fun v avail' σ' =>
      Operand avail' σ' v t.koopa)
    (simulates : Simulates (unitView l False env) first (Does run) (Hands l))
    (passed : Passed l k n env es ts) :
    Simulates (unitView l False env) (do
      let v ← first
      return v :: (← Lower.args es ts))
      (Does do
        let arg ← run
        return arg :: (← args k n env es ts))
      fun vs as b => List.Forall₂ (fun v arg => Hands l v arg b) vs as := by
  intro c avail σ σ' us callers s as s' a inv isOpen lowered grows stands fits ran
  obtain ⟨arg, s₁, ran₁, rest₁⟩ := bind_eq_some.mp ran
  obtain ⟨as, s₂, ran₂, rest₂⟩ := bind_eq_some.mp rest₁
  obtain ⟨rfl, rfl⟩ := pure_eq_some.mp rest₂
  obtain ⟨v, σ₁, lowered₁, rest₁⟩ := bind_eq_ok.mp lowered
  obtain ⟨vs, σ₂, lowered₂, rest₂⟩ := bind_eq_ok.mp rest₁
  cases rest₂
  obtain ⟨avail₁, inv₁, evo₁, ok₁⟩ := (runs inv).ok lowered₁
  obtain ⟨_, -, evo₂, -⟩ := (Lower.args_runs es whole paramsOk length inv₁).ok lowered₂
  refine (simulates inv isOpen lowered₁ (evo₂.grows.trans grows) stands fits ran₁).bind
    (size_le evo₁) ?_
  rintro b₁ goes₁ stands₁ ⟨fits₁, hands⟩
  rw [← evo₁.keeps.1] at fits₁ ⊢
  obtain ⟨b₂, goes₂, stands₂, fits₂, rest⟩ :=
    passed inv₁ (evo₁.keeps.2.trans isOpen) lowered₂ grows stands₁ fits₁ ran₂
  exact ⟨b₂, goes₂, stands₂, fits₂, .cons (hands.goes ok₁ goes₂) rest⟩

theorem passed_succ {es : List Expr} {ts : List Ty} (whole : Expr.AllWhole es)
    (paramsOk : ParamTys ts) (length : ts.length = es.length)
    (walks : ∀ {e}, e.Whole → WalksTo l k n env e)
    (computed : ∀ {e}, e.Whole → Computed l k n env e)
    (passed : ∀ {es ts}, Expr.AllWhole es → ParamTys ts → ts.length = es.length →
      Passed l k n env es ts) : Passed l k (n + 1) env es ts := by
  match es, ts, whole, length with
  | [], [], _, _ =>
    intro c avail σ σ' us callers s as s' a inv isOpen lowered grows stands fits ran
    rw [Does, args] at ran
    obtain ⟨rfl, rfl⟩ := pure_eq_some.mp ran
    rw [Lower.args] at lowered
    · cases lowered
      exact .refl stands ⟨fits, .nil⟩
    · simp
  | e :: es, t :: ts, whole, length =>
    have restOk : ParamTys ts := fun u hu => paramsOk u (by simp [hu])
    have sameLength : ts.length = es.length := by simpa using length
    have rest := passed whole.2 restOk sameLength
    rcases paramsOk t (by simp) with rfl | ⟨ds, rfl, bounds⟩
    · have number : Simulates (unitView l False env) (Lower.expr e)
          (Does (Arg.int <$> expr k n env e)) (Hands l) := by
        intro c avail σ σ' u callers s arg s' a inv isOpen lowered grows stands fits ran
        rw [Does, map_eq_pure_bind] at ran
        obtain ⟨r, s₁, ran₁, rest₁⟩ := bind_eq_some.mp ran
        obtain ⟨rfl, rfl⟩ := pure_eq_some.mp rest₁
        refine (computed whole.1 inv isOpen lowered grows stands fits ran₁).mono ?_
        rintro b ⟨fits', gives⟩
        exact ⟨fits', _, gives, .int r⟩
      have both := rest.cons (t := .int) whole.2 restOk sameLength
        (Lower.expr_computes e whole.1).runs number
      unfold Passed
      rw [Lower.args, args]
      · exact both
      all_goals simp
    · have both := rest.cons (t := .pointer ds) whole.2 restOk sameLength
        (fun inv => Lower.arrayArg_runs bounds inv
          fun inv ok => Lower.walk_runs e whole.1 inv ok)
        (arrayArg_simulates whole.1 (walks whole.1))
      unfold Passed
      rw [Lower.args, args]
      exact both

/-! ## Calls -/

/-- What a function does in the unit, it does in the program. -/
def Invokes (l : Loaded W) (k : Context W) (n : Nat) : Prop :=
  ∀ ⦃name id params ret as s r s' xs a⦄, l.Has name id params ret →
    invoke k n name params ret as s = some (r, s') → Agrees l s a →
    List.Forall₂ (Passes a.known a.memory) as xs → ∀ v callers, ∃ d b,
      l.program.enter l.external id xs v a.here callers a.memory a.world = some d ∧
      l.program.Steps l.external d
        (.finish ((v, a.here) :: callers) (r.map .int) b.memory b.world) ∧
      Later a.memory.length a.known a.memory b.known b.memory ∧ Agrees l s' b

/-- What holds of memory and the world does not depend on the registers. -/
theorem Agrees.at (agrees : Agrees l s a) (here : Activation) :
    Agrees l s ⟨a.known, a.memory, here, a.world⟩ :=
  ⟨agrees.holds, agrees.world, agrees.image⟩

theorem steps_any {p : Program} {ext : External W} {P : Config W → Prop} {d d' : Config W}
    (steps : p.Steps ext d d') : p.StepsIf ext (fun d => False → P d) d d' :=
  Relation.ReflTransGen.mono (fun _ _ h => ⟨False.elim, h⟩) _ _ steps

/-- What the caller's registers are after a call. -/
def returned (here : Activation) (v : ValueId) : Option Int32 → Activation
  | none => here
  | some x => here.set v (.int x)

/-- A call runs the function, and then the caller goes on. -/
theorem call_reaches {name : String} {id : FnId} {params : List Ty} {ret : Ty} {as : List Arg}
    {r : Option Int32} {d : Koopa.Fn} {vs : List ValueId} {u : ValueId} (invokes : Invokes l k n)
    (inv : Inv c avail σ) (isOpen : σ.frame.isOpen = true) (found : σ.program.fn? id = some d)
    (lowered : Lower.tryEmitNew (·.call · id vs) σ = .ok u σ') (grows : σ'.program.Grows l.program)
    (stands : Stands l.program σ a.here) (fits : Matches l σ.symbols env s a)
    (has : l.Has name id params ret) (hands : List.Forall₂ (fun v arg => Hands l v arg a) vs as)
    (ran : invoke k n name params ret as s = some (r, s')) :
    Reaches l False callers σ a σ' fun b => Matches l σ.symbols env s' b ∧
      ∀ x, r = some x → Gives l u x b := by
  rw [Lower.tryEmitNew_eq inv.takes (Program.call_eq found)] at lowered
  cases lowered
  obtain ⟨rest, next, stands'⟩ := stands.emitted inv isOpen grows
  have inst : l.program.Has (size σ + 1) (some σ.frame.fn) d.ret (.call id vs) :=
    grows.values (σ.emitted_has ..)
  obtain ⟨xs, values, passes⟩ : ∃ xs, vs.mapM (l.program.operand a.here.regs) = some xs ∧
      List.Forall₂ (Passes a.known a.memory) as xs := by
    clear ran next inst grows stands'
    induction hands with
    | nil => exact ⟨[], rfl, .nil⟩
    | cons head _ ih =>
      obtain ⟨x, value, passes⟩ := head
      obtain ⟨xs, values, allPass⟩ := ih
      refine ⟨x :: xs, ?_, .cons passes allPass⟩
      rw [Point.operand] at value
      simp [value, values]
  obtain ⟨e, b, entered, steps, later, agrees⟩ := invokes (a := ⟨a.known, a.memory,
    ⟨a.here.fn, rest, a.here.regs⟩, a.world⟩) has ran (fits.toAgrees.at _) passes (size σ + 1) callers
  let b' : Point W := ⟨b.known, b.memory,
    returned ⟨a.here.fn, rest, a.here.regs⟩ (size σ + 1) r, b.world⟩
  have regs : ∀ {x}, r = some x → b'.here.regs (size σ + 1) = some (.int x) := by
    rintro x rfl
    exact Function.update_self ..
  have goes : Goes l False callers (size σ) a.memory.length a b' := by
    refine ⟨?_, later, ?_, ?_, False.elim⟩
    · obtain ⟨name, step⟩ := step_eq l.external inst
      have before : a.config callers =
          .run ⟨a.here.fn, (size σ + 1) :: rest, a.here.regs⟩ callers a.memory a.world := by
        rw [← next]
        rfl
      refine steps_any (.trans (.single ?_) (?_ : l.program.Steps l.external e _))
      · rw [before, step]
        simp only [Program.exec, values]
        exact entered
      · cases r <;> exact steps
    · cases r <;> rfl
    · cases r with
      | none => exact fun _ _ => rfl
      | some x => exact Keeps.update _ _ _
  refine ⟨b', goes, ?_, ⟨agrees.at _, fits.sees.goes inv goes (Nat.le_refl _) fun _ => rfl⟩, ?_⟩
  · cases r <;> exact stands' _
  · intro x isResult
    exact (operand_inst inst rfl _).trans (regs isResult)

/-- A call of a function by its name. -/
def Called (l : Loaded W) (k : Context W) (n : Nat) (env : Env) (name : String) (as : List Expr) :
    Prop :=
  ∀ span nameSpan, Simulates (unitView l False env)
    (Lower.callFn span name nameSpan as.length (Lower.args as)) (Does (call k n env name as))
    fun u r b => ∀ x, r = some x → Gives l u.1 x b

theorem called_succ {name : String} {as : List Expr} (whole : Expr.AllWhole as)
    (passed : ∀ {es ts}, Expr.AllWhole es → ParamTys ts → ts.length = es.length →
      Passed l k n env es ts) (invokes : Invokes l k n) : Called l k (n + 1) env name as := by
  intro span nameSpan c avail σ σ' u callers s r s' a inv isOpen lowered grows stands fits ran
  rw [Lower.callFn_eq] at lowered
  cases found : σ.symbols.find? name with
  | none =>
    simp only [found] at lowered
    cases lowered
  | some sym =>
    obtain ⟨B, here, bound⟩ := fits.sees found
    have ok := inv.symbol found
    unfold Symbol.Ok at ok
    cases bound with
    | constant meaning | object meaning | array meaning =>
      simp only [found, meaning] at lowered
      cases lowered
    | @function fn params defined meaning has =>
      rw [meaning] at ok
      obtain ⟨-, paramsOk, d, foundFn, -, paramTys⟩ := ok
      rw [Does, call, here] at ran
      obtain ⟨args, s₁, ran₁, ran₂⟩ := bind_eq_some.mp ran
      simp only [found, meaning] at lowered
      by_cases length : as.length = params.length
      · rw [if_neg (not_not.mpr length)] at lowered
        obtain ⟨vs, σ₁, lowered₁, rest₁⟩ := bind_eq_ok.mp lowered
        obtain ⟨v, σ₂, lowered₂, rest₂⟩ := bind_eq_ok.mp rest₁
        cases rest₂
        obtain ⟨avail₁, inv₁, evo₁, fit⟩ :=
          (Lower.args_runs as whole paramsOk length.symm inv).ok lowered₁
        obtain ⟨d', foundFn', later⟩ := evo₁.grows.fns foundFn
        rw [← paramTys, ← later.paramTys] at fit
        obtain ⟨_, -, evo₂, -⟩ := (Lower.call_runs (k := .expr) inv₁ foundFn' fit).ok lowered₂
        refine (passed whole paramsOk length.symm inv isOpen lowered₁ (evo₂.grows.trans grows) stands
          fits ran₁).bind (size_le evo₁) ?_
        rintro b goes stands₁ ⟨fits₁, hands⟩
        rw [← evo₁.keeps.1] at fits₁ ⊢
        exact call_reaches invokes inv₁ (evo₁.keeps.2.trans isOpen) foundFn' lowered₂ grows stands₁
          fits₁ has hands ran₂
      · rw [if_pos length] at lowered
        obtain ⟨_, _, none, -⟩ := bind_eq_ok.mp lowered
        cases none

/-! ## Expressions -/

/-- An expression that is folded, or else computed. -/
theorem foldOr_simulates {e : Expr} {run : Unit → Lower ValueId}
    (simulates : Simulates (unitView l False env) (run ()) (Does (expr k n env e)) (Gives l)) :
    Simulates (unitView l False env) (Lower.foldOr e run) (Does (expr k n env e)) (Gives l) := by
  intro c avail σ σ' u callers s r s' a inv isOpen lowered grows stands fits ran
  rw [Lower.foldOr_eq] at lowered
  cases folded : Const.eval σ.symbols.env e with
  | ok v =>
    rw [folded] at lowered
    obtain ⟨rfl, rfl⟩ := expr_of_eval fits.sees.knows folded ran
    exact integer_reaches lowered grows stands fits
  | error f =>
    rw [folded] at lowered
    cases f with
    | notConstant => exact simulates inv isOpen lowered grows stands fits ran
    | _ => cases lowered

/-- A place is read. -/
theorem place_computed {e : Expr} (whole : e.Whole)
    (isPlace : (∃ s name, e = .ident s name) ∨ ∃ s t i, e = .index s t i)
    (walks : WalksTo l k n env e) :
    Simulates (unitView l False env) (do (← Lower.walk e (← Lower.startPlace e)).read)
      (Does (expr k (n + 1) env e)) (Gives l) := by
  intro c avail σ σ' u callers s r s' a inv isOpen lowered grows stands fits ran
  have ran : (do let p ← place k n env e; ofOption (p.read (← get).memory) : Run W Int32) s =
      some (r, s') := by
    rcases isPlace with ⟨_, _, rfl⟩ | ⟨_, _, _, rfl⟩
    · rwa [Does, expr] at ran
    · rwa [Does, expr] at ran
  obtain ⟨P, s₁, ran₁, rest₁⟩ := bind_eq_some.mp ran
  obtain ⟨s₂, s₃, ran₂, rest₂⟩ := bind_eq_some.mp rest₁
  cases ran₂
  obtain ⟨read, rfl⟩ := ofOption_eq_some.mp rest₂
  obtain ⟨p₀, σ₁, lowered₁, rest₁⟩ := bind_eq_ok.mp lowered
  obtain ⟨p, σ₂, lowered₂, rest₂⟩ := bind_eq_ok.mp rest₁
  have walked : (do Lower.walk e (← Lower.startPlace e)) σ = .ok p σ₂ :=
    bind_eq_ok.mpr ⟨p₀, σ₁, lowered₁, lowered₂⟩
  obtain ⟨avail₂, inv₂, evo₂, ok⟩ := (startWalk_runs whole inv).ok walked
  obtain ⟨_, -, evo₃, -⟩ := (Lower.read_runs inv₂ ok).ok rest₂
  refine (startWalk_simulates walks inv isOpen walked (evo₃.grows.trans grows) stands fits
    ran₁).bind (size_le evo₂) ?_
  rintro b goes stands₂ ⟨fits₂, denotes⟩
  rw [← evo₂.keeps.1] at fits₂ ⊢
  exact read_reaches (K := unitView l False env) inv₂ (evo₂.keeps.2.trans isOpen) ok rest₂ grows
    stands₂ fits₂ denotes read

/-- A logical operator is run as its operands say. -/
theorem logical_of_run {span : Span} {op : BinaryOp} {left right : Expr}
    (isLogical : op.isShortCircuit = true) {r : Int32}
    (ran : expr k (n + 1) env (.binary span op left right) s = some (r, s')) :
    Logical (op == .logicalOr) (Does (expr k n env left)) (Does (expr k n env right)) s r s' := by
  rw [expr] at ran
  obtain ⟨x, s₁, ran₁, rest₁⟩ := bind_eq_some.mp ran
  refine ⟨x, s₁, ran₁, ?_⟩
  cases op with
  | logicalAnd =>
    by_cases zero : x = 0
    · simp only [if_pos zero] at rest₁
      obtain ⟨rfl, rfl⟩ := pure_eq_some.mp rest₁
      exact .inl ⟨by simp [zero], rfl, rfl⟩
    · simp only [if_neg zero] at rest₁
      obtain ⟨y, s₂, ran₂, rest₂⟩ := bind_eq_some.mp rest₁
      obtain ⟨rfl, rfl⟩ := pure_eq_some.mp rest₂
      exact .inr ⟨by change ¬ (x != 0) = false; simp [zero], y, ran₂, rfl⟩
  | logicalOr =>
    by_cases zero : x = 0
    · simp only [ne_eq, not_true_eq_false, if_false, zero] at rest₁
      obtain ⟨y, s₂, ran₂, rest₂⟩ := bind_eq_some.mp rest₁
      obtain ⟨rfl, rfl⟩ := pure_eq_some.mp rest₂
      exact .inr ⟨by simp [zero], y, ran₂, rfl⟩
    · simp only [ne_eq, zero, not_false_eq_true, if_true] at rest₁
      obtain ⟨rfl, rfl⟩ := pure_eq_some.mp rest₁
      exact .inl ⟨by simp [zero], rfl, rfl⟩
  | _ => cases isLogical

/-- Any other binary operator is applied to both operands. -/
theorem both_of_run {span : Span} {op : BinaryOp} {left right : Expr}
    (notLogical : op.isShortCircuit = false) {r : Int32}
    (ran : expr k (n + 1) env (.binary span op left right) s = some (r, s')) :
    Both op (Does (expr k n env left)) (Does (expr k n env right)) s r s' := by
  rw [expr] at ran
  obtain ⟨x, s₁, ran₁, rest₁⟩ := bind_eq_some.mp ran
  have plain : (expr k n env right >>= fun y => ofOption (binary op x y) : Run W Int32) s₁ =
      some (r, s') := by
    cases op <;> first | exact rest₁ | cases notLogical
  obtain ⟨y, s₂, ran₂, rest₂⟩ := bind_eq_some.mp plain
  obtain ⟨result, rfl⟩ := ofOption_eq_some.mp rest₂
  exact ⟨x, s₁, y, ran₁, ran₂, result⟩

theorem computed_succ {e : Expr} (whole : e.Whole) (walks : ∀ {e}, e.Whole → WalksTo l k n env e)
    (computed : ∀ {e}, e.Whole → Computed l k n env e)
    (called : ∀ {name as}, Expr.AllWhole as → Called l k n env name as) :
    Computed l k (n + 1) env e := by
  unfold Computed
  cases e with
  | lit span v =>
    rw [Lower.expr]
    refine foldOr_simulates ?_
    intro c avail σ σ' u callers s r s' a inv isOpen lowered grows stands fits ran
    rw [Does, expr] at ran
    obtain ⟨rfl, rfl⟩ := pure_eq_some.mp ran
    exact integer_reaches lowered grows stands fits
  | group span inner =>
    rw [Lower.expr]
    refine foldOr_simulates ?_
    intro c avail σ σ' u callers s r s' a inv isOpen lowered grows stands fits ran
    rw [Does, expr] at ran
    exact computed (e := inner) whole inv isOpen lowered grows stands fits ran
  | ident span name =>
    have read := place_computed whole (.inl ⟨span, name, rfl⟩) (walks whole)
    rw [Lower.expr]
    refine foldOr_simulates ?_
    simpa only [Lower.walk, pure_bind] using read
  | index span target idx =>
    have read := place_computed whole (.inr ⟨span, target, idx, rfl⟩) (walks whole)
    rw [Lower.expr]
    refine foldOr_simulates ?_
    simpa only [Lower.walk, bind_assoc] using read
  | unary span op x =>
    rw [Lower.expr]
    refine foldOr_simulates ?_
    intro c avail σ σ' u callers s r s' a inv isOpen lowered grows stands fits ran
    rw [Does, expr] at ran
    obtain ⟨y, s₁, ran₁, rest₁⟩ := bind_eq_some.mp ran
    obtain ⟨result, rfl⟩ := ofOption_eq_some.mp rest₁
    obtain ⟨v, σ₁, lowered₁, rest₁⟩ := bind_eq_ok.mp lowered
    obtain ⟨avail₁, inv₁, evo₁, ok₁⟩ := ((Lower.expr_computes x whole.2).runs inv).ok lowered₁
    obtain ⟨_, -, evo₂, -⟩ := (Lower.applyUnary_runs inv₁ ok₁).ok rest₁
    refine (computed whole.2 inv isOpen lowered₁ (evo₂.grows.trans grows) stands fits ran₁).bind
      (size_le evo₁) ?_
    rintro b goes stands₁ ⟨fits₁, gives⟩
    rw [← evo₁.keeps.1] at fits₁ ⊢
    exact applyUnary_reaches inv₁ (evo₁.keeps.2.trans isOpen) ok₁ rest₁ grows stands₁ fits₁ gives
      result
  | binary span op left right =>
    obtain ⟨-, wholeLeft, wholeRight⟩ := whole
    have computesLeft := fun {c} => Lower.expr_computes (c := c) left wholeLeft
    have computesRight := fun {c} => Lower.expr_computes (c := c) right wholeRight
    rw [Lower.expr]
    refine foldOr_simulates ?_
    intro c avail σ σ' u callers s r s' a inv isOpen lowered grows stands fits ran
    cases isLogical : op.isShortCircuit with
    | true =>
      rw [isLogical, if_pos rfl] at lowered
      exact shortCircuit_simulates computesLeft computesRight (computed wholeLeft)
        (computed wholeRight) inv isOpen lowered grows stands fits (logical_of_run isLogical ran)
    | false =>
      rw [isLogical, if_neg (by simp)] at lowered
      exact applyBinary_simulates computesLeft computesRight (computed wholeLeft)
        (computed wholeRight) inv isOpen lowered grows stands fits (both_of_run isLogical ran)
  | call span name nameSpan as =>
    rw [Lower.expr]
    refine foldOr_simulates ?_
    intro c avail σ σ' u callers s r s' a inv isOpen lowered grows stands fits ran
    rw [Does, expr] at ran
    obtain ⟨result, s₁, ran₁, rest₁⟩ := bind_eq_some.mp ran
    obtain ⟨rfl, rfl⟩ := ofOption_eq_some.mp rest₁
    obtain ⟨⟨v, sym⟩, σ₁, lowered₁, rest₁⟩ := bind_eq_ok.mp lowered
    simp only at rest₁
    split at rest₁
    · obtain ⟨_, _, none, -⟩ := bind_eq_ok.mp rest₁
      cases none
    · cases rest₁
      refine (called whole span nameSpan inv isOpen lowered₁ grows stands fits ran₁).mono ?_
      rintro b ⟨fits', gives⟩
      exact ⟨fits', gives r rfl⟩
  | bare | missing => exact whole.elim

/-- Expressions are computed as they are evaluated, in runs with at most `n` as fuel. -/
structure Evaluates (l : Loaded W) (k : Context W) (n : Nat) : Prop where
  walks : ∀ {m env e}, m ≤ n → e.Whole → WalksTo l k m env e
  computed : ∀ {m env e}, m ≤ n → e.Whole → Computed l k m env e
  called : ∀ {m env name as}, m ≤ n → Expr.AllWhole as → Called l k m env name as

theorem evaluates_of_invokes (invokes : ∀ m < n, Invokes l k m) : Evaluates l k n := by
  have all : ∀ m ≤ n, ∀ env, (∀ e : Expr, e.Whole → WalksTo l k m env e) ∧
      (∀ e : Expr, e.Whole → Computed l k m env e) ∧
      (∀ es ts, Expr.AllWhole es → ParamTys ts → ts.length = es.length → Passed l k m env es ts) ∧
      ∀ name as, Expr.AllWhole as → Called l k m env name as := by
    intro m
    induction m with
    | zero =>
      refine fun _ env => ⟨fun e _ => ?_, fun e _ => ?_, fun es ts _ _ _ => ?_, fun name as _ => ?_⟩
      · intro _ _ _ _ _ _ _ _ _ _ _ _ _ _ _ _ _ _ _ ran
        cases ran
      · intro _ _ _ _ _ _ _ _ _ _ _ _ _ _ _ _ ran
        cases ran
      · intro _ _ _ _ _ _ _ _ _ _ _ _ _ _ _ _ ran
        rw [Does, args] at ran
        · cases ran
        all_goals simp
      · intro _ _ _ _ _ _ _ _ _ _ _ _ _ _ _ _ _ _ ran
        cases ran
    | succ m ih =>
      intro le env
      obtain ⟨walks, computed, passed, called⟩ := ih (by omega) env
      exact ⟨fun e whole => walksTo_succ whole (walks _) (computed _),
        fun e whole => computed_succ whole (walks _) (computed _) (called _ _),
        fun es ts whole paramsOk length =>
          passed_succ whole paramsOk length (walks _) (computed _) (passed _ _),
        fun name as whole => called_succ whole (passed _ _) (invokes m (by omega))⟩
  exact ⟨fun le whole => (all _ le _).1 _ whole, fun le whole => (all _ le _).2.1 _ whole,
    fun le whole => (all _ le _).2.2.2 _ _ whole⟩

end SysY.Meaning

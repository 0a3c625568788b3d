import SysY.Proofs.Meaning.Branch

/-! # Bodies of functions

Statements are executed in order, inside their scopes. A function starts with its parameters, which
are copied into slots, and a body that ends without a `return` is followed by the return that was
added when blocks were closed. -/

namespace SysY.Meaning

open Koopa (Val Activation Config ValueId BlockId FnId Program Avail ValueDef)
open Lower (Inv Operand Evo Pending Acts)
open Source (Span)

variable {W : Type} {l : Loaded W} {k : Context W} {n m : Nat} {env env' : Env}
  {callers : List (ValueId × Activation)} {c : Lower.Site} {avail avail₀ : Avail}
  {σ σ₀ σ₁ σ' : Lower.State} {a b : Point W} {s s₁ s' : State W} {o : Outcome}

/-! ## Scopes -/

/-- What was lowered in a scope of its own. -/
theorem inScope_eq_ok {kind : ScopeKind} {body : Lower Unit} {Q : Unit → Avail → Lower.State → Prop}
    (inv : Inv c avail σ) (runs : Lower.Runs .item c.inScope avail (σ.pushed kind) body Q)
    (lowered : Lower.inScope kind body σ = .ok () σ') :
    ∃ σ₁, body (σ.pushed kind) = .ok () σ₁ ∧ σ' = σ₁.popped := by
  rw [Lower.inScope_eq inv.site] at lowered
  cases found : body (σ.pushed kind) with
  | error e σ₁ =>
    simp only [Lower.andFinally, found] at lowered
    split at lowered <;> cases lowered
  | ok u σ₁ =>
    obtain ⟨avail₁, inv₁, -⟩ := runs.ok found
    simp only [Lower.andFinally, found, Lower.leave_popped inv₁.site rfl] at lowered
    cases lowered
    exact ⟨σ₁, rfl, rfl⟩

/-- An empty scope hides nothing. -/
theorem Matches.pushed (fits : Matches l σ.symbols env s a) (kind : ScopeKind) :
    Matches l (σ.pushed kind).symbols env s a :=
  ⟨fits.toAgrees, fun _ _ found => fits.sees found⟩

theorem block_executes {ss : List Stmt} {run : Env → Run W Outcome}
    (whole : Stmt.AllWhole ss) (executes : Executes l (Lower.stmts ss) run) :
    Executes l (Lower.inScope .block (Lower.stmts ss)) fun env => do
      return (← run env).leave env := by
  intro c avail σ σ' callers env s o s' a depth inv isOpen lowered covers stands fits ran
  obtain ⟨o₁, s₁, ran₁, rest⟩ := bind_eq_some.mp ran
  obtain ⟨rfl, rfl⟩ := pure_eq_some.mp rest
  have inner : 0 < c.inScope.depth := Nat.succ_pos _
  have runs := (Lower.stmts_acts ss whole inner).runs (inv.pushed .block)
  obtain ⟨σ₁, lowered₁, rfl⟩ := inScope_eq_ok inv runs lowered
  obtain ⟨avail₁, inv₁, evo₁, -⟩ := runs.ok lowered₁
  have ending : Ending l c.inScope callers (size (σ.pushed .block)) a s₁
      (fun env' => Continues l callers (σ.pushed .block) a σ₁ env' s₁) o₁ :=
    executes (c := c.inScope) inner (inv.pushed .block) isOpen lowered₁ ⟨covers.grows, covers.apart⟩
      (stands.congr ⟨rfl, rfl⟩ rfl) (fits.pushed .block) ran₁
  have outer : Ending l c callers (size σ) a s₁
      (fun env' => Continues l callers (σ.pushed .block) a σ₁ env' s₁) o₁ := by
    cases o₁ <;> exact ending
  refine outer.leave ?_
  rintro env' ⟨isOpen₁, b, goes, stands₁, fits₁⟩
  exact ⟨isOpen₁, b, goes, stands₁.congr ⟨rfl, rfl⟩ rfl,
    fits.goes inv evo₁.popped.keeps goes (Nat.le_refl _) fits₁.toAgrees⟩

/-! ## Statements -/

mutual

/-- Whole statements are executed as they are run, with any fuel for which expressions are computed
as they are evaluated. -/
theorem stmt_executes (evaluates : Evaluates l k n) : (st : Stmt) → st.Whole → ∀ m ≤ n,
    Executes l (Lower.stmt st) fun env => stmt k m env st
  | st, whole, 0, _ => fun _ _ _ _ _ _ _ _ _ _ _ _ _ _ _ _ _ ran => by cases ran
  | .block _ ss, whole, m + 1, le => by
    rw [Lower.stmt]
    simp only [stmt]
    exact block_executes whole (stmts_executes evaluates ss whole m (Nat.le_of_succ_le le))
  | .decl _ none, whole, _ + 1, _ => by
    obtain ⟨d, hd, -⟩ := whole
    cases hd
  | .decl _ (some d), whole, m + 1, le => by
    obtain ⟨_, ⟨⟩, dWhole⟩ := whole
    rw [Lower.stmt]
    simp only [stmt]
    exact decl_executes evaluates dWhole (Nat.le_of_succ_le le)
  | .assign _ target value, whole, m + 1, le => by
    rw [Lower.stmt]
    exact assign_executes evaluates whole.1 whole.2 (Nat.le_of_succ_le le)
  | .expr _ none, _, m + 1, _ => by
    intro c avail σ σ' callers env s o s' a depth inv isOpen lowered covers stands fits ran
    beta_reduce at ran
    rw [Lower.stmt] at lowered
    rw [stmt] at ran
    cases lowered
    obtain ⟨rfl, rfl⟩ := pure_eq_some.mp ran
    exact ⟨isOpen, .refl stands fits⟩
  | .expr _ (some e), whole, m + 1, le => by
    rw [Lower.stmt]
    exact effect_executes evaluates (whole e rfl) (Nat.le_of_succ_le le)
  | .ifThen _ cond thenArm none, whole, m + 1, le => by
    obtain ⟨condWhole, thenWhole, thenPlain⟩ := whole
    rw [Lower.stmt]
    simp only [stmt]
    refine ifThen_executes evaluates condWhole (Nat.le_of_succ_le le) (fun depth => ?_)
      (stmt_executes evaluates thenArm thenWhole m (Nat.le_of_succ_le le))
    have acts := Lower.stmt_acts thenArm thenWhole depth
    rwa [Lower.kindOf, thenPlain] at acts
  | .ifThen _ cond thenArm (some elseArm), whole, m + 1, le => by
    obtain ⟨condWhole, ⟨thenWhole, thenPlain⟩, elseWhole, elsePlain⟩ := whole
    rw [Lower.stmt]
    simp only [stmt]
    refine ifThenElse_executes evaluates condWhole (Nat.le_of_succ_le le) (fun depth => ?_)
      (fun depth => ?_) (stmt_executes evaluates thenArm thenWhole m (Nat.le_of_succ_le le))
      (stmt_executes evaluates elseArm elseWhole m (Nat.le_of_succ_le le))
    · have acts := Lower.stmt_acts thenArm thenWhole depth
      rwa [Lower.kindOf, thenPlain] at acts
    · have acts := Lower.stmt_acts elseArm elseWhole depth
      rwa [Lower.kindOf, elsePlain] at acts
  | .while _ cond body, whole, m + 1, le => by
    obtain ⟨condWhole, bodyWhole, bodyPlain⟩ := whole
    rw [Lower.stmt]
    refine loop_executes evaluates condWhole (fun depth => ?_)
      (fun i small => stmt_executes evaluates body bodyWhole i small) le
    have acts := Lower.stmt_acts body bodyWhole depth
    rwa [Lower.kindOf, bodyPlain] at acts
  | .break _, _, m + 1, _ => by
    rw [Lower.stmt]
    simp only [stmt]
    exact leaveLoop_executes (.inr ⟨rfl, rfl⟩)
  | .continue _, _, m + 1, _ => by
    rw [Lower.stmt]
    simp only [stmt]
    exact leaveLoop_executes (.inl ⟨rfl, rfl⟩)
  | .return _ value, whole, m + 1, le => by
    rw [Lower.stmt]
    exact ret_executes evaluates whole (Nat.le_of_succ_le le)
  | .bare .., whole, _ + 1, _ => whole.elim
  | .missing _, whole, _ + 1, _ => whole.elim

/-- Statements are executed in order, until one does not end normally. -/
theorem stmts_executes (evaluates : Evaluates l k n) : (ss : List Stmt) → Stmt.AllWhole ss →
    ∀ m ≤ n, Executes l (Lower.stmts ss) fun env => stmts k m env ss
  | ss, whole, 0, _ => fun _ _ _ _ _ _ _ _ _ _ _ _ _ _ _ _ _ ran => by
    beta_reduce at ran
    rw [stmts] at ran
    cases ran
  | [], _, m + 1, _ => by
    intro c avail σ σ' callers env s o s' a depth inv isOpen lowered covers stands fits ran
    beta_reduce at ran
    rw [Lower.stmts] at lowered
    rw [stmts] at ran
    cases lowered
    obtain ⟨rfl, rfl⟩ := pure_eq_some.mp ran
    exact ⟨isOpen, .refl stands fits⟩
  | st :: ss, whole, m + 1, le => by
    intro c avail σ σ' callers env s o s' a depth inv isOpen lowered covers stands fits ran
    beta_reduce at ran
    rw [Lower.stmts] at lowered
    rw [stmts] at ran
    obtain ⟨o₁, s₁, ran₁, rest⟩ := bind_eq_some.mp ran
    obtain ⟨_, σ₁, lowered₁, lowered₂⟩ := bind_eq_ok.mp lowered
    obtain ⟨avail₁, inv₁, evo₁, -⟩ := ((Lower.stmt_acts st whole.1 depth).item.runs inv).ok lowered₁
    obtain ⟨_, -, evo₂, -⟩ := ((Lower.stmts_acts ss whole.2 depth).runs inv₁).ok lowered₂
    have ending : Ending l c callers (size σ) a s₁
        (fun env' => Continues l callers σ a σ₁ env' s₁) o₁ :=
      stmt_executes evaluates st whole.1 m (Nat.le_of_succ_le le) depth inv isOpen lowered₁
        (covers.sub (Nat.le_refl _) evo₂.grows) stands fits ran₁
    cases o₁ with
    | normal env₁ =>
      obtain ⟨isOpen₁, b, goes, stands₁, fits₁⟩ := ending
      have later : Ending l c callers (size σ₁) b s'
          (fun env' => Continues l callers σ₁ b σ' env' s') o :=
        stmts_executes evaluates ss whole.2 m (Nat.le_of_succ_le le) depth inv₁ isOpen₁ lowered₂
          (covers.sub (size_le evo₁) (.refl _)) stands₁ fits₁ rest
      refine later.after goes (size_le evo₁) ?_
      rintro env' ⟨isOpen', d, goes', stands', fits'⟩
      exact ⟨isOpen', d, goes.trans (goes'.mono (size_le evo₁) goes.later.grows), stands', fits'⟩
    | «break» | «continue» | «return» =>
      obtain ⟨rfl, rfl⟩ := pure_eq_some.mp rest
      exact ending

end

/-! ## Parameters -/

/-- Copying one parameter into a slot of its own. -/
def spillParam (p : Param) (t : Ty) (v : ValueId) : Lower Unit := do
  Lower.setName v ("@" ++ p.name)
  let slot ← Lower.emitNew (·.alloc · t.koopa)
  Lower.setName slot ("@" ++ p.name)
  let _ ← Lower.tryEmitNew (·.store · v slot)
  Lower.declare { name := p.name, span := p.nameSpan, type := t, meaning := .variable slot }

theorem spillParams_cons {t : Ty} (solid : t.Solid) (p : Param) (ps : List Param) (ts : List Ty)
    (v : ValueId) (vs : List ValueId) : Lower.spillParams (p :: ps) (t :: ts) (v :: vs) = (do
      spillParam p t v
      Lower.spillParams ps ts vs) := by
  rw [Lower.spillParams, Ty.toKoopa_eq solid]
  simp only [spillParam, bind_assoc, Lower.lift_bind]

section Spill

variable {p : Param} {t : Ty} {v : ValueId} {arg : Arg} {B : Binding}

/-- What the name of a parameter stands for. -/
inductive Receives (s : State W) : Ty → Arg → State W → Binding → Prop
  | int (v : Int32) : Receives s .int (.int v) ⟨s.memory ++ [[some v]], s.world⟩
      (.object [] s.memory.length)
  | array (dims : List Int) (p : Pointer) : Receives s (.pointer dims) (.array p) s (.array dims p)

variable (l arg B) in
/-- A parameter is copied into its slot. -/
theorem spillParam_continues (depth : 0 < c.depth) (inv : Inv c avail σ)
    (isOpen : σ.frame.isOpen = true) (isParam : t = .int ∨ ∃ ds, t = .pointer ds ∧ Bounds ds)
    (operand : Operand avail σ v t.koopa) (lowered : spillParam p t v σ = .ok () σ') :
    ∃ avail', Inv c avail' σ' ∧ Evo .item avail σ avail' σ' ∧
      ∀ callers {a s s' env}, σ'.program.Grows l.program → Stands l.program σ a.here →
        Matches l σ.symbols env s a → Hands l v arg a → Receives s t arg s' B →
        Continues l callers σ a σ' ((p.name, B) :: env) s' := by
  obtain ⟨_, σ₁, lowered₁, rest₁⟩ := bind_eq_ok.mp lowered
  obtain ⟨slot, σ₂, lowered₂, rest₂⟩ := bind_eq_ok.mp rest₁
  obtain ⟨_, σ₃, lowered₃, rest₃⟩ := bind_eq_ok.mp rest₂
  obtain ⟨_, σ₄, lowered₄, lowered₅⟩ := bind_eq_ok.mp rest₃
  have solid : t.Solid := by
    rcases isParam with rfl | ⟨ds, rfl, bounds⟩
    · trivial
    · exact bounds
  obtain ⟨avail₁, inv₁, evo₁, -⟩ :=
    (Lower.setName_runs inv operand.sees (Lower.head_at p.name)).ok lowered₁
  obtain ⟨avail₂, inv₂, evo₂, placed⟩ := (Lower.alloc_runs (k := .expr) inv₁ _).ok lowered₂
  have slotOk : Operand avail₂ σ₂ slot (.pointer t.koopa) := placed.operand (by simp)
  obtain ⟨avail₃, inv₃, evo₃, -⟩ :=
    (Lower.setName_runs inv₂ slotOk.sees (Lower.head_at p.name)).ok lowered₃
  have operand₃ := ((operand.evo evo₁).evo evo₂).evo evo₃
  obtain ⟨avail₄, inv₄, evo₄, -⟩ :=
    (Lower.store_runs (k := .expr) inv₃ operand₃ (slotOk.evo evo₃)).ok lowered₄
  have evo₂₄ := evo₃.trans evo₄ inv₂.laid
  have since₂ := evo₁.trans evo₂ inv.laid
  have since₄ := since₂.trans evo₂₄ inv.laid
  have declares : Lower.Ends (Lower.At c)
      (Lower.declare ⟨p.name, p.nameSpan, t, .variable slot⟩) σ₄ fun _ σ' =>
        ∃ avail', Inv c avail' σ' ∧ Evo .item avail₄ σ₄ avail' σ' ∧ True := by
    refine Lower.declare_runs inv₄ depth (.refl inv₄.program) .inl ⟨solid, .inr ⟨_, rfl, ?_⟩⟩ ?_
    · have slotHas := evo₂₄.grows.values placed.has
      rwa [inv₂.site.fn] at slotHas
    · intro isOpen w meaning
      cases meaning
      exact evo₂₄.avail isOpen (placed.avail (evo₂₄.here isOpen).1)
  obtain ⟨avail₅, inv₅, evo₅, -⟩ := declares.ok lowered₅
  refine ⟨avail₅, inv₅, since₄.of_expr.trans evo₅ inv.laid, ?_⟩
  intro callers a s s' env grows stands fits hands receives
  obtain ⟨x, value, passes⟩ := hands
  obtain ⟨inner, outer, scopes⟩ := inv₄.site.scopes depth
  have valid := valid_of_inv inv₄
  obtain rfl := declare_eq_ok valid scopes lowered₅
  have grows₃ := evo₄.grows.trans grows
  have symbols : σ₄.symbols = σ.symbols := since₄.keeps.1
  have single : t.koopa.cells = 1 := by
    rcases isParam with rfl | ⟨ds, rfl, -⟩ <;> rfl
  -- The slot is written before anything stands for it.
  obtain ⟨stands₁, symbols₁⟩ := setName_stays operand.sees lowered₁ stands
  obtain ⟨b₁, goes₁, stands₂, fits₁, holds₁⟩ : Reaches l False callers σ₁ a σ₂ fun b =>
      Matches l σ₁.symbols env s b ∧ Slot l slot a.memory.length [none] b := by
    rw [← symbols₁] at fits
    have reaches : Reaches l False callers σ₁ a σ₂ _ := alloc_reaches (K := unitView l False env) inv₁
      (evo₁.keeps.2.trans isOpen) lowered₂ (evo₃.grows.trans grows₃) stands₁ fits
    rwa [single] at reaches
  obtain ⟨stands₃, -⟩ := setName_stays slotOk.sees lowered₃ stands₂
  have value₁ : b₁.operand l v = some x :=
    (goes₁.operand (le_size (operand.evo evo₁))).trans value
  obtain ⟨b₂, goes₂, stands₄, holds₂, known, world, memory⟩ :
      ∃ b₂, Goes l False callers (size σ₃) a.memory.length b₁ b₂ ∧ _ :=
    holds₁.store inv₃ ((since₂.trans evo₃ inv.laid).keeps.2.trans isOpen) (slotOk.evo evo₃)
      (slotOk.evo evo₃) lowered₄ grows stands₃ holds₁.address ⟨Int.le_refl 0, by simp⟩ value₁
  have goes : Goes l False callers (size σ) a.memory.length a b₂ :=
    (goes₁.mono (size_le evo₁) (Nat.le_refl _)).trans
      (goes₂.mono (size_le (since₂.trans evo₃ inv.laid)) (Nat.le_refl _))
  have same : Holds b₂.known s.memory b₂.memory := by
    rw [known]
    exact fits₁.holds.congr (holds₁.spares memory)
  have isOpen₄ := since₄.keeps.2.trans isOpen
  cases receives with
  | int n =>
    cases passes
    obtain ⟨b, here, goes', agrees, address, isKnown⟩ :=
      Slot.adopt (show Slot l slot _ (cellsOf [some n]) b₂ from holds₂) fits.toAgrees goes same
        (world.trans fits₁.world)
    refine ⟨isOpen₄, b, goes', here ▸ stands₄.congr ⟨rfl, rfl⟩ rfl, agrees, ?_⟩
    have sees : Sees l b.known b.memory b.here.regs σ₄.symbols env :=
      fits.sees.goes inv goes' (Nat.le_refl _) fun _ => by rw [symbols]
    exact sees.declared valid scopes (.object rfl trivial address isKnown)
  | array dims pointer =>
    cases passes with
    | array points =>
      have sees : Sees l b₂.known b₂.memory b₂.here.regs σ₄.symbols env :=
        fits.sees.goes inv goes (Nat.le_refl _) fun _ => by rw [symbols]
      refine ⟨isOpen₄, b₂, goes, stands₄.congr ⟨rfl, rfl⟩ rfl,
        ⟨same, world.trans fits₁.world, fits.image.later goes.later⟩, ?_⟩
      exact sees.declared valid scopes
        (.array rfl rfl holds₂.address holds₂.unknown holds₂.here (points.later goes.later))

theorem bindParams_nil {ps : List Param} {as : List Arg}
    (ran : bindParams ps [] as env s = some (env', s')) :
    ps = [] ∧ as = [] ∧ env = env' ∧ s = s' := by
  cases ps with
  | nil =>
    cases as with
    | nil =>
      obtain ⟨rfl, rfl⟩ := pure_eq_some.mp ran
      exact ⟨rfl, rfl, rfl, rfl⟩
    | cons => cases ran
  | cons => cases ran

theorem bindParams_cons {ps : List Param} {ts : List Ty} {as : List Arg}
    (ran : bindParams ps (t :: ts) as env s = some (env', s')) :
    ∃ p ps' arg as' B s₁, ps = p :: ps' ∧ as = arg :: as' ∧ Receives s t arg s₁ B ∧
      bindParams ps' ts as' ((p.name, B) :: env) s₁ = some (env', s') := by
  cases ps with
  | nil => cases ran
  | cons p ps =>
    cases as with
    | nil => cases t <;> cases ran
    | cons arg as =>
      cases t with
      | int =>
        cases arg with
        | array => cases ran
        | int n =>
          obtain ⟨id, s₁, made, rest⟩ := bind_eq_some.mp ran
          obtain ⟨rfl, rfl⟩ := create_eq_some.mp made
          exact ⟨p, ps, _, as, _, _, rfl, rfl, .int n, rest⟩
      | pointer dims =>
        cases arg with
        | int => cases ran
        | array pointer => exact ⟨p, ps, _, as, _, _, rfl, rfl, .array dims pointer, ran⟩
      | void | array => cases ran

theorem spillParams_continues {ps : List Param} {ts : List Ty} {vs : List ValueId} {as : List Arg}
    (depth : 0 < c.depth) (paramsOk : Lower.ParamTys ts) (inv : Inv c avail σ)
    (isOpen : σ.frame.isOpen = true) (params : Lower.Params σ.program c.fn ts vs)
    (lowered : Lower.spillParams ps ts vs σ = .ok () σ') (grows : σ'.program.Grows l.program)
    (stands : Stands l.program σ a.here) (fits : Matches l σ.symbols env s a)
    (hands : List.Forall₂ (fun v arg => Hands l v arg a) vs as)
    (ran : bindParams ps ts as env s = some (env', s')) :
    Continues l callers σ a σ' env' s' := by
  induction ts generalizing avail σ ps vs as env s a with
  | nil =>
    obtain ⟨rfl, rfl, rfl, rfl⟩ := bindParams_nil ran
    cases lowered
    exact ⟨isOpen, .refl stands fits⟩
  | cons t ts ih =>
    obtain ⟨p, ps, arg, as, B, s₁, rfl, rfl, receives, rest⟩ := bindParams_cons ran
    obtain ⟨v, vs, ⟨i, has⟩, tail, rfl⟩ := List.forall₂_cons_left_iff.mp params
    obtain ⟨head, hands'⟩ := List.forall₂_cons.mp hands
    have solid := paramsOk.solid (t := t) (by simp)
    have later : Lower.ParamTys ts := fun u hu => paramsOk u (by simp [hu])
    rw [spillParams_cons solid] at lowered
    obtain ⟨_, σ₁, lowered₁, lowered₂⟩ := bind_eq_ok.mp lowered
    have operand : ∀ {v : ValueId} {t : Ty} {i : Nat}, t.Solid →
        σ.program.Has v (some c.fn) t.koopa (.arg i) → Operand avail σ v t.koopa := by
      intro v t i solid has
      refine .of_has has (.inl ?_) rfl (Lower.koopa_ne_unit solid)
      rw [inv.site.fn]
    obtain ⟨avail₁, inv₁, evo₁, continues⟩ := spillParam_continues l arg B depth
      inv isOpen (paramsOk t (by simp)) (operand solid has) lowered₁
    have params₁ := Lower.Params.grows evo₁.grows tail
    obtain ⟨_, -, evo₂, -⟩ := (Lower.spillParams_runs depth later inv₁ params₁).ok lowered₂
    obtain ⟨isOpen₁, b, goes, stands₁, fits₁⟩ :=
      continues callers (evo₂.grows.trans grows) stands fits head receives
    have hands₁ : List.Forall₂ (fun v arg => Hands l v arg b) vs as := by
      refine List.forall₂_iff_get.mpr ⟨hands'.length_eq, fun i hi hi' => ?_⟩
      have small : i < ts.length := tail.length_eq ▸ hi
      obtain ⟨j, has⟩ := tail.get small hi
      exact (hands'.get hi hi').goes (operand (later.solid (List.get_mem ts ⟨i, small⟩)) has) goes
    obtain ⟨isOpen', d, goes', stands', fits'⟩ :=
      ih later inv₁ isOpen₁ params₁ lowered₂ stands₁ fits₁ hands₁ rest
    exact ⟨isOpen', d, goes.trans (goes'.mono (size_le evo₁) goes.later.grows), stands', fits'⟩

end Spill

end SysY.Meaning

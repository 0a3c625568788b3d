import SysY.Proofs.Lower.Output
import SysY.Proofs.Lower.Together

/-! # Unreachable code is checked like reachable code

Statements are lowered in the same way whether their instructions are kept or dropped. Of two runs
over the same statements, one from an open block and one from none, both fail with the same failure,
or both succeed, make equally many blocks and bind the same names. The run without a block adds no
instruction at all. -/

namespace SysY

open Koopa (ValueId BlockId FnId Avail)

/-- The instructions of a block. A block that is not laid out has none. -/
def Koopa.Program.instsOf (p : Koopa.Program) (f : FnId) (b : BlockId) : List ValueId :=
  ((p.fn? f).bind (·.insts? b)).getD []

namespace Lower

open Source (Span)

variable {c : Site} {σ τ : State}

/-- Operations that end alike in all twin states. -/
structure Concur (c : Site) (m n : Lower Unit) : Prop where
  runs : ∀ {σ τ}, Twin c σ τ → Together c σ τ m n fun _ _ _ _ => True

/-! ## Simple statements -/

theorem assign_concur {target value : Expr} (placeWhole : target.Whole) (valueWhole : value.Whole) :
    Concur c (assign target value) (assign target value) := by
  constructor
  intro σ τ twin
  unfold assign
  refine (asPlace_together twin target _).bind ?_
  rintro ⟨span, named⟩ σ _ τ - - ⟨rfl, rfl, rfl, isPlace⟩
  refine (findObject_together twin named.name named.nameSpan).bind ?_
  rintro s σ s' τ - - ⟨rfl, rfl, same, found, -, notFn⟩
  -- What follows when the target is no constant.
  have aimed : (∀ v slot, s.meaning ≠ .constant v slot) → Together c σ τ
      (assigning target value named) (assigning target value named) fun _ _ _ _ => True := by
    intro mutable
    refine (startPlace_together twin target).bind ?_
    rintro p₀ σ₁ q₀ τ₁ twin₁ - ⟨alike₀, named', isPlace', found'⟩
    obtain rfl := Option.some.inj (isPlace.symm.trans isPlace')
    obtain rfl := Option.some.inj (found.symm.trans found')
    refine (walk_together target placeWhole twin₁ alike₀).bind ?_
    rintro p σ₂ q τ₂ twin₂ - ⟨alike, isSymbol⟩
    simp only [storing, alike.type, alike.span]
    refine .guard (fun _ => .raise twin₂ rfl) fun scalar => ?_
    have int : p.type = .int := Ty.isScalar_iff.mp (by simpa using scalar)
    refine ((expr_agree value valueWhole).runs twin₂).bind fun {v σ₃ w τ₃} twin₃ onward₃ _ => ?_
    rcases alike.addr with ⟨a, b, ha, hb, -, both⟩ | ⟨-, -, -, v, slot, meaning⟩
    · rw [int] at both
      have address : ∀ {q : Place} {a : ValueId} (ρ : State), q.addr = some a →
          q.address ρ = .ok a ρ := by
        intro q a ρ isAddr
        rw [Place.address, isAddr]
        rfl
      refine .of_eq (bind_ok (address σ₃ ha)) (bind_ok (address τ₃ hb)) ?_
      exact (store_together twin₃ (both.onward onward₃)).bind fun twin₄ _ _ => .pure twin₄ trivial
    · rw [isSymbol] at meaning
      exact absurd meaning (mutable v slot)
  cases meaning : s.meaning with
  | constant v slot =>
    obtain ⟨slot', meaning'⟩ := Symbol.constant_of_outline same meaning
    simp only [meaning']
    exact .error twin.left.site twin.right.site
  | «variable» slot =>
    obtain ⟨slot', meaning'⟩ := Symbol.variable_of_outline same meaning
    simp only [meaning']
    exact aimed (by simp [meaning])
  | function fn params defined =>
    rw [Symbol.isFunction, meaning] at notFn
    cases notFn

/-- Ending the current block, if it is open. -/
theorem sealOff_together {α β : Type} {f f' : Koopa.Program → FnId → ValueId × Koopa.Program}
    {x x' : Koopa.ValueDef} {next : Unit → Lower α} {next' : Unit → Lower β}
    {Q : α → State → β → State → Prop} (twin : Twin c σ τ)
    (eq : f σ.program σ.frame.fn = σ.program.inst σ.frame.fn .unit x)
    (eq' : f' τ.program τ.frame.fn = τ.program.inst τ.frame.fn .unit x')
    (h : ∀ {σ' τ'}, Twin c σ' τ' → Onward σ τ σ' τ' →
      Together c σ' τ' (next ()) (next' ()) Q) :
    Together c σ τ (do let t ← make f; let u ← sealOff t; next u)
      (do let t ← make f'; let u ← sealOff t; next' u) Q := by
  have first : Together c σ τ (do sealOff (← make f)) (do sealOff (← make f'))
      fun _ _ _ _ => True :=
    (Together.adds twin (sealOff_adds twin.left eq) (sealOff_adds twin.right eq')).mono
      fun _ _ _ => trivial
  have whole := first.bind (f := next) (g := next') fun twin' onward _ => h twin' onward
  simpa only [bind_assoc] using whole

theorem jump_adds (fit : Fit c σ) (b : BlockId) : Adds c σ (jump b) fun _ _ => True := by
  obtain ⟨a, σ', done, still, -⟩ := sealOff_adds (f := (·.jump · b)) fit rfl
  exact ⟨a, σ', done, still, trivial⟩

theorem leaveLoop_concur (span : Span) (keyword : String) (target : LoopTargets → BlockId) :
    Concur c (leaveLoop span keyword target) (leaveLoop span keyword target) := by
  constructor
  intro σ τ twin
  refine .of_eq (leaveLoop_eq span keyword target σ) (leaveLoop_eq span keyword target τ) ?_
  rw [twin.left.site.loops, twin.right.site.loops]
  split
  · exact .raise twin rfl
  · exact (Together.adds twin (jump_adds twin.left _) (jump_adds twin.right _)).mono
      fun _ _ _ => trivial

theorem currentName_together (twin : Twin c σ τ) :
    Together c σ τ currentName currentName fun n σ' n' τ' => n' = n ∧ Twin c σ' τ' := by
  have name : ∀ {ρ : State} {d : Koopa.Fn}, Fit c ρ → ρ.program.fn? c.fn = some d →
      currentName ρ = .ok (d.name.drop 1).toString ρ := by
    intro ρ d fit found
    rw [← fit.site.fn] at found
    simp only [currentName, get_bind, Koopa.Program.fn_eq_ok.mpr found, lift]
    rfl
  obtain ⟨d, found⟩ := twin.left.fn
  obtain ⟨e, found'⟩ := twin.right.fn
  unfold Together
  rw [name twin.left found, name twin.right found', twin.name found found']
  exact .ok twin (.refl σ τ) ⟨rfl, twin⟩

theorem ret_concur {span : Span} {value : Option Expr} (whole : ∀ e ∈ value, e.Whole) :
    Concur c (ret span value) (ret span value) := by
  constructor
  intro σ τ twin
  have finish : ∀ {σ₁ τ₁ v w}, Twin c σ₁ τ₁ → Together c σ₁ τ₁
      (do sealOff (← make (·.ret · v))) (do sealOff (← make (·.ret · w))) fun _ _ _ _ => True :=
    fun twin₁ => (Together.adds twin₁ (sealOff_adds twin₁.left rfl)
      (sealOff_adds twin₁.right rfl)).mono fun _ _ _ => trivial
  refine .of_eq (ret_eq span value σ) (ret_eq span value τ) ?_
  rw [twin.left.site.ret, twin.right.site.ret]
  cases value with
  | none =>
    cases c.ret == .void with
    | true => exact finish twin
    | false =>
      simp only [map_eq_pure_bind, bind_assoc, pure_bind]
      exact (integer_together twin 0).bind fun twin₁ _ _ => finish twin₁
  | some e =>
    cases c.ret == .void with
    | true =>
      refine (currentName_together twin).bind ?_
      rintro n σ₁ _ τ₁ twin₁ - ⟨rfl, -⟩
      exact .error twin₁.left.site twin₁.right.site
    | false =>
      simp only [map_eq_pure_bind, bind_assoc, pure_bind]
      exact ((expr_agree e (whole e rfl)).runs twin).bind fun twin₁ _ _ => finish twin₁

/-! ## Conditionals -/

theorem goTo_together {b : BlockId} (reachable reachable' : Bool) (twin : Twin c σ τ)
    (common : Common c σ τ b) :
    Together c σ τ (goTo b reachable) (goTo b reachable') fun _ _ _ _ => True := by
  have adds : ∀ {ρ : State} (reachable : Bool), Fit c ρ →
      (∀ {d}, ρ.program.fn? c.fn = some d → b ∈ d.blocks) →
      Adds c ρ (goTo b reachable) fun _ _ => True := by
    intro ρ reachable fit laid
    cases reachable with
    | false => exact ⟨(), ρ, rfl, .refl fit, trivial⟩
    | true => exact ⟨(), ρ.moved b true, rfl, (Still.refl fit).moved b true fun _ => laid, trivial⟩
  exact (Together.adds twin (adds reachable twin.left common.1)
    (adds reachable' twin.right common.2)).mono fun _ _ _ => trivial

theorem leaveTo_together (b : BlockId) (twin : Twin c σ τ) :
    Together c σ τ (leaveTo b) (leaveTo b) fun _ _ _ _ => True := by
  have adds : ∀ {ρ : State}, Fit c ρ → Adds c ρ (leaveTo b) fun _ _ => True := by
    intro ρ fit
    have first : isOpen ρ = .ok ρ.frame.isOpen ρ := rfl
    unfold Adds leaveTo
    rw [bind_ok first]
    cases ρ.frame.isOpen with
    | false => exact ⟨false, ρ, rfl, .refl fit, trivial⟩
    | true =>
      obtain ⟨_, ρ', done, still, -⟩ := jump_adds fit b
      exact ⟨true, ρ', bind_ok done, still, trivial⟩
  exact (Together.adds twin (adds twin.left) (adds twin.right)).mono fun _ _ _ => trivial

theorem arm_together {block join : BlockId} {body : Lower Unit} (reachable reachable' : Bool)
    (twin : Twin c σ τ) (common : Common c σ τ block) (concur : Concur c body body) :
    Together c σ τ (arm reachable block join body) (arm reachable' block join body)
      fun _ _ _ _ => True := by
  rw [arm_eq, arm_eq]
  refine (goTo_together reachable reachable' twin common).bind fun twin₁ _ _ => ?_
  exact (concur.runs twin₁).bind fun twin₂ _ _ => leaveTo_together join twin₂

theorem conditional_concur {cond : Expr} {thenArm : Lower Unit} {elseArm : Option (Lower Unit)}
    (condOk : cond.Whole) (thenOk : Concur c thenArm thenArm)
    (elseOk : ∀ m ∈ elseArm, Concur c m m) :
    Concur c (conditional cond thenArm elseArm) (conditional cond thenArm elseArm) := by
  constructor
  intro σ τ twin
  have first : ∀ ρ : State, isOpen ρ = .ok ρ.frame.isOpen ρ := fun _ => rfl
  rw [conditional]
  refine .of_eq (bind_ok (first σ)) (bind_ok (first τ)) ?_
  refine ((expr_agree cond condOk).runs twin).bind fun twin₁ _ _ => ?_
  refine (newBlock_together twin₁).bind ?_
  rintro _ σ₂ thenBlock τ₂ twin₂ - ⟨rfl, thenCommon⟩
  cases elseArm with
  | none =>
    refine (newBlock_together twin₂).bind ?_
    rintro _ σ₃ join τ₃ twin₃ onward₃ ⟨rfl, joinCommon⟩
    refine sealOff_together twin₃ rfl rfl fun twin₄ onward₄ => ?_
    have thenCommon := (thenCommon.onward twin₂ onward₃).onward twin₃ onward₄
    refine (arm_together _ _ twin₄ thenCommon thenOk).bind fun twin₅ onward₅ _ => ?_
    exact goTo_together _ _ twin₅ ((joinCommon.onward twin₃ onward₄).onward twin₄ onward₅)
  | some other =>
    refine (newBlock_together twin₂).bind ?_
    rintro _ σ₃ elseBlock τ₃ twin₃ onward₃ ⟨rfl, elseCommon⟩
    refine (newBlock_together twin₃).bind ?_
    rintro _ σ₄ join τ₄ twin₄ onward₄ ⟨rfl, joinCommon⟩
    refine sealOff_together twin₄ rfl rfl fun twin₅ onward₅ => ?_
    have onward₃₅ := (onward₃.trans onward₄).trans onward₅
    refine (arm_together _ _ twin₅ (thenCommon.onward twin₂ onward₃₅) thenOk).bind
      fun twin₆ onward₆ _ => ?_
    have elseCommon := elseCommon.onward twin₃ ((onward₄.trans onward₅).trans onward₆)
    refine (arm_together _ _ twin₆ elseCommon (elseOk other rfl)).bind fun twin₇ onward₇ _ => ?_
    exact goTo_together _ _ twin₇
      (joinCommon.onward twin₄ ((onward₅.trans onward₆).trans onward₇))

/-! ## Scopes and loops -/

theorem andFinally_together {α β : Type} {c' : Site} {m : Lower α} {n : Lower β} {σ₀ τ₀ : State}
    {after : State → Outcome State} {g : State → State} {Q : α → State → β → State → Prop}
    (h : Together c' σ τ m n Q) (always : ∀ {ρ}, At c' ρ → after ρ = .ok (g ρ) ∧ At c (g ρ))
    (finish : ∀ {σ' τ'}, Twin c' σ' τ' → Onward σ τ σ' τ' →
      Twin c (g σ') (g τ') ∧ Onward σ₀ τ₀ (g σ') (g τ')) :
    Alike c σ₀ τ₀ (fun (_ : α) _ (_ : β) _ => True) (andFinally m after σ)
      (andFinally n after τ) := by
  unfold Together at h
  unfold andFinally
  generalize m σ = r, n τ = s at h
  cases h with
  | ok twin onward q =>
    obtain ⟨twin', onward'⟩ := finish twin onward
    simp only [(always twin.left.site).1, (always twin.right.site).1]
    exact .ok twin' onward' trivial
  | error left right =>
    simp only [(always left).1, (always right).1]
    exact .error (always left).2 (always right).2

theorem Fit.pushed (fit : Fit c σ) (kind : ScopeKind) : Fit c.inScope (σ.pushed kind) where
  site := ⟨fit.site.fn, fit.site.ret, fit.site.loops, congrArg (· + 1) fit.site.depth⟩
  fn := fit.fn
  placed := fit.placed
  block := fit.block
  scopes := fun sc hsc {n id} mem => by
    rcases List.mem_cons.mp hsc with rfl | old
    · cases mem
    · exact fit.scopes sc old mem
  global := fit.global

theorem At.popped (site : At c.inScope σ) : At c σ.popped := by
  refine ⟨site.fn, site.ret, site.loops, ?_⟩
  have depth : σ.symbols.locals.length = c.depth + 1 := site.depth
  simp [State.popped, SymbolTable.depth, depth]

theorem Fit.popped (fit : Fit c.inScope σ) : Fit c σ.popped where
  site := fit.site.popped
  fn := fit.fn
  placed := fit.placed
  block := fit.block
  scopes := fun sc hsc {_ _} mem => fit.scopes sc (List.mem_of_mem_tail hsc) mem
  global := fit.global

theorem inScope_concur {body : Lower Unit} (kind : ScopeKind)
    (concur : Concur c.inScope body body) :
    Concur c (inScope kind body) (inScope kind body) := by
  constructor
  intro σ τ twin
  have pushed : Twin c.inScope (σ.pushed kind) (τ.pushed kind) :=
    { left := twin.left.pushed kind
      right := twin.right.pushed kind
      symbols := congrArg (·.push kind) twin.symbols
      nextBlock := twin.nextBlock
      blocks := twin.blocks
      name := twin.name }
  unfold Together
  rw [inScope_eq twin.left.site, inScope_eq twin.right.site]
  refine andFinally_together (concur.runs pushed) (g := State.popped)
    (fun site => ⟨leave_popped site rfl, site.popped⟩) fun twin' onward => ⟨?_, onward.1, onward.2⟩
  exact {
    left := twin'.left.popped
    right := twin'.right.popped
    symbols := congrArg (fun t : SymbolTable =>
      { t with locals := t.locals.tail, pops := t.pops + 1 }) twin'.symbols
    nextBlock := twin'.nextBlock
    blocks := twin'.blocks
    name := twin'.name }

theorem Fit.looping (fit : Fit c σ) (t : LoopTargets) : Fit (c.inLoop t) (σ.looping t) :=
  ⟨⟨fit.site.fn, fit.site.ret, congrArg (t :: ·) fit.site.loops, fit.site.depth⟩, fit.fn,
    fit.placed, fit.block, fit.scopes, fit.global⟩

theorem At.unlooped {t : LoopTargets} (site : At (c.inLoop t) σ) : At c σ.unlooped :=
  ⟨site.fn, site.ret, congrArg List.tail site.loops, site.depth⟩

theorem Fit.unlooped {t : LoopTargets} (fit : Fit (c.inLoop t) σ) : Fit c σ.unlooped :=
  ⟨fit.site.unlooped, fit.fn, fit.placed, fit.block, fit.scopes, fit.global⟩

theorem inLoop_concur {body : Lower Unit} (t : LoopTargets)
    (concur : Concur (c.inLoop t) body body) : Concur c (inLoop t body) (inLoop t body) := by
  constructor
  intro σ τ twin
  have inside : Twin (c.inLoop t) (σ.looping t) (τ.looping t) :=
    ⟨twin.left.looping t, twin.right.looping t, twin.symbols, twin.nextBlock, twin.blocks, twin.name⟩
  unfold Together
  rw [inLoop_eq twin.left.site, inLoop_eq twin.right.site]
  exact andFinally_together (concur.runs inside) (g := State.unlooped)
    (fun site => ⟨popLoop_unlooped site, site.unlooped⟩) fun twin' onward =>
      ⟨⟨twin'.left.unlooped, twin'.right.unlooped, twin'.symbols, twin'.nextBlock, twin'.blocks,
        twin'.name⟩, onward.1, onward.2⟩

theorem loop_concur {cond : Expr} {body : Lower Unit} (condOk : cond.Whole)
    (bodyOk : ∀ t, Concur (c.inLoop t) body body) :
    Concur c (loop cond body) (loop cond body) := by
  constructor
  intro σ τ twin
  have first : ∀ ρ : State, isOpen ρ = .ok ρ.frame.isOpen ρ := fun _ => rfl
  rw [loop_eq]
  refine .of_eq (bind_ok (first σ)) (bind_ok (first τ)) ?_
  refine (newBlock_together twin).bind ?_
  rintro _ σ₁ condBlock τ₁ twin₁ - ⟨rfl, condCommon⟩
  refine (newBlock_together twin₁).bind ?_
  rintro _ σ₂ bodyBlock τ₂ twin₂ onward₂ ⟨rfl, bodyCommon⟩
  refine (newBlock_together twin₂).bind ?_
  rintro _ σ₃ done τ₃ twin₃ onward₃ ⟨rfl, doneCommon⟩
  refine sealTo_together twin₃ (condCommon.onward twin₁ (onward₂.trans onward₃)) rfl rfl
    fun twin₄ onward₄ => ?_
  refine ((expr_agree cond condOk).runs twin₄).bind fun twin₅ onward₅ _ => ?_
  refine sealOff_together twin₅ rfl rfl fun twin₆ onward₆ => ?_
  have since := (onward₄.trans onward₅).trans onward₆
  refine (goTo_together _ _ twin₆ (bodyCommon.onward twin₂ (onward₃.trans since))).bind
    fun twin₇ onward₇ _ => ?_
  refine ((inLoop_concur _ (bodyOk _)).runs twin₇).bind fun twin₈ onward₈ _ => ?_
  refine (leaveTo_together condBlock twin₈).bind fun twin₉ onward₉ _ => ?_
  exact goTo_together _ _ twin₉
    (doneCommon.onward twin₃ (((since.trans onward₇).trans onward₈).trans onward₉))

/-! ## Statements -/

mutual

/-- A statement is accepted in both states or refused in both. -/
theorem stmt_concur : (s : Stmt) → s.Whole → ∀ {c : Site}, 0 < c.depth → Concur c (stmt s) (stmt s)
  | .block _ ss, whole, _, _ => by
    rw [stmt]
    exact inScope_concur .block (stmts_concur ss whole (Nat.succ_pos _))
  | .decl _ none, whole, _, _ => by
    obtain ⟨d, hd, -⟩ := whole
    cases hd
  | .decl _ (some d), whole, _, depth => ⟨fun twin => by
    obtain ⟨_, ⟨⟩, dWhole⟩ := whole
    rw [stmt]
    exact localDecl_together dWhole depth twin⟩
  | .assign _ target value, whole, _, _ => by
    rw [stmt]
    exact assign_concur whole.1 whole.2
  | .expr _ none, _, _, _ => ⟨fun twin => by
    rw [stmt]
    exact .pure twin trivial⟩
  | .expr _ (some e), whole, _, _ => ⟨fun twin => by
    rw [stmt]
    exact effect_together (whole e rfl) twin⟩
  | .ifThen _ cond thenArm none, whole, _, depth => by
    rw [stmt]
    exact conditional_concur whole.1 (stmt_concur thenArm whole.2.1 depth) (by simp)
  | .ifThen _ cond thenArm (some elseArm), whole, _, depth => by
    obtain ⟨condWhole, ⟨thenWhole, -⟩, elseWhole, -⟩ := whole
    rw [stmt]
    refine conditional_concur condWhole (stmt_concur thenArm thenWhole depth) ?_
    rintro _ ⟨⟩
    exact stmt_concur elseArm elseWhole depth
  | .while _ cond body, whole, c, depth => by
    rw [stmt]
    exact loop_concur whole.1 fun t => stmt_concur body whole.2.1 (c := c.inLoop t) depth
  | .break s, _, _, _ => by
    rw [stmt]
    exact leaveLoop_concur s _ _
  | .continue s, _, _, _ => by
    rw [stmt]
    exact leaveLoop_concur s _ _
  | .return s value, whole, _, _ => by
    rw [stmt]
    exact ret_concur whole
  | .bare .., whole, _, _ => whole.elim
  | .missing _, whole, _, _ => whole.elim

theorem stmts_concur : (ss : List Stmt) → Stmt.AllWhole ss → ∀ {c : Site}, 0 < c.depth →
    Concur c (stmts ss) (stmts ss)
  | [], _, _, _ => ⟨fun twin => by
    rw [stmts]
    exact .pure twin trivial⟩
  | s :: ss, whole, _, depth => ⟨fun twin => by
    rw [stmts]
    exact ((stmt_concur s whole.1 depth).runs twin).bind fun twin₁ _ _ =>
      (stmts_concur ss whole.2 depth).runs twin₁⟩

end

/-! ## Code that is not kept -/

section Closed

variable {k : Kind} {avail avail' : Avail} {σ' : State} {d d' : Koopa.Fn}

/-- The invariant does not say which block is current where none is open. -/
theorem Inv.closed (inv : Inv c avail σ) (b : BlockId) : Inv c avail (σ.moved b false) :=
  inv.change (.refl _) inv.program inv.tidy rfl id rfl rfl rfl fun h => (nomatch h)

/-- Where no block was open, control still only reaches blocks that it could reach before: the blocks
that it reached have not changed, so that no branch to a new block was added. -/
theorem Evo.reaches_old (inv : Inv c avail σ) (evo : Evo k avail σ avail' σ')
    (closed : σ.frame.isOpen = false) (found : σ.program.fn? σ.frame.fn = some d)
    (found' : σ'.program.fn? σ.frame.fn = some d') {b : BlockId}
    (reaches : d'.Reaches σ'.program b) : b ∈ d.blocks := by
  obtain ⟨visited, path⟩ := reaches
  induction path with
  | entry first =>
    obtain ⟨e, foundFn, -, nonempty⟩ := inv.fn
    rw [← inv.site.fn] at foundFn
    obtain rfl := Option.some.inj (foundFn.symm.trans found)
    obtain ⟨_, foundFn', later⟩ := evo.grows.fns found
    obtain rfl := Option.some.inj (foundFn'.symm.trans found')
    obtain ⟨entry, isEntry⟩ : ∃ b, e.blocks.head? = some b := ⟨_, List.head?_eq_some_head nonempty⟩
    obtain rfl := Option.some.inj (first.symm.trans (later.entry isEntry))
    exact List.mem_of_mem_head? isEntry
  | @step visited b next _ edge ih =>
    obtain ⟨is, v, h, t, x, here', mem, has', target⟩ := edge
    obtain ⟨js, here⟩ := Option.isSome_iff_exists.mp (Koopa.Fn.insts?_isSome.mpr ih)
    have same := evo.still found found' here fun isOpen => by
      rw [closed] at isOpen
      cases isOpen
    obtain rfl := Option.some.inj (here'.symm.trans same)
    obtain ⟨t₀, x₀, has, -⟩ := (inv.program.fns found).placed here mem
    obtain ⟨-, -, rfl⟩ := (evo.grows.values has).unique has'
    obtain ⟨f, e, home, foundFn, laid⟩ := (inv.program.values has).targets _ target
    cases home
    obtain rfl := Option.some.inj (foundFn.symm.trans found)
    exact laid

/-- Where no block was open, no block has got an instruction. -/
theorem Evo.instsOf_closed (inv : Inv c avail σ) (inv' : Inv c avail' σ')
    (evo : Evo k avail σ avail' σ') (closed : σ.frame.isOpen = false) (f : FnId) (b : BlockId) :
    σ'.program.instsOf f b = σ.program.instsOf f b := by
  unfold Koopa.Program.instsOf
  by_cases other : f ≠ σ.frame.fn
  · rw [evo.others other]
  obtain rfl := not_ne_iff.mp other
  obtain ⟨d, found, -⟩ := inv.fn
  rw [← inv.site.fn] at found
  obtain ⟨d', found', -⟩ := evo.grows.fns found
  rw [found, found', Option.bind_some, Option.bind_some]
  cases here : d.insts? b with
  | some is =>
    rw [evo.still found found' here fun isOpen => by rw [closed] at isOpen; cases isOpen]
  | none =>
    -- A new block with an instruction would be a block that control can reach.
    cases here' : d'.insts? b with
    | none => rfl
    | some js =>
      by_contra nonempty
      have old := evo.reaches_old inv closed found found' (inv'.tidy.reach found' here' nonempty)
      rw [← Koopa.Fn.insts?_isSome, here] at old
      cases old

end Closed

/-- Statements of a source are checked in the same way with an open block and with none. From the
state in which lowering reaches them, with any block of the function open on one side and none on the
other, both runs fail with the same failure; or both succeed, make equally many blocks, and leave the
same names with the same kinds, types and constant values, and then the run without a block ends
without one and has added no instruction to any block. -/
theorem unreachable_checked {file : Source.File} {stop : Bool} {u : CompUnit}
    (parsed : (Parsed.ofLexed (.ofFile file) stop).result = .ok u) {withLibrary : Bool}
    {ss : List Stmt} {σ : State} (reached : Reached withLibrary u (.stmts ss) σ) {d : Koopa.Fn}
    (found : σ.program.fn? σ.frame.fn = some d) {b : BlockId} (laid : b ∈ d.blocks) (b' : BlockId) :
    (∃ e σ₁ σ₂, stmts ss (σ.moved b true) = .error e σ₁ ∧
      stmts ss (σ.moved b' false) = .error e σ₂) ∨
    ∃ σ₁ σ₂, stmts ss (σ.moved b true) = .ok () σ₁ ∧ stmts ss (σ.moved b' false) = .ok () σ₂ ∧
      σ₂.program.blocks.size = σ₁.program.blocks.size ∧
      σ₂.symbols.outline = σ₁.symbols.outline ∧ σ₂.frame.isOpen = false ∧
      ∀ f b, σ₂.program.instsOf f b = σ.program.instsOf f b := by
  obtain ⟨whole, c, avail, depth, inv, -⟩ := (reached.holds (Parsed.whole parsed)).inBody trivial
  have still := Still.refl inv.fit
  have left : Still c σ (σ.moved b true) := still.moved b true fun _ {e} found' => by
    rw [← inv.site.fn] at found'
    obtain rfl := Option.some.inj (found'.symm.trans found)
    exact laid
  have right : Still c σ (σ.moved b' false) := still.moved b' false fun h => (nomatch h)
  have twin : Twin c (σ.moved b true) (σ.moved b' false) :=
    { left := left.fit
      right := right.fit
      symbols := rfl
      nextBlock := rfl
      blocks := rfl
      name := fun found found' => by
        obtain rfl := Option.some.inj (Eq.trans found.symm found')
        rfl }
  have alike := (stmts_concur ss whole depth).runs twin
  have invClosed := inv.closed b'
  have runs := (stmts_acts ss whole depth).runs invClosed
  unfold Together at alike
  cases openRun : stmts ss (σ.moved b true) with
  | error e σ₁ =>
    cases closedRun : stmts ss (σ.moved b' false) with
    | error e' σ₂ =>
      rw [openRun, closedRun] at alike
      cases alike
      exact .inl ⟨e, σ₁, σ₂, rfl, rfl⟩
    | ok a σ₂ =>
      rw [openRun, closedRun] at alike
      cases alike
  | ok a σ₁ =>
    cases closedRun : stmts ss (σ.moved b' false) with
    | error e' σ₂ =>
      rw [openRun, closedRun] at alike
      cases alike
    | ok a' σ₂ =>
      rw [openRun, closedRun] at alike
      cases alike with
      | ok twin' _ _ =>
        obtain ⟨avail', inv', evo, -⟩ := runs.ok closedRun
        refine .inr ⟨σ₁, σ₂, rfl, rfl, twin'.blocks, twin'.symbols.symm, ?_, ?_⟩
        · rw [Bool.eq_false_iff]
          intro isOpen
          exact nomatch (evo.here isOpen).1
        · have added := evo.instsOf_closed invClosed inv' rfl
          exact added

/-- The statements of the first function of a unit are reached. -/
theorem Reached.ofBody {u : CompUnit} {P : List Stmt → State → Bool} (check : (match u.items with
    | .fn _ f :: _ =>
      match f.body, opening f {} with
      | some (.block _ ss), .ok _ σ => P ss σ
      | _, _ => false
    | _ => false) = true) : ∃ ss σ, Reached false u (.stmts ss) σ ∧ P ss σ = true := by
  split at check
  · rename_i span f is items
    split at check
    · rename_i isBody opened
      have start : Reached false u (.items u.items) {} := .start rfl
      rw [items] at start
      exact ⟨_, _, .step start (.body isBody opened), check⟩
    · cases check
  · cases check

/-- A source with a loop and a declaration after a return. -/
def deadLoop : Source.File :=
  { id := 0
    path := "dead.c"
    content := Bytes.ofString
      "int f(int x) \x7b return x; while (x && 1) \x7b const int y = 2; x = y; \x7d int z; \x7d"
    flags := default }

/-- Its unit. -/
def deadLoopUnit : CompUnit :=
  (Parsed.ofLexed (.ofFile deadLoop) false).result.toOption.getD default

/-- A lowering has a result. -/
def succeeds {α : Type} : EStateM.Result Failure State α → Bool
  | .ok .. => true
  | .error .. => false

/-- The body of the example is accepted with an open block and with none. -/
theorem deadLoop_checked : ∃ ss σ, Reached false deadLoopUnit (.stmts ss) σ ∧ 3 = ss.length ∧
    ∃ σ₁ σ₂, stmts ss (σ.moved 1 true) = .ok () σ₁ ∧ stmts ss (σ.moved 0 false) = .ok () σ₂ ∧
      σ₂.program.blocks.size = σ₁.program.blocks.size ∧
      σ₂.symbols.outline = σ₁.symbols.outline ∧ σ₂.frame.isOpen = false ∧
      ∀ f b, σ₂.program.instsOf f b = σ.program.instsOf f b := by
  have parsed : (Parsed.ofLexed (.ofFile deadLoop) false).result = .ok deadLoopUnit :=
    eq_ok_of_isSome (by decide +kernel)
  obtain ⟨ss, σ, reached, check⟩ := Reached.ofBody (u := deadLoopUnit)
    (P := fun ss σ => ss.length == 3 && (σ.program.fn? σ.frame.fn).any (·.blocks.contains 1) &&
      succeeds (stmts ss (σ.moved 1 true))) (by decide +kernel)
  simp only [Bool.and_eq_true, beq_iff_eq, Option.any_eq_true, List.contains_iff_mem] at check
  obtain ⟨⟨three, d, found, laid⟩, accepted⟩ := check
  refine ⟨ss, σ, reached, three.symm, ?_⟩
  rcases unreachable_checked parsed reached found laid 0 with ⟨e, σ₁, σ₂, fails, -⟩ | both
  · rw [fails] at accepted
    cases accepted
  · exact both

end Lower
end SysY

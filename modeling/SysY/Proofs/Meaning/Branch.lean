import SysY.Proofs.Meaning.Stmt

/-! # Conditionals and loops

Each arm of a conditional and the body of a loop has a block of its own. What happens from the start
of that block to the block where control goes next is said once (`arm_ending`, `Circles`). A loop is
then followed one iteration after the other, from the start of the block of its condition. -/

namespace SysY.Meaning

open Koopa (Val Activation Config ValueId BlockId FnId Program Avail ValueDef)
open Lower (Inv Operand Evo Pending Fork Entered Looped Acts)
open Source (Span)

variable {W : Type} {l : Loaded W} {k : Context W} {n m : Nat} {env env' : Env}
  {callers : List (ValueId × Activation)} {c : Lower.Site} {avail avail₀ : Avail}
  {σ σ₀ σ₁ σ' : Lower.State} {a b : Point W} {s s₁ s' : State W} {o : Outcome}

theorem Stands.newBlock {b : BlockId} {here : Activation} (stands : Stands l.program σ here)
    (inv : Inv c avail σ) (isOpen : σ.frame.isOpen = true) (made : Lower.newBlock σ = .ok b σ') :
    Stands l.program σ' here := by
  obtain ⟨fn, block, insts⟩ := Lower.newBlock_insts inv isOpen made
  exact stands.congr ⟨fn, block⟩ insts

/-- What is declared in an arm or in a body is not seen after it. -/
theorem Ending.leave {N N' : Env → Prop} (ending : Ending l c callers n a s N o)
    (normal : ∀ env', N env' → N' env) : Ending l c callers n a s N' (o.leave env) := by
  cases o with
  | normal env' => exact normal env' ending
  | «break» | «continue» | «return» => exact ending

/-- Lowering goes on at the start of a block that the machine has reached. -/
theorem Gets.continues {join : BlockId} {inside : Set ValueId}
    (gets : Gets l callers (size σ₀) a c.fn join s') (inv₀ : Inv c avail₀ σ₀)
    (since : Evo .stmt avail₀ σ₀ avail σ) (pending : Pending avail σ inside join)
    (fits : Matches l σ₀.symbols env s a) :
    Continues l callers σ₀ a (σ.switched join) env s' := by
  obtain ⟨b, goes, starts, agrees⟩ := gets
  refine ⟨rfl, b, goes, starts.stands (since.fn.trans inv₀.site.fn) rfl pending.insts_switched, ?_⟩
  exact fits.goes inv₀ since.keeps goes (Nat.le_refl _) agrees

/-! ## Conditionals -/

variable (callers) in
/-- From the start of its block, an arm of a conditional leads to the join if it ends normally. -/
theorem arm_ending {block join : BlockId} {body : Lower Unit} {run : Env → Run W Outcome}
    {joined : Bool} (depth : 0 < c.depth) (inv₀ : Inv c avail₀ σ₀)
    (open₀ : σ₀.frame.isOpen = true) (inv : Inv c avail σ) (since : Evo .stmt avail₀ σ₀ avail σ)
    (blockPending : Pending avail σ (σ₀.entry avail₀) block)
    (joinPending : Pending avail σ (σ₀.entry avail₀) join) (apart : join ≠ block)
    (new : σ₀.program.blocks.size < block) (reaches : σ.Reaches block) (acts : Acts .stmt c body)
    (executes : Executes l body run) (lowered : Lower.arm true block join body σ = .ok joined σ')
    (covers : Covers l σ σ') (starts : Starts l.program c.fn block a.here)
    (fits : Matches l σ₀.symbols env s a) (ran : run env s = some (o, s')) :
    Ending l c callers (size σ₀) a s'
      (fun _ => joined = true ∧ Gets l callers (size σ₀) a c.fn join s') o := by
  have entered := Entered.switched inv₀ open₀ inv since blockPending new reaches
  have inv₁ := entered.inv
  have since₁ := entered.since
  have joinPending₁ := entered.waiting apart joinPending
  have switch : Lower.switchTo block σ = .ok () (σ.switched block) := rfl
  have rest₁ := (bind_ok switch).symm.trans lowered
  obtain ⟨_, σ₂, lowered₂, rest₂⟩ := bind_eq_ok.mp rest₁
  obtain ⟨avail₂, inv₂, evo₂, -⟩ := (acts.runs inv₁).ok lowered₂
  have since₂ := since₁.trans evo₂ inv₀.laid
  have stands : Stands l.program (σ.switched block) a.here :=
    starts.stands (since.fn.trans inv₀.site.fn) rfl blockPending.insts_switched
  have fits₁ : Matches l (σ.switched block).symbols env s a :=
    fits.goes inv₀ since₁.keeps (.refl l False callers _ _ a) (Nat.le_refl _) fits.toAgrees
  have ends := fun covers₂ : Covers l (σ.switched block) σ₂ =>
    show Ending l c callers (size (σ.switched block)) a s' _ o from
      executes depth inv₁ rfl lowered₂ covers₂ stands fits₁ ran
  have le : size σ₀ ≤ size (σ.switched block) := size_le since₁
  have test : Lower.isOpen σ₂ = .ok σ₂.frame.isOpen σ₂ := rfl
  have rest₃ := (bind_ok test).symm.trans rest₂
  cases open₂ : σ₂.frame.isOpen with
  | false =>
    rw [open₂] at rest₃
    cases rest₃
    refine (ends (covers.sub (Nat.le_refl _) (.refl _))).after (.refl ..) le ?_
    rintro env' ⟨isOpen, -⟩
    rw [open₂] at isOpen
    cases isOpen
  | true =>
    rw [open₂] at rest₃
    obtain ⟨_, σ₃, lowered₃, rest₄⟩ := bind_eq_ok.mp rest₃
    cases rest₄
    have target : Lower.Instr.Target avail₂ σ₂ join :=
      (joinPending₁.evo inv₁ evo₂).target since₂.inside
    obtain ⟨_, -, evo₃, -⟩ := (Lower.jump_runs inv₂ target).ok lowered₃
    refine (ends (covers.sub (Nat.le_refl _) evo₃.grows)).after (.refl ..) le ?_
    rintro env' ⟨-, b, goes, stands₂, fits₂⟩
    have gets : Gets l callers (size σ₂) b c.fn join s' :=
      jump_gets inv₂ open₂ target lowered₃ covers.grows stands₂ fits₂.toAgrees
    exact ⟨rfl, gets.after (goes.mono le (Nat.le_refl _)) (size_le since₂)⟩

variable (callers) in
/-- The condition is computed, and then a branch leads to one of two blocks that wait. -/
theorem condition_leads (evaluates : Evaluates l k n) {cond : Expr} {v : ValueId} {x : Int32}
    {t e : BlockId} {avail₁ : Avail} {inside : Set ValueId} {σ₂ : Lower.State} (whole : cond.Whole)
    (le : m ≤ n) (inv : Inv c avail σ) (isOpen : σ.frame.isOpen = true)
    (lowered : Lower.expr cond σ = .ok v σ₁) (inv₂ : Inv c avail₁ σ₂)
    (evo : Evo .expr avail σ avail₁ σ₂) (grows₁ : σ₁.program.Grows σ₂.program)
    (same : ∀ {here}, Stands l.program σ₁ here → Stands l.program σ₂ here)
    (first : Pending avail₁ σ₂ inside t) (last : Pending avail₁ σ₂ inside e)
    (grows₂ : σ₂.program.Grows l.program)
    (grows : (σ₂.emitted .unit (.branch v t e)).program.Grows l.program)
    (stands : Stands l.program σ a.here) (fits : Matches l σ.symbols env s a)
    (ran : expr k m env cond s = some (x, s₁)) :
    ∃ b, Goes l False callers (size σ) a.memory.length a b ∧
      Starts l.program c.fn (if x != 0 then t else e) b.here ∧ Matches l σ.symbols env s₁ b := by
  obtain ⟨b₁, goes₁, stands₁, fits₁, gives⟩ : Reaches l False callers σ a σ₁ fun b =>
      Matches l σ.symbols env s₁ b ∧ Gives l v x b :=
    evaluates.computed le whole inv isOpen lowered (grows₁.trans grows₂) stands fits ran
  obtain ⟨b₂, lands⟩ : ∃ b, Lands l False callers (size σ₂) b₁.memory.length b₁ σ₂.frame.fn
      (if x != 0 then t else e) b :=
    waiting_lands inv₂ (.refl ..) (evo.keeps.2.trans isOpen) rfl rfl first last grows₂ grows
      (same stands₁) gives
  have goes := lands.goes.mono (size_le evo) (Nat.le_refl _)
  refine ⟨b₂, goes₁.trans (goes.mono (Nat.le_refl _) goes₁.later.grows), ?_,
    lands.agrees fits₁.toAgrees, fits₁.sees.goes inv goes (Nat.le_refl _) fun _ => rfl⟩
  rw [← inv₂.site.fn]
  exact lands.starts

/-- A conditional without `else`. -/
theorem ifThen_executes (evaluates : Evaluates l k n) {cond : Expr} {thenArm : Lower Unit}
    {run : Env → Run W Outcome} (whole : cond.Whole) (le : m ≤ n)
    (acts : ∀ {c : Lower.Site}, 0 < c.depth → Acts .stmt c thenArm)
    (executes : Executes l thenArm run) :
    Executes l (Lower.conditional cond thenArm none) fun env => do
      if (← expr k m env cond) != 0 then return (← run env).leave env
      else return .normal env := by
  intro c avail σ σ' callers env s o s' a depth inv isOpen lowered covers stands fits ran
  obtain ⟨x, s₁, ran₁, rest⟩ := bind_eq_some.mp ran
  have test : Lower.isOpen σ = .ok true σ := by rw [← isOpen]; rfl
  have rest₀ := (bind_ok test).symm.trans lowered
  obtain ⟨v, σ₁, lowered₁, rest₁⟩ := bind_eq_ok.mp rest₀
  obtain ⟨thenBlock, σ₂, lowered₂, rest₂⟩ := bind_eq_ok.mp rest₁
  obtain ⟨join, σ₃, lowered₃, rest₃⟩ := bind_eq_ok.mp rest₂
  obtain ⟨avail₁, inv₁, evo₁, condOk⟩ := ((Lower.expr_computes cond whole).runs inv).ok lowered₁
  have open₁ := evo₁.keeps.2.trans isOpen
  obtain ⟨avail₃, fork⟩ := Fork.of_newBlocks inv₁ lowered₂ lowered₃
  have branched := fork.branched inv₁ (condOk.evo fork.since)
  obtain ⟨_, _, made, rest₄⟩ := bind_eq_ok.mp rest₃
  obtain ⟨_, _, sealed, rest₅⟩ := bind_eq_ok.mp rest₄
  obtain rfl := sealOff_eq_ok (x := .branch v thenBlock join) fork.inv rfl
    (bind_eq_ok.mpr ⟨_, _, made, sealed⟩)
  obtain ⟨joined, σ₅, armed, rest₆⟩ := bind_eq_ok.mp rest₅
  obtain rfl : σ' = σ₅.switched join := by
    rw [Bool.true_or, if_pos rfl] at rest₆
    cases rest₆
    rfl
  have arm := Lower.arm_ends inv₁ branched.inv branched.since branched.first branched.last
    fork.apart.symm fork.firstNew (fun _ => branched.reaches open₁ _ (by simp)) (acts depth)
  rw [open₁] at arm
  obtain ⟨avail₅, after⟩ := arm.ok armed
  have since := evo₁.of_expr.trans after.since inv.laid
  have lasting := after.waiting fork.apart.symm branched.last
  have grows₄ := after.grows.trans covers.grows
  obtain ⟨-, block, insts⟩ := Lower.newBlocks_insts inv₁ open₁ lowered₂ lowered₃
  obtain ⟨b, goes, starts, fits₁⟩ := condition_leads callers evaluates whole le inv isOpen lowered₁
    fork.inv (evo₁.trans fork.since inv.laid) fork.since.grows
    (fun stands => stands.congr ⟨fork.since.fn, block⟩ insts) fork.first fork.last
    (branched.evo.grows.trans grows₄) grows₄ stands fits ran₁
  cases taken : x != 0 with
  | false =>
    rw [taken] at starts rest
    obtain ⟨rfl, rfl⟩ := pure_eq_some.mp rest
    exact Gets.continues ⟨b, goes, starts, fits₁.toAgrees⟩ inv since lasting fits
  | true =>
    rw [taken] at starts rest
    obtain ⟨o₁, s₂, ran₂, rest⟩ := bind_eq_some.mp rest
    obtain ⟨rfl, rfl⟩ := pure_eq_some.mp rest
    rw [← evo₁.keeps.1] at fits₁
    have ending := arm_ending callers depth inv₁ open₁ branched.inv branched.since branched.first
      branched.last fork.apart.symm fork.firstNew (branched.reaches open₁ _ (by simp)) (acts depth)
      executes armed (covers.sub (size_le (evo₁.of_expr.trans branched.since inv.laid)) (.refl _))
      starts fits₁ ran₂
    refine (ending.after goes (size_le evo₁) fun _ => id).leave ?_
    rintro env' ⟨-, gets⟩
    exact (gets.after goes (size_le evo₁)).continues inv since lasting fits

/-- A conditional with two arms. -/
theorem ifThenElse_executes (evaluates : Evaluates l k n) {cond : Expr}
    {thenArm elseArm : Lower Unit} {run₁ run₂ : Env → Run W Outcome} (whole : cond.Whole)
    (le : m ≤ n) (acts₁ : ∀ {c : Lower.Site}, 0 < c.depth → Acts .stmt c thenArm)
    (acts₂ : ∀ {c : Lower.Site}, 0 < c.depth → Acts .stmt c elseArm)
    (executes₁ : Executes l thenArm run₁) (executes₂ : Executes l elseArm run₂) :
    Executes l (Lower.conditional cond thenArm (some elseArm)) fun env => do
      if (← expr k m env cond) != 0 then return (← run₁ env).leave env
      else return (← run₂ env).leave env := by
  intro c avail σ σ' callers env s o s' a depth inv isOpen lowered covers stands fits ran
  obtain ⟨x, s₁, ran₁, rest⟩ := bind_eq_some.mp ran
  have test : Lower.isOpen σ = .ok true σ := by rw [← isOpen]; rfl
  have rest₀ := (bind_ok test).symm.trans lowered
  obtain ⟨v, σ₁, lowered₁, rest₁⟩ := bind_eq_ok.mp rest₀
  obtain ⟨thenBlock, σ₂, lowered₂, rest₂⟩ := bind_eq_ok.mp rest₁
  obtain ⟨elseBlock, σ₃, lowered₃, rest₃⟩ := bind_eq_ok.mp rest₂
  obtain ⟨join, σ₄, lowered₄, rest₄⟩ := bind_eq_ok.mp rest₃
  obtain ⟨avail₁, inv₁, evo₁, condOk⟩ := ((Lower.expr_computes cond whole).runs inv).ok lowered₁
  have open₁ := evo₁.keeps.2.trans isOpen
  obtain ⟨avail₃, arms₃⟩ := Fork.of_newBlocks inv₁ lowered₂ lowered₃
  obtain ⟨avail₄, arms, thenJoin, elseJoin⟩ := (arms₃.more inv₁).ok lowered₄
  have branched := arms.branched inv₁ (condOk.evo arms.since)
  obtain ⟨_, _, made, rest₅⟩ := bind_eq_ok.mp rest₄
  obtain ⟨_, _, sealed, rest₆⟩ := bind_eq_ok.mp rest₅
  obtain rfl := sealOff_eq_ok (x := .branch v thenBlock elseBlock) arms.inv rfl
    (bind_eq_ok.mpr ⟨_, _, made, sealed⟩)
  obtain ⟨joined₁, σ₆, armed₁, rest₇⟩ := bind_eq_ok.mp rest₆
  obtain ⟨joined₂, σ₇, armed₂, rest₈⟩ := bind_eq_ok.mp rest₇
  have joinPending := elseJoin.last.evo arms.inv branched.evo
  have arm₁ := Lower.arm_ends inv₁ branched.inv branched.since branched.first joinPending
    thenJoin.apart.symm arms.firstNew (fun _ => branched.reaches open₁ _ (by simp)) (acts₁ depth)
  rw [open₁] at arm₁
  obtain ⟨avail₆, first⟩ := arm₁.ok armed₁
  have elsePending := first.waiting arms.apart.symm branched.last
  have joinPending₆ := first.waiting thenJoin.apart.symm joinPending
  have reaches₆ : σ₆.Reaches elseBlock :=
    first.still branched.since (branched.reaches open₁ _ (by simp))
  have arm₂ := Lower.arm_ends inv₁ first.inv first.since elsePending joinPending₆
    elseJoin.apart.symm arms.lastNew (fun _ => reaches₆) (acts₂ depth)
  rw [open₁] at arm₂
  obtain ⟨avail₇, second⟩ := arm₂.ok armed₂
  have since := evo₁.of_expr.trans second.since inv.laid
  have lasting := second.waiting elseJoin.apart.symm joinPending₆
  have last : σ'.program = σ₇.program ∧ (joined₁ = true ∨ joined₂ = true → σ' = σ₇.switched join) := by
    cases joins : joined₁ || joined₂ with
    | false =>
      rw [joins] at rest₈
      cases rest₈
      simp_all
    | true =>
      rw [joins] at rest₈
      cases rest₈
      exact ⟨rfl, fun _ => rfl⟩
  have covers₇ : Covers l σ σ₇ := covers.sub (Nat.le_refl _) (by rw [last.1]; exact .refl _)
  have grows₅ := first.grows.trans (second.grows.trans covers₇.grows)
  obtain ⟨b, goes, starts, fits₁⟩ := condition_leads callers evaluates whole le inv
    isOpen lowered₁ arms.inv (evo₁.trans arms.since inv.laid) arms.since.grows
    (fun stands => by
      obtain ⟨-, block, insts⟩ := Lower.newBlocks_insts inv₁ open₁ lowered₂ lowered₃
      have stands₃ := stands.congr ⟨arms₃.since.fn, block⟩ insts
      exact stands₃.newBlock arms₃.inv (arms₃.since.keeps.2.trans open₁) lowered₄)
    arms.first arms.last (branched.evo.grows.trans grows₅) grows₅ stands fits ran₁
  rw [← evo₁.keeps.1] at fits₁
  have ends : ∀ {joined : Bool} {o s'}, (joined = true → joined₁ = true ∨ joined₂ = true) →
      Ending l c callers (size σ₁) b s'
        (fun _ => joined = true ∧ Gets l callers (size σ₁) b c.fn join s') o →
      Ending l c callers (size σ) a s' (fun env' => Continues l callers σ a σ' env' s')
        (o.leave env) := by
    intro joined o s' joins ending
    refine (ending.after goes (size_le evo₁) fun _ => id).leave ?_
    rintro env' ⟨isJoined, gets⟩
    rw [last.2 (joins isJoined)]
    exact (gets.after goes (size_le evo₁)).continues inv since lasting fits
  have size₅ := size_le (evo₁.of_expr.trans branched.since inv.laid)
  cases taken : x != 0 with
  | true =>
    rw [taken] at starts rest
    obtain ⟨o₁, s₂, ran₂, rest⟩ := bind_eq_some.mp rest
    obtain ⟨rfl, rfl⟩ := pure_eq_some.mp rest
    exact ends .inl (arm_ending callers depth inv₁ open₁ branched.inv branched.since branched.first
      joinPending thenJoin.apart.symm arms.firstNew (branched.reaches open₁ _ (by simp)) (acts₁ depth)
      executes₁ armed₁ (covers₇.sub size₅ second.grows) starts fits₁ ran₂)
  | false =>
    rw [taken] at starts rest
    obtain ⟨o₁, s₂, ran₂, rest⟩ := bind_eq_some.mp rest
    obtain ⟨rfl, rfl⟩ := pure_eq_some.mp rest
    exact ends .inr (arm_ending callers depth inv₁ open₁ first.inv first.since elsePending joinPending₆
      elseJoin.apart.symm arms.lastNew reaches₆ (acts₂ depth) executes₂ armed₂
      (covers₇.sub (size_le (evo₁.of_expr.trans first.since inv.laid)) (.refl _)) starts fits₁ ran₂)

/-! ## Loops -/

/-- The two halves of an iteration, in runs with less than `n` as fuel: from the block of the
condition to the one that comes next, and through the body. -/
structure Circles (l : Loaded W) (k : Context W) (n : Nat) (c : Lower.Site)
    (callers : List (ValueId × Activation)) (σ₀ : Lower.State) (env : Env) (cond : Expr)
    (body : Stmt) (condBlock bodyBlock done : BlockId) : Prop where
  tests : ∀ {i b s x s'}, i < n → Starts l.program c.fn condBlock b.here →
    Matches l σ₀.symbols env s b → expr k i env cond s = some (x, s') →
    ∃ d, Goes l False callers (size σ₀) b.memory.length b d ∧
      Starts l.program c.fn (if x != 0 then bodyBlock else done) d.here ∧
      Matches l σ₀.symbols env s' d
  bodies : ∀ {i b s o s'}, i < n → Starts l.program c.fn bodyBlock b.here →
    Matches l σ₀.symbols env s b → stmt k i env body s = some (o, s') →
    Ending l (c.inLoop ⟨condBlock, done⟩) callers (size σ₀) b s'
      (fun _ => Gets l callers (size σ₀) b c.fn condBlock s') o

/-- From the block of the condition, a loop leads to what follows it, unless it is left by a
`return`. -/
theorem Circles.ending {span : Span} {cond : Expr} {body : Stmt} {condBlock bodyBlock done : BlockId}
    (circles : Circles l k n c callers σ₀ env cond body condBlock bodyBlock done)
    (inv₀ : Inv c avail₀ σ₀) {i : Nat} (le : i ≤ n)
    (starts : Starts l.program c.fn condBlock a.here) (fits : Matches l σ₀.symbols env s a)
    (ran : stmt k i env (.while span cond body) s = some (o, s')) :
    Ending l c callers (size σ₀) a s'
      (fun env' => env' = env ∧ Gets l callers (size σ₀) a c.fn done s') o := by
  induction i generalizing a s with
  | zero => cases ran
  | succ i ih =>
    rw [stmt] at ran
    obtain ⟨x, s₁, ran₁, rest⟩ := bind_eq_some.mp ran
    obtain ⟨b, goes, starts₁, fits₁⟩ := circles.tests le starts fits ran₁
    cases taken : x != 0 with
    | false =>
      rw [taken] at starts₁ rest
      obtain ⟨rfl, rfl⟩ := pure_eq_some.mp rest
      exact ⟨rfl, b, goes, starts₁, fits₁.toAgrees⟩
    | true =>
      rw [taken] at starts₁ rest
      obtain ⟨o₁, s₂, ran₂, rest⟩ := bind_eq_some.mp rest
      have ending := (circles.bodies le starts₁ fits₁ ran₂).after goes (Nat.le_refl _)
        fun _ (gets : Gets l callers (size σ₀) b c.fn condBlock s₂) => gets.after goes (Nat.le_refl _)
      -- Back at the condition, with less fuel.
      have again : Gets l callers (size σ₀) a c.fn condBlock s₂ →
          stmt k i env (.while span cond body) s₂ = some (o, s') →
          Ending l c callers (size σ₀) a s'
            (fun env' => env' = env ∧ Gets l callers (size σ₀) a c.fn done s') o := by
        rintro ⟨d, goes₂, starts₂, agrees₂⟩ ran
        have fits₂ := fits.goes inv₀ (.refl _ σ₀) goes₂ (Nat.le_refl _) agrees₂
        refine (ih (Nat.le_of_lt le) starts₂ fits₂ ran).after goes₂ (Nat.le_refl _) ?_
        rintro env' ⟨same, gets⟩
        exact ⟨same, gets.after goes₂ (Nat.le_refl _)⟩
      cases o₁ with
      | normal env' => exact again ending rest
      | «continue» =>
        obtain ⟨t, ts, loops, gets⟩ := ending
        cases loops
        exact again gets rest
      | «break» =>
        obtain ⟨t, ts, loops, gets⟩ := ending
        cases loops
        obtain ⟨rfl, rfl⟩ := pure_eq_some.mp rest
        exact ⟨rfl, gets⟩
      | «return» v =>
        obtain ⟨rfl, rfl⟩ := pure_eq_some.mp rest
        exact ending

/-- What was lowered inside a loop. -/
theorem inLoop_eq_ok {t : LoopTargets} {body : Lower Unit} (inv : Inv c avail σ)
    (acts : Acts .stmt (c.inLoop t) body) (loopInv : Inv (c.inLoop t) avail (σ.looping t))
    (lowered : Lower.inLoop t body σ = .ok () σ') :
    ∃ σ₁, body (σ.looping t) = .ok () σ₁ ∧ σ' = σ₁.unlooped := by
  rw [Lower.inLoop_eq inv.site] at lowered
  cases found : body (σ.looping t) with
  | error e σ₁ =>
    simp only [Lower.andFinally, found] at lowered
    split at lowered <;> cases lowered
  | ok u σ₁ =>
    obtain ⟨avail₁, inv₁, -⟩ := (acts.runs loopInv).ok found
    simp only [Lower.andFinally, found, Lower.popLoop_unlooped inv₁.site] at lowered
    cases lowered
    exact ⟨σ₁, rfl, rfl⟩

/-- From the start of its block, the body of a loop leads back to the condition if it ends
normally. -/
theorem loopBody_ending {t : LoopTargets} {block : BlockId} {body : Lower Unit}
    (depth : 0 < c.depth) (inv₀ : Inv c avail₀ σ₀) (open₀ : σ₀.frame.isOpen = true)
    (inv : Inv c avail σ) (since : Evo .stmt avail₀ σ₀ avail σ)
    (blockPending : Pending avail σ (σ₀.entry avail₀) block)
    (donePending : Pending avail σ (σ₀.entry avail₀) t.breakTo)
    (condMarked : Lower.Marked avail σ (σ₀.entry avail₀) t.continueTo) (apart : block ≠ t.breakTo)
    (new : σ₀.program.blocks.size < block) (reaches : σ.Reaches block)
    (acts : Acts .stmt (c.inLoop t) body)
    (lowered : (do
      Lower.inLoop t body
      if ← Lower.isOpen then Lower.jump t.continueTo
      Lower.switchTo t.breakTo : Lower Unit) (σ.switched block) = .ok () σ') :
    ∃ avail₁ σ₁, σ' = σ₁.switched t.breakTo ∧ Evo .stmt avail₀ σ₀ avail₁ σ₁ ∧
      Pending avail₁ σ₁ (σ₀.entry avail₀) t.breakTo ∧ σ.program.Grows σ₁.program ∧
      ∀ {run : Env → Run W Outcome} {a env s o s'}, Executes l body run → Covers l σ σ₁ →
        Starts l.program c.fn block a.here → Matches l σ₀.symbols env s a →
        run env s = some (o, s') → ∀ callers, Ending l (c.inLoop t) callers (size σ₀) a s'
          (fun _ => Gets l callers (size σ₀) a c.fn t.continueTo s') o := by
  have entered := Entered.switched inv₀ open₀ inv since blockPending new reaches
  have inv₁ := entered.inv
  have since₁ := entered.since
  have donePending₁ := entered.waiting apart.symm donePending
  have condMarked₁ := entered.marked condMarked
  have loopInv := entered.looping condMarked donePending.marked
  obtain ⟨_, _, looped, rest₂⟩ := bind_eq_ok.mp lowered
  obtain ⟨σ₂, lowered₂, rfl⟩ := inLoop_eq_ok inv₁ acts loopInv looped
  obtain ⟨avail₂, inner, evo, -⟩ := (acts.runs loopInv).ok lowered₂
  have inv₂ := inner.unlooped
  have evo₂ := evo.unlooped
  have since₂ := since₁.trans evo₂ inv₀.laid
  have le : size σ₀ ≤ size (σ.switched block) := size_le since₁
  have ends : Covers l σ σ₂ → ∀ {run : Env → Run W Outcome} {a env s o s'}, Executes l body run →
      Starts l.program c.fn block a.here → Matches l σ₀.symbols env s a →
      run env s = some (o, s') → ∀ callers, Ending l (c.inLoop t) callers (size σ₀) a s'
        (fun env' => Continues l callers (σ.switched block) a σ₂ env' s') o := by
    intro covers run a env s o s' executes starts fits ran callers
    have stands : Stands l.program (σ.switched block) a.here :=
      starts.stands (since.fn.trans inv₀.site.fn) rfl blockPending.insts_switched
    have fits₁ : Matches l (σ.switched block).symbols env s a :=
      fits.goes inv₀ since₁.keeps (.refl l False callers _ _ a) (Nat.le_refl _) fits.toAgrees
    have ending : Ending l (c.inLoop t) callers (size ((σ.switched block).looping t)) a s'
        (fun env' => Continues l callers ((σ.switched block).looping t) a σ₂ env' s') o :=
      executes (c := c.inLoop t) depth loopInv rfl lowered₂ (covers.sub (Nat.le_refl _) (.refl _))
        (stands.congr ⟨rfl, rfl⟩ rfl) fits₁ ran
    exact ending.after (.refl ..) le fun _ => id
  have test : Lower.isOpen σ₂.unlooped = .ok σ₂.frame.isOpen σ₂.unlooped := rfl
  have rest₃ := (bind_ok test).symm.trans rest₂
  cases open₂ : σ₂.frame.isOpen with
  | false =>
    rw [open₂] at rest₃
    cases rest₃
    refine ⟨avail₂, σ₂.unlooped, rfl, since₂, donePending₁.evo inv₁ evo₂, evo₂.grows, ?_⟩
    intro run a env s o s' executes covers starts fits ran callers
    refine (ends ⟨covers.grows, covers.apart⟩ executes starts fits ran callers).imp ?_
    rintro env' ⟨isOpen, -⟩
    rw [open₂] at isOpen
    cases isOpen
  | true =>
    rw [open₂] at rest₃
    obtain ⟨_, σ₃, lowered₃, rest₄⟩ := bind_eq_ok.mp rest₃
    cases rest₄
    have target := (condMarked₁.evo inv₁ evo₂).target since₂.inside
    obtain ⟨avail₃, inv₃, evo₃, -⟩ := (Lower.jump_runs inv₂ target).ok lowered₃
    refine ⟨avail₃, σ₃, rfl, since₂.trans evo₃ inv₀.laid,
      (donePending₁.evo inv₁ evo₂).evo inv₂ evo₃, evo₂.grows.trans evo₃.grows, ?_⟩
    intro run a env s o s' executes covers starts fits ran callers
    refine (ends (covers.sub (Nat.le_refl _) evo₃.grows) executes starts fits ran callers).imp ?_
    rintro env' ⟨-, b, goes, stands₂, fits₂⟩
    have gets : Gets l callers (size σ₂.unlooped) b c.fn t.continueTo s' :=
      jump_gets inv₂ open₂ target lowered₃ covers.grows (stands₂.congr ⟨rfl, rfl⟩ rfl)
        fits₂.toAgrees
    exact gets.after (goes.mono le (Nat.le_refl _)) (size_le since₂)

theorem loop_executes (evaluates : Evaluates l k n) {span : Span} {cond : Expr} {body : Stmt}
    (whole : cond.Whole) (acts : ∀ {c : Lower.Site}, 0 < c.depth → Acts .stmt c (Lower.stmt body))
    (executes : ∀ i ≤ n, Executes l (Lower.stmt body) fun env => stmt k i env body) (le : m ≤ n) :
    Executes l (Lower.loop cond (Lower.stmt body)) fun env => stmt k m env (.while span cond body) := by
  intro c avail₀ σ₀ σ' callers env s o s' a depth inv₀ open₀ lowered covers stands fits ran
  have test : Lower.isOpen σ₀ = .ok true σ₀ := by rw [← open₀]; rfl
  have rest₀ := (bind_ok test).symm.trans lowered
  obtain ⟨condBlock, σ₁, lowered₁, rest₁⟩ := bind_eq_ok.mp rest₀
  obtain ⟨bodyBlock, σ₂, lowered₂, rest₂⟩ := bind_eq_ok.mp rest₁
  obtain ⟨done, σ₃, lowered₃, rest₃⟩ := bind_eq_ok.mp rest₂
  obtain ⟨avail₂, fork₂⟩ := Fork.of_newBlocks inv₀ lowered₁ lowered₂
  obtain ⟨avail₃, condBody, condDone, bodyDone⟩ := (fork₂.more inv₀).ok lowered₃
  have open₃ := condBody.since.keeps.2.trans open₀
  have enters := Looped.entered inv₀ condBody condDone bodyDone
  have inv₄ := enters.fork.inv
  have since₄ := enters.fork.since
  obtain ⟨_, _, made₃, rest₄⟩ := bind_eq_ok.mp rest₃
  obtain ⟨_, _, sealed₃, rest₅⟩ := bind_eq_ok.mp rest₄
  obtain rfl := Lower.sealTo_eq_ok condBody.inv rfl made₃ sealed₃
  obtain ⟨v, σ₅, lowered₅, rest₆⟩ := bind_eq_ok.mp rest₅
  obtain ⟨avail₅, inv₅, evo₅, condOk⟩ := ((Lower.expr_computes cond whole).runs inv₄).ok lowered₅
  have looped := enters.evo inv₀ inv₅ evo₅
  have fork := looped.fork
  have branched := fork.branched inv₀ condOk
  obtain ⟨_, _, made₅, rest₇⟩ := bind_eq_ok.mp rest₆
  obtain ⟨_, _, sealed₅, rest₈⟩ := bind_eq_ok.mp rest₇
  obtain rfl := sealOff_eq_ok (x := .branch v bodyBlock done) fork.inv rfl
    (bind_eq_ok.mpr ⟨_, _, made₅, sealed₅⟩)
  obtain ⟨avail₇, σ₇, rfl, since₇, donePending₇, grows₇, bodies⟩ := loopBody_ending (l := l)
    (t := ⟨condBlock, done⟩) depth inv₀ open₀ branched.inv branched.since branched.first
    branched.last (looped.marked.evo inv₅ branched.evo) fork.apart fork.firstNew
    (branched.reaches open₀ _ (by simp)) (acts depth)
    (rest₈ : (do
      Lower.switchTo bodyBlock
      Lower.inLoop ⟨condBlock, done⟩ (Lower.stmt body)
      if ← Lower.isOpen then Lower.jump condBlock
      Lower.switchTo done : Lower Unit) _ = .ok () σ')
  have grows₆ := grows₇.trans covers.grows
  have grows₅ := branched.evo.grows.trans grows₆
  have symbols : (σ₃.sealed (.jump condBlock) condBlock σ₃.frame.isOpen).symbols = σ₀.symbols :=
    since₄.keeps.1
  have enter : Lower.Instr avail₃ σ₃ .unit (.jump condBlock) :=
    .jump (condBody.first.target condBody.since.inside)
  have empty := condBody.first.insts_sealed condBody.inv enter σ₃.frame.isOpen
  have circles : Circles l k n c callers σ₀ env cond body condBlock bodyBlock done := {
    tests := fun {i b s x s₁} small starts fits ran => by
      rw [← symbols] at fits ⊢
      obtain ⟨d, goes, starts', fits'⟩ := condition_leads callers evaluates whole
        (Nat.le_of_lt small) inv₄ open₃ lowered₅ inv₅ evo₅ (.refl _) id fork.first fork.last grows₅
        grows₆ (starts.stands inv₄.site.fn rfl empty) fits ran
      exact ⟨d, goes.mono (size_le since₄) (Nat.le_refl _), starts', fits'⟩
    bodies := fun small starts fits ran =>
      bodies (executes _ (Nat.le_of_lt small)) (covers.sub (size_le branched.since) (.refl _)) starts
        fits ran callers }
  -- The machine enters the loop at the condition.
  obtain ⟨-, block, insts⟩ := Lower.newBlocks_insts inv₀ open₀ lowered₁ lowered₂
  have stands₂ := stands.congr ⟨fork₂.since.fn, block⟩ insts
  have stands₃ := stands₂.newBlock fork₂.inv (fork₂.since.keeps.2.trans open₀) lowered₃
  have grows₄ := evo₅.grows.trans grows₅
  obtain ⟨d, found, here⟩ := condBody.first.block
  obtain ⟨b, lands⟩ : ∃ b, Lands l False callers (size σ₃) a.memory.length a σ₃.frame.fn condBlock b :=
    jump_lands condBody.inv open₃ grows₄ stands₃
      (Laid.grows ⟨d, [], found, here⟩ ((enter.emitted condBody.inv).2.2.trans grows₄))
  have goes := lands.goes.mono (size_le condBody.since) (Nat.le_refl _)
  have fits₁ : Matches l σ₀.symbols env s b :=
    fits.goes inv₀ (.refl _ σ₀) goes (Nat.le_refl _) (lands.agrees fits.toAgrees)
  have starts := lands.starts
  rw [condBody.inv.site.fn] at starts
  refine (circles.ending inv₀ le starts fits₁ ran).after goes (Nat.le_refl _) ?_
  rintro env' ⟨rfl, gets⟩
  exact (gets.after goes (Nat.le_refl _)).continues inv₀ since₇ donePending₇ fits

end SysY.Meaning

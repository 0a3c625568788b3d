import SysY.Proofs.Lower.Decl
import SysY.Lower.Stmt

/-! # Statements keep the invariant

The blocks of a conditional and of a loop are made at one moment, and everything that is lowered in
them is compared with that moment: a block of a statement is entered at most once, after a branch to
it, and the join is entered only when control can get there. -/

namespace SysY.Lower

open Koopa (ValueId BlockId FnId Avail ValueDef)
open Source (Span)

variable {c : Site} {avail avail₀ : Avail} {σ σ₀ : State}

/-- An operation that can be lowered wherever the site is `c`. -/
structure Acts (k : Kind) (c : Site) (m : Lower Unit) : Prop where
  runs : ∀ {avail σ}, Inv c avail σ → Runs k c avail σ m fun _ _ _ => True

theorem assign_acts {target value : Expr} (placeWhole : target.Whole) (valueWhole : value.Whole) :
    Acts .expr c (assign target value) := by
  constructor
  intro avail σ inv
  unfold assign
  refine Runs.bind inv (asPlace_runs inv target _) ?_
  rintro ⟨span, named⟩ avail₁ σ₁ - - ⟨rfl, rfl, -, isPlace⟩
  refine Runs.bind inv (findObject_runs inv named.name named.nameSpan) ?_
  rintro s avail₂ σ₂ - - ⟨rfl, rfl, found, notFn⟩
  have aimed : (∀ v slot, s.meaning ≠ .constant v slot) →
      Runs .expr c avail₂ σ₂ (assigning target value named) fun _ _ _ => True := by
    intro mutable
    refine Runs.bind inv (startPlace_runs inv target) ?_
    rintro p₀ avail₃ σ₃ inv₃ evo₃ ⟨ok₀, named', isPlace', found'⟩
    rw [isPlace] at isPlace'
    cases isPlace'
    rw [found] at found'
    cases found'
    refine Runs.bind inv₃ (walk_runs target placeWhole inv₃ ok₀) ?_
    rintro p avail₄ σ₄ inv₄ evo₄ ⟨ok, same⟩
    unfold storing
    refine Runs.guard inv₄ (fun _ => Runs.raise inv₄ .typeMismatch rfl (by decide)) fun scalar => ?_
    have int : p.type = .int := Ty.isScalar_iff.mp (by simpa using scalar)
    refine Runs.bind inv₄ ((expr_computes value valueWhole).runs inv₄) ?_
    intro v avail₅ σ₅ inv₅ evo₅ vOk
    -- A place without an address is a constant, and those were refused.
    obtain ⟨addr, hasAddr, addrOk⟩ : ∃ addr, p.addr = some addr ∧
        Operand avail₄ σ₄ addr (.pointer .i32) := by
      unfold PlaceOk at ok
      split at ok
      · rename_i addr hasAddr
        rw [int] at ok
        exact ⟨addr, hasAddr, ok.2⟩
      · obtain ⟨-, w, slot, meaning, -⟩ := ok
        rw [same] at meaning
        exact absurd meaning (mutable w slot)
    have address : p.address σ₅ = .ok addr σ₅ := by
      rw [Place.address, hasAddr]
      rfl
    refine Ends.of_eq (bind_ok address) ?_
    refine Runs.bind inv₅ (store_runs inv₅ vOk (addrOk.evo evo₅)) ?_
    intro _ avail₆ σ₆ inv₆ _ _
    exact Runs.pure inv₆ trivial
  split
  · exact Ends.of_eq (n := raise (.illegalAssignment named.nameSpan named.name)) (by rfl)
      (Runs.raise inv .illegalAssignment rfl (by decide))
  · rename_i mutable
    exact aimed mutable

/-! ## Jumps -/

/-- After a terminator the code is unreachable, until lowering goes on elsewhere. -/
theorem sealOff_runs {x : ValueDef} {f : Koopa.Program → FnId → ValueId × Koopa.Program}
    (inv : Inv c avail σ) (instr : Instr avail σ .unit x)
    (eq : f σ.program σ.frame.fn = σ.program.inst σ.frame.fn .unit x) :
    Runs .stmt c avail σ (do sealOff (← make f)) fun _ avail' σ' =>
      σ' = σ.sealed x 0 false ∧ avail' = avail :=
  Ends.of_ok ((bind_ok (make_eq eq)).trans (sealOff_made inv.takes x))
    ⟨avail, inv.sealed instr 0, .sealed inv instr 0, rfl, rfl⟩

theorem jump_runs {b : BlockId} (inv : Inv c avail σ) (target : Instr.Target avail σ b) :
    Runs .stmt c avail σ (jump b) fun _ avail' σ' =>
      σ' = σ.sealed (.jump b) 0 false ∧ avail' = avail :=
  sealOff_runs inv (.jump target) rfl

theorem leaveLoop_eq (span : Span) (keyword : String) (target : LoopTargets → BlockId) (σ : State) :
    leaveLoop span keyword target σ = (match σ.frame.loops with
      | [] => raise (.invalidControlTransfer span keyword)
      | t :: _ => jump (target t) : Lower Unit) σ := rfl

/-- The blocks of an open loop can be jumped to. -/
theorem Inv.loop_target {t : LoopTargets} {target : LoopTargets → BlockId} (inv : Inv c avail σ)
    (inner : t ∈ c.loops) (isTarget : target = (·.continueTo) ∨ target = (·.breakTo)) :
    Instr.Target avail σ (target t) := by
  refine ⟨fun found => ?_, fun isOpen => ?_⟩
  · rw [inv.site.fn] at found
    rcases isTarget with rfl | rfl
    · exact (inv.loops t inner found).1
    · exact (inv.loops t inner found).2
  · rcases isTarget with rfl | rfl
    · exact ((inv.live isOpen).loops t inner).1
    · exact ((inv.live isOpen).loops t inner).2

theorem leaveLoop_acts {span : Span} {keyword : String} {target : LoopTargets → BlockId}
    (isTarget : target = (·.continueTo) ∨ target = (·.breakTo)) :
    Acts .stmt c (leaveLoop span keyword target) := by
  constructor
  intro avail σ inv
  refine Ends.of_eq (leaveLoop_eq span keyword target σ) ?_
  rw [inv.site.loops]
  split
  · exact Runs.raise inv .invalidControlTransfer rfl (by decide)
  · rename_i t rest loops
    have inner : t ∈ c.loops := by simp [loops]
    exact (jump_runs inv (inv.loop_target inner isTarget)).mono fun _ _ _ _ _ _ => trivial

theorem currentName_runs {k : Kind} (inv : Inv c avail σ) :
    Runs k c avail σ currentName fun _ avail' σ' => avail' = avail ∧ σ' = σ := by
  obtain ⟨d, found⟩ := inv.current
  refine Ends.of_ok (a := (d.name.drop 1).toString) (s := σ) ?_
    ⟨avail, inv, .refl _ _ _, rfl, rfl⟩
  simp only [currentName, get_bind, Koopa.Program.fn_eq_ok.mpr found, lift]
  rfl

theorem ret_eq (span : Span) (value : Option Expr) (σ : State) :
    ret span value σ = (do
      let v ← match value, σ.frame.ret == .void with
        | some _, true =>
          raise (.typeMismatch span s!"void function '{← currentName}' returns a value")
        | some e, false => some <$> expr e
        | none, true => pure none
        | none, false => some <$> integer 0
      sealOff (← make (·.ret · v)) : Lower Unit) σ := rfl

theorem ret_acts {span : Span} {value : Option Expr} (whole : ∀ e ∈ value, e.Whole) :
    Acts .stmt c (ret span value) := by
  constructor
  intro avail σ inv
  obtain ⟨d, found, retTy, -⟩ := inv.fn
  have finish : ∀ {avail₁ σ₁ v}, Inv c avail₁ σ₁ → Evo .stmt avail σ avail₁ σ₁ →
      c.ret = .int → Operand avail₁ σ₁ v .i32 →
      Runs .stmt c avail₁ σ₁ (do sealOff (← make (·.ret · (some v)))) fun _ _ _ => True := by
    intro avail₁ σ₁ v inv₁ evo₁ int operand
    obtain ⟨d₁, found₁, ret₁, -⟩ := inv₁.fn
    rw [← inv₁.site.fn] at found₁
    rw [int] at ret₁
    refine (sealOff_runs inv₁ (.retSome found₁ ?_) rfl).mono fun _ _ _ _ _ _ => trivial
    rw [ret₁]
    exact operand
  refine Ends.of_eq (ret_eq span value σ) ?_
  rw [inv.site.ret]
  have isInt : (c.ret == .void) = false → c.ret = .int := by
    intro notVoid
    rcases inv.ret with int | void
    · exact int
    · rw [void] at notVoid
      cases notVoid
  cases value with
  | none =>
    cases isVoid : c.ret == .void with
    | true =>
      rw [eq_of_beq isVoid] at retTy
      rw [← inv.site.fn] at found
      have runs := sealOff_runs (f := (·.ret · none)) inv (.retNone found retTy) rfl
      exact runs.mono fun _ _ _ _ _ _ => trivial
    | false =>
      simp only [map_eq_pure_bind, bind_assoc, pure_bind]
      refine Runs.bind inv (integer_runs inv 0) ?_
      intro v avail₁ σ₁ inv₁ evo₁ vOk
      exact finish inv₁ evo₁ (isInt isVoid) vOk
  | some e =>
    cases isVoid : c.ret == .void with
    | true =>
      refine Runs.bind inv (currentName_runs inv) ?_
      rintro name _ _ - - ⟨rfl, rfl⟩
      exact Ends.of_eq (n := raise (.typeMismatch span s!"void function '{name}' returns a value"))
        (by rfl) (Runs.raise inv .typeMismatch rfl (by decide))
    | false =>
      simp only [map_eq_pure_bind, bind_assoc, pure_bind]
      refine Runs.bind inv (RunsFrom.of_expr ((expr_computes e (whole e rfl)).runs inv)) ?_
      intro v avail₁ σ₁ inv₁ evo₁ vOk
      exact finish inv₁ evo₁ (isInt isVoid) vOk

/-! ## Conditionals -/

/-- What is known after one arm of a conditional: blocks that wait still do, and control can reach
the join if the arm says so. -/
structure AfterArm (c : Site) (avail₀ : Avail) (σ₀ : State) (avail : Avail) (σ : State)
    (block join : BlockId) (joined : Bool) (avail' : Avail) (σ' : State) : Prop where
  inv : Inv c avail' σ'
  since : Evo .stmt avail₀ σ₀ avail' σ'
  grows : σ.program.Grows σ'.program
  waiting : ∀ {b inside}, b ≠ block → Pending avail σ inside b → Pending avail' σ' inside b
  reaches : joined = true → σ₀.frame.isOpen = true ∧ σ'.Reaches join

theorem arm_ends {block join : BlockId} {body : Lower Unit} (inv₀ : Inv c avail₀ σ₀)
    (inv : Inv c avail σ) (since : Evo .stmt avail₀ σ₀ avail σ)
    (blockPending : Pending avail σ (σ₀.entry avail₀) block)
    (joinPending : Pending avail σ (σ₀.entry avail₀) join) (apart : join ≠ block)
    (new : σ₀.program.blocks.size < block) (reaches : σ₀.frame.isOpen = true → σ.Reaches block)
    (acts : Acts .stmt c body) :
    Ends (At c) (arm σ₀.frame.isOpen block join body) σ fun joined σ' =>
      ∃ avail', AfterArm c avail₀ σ₀ avail σ block join joined avail' σ' := by
  unfold arm
  refine Ends.enter inv₀ inv since blockPending new (fun open₀ => ⟨open₀, reaches open₀⟩) ?_
  intro σ₁ entered
  refine Ends.bind (acts.runs entered.inv) ?_
  rintro _ σ₂ ⟨avail₂, inv₂, evo₂, -⟩
  have since₂ := entered.since.trans evo₂ inv₀.laid
  have grows₂ := entered.grows.trans evo₂.grows
  have waiting₂ : ∀ {b inside}, b ≠ block → Pending avail σ inside b →
      Pending avail₂ σ₂ inside b :=
    fun other pending => (entered.waiting other pending).evo entered.inv evo₂
  have first : isOpen σ₂ = .ok σ₂.frame.isOpen σ₂ := rfl
  refine Ends.of_eq (bind_ok first) ?_
  cases open₂ : σ₂.frame.isOpen with
  | false => exact .pure _ ⟨avail₂, inv₂, since₂, grows₂, waiting₂, nofun⟩
  | true =>
    have joinTarget : Instr.Target avail₂ σ₂ join :=
      (waiting₂ apart joinPending).target since₂.inside
    refine Ends.bind (jump_runs inv₂ joinTarget) ?_
    rintro _ σ₃ ⟨avail₃, inv₃, evo₃, rfl, rfl⟩
    have joins : (σ₂.sealed (.jump join) 0 false).Reaches join :=
      inv₂.reaches_sealed (.jump joinTarget) open₂ (by simp [ValueDef.targets]) 0
    exact .pure _ ⟨avail₃, inv₃, since₂.trans evo₃ inv₀.laid, grows₂.trans evo₃.grows,
      fun other pending => (waiting₂ other pending).evo inv₂ evo₃,
      fun _ => ⟨(since₂.here open₂).1, joins⟩⟩

/-- A block that control could reach before an arm can be reached after it. -/
theorem AfterArm.still {block join b : BlockId} {joined : Bool} {avail' : Avail} {σ' : State}
    (after : AfterArm c avail₀ σ₀ avail σ block join joined avail' σ')
    (since : Evo .stmt avail₀ σ₀ avail σ) (reaches : σ.Reaches b) : σ'.Reaches b :=
  reaches.grows after.grows (after.since.fn.trans since.fn.symm)

theorem conditional_acts {cond : Expr} {thenArm : Lower Unit} {elseArm : Option (Lower Unit)}
    (condOk : cond.Whole) (thenOk : Acts .stmt c thenArm)
    (elseOk : ∀ m ∈ elseArm, Acts .stmt c m) :
    Acts .stmt c (conditional cond thenArm elseArm) := by
  constructor
  intro avail σ inv
  have first : isOpen σ = .ok σ.frame.isOpen σ := rfl
  rw [conditional]
  refine Ends.of_eq (bind_ok first) ?_
  refine Ends.bind ((expr_computes cond condOk).runs inv) ?_
  rintro v σ₀ ⟨avail₀, inv₀, evo₀, vOk⟩
  rw [← evo₀.keeps.2]
  -- The blocks are made now; everything below is compared with this moment.
  suffices later : Runs .stmt c avail₀ σ₀ _ fun _ _ _ => True from
    Runs.since inv evo₀.of_expr later
  refine Ends.bind (newBlock_waits inv₀) ?_
  rintro thenBlock σ₁ ⟨avail₁, waits⟩
  cases elseArm with
  | none =>
    refine Ends.bind (waits.fork inv₀) ?_
    rintro join σ₂ ⟨avail₂, fork⟩
    have branched := fork.branched inv₀ (vOk.evo fork.since)
    refine Ends.of_eq ((bind_ok (make_eq rfl)).trans (bind_ok (sealOff_made fork.inv.takes _))) ?_
    refine Ends.bind (arm_ends inv₀ branched.inv branched.since branched.first branched.last
      fork.apart.symm fork.firstNew (fun open₀ => branched.reaches open₀ _ (by simp)) thenOk) ?_
    rintro joined σ₃ ⟨avail₃, after⟩
    refine switch_runs inv₀ after.inv after.since (after.waiting fork.apart.symm branched.last)
      fork.lastNew fun enter => ?_
    have open₀ : σ₀.frame.isOpen = true := by
      rcases Bool.or_eq_true_iff.mp enter with isOpen | joins
      · exact isOpen
      · exact (after.reaches joins).1
    exact ⟨open₀, after.still branched.since (branched.reaches open₀ _ (by simp))⟩
  | some other =>
    refine Ends.bind (waits.fork inv₀) ?_
    rintro elseBlock σ₂ ⟨avail₂, arms⟩
    refine Ends.bind (arms.more inv₀) ?_
    rintro join σ₃ ⟨avail₃, arms, thenJoin, elseJoin⟩
    have branched := arms.branched inv₀ (vOk.evo arms.since)
    refine Ends.of_eq ((bind_ok (make_eq rfl)).trans (bind_ok (sealOff_made arms.inv.takes _))) ?_
    have joinPending := elseJoin.last.evo arms.inv branched.evo
    refine Ends.bind (arm_ends inv₀ branched.inv branched.since branched.first joinPending
      thenJoin.apart.symm arms.firstNew (fun open₀ => branched.reaches open₀ _ (by simp)) thenOk) ?_
    rintro joined₁ σ₄ ⟨avail₄, first⟩
    have joinPending := first.waiting thenJoin.apart.symm joinPending
    refine Ends.bind (arm_ends inv₀ first.inv first.since
      (first.waiting arms.apart.symm branched.last) joinPending elseJoin.apart.symm arms.lastNew
      (fun open₀ => first.still branched.since (branched.reaches open₀ _ (by simp)))
      (elseOk other rfl)) ?_
    rintro joined₂ σ₅ ⟨avail₅, second⟩
    refine switch_runs inv₀ second.inv second.since
      (second.waiting elseJoin.apart.symm joinPending) elseJoin.lastNew fun enter => ?_
    rcases Bool.or_eq_true_iff.mp enter with joins | joins
    · exact ⟨(first.reaches joins).1, second.still first.since (first.reaches joins).2⟩
    · exact second.reaches joins

/-! ## Loops -/

/-- The blocks of an open loop can be jumped to from its body. -/
theorem Entered.looping {condBlock bodyBlock done : BlockId} {σ' : State}
    (entered : Entered c avail₀ σ₀ avail σ bodyBlock σ')
    (condMarked : Marked avail σ (σ₀.entry avail₀) condBlock)
    (doneMarked : Marked avail σ (σ₀.entry avail₀) done) :
    Inv (c.inLoop ⟨condBlock, done⟩) avail (σ'.looping ⟨condBlock, done⟩) :=
  entered.inv.looping ((entered.marked condMarked).target entered.since.inside)
    ((entered.marked doneMarked).target entered.since.inside)

theorem loop_acts {cond : Expr} {body : Lower Unit} (condOk : cond.Whole)
    (bodyOk : ∀ t, Acts .stmt (c.inLoop t) body) : Acts .stmt c (loop cond body) := by
  constructor
  intro avail₀ σ₀ inv₀
  have first : isOpen σ₀ = .ok σ₀.frame.isOpen σ₀ := rfl
  rw [loop]
  refine Ends.of_eq (bind_ok first) ?_
  refine Ends.bind (newBlock_waits inv₀) ?_
  rintro condBlock σ₁ ⟨avail₁, waits⟩
  refine Ends.bind (waits.fork inv₀) ?_
  rintro bodyBlock σ₂ ⟨avail₂, condBody⟩
  refine Ends.bind (condBody.more inv₀) ?_
  rintro done σ₃ ⟨avail₃, condBody, condDone, bodyDone⟩
  have enters := Looped.entered inv₀ condBody condDone bodyDone
  refine Ends.of_eq
    ((bind_ok (make_eq rfl)).trans (bind_ok (sealTo_made condBody.inv.takes _ condBlock))) ?_
  refine Ends.bind ((expr_computes cond condOk).runs enters.fork.inv) ?_
  rintro v σ₄ ⟨avail₄, inv₄, evo₄, vOk⟩
  have looped := enters.evo inv₀ inv₄ evo₄
  have branched := looped.fork.branched inv₀ vOk
  have condMarked := looped.marked.evo inv₄ branched.evo
  refine Ends.of_eq ((bind_ok (make_eq rfl)).trans (bind_ok (sealOff_made inv₄.takes _))) ?_
  refine Ends.enter inv₀ branched.inv branched.since branched.first bodyDone.firstNew
    (fun open₀ => ⟨open₀, branched.reaches open₀ _ (by simp)⟩) ?_
  -- The body, and what follows the loop if that can be reached.
  intro σ₅ entered
  refine RunsFrom.bind inv₀ entered.since (inLoop_runs entered.inv
    ((bodyOk _).runs (entered.looping condMarked branched.last.marked))) ?_
  intro _ avail₆ σ₆ inv₆ evo₆ since₆ _
  have donePending := (entered.waiting bodyDone.apart.symm branched.last).evo entered.inv evo₆
  have condMarked := (entered.marked condMarked).evo entered.inv evo₆
  have ending : ∀ {avail₇ σ₇}, Inv c avail₇ σ₇ → Evo .stmt avail₆ σ₆ avail₇ σ₇ →
      RunsFrom .stmt c avail₀ σ₀ σ₇ (if σ₀.frame.isOpen then switchTo done else pure ())
        fun _ _ _ => True := by
    intro avail₇ σ₇ inv₇ evo₇
    have since₇ := since₆.trans evo₇ inv₀.laid
    have grows := (entered.grows.trans evo₆.grows).trans evo₇.grows
    refine switch_runs inv₀ inv₇ since₇ (donePending.evo inv₆ evo₇) bodyDone.lastNew fun open₀ => ?_
    exact ⟨open₀, (branched.reaches open₀ _ (by simp)).grows grows
      (since₇.fn.trans branched.since.fn.symm)⟩
  have test : isOpen σ₆ = .ok σ₆.frame.isOpen σ₆ := rfl
  refine Ends.of_eq (bind_ok test) ?_
  cases open₆ : σ₆.frame.isOpen with
  | false => exact ending inv₆ (.refl _ _ _)
  | true =>
    refine Ends.bind (jump_runs inv₆ (condMarked.target since₆.inside)) ?_
    rintro _ σ₇ ⟨avail₇, inv₇, evo₇, -⟩
    exact ending inv₇ evo₇

/-! ## Statements -/

theorem Acts.of_expr {m : Lower Unit} (acts : Acts .expr c m) {k : Kind} : Acts k c m :=
  ⟨fun inv => (acts.runs inv).of_expr⟩

/-- What a statement keeps: only a declaration binds names. -/
def kindOf (s : Stmt) : Kind := if s.isDecl then .item else .stmt

theorem Acts.item {s : Stmt} {m : Lower Unit} (acts : Acts (kindOf s) c m) : Acts .item c m := by
  unfold kindOf at acts
  split at acts
  · exact acts
  · exact ⟨fun inv => (acts.runs inv).of_stmt⟩

mutual

/-- A whole statement keeps the invariant. -/
theorem stmt_acts : (s : Stmt) → s.Whole → ∀ {c : Site}, 0 < c.depth → Acts (kindOf s) c (stmt s)
  | .block _ ss, whole, _, _ => ⟨fun inv => by
    rw [stmt]
    refine (inScope_runs inv ((stmts_acts ss whole ?_).runs (inv.pushed .block))).mono
      fun _ _ _ _ _ _ => trivial
    exact Nat.succ_pos _⟩
  | .decl _ none, whole, _, _ => by
    obtain ⟨d, hd, -⟩ := whole
    cases hd
  | .decl _ (some d), whole, _, depth => ⟨fun inv => by
    obtain ⟨_, ⟨⟩, dWhole⟩ := whole
    rw [stmt]
    exact localDecl_runs dWhole depth inv⟩
  | .assign _ target value, whole, _, _ => by
    rw [stmt]
    exact (assign_acts whole.1 whole.2).of_expr
  | .expr _ none, _, _, _ => ⟨fun inv => by
    rw [stmt]
    exact Runs.pure inv trivial⟩
  | .expr _ (some e), whole, _, _ => ⟨fun inv => by
    rw [stmt]
    exact (effect_runs (whole e rfl) inv).of_expr⟩
  | .ifThen _ cond thenArm none, whole, _, depth => by
    obtain ⟨condWhole, thenWhole, thenPlain⟩ := whole
    have thenActs := stmt_acts thenArm thenWhole depth
    rw [kindOf, thenPlain] at thenActs
    rw [stmt]
    exact conditional_acts condWhole thenActs (by simp)
  | .ifThen _ cond thenArm (some elseArm), whole, _, depth => by
    obtain ⟨condWhole, ⟨thenWhole, thenPlain⟩, elseWhole, elsePlain⟩ := whole
    have thenActs := stmt_acts thenArm thenWhole depth
    have elseActs := stmt_acts elseArm elseWhole depth
    rw [kindOf, thenPlain] at thenActs
    rw [kindOf, elsePlain] at elseActs
    rw [stmt]
    refine conditional_acts condWhole thenActs ?_
    rintro _ ⟨⟩
    exact elseActs
  | .while _ cond body, whole, c, depth => by
    obtain ⟨condWhole, bodyWhole, bodyPlain⟩ := whole
    rw [stmt]
    refine loop_acts condWhole fun t => ?_
    have bodyActs := stmt_acts body bodyWhole (c := c.inLoop t) depth
    rw [kindOf, bodyPlain] at bodyActs
    exact bodyActs
  | .break s, _, _, _ => by
    rw [stmt]
    exact leaveLoop_acts (.inr rfl)
  | .continue s, _, _, _ => by
    rw [stmt]
    exact leaveLoop_acts (.inl rfl)
  | .return s value, whole, _, _ => by
    rw [stmt]
    exact ret_acts whole
  | .bare .., whole, _, _ => whole.elim
  | .missing _, whole, _, _ => whole.elim

/-- Whole statements keep the invariant. -/
theorem stmts_acts : (ss : List Stmt) → Stmt.AllWhole ss → ∀ {c : Site}, 0 < c.depth →
    Acts .item c (stmts ss)
  | [], _, _, _ => ⟨fun inv => by
    rw [stmts]
    exact Runs.pure inv trivial⟩
  | s :: ss, whole, _, depth => ⟨fun inv => by
    rw [stmts]
    refine Runs.bind inv ((stmt_acts s whole.1 depth).item.runs inv) ?_
    intro _ avail₁ σ₁ inv₁ _ _
    exact (stmts_acts ss whole.2 depth).runs inv₁⟩

end

end SysY.Lower

import SysY.Proofs.Lower.Blocks

/-! # Forks

A branch leads to two blocks, and both are made before it: from then on they wait, each with what
was available when it was made, until the branch has ended the current block and lowering goes on in
one of them. Conditionals and loops make a third block in the same way. What holds is said at each
step: when the blocks are made (`Fork`), after the branch (`Branched`), and where lowering goes on
(`Entered`). -/

namespace SysY.Lower

open Koopa (ValueId BlockId Avail ValueDef)

variable {k : Kind} {c : Site} {avail avail₀ avail' : Avail} {σ σ₀ σ' : State}
  {b join third : BlockId} {v : ValueId}

/-! ## Making the blocks -/

/-- What was available when a block was made is available until the code is left. -/
theorem Evo.inside (evo : Evo k avail σ avail' σ') (isOpen : σ'.frame.isOpen = true) :
    σ.entry avail ⊆ σ'.avail avail' :=
  fun _ mem => evo.avail isOpen mem.2

/-- A block that was made at the moment `σ₀` and waits. -/
structure Waits (c : Site) (avail₀ : Avail) (σ₀ : State) (avail : Avail) (σ : State)
    (b : BlockId) : Prop where
  inv : Inv c avail σ
  since : Evo .expr avail₀ σ₀ avail σ
  pending : Pending avail σ (σ₀.entry avail₀) b
  new : σ₀.program.blocks.size < b

theorem newBlock_waits (inv₀ : Inv c avail₀ σ₀) :
    Ends (At c) newBlock σ₀ fun b σ => ∃ avail, Waits c avail₀ σ₀ avail σ b := by
  refine Ends.mono (newBlock_runs (k := .expr) inv₀ (subset_refl _)) ?_
  rintro b σ ⟨avail, inv, since, pending, new, -⟩
  exact ⟨avail, inv, since, pending, new⟩

/-- Two blocks that were made at the moment `σ₀` and wait. Control is to go to `join`, either at once
or through `b`. -/
structure Fork (c : Site) (avail₀ : Avail) (σ₀ : State) (avail : Avail) (σ : State)
    (b join : BlockId) : Prop where
  inv : Inv c avail σ
  since : Evo .expr avail₀ σ₀ avail σ
  first : Pending avail σ (σ₀.entry avail₀) b
  last : Pending avail σ (σ₀.entry avail₀) join
  firstNew : σ₀.program.blocks.size < b
  lastNew : σ₀.program.blocks.size < join
  apart : b ≠ join

/-- One block was made, and then another one. -/
theorem Waits.made (waits : Waits c avail₀ σ₀ avail σ b) (inv₀ : Inv c avail₀ σ₀)
    (inv' : Inv c avail' σ') (evo : Evo .expr avail σ avail' σ')
    (last : Pending avail' σ' (σ₀.entry avail₀) join) (lastNew : σ.program.blocks.size < join) :
    Fork c avail₀ σ₀ avail' σ' b join where
  inv := inv'
  since := waits.since.trans evo inv₀.laid
  first := waits.pending.evo waits.inv evo
  last := last
  firstNew := waits.new
  lastNew := Nat.lt_of_le_of_lt waits.since.grows.blocks_size lastNew
  apart := Nat.ne_of_lt (Nat.lt_of_le_of_lt (waits.pending.small waits.inv) lastNew)

theorem Waits.fork (waits : Waits c avail₀ σ₀ avail σ b) (inv₀ : Inv c avail₀ σ₀) :
    Ends (At c) newBlock σ fun join σ' => ∃ avail', Fork c avail₀ σ₀ avail' σ' b join := by
  refine Ends.mono (newBlock_runs (k := .expr) waits.inv
    (waits.since.entry waits.since.keeps.2)) ?_
  rintro join σ' ⟨avail', inv', evo, pending, new, -⟩
  exact ⟨avail', waits.made inv₀ inv' evo pending new⟩

theorem Fork.of_newBlocks {σ₁ σ₂ : State} (inv₀ : Inv c avail₀ σ₀)
    (first : newBlock σ₀ = .ok b σ₁) (last : newBlock σ₁ = .ok join σ₂) :
    ∃ avail₂, Fork c avail₀ σ₀ avail₂ σ₂ b join := by
  obtain ⟨avail₁, waits⟩ := (newBlock_waits inv₀).ok first
  exact (waits.fork inv₀).ok last

/-- Blocks that wait are still there after an expression. -/
theorem Fork.evo (fork : Fork c avail₀ σ₀ avail σ b join) (inv₀ : Inv c avail₀ σ₀)
    (inv' : Inv c avail' σ') (evo : Evo .expr avail σ avail' σ') :
    Fork c avail₀ σ₀ avail' σ' b join where
  inv := inv'
  since := fork.since.trans evo inv₀.laid
  first := fork.first.evo fork.inv evo
  last := fork.last.evo fork.inv evo
  firstNew := fork.firstNew
  lastNew := fork.lastNew
  apart := fork.apart

/-- A third block is made. -/
theorem Fork.more (fork : Fork c avail₀ σ₀ avail σ b join) (inv₀ : Inv c avail₀ σ₀) :
    Ends (At c) newBlock σ fun third σ' => ∃ avail', Fork c avail₀ σ₀ avail' σ' b join ∧
      Fork c avail₀ σ₀ avail' σ' b third ∧ Fork c avail₀ σ₀ avail' σ' join third := by
  refine Ends.mono (newBlock_runs (k := .expr) fork.inv (fork.since.entry fork.since.keeps.2)) ?_
  rintro third σ' ⟨avail', inv', evo, pending, new, -⟩
  have first : Waits c avail₀ σ₀ avail σ b := ⟨fork.inv, fork.since, fork.first, fork.firstNew⟩
  have last : Waits c avail₀ σ₀ avail σ join := ⟨fork.inv, fork.since, fork.last, fork.lastNew⟩
  exact ⟨avail', fork.evo inv₀ inv' evo, first.made inv₀ inv' evo pending new,
    last.made inv₀ inv' evo pending new⟩

/-- Making a block leaves the current one alone. -/
theorem newBlock_insts (inv : Inv c avail σ) (isOpen : σ.frame.isOpen = true)
    (made : newBlock σ = .ok b σ') : σ'.frame.fn = σ.frame.fn ∧ σ'.frame.block = σ.frame.block ∧
      σ'.insts = σ.insts := by
  obtain ⟨d, found⟩ := inv.current
  rw [newBlock_eq found (inv.program.fns found).fresh_block] at made
  cases made
  exact ⟨rfl, rfl, inv.insts_withBlock found isOpen⟩

/-- Making two blocks leaves the current one alone. -/
theorem newBlocks_insts {σ₁ σ₂ : State} (inv : Inv c avail σ) (isOpen : σ.frame.isOpen = true)
    (first : newBlock σ = .ok b σ₁) (last : newBlock σ₁ = .ok join σ₂) :
    σ₂.frame.fn = σ.frame.fn ∧ σ₂.frame.block = σ.frame.block ∧ σ₂.insts = σ.insts := by
  obtain ⟨fn, block, insts⟩ := newBlock_insts inv isOpen first
  obtain ⟨avail₁, waits⟩ := (newBlock_waits inv).ok first
  obtain ⟨fn', block', insts'⟩ :=
    newBlock_insts waits.inv (waits.since.keeps.2.trans isOpen) last
  exact ⟨fn'.trans fn, block'.trans block, insts'.trans insts⟩

/-! ## The branch -/

theorem Fork.branch (fork : Fork c avail₀ σ₀ avail σ b join) (cond : Operand avail σ v .i32) :
    Instr avail σ .unit (.branch v b join) :=
  .branch cond (fork.first.target fork.since.inside) (fork.last.target fork.since.inside)

/-- The current block ends with a branch, and lowering goes on in the first of the two blocks. -/
theorem Fork.taken (fork : Fork c avail₀ σ₀ avail σ b join) (inv₀ : Inv c avail₀ σ₀)
    (cond : Operand avail σ v .i32) :
    Inv c avail (σ.sealed (.branch v b join) b σ.frame.isOpen) ∧
      Evo .expr avail₀ σ₀ avail (σ.sealed (.branch v b join) b σ.frame.isOpen) ∧
      Pending avail (σ.sealed (.branch v b join) b σ.frame.isOpen) (σ₀.entry avail₀) join := by
  obtain ⟨inv', since'⟩ := inv₀.sealedTo fork.since fork.inv (fork.branch cond) (b := b)
    (by simp [ValueDef.targets]) fork.first fork.firstNew
  exact ⟨inv', since', fork.last.sealed fork.inv (fork.branch cond) fork.apart _⟩

/-- Later the first block ends with a jump to the other one, and lowering goes on there. -/
theorem Inv.joined (inv₀ : Inv c avail₀ σ₀) (inv : Inv c avail σ)
    (since : Evo .expr avail₀ σ₀ avail σ) (last : Pending avail σ (σ₀.entry avail₀) join)
    (new : σ₀.program.blocks.size < join) : Instr avail σ .unit (.jump join) ∧
      Inv c avail (σ.sealed (.jump join) join σ.frame.isOpen) ∧
      Evo .expr avail₀ σ₀ avail (σ.sealed (.jump join) join σ.frame.isOpen) := by
  have jump : Instr avail σ .unit (.jump join) := .jump (last.target since.inside)
  exact ⟨jump, inv₀.sealedTo since inv jump (b := join) (by simp [ValueDef.targets]) last new⟩

/-- A block in which lowering goes on has no instruction yet. -/
theorem Pending.insts_sealed {inside : Set ValueId} {x : ValueDef}
    (pending : Pending avail σ inside b) (inv : Inv c avail σ) (instr : Instr avail σ .unit x)
    (isOpen : Bool) : (σ.sealed x b isOpen).insts = [] := by
  obtain ⟨d, found, here⟩ := (pending.evo inv (.sealed inv instr b)).block
  exact State.insts_eq (σ := σ.sealed x b isOpen) found here

/-- In `σ'` the current block of `σ` has ended with a branch to two blocks, and they wait. -/
structure Branched (c : Site) (avail₀ : Avail) (σ₀ : State) (avail : Avail) (σ σ' : State)
    (b join : BlockId) : Prop where
  inv : Inv c avail σ'
  evo : Evo .stmt avail σ avail σ'
  since : Evo .stmt avail₀ σ₀ avail σ'
  first : Pending avail σ' (σ₀.entry avail₀) b
  last : Pending avail σ' (σ₀.entry avail₀) join
  reaches : σ₀.frame.isOpen = true → ∀ t ∈ [b, join], σ'.Reaches t

theorem Fork.branched (fork : Fork c avail₀ σ₀ avail σ b join) (inv₀ : Inv c avail₀ σ₀)
    (cond : Operand avail σ v .i32) :
    Branched c avail₀ σ₀ avail σ (σ.sealed (.branch v b join) 0 false) b join := by
  have branch := fork.branch cond
  have evo := Evo.sealed fork.inv branch 0
  exact {
    inv := fork.inv.sealed branch 0
    evo := evo
    since := fork.since.of_expr.trans evo inv₀.laid
    first := fork.first.evo fork.inv evo
    last := fork.last.evo fork.inv evo
    reaches := fun open₀ t target =>
      fork.inv.reaches_sealed branch (fork.since.keeps.2.trans open₀) target 0 }

/-! ## Blocks that are laid out -/

/-- A block that is laid out, and what is available in it. -/
structure Marked (avail : Avail) (σ : State) (inside : Set ValueId) (b : BlockId) : Prop where
  laid : ∃ d, σ.program.fn? σ.frame.fn = some d ∧ b ∈ d.blocks
  ghost : avail b = inside

section Marked

variable {inside : Set ValueId}

theorem Pending.marked (pending : Pending avail σ inside b) : Marked avail σ inside b := by
  obtain ⟨d, found, here⟩ := pending.block
  exact ⟨⟨d, found, Koopa.Fn.mem_blocks_of_insts? here⟩, pending.ghost⟩

theorem Marked.grows (marked : Marked avail σ inside b) (grows : σ.program.Grows σ'.program)
    (fn : σ'.frame.fn = σ.frame.fn) : Marked avail σ' inside b := by
  obtain ⟨d, found, mem⟩ := marked.laid
  obtain ⟨d', found', later⟩ := grows.fns found
  refine ⟨⟨d', ?_, later.mem_blocks mem⟩, marked.ghost⟩
  rw [fn]
  exact found'

theorem Marked.evo (marked : Marked avail σ inside b) (inv : Inv c avail σ)
    (evo : Evo k avail σ avail' σ') : Marked avail' σ' inside b := by
  obtain ⟨d, found, mem⟩ := marked.laid
  exact ⟨(marked.grows evo.grows evo.fn).laid,
    (evo.ghost (inv.laid found mem)).trans marked.ghost⟩

theorem Marked.target (marked : Marked avail σ inside b)
    (less : σ.frame.isOpen = true → inside ⊆ σ.avail avail) : Instr.Target avail σ b := by
  refine ⟨fun {d} found => ?_, fun isOpen => ?_⟩
  · obtain ⟨d', found', mem⟩ := marked.laid
    rw [found] at found'
    cases found'
    exact mem
  · rw [marked.ghost]
    exact less isOpen

end Marked

/-! ## Going on in a block -/

/-- Lowering has left the code of `σ` for the block `b`, unless control cannot get there. Both
blocks and instructions are as they were. -/
structure Entered (c : Site) (avail₀ : Avail) (σ₀ : State) (avail : Avail) (σ : State)
    (b : BlockId) (σ' : State) : Prop where
  inv : Inv c avail σ'
  since : Evo .stmt avail₀ σ₀ avail σ'
  program : σ'.program = σ.program
  fn : σ'.frame.fn = σ.frame.fn
  waiting : ∀ {e inside}, e ≠ b → Pending avail σ inside e → Pending avail σ' inside e

theorem Entered.grows (entered : Entered c avail₀ σ₀ avail σ b σ') :
    σ.program.Grows σ'.program := by
  rw [entered.program]
  exact .refl _

theorem Entered.marked {inside : Set ValueId} {e : BlockId}
    (entered : Entered c avail₀ σ₀ avail σ b σ') (marked : Marked avail σ inside e) :
    Marked avail σ' inside e :=
  marked.grows entered.grows entered.fn

/-- The block that lowering goes on in was made when the code could be reached. -/
theorem Entered.switched (inv₀ : Inv c avail₀ σ₀) (open₀ : σ₀.frame.isOpen = true)
    (inv : Inv c avail σ) (since : Evo .stmt avail₀ σ₀ avail σ)
    (pending : Pending avail σ (σ₀.entry avail₀) b) (new : σ₀.program.blocks.size < b)
    (reaches : σ.Reaches b) : Entered c avail₀ σ₀ avail σ b (σ.switched b) where
  inv := inv₀.switched open₀ inv since pending reaches
  since := since.switched open₀ pending new
  program := rfl
  fn := rfl
  waiting := fun other waits => ⟨waits.block, waits.ghost, fun _ => other.symm⟩

theorem Entered.stay (inv : Inv c avail σ) (since : Evo .stmt avail₀ σ₀ avail σ) :
    Entered c avail₀ σ₀ avail σ b σ :=
  ⟨inv, since, rfl, rfl, fun _ => id⟩

/-- Lowering goes on in a block if control can reach it. -/
theorem switch_runs {reachable : Bool} (inv₀ : Inv c avail₀ σ₀) (inv : Inv c avail σ)
    (since : Evo .stmt avail₀ σ₀ avail σ) (pending : Pending avail σ (σ₀.entry avail₀) b)
    (new : σ₀.program.blocks.size < b)
    (reaches : reachable = true → σ₀.frame.isOpen = true ∧ σ.Reaches b) :
    RunsFrom .stmt c avail₀ σ₀ σ (if reachable then switchTo b else pure ()) fun _ _ _ => True := by
  cases reachable with
  | false => exact RunsFrom.pure inv since trivial
  | true =>
    obtain ⟨open₀, path⟩ := reaches rfl
    have entered := Entered.switched inv₀ open₀ inv since pending new path
    exact Ends.of_ok rfl ⟨avail, entered.inv, entered.since, trivial⟩

/-- Lowering goes on in a block if control can reach it, and then with what comes next. -/
theorem Ends.enter {α : Type} {reachable : Bool} {next : Unit → Lower α} {Q : α → State → Prop}
    (inv₀ : Inv c avail₀ σ₀) (inv : Inv c avail σ) (since : Evo .stmt avail₀ σ₀ avail σ)
    (pending : Pending avail σ (σ₀.entry avail₀) b) (new : σ₀.program.blocks.size < b)
    (reaches : reachable = true → σ₀.frame.isOpen = true ∧ σ.Reaches b)
    (goesOn : ∀ {σ'}, Entered c avail₀ σ₀ avail σ b σ' → Ends (At c) (next ()) σ' Q) :
    Ends (At c) (if reachable then switchTo b >>= next else next ()) σ Q := by
  cases reachable with
  | false => exact goesOn (.stay inv since)
  | true =>
    obtain ⟨open₀, path⟩ := reaches rfl
    have switch : switchTo b σ = .ok () (σ.switched b) := rfl
    exact Ends.of_eq (bind_ok switch)
      (goesOn (.switched inv₀ open₀ inv since pending new path))

/-- A block that waits has no instructions when lowering goes on in it. -/
theorem Pending.insts_switched {inside : Set ValueId} (pending : Pending avail σ inside b) :
    (σ.switched b).insts = [] := by
  obtain ⟨d, found, here⟩ := pending.block
  exact State.insts_eq (σ := σ.switched b) found here

/-! ## The blocks of a loop -/

/-- The code of a loop has come to its condition: the block of the condition is laid out, and those
of the body and of what follows wait. -/
structure Looped (c : Site) (avail₀ : Avail) (σ₀ : State) (avail : Avail) (σ : State)
    (condBlock bodyBlock done : BlockId) : Prop where
  fork : Fork c avail₀ σ₀ avail σ bodyBlock done
  marked : Marked avail σ (σ₀.entry avail₀) condBlock

section Looped

variable {condBlock bodyBlock done : BlockId}

/-- The condition has a block of its own, to which the loop comes back. -/
theorem Looped.entered (inv₀ : Inv c avail₀ σ₀)
    (condBody : Fork c avail₀ σ₀ avail σ condBlock bodyBlock)
    (condDone : Fork c avail₀ σ₀ avail σ condBlock done)
    (bodyDone : Fork c avail₀ σ₀ avail σ bodyBlock done) : Looped c avail₀ σ₀ avail
      (σ.sealed (.jump condBlock) condBlock σ.frame.isOpen) condBlock bodyBlock done := by
  obtain ⟨enter, inv', since'⟩ :=
    inv₀.joined condBody.inv condBody.since condBody.first condBody.firstNew
  exact {
    fork := {
      inv := inv'
      since := since'
      first := condBody.last.sealed condBody.inv enter condBody.apart _
      last := condDone.last.sealed condDone.inv enter condDone.apart _
      firstNew := bodyDone.firstNew
      lastNew := bodyDone.lastNew
      apart := bodyDone.apart }
    marked := condBody.first.marked.grows (enter.emitted condBody.inv).2.2 rfl }

theorem Looped.evo (looped : Looped c avail₀ σ₀ avail σ condBlock bodyBlock done)
    (inv₀ : Inv c avail₀ σ₀) (inv' : Inv c avail' σ') (evo : Evo .expr avail σ avail' σ') :
    Looped c avail₀ σ₀ avail' σ' condBlock bodyBlock done :=
  ⟨looped.fork.evo inv₀ inv' evo, looped.marked.evo looped.fork.inv evo⟩

end Looped

end SysY.Lower

import SysY.Proofs.Lower.Steps

/-! # Blocks, scopes and loops

A new block is empty and waits (`Pending`) until control is sent to it and lowering goes on there.
What is available in it is what was available when it was made, which is little enough for every
branch to it and enough for everything that is lowered in it. -/

namespace SysY.Lower

open Koopa (ValueId BlockId FnId Avail ValueDef)

variable {k : Kind} {c : Site} {avail avail₀ : Avail} {σ σ₀ : State}

/-- Taking over a result does not change the state. -/
theorem lift_ok {α : Type} {o : Outcome α} {b : α} {σ' : State}
    (e : lift o σ = .ok b σ') : o = .ok b ∧ σ' = σ := by
  cases o with
  | ok c =>
    cases e
    exact ⟨rfl, rfl⟩
  | error f => cases e

/-! ## New blocks -/

/-- What is available in the blocks that are made now. -/
def State.entry (σ : State) (avail : Avail) : Set ValueId :=
  { o | σ.frame.isOpen = true ∧ o ∈ σ.avail avail }

theorem Evo.entry {avail' : Avail} {σ' : State} (evo : Evo k avail σ avail' σ')
    (same : σ'.frame.isOpen = σ.frame.isOpen) : σ.entry avail ⊆ σ'.entry avail' := by
  rintro o ⟨isOpen, mem⟩
  have isOpen' : σ'.frame.isOpen = true := same.trans isOpen
  exact ⟨isOpen', evo.avail isOpen' mem⟩

/-- An empty block that is not the current one, and what is available in it. -/
structure Pending (avail : Avail) (σ : State) (inside : Set ValueId) (b : BlockId) : Prop where
  block : ∃ d, σ.program.fn? σ.frame.fn = some d ∧ d.insts? b = some []
  ghost : avail b = inside
  away : σ.frame.isOpen = true → σ.frame.block ≠ b

theorem Pending.small {inside : Set ValueId} {b : BlockId} (pending : Pending avail σ inside b)
    (inv : Inv c avail σ) : b ≤ σ.program.blocks.size := by
  obtain ⟨d, found, here⟩ := pending.block
  exact inv.laid found (Koopa.Fn.mem_blocks_of_insts? here)

/-- A block waits until lowering goes on in it. -/
theorem Pending.evo {inside : Set ValueId} {b : BlockId} {avail' : Avail} {σ' : State}
    (pending : Pending avail σ inside b) (inv : Inv c avail σ) (evo : Evo k avail σ avail' σ') :
    Pending avail' σ' inside b where
  block := by
    obtain ⟨d, found, here⟩ := pending.block
    obtain ⟨d', found', -⟩ := evo.grows.fns found
    rw [evo.fn]
    exact ⟨d', found', evo.still found found' here fun isOpen same => pending.away isOpen same.symm⟩
  ghost := (evo.ghost (pending.small inv)).trans pending.ghost
  away := fun isOpen same => by
    obtain ⟨wasOpen, old | new⟩ := evo.here isOpen
    · exact pending.away wasOpen (old.symm.trans same)
    · rw [same] at new
      exact absurd (pending.small inv) (Nat.not_le_of_lt new)

/-- Control can go to a block that waits, if all that was available when the block was made still
is. -/
theorem Pending.target {inside : Set ValueId} {b : BlockId} (pending : Pending avail σ inside b)
    (less : σ.frame.isOpen = true → inside ⊆ σ.avail avail) : Instr.Target avail σ b := by
  refine ⟨fun {d} found => ?_, fun isOpen => ?_⟩
  · obtain ⟨d', found', here⟩ := pending.block
    rw [found] at found'
    cases found'
    exact Koopa.Fn.mem_blocks_of_insts? here
  · rw [pending.ghost]
    exact less isOpen

/-- The state after a block was made. -/
def State.withBlock (σ : State) (d : Koopa.Fn) : State :=
  { σ with
    program := σ.program.withBlock σ.frame.fn d s!"%bb{σ.frame.nextBlock}"
    frame := { σ.frame with nextBlock := σ.frame.nextBlock + 1 } }

theorem newBlock_eq {d : Koopa.Fn} (found : σ.program.fn? σ.frame.fn = some d)
    (fresh : d.insts? (σ.program.blocks.size + 1) = none) :
    newBlock σ = .ok (σ.program.blocks.size + 1) (σ.withBlock d) := by
  have found' : (σ.program.newBlock σ.frame.fn s!"%bb{σ.frame.nextBlock}").2.fn σ.frame.fn =
      .ok d := Koopa.Program.fn_eq_ok.mpr found
  simp only [newBlock, get_bind, set_bind, found', lift_bind]
  have pushed : d.pushBlock (σ.program.newBlock σ.frame.fn s!"%bb{σ.frame.nextBlock}").1 = _ :=
    Koopa.Fn.pushBlock_eq fresh
  rw [pushed]
  rfl

section NewBlock

variable {d : Koopa.Fn} {inside : Set ValueId}

/-- Making a block leaves the instructions of the current one alone. -/
theorem Inv.insts_withBlock (inv : Inv c avail σ) (found : σ.program.fn? σ.frame.fn = some d)
    (isOpen : σ.frame.isOpen = true) : (σ.withBlock d).insts = σ.insts := by
  obtain ⟨e, is, found', here, -⟩ := inv.block isOpen
  rw [found] at found'
  cases found'
  have fresh := (inv.program.fns found).fresh_block
  rw [State.insts_eq found here]
  exact State.insts_eq (σ := σ.withBlock d) (Koopa.Program.fn?_withBlock_self found _)
    (Koopa.Fn.insts?_extend_old fresh here)

theorem Inv.block_small (inv : Inv c avail σ) (isOpen : σ.frame.isOpen = true) :
    σ.frame.block ≤ σ.program.blocks.size := by
  obtain ⟨d, is, found, here, -⟩ := inv.block isOpen
  exact inv.laid found (Koopa.Fn.mem_blocks_of_insts? here)

/-- While the current block is open, it has the same instructions, and the same are available. -/
theorem Inv.avail_withBlock (inv : Inv c avail σ) (found : σ.program.fn? σ.frame.fn = some d)
    (isOpen : σ.frame.isOpen = true) (inside : Set ValueId) :
    σ.avail avail ⊆
      (σ.withBlock d).avail (Function.update avail (σ.program.blocks.size + 1) inside) := by
  rintro o (outer | inner)
  · left
    change o ∈ Function.update avail _ inside σ.frame.block
    rwa [Koopa.Program.update_small avail inside (inv.block_small isOpen)]
  · right
    rwa [inv.insts_withBlock found isOpen]

/-- Making a block keeps the invariant. -/
theorem Inv.withBlock (inv : Inv c avail σ) (found : σ.program.fn? σ.frame.fn = some d)
    (less : inside ⊆ σ.entry avail) :
    Inv c (Function.update avail (σ.program.blocks.size + 1) inside) (σ.withBlock d) := by
  have fnOk := inv.program.fns found
  have fresh := fnOk.fresh_block
  have grows := Koopa.Program.grows_withBlock found fresh s!"%bb{σ.frame.nextBlock}"
  refine inv.change (r := { σ.frame with nextBlock := σ.frame.nextBlock + 1 }) grows
    (inv.program.withBlock found _ ?_ ?_) (inv.tidy.withBlock found fresh _)
    (Koopa.Program.names_withBlock found _) id rfl rfl rfl ?_
  · intro empty
    obtain ⟨e, found', -, nonempty⟩ := inv.fn
    rw [inv.site.fn, found'] at found
    cases found
    exact absurd empty nonempty
  · intro o ho
    obtain ⟨isOpen, mem⟩ := less ho
    obtain ⟨e, is, found', here, -⟩ := inv.block isOpen
    rw [found] at found'
    cases found'
    rcases mem with outer | inner
    · exact fnOk.laid (Koopa.Fn.mem_blocks_of_insts? here) outer
    · rw [State.insts_eq found here] at inner
      exact ⟨_, is, here, inner⟩
  · intro isOpen
    have live := inv.live isOpen
    have same := inv.avail_withBlock found isOpen inside
    obtain ⟨e, is, found', here, plain, reaches⟩ := inv.block isOpen
    rw [found] at found'
    cases found'
    refine ⟨⟨d.extend (σ.program.blocks.size + 1), is, ?_, Koopa.Fn.insts?_extend_old fresh here,
      plain, reaches.grows grows (Koopa.Fn.grows_extend d _ fresh)⟩, live.slots.trans same, ?_⟩
    · rw [← inv.site.fn]
      exact Koopa.Program.fn?_withBlock_self found _
    · intro t ht
      obtain ⟨e, found', -⟩ := inv.fn
      obtain ⟨again, out⟩ := inv.loops t ht found'
      rw [inv.site.fn, found'] at found
      cases found
      rw [Koopa.Program.update_small avail inside (Koopa.Program.block?_le_size (fnOk.homes again)),
        Koopa.Program.update_small avail inside (Koopa.Program.block?_le_size (fnOk.homes out))]
      exact ⟨(live.loops t ht).1.trans same, (live.loops t ht).2.trans same⟩

theorem Evo.withBlock (inv : Inv c avail σ) (found : σ.program.fn? σ.frame.fn = some d)
    (inside : Set ValueId) : Evo .expr avail σ
      (Function.update avail (σ.program.blocks.size + 1) inside) (σ.withBlock d) := by
  have fresh := (inv.program.fns found).fresh_block
  exact {
    grows := Koopa.Program.grows_withBlock found fresh _
    fn := rfl
    others := fun other => (Koopa.Program.fn?_withBlock found _ _).trans (if_neg other)
    ghost := fun small => Koopa.Program.update_small avail inside small
    still := fun {e e' b is} found' found'' here _ => by
      rw [found] at found'
      cases found'
      have eq := (Koopa.Program.fn?_withBlock_self found _).symm.trans found''
      cases eq
      exact Koopa.Fn.insts?_extend_old fresh here
    here := fun isOpen => ⟨isOpen, .inl rfl⟩
    avail := fun isOpen => inv.avail_withBlock found isOpen inside
    keeps := ⟨rfl, rfl⟩ }

theorem newBlock_runs (inv : Inv c avail σ) (less : inside ⊆ σ.entry avail) :
    Runs k c avail σ newBlock fun b avail' σ' =>
      Pending avail' σ' inside b ∧ σ.program.blocks.size < b ∧
        σ'.frame.isOpen = σ.frame.isOpen := by
  obtain ⟨d, found⟩ := inv.current
  have fresh := (inv.program.fns found).fresh_block
  have pending : Pending (Function.update avail (σ.program.blocks.size + 1) inside)
      (σ.withBlock d) inside (σ.program.blocks.size + 1) := {
    block := ⟨_, Koopa.Program.fn?_withBlock_self found _, Koopa.Fn.insts?_extend_self d fresh⟩
    ghost := Function.update_self ..
    away := fun isOpen => Nat.ne_of_lt (Nat.lt_succ_of_le (inv.block_small isOpen)) }
  exact RunsFrom.of_expr (Ends.of_ok (newBlock_eq found fresh)
    ⟨_, inv.withBlock found less, .withBlock inv found inside, pending, Nat.lt_succ_self _, rfl⟩)

end NewBlock

/-! ## Ending a block -/

/-- The state after a terminator was appended to the current block. `isOpen` says whether `b`, where
lowering goes on, is reachable. -/
def State.sealed (σ : State) (x : ValueDef) (b : BlockId) (isOpen : Bool) : State :=
  { σ.emitted .unit x with frame := { σ.frame with block := b, isOpen := isOpen } }

theorem modifyFrame_eq (f : Frame → Frame) (σ : State) :
    modifyFrame f σ = .ok () { σ with frame := f σ.frame } := rfl

theorem sealTo_made (takes : σ.Takes) (x : ValueDef) (b : BlockId) :
    sealTo (σ.program.values.size + 1) b (σ.withProgram (σ.program.inst σ.frame.fn .unit x).2) =
      .ok () (σ.sealed x b σ.frame.isOpen) := by
  have first : isOpen (σ.withProgram (σ.program.inst σ.frame.fn .unit x).2) =
      .ok σ.frame.isOpen (σ.withProgram (σ.program.inst σ.frame.fn .unit x).2) := rfl
  rw [sealTo, bind_ok first, bind_ok (emit_made takes .unit x), modifyFrame_eq, State.emitted_frame]
  rfl

theorem sealOff_made (takes : σ.Takes) (x : ValueDef) :
    sealOff (σ.program.values.size + 1) (σ.withProgram (σ.program.inst σ.frame.fn .unit x).2) =
      .ok () (σ.sealed x 0 false) := by
  rw [sealOff, bind_ok (emit_made takes .unit x), modifyFrame_eq, State.emitted_frame]
  rfl

/-- Where lowering goes on after a terminator was made and appended. -/
theorem sealTo_eq_ok {x : ValueDef} {f : Koopa.Program → FnId → ValueId × Koopa.Program}
    {t : ValueId} {w : Unit} {b : BlockId} {σ₁ σ₂ : State} (inv : Inv c avail σ)
    (eq : f σ.program σ.frame.fn = σ.program.inst σ.frame.fn .unit x)
    (made : make f σ = .ok t σ₁) (sealed : sealTo t b σ₁ = .ok w σ₂) :
    σ₂ = σ.sealed x b σ.frame.isOpen := by
  rw [make_eq eq] at made
  cases made
  rw [sealTo_made inv.takes] at sealed
  cases sealed
  rfl

section Seal

variable {x : ValueDef} {b : BlockId}

/-- A block can be ended with any instruction. -/
theorem Inv.sealed (inv : Inv c avail σ) (instr : Instr avail σ .unit x) (b : BlockId) :
    Inv c avail (σ.sealed x b false) := by
  obtain ⟨ok, tidy, grows⟩ := instr.emitted inv
  have whole : σ.sealed x b false = { σ with
      program := (σ.emitted .unit x).program
      frame := { σ.frame with block := b, isOpen := false } } := by
    unfold State.sealed State.emitted
    split <;> rfl
  rw [whole]
  exact inv.change grows ok tidy (State.emitted_names ..) State.emitted_globals rfl rfl rfl
    (fun h => (nomatch h))

theorem Evo.sealed (inv : Inv c avail σ) (instr : Instr avail σ .unit x) (b : BlockId) :
    Evo .stmt avail σ avail (σ.sealed x b false) where
  grows := (instr.emitted inv).2.2
  fn := rfl
  others := State.emitted_others
  ghost := fun _ => rfl
  still := State.emitted_still
  here := fun h => (nomatch h)
  avail := fun h => (nomatch h)
  keeps := by
    refine ⟨?_, ?_⟩
    · change σ.symbols.Later (σ.emitted .unit x).symbols
      rw [State.emitted_symbols]
      exact .refl _
    · change (σ.emitted .unit x).symbols.locals = _
      rw [State.emitted_symbols]

/-- Control can reach the current function's block `b`. -/
def State.Reaches (σ : State) (b : BlockId) : Prop :=
  ∃ d, σ.program.fn? σ.frame.fn = some d ∧ d.Reaches σ.program b

theorem State.Reaches.grows {σ' : State} (grows : σ.program.Grows σ'.program)
    (same : σ'.frame.fn = σ.frame.fn) (reaches : σ.Reaches b) : σ'.Reaches b := by
  obtain ⟨d, found, path⟩ := reaches
  obtain ⟨d', found', later⟩ := grows.fns found
  rw [State.Reaches, same]
  exact ⟨d', found', path.grows grows later⟩

/-- Control can reach the targets of the terminator of a block that it can reach. -/
theorem Inv.reaches_sealed (inv : Inv c avail σ) (instr : Instr avail σ .unit x)
    (isOpen : σ.frame.isOpen = true) (target : b ∈ x.targets) (next : BlockId) :
    (σ.sealed x next false).Reaches b := by
  obtain ⟨d, is, found, here, -, reaches⟩ := inv.block isOpen
  have found' : (σ.program.inst σ.frame.fn .unit x).2.fn? σ.frame.fn = some d := found
  have grows := (instr.emitted inv).2.2
  have later := Koopa.Fn.grows_append d σ.frame.block (σ.program.values.size + 1)
  refine ⟨d.append σ.frame.block (σ.program.values.size + 1), ?_,
    (reaches.grows grows later).step ⟨is ++ [σ.program.values.size + 1], σ.program.values.size + 1,
      _, _, x, ?_, by simp, σ.emitted_has .unit x, target⟩⟩
  · change (σ.emitted .unit x).program.fn? σ.frame.fn = _
    rw [State.emitted_open isOpen found]
    exact (Koopa.Program.fn?_setFn found' _ _).trans (if_pos rfl)
  · exact (Koopa.Fn.insts?_append ..).trans ((if_pos rfl).trans (by rw [here]; rfl))

/-- The state in which lowering goes on in `b`. -/
def State.switched (σ : State) (b : BlockId) : State := { σ with frame := σ.frame.switchTo b }

theorem localSlots_keeps {σ' : State} (inv : Inv c avail σ)
    (keeps : Kind.stmt.Keeps σ σ') : σ'.symbols.localSlots ⊆ σ.symbols.localSlots := by
  rintro v ⟨sc, hsc, n, id, s, mem, found, meaning⟩
  rw [keeps.2] at hsc
  obtain ⟨s', found', -⟩ := inv.scopes sc hsc mem
  have same := keeps.1.kept found'
  rw [found] at same
  cases same
  exact ⟨sc, hsc, n, id, s, mem, found', meaning⟩

/-- Lowering can go on in a block that waits and that control can reach. The block was made at a
moment from which on no names were declared. -/
theorem Inv.switched (inv₀ : Inv c avail₀ σ₀) (open₀ : σ₀.frame.isOpen = true)
    (inv : Inv c avail σ) (evo : Evo .stmt avail₀ σ₀ avail σ)
    (pending : Pending avail σ (σ₀.entry avail₀) b) (reaches : σ.Reaches b) :
    Inv c avail (σ.switched b) := by
  obtain ⟨d, found, here⟩ := pending.block
  obtain ⟨d', found', path⟩ := reaches
  rw [found] at found'
  cases found'
  have start : σ₀.avail avail₀ ⊆ (σ.switched b).avail avail := by
    intro o ho
    left
    change o ∈ avail b
    rw [pending.ghost]
    exact ⟨open₀, ho⟩
  refine inv.change (.refl _) inv.program inv.tidy rfl id rfl rfl rfl fun _ => ⟨?_, ?_, ?_⟩
  · rw [← inv.site.fn]
    exact ⟨d, [], found, here, by simp, path⟩
  · exact (localSlots_keeps inv₀ evo.keeps).trans ((inv₀.live open₀).slots.trans start)
  · intro t ht
    obtain ⟨d₀, found₀, -⟩ := inv₀.fn
    obtain ⟨again, out⟩ := inv₀.loops t ht found₀
    have laid : ∀ {e}, e ∈ d₀.blocks → e ≤ σ₀.program.blocks.size := fun mem =>
      Koopa.Program.block?_le_size ((inv₀.program.fns found₀).homes mem)
    rw [evo.ghost (laid again), evo.ghost (laid out)]
    exact ⟨((inv₀.live open₀).loops t ht).1.trans start, ((inv₀.live open₀).loops t ht).2.trans start⟩

theorem Evo.switched (open₀ : σ₀.frame.isOpen = true) (evo : Evo .stmt avail₀ σ₀ avail σ)
    (pending : Pending avail σ (σ₀.entry avail₀) b) (new : σ₀.program.blocks.size < b) :
    Evo .stmt avail₀ σ₀ avail (σ.switched b) where
  grows := evo.grows
  fn := evo.fn
  others := evo.others
  ghost := evo.ghost
  still := evo.still
  here := fun _ => ⟨open₀, .inr new⟩
  avail := fun _ o ho => by
    left
    change o ∈ avail b
    rw [pending.ghost]
    exact ⟨open₀, ho⟩
  keeps := evo.keeps

/-- A state that is as open as another one and has the same symbols differs from it as after an
expression. -/
theorem Evo.to_expr {avail' : Avail} {σ' : State} (evo : Evo k avail σ avail' σ')
    (symbols : σ'.symbols = σ.symbols) (same : σ'.frame.isOpen = σ.frame.isOpen) :
    Evo .expr avail σ avail' σ' :=
  ⟨evo.grows, evo.fn, evo.others, evo.ghost, evo.still, evo.here, evo.avail, symbols, same⟩

theorem State.sealed_open (σ : State) (x : ValueDef) (b : BlockId) :
    (σ.sealed x b false).switched b = σ.sealed x b true := rfl

/-- Ending a block with a jump to a block that waits, and going on there, is a step of an
expression, seen from the moment when that block was made. -/
theorem Inv.sealedTo (inv₀ : Inv c avail₀ σ₀) (evo : Evo .expr avail₀ σ₀ avail σ)
    (inv : Inv c avail σ) (instr : Instr avail σ .unit x) (target : b ∈ x.targets)
    (pending : Pending avail σ (σ₀.entry avail₀) b) (new : σ₀.program.blocks.size < b) :
    Inv c avail (σ.sealed x b σ.frame.isOpen) ∧
      Evo .expr avail₀ σ₀ avail (σ.sealed x b σ.frame.isOpen) := by
  have symbols : ∀ o, (σ.sealed x b o).symbols = σ₀.symbols := by
    intro o
    exact (σ.emitted_symbols .unit x).trans evo.keeps.1
  have closing := (evo.of_expr (k := .stmt)).trans (.sealed inv instr b) inv₀.laid
  have same := evo.keeps.2
  cases isOpen : σ.frame.isOpen with
  | false => exact ⟨inv.sealed instr b, closing.to_expr (symbols _) (isOpen.symm.trans same)⟩
  | true =>
    have open₀ : σ₀.frame.isOpen = true := same.symm.trans isOpen
    have waiting := pending.evo inv (.sealed inv instr b)
    rw [← State.sealed_open]
    exact ⟨.switched inv₀ open₀ (inv.sealed instr b) closing waiting
        (inv.reaches_sealed instr isOpen target b),
      (closing.switched open₀ waiting new).to_expr (symbols _) open₀.symm⟩

/-- Ending a block does not affect the blocks that wait. -/
theorem Pending.sealed {inside : Set ValueId} {next : BlockId}
    (pending : Pending avail σ inside b) (inv : Inv c avail σ) (instr : Instr avail σ .unit x)
    (other : next ≠ b) (isOpen : Bool) : Pending avail (σ.sealed x next isOpen) inside b where
  block := (pending.evo inv (.sealed inv instr next)).block
  ghost := pending.ghost
  away := fun _ => other

end Seal

/-! ## Binding names -/

/-- A later program that has the same functions. -/
structure Added (avail : Avail) (p p' : Koopa.Program) : Prop where
  grows : p.Grows p'
  ok : p'.Ok avail
  fns : p'.fns = p.fns

theorem Added.refl {p : Koopa.Program} (ok : p.Ok avail) : Added avail p p := ⟨.refl p, ok, rfl⟩

theorem Added.trans {p₁ p₂ p₃ : Koopa.Program} (h : Added avail p₁ p₂) (h' : Added avail p₂ p₃) :
    Added avail p₁ p₃ := ⟨h.grows.trans h'.grows, h'.ok, h'.fns.trans h.fns⟩

theorem Added.fn? {p p' : Koopa.Program} (h : Added avail p p') (f : FnId) :
    p'.fn? f = p.fn? f := by
  rw [Koopa.Program.fn?, Koopa.Program.fn?, h.fns]

/-- The state after a symbol was bound in the innermost scope. -/
def State.declared (σ : State) (sym : Symbol) (inner : Scope) (outer : List Scope) : State :=
  { σ with symbols := σ.symbols.bound sym inner outer }

section Declare

variable {p : Koopa.Program} {sym : Symbol} {inner : Scope} {outer : List Scope}

theorem State.avail_added (added : Added avail σ.program p) :
    (σ.withProgram p).avail avail = σ.avail avail := by
  have insts : (σ.withProgram p).insts = σ.insts := by
    unfold State.insts
    change ((p.fn? σ.frame.fn).bind _).getD [] = _
    rw [added.fn?]
    rfl
  unfold State.avail
  rw [insts]
  rfl

/-- Binding a symbol keeps the invariant. The program may have grown since the last moment of
lowering by what the symbol stands for. -/
theorem Inv.declared (inv : Inv c avail σ) (added : Added avail σ.program p)
    (globals : ∀ {g t init}, p.Has g none t (.globalAlloc init) →
      σ.program.Has g none t (.globalAlloc init) ∨
        sym.slot? = some g ∧ sym.type.Solid ∧ t = .pointer sym.type.koopa)
    (symOk : sym.Ok p (some c.fn))
    (slot : σ.frame.isOpen = true → ∀ v, sym.meaning = .variable v → v ∈ σ.avail avail)
    (scopes : σ.symbols.locals = inner :: outer) (fresh : inner.find? sym.name = none) :
    Inv c avail ((σ.withProgram p).declared sym inner outer) := by
  have later : σ.symbols.Later (σ.symbols.bound sym inner outer) := σ.symbols.later_bound ..
  have bound := σ.symbols.get?_bound sym inner outer
  have tidy := inv.tidy.grows added.grows added.fns
  exact {
    program := added.ok
    tidy := tidy
    named := by
      change ∀ n ∈ p.fns.toList.map (·.name), _
      rw [added.fns]
      exact inv.named
    slots := fun has => by
      rcases globals has with old | ⟨isSlot, solid, type⟩
      · obtain ⟨id, s, found, rest⟩ := inv.slots old
        exact ⟨id, s, later.kept found, rest⟩
      · exact ⟨_, sym, bound, isSlot, solid, type⟩
    global := fun mem => by
      obtain ⟨s, found, symbolOk⟩ := inv.global mem
      exact ⟨s, later.kept found, symbolOk.grows added.grows⟩
    site := by
      refine ⟨inv.site.fn, inv.site.ret, inv.site.loops, ?_⟩
      rw [← inv.site.depth]
      simp [State.declared, State.withProgram, SymbolTable.bound, SymbolTable.depth, scopes]
    fn := by
      change ∃ d, p.fn? c.fn = some d ∧ _
      rw [added.fn?]
      exact inv.fn
    ret := inv.ret
    scopes := fun sc hsc {n id} mem => by
      rcases List.mem_cons.mp hsc with rfl | old
      · rw [Scope.names_bind fresh] at mem
        rcases List.mem_cons.mp mem with new | old
        · cases new
          exact ⟨sym, bound, symOk⟩
        · obtain ⟨s, found, symbolOk⟩ := inv.scopes inner (by simp [scopes]) old
          exact ⟨s, later.kept found, symbolOk.grows added.grows⟩
      · obtain ⟨s, found, symbolOk⟩ := inv.scopes sc (by simp [scopes, old]) mem
        exact ⟨s, later.kept found, symbolOk.grows added.grows⟩
    loops := fun t ht {d} found => by
      change p.fn? c.fn = some d at found
      rw [added.fn?] at found
      exact inv.loops t ht found
    live := fun isOpen => by
      have live := inv.live isOpen
      have same : ((σ.withProgram p).declared sym inner outer).avail avail = σ.avail avail :=
        State.avail_added added
      refine ⟨?_, ?_, ?_⟩
      · obtain ⟨d, is, found, here, plain, reaches⟩ := live.block
        refine ⟨d, is, (added.fn? _).trans found, here, fun w hw term => plain w hw ?_,
          reaches.grows added.grows (.refl d)⟩
        obtain ⟨t, y, has, -⟩ := (inv.program.fns found).placed here hw
        exact (Koopa.Program.isTerm_grows added.grows has).mp term
      · rw [same]
        rintro v ⟨sc, hsc, n, id, s, mem, found, meaning⟩
        -- A name that was bound before stands for the same symbol as before.
        have old : ∀ {sc}, sc ∈ σ.symbols.locals → (n, id) ∈ sc.names → v ∈ σ.avail avail := by
          intro sc hsc mem
          obtain ⟨s', found', -⟩ := inv.scopes sc hsc mem
          have kept := later.kept found'
          rw [show (σ.symbols.bound sym inner outer).get? id = some s from found] at kept
          cases kept
          exact live.slots ⟨sc, hsc, n, id, s, mem, found', meaning⟩
        rcases List.mem_cons.mp hsc with rfl | hsc
        · rw [Scope.names_bind fresh] at mem
          rcases List.mem_cons.mp mem with new | mem
          · cases new
            obtain rfl : s = sym := Option.some.inj (found.symm.trans bound)
            exact slot isOpen v meaning
          · exact old (by simp [scopes]) mem
        · exact old (by simp [scopes, hsc]) mem
      · intro t ht
        rw [same]
        exact live.loops t ht }

theorem Evo.declared (added : Added avail σ.program p)
    (scopes : σ.symbols.locals = inner :: outer) (fresh : inner.find? sym.name = none) :
    Evo .item avail σ avail ((σ.withProgram p).declared sym inner outer) where
  grows := added.grows
  fn := rfl
  others := fun _ => added.fn? _
  ghost := fun _ => rfl
  still := fun found found' here _ => by
    have same := (added.fn? _).symm.trans found'
    rw [found] at same
    cases same
    exact here
  here := fun isOpen => ⟨isOpen, .inl rfl⟩
  avail := fun _ => (State.avail_added added).symm.subset
  keeps := by
    refine ⟨σ.symbols.later_bound .., ?_⟩
    rw [scopes]
    exact .inner [(sym.name, σ.symbols.symbols.size + 1)] (Scope.names_bind fresh)

end Declare

/-- What happens when a name is bound in the innermost scope. -/
theorem declare_eq {sym : Symbol} {inner : Scope} {outer : List Scope}
    (scopes : σ.symbols.locals = inner :: outer) (fresh : inner.find? sym.name = none) :
    declare sym σ = .ok () (σ.declared sym inner outer) := by
  simp only [declare, get_bind,
    SymbolTable.insert_fresh scopes fresh]
  rfl

/-- Binding a name succeeds and keeps the invariant, or the name is taken. -/
theorem declare_runs (inv : Inv c avail σ) (depth : 0 < c.depth) {p : Koopa.Program} {sym : Symbol}
    (added : Added avail σ.program p)
    (globals : ∀ {g t init}, p.Has g none t (.globalAlloc init) →
      σ.program.Has g none t (.globalAlloc init) ∨
        sym.slot? = some g ∧ sym.type.Solid ∧ t = .pointer sym.type.koopa)
    (symOk : sym.Ok p (some c.fn))
    (slot : σ.frame.isOpen = true → ∀ v, sym.meaning = .variable v → v ∈ σ.avail avail) :
    Ends (At c) (declare sym) (σ.withProgram p) fun _ σ' =>
      ∃ avail', Inv c avail' σ' ∧ Evo .item avail σ avail' σ' ∧ True := by
  have site : At c (σ.withProgram p) := ⟨inv.site.fn, inv.site.ret, inv.site.loops, inv.site.depth⟩
  obtain ⟨inner, outer, scopes⟩ := inv.site.scopes depth
  cases taken : inner.find? sym.name with
  | none =>
    exact .of_ok (declare_eq (σ := σ.withProgram p) scopes taken)
      ⟨avail, inv.declared added globals symOk slot scopes taken, .declared added scopes taken,
        trivial⟩
  | some id =>
    obtain ⟨old, found, -⟩ := inv.scopes inner (by simp [scopes]) (Scope.mem_of_find? taken)
    have eq : declare sym (σ.withProgram p) =
        raise (.redefinition sym.span sym.name old.span) (σ.withProgram p) := by
      simp only [declare, get_bind,
        State.withProgram, SymbolTable.insert_taken scopes taken, found]
      rfl
    exact .of_eq eq (.throw (Failure.expected_code .redefinition rfl (by decide)) site)

/-! ## Scopes and loops -/

/-- What is done after `body` is done in any case. -/
theorem andFinally_ends {α : Type} {c' : Site} {body : Lower α} {after : State → Outcome State}
    {Q : α → State → Prop} {R : α → State → Prop} (h : Ends (At c') body σ Q)
    (ok : ∀ a σ', Q a σ' → ∃ σ'', after σ' = .ok σ'' ∧ R a σ'')
    (error : ∀ σ', At c' σ' → ∃ σ'', after σ' = .ok σ'' ∧ At c σ'') :
    Ends (At c) (andFinally body after) σ R := by
  cases hbody : body σ with
  | ok a σ' =>
    obtain ⟨σ'', done, r⟩ := ok a σ' (h.ok hbody)
    refine .of_ok (a := a) (s := σ'') ?_ r
    simp only [andFinally, hbody, done]
  | error e σ' =>
    obtain ⟨expected, site⟩ := h.error hbody
    obtain ⟨σ'', done, site'⟩ := error σ' site
    refine .of_eq (n := throw e) (s := σ'') ?_ (.throw expected site')
    simp only [andFinally, hbody, done]
    rfl

/-- The site inside a scope. -/
def Site.inScope (c : Site) : Site := { c with depth := c.depth + 1 }

/-- The site inside a loop. -/
def Site.inLoop (c : Site) (t : LoopTargets) : Site := { c with loops := t :: c.loops }

/-- The state after a scope was opened. -/
def State.pushed (σ : State) (kind : ScopeKind) : State :=
  { σ with symbols := σ.symbols.push kind }

/-- The state after the innermost scope was closed. -/
def State.popped (σ : State) : State :=
  { σ with symbols := { σ.symbols with
      locals := σ.symbols.locals.tail, pops := σ.symbols.pops + 1 } }

theorem Inv.pushed (inv : Inv c avail σ) (kind : ScopeKind) :
    Inv c.inScope avail (σ.pushed kind) where
  program := inv.program
  tidy := inv.tidy
  named := inv.named
  slots := inv.slots
  global := inv.global
  site := ⟨inv.site.fn, inv.site.ret, inv.site.loops, congrArg (· + 1) inv.site.depth⟩
  fn := inv.fn
  ret := inv.ret
  scopes := fun sc hsc {n id} mem => by
    rcases List.mem_cons.mp hsc with rfl | old
    · cases mem
    · exact inv.scopes sc old mem
  loops := inv.loops
  live := fun isOpen => by
    have live := inv.live isOpen
    refine ⟨live.block, ?_, live.loops⟩
    rintro v ⟨sc, hsc, n, id, s, mem, found, meaning⟩
    rcases List.mem_cons.mp hsc with rfl | old
    · cases mem
    · exact live.slots ⟨sc, old, n, id, s, mem, found, meaning⟩

theorem Inv.popped (inv : Inv c.inScope avail σ) : Inv c avail σ.popped where
  program := inv.program
  tidy := inv.tidy
  named := inv.named
  slots := inv.slots
  global := inv.global
  site := by
    refine ⟨inv.site.fn, inv.site.ret, inv.site.loops, ?_⟩
    have depth : σ.symbols.locals.length = c.depth + 1 := inv.site.depth
    simp [State.popped, SymbolTable.depth, depth]
  fn := inv.fn
  ret := inv.ret
  scopes := fun sc hsc {n id} mem => inv.scopes sc (List.mem_of_mem_tail hsc) mem
  loops := inv.loops
  live := fun isOpen => by
    have live := inv.live isOpen
    refine ⟨live.block, ?_, live.loops⟩
    rintro v ⟨sc, hsc, n, id, s, mem, found, meaning⟩
    exact live.slots ⟨sc, List.mem_of_mem_tail hsc, n, id, s, mem, found, meaning⟩

/-- A scope leaves the names outside of it alone. -/
theorem Evo.popped {kind : ScopeKind} {avail' : Avail} {σ' : State}
    (evo : Evo .item avail (σ.pushed kind) avail' σ') : Evo .stmt avail σ avail' σ'.popped where
  grows := evo.grows
  fn := evo.fn
  others := evo.others
  ghost := evo.ghost
  still := evo.still
  here := evo.here
  avail := evo.avail
  keeps := ⟨⟨evo.keeps.1.kept, evo.keeps.1.global⟩, evo.keeps.2.tail_eq⟩

theorem leave_popped {c' : Site} (site : At c' σ) {n : Nat} (depth : c'.depth = n + 1) :
    (do return { σ with symbols := ← σ.symbols.leave (n + 1) } : Outcome State) =
      .ok σ.popped := by
  obtain ⟨inner, outer, scopes⟩ := site.scopes (by omega)
  have length : outer.length = n := by
    have total : σ.symbols.locals.length = c'.depth := site.depth
    rw [scopes, List.length_cons] at total
    omega
  rw [← length, SymbolTable.leave_eq scopes]
  simp [State.popped, scopes, Bind.bind, Except.bind, Pure.pure, Except.pure]

theorem inScope_eq {α : Type} (site : At c σ) (kind : ScopeKind) (body : Lower α) :
    inScope kind body σ = andFinally body (fun s => do
      return { s with symbols := ← s.symbols.leave (c.depth + 1) }) (σ.pushed kind) := by
  have depth : (σ.pushed kind).symbols.depth = c.depth + 1 := congrArg (· + 1) site.depth
  rw [← depth]
  rfl

/-- What is lowered in a scope of its own. -/
theorem inScope_runs {α : Type} {kind : ScopeKind} {body : Lower α}
    {Q : α → Avail → State → Prop} (inv : Inv c avail σ)
    (h : Runs .item c.inScope avail (σ.pushed kind) body Q) :
    Runs .stmt c avail σ (inScope kind body) fun a avail' σ' => ∃ σ₁, σ' = σ₁.popped ∧
      Q a avail' σ₁ := by
  refine Ends.of_eq (inScope_eq inv.site kind body) (andFinally_ends h ?_ ?_)
  · rintro a σ' ⟨avail', inv', evo, q⟩
    exact ⟨σ'.popped, leave_popped inv'.site rfl, avail', inv'.popped, evo.popped, σ', rfl, q⟩
  · intro σ' site
    refine ⟨σ'.popped, leave_popped site rfl, site.fn, site.ret, site.loops, ?_⟩
    have depth : σ'.symbols.locals.length = c.depth + 1 := site.depth
    simp [State.popped, SymbolTable.depth, depth]

/-- The state inside a loop. -/
def State.looping (σ : State) (t : LoopTargets) : State :=
  { σ with frame := σ.frame.pushLoop t }

/-- The state after a loop. -/
def State.unlooped (σ : State) : State :=
  { σ with frame := { σ.frame with loops := σ.frame.loops.tail } }

theorem Inv.looping (inv : Inv c avail σ) {t : LoopTargets}
    (again : Instr.Target avail σ t.continueTo) (out : Instr.Target avail σ t.breakTo) :
    Inv (c.inLoop t) avail (σ.looping t) where
  program := inv.program
  tidy := inv.tidy
  named := inv.named
  slots := inv.slots
  global := inv.global
  site := ⟨inv.site.fn, inv.site.ret, congrArg (t :: ·) inv.site.loops, inv.site.depth⟩
  fn := inv.fn
  ret := inv.ret
  scopes := inv.scopes
  loops := fun t' ht' {d} found => by
    rcases List.mem_cons.mp ht' with rfl | outer
    · have found' : σ.program.fn? σ.frame.fn = some d := by rw [inv.site.fn]; exact found
      exact ⟨again.1 found', out.1 found'⟩
    · exact inv.loops t' outer found
  live := fun isOpen => by
    have live := inv.live isOpen
    refine ⟨live.block, live.slots, fun t' ht' => ?_⟩
    rcases List.mem_cons.mp ht' with rfl | outer
    · exact ⟨again.2 isOpen, out.2 isOpen⟩
    · exact live.loops t' outer

theorem Inv.unlooped {t : LoopTargets} (inv : Inv (c.inLoop t) avail σ) :
    Inv c avail σ.unlooped where
  program := inv.program
  tidy := inv.tidy
  named := inv.named
  slots := inv.slots
  global := inv.global
  site := ⟨inv.site.fn, inv.site.ret, congrArg List.tail inv.site.loops, inv.site.depth⟩
  fn := inv.fn
  ret := inv.ret
  scopes := inv.scopes
  loops := fun t' ht' {_} found => inv.loops t' (List.mem_cons_of_mem _ ht') found
  live := fun isOpen =>
    have live := inv.live isOpen
    ⟨live.block, live.slots, fun t' ht' => live.loops t' (List.mem_cons_of_mem _ ht')⟩

theorem Evo.unlooped {t : LoopTargets} {avail' : Avail} {σ' : State}
    (evo : Evo .stmt avail (σ.looping t) avail' σ') : Evo .stmt avail σ avail' σ'.unlooped :=
  ⟨evo.grows, evo.fn, evo.others, evo.ghost, evo.still, evo.here, evo.avail, evo.keeps⟩

theorem popLoop_unlooped {t : LoopTargets} (site : At (c.inLoop t) σ) :
    (do return { σ with frame := ← σ.frame.popLoop (c.loops.length + 1) } : Outcome State) =
      .ok σ.unlooped := by
  have loops : σ.frame.loops.length = c.loops.length + 1 := congrArg List.length site.loops
  simp only [Frame.popLoop, loops, if_true]
  rfl

theorem inLoop_eq {α : Type} (site : At c σ) (t : LoopTargets) (body : Lower α) :
    inLoop t body σ = andFinally body (fun s => do
      return { s with frame := ← s.frame.popLoop (c.loops.length + 1) }) (σ.looping t) := by
  have length : (σ.looping t).frame.loops.length = c.loops.length + 1 :=
    congrArg (·.length + 1) site.loops
  rw [← length]
  rfl

/-- What is lowered inside a loop. -/
theorem inLoop_runs {α : Type} {t : LoopTargets} {body : Lower α} {Q : α → Avail → State → Prop}
    (inv : Inv c avail σ) (h : Runs .stmt (c.inLoop t) avail (σ.looping t) body Q) :
    Runs .stmt c avail σ (inLoop t body) fun a avail' σ' => ∃ σ₁, σ' = σ₁.unlooped ∧
      Q a avail' σ₁ := by
  refine Ends.of_eq (inLoop_eq inv.site t body) (andFinally_ends h ?_ ?_)
  · rintro a σ' ⟨avail', inv', evo, q⟩
    exact ⟨σ'.unlooped, popLoop_unlooped inv'.site, avail', inv'.unlooped, evo.unlooped, σ', rfl, q⟩
  · intro σ' site
    exact ⟨σ'.unlooped, popLoop_unlooped site, site.fn, site.ret, congrArg List.tail site.loops,
      site.depth⟩

end SysY.Lower

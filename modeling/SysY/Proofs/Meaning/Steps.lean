import SysY.Proofs.Meaning.Relation

/-! # One instruction at a time

An instruction that lowering appends to the current block is the next one that the machine executes
there. Each kind of instruction has a lemma that says what the machine does. -/

namespace SysY.Meaning

open Koopa (Val Activation Config ValueId BlockId FnId Program Avail ValueDef)
open Lower (Inv Operand)

variable {W : Type} {l : Loaded W} {q : Prop} {callers : List (ValueId × Activation)} {c : Lower.Site}
  {avail : Avail} {σ σ' : Lower.State} {a b : Point W} {limit : Nat} {ty : Koopa.Ty} {x : ValueDef}

/-! ## Where the machine is -/

/-- The current block after an instruction was appended to it. -/
theorem emitted_block (inv : Inv c avail σ) (isOpen : σ.frame.isOpen = true) (ty : Koopa.Ty)
    (x : ValueDef) : ∃ d, (σ.emitted ty x).program.fn? σ.frame.fn = some d ∧
      d.insts? σ.frame.block = some (σ.insts ++ [size σ + 1]) := by
  obtain ⟨d, is, found, here, -⟩ := inv.block isOpen
  have found' : (σ.program.inst σ.frame.fn ty x).2.fn? σ.frame.fn = some d := found
  refine ⟨d.append σ.frame.block (σ.program.values.size + 1), ?_, ?_⟩
  · rw [Lower.State.emitted_open isOpen found]
    exact (Program.fn?_setFn found' _ _).trans (if_pos rfl)
  · rw [Koopa.Fn.insts?_append, if_pos rfl, here, Lower.State.insts_eq found here]
    rfl

/-- The instruction that is appended now is the next one. -/
theorem Stands.next {here : Activation} (stands : Stands l.program σ here) (inv : Inv c avail σ)
    (isOpen : σ.frame.isOpen = true) (grows : (σ.emitted ty x).program.Grows l.program) :
    ∃ rest d, here.rest = (size σ + 1) :: rest ∧ l.program.fn? σ.frame.fn = some d ∧
      d.insts? σ.frame.block = some (σ.insts ++ [size σ + 1] ++ rest) := by
  obtain ⟨d, found, block⟩ := emitted_block inv isOpen ty x
  obtain ⟨e, found', later⟩ := grows.fns found
  obtain ⟨rest, block'⟩ := later.insts block
  obtain ⟨e', found'', here'⟩ := stands.rest
  obtain rfl := Option.some.inj (found'.symm.trans found'')
  refine ⟨rest, e, ?_, found', block'⟩
  have eq := Option.some.inj (here'.symm.trans block')
  rw [List.append_assoc] at eq
  exact List.append_cancel_left eq

theorem Stands.emitted {here : Activation} (stands : Stands l.program σ here)
    (inv : Inv c avail σ) (isOpen : σ.frame.isOpen = true)
    (grows : (σ.emitted ty x).program.Grows l.program) :
    ∃ rest, here.rest = (size σ + 1) :: rest ∧
      ∀ regs, Stands l.program (σ.emitted ty x) ⟨here.fn, rest, regs⟩ := by
  obtain ⟨rest, d, eq, found, block⟩ := stands.next inv isOpen grows
  refine ⟨rest, eq, fun regs => ⟨by rw [Lower.State.emitted_frame]; exact stands.fn, d, ?_, ?_⟩⟩
  · rw [Lower.State.emitted_frame]
    exact found
  · rw [Lower.State.emitted_frame, Lower.State.emitted_insts inv.takes isOpen]
    exact block

/-- Values that stand in no block do not matter. -/
theorem Stands.congr {here : Activation} (stands : Stands l.program σ here)
    (frame : σ'.frame.fn = σ.frame.fn ∧ σ'.frame.block = σ.frame.block)
    (insts : σ'.insts = σ.insts) : Stands l.program σ' here := by
  obtain ⟨fn, rest⟩ := stands
  refine ⟨fn.trans frame.1.symm, ?_⟩
  rw [frame.1, frame.2, insts]
  exact rest

/-- At the start of a block, nothing of it has been executed. -/
theorem Starts.stands {here : Activation} {f : FnId} {b : BlockId}
    (starts : Starts l.program f b here) (fn : σ.frame.fn = f) (block : σ.frame.block = b)
    (empty : σ.insts = []) : Stands l.program σ here := by
  refine ⟨starts.fn.trans fn.symm, ?_⟩
  rw [fn, block, empty]
  exact starts.rest

/-! ## Executing -/

theorem Keeps.update (regs : ValueId → Option Val) (n : Nat) (y : Val) :
    Keeps n regs (Function.update regs (n + 1) (some y)) := by
  intro v small
  exact Function.update_of_ne (Nat.ne_of_lt (Nat.lt_succ_of_le small)) _ _

/-- The value of an instruction is what its register holds. -/
theorem operand_inst {p : Program} {v : ValueId} {h : Option FnId} (has : p.Has v h ty x)
    (kind : x.isInstruction = true) (regs : ValueId → Option Val) : p.operand regs v = regs v := by
  obtain ⟨name, found⟩ := has
  unfold Program.operand Program.defn?
  rw [found]
  cases x <;> first | rfl | cases kind

/-- The value of a number. -/
theorem operand_integer {p : Program} {v : ValueId} {h : Option FnId} {n : Int32}
    (has : p.Has v h ty (.integer n)) (regs : ValueId → Option Val) :
    p.operand regs v = some (.int n) := by
  obtain ⟨name, found⟩ := has
  simp [Program.operand, Program.defn?, found]

/-- The value of a global variable. -/
theorem operand_global {p : Program} {v init : ValueId} {h : Option FnId}
    (has : p.Has v h ty (.globalAlloc init)) (regs : ValueId → Option Val) :
    p.operand regs v = some (.ptr (p.place v) 0) := by
  obtain ⟨name, found⟩ := has
  simp [Program.operand, Program.defn?, found]

/-- What the machine does with the next instruction. -/
theorem step_eq {p : Program} (ext : External W) {v : ValueId} {h : Option FnId}
    (has : p.Has v h ty x) : ∃ name, ∀ f rest regs callers m w,
      p.step ext (.run ⟨f, v :: rest, regs⟩ callers m w) =
        p.exec ext v ⟨h, ty, x, name⟩ ⟨f, rest, regs⟩ callers m w := by
  obtain ⟨name, found⟩ := has
  exact ⟨name, fun f rest regs callers m w => by simp [Program.step, found]⟩

/-- The next instruction is calm. -/
theorem quiet_of_calm {p : Program} {v : ValueId} {h : Option FnId} (has : p.Has v h ty x)
    {here : Activation} {rest : List ValueId} (next : here.rest = v :: rest)
    (calm : x.Calm limit (p.operand here.regs)) (M : Memory Val) (w : W) :
    p.Quiet limit (.run here callers M w) := by
  obtain ⟨f, is, regs⟩ := here
  cases next
  intro y found
  obtain ⟨name, value⟩ := has
  rw [Program.defn?, value] at found
  cases found
  exact calm

/-- The machine moves on by the instruction that is appended now. -/
structure Moves (l : Loaded W) (q : Prop) (callers : List (ValueId × Activation)) (σ : Lower.State)
    (limit : Nat) (a : Point W) (σ' : Lower.State) (M : Memory Val) (b : Point W) : Prop where
  goes : Goes l q callers (size σ) limit a b
  stands : Stands l.program σ' b.here
  known : b.known = a.known
  memory : b.memory = M
  world : b.world = a.world

/-- An instruction that changes memory and one register. -/
theorem moves_of_exec (inv : Inv c avail σ) (isOpen : σ.frame.isOpen = true)
    (grows : (σ.emitted ty x).program.Grows l.program) (stands : Stands l.program σ a.here)
    {M : Memory Val} {regs : ValueId → Option Val}
    (exec : ∀ name rest, l.program.exec l.external (size σ + 1) ⟨some σ.frame.fn, ty, x, name⟩
      ⟨a.here.fn, rest, a.here.regs⟩ callers a.memory a.world =
        some (.run ⟨a.here.fn, rest, regs⟩ callers M a.world))
    (later : Later limit a.known a.memory a.known M) (keeps : Keeps (size σ) a.here.regs regs)
    (calm : q → x.Calm limit (a.operand l)) :
    ∃ b, Moves l q callers σ limit a (σ.emitted ty x) M b ∧ b.here.regs = regs := by
  obtain ⟨rest, eq, stands'⟩ := stands.emitted inv isOpen grows
  have has : l.program.Has (size σ + 1) (some σ.frame.fn) ty x := grows.values (σ.emitted_has ty x)
  obtain ⟨name, step⟩ := step_eq l.external has
  refine ⟨⟨a.known, M, ⟨a.here.fn, rest, regs⟩, a.world⟩, ⟨⟨?_, later, rfl, keeps, fun _ => rfl⟩,
    stands' regs, rfl, rfl, rfl⟩, rfl⟩
  refine .single ⟨fun hq => quiet_of_calm has eq (calm hq) _ _, ?_⟩
  have here : a.config callers =
      .run ⟨a.here.fn, (size σ + 1) :: rest, a.here.regs⟩ callers a.memory a.world := by
    rw [← eq]
    rfl
  rw [here]
  exact (step _ _ _ _ _ _).trans (exec name rest)

/-- An instruction that computes a value, which its register takes. -/
theorem moves_of_value (inv : Inv c avail σ) (isOpen : σ.frame.isOpen = true)
    (grows : (σ.emitted ty x).program.Grows l.program) (stands : Stands l.program σ a.here)
    (kind : x.isInstruction = true) (calm : x.Calm limit (a.operand l)) {M : Memory Val} {y : Val}
    (exec : ∀ name rest, l.program.exec l.external (size σ + 1) ⟨some σ.frame.fn, ty, x, name⟩
      ⟨a.here.fn, rest, a.here.regs⟩ callers a.memory a.world =
        some (.run (Activation.set ⟨a.here.fn, rest, a.here.regs⟩ (size σ + 1) y) callers M a.world))
    (later : Later limit a.known a.memory a.known M) :
    ∃ b, Moves l q callers σ limit a (σ.emitted ty x) M b ∧
      b.operand l (size σ + 1) = some y := by
  obtain ⟨b, moves, regs⟩ : ∃ b, Moves l q callers σ limit a (σ.emitted ty x) M b ∧
      b.here.regs = Function.update a.here.regs (size σ + 1) (some y) :=
    moves_of_exec inv isOpen grows stands exec later (Keeps.update _ _ _) fun _ => calm
  have has : l.program.Has (size σ + 1) (some σ.frame.fn) ty x := grows.values (σ.emitted_has ty x)
  refine ⟨b, moves, ?_⟩
  rw [Point.operand, operand_inst has kind, regs]
  exact Function.update_self ..

section Instructions

variable {u v w : ValueId} {t : Koopa.Ty} {o : Nat} {i : Int} {y : Val} {n m r : Int32}

theorem alloc_moves (inv : Inv c avail σ) (isOpen : σ.frame.isOpen = true)
    (lowered : Lower.emitNew (·.alloc · t) σ = .ok u σ') (grows : σ'.program.Grows l.program)
    (stands : Stands l.program σ a.here) (le : limit ≤ a.memory.length) :
    ∃ b, Moves l q callers σ limit a σ' (a.memory ++ [List.replicate t.cells none]) b ∧
      b.operand l u = some (.ptr a.memory.length 0) := by
  have made : Lower.emitNew (·.alloc · t) σ = .ok _ (σ.emitted (.pointer t) .alloc) :=
    Lower.emitNew_eq inv.takes rfl
  rw [made] at lowered
  cases lowered
  exact moves_of_value inv isOpen grows stands rfl trivial (fun name rest => rfl) (.alloc _ le)

theorem load_moves (inv : Inv c avail σ) (isOpen : σ.frame.isOpen = true)
    (src : Operand avail σ w (.pointer t))
    (lowered : Lower.tryEmitNew (·.load · w) σ = .ok u σ') (grows : σ'.program.Grows l.program)
    (stands : Stands l.program σ a.here) (address : a.operand l w = some (.ptr o i))
    (read : a.memory.read o i = some y) :
    ∃ b, Moves l q callers σ limit a σ' a.memory b ∧ b.operand l u = some y := by
  rw [Lower.tryEmitNew_eq inv.takes (Program.load_eq src.sees)] at lowered
  cases lowered
  refine moves_of_value inv isOpen grows stands rfl trivial (fun name rest => ?_) (.refl ..)
  rw [Point.operand] at address
  simp [Program.exec, address, Val.ptr?, read]

/-- A store that is not calm is only possible where `q` does not hold. -/
theorem store_moves (inv : Inv c avail σ) (isOpen : σ.frame.isOpen = true)
    (dest : Operand avail σ w (.pointer t))
    (lowered : Lower.tryEmitNew (·.store · v w) σ = .ok u σ') (grows : σ'.program.Grows l.program)
    (stands : Stands l.program σ a.here) (address : a.operand l w = some (.ptr o i))
    (value : a.operand l v = some y) {M : Memory Val} (wrote : a.memory.write o i y = some M)
    (free : ¬ q ∧ o ∈ a.known ∨ limit ≤ o) : ∃ b, Moves l q callers σ limit a σ' M b := by
  rw [Lower.tryEmitNew_eq inv.takes (Program.store_eq dest.sees)] at lowered
  cases lowered
  have calm : q → (ValueDef.store v w).Calm limit (a.operand l) := by
    intro hq o' i' here
    rw [address] at here
    cases here
    rcases free with ⟨notQuiet, -⟩ | large
    · exact absurd hq notQuiet
    · exact large
  have later : Later limit a.known a.memory a.known M := .write wrote (free.imp_left And.right)
  rw [Point.operand] at address value
  obtain ⟨b, moves, -⟩ : ∃ b, Moves l q callers σ limit a (σ.emitted .unit (.store v w)) M b ∧
      b.here.regs = a.here.regs := moves_of_exec inv isOpen grows stands
    (fun name rest => by simp [Program.exec, address, value, Val.ptr?, wrote]) later
    (fun _ _ => rfl) calm
  exact ⟨b, moves⟩

theorem getPtr_moves (inv : Inv c avail σ) (isOpen : σ.frame.isOpen = true)
    (src : Operand avail σ v (.pointer t))
    (lowered : Lower.tryEmitNew (·.getPtr · v w) σ = .ok u σ') (grows : σ'.program.Grows l.program)
    (stands : Stands l.program σ a.here) (address : a.operand l v = some (.ptr o i))
    (index : a.operand l w = some (.int n)) :
    ∃ b, Moves l q callers σ limit a σ' a.memory b ∧
      b.operand l u = some (.ptr o (i + n.toInt * t.cells)) := by
  rw [Lower.tryEmitNew_eq inv.takes (Program.getPtr_eq src.sees)] at lowered
  cases lowered
  refine moves_of_value inv isOpen grows stands rfl trivial (fun name rest => ?_) (.refl ..)
  rw [Point.operand] at address index
  simp [Program.exec, address, index, Val.ptr?, Val.int?]

theorem getElemPtr_moves {k : Nat} (inv : Inv c avail σ) (isOpen : σ.frame.isOpen = true)
    (src : Operand avail σ v (.pointer (.array t k))) (idx : Operand avail σ w .i32)
    (lowered : Lower.tryEmitNew (·.getElemPtr · v w) σ = .ok u σ')
    (grows : σ'.program.Grows l.program) (stands : Stands l.program σ a.here)
    (address : a.operand l v = some (.ptr o i)) (index : a.operand l w = some (.int n))
    (range : 0 ≤ n.toInt ∧ n.toInt < k) :
    ∃ b, Moves l q callers σ limit a σ' a.memory b ∧
      b.operand l u = some (.ptr o (i + n.toInt * t.cells)) := by
  rw [Lower.tryEmitNew_eq inv.takes (Program.getElemPtr_eq src.sees)] at lowered
  cases lowered
  have length : l.program.length? v = some k := by
    obtain ⟨h, d, has, -⟩ := src.sees
    have early := (Lower.Instr.emitted (.getElemPtr src idx) inv).2.2
    obtain ⟨name, found⟩ := (early.trans grows).values has
    simp [Program.length?, found]
  refine moves_of_value inv isOpen grows stands rfl trivial (fun name rest => ?_) (.refl ..)
  rw [Point.operand] at address index
  simp [Program.exec, address, index, Val.ptr?, Val.int?, length, range]

theorem binary_moves {op : Koopa.Op} (inv : Inv c avail σ) (isOpen : σ.frame.isOpen = true)
    (lowered : Lower.emitNew (·.binary · op v w) σ = .ok u σ') (grows : σ'.program.Grows l.program)
    (stands : Stands l.program σ a.here) (left : a.operand l v = some (.int n))
    (right : a.operand l w = some (.int m)) (result : op.eval n m = some r) :
    ∃ b, Moves l q callers σ limit a σ' a.memory b ∧ b.operand l u = some (.int r) := by
  have made : Lower.emitNew (·.binary · op v w) σ = .ok _ (σ.emitted .i32 (.binary op v w)) :=
    Lower.emitNew_eq inv.takes rfl
  rw [made] at lowered
  cases lowered
  refine moves_of_value inv isOpen grows stands rfl trivial (fun name rest => ?_) (.refl ..)
  rw [Point.operand] at left right
  simp [Program.exec, left, right, Val.int?, result]

end Instructions

/-! ## Terminators -/

/-- The machine goes to the start of a block. -/
structure Lands (l : Loaded W) (q : Prop) (callers : List (ValueId × Activation)) (n limit : Nat)
    (a : Point W) (f : FnId) (target : BlockId) (b : Point W) : Prop where
  goes : Goes l q callers n limit a b
  starts : Starts l.program f target b.here
  known : b.known = a.known
  memory : b.memory = a.memory
  world : b.world = a.world

/-- A block that is laid out. -/
def Laid (p : Program) (f : FnId) (b : BlockId) : Prop :=
  ∃ d is, p.fn? f = some d ∧ d.insts? b = some is

theorem Laid.grows {p p' : Program} {f : FnId} {b : BlockId} (laid : Laid p f b)
    (grows : p.Grows p') : Laid p' f b := by
  obtain ⟨d, is, found, here⟩ := laid
  obtain ⟨d', found', later⟩ := grows.fns found
  obtain ⟨more, here'⟩ := later.insts here
  exact ⟨d', is ++ more, found', here'⟩

/-- A terminator that leads to one of its targets. -/
theorem lands_of_exec (inv : Inv c avail σ) (isOpen : σ.frame.isOpen = true)
    (grows : (σ.emitted .unit x).program.Grows l.program) (stands : Stands l.program σ a.here)
    {target : BlockId} (laid : Laid l.program σ.frame.fn target) (calm : x.Calm limit (a.operand l))
    (exec : ∀ name rest here, l.program.goto ⟨a.here.fn, rest, a.here.regs⟩ target = some here →
      l.program.exec l.external (size σ + 1) ⟨some σ.frame.fn, .unit, x, name⟩
        ⟨a.here.fn, rest, a.here.regs⟩ callers a.memory a.world =
          some (.run here callers a.memory a.world)) :
    ∃ b, Lands l q callers (size σ) limit a σ.frame.fn target b := by
  obtain ⟨rest, -, eq, -, -⟩ := stands.next inv isOpen grows
  have has : l.program.Has (size σ + 1) (some σ.frame.fn) .unit x :=
    grows.values (σ.emitted_has .unit x)
  obtain ⟨name, step⟩ := step_eq l.external has
  obtain ⟨d, is, found, here⟩ := laid
  have goto : l.program.goto ⟨a.here.fn, rest, a.here.regs⟩ target =
      some ⟨a.here.fn, is, a.here.regs⟩ := by
    simp [Program.goto, stands.fn, found, here]
  refine ⟨⟨a.known, a.memory, ⟨a.here.fn, is, a.here.regs⟩, a.world⟩,
    ⟨.single ⟨fun _ => quiet_of_calm has eq calm _ _, ?_⟩, .refl .., rfl, fun _ _ => rfl,
      fun _ => rfl⟩, ⟨stands.fn, d, found, here⟩, rfl, rfl, rfl⟩
  have before : a.config callers =
      .run ⟨a.here.fn, (size σ + 1) :: rest, a.here.regs⟩ callers a.memory a.world := by
    rw [← eq]
    rfl
  rw [before]
  exact (step _ _ _ _ _ _).trans (exec name rest _ goto)

theorem jump_lands {target : BlockId} (inv : Inv c avail σ) (isOpen : σ.frame.isOpen = true)
    (grows : (σ.emitted .unit (.jump target)).program.Grows l.program)
    (stands : Stands l.program σ a.here) (laid : Laid l.program σ.frame.fn target) :
    ∃ b, Lands l q callers (size σ) limit a σ.frame.fn target b :=
  lands_of_exec inv isOpen grows stands laid trivial fun name rest here goto => by
    simp [Program.exec, goto]

theorem branch_lands {cond : ValueId} {ifTrue ifFalse : BlockId} {n : Int32}
    (inv : Inv c avail σ) (isOpen : σ.frame.isOpen = true)
    (grows : (σ.emitted .unit (.branch cond ifTrue ifFalse)).program.Grows l.program)
    (stands : Stands l.program σ a.here) (value : a.operand l cond = some (.int n))
    (laid : Laid l.program σ.frame.fn (if n != 0 then ifTrue else ifFalse)) :
    ∃ b, Lands l q callers (size σ) limit a σ.frame.fn (if n != 0 then ifTrue else ifFalse) b := by
  refine lands_of_exec inv isOpen grows stands laid trivial fun name rest here goto => ?_
  rw [Point.operand] at value
  simp only [Program.exec, value, Val.int?, Option.bind_eq_bind, Option.bind_some, goto]
  rfl

/-- A return goes back to the caller. -/
theorem ret_finishes {value : Option ValueId} {result : Option Val} (inv : Inv c avail σ)
    (isOpen : σ.frame.isOpen = true)
    (grows : (σ.emitted .unit (.ret value)).program.Grows l.program)
    (stands : Stands l.program σ a.here) (same : value.map (a.operand l) = result.map some) :
    l.program.Steps l.external (a.config callers)
      (.finish callers result a.memory a.world) := by
  obtain ⟨rest, -, eq, -, -⟩ := stands.next inv isOpen grows
  obtain ⟨name, step⟩ := step_eq l.external (grows.values (σ.emitted_has .unit (.ret value)))
  have before : a.config callers =
      .run ⟨a.here.fn, (size σ + 1) :: rest, a.here.regs⟩ callers a.memory a.world := by
    rw [← eq]
    rfl
  rw [before]
  refine .single ((step _ _ _ _ _ _).trans ?_)
  cases value with
  | none =>
    cases result with
    | none => rfl
    | some y => cases same
  | some v =>
    cases result with
    | none => cases same
    | some y =>
      have found : l.program.operand a.here.regs v = some y := Option.some.inj same
      simp [Program.exec, found]

/-! ## Getting on -/

section Reaching

variable {S : Type} {K : View l q S} {s : S} {Q : Point W → Prop}

/-- An instruction that leaves memory alone. -/
theorem Moves.reaches (moves : Moves l q callers σ a.memory.length a σ' a.memory b)
    (inv : Inv c avail σ) (fits : K.Fits σ.symbols s a) (hq : Q b) :
    Reaches l q callers σ a σ' fun b => K.Fits σ.symbols s b ∧ Q b := by
  refine ⟨b, moves.goes, moves.stands, ?_, hq⟩
  exact K.rebase inv fits moves.goes fits moves.known (by simp [moves.memory]) moves.world

/-- A number needs no instruction. -/
theorem integer_stays {v : ValueId} {n : Int32} (lowered : Lower.integer n σ = .ok v σ')
    (grows : σ'.program.Grows l.program) (stands : Stands l.program σ a.here) :
    Stands l.program σ' a.here ∧ a.operand l v = some (.int n) := by
  cases lowered
  have has := Program.has_insert σ.program
    { home := some σ.frame.fn, ty := .i32, defn := .integer n }
  exact ⟨stands.congr ⟨rfl, rfl⟩ rfl, operand_integer (grows.values has) _⟩

theorem integer_reaches {v : ValueId} {n : Int32} (lowered : Lower.integer n σ = .ok v σ')
    (grows : σ'.program.Grows l.program) (stands : Stands l.program σ a.here)
    (fits : K.Fits σ.symbols s a) : Reaches l q callers σ a σ' fun b =>
      K.Fits σ.symbols s b ∧ b.operand l v = some (.int n) := by
  obtain ⟨stands', value⟩ := integer_stays lowered grows stands
  exact ⟨a, .refl .., stands', fits, value⟩

end Reaching

end SysY.Meaning

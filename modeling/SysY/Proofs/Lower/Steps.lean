import SysY.Proofs.Lower.Invariant

/-! # The steps of lowering

Every change to the state is one of a few steps: make a value, append an instruction, make a block,
end a block and go on in another one, bind a name, open and close a scope or a loop. Each step has
an equation that says what the state is afterwards, and a lemma that it keeps the invariant. -/

namespace SysY.Lower

open Koopa (ValueId BlockId FnId Avail ValueDef)

variable {k : Kind} {c : Site} {avail avail₀ : Avail} {σ σ₀ : State}

/-! ## Operands -/

/-- A value of a type that the next instruction can read. -/
structure Operand (avail : Avail) (σ : State) (v : ValueId) (t : Koopa.Ty) : Prop where
  sees : σ.program.Sees (some σ.frame.fn) v t
  avail : σ.frame.isOpen = true → σ.program.Free σ.frame.fn v ∨ v ∈ σ.avail avail
  solid : t ≠ .unit

theorem Operand.evo {avail' : Avail} {σ' : State} (evo : Evo k avail σ avail' σ') {v : ValueId}
    {t : Koopa.Ty} (operand : Operand avail σ v t) : Operand avail' σ' v t where
  sees := by
    rw [evo.fn]
    exact evo.grows.sees operand.sees
  avail := fun isOpen => by
    rw [evo.fn]
    exact (operand.avail (evo.here isOpen).1).imp (·.grows evo.grows) (evo.avail isOpen ·)
  solid := operand.solid

/-- What can be used anywhere is an operand. -/
theorem Operand.of_has {v : ValueId} {h : Option FnId} {t : Koopa.Ty} {x : ValueDef}
    (has : σ.program.Has v h t x) (home : h = some σ.frame.fn ∨ h = none)
    (free : x.isInstruction = false) (solid : t ≠ .unit) : Operand avail σ v t where
  sees := ⟨h, x, has, home⟩
  avail := fun _ => .inl ⟨h, t, x, has, home, free⟩
  solid := solid

/-- The type of a variable is the type of something. -/
theorem koopa_ne_unit {t : Ty} (solid : t.Solid) : t.koopa ≠ .unit := by
  cases t with
  | int => simp [Ty.koopa]
  | void => cases solid
  | array ds =>
    cases ds with
    | nil => exact absurd rfl solid.1
    | cons d ds => simp [Ty.koopa, Koopa.Ty.grid]
  | pointer ds => simp [Ty.koopa]

/-! ## Changing the program only -/

/-- A state with another program. -/
def State.withProgram (σ : State) (p : Koopa.Program) : State := { σ with program := p }

theorem State.insts_eq {d : Koopa.Fn} {is : List ValueId}
    (found : σ.program.fn? σ.frame.fn = some d) (here : d.insts? σ.frame.block = some is) :
    σ.insts = is := by
  simp [State.insts, found, here]

/-- The function at a site, as the current function. -/
theorem Inv.current (inv : Inv c avail σ) : ∃ d, σ.program.fn? σ.frame.fn = some d := by
  obtain ⟨d, found, -⟩ := inv.fn
  rw [inv.site.fn]
  exact ⟨d, found⟩

/-- What is known of an open block, stated for the current function. -/
theorem Inv.block (inv : Inv c avail σ) (isOpen : σ.frame.isOpen = true) :
    ∃ d is, σ.program.fn? σ.frame.fn = some d ∧ d.insts? σ.frame.block = some is ∧
      (∀ w ∈ is, ¬ σ.program.IsTerm w) ∧ d.Reaches σ.program σ.frame.block := by
  rw [inv.site.fn]
  exact (inv.live isOpen).block

/-- Whatever only adds to the program, and stays in the function, keeps the invariant as far as the
current block is concerned. -/
theorem Inv.change (inv : Inv c avail σ) {p : Koopa.Program} {r : Frame} {avail' : Avail}
    (grows : σ.program.Grows p) (ok : p.Ok avail') (tidy : p.Tidy)
    (names : p.fns.toList.map (·.name) = σ.program.fns.toList.map (·.name))
    (globals : ∀ {g t init}, p.Has g none t (.globalAlloc init) →
      σ.program.Has g none t (.globalAlloc init))
    (fn : r.fn = σ.frame.fn) (ret : r.ret = σ.frame.ret) (loops : r.loops = σ.frame.loops)
    (live : r.isOpen = true → Live c avail' { σ with program := p, frame := r }) :
    Inv c avail' { σ with program := p, frame := r } where
  program := ok
  tidy := tidy
  named := by
    change ∀ n ∈ p.fns.toList.map (·.name), _
    rw [names]
    exact inv.named
  slots := fun has => inv.slots (globals has)
  global := fun mem => by
    obtain ⟨s, found, symbolOk⟩ := inv.global mem
    exact ⟨s, found, symbolOk.grows grows⟩
  site := ⟨fn.trans inv.site.fn, ret.trans inv.site.ret, loops.trans inv.site.loops,
    inv.site.depth⟩
  fn := by
    obtain ⟨d, found, ret, nonempty⟩ := inv.fn
    obtain ⟨d', found', later⟩ := grows.fns found
    refine ⟨d', found', later.ret.trans ret, fun empty => nonempty ?_⟩
    have := later.blocks
    rw [empty] at this
    exact List.prefix_nil.mp this
  ret := inv.ret
  scopes := fun sc hsc {n id} mem => by
    obtain ⟨s, found, symbolOk⟩ := inv.scopes sc hsc mem
    exact ⟨s, found, symbolOk.grows grows⟩
  loops := fun t ht {d'} found' => by
    obtain ⟨d, found, -⟩ := inv.fn
    obtain ⟨d'', found'', later⟩ := grows.fns found
    obtain rfl : d'' = d' := Option.some.inj (found''.symm.trans found')
    obtain ⟨again, out⟩ := inv.loops t ht found
    exact ⟨later.mem_blocks again, later.mem_blocks out⟩
  live := live

/-- The open block after a change to the program that keeps the block as it is or makes it longer. -/
theorem Live.withProgram (live : Live c avail σ) {p : Koopa.Program}
    (block : ∃ d is, p.fn? c.fn = some d ∧ d.insts? σ.frame.block = some is ∧
      (∀ w ∈ is, ¬ p.IsTerm w) ∧ d.Reaches p σ.frame.block)
    (more : σ.avail avail ⊆ (σ.withProgram p).avail avail) :
    Live c avail (σ.withProgram p) where
  block := block
  slots := live.slots.trans more
  loops := fun t ht => ⟨(live.loops t ht).1.trans more, (live.loops t ht).2.trans more⟩

/-! ## Making a value -/

/-- Adding a value, which is not laid out, keeps the invariant. -/
theorem Inv.insert (inv : Inv c avail σ) {x : Koopa.Value}
    (new : (σ.program.insert x).2.ValueOk (σ.program.values.size + 1) x.home x.ty x.defn)
    (name : Koopa.Program.NameOk x) (notGlobal : ∀ init, x.defn ≠ .globalAlloc init) :
    Inv c avail (σ.withProgram (σ.program.insert x).2) := by
  have grows := Koopa.Program.grows_insert σ.program x
  refine inv.change grows (inv.program.insert new name) (inv.tidy.grows grows rfl) rfl ?_ rfl rfl
    rfl ?_
  · intro g t init has
    rcases Koopa.Program.has_insert_iff.mp has with old | ⟨-, -, -, kind⟩
    · exact old
    · exact absurd kind.symm (notGlobal init)
  · intro isOpen
    refine (inv.live isOpen).withProgram ?_ subset_rfl
    obtain ⟨d, is, found, here, plain, reaches⟩ := (inv.live isOpen).block
    refine ⟨d, is, found, here, fun w hw term => plain w hw ?_, reaches.grows grows (.refl d)⟩
    obtain ⟨t, y, has, -⟩ := (inv.program.fns found).placed here hw
    exact (Koopa.Program.isTerm_grows grows has).mp term

theorem Evo.insert (σ : State) (avail : Avail) (x : Koopa.Value) :
    Evo .expr avail σ avail (σ.withProgram (σ.program.insert x).2) where
  grows := Koopa.Program.grows_insert σ.program x
  fn := rfl
  others := fun _ => rfl
  ghost := fun _ => rfl
  still := fun found found' here _ => by
    have same : σ.program.fn? σ.frame.fn = some _ := found'
    rw [found] at same
    cases same
    exact here
  here := fun h => ⟨h, .inl rfl⟩
  avail := fun _ => subset_rfl
  keeps := ⟨rfl, rfl⟩

/-- A number is an operand. -/
theorem integer_runs (inv : Inv c avail σ) (n : Int32) :
    Runs k c avail σ (integer n) fun v avail' σ' => Operand avail' σ' v .i32 := by
  have has := Koopa.Program.has_insert σ.program
    { home := some σ.frame.fn, ty := .i32, defn := .integer n }
  refine RunsFrom.of_expr (Ends.of_ok rfl ⟨avail, ?_, Evo.insert σ avail
    { home := some σ.frame.fn, ty := .i32, defn := .integer n }, ?_⟩)
  · refine inv.insert (.of_typed rfl ?_ rfl ?_ ?_) (.inr ⟨rfl, rfl⟩) ?_ <;> simp [ValueDef.operands]
  · exact .of_has has (.inl rfl) rfl (by simp)

/-! ## Appending an instruction -/

theorem emit_closed (isClosed : σ.frame.isOpen = false) (v : ValueId) : emit v σ = .ok () σ := by
  simp only [emit, get_bind, isClosed]
  rfl

theorem emit_open (isOpen : σ.frame.isOpen = true) {d : Koopa.Fn} {is : List ValueId} {v : ValueId}
    (found : σ.program.fn? σ.frame.fn = some d) (here : d.insts? σ.frame.block = some is)
    (fresh : v ∉ is) :
    emit v σ = .ok () (σ.withProgram (σ.program.setFn σ.frame.fn (d.append σ.frame.block v))) := by
  simp only [emit, get_bind, isOpen,
    if_true, Koopa.Program.fn_eq_ok.mpr found, lift_bind, here,
    Koopa.Fn.pushInst_eq here fresh]
  rfl

/-- The state after an instruction was made, and appended to the current block if it is open. -/
def State.emitted (σ : State) (ty : Koopa.Ty) (x : ValueDef) : State :=
  let p := (σ.program.inst σ.frame.fn ty x).2
  match σ.frame.isOpen, σ.program.fn? σ.frame.fn with
  | true, some d => σ.withProgram
      (p.setFn σ.frame.fn (d.append σ.frame.block (σ.program.values.size + 1)))
  | _, _ => σ.withProgram p

theorem State.emitted_open (isOpen : σ.frame.isOpen = true) {d : Koopa.Fn}
    (found : σ.program.fn? σ.frame.fn = some d) (ty : Koopa.Ty) (x : ValueDef) :
    σ.emitted ty x = σ.withProgram ((σ.program.inst σ.frame.fn ty x).2.setFn σ.frame.fn
      (d.append σ.frame.block (σ.program.values.size + 1))) := by
  simp [emitted, isOpen, found]

theorem State.emitted_closed (isClosed : σ.frame.isOpen = false) (ty : Koopa.Ty) (x : ValueDef) :
    σ.emitted ty x = σ.withProgram (σ.program.inst σ.frame.fn ty x).2 := by
  simp [emitted, isClosed]

@[simp] theorem State.emitted_frame (σ : State) (ty : Koopa.Ty) (x : ValueDef) :
    (σ.emitted ty x).frame = σ.frame := by
  unfold emitted
  split <;> rfl

@[simp] theorem State.emitted_symbols (σ : State) (ty : Koopa.Ty) (x : ValueDef) :
    (σ.emitted ty x).symbols = σ.symbols := by
  unfold emitted
  split <;> rfl

/-- The current block takes the value that is made next: if the block is open, it is laid out and
does not have that value yet. -/
def State.Takes (σ : State) : Prop := σ.frame.isOpen = true → ∃ d is,
  σ.program.fn? σ.frame.fn = some d ∧ d.insts? σ.frame.block = some is ∧
    σ.program.values.size + 1 ∉ is

theorem Inv.takes (inv : Inv c avail σ) : σ.Takes := fun isOpen => by
  obtain ⟨d, is, found, here, -⟩ := inv.block isOpen
  exact ⟨d, is, found, here, (inv.program.fns found).not_mem_of_large (Nat.lt_succ_self _) here⟩

/-- Appending the instruction that was made last. -/
theorem emit_made (takes : σ.Takes) (ty : Koopa.Ty) (x : ValueDef) :
    emit (σ.program.values.size + 1) (σ.withProgram (σ.program.inst σ.frame.fn ty x).2) =
      .ok () (σ.emitted ty x) := by
  cases isOpen : σ.frame.isOpen with
  | false => rw [State.emitted_closed isOpen, emit_closed (by exact isOpen)]
  | true =>
    obtain ⟨d, is, found, here, fresh⟩ := takes isOpen
    rw [State.emitted_open isOpen found]
    exact emit_open (by exact isOpen) (d := d) (by exact found) (by exact here) fresh

/-- Making an instruction. -/
theorem make_eq {ty : Koopa.Ty} {x : ValueDef}
    {f : Koopa.Program → FnId → ValueId × Koopa.Program}
    (eq : f σ.program σ.frame.fn = σ.program.inst σ.frame.fn ty x) :
    make f σ = .ok (σ.program.values.size + 1)
      (σ.withProgram (σ.program.inst σ.frame.fn ty x).2) := by
  change EStateM.Result.ok (f σ.program σ.frame.fn).1 (σ.withProgram (f σ.program σ.frame.fn).2) = _
  rw [eq]
  rfl

theorem tryMake_eq {ty : Koopa.Ty} {x : ValueDef}
    {f : Koopa.Program → FnId → Outcome (ValueId × Koopa.Program)}
    (eq : f σ.program σ.frame.fn = .ok (σ.program.inst σ.frame.fn ty x)) :
    tryMake f σ = .ok (σ.program.values.size + 1)
      (σ.withProgram (σ.program.inst σ.frame.fn ty x).2) := by
  simp only [tryMake, get_bind, eq, lift]
  rfl

theorem emitNew_eq (takes : σ.Takes) {ty : Koopa.Ty} {x : ValueDef}
    {f : Koopa.Program → FnId → ValueId × Koopa.Program}
    (eq : f σ.program σ.frame.fn = σ.program.inst σ.frame.fn ty x) :
    emitNew f σ = .ok (σ.program.values.size + 1) (σ.emitted ty x) :=
  (bind_ok (make_eq eq)).trans (bind_ok (emit_made takes ty x))

theorem tryEmitNew_eq (takes : σ.Takes) {ty : Koopa.Ty} {x : ValueDef}
    {f : Koopa.Program → FnId → Outcome (ValueId × Koopa.Program)}
    (eq : f σ.program σ.frame.fn = .ok (σ.program.inst σ.frame.fn ty x)) :
    tryEmitNew f σ = .ok (σ.program.values.size + 1) (σ.emitted ty x) :=
  (bind_ok (tryMake_eq eq)).trans (bind_ok (emit_made takes ty x))

/-- An instruction that can stand next: it is typed, its operands are available, and its targets are
laid out and need nothing that is not available. -/
structure Instr (avail : Avail) (σ : State) (ty : Koopa.Ty) (x : ValueDef) : Prop where
  kind : x.isInstruction = true
  typed : σ.program.Typed (some σ.frame.fn) ty x
  operands : ∀ o ∈ x.operands, ∃ t, Operand avail σ o t
  targets : ∀ b ∈ x.targets, (∀ {d}, σ.program.fn? σ.frame.fn = some d → b ∈ d.blocks) ∧
    (σ.frame.isOpen = true → avail b ⊆ σ.avail avail)

section Emit

variable {ty : Koopa.Ty} {x : ValueDef}

/-- The program after an instruction was made is in order. -/
theorem Instr.made (instr : Instr avail σ ty x) (inv : Inv c avail σ) :
    (σ.program.inst σ.frame.fn ty x).2.Ok avail := by
  have grows := Koopa.Program.grows_insert σ.program
    { home := some σ.frame.fn, ty := ty, defn := x }
  refine inv.program.insert (x := { home := some σ.frame.fn, ty := ty, defn := x }) {
    typed := instr.typed.grows grows
    operands := fun o ho => ?_
    targets := fun b hb => ?_
    arg := ?_
    global := ?_ } (.inr ⟨rfl, rfl⟩)
  · obtain ⟨t, operand⟩ := instr.operands o ho
    exact ⟨t, grows.sees operand.sees, operand.solid⟩
  · obtain ⟨d, found⟩ := inv.current
    exact ⟨_, d, rfl, found, (instr.targets b hb).1 found⟩
  · rintro i rfl
    cases instr.kind
  · rintro i rfl
    cases instr.kind

/-- What appending an instruction does to the program. -/
theorem Instr.emitted (instr : Instr avail σ ty x) (inv : Inv c avail σ) :
    (σ.emitted ty x).program.Ok avail ∧ (σ.emitted ty x).program.Tidy ∧
      σ.program.Grows (σ.emitted ty x).program := by
  have grows := Koopa.Program.grows_insert σ.program
    { home := some σ.frame.fn, ty := ty, defn := x }
  have made := instr.made inv
  have tidy : (σ.program.inst σ.frame.fn ty x).2.Tidy := inv.tidy.grows grows rfl
  cases isOpen : σ.frame.isOpen with
  | false =>
    rw [State.emitted_closed isOpen]
    exact ⟨made, tidy, grows⟩
  | true =>
    obtain ⟨d, is, found, here, plain, reaches⟩ := inv.block isOpen
    have found' : (σ.program.inst σ.frame.fn ty x).2.fn? σ.frame.fn = some d := found
    have fnOk := inv.program.fns found
    have more : ∀ {o}, o ∈ σ.avail avail → o ∈ avail σ.frame.block ∨ o ∈ is := by
      intro o ho
      rwa [State.avail, State.insts_eq found here] at ho
    rw [State.emitted_open isOpen found]
    refine ⟨made.setFn found' (Koopa.Fn.grows_append ..) ((made.fns found').append here
      (Koopa.Program.has_insert ..) instr.kind ?_ ?_ ?_ ?_),
      tidy.append found' (reaches.grows grows (.refl d)),
      grows.trans (Koopa.Program.grows_setFn found' (Koopa.Fn.grows_append ..))⟩
    · intro b js hjs
      exact fnOk.not_mem_of_large (Nat.lt_succ_self _) hjs
    · intro w hw term
      obtain ⟨t, y, has, -⟩ := fnOk.placed here hw
      exact plain w hw ((Koopa.Program.isTerm_grows grows has).mp term)
    · intro o ho
      obtain ⟨t, operand⟩ := instr.operands o ho
      exact (operand.avail isOpen).imp (·.grows grows) more
    · intro b hb o ho
      exact more ((instr.targets b hb).2 isOpen ho)

theorem State.emitted_names (σ : State) (ty : Koopa.Ty) (x : ValueDef) :
    (σ.emitted ty x).program.fns.toList.map (·.name) = σ.program.fns.toList.map (·.name) := by
  unfold emitted
  split
  · rename_i d isOpen found
    exact Koopa.Program.names_setFn (p := (σ.program.inst σ.frame.fn ty x).2) found rfl
  · rfl

/-- An instruction is no global variable. -/
theorem State.emitted_globals {g : ValueId} {t : Koopa.Ty} {init : ValueId}
    (has : (σ.emitted ty x).program.Has g none t (.globalAlloc init)) :
    σ.program.Has g none t (.globalAlloc init) := by
  have has' : (σ.program.inst σ.frame.fn ty x).2.Has g none t (.globalAlloc init) := by
    unfold emitted at has
    split at has <;> exact has
  rcases Koopa.Program.has_insert_iff.mp has' with old | ⟨-, home, -⟩
  · exact old
  · cases home

theorem State.emitted_has (σ : State) (ty : Koopa.Ty) (x : ValueDef) :
    (σ.emitted ty x).program.Has (σ.program.values.size + 1) (some σ.frame.fn) ty x := by
  have has := Koopa.Program.has_insert σ.program { home := some σ.frame.fn, ty := ty, defn := x }
  unfold emitted
  split <;> exact has

theorem State.emitted_insts (takes : σ.Takes) (isOpen : σ.frame.isOpen = true) :
    (σ.emitted ty x).insts = σ.insts ++ [σ.program.values.size + 1] := by
  obtain ⟨d, is, found, here, -⟩ := takes isOpen
  have found' : (σ.program.inst σ.frame.fn ty x).2.fn? σ.frame.fn = some d := found
  rw [State.emitted_open isOpen found, State.insts_eq found here]
  refine State.insts_eq (d := d.append σ.frame.block (σ.program.values.size + 1)) ?_ ?_
  · exact (Koopa.Program.fn?_setFn found' _ _).trans (if_pos rfl)
  · exact (Koopa.Fn.insts?_append ..).trans ((if_pos rfl).trans (by rw [here]; rfl))

theorem State.emitted_avail (inv : Inv c avail σ) (isOpen : σ.frame.isOpen = true) :
    σ.avail avail ⊆ (σ.emitted ty x).avail avail := by
  rintro o (outer | inner)
  · left
    rwa [State.emitted_frame]
  · right
    rw [State.emitted_insts inv.takes isOpen]
    exact List.mem_append_left _ inner

/-- Blocks other than the current one are left alone. -/
theorem State.emitted_still {d d' : Koopa.Fn} {b : BlockId} {is : List ValueId}
    (found : σ.program.fn? σ.frame.fn = some d)
    (found' : (σ.emitted ty x).program.fn? σ.frame.fn = some d') (here : d.insts? b = some is)
    (away : σ.frame.isOpen = true → b ≠ σ.frame.block) : d'.insts? b = some is := by
  cases isOpen : σ.frame.isOpen with
  | false =>
    rw [State.emitted_closed isOpen] at found'
    obtain rfl : d = d' := Option.some.inj (found.symm.trans found')
    exact here
  | true =>
    have kept : (σ.program.inst σ.frame.fn ty x).2.fn? σ.frame.fn = some d := found
    rw [State.emitted_open isOpen found] at found'
    have eq := (Koopa.Program.fn?_setFn kept _ _).symm.trans found'
    rw [if_pos rfl] at eq
    cases eq
    rw [Koopa.Fn.insts?_append, if_neg (away isOpen)]
    exact here

/-- Other functions are left alone. -/
theorem State.emitted_others {g : FnId} (other : g ≠ σ.frame.fn) :
    (σ.emitted ty x).program.fn? g = σ.program.fn? g := by
  unfold emitted
  split
  · rename_i d isOpen found
    have kept : (σ.program.inst σ.frame.fn ty x).2.fn? σ.frame.fn = some d := found
    exact (Koopa.Program.fn?_setFn kept _ g).trans (if_neg other)
  · rfl

/-- Appending an instruction that is no terminator keeps the invariant. -/
theorem Inv.emitted (inv : Inv c avail σ) (instr : Instr avail σ ty x)
    (plain : x.isTerminator = false) : Inv c avail (σ.emitted ty x) := by
  obtain ⟨ok, tidy, grows⟩ := instr.emitted inv
  have whole : (σ.emitted ty x) =
      { σ with program := (σ.emitted ty x).program, frame := σ.frame } := by
    unfold State.emitted
    split <;> rfl
  rw [whole]
  refine inv.change grows ok tidy (State.emitted_names ..) State.emitted_globals rfl rfl rfl ?_
  intro isOpen
  refine (inv.live isOpen).withProgram ?_ ?_
  · obtain ⟨d, is, found, here, noTerm, reaches⟩ := inv.block isOpen
    have found' : (σ.program.inst σ.frame.fn ty x).2.fn? σ.frame.fn = some d := found
    have later := Koopa.Fn.grows_append d σ.frame.block (σ.program.values.size + 1)
    refine ⟨d.append σ.frame.block (σ.program.values.size + 1), is ++ [_], ?_,
      (Koopa.Fn.insts?_append ..).trans (by rw [if_pos rfl, here]; rfl), ?_, reaches.grows grows later⟩
    · rw [State.emitted_open isOpen found, ← inv.site.fn]
      exact (Koopa.Program.fn?_setFn found' _ _).trans (if_pos rfl)
    · intro w hw term
      rcases List.mem_append.mp hw with old | new
      · obtain ⟨t, y, has, -⟩ := (inv.program.fns found).placed here old
        exact noTerm w old ((Koopa.Program.isTerm_grows grows has).mp term)
      · obtain rfl := List.mem_singleton.mp new
        obtain ⟨h, t, y, has, isTerm⟩ := term
        obtain ⟨-, -, rfl⟩ := has.unique (σ.emitted_has ty x)
        rw [plain] at isTerm
        cases isTerm
  · have more : σ.avail avail ⊆ (σ.emitted ty x).avail avail := State.emitted_avail inv isOpen
    rwa [whole] at more

theorem Evo.emitted (inv : Inv c avail σ) (instr : Instr avail σ ty x) :
    Evo .expr avail σ avail (σ.emitted ty x) where
  grows := (instr.emitted inv).2.2
  fn := by rw [State.emitted_frame]
  others := State.emitted_others
  ghost := fun _ => rfl
  still := State.emitted_still
  here := fun isOpen => by
    rw [State.emitted_frame] at isOpen ⊢
    exact ⟨isOpen, .inl rfl⟩
  avail := fun isOpen => by
    rw [State.emitted_frame] at isOpen
    exact State.emitted_avail inv isOpen
  keeps := ⟨by simp, by simp⟩

/-- An instruction that has been executed when control is at the end of the current block. -/
structure Placed (avail : Avail) (σ : State) (v : ValueId) (ty : Koopa.Ty) (x : ValueDef) :
    Prop where
  has : σ.program.Has v (some σ.frame.fn) ty x
  avail : σ.frame.isOpen = true → v ∈ σ.avail avail

theorem Placed.operand {v : ValueId} (placed : Placed avail σ v ty x) (solid : ty ≠ .unit) :
    Operand avail σ v ty :=
  ⟨⟨_, _, placed.has, .inl rfl⟩, fun isOpen => .inr (placed.avail isOpen), solid⟩

theorem Placed.emitted (inv : Inv c avail σ) :
    Placed avail (σ.emitted ty x) (σ.program.values.size + 1) ty x where
  has := by
    rw [State.emitted_frame]
    exact σ.emitted_has ty x
  avail := fun isOpen => by
    rw [State.emitted_frame] at isOpen
    right
    rw [State.emitted_insts inv.takes isOpen]
    simp

theorem emitNew_runs (inv : Inv c avail σ) (instr : Instr avail σ ty x)
    (plain : x.isTerminator = false) {f : Koopa.Program → FnId → ValueId × Koopa.Program}
    (eq : f σ.program σ.frame.fn = σ.program.inst σ.frame.fn ty x) :
    Runs k c avail σ (emitNew f) fun v avail' σ' => Placed avail' σ' v ty x :=
  RunsFrom.of_expr (Ends.of_ok (emitNew_eq inv.takes eq)
    ⟨avail, inv.emitted instr plain, .emitted inv instr, .emitted inv⟩)

theorem tryEmitNew_runs (inv : Inv c avail σ) (instr : Instr avail σ ty x)
    (plain : x.isTerminator = false)
    {f : Koopa.Program → FnId → Outcome (ValueId × Koopa.Program)}
    (eq : f σ.program σ.frame.fn = .ok (σ.program.inst σ.frame.fn ty x)) :
    Runs k c avail σ (tryEmitNew f) fun v avail' σ' => Placed avail' σ' v ty x :=
  RunsFrom.of_expr (Ends.of_ok (tryEmitNew_eq inv.takes eq)
    ⟨avail, inv.emitted instr plain, .emitted inv instr, .emitted inv⟩)

end Emit

/-! ## The instructions one by one -/

section Instructions

variable {v w : ValueId} {t : Koopa.Ty}

namespace Instr

theorem alloc (t : Koopa.Ty) : Instr avail σ (.pointer t) .alloc where
  kind := rfl
  typed := ⟨t, rfl⟩
  operands := by simp [ValueDef.operands]
  targets := by simp [ValueDef.targets]

theorem load (src : Operand avail σ v (.pointer t)) : Instr avail σ t (.load v) where
  kind := rfl
  typed := src.sees
  operands := by
    simp only [ValueDef.operands, List.mem_singleton, forall_eq]
    exact ⟨_, src⟩
  targets := by simp [ValueDef.targets]

/-- The operands of an instruction with two operands. -/
theorem pair {t t' : Koopa.Ty} (first : Operand avail σ v t) (second : Operand avail σ w t') :
    ∀ o ∈ [v, w], ∃ t, Operand avail σ o t := by
  simp only [List.mem_cons, List.not_mem_nil, or_false]
  rintro o (rfl | rfl)
  · exact ⟨_, first⟩
  · exact ⟨_, second⟩

theorem store (value : Operand avail σ v t) (dest : Operand avail σ w (.pointer t)) :
    Instr avail σ .unit (.store v w) where
  kind := rfl
  typed := ⟨rfl, t, value.sees, dest.sees⟩
  operands := pair value dest
  targets := by simp [ValueDef.targets]

theorem getPtr (src : Operand avail σ v (.pointer t)) (index : Operand avail σ w .i32) :
    Instr avail σ (.pointer t) (.getPtr v w) where
  kind := rfl
  typed := ⟨t, rfl, src.sees, index.sees⟩
  operands := pair src index
  targets := by simp [ValueDef.targets]

theorem getElemPtr {n : Nat} (src : Operand avail σ v (.pointer (.array t n)))
    (index : Operand avail σ w .i32) : Instr avail σ (.pointer t) (.getElemPtr v w) where
  kind := rfl
  typed := ⟨t, n, rfl, src.sees, index.sees⟩
  operands := pair src index
  targets := by simp [ValueDef.targets]

theorem binary (op : Koopa.Op) (left : Operand avail σ v .i32) (right : Operand avail σ w .i32) :
    Instr avail σ .i32 (.binary op v w) where
  kind := rfl
  typed := ⟨rfl, left.sees, right.sees⟩
  operands := pair left right
  targets := by simp [ValueDef.targets]

theorem call {callee : FnId} {d : Koopa.Fn} {args : List ValueId}
    (found : σ.program.fn? callee = some d)
    (fits : List.Forall₂ (Operand avail σ) args d.paramTys) :
    Instr avail σ d.ret (.call callee args) where
  kind := rfl
  typed := ⟨d, found, rfl, fits.imp fun _ _ h => h.sees⟩
  operands := fun o ho => by
    obtain ⟨i, small, rfl⟩ := List.getElem_of_mem ho
    exact ⟨_, fits.get small (fits.length_eq ▸ small)⟩
  targets := by simp [ValueDef.targets]

/-- A block to which control may go: it is laid out and needs nothing that is not available. -/
def Target (avail : Avail) (σ : State) (b : BlockId) : Prop :=
  (∀ {d}, σ.program.fn? σ.frame.fn = some d → b ∈ d.blocks) ∧
    (σ.frame.isOpen = true → avail b ⊆ σ.avail avail)

theorem jump {b : BlockId} (target : Target avail σ b) : Instr avail σ .unit (.jump b) where
  kind := rfl
  typed := rfl
  operands := by simp [ValueDef.operands]
  targets := by
    simp only [ValueDef.targets, List.mem_singleton, forall_eq]
    exact target

theorem branch {b b' : BlockId} (cond : Operand avail σ v .i32) (ifTrue : Target avail σ b)
    (ifFalse : Target avail σ b') : Instr avail σ .unit (.branch v b b') where
  kind := rfl
  typed := ⟨rfl, cond.sees⟩
  operands := by
    simp only [ValueDef.operands, List.mem_singleton, forall_eq]
    exact ⟨_, cond⟩
  targets := by
    simp only [ValueDef.targets, List.mem_cons, List.not_mem_nil, or_false]
    rintro e (rfl | rfl)
    · exact ifTrue
    · exact ifFalse

theorem retNone {d : Koopa.Fn} (found : σ.program.fn? σ.frame.fn = some d) (ret : d.ret = .unit) :
    Instr avail σ .unit (.ret none) where
  kind := rfl
  typed := ⟨rfl, _, d, rfl, found, ret⟩
  operands := by simp [ValueDef.operands]
  targets := by simp [ValueDef.targets]

theorem retSome {d : Koopa.Fn} (found : σ.program.fn? σ.frame.fn = some d)
    (value : Operand avail σ v d.ret) : Instr avail σ .unit (.ret (some v)) where
  kind := rfl
  typed := ⟨rfl, _, d, rfl, found, value.solid, value.sees⟩
  operands := by
    simp only [ValueDef.operands, Option.toList_some, List.mem_singleton, forall_eq]
    exact ⟨_, value⟩
  targets := by simp [ValueDef.targets]

end Instr

theorem alloc_runs (inv : Inv c avail σ) (t : Koopa.Ty) :
    Runs k c avail σ (emitNew (·.alloc · t)) fun u avail' σ' =>
      Placed avail' σ' u (.pointer t) .alloc := emitNew_runs inv (.alloc t) rfl rfl

theorem load_runs (inv : Inv c avail σ) (src : Operand avail σ v (.pointer t))
    (solid : t ≠ .unit) :
    Runs k c avail σ (tryEmitNew (·.load · v)) fun u avail' σ' => Operand avail' σ' u t :=
  (tryEmitNew_runs inv (.load src) rfl (Koopa.Program.load_eq src.sees)).mono
    fun _ _ _ _ _ placed => placed.operand solid

theorem store_runs (inv : Inv c avail σ) (value : Operand avail σ v t)
    (dest : Operand avail σ w (.pointer t)) :
    Runs k c avail σ (tryEmitNew (·.store · v w)) fun _ _ _ => True :=
  (tryEmitNew_runs inv (.store value dest) rfl (Koopa.Program.store_eq dest.sees)).mono
    fun _ _ _ _ _ _ => trivial

theorem getPtr_runs (inv : Inv c avail σ) (src : Operand avail σ v (.pointer t))
    (index : Operand avail σ w .i32) :
    Runs k c avail σ (tryEmitNew (·.getPtr · v w)) fun u avail' σ' =>
      Operand avail' σ' u (.pointer t) :=
  (tryEmitNew_runs inv (.getPtr src index) rfl (Koopa.Program.getPtr_eq src.sees)).mono
    fun _ _ _ _ _ placed => placed.operand (by simp)

theorem getElemPtr_runs {n : Nat} (inv : Inv c avail σ)
    (src : Operand avail σ v (.pointer (.array t n))) (index : Operand avail σ w .i32) :
    Runs k c avail σ (tryEmitNew (·.getElemPtr · v w)) fun u avail' σ' =>
      Operand avail' σ' u (.pointer t) :=
  (tryEmitNew_runs inv (.getElemPtr src index) rfl (Koopa.Program.getElemPtr_eq src.sees)).mono
    fun _ _ _ _ _ placed => placed.operand (by simp)

theorem binary_runs (inv : Inv c avail σ) (op : Koopa.Op) (left : Operand avail σ v .i32)
    (right : Operand avail σ w .i32) :
    Runs k c avail σ (emitNew (·.binary · op v w)) fun u avail' σ' => Operand avail' σ' u .i32 :=
  (emitNew_runs inv (.binary op left right) rfl rfl).mono
    fun _ _ _ _ _ placed => placed.operand (by simp)

theorem call_runs (inv : Inv c avail σ) {callee : FnId} {d : Koopa.Fn} {args : List ValueId}
    (found : σ.program.fn? callee = some d)
    (fits : List.Forall₂ (Operand avail σ) args d.paramTys) :
    Runs k c avail σ (tryEmitNew (·.call · callee args)) fun u avail' σ' =>
      Placed avail' σ' u d.ret (.call callee args) :=
  tryEmitNew_runs inv (.call found fits) rfl (Koopa.Program.call_eq found)

end Instructions

end SysY.Lower

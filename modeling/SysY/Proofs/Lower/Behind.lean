import SysY.Proofs.Lower.Sends
import SysY.Proofs.Symbol.Behind

/-! # Lowering ahead of which functions are declared

The state with which lowering starts may hold functions that were declared ahead of the source.
Such a state is `Ahead`, and `σ.behind base` is the state `σ` with the declarations of `base` ahead
of its own. `Beside base g m n` relates a computation that runs without them to one that runs behind
them: both fail alike, or `g` turns the first result into the second one, and the second one ends
behind `base` in the state in which the first one ends. -/

namespace SysY

namespace Lower

open Koopa (ValueId BlockId FnId)
open Outcome (Follows)

/-- A state before the first item, in which functions are declared that its global symbols are bound
to. -/
structure Ahead extends State where
  declares : program.Declares
  called : ∀ d ∈ program.fns, ∃ name, d.name = "@" ++ name ∧ (symbols.globalId? name).isSome
  blockless : program.blocks = #[]
  outermost : symbols.locals = []
  kind : symbols.global.kind = .global
  unopened : symbols.pushes = 0 ∧ symbols.pops = 0
  outside : frame = {}
  bodiless : bodies = []

namespace Ahead

variable (base : Ahead)

/-- The number of a value behind those of `base`. -/
abbrev pastValue : ValueId → ValueId := base.program.pastValue

/-- The number of a function behind those of `base`. -/
abbrev pastFn : FnId → FnId := base.program.pastFn

/-- A name that is not bound ahead. -/
abbrev Free (name : String) : Prop := base.symbols.globalId? name = none

/-- The names of the functions that are declared ahead. -/
abbrev fnNames : List String := base.program.fnNames

variable {base}

theorem fresh_name {name : String} (free : base.Free name) : "@" ++ name ∉ base.fnNames := by
  intro mem
  obtain ⟨d, here, same⟩ := List.mem_map.mp mem
  obtain ⟨n, called, bound⟩ := base.called d (by simpa using here)
  obtain rfl : n = name := (String.append_right_inj "@").mp (called.symm.trans same)
  rw [free] at bound
  cases bound

end Ahead

/-- A state behind another one. -/
def State.behind (σ : State) (base : Ahead) : State where
  program := σ.program.behind base.program
  symbols := σ.symbols.behind base.symbols base.program
  frame := { σ.frame with fn := base.pastFn σ.frame.fn }
  bodies := σ.bodies

/-- Nothing but the declarations of `base` stands behind `base` at the start. -/
theorem State.behind_start (base : Ahead) : State.behind {} base = base.toState := by
  obtain ⟨⟨⟨vs, blocks, fns⟩, t, r, bs⟩, -, -, blockless, outermost, kind, ⟨pushes, pops⟩, outside,
    bodiless⟩ := base
  obtain ⟨ss, ⟨k, names, order⟩, locals, n, m⟩ := t
  dsimp only at blockless outermost kind pushes pops outside bodiless
  subst blockless outermost kind pushes pops outside bodiless
  simp [State.behind, Koopa.Program.behind, SymbolTable.behind, Scope.behind, Scope.after,
    Koopa.past]

/-- A state in which no value or block wants the name of a function that is declared ahead. -/
abbrev State.Avoids (σ : State) (base : Ahead) : Prop := σ.program.Avoids base.fnNames

variable {base : Ahead} {α β α' β' : Type} {g : α → α'} {h : β → β'}

/-- How a run ends and how it ends behind `base`. -/
inductive EndBeside (base : Ahead) (g : α → α') :
    EStateM.Result Failure State α → EStateM.Result Failure State α' → Prop
  | ok {a σ} (avoids : σ.Avoids base) : EndBeside base g (.ok a σ) (.ok (g a) (σ.behind base))
  | error {e f σ} (alike : e.Alike f) : EndBeside base g (.error e σ) (.error f (σ.behind base))

/-- A computation, and what it is behind `base`. -/
def Beside (base : Ahead) (g : α → α') (m : Lower α) (n : Lower α') : Prop :=
  ∀ σ : State, σ.Avoids base → EndBeside base g (m σ) (n (σ.behind base))

section Combinators

variable {m : Lower α} {n : Lower α'} {f : α → Lower β} {f' : α' → Lower β'}

theorem pure_beside {a : α} {b : α'} (eq : g a = b) : Beside base g (pure a) (pure b) :=
  fun _ avoids => eq ▸ .ok avoids

theorem throw_beside {d e : Failure} (alike : d.Alike e) :
    Beside base g (throw d : Lower α) (throw e) := fun _ _ => .error alike

theorem raise_beside (e : Diag.Error) : Beside base g (raise e : Lower α) (raise e) :=
  throw_beside (.inl rfl)

theorem internal_beside (span : Source.Span) (text text' : String) :
    Beside base g (raise (.internal span text) : Lower α) (raise (.internal span text')) :=
  throw_beside (.inr ⟨fun expected => expected rfl, fun expected => expected rfl⟩)

theorem fault_beside : Beside base g (throw (.fault none) : Lower α) (throw (.fault none)) :=
  throw_beside (.inl rfl)

/-- Nothing comes after an error. -/
theorem stop_beside (e : Diag.Error) : Beside base h (raise e >>= f) (raise e >>= f') :=
  fun _ _ => .error (.inl rfl)

theorem lift_beside {o : Outcome α} {o' : Outcome α'} (follows : Follows g o o') :
    Beside base g (lift o) (lift o') := by
  cases follows with
  | ok a => exact pure_beside rfl
  | error alike => exact throw_beside alike

theorem liftBind_beside {o : Outcome α} {o' : Outcome α'} (follows : Follows g o o')
    (next : ∀ a, o = .ok a → Beside base h (f a) (f' (g a))) :
    Beside base h (lift o >>= f) (lift o' >>= f') := by
  cases follows with
  | ok a => exact next a rfl
  | error alike => exact fun _ _ => .error alike

/-- An operation that has nothing to do with the state. -/
theorem lift_same (o : Outcome α) : Beside base id (lift o) (lift o) := lift_beside (.refl o)

/-- The rest needs to be considered for results of the right kind only. -/
theorem Beside.bind_of {A : α → Prop} (gives : Gives m A) (first : Beside base g m n)
    (next : ∀ a, A a → Beside base h (f a) (f' (g a))) :
    Beside base h (m >>= f) (n >>= f') := fun σ avoids => by
  have ends := first σ avoids
  have given := gives σ
  change EndBeside base h (EStateM.bind m f σ) (EStateM.bind n f' (σ.behind base))
  rw [EStateM.bind, EStateM.bind]
  generalize m σ = x, n (σ.behind base) = y at ends given
  cases ends with
  | ok avoids => exact next _ (given _ _ rfl) _ avoids
  | error alike => exact .error alike

theorem Beside.bind (first : Beside base g m n) (next : ∀ a, Beside base h (f a) (f' (g a))) :
    Beside base h (m >>= f) (n >>= f') :=
  .bind_of (A := fun _ => True) (fun _ _ _ _ => trivial) first fun a _ => next a

/-- Two computations with the same result, one after another. -/
theorem Beside.next {m n : Lower α} {f : α → Lower β} {f' : α → Lower β'}
    (first : Beside base id m n) (rest : ∀ a, Beside base h (f a) (f' a)) :
    Beside base h (m >>= f) (n >>= f') := first.bind rest

theorem get_beside {f : State → Lower β} {f' : State → Lower β'}
    (next : ∀ σ : State, σ.Avoids base → Beside base h (f σ) (f' (σ.behind base))) :
    Beside base h (get >>= f) (get >>= f') := fun σ avoids => next σ avoids σ avoids

theorem set_beside {σ : State} (avoids : σ.Avoids base) :
    Beside base id (set σ : Lower PUnit) (set (σ.behind base)) := fun _ _ => .ok avoids

theorem modify_beside {f f' : State → State}
    (same : ∀ σ : State, f' (σ.behind base) = (f σ).behind base)
    (avoids : ∀ σ : State, σ.Avoids base → (f σ).Avoids base) :
    Beside base id (modify f : Lower PUnit) (modify f') := fun σ before => by
  change EndBeside base (id : PUnit → PUnit) (.ok ⟨⟩ (f σ)) (.ok ⟨⟩ (f' (σ.behind base)))
  rw [same]
  exact .ok (avoids σ before)

theorem map_beside {m : Lower β} {n : Lower β'} {k : β → α} {k' : β' → α'}
    (first : Beside base h m n) (same : ∀ b, g (k b) = k' (h b)) :
    Beside base g (k <$> m) (k' <$> n) :=
  first.bind fun b => pure_beside (same b)

theorem ite_beside {c : Prop} [Decidable c] {m' : Lower α} {n' : Lower α'}
    (yes : c → Beside base g m n) (no : ¬ c → Beside base g m' n') :
    Beside base g (if c then m else m') (if c then n else n') := by
  split
  · exact yes ‹_›
  · exact no ‹_›

/-- A check ahead of the rest. -/
theorem check_beside {c : Prop} [Decidable c] {m n : Lower PUnit} {f : PUnit → Lower β}
    {f' : PUnit → Lower β'} (stops : Beside base id m n) (rest : Beside base h (f ⟨⟩) (f' ⟨⟩)) :
    Beside base h (if c then m >>= f else f ⟨⟩) (if c then n >>= f' else f' ⟨⟩) :=
  ite_beside (fun _ => stops.next fun _ => rest) fun _ => rest

theorem forM_beside {γ : Type} {f f' : γ → Lower PUnit} (cs : List γ)
    (each : ∀ c ∈ cs, Beside base id (f c) (f' c)) :
    Beside base id (cs.forM f) (cs.forM f') := by
  induction cs with
  | nil => exact pure_beside rfl
  | cons c cs ih =>
    obtain ⟨first, rest⟩ := List.forall_mem_cons.mp each
    exact first.next fun _ => ih rest

end Combinators

/-! ## Steps of a state -/

theorem env_beside {f : Const.Env → Lower β} {f' : Const.Env → Lower β'}
    (next : ∀ env env', env.Agree base.Free env' → Beside base h (f env) (f' env')) :
    Beside base h (env >>= f) (env >>= f') :=
  get_beside fun σ _ => next _ _ (σ.symbols.env_behind base.symbols base.program)

theorem State.globalEnv_agree (σ : State) :
    σ.symbols.globalEnv.Agree base.Free (σ.behind base).symbols.globalEnv :=
  σ.symbols.globalEnv_behind base.symbols base.program

theorem modifyFrame_beside {f f' : Frame → Frame} (same : ∀ r : Frame,
    f' { r with fn := base.pastFn r.fn } = { f r with fn := base.pastFn (f r).fn }) :
    Beside base id (modifyFrame f) (modifyFrame f') :=
  modify_beside (fun σ => congrArg (fun r => { σ.behind base with frame := r }) (same σ.frame))
    fun _ => id

theorem setProgram_beside {p : Koopa.Program} (avoids : p.Avoids base.fnNames) :
    Beside base id (setProgram p) (setProgram (p.behind base.program)) :=
  modify_beside (fun _ => rfl) fun _ _ => avoids

/-- Ways to make a nameless value, alone and behind `base`. -/
abbrev Makes (base : Ahead) (m m' : Koopa.Program → FnId → Outcome (ValueId × Koopa.Program)) :
    Prop :=
  ∀ (p : Koopa.Program) (f : FnId), p.Mirrors base.program (m p f)
    (m' (p.behind base.program) (base.pastFn f))

theorem tryMake_beside {m m' : Koopa.Program → FnId → Outcome (ValueId × Koopa.Program)}
    (makes : Makes base m m') :
    Beside base base.pastValue (tryMake m) (tryMake m') :=
  fun σ avoids => by
    have made := makes σ.program σ.frame.fn
    change EndBeside base base.pastValue
      ((lift (m σ.program σ.frame.fn) >>= fun r => do setProgram r.2; return r.1) σ)
      ((lift (m' (σ.behind base).program (σ.behind base).frame.fn) >>= fun r => do
        setProgram r.2
        return r.1) (σ.behind base))
    change σ.program.Mirrors base.program _ (m' (σ.behind base).program (σ.behind base).frame.fn)
      at made
    generalize m σ.program σ.frame.fn = r,
      m' (σ.behind base).program (σ.behind base).frame.fn = r' at made ⊢
    cases made with
    | ok x plain =>
      rw [Koopa.Program.insert_behind]
      exact .ok (σ := { σ with program := (σ.program.insert x).2 })
        (avoids.insert (plain ▸ base.declares.nameless))
    | error alike => exact .error alike

theorem make_beside {m m' : Koopa.Program → FnId → ValueId × Koopa.Program}
    (makes : Makes base (fun p f => .ok (m p f)) fun p f => .ok (m' p f)) :
    Beside base base.pastValue (make m) (make m') :=
  tryMake_beside makes

theorem integer_beside (n : Int32) : Beside base base.pastValue (integer n) (integer n) :=
  make_beside fun _ f => .ok ⟨some f, .i32, .integer n, ""⟩ rfl

theorem emit_beside (v : ValueId) : Beside base id (emit v) (emit (base.pastValue v)) :=
  get_beside fun σ avoids => by
    refine ite_beside (fun _ => ?_) fun _ => pure_beside rfl
    refine liftBind_beside (Koopa.Program.fn_follows _ _ _) fun d found => ?_
    rw [Koopa.Fn.insts?_behind, show (σ.behind base).frame.block = σ.frame.block from rfl]
    cases d.insts? σ.frame.block with
    | none => exact fault_beside
    | some is =>
      dsimp only [Option.map_some]
      rcases d.pushInst_behind base.program σ.frame.block v with
        ⟨e, pushed, pushed'⟩ | ⟨t, t', no, no'⟩
      · rw [pushed, pushed']
        have placed : (σ.program.behind base.program).setFn (base.pastFn σ.frame.fn)
            (e.behind base.program) = (σ.program.setFn σ.frame.fn e).behind base.program :=
          Koopa.Program.setFn_behind (Koopa.Program.fn_eq_ok.mp found) e
        dsimp only
        rw [show (σ.behind base).program.setFn (σ.behind base).frame.fn _ = _ from placed]
        exact setProgram_beside (avoids.setFn _ _)
      · rw [no, no']
        refine (lift_beside (Koopa.Program.block_follows _ _ _ _)).bind fun b => ?_
        exact internal_beside _ _ _

theorem emitNew_beside {m m' : Koopa.Program → FnId → ValueId × Koopa.Program}
    (makes : Makes base (fun p f => .ok (m p f)) fun p f => .ok (m' p f)) :
    Beside base base.pastValue (emitNew m) (emitNew m') :=
  (make_beside makes).bind fun v => (emit_beside v).next fun _ => pure_beside rfl

theorem tryEmitNew_beside {m m' : Koopa.Program → FnId → Outcome (ValueId × Koopa.Program)}
    (makes : Makes base m m') :
    Beside base base.pastValue (tryEmitNew m) (tryEmitNew m') :=
  (tryMake_beside makes).bind fun v => (emit_beside v).next fun _ => pure_beside rfl

theorem load_beside (v : ValueId) : Beside base base.pastValue (tryEmitNew (·.load · v))
    (tryEmitNew (·.load · (base.pastValue v))) :=
  tryEmitNew_beside fun p f => p.load_mirrors base.program f v

theorem store_beside (v dest : ValueId) : Beside base base.pastValue (tryEmitNew (·.store · v dest))
    (tryEmitNew (·.store · (base.pastValue v) (base.pastValue dest))) :=
  tryEmitNew_beside fun p f => p.store_mirrors base.program f v dest

theorem getPtr_beside (v i : ValueId) : Beside base base.pastValue (tryEmitNew (·.getPtr · v i))
    (tryEmitNew (·.getPtr · (base.pastValue v) (base.pastValue i))) :=
  tryEmitNew_beside fun p f => p.getPtr_mirrors base.program f v i

theorem getElemPtr_beside (v i : ValueId) :
    Beside base base.pastValue (tryEmitNew (·.getElemPtr · v i))
      (tryEmitNew (·.getElemPtr · (base.pastValue v) (base.pastValue i))) :=
  tryEmitNew_beside fun p f => p.getElemPtr_mirrors base.program f v i

theorem call_beside (callee : FnId) (args : List ValueId) :
    Beside base base.pastValue (tryEmitNew (·.call · callee args))
      (tryEmitNew (·.call · (base.pastFn callee) (args.map base.pastValue))) :=
  tryEmitNew_beside fun p f => p.call_mirrors base.program f callee args

theorem binary_beside (op : Koopa.Op) (v w : ValueId) :
    Beside base base.pastValue (emitNew (·.binary · op v w))
      (emitNew (·.binary · op (base.pastValue v) (base.pastValue w))) :=
  emitNew_beside fun _ f => .ok ⟨some f, .i32, .binary op v w, ""⟩ rfl

theorem alloc_beside (t : Koopa.Ty) :
    Beside base base.pastValue (emitNew (·.alloc · t)) (emitNew (·.alloc · t)) :=
  emitNew_beside fun _ f => .ok ⟨some f, .pointer t, .alloc, ""⟩ rfl

theorem branch_beside (v : ValueId) (b c : BlockId) :
    Beside base base.pastValue (make (·.branch · v b c))
      (make (·.branch · (base.pastValue v) b c)) :=
  make_beside fun _ f => .ok ⟨some f, .unit, .branch v b c, ""⟩ rfl

theorem newBlock_beside : Beside base id newBlock newBlock :=
  get_beside fun σ avoids => by
    have fresh : s!"%bb{σ.frame.nextBlock}" ∉ base.fnNames :=
      base.declares.fresh_of_head (by simp [toString, String.toList_append])
    have made := σ.program.newBlock_behind base.program σ.frame.fn s!"%bb{σ.frame.nextBlock}"
    have avoids := avoids.newBlock σ.frame.fn fresh
    dsimp only
    rw [show (σ.behind base).program.newBlock (σ.behind base).frame.fn
      s!"%bb{(σ.behind base).frame.nextBlock}" = _ from made]
    generalize σ.program.newBlock σ.frame.fn s!"%bb{σ.frame.nextBlock}" = r at avoids ⊢
    obtain ⟨b, p⟩ := r
    refine Beside.next (set_beside (σ := { σ with
      program := p, frame := { σ.frame with nextBlock := σ.frame.nextBlock + 1 } }) avoids)
      fun _ => ?_
    refine liftBind_beside (p.fn_follows base.program σ.frame.fn) fun d found => ?_
    rw [Koopa.Fn.pushBlock_behind]
    cases d.pushBlock b with
    | ok e =>
      have placed : (p.behind base.program).setFn (base.pastFn σ.frame.fn) (e.behind base.program) =
          (p.setFn σ.frame.fn e).behind base.program :=
        Koopa.Program.setFn_behind (Koopa.Program.fn_eq_ok.mp found) e
      dsimp only [Except.map]
      rw [show (p.behind base.program).setFn (σ.behind base).frame.fn _ = _ from placed]
      exact (setProgram_beside (avoids.setFn _ _)).next fun _ => pure_beside rfl
    | error t => exact (internal_beside _ _ _).next fun _ => pure_beside rfl

theorem isOpen_beside : Beside base id isOpen isOpen := get_beside fun _ _ => pure_beside rfl

theorem switchTo_beside (b : BlockId) : Beside base id (switchTo b) (switchTo b) :=
  modifyFrame_beside fun _ => rfl

theorem sealTo_beside (term : ValueId) (next : BlockId) :
    Beside base id (sealTo term next) (sealTo (base.pastValue term) next) :=
  isOpen_beside.next fun _ => (emit_beside term).next fun _ =>
    modifyFrame_beside fun _ => rfl

theorem sealOff_beside (term : ValueId) :
    Beside base id (sealOff term) (sealOff (base.pastValue term)) :=
  (emit_beside term).next fun _ => modifyFrame_beside fun _ => rfl

theorem jumpTo_beside (target : BlockId) :
    Beside base base.pastValue (make (·.jump · target)) (make (·.jump · target)) :=
  make_beside fun _ f => .ok ⟨some f, .unit, .jump target, ""⟩ rfl

theorem jump_beside (target : BlockId) : Beside base id (jump target) (jump target) :=
  (jumpTo_beside target).bind sealOff_beside

theorem andFinally_beside {m : Lower α} {n : Lower α'} {after after' : State → Outcome State}
    (body : Beside base g m n)
    (ends : ∀ σ : State, Follows (·.behind base) (after σ) (after' (σ.behind base)))
    (keeps : ∀ {σ σ' : State}, after σ = .ok σ' → σ'.program = σ.program) :
    Beside base g (andFinally m after) (andFinally n after') := fun σ avoids => by
  have first := body σ avoids
  unfold andFinally
  generalize m σ = x, n (σ.behind base) = y at first
  cases first with
  | @ok a σ' avoids' =>
    have last := ends σ'
    have kept {τ : State} := @keeps σ' τ
    dsimp only
    generalize after σ' = x, after' (σ'.behind base) = y at last kept
    cases last with
    | ok τ =>
      refine .ok ?_
      rw [State.Avoids, kept rfl]
      exact avoids'
    | error alike => exact .error alike
  | @error e f σ' alike =>
    have last := ends σ'
    dsimp only
    generalize after σ' = x, after' (σ'.behind base) = y at last
    cases last with
    | ok τ => exact .error alike
    | error alike' => exact .error alike'

theorem inScope_beside (kind : ScopeKind) {m : Lower α} {n : Lower α'} (body : Beside base g m n) :
    Beside base g (inScope kind m) (inScope kind n) := by
  unfold inScope
  refine (modify_beside (fun σ => ?_) fun σ avoids => ?_).next fun _ => get_beside fun σ _ => ?_
  · rfl
  · exact avoids
  rw [show (σ.behind base).symbols.depth = σ.symbols.depth from SymbolTable.depth_behind ..]
  refine andFinally_beside body (fun τ => ?_) fun {τ τ'} left => ?_
  · exact (SymbolTable.leave_follows _ _ _ _).bind fun t _ => .ok { τ with symbols := t }
  · obtain ⟨t, -, left⟩ := Except.bind_eq_ok.mp left
    cases left
    rfl

theorem inLoop_beside (targets : LoopTargets) {m : Lower α} {n : Lower α'}
    (body : Beside base g m n) : Beside base g (inLoop targets m) (inLoop targets n) := by
  unfold inLoop
  refine (modifyFrame_beside fun _ => rfl).next fun _ => get_beside fun σ _ => ?_
  refine andFinally_beside body (fun τ => ?_) fun {τ τ'} left => ?_
  · unfold Frame.popLoop
    rw [show (τ.behind base).frame.loops = τ.frame.loops from rfl,
      show (σ.behind base).frame.loops = σ.frame.loops from rfl]
    split
    · exact .ok { τ with frame := { τ.frame with loops := τ.frame.loops.tail } }
    · exact .error (.inr ⟨nofun, nofun⟩)
  · obtain ⟨t, -, left⟩ := Except.bind_eq_ok.mp left
    cases left
    rfl

theorem declare_beside {s : Symbol} (free : base.Free s.name) :
    Beside base id (declare s) (declare (s.behind base.program)) :=
  get_beside fun σ avoids => by
    have inserted := σ.symbols.insert_behind base.symbols base.program free
    dsimp only
    rw [show (σ.behind base).symbols.insert _ = _ from inserted]
    generalize σ.symbols.insert s = r
    obtain ⟨⟨accepted, existing⟩, t⟩ := r
    have bound : Beside base id (set { σ with symbols := t } : Lower PUnit)
        (set { σ.behind base with symbols := t.behind base.symbols base.program }) :=
      set_beside (σ := { σ with symbols := t }) avoids
    cases existing with
    | none => exact bound
    | some old => exact check_beside (raise_beside _) bound

end Lower
end SysY

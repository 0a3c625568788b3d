import Mathlib.Order.Defs.Unbundled
import SysY.Proofs.Koopa.Insert
import SysY.Proofs.Lower.Unit

/-! # What lowering leaves as it was

Whatever happens while a part of a tree is lowered, and also when lowering fails: every scope and
every loop that was entered is left again, values stay in the program, and symbols stay bound. The
tree need not come from the parser. -/

namespace SysY.Lower

open Koopa (ValueId BlockId FnId)
open Source (Span)

variable {α β : Type} {σ σ' : State}

/-! ## Computations -/

/-- The state in which a computation ends, with a result or without. -/
def after (m : Lower α) (σ : State) : State :=
  match m σ with
  | .ok _ σ' => σ'
  | .error _ σ' => σ'

theorem after_ok {m : Lower α} {a : α} (ran : m σ = .ok a σ') : after m σ = σ' := by
  rw [after, ran]

theorem after_error {m : Lower α} {e : Failure} (ran : m σ = .error e σ') : after m σ = σ' := by
  rw [after, ran]

theorem after_bind {m : Lower α} {f : α → Lower β} {a : α} (ran : m σ = .ok a σ') :
    after (m >>= f) σ = after (f a) σ' := by
  rw [after, after, bind_ok ran]

/-- A computation that ends in a state that is related to the one in which it begins. -/
def Keeps (R : State → State → Prop) (m : Lower α) : Prop := ∀ σ, R σ (after m σ)

/-- A computation that succeeds leaves what it keeps. -/
theorem Keeps.ok {R : State → State → Prop} {m : Lower α} {a : α} (keeps : Keeps R m)
    (ran : m σ = .ok a σ') : R σ σ' := after_ok ran ▸ keeps σ

section Combinators

variable {R : State → State → Prop} [IsPreorder State R] {m : Lower α} {f : α → Lower β}

theorem pure_keeps (a : α) : Keeps R (pure a : Lower α) := fun σ => refl_of R σ

theorem throw_keeps (e : Failure) : Keeps R (throw e : Lower α) := fun σ => refl_of R σ

theorem raise_keeps (e : Diag.Error) : Keeps R (raise e : Lower α) := throw_keeps _

theorem lift_keeps (o : Outcome α) : Keeps R (lift o) := by
  cases o with
  | ok a => exact pure_keeps a
  | error e => exact throw_keeps e

/-- One computation after another, where the second one is only known to start after the first. -/
theorem bind_keeps_of (first : R σ (after m σ))
    (next : ∀ a σ', m σ = .ok a σ' → R σ' (after (f a) σ')) : R σ (after (m >>= f) σ) := by
  cases ran : m σ with
  | ok a σ' =>
    rw [after_ok ran] at first
    rw [after_bind ran]
    exact trans_of R first (next a σ' ran)
  | error e σ' =>
    rw [after_error ran] at first
    have stopped : (m >>= f) σ = .error e σ' := by
      change EStateM.bind m f σ = _
      rw [EStateM.bind, ran]
    rw [after_error stopped]
    exact first

theorem bind_keeps (first : Keeps R m) (next : ∀ a, Keeps R (f a)) : Keeps R (m >>= f) :=
  fun σ => bind_keeps_of (first σ) fun a σ' _ => next a σ'

theorem map_keeps {g : α → β} (keeps : Keeps R m) : Keeps R (g <$> m) :=
  bind_keeps (f := fun a => pure (g a)) keeps fun _ => pure_keeps _

omit [IsPreorder State R] in
theorem get_keeps {f : State → Lower β} (next : ∀ s, Keeps R (f s)) : Keeps R (get >>= f) :=
  fun σ => next σ σ

omit [IsPreorder State R] in
theorem ite_keeps {c : Prop} [Decidable c] {m' : Lower α} (yes : c → Keeps R m)
    (no : ¬ c → Keeps R m') : Keeps R (if c then m else m') := by
  split
  · exact yes ‹_›
  · exact no ‹_›

/-- A check that comes before the rest. -/
theorem guard_keeps {c : Prop} [Decidable c] {fails : Lower Unit} {f : Unit → Lower β}
    (failing : Keeps R fails) (next : ∀ u, Keeps R (f u)) :
    Keeps R (if c then fails >>= f else f ()) :=
  ite_keeps (fun _ => bind_keeps failing next) fun _ => next ()

theorem forM_keeps {f : α → Lower PUnit} (keeps : ∀ a, Keeps R (f a)) (as : List α) :
    Keeps R (as.forM f) := by
  induction as with
  | nil => exact pure_keeps _
  | cons a as ih => exact bind_keeps (keeps a) fun _ => ih

theorem mapM_keeps {f : α → Lower β} (keeps : ∀ a, Keeps R (f a)) (as : List α) :
    Keeps R (as.mapM f) := by
  induction as with
  | nil => exact pure_keeps _
  | cons a as ih =>
    rw [List.mapM_cons]
    exact bind_keeps (keeps a) fun _ => bind_keeps ih fun _ => pure_keeps _

end Combinators

/-! ## Stacks and tables -/

/-- As many scopes and loops are open as before, scopes were closed as often as they were opened, and
nothing was taken away from the symbols and the program. -/
structure Passes (σ σ' : State) : Prop where
  loops : σ'.frame.loops = σ.frame.loops
  depth : σ'.symbols.depth = σ.symbols.depth
  balance : σ'.symbols.pushes + σ.symbols.pops = σ.symbols.pushes + σ'.symbols.pops
  symbols : ∀ {id s}, σ.symbols.get? id = some s → σ'.symbols.get? id = some s
  program : σ.program.Grows σ'.program

instance : IsPreorder State Passes where
  refl := fun _ => ⟨rfl, rfl, rfl, id, .refl _⟩
  trans := fun _ _ _ h h' => ⟨h'.loops.trans h.loops, h'.depth.trans h.depth, by
    have := h.balance
    have := h'.balance
    omega, fun found => h'.symbols (h.symbols found), h.program.trans h'.program⟩

/-- What the code of a function leaves as it was. It also makes no functions, binds no local names to
functions, and in a local scope it binds no global names. -/
structure Stays (σ σ' : State) : Prop extends Passes σ σ' where
  functions : σ'.program.fns.size = σ.program.fns.size
  global : σ.symbols.depth ≠ 0 → σ'.symbols.global = σ.symbols.global
  apart : σ.symbols.Apart → σ'.symbols.Apart

instance : IsPreorder State Stays where
  refl := fun σ => ⟨refl_of Passes σ, rfl, fun _ => rfl, id⟩
  trans := fun _ _ _ h h' => ⟨trans_of Passes h.toPasses h'.toPasses,
    h'.functions.trans h.functions,
    fun inside => (h'.global (h.depth ▸ inside)).trans (h.global inside),
    fun apart => h'.apart (h.apart apart)⟩

/-- Only the program changes, and no function is made. -/
theorem Stays.of_program {p : Koopa.Program} (larger : σ.program.Enlarges p) :
    Stays σ (σ.withProgram p) where
  loops := rfl
  depth := rfl
  balance := rfl
  symbols := id
  program := larger.toGrows
  functions := larger.fns_size
  global := fun _ => rfl
  apart := id

/-- A computation after which everything is as the code of a function leaves it. -/
abbrev Kept (m : Lower α) : Prop := Keeps Stays m

theorem Keeps.passes {m : Lower α} (kept : Kept m) : Keeps Passes m := fun σ => (kept σ).toPasses

/-! ### Steps -/

theorem modifyFrame_kept {g : Frame → Frame} (loops : ∀ f, (g f).loops = f.loops) :
    Kept (modifyFrame g) := fun _ => ⟨⟨loops _, rfl, rfl, id, .refl _⟩, rfl, fun _ => rfl, id⟩

theorem make_kept {f : Koopa.Program → FnId → ValueId × Koopa.Program}
    {x : Koopa.Program → FnId → Koopa.Value} (inserts : ∀ p fn, f p fn = p.insert (x p fn)) :
    Kept (make f) := fun σ => by
  have made : after (make f) σ = σ.withProgram (f σ.program σ.frame.fn).2 := rfl
  rw [made, inserts]
  exact .of_program (Koopa.Program.enlarges_insert ..)

theorem tryMake_kept {f : Koopa.Program → FnId → Outcome (ValueId × Koopa.Program)}
    {x : Koopa.ValueDef}
    (inserts : ∀ {p fn r}, f p fn = .ok r → ∃ h t n, r = p.insert ⟨h, t, x, n⟩) :
    Kept (tryMake f) := fun σ => by
  unfold tryMake
  cases made : f σ.program σ.frame.fn with
  | error e =>
    rw [after_error (by rw [get_bind, made]; rfl)]
    exact refl_of Stays σ
  | ok r =>
    obtain ⟨h, t, n, rfl⟩ := inserts made
    rw [after_ok (by rw [get_bind, made]; rfl)]
    exact .of_program (Koopa.Program.enlarges_insert ..)

theorem integer_kept (n : Int32) : Kept (integer n) := make_kept fun _ _ => rfl

theorem emit_kept (v : ValueId) : Kept (emit v) := fun σ => by
  change Stays σ (after (if σ.frame.isOpen then _ else pure ()) σ)
  split
  · refine bind_keeps_of (lift_keeps _ σ) fun d σ₁ looked => ?_
    obtain ⟨found, rfl⟩ := lift_ok looked
    split
    · exact throw_keeps _ _
    · split
      · exact .of_program (Koopa.Program.pushInst_enlarges found ‹_›)
      · exact bind_keeps (lift_keeps _) (fun _ => raise_keeps _) _
  · exact pure_keeps _ _

theorem emitNew_kept {f : Koopa.Program → FnId → ValueId × Koopa.Program}
    {x : Koopa.Program → FnId → Koopa.Value} (inserts : ∀ p fn, f p fn = p.insert (x p fn)) :
    Kept (emitNew f) :=
  bind_keeps (make_kept inserts) fun v => bind_keeps (emit_kept v) fun _ => pure_keeps v

theorem tryEmitNew_kept {f : Koopa.Program → FnId → Outcome (ValueId × Koopa.Program)}
    {x : Koopa.ValueDef}
    (inserts : ∀ {p fn r}, f p fn = .ok r → ∃ h t n, r = p.insert ⟨h, t, x, n⟩) :
    Kept (tryEmitNew f) :=
  bind_keeps (tryMake_kept inserts) fun v => bind_keeps (emit_kept v) fun _ => pure_keeps v

theorem load_kept (src : ValueId) : Kept (tryEmitNew (·.load · src)) :=
  tryEmitNew_kept Koopa.Program.load_inserts

theorem store_kept (v dest : ValueId) : Kept (tryEmitNew (·.store · v dest)) :=
  tryEmitNew_kept Koopa.Program.store_inserts

theorem getPtr_kept (src i : ValueId) : Kept (tryEmitNew (·.getPtr · src i)) :=
  tryEmitNew_kept Koopa.Program.getPtr_inserts

theorem getElemPtr_kept (src i : ValueId) : Kept (tryEmitNew (·.getElemPtr · src i)) :=
  tryEmitNew_kept Koopa.Program.getElemPtr_inserts

theorem call_kept (fn : FnId) (as : List ValueId) : Kept (tryEmitNew (·.call · fn as)) :=
  tryEmitNew_kept Koopa.Program.call_inserts

theorem binary_kept (op : Koopa.Op) (l r : ValueId) : Kept (emitNew (·.binary · op l r)) :=
  emitNew_kept fun _ _ => rfl

theorem alloc_kept (t : Koopa.Ty) : Kept (emitNew (·.alloc · t)) := emitNew_kept fun _ _ => rfl

/-- Making a block changes the program and counts the block. -/
theorem after_newBlock (σ : State) : ∃ p, σ.program.Enlarges p ∧ after newBlock σ =
    { σ with program := p, frame := { σ.frame with nextBlock := σ.frame.nextBlock + 1 } } := by
  let name := s!"%bb{σ.frame.nextBlock}"
  let p := (σ.program.newBlock σ.frame.fn name).2
  let σ₁ : State :=
    { σ with program := p, frame := { σ.frame with nextBlock := σ.frame.nextBlock + 1 } }
  have made : σ.program.Enlarges p := ⟨Koopa.Program.grows_newBlock .., rfl⟩
  have read : (get : Lower State) σ = .ok σ σ := rfl
  have stored : (set σ₁ : Lower Unit) σ = .ok ⟨⟩ σ₁ := rfl
  unfold newBlock
  rw [after_bind read]
  dsimp only
  rw [after_bind stored]
  cases found : p.fn σ.frame.fn with
  | error e => exact ⟨p, made, rfl⟩
  | ok d =>
    have looked : (lift (.ok d) : Lower Koopa.Fn) σ₁ = .ok d σ₁ := rfl
    rw [after_bind looked]
    split
    · next e pushed =>
      exact ⟨_, made.trans (Koopa.Program.pushBlock_enlarges found pushed), rfl⟩
    · exact ⟨p, made, rfl⟩

theorem newBlock_kept : Kept newBlock := fun σ => by
  obtain ⟨p, larger, eq⟩ := after_newBlock σ
  rw [eq]
  exact ⟨⟨rfl, rfl, rfl, id, larger.toGrows⟩, larger.fns_size, fun _ => rfl, id⟩

theorem isOpen_kept : Kept isOpen := get_keeps fun _ => pure_keeps _

theorem switchTo_kept (b : BlockId) : Kept (switchTo b) := modifyFrame_kept fun _ => rfl

theorem sealTo_kept (term : ValueId) (next : BlockId) : Kept (sealTo term next) :=
  bind_keeps isOpen_kept fun _ => bind_keeps (emit_kept term) fun _ => modifyFrame_kept fun _ => rfl

theorem sealOff_kept (term : ValueId) : Kept (sealOff term) :=
  bind_keeps (emit_kept term) fun _ => modifyFrame_kept fun _ => rfl

theorem jump_kept (target : BlockId) : Kept (jump target) :=
  bind_keeps (make_kept fun _ _ => rfl) fun v => sealOff_kept v

theorem setName_kept (v : ValueId) (name : String) : Kept (setName v name) := fun σ => by
  refine bind_keeps_of (m := lift (σ.program.setName σ.frame.fn v name)) (lift_keeps _ σ) ?_
  intro p σ₁ named
  obtain ⟨named, rfl⟩ := lift_ok named
  exact .of_program (Koopa.Program.setName_enlarges named)

theorem Passes.of_symbols {t : SymbolTable} (gains : σ.symbols.Gains t) :
    Passes σ { σ with symbols := t } where
  loops := rfl
  depth := gains.depth
  balance := by
    have pushes := gains.pushes
    have pops := gains.pops
    simp only [pushes, pops]
  symbols := gains.kept
  program := .refl _

theorem declare_kept {sym : Symbol} (value : sym.isFunction = false) :
    Kept (declare sym) := fun σ => by
  have bound : Stays σ { σ with symbols := (σ.symbols.insert sym).2 } := {
    Passes.of_symbols (SymbolTable.gains_insert σ.symbols sym) with
    functions := rfl
    global := fun inside => SymbolTable.insert_global inside sym
    apart := fun apart => apart.insert value }
  refine bind_keeps_of (m := get) (refl_of Stays σ) fun s σ₁ read => ?_
  cases read
  split
  next a t inserted =>
  rw [inserted] at bound
  dsimp only
  split
  · split
    · exact raise_keeps (R := Stays) _ σ
    · exact bound
  · exact bound

/-! ### Scopes and loops -/

/-- What is done in the end is done whether the body succeeds or fails. -/
theorem after_andFinally {body : Lower α} {done : State → Outcome State}
    (ends : done (after body σ) = .ok σ') : after (andFinally body done) σ = σ' := by
  cases ran : body σ with
  | ok a s =>
    rw [after_ok ran] at ends
    exact after_ok (a := a) (by simp only [andFinally, ran, ends])
  | error e s =>
    rw [after_error ran] at ends
    exact after_error (e := e) (by simp only [andFinally, ran, ends])

/-- What the code of a function leaves as it was, where it binds no global names. -/
structure Encloses (σ σ' : State) : Prop extends Stays σ σ' where
  globals : σ'.symbols.global = σ.symbols.global

instance : IsPreorder State Encloses where
  refl := fun σ => ⟨refl_of Stays σ, rfl⟩
  trans := fun _ _ _ h h' => ⟨trans_of Stays h.toStays h'.toStays, h'.globals.trans h.globals⟩

/-- A scope is closed again however its body ends. -/
theorem inScope_encloses {kind : ScopeKind} {body : Lower α} (kept : Kept body) :
    Keeps Encloses (inScope kind body) := fun σ => by
  have stays := kept (σ.pushed kind)
  generalize ends : after body (σ.pushed kind) = σ₁ at stays
  obtain ⟨inner, outer, scopes⟩ : ∃ inner outer, σ₁.symbols.locals = inner :: outer :=
    List.exists_cons_of_length_eq_add_one stays.depth
  have depth : outer.length = σ.symbols.depth := by
    have := stays.depth
    rw [SymbolTable.depth, scopes] at this
    exact Nat.succ.inj this
  have closed : after (inScope kind body) σ =
      { σ₁ with symbols := { σ₁.symbols with locals := outer, pops := σ₁.symbols.pops + 1 } } := by
    refine after_andFinally ?_
    change (do return { after body (σ.pushed kind) with
      symbols := ← (after body (σ.pushed kind)).symbols.leave (σ.symbols.depth + 1) } :
        Outcome State) = _
    rw [ends, ← depth, SymbolTable.leave_eq scopes]
    rfl
  have global := stays.global (Nat.succ_ne_zero _)
  rw [closed]
  refine ⟨⟨⟨stays.loops, depth, ?_, stays.symbols, stays.program⟩, stays.functions, fun _ => global,
    fun apart => ?_⟩, global⟩
  have balance : σ₁.symbols.pushes + σ.symbols.pops = σ.symbols.pushes + 1 + σ₁.symbols.pops :=
    stays.balance
  · change σ₁.symbols.pushes + σ.symbols.pops = σ.symbols.pushes + (σ₁.symbols.pops + 1)
    omega
  · intro sc mem n id here
    exact stays.apart (apart.push kind) sc (by rw [scopes]; exact List.mem_cons_of_mem _ mem) here

theorem inScope_kept {kind : ScopeKind} {body : Lower α} (kept : Kept body) :
    Kept (inScope kind body) := fun σ => (inScope_encloses kept σ).toStays

/-- A loop is left again however its body ends. -/
theorem inLoop_kept {t : LoopTargets} {body : Lower α} (kept : Kept body) :
    Kept (inLoop t body) := fun σ => by
  have stays := kept (σ.looping t)
  generalize ends : after body (σ.looping t) = σ₁ at stays
  have loops : σ₁.frame.loops = t :: σ.frame.loops := stays.loops
  have left : after (inLoop t body) σ =
      { σ₁ with frame := { σ₁.frame with loops := σ₁.frame.loops.tail } } := by
    refine after_andFinally ?_
    change (do return { after body (σ.looping t) with
      frame := ← (after body (σ.looping t)).frame.popLoop (σ.frame.loops.length + 1) } :
        Outcome State) = _
    rw [ends, Frame.popLoop, if_pos (by rw [loops]; rfl)]
    rfl
  rw [left]
  exact ⟨⟨by rw [loops]; rfl, stays.depth, stays.balance, stays.symbols, stays.program⟩,
    stays.functions, stays.global, stays.apart⟩

/-! ## Expressions -/

theorem env_kept : Kept env := get_keeps fun _ => pure_keeps _

theorem findObject_kept (name : String) (span : Span) : Kept (findObject name span) := by
  refine get_keeps fun s => ?_
  split
  · exact raise_keeps _
  · exact ite_keeps (fun _ => raise_keeps _) fun _ => pure_keeps _

theorem asPlace_kept (e : Expr) (reason : String) : Kept (asPlace e reason) := by
  unfold asPlace
  refine guard_keeps (throw_keeps _) fun _ => ?_
  split
  · exact throw_keeps _
  · exact raise_keeps _
  · exact pure_keeps _

theorem startPlace_kept (e : Expr) : Kept (startPlace e) := by
  refine bind_keeps (asPlace_kept e _) fun named => bind_keeps (findObject_kept _ _) fun s => ?_
  split
  · refine ite_keeps (fun _ => ite_keeps (fun _ => pure_keeps _) fun _ => raise_keeps _) fun _ =>
      pure_keeps _
  · exact pure_keeps _

theorem address_kept (p : Place) : Kept p.address := pure_keeps _

theorem subscript_kept (p : Place) (idx : Expr) {lowered : Lower ValueId} (kept : Kept lowered) :
    Kept (subscript p idx lowered) := by
  unfold subscript
  split
  · refine bind_keeps (address_kept p) fun _ => bind_keeps (load_kept _) fun _ => ?_
    exact bind_keeps kept fun _ => bind_keeps (getPtr_kept _ _) fun _ => pure_keeps _
  · refine bind_keeps (address_kept p) fun _ => bind_keeps kept fun _ => ?_
    exact bind_keeps (getElemPtr_kept _ _) fun _ => pure_keeps _
  · split
    · exact throw_keeps _
    · exact raise_keeps _

theorem read_kept (p : Place) : Kept p.read := by
  unfold Place.read
  split
  · split
    · exact bind_keeps (lift_keeps _) fun _ => integer_kept _
    · exact throw_keeps _
  · exact ite_keeps (fun _ => load_kept _) fun _ => raise_keeps _

/-- What is done for an array argument once its place is known. -/
theorem passing_kept (span : Span) (expected : String) (want : Ty) (p : Place) : Kept (do
    match p.addr, p.type with
    | none, _ | _, .int => raise (.typeMismatch span s!"{expected}, got int")
    | some addr, t =>
      if (← lift t.decay) ≠ (← lift want.toKoopa) then
        raise (.typeMismatch span s!"{expected}, got {t.text}")
      match t with
      | .pointer _ => tryEmitNew (·.load · addr)
      | .array _ => do
        let nought ← integer 0
        tryEmitNew (·.getElemPtr · addr nought)
      | _ => raise (.internal span s!"array argument of kind {t.kind}") : Lower ValueId) := by
  split
  · exact raise_keeps _
  · exact raise_keeps _
  · refine bind_keeps (lift_keeps _) fun _ => bind_keeps (lift_keeps _) fun _ => ?_
    refine guard_keeps (raise_keeps _) fun _ => ?_
    split
    · exact load_kept _
    · exact bind_keeps (integer_kept 0) fun _ => getElemPtr_kept _ _
    · exact raise_keeps _

theorem arrayArg_kept (e : Expr) (want : Ty) {walk : Place → Lower Place}
    (kept : ∀ p, Kept (walk p)) : Kept (arrayArg e want walk) := by
  refine bind_keeps (asPlace_kept e _) fun named => bind_keeps (startPlace_kept e) fun start => ?_
  exact bind_keeps (kept start) fun p => passing_kept _ _ want p

theorem callFn_kept (span : Span) (name : String) (nameSpan : Span) (count : Nat)
    {lowerArgs : List Ty → Lower (List ValueId)} (kept : ∀ ts, Kept (lowerArgs ts)) :
    Kept (callFn span name nameSpan count lowerArgs) := by
  refine get_keeps fun s => ?_
  split
  · exact raise_keeps _
  · split
    · refine guard_keeps (raise_keeps _) fun _ => bind_keeps (kept _) fun _ => ?_
      exact bind_keeps (call_kept _ _) fun _ => pure_keeps _
    · exact raise_keeps _

theorem applyUnary_kept (op : UnaryOp) (x : ValueId) : Kept (applyUnary op x) := by
  unfold applyUnary
  split
  · exact bind_keeps (integer_kept 0) fun _ => binary_kept _ _ _
  · exact bind_keeps (integer_kept 0) fun _ => binary_kept _ _ _
  · exact pure_keeps _
  · exact pure_keeps _

/-- What follows the right operand of a logical operator. -/
theorem joining_kept (b slot : ValueId) (join : BlockId) : Kept (do
    let nought ← integer 0
    let norm ← emitNew (·.binary · .ne b nought)
    let _ ← tryEmitNew (·.store · norm slot)
    sealTo (← make (·.jump · join)) join
    tryEmitNew (·.load · slot)) := by
  refine bind_keeps (integer_kept 0) fun nought => bind_keeps (binary_kept _ _ _) fun norm => ?_
  refine bind_keeps (store_kept _ _) fun _ => bind_keeps (make_kept fun _ _ => rfl) fun back => ?_
  exact bind_keeps (sealTo_kept _ _) fun _ => load_kept _

theorem shortCircuit_kept (isOr : Bool) {left right : Lower ValueId} (first : Kept left)
    (second : Kept right) : Kept (shortCircuit isOr left right) := by
  refine bind_keeps (alloc_kept _) fun slot => bind_keeps (integer_kept _) fun short => ?_
  refine bind_keeps (store_kept _ _) fun _ => bind_keeps first fun a => ?_
  refine bind_keeps (integer_kept 0) fun nought => bind_keeps (binary_kept _ _ _) fun cond => ?_
  refine bind_keeps newBlock_kept fun rhs => bind_keeps newBlock_kept fun join => ?_
  refine bind_keeps (make_kept fun _ _ => rfl) fun branch => bind_keeps (sealTo_kept _ _) fun _ => ?_
  exact bind_keeps second fun b => joining_kept b slot join

theorem applyBinary_kept (span : Span) (op : BinaryOp) {left right : Lower ValueId}
    (first : Kept left) (second : Kept right) : Kept (applyBinary span op left right) := by
  refine bind_keeps first fun a => bind_keeps second fun b => ?_
  split
  · exact binary_kept _ _ _
  · exact raise_keeps _

theorem foldOr_kept (e : Expr) {run : Unit → Lower ValueId} (kept : Kept (run ())) :
    Kept (foldOr e run) := by
  refine bind_keeps env_kept fun env => ?_
  split
  · exact integer_kept _
  · exact kept
  · exact throw_keeps _

mutual

theorem expr_kept : (e : Expr) → Kept (expr e)
  | .lit _ v => foldOr_kept _ (integer_kept v)
  | .group _ inner => foldOr_kept _ (expr_kept inner)
  | .ident .. => foldOr_kept _ (bind_keeps (startPlace_kept _) read_kept)
  | .index _ target idx => foldOr_kept _ (bind_keeps (startPlace_kept _) fun start =>
      bind_keeps (walk_kept target start) fun p =>
        bind_keeps (subscript_kept p idx (expr_kept idx)) read_kept)
  | .unary _ op e => foldOr_kept _ (bind_keeps (expr_kept e) (applyUnary_kept op))
  | .binary s op l r => foldOr_kept _ (ite_keeps
      (fun _ => shortCircuit_kept _ (expr_kept l) (expr_kept r))
      fun _ => applyBinary_kept s op (expr_kept l) (expr_kept r))
  | .call s name ns as => foldOr_kept _ (bind_keeps (callFn_kept s name ns _ (args_kept as))
      fun _ => guard_keeps (raise_keeps _) fun _ => pure_keeps _)
  | .bare .. => foldOr_kept _ (ite_keeps (fun _ => throw_keeps _) fun _ => raise_keeps _)
  | .missing _ => foldOr_kept _ (get_keeps fun _ => raise_keeps _)

theorem walk_kept : (e : Expr) → (p : Place) → Kept (walk e p)
  | .group _ inner, p => walk_kept inner p
  | .index _ target idx, p =>
    bind_keeps (walk_kept target p) fun q => subscript_kept q idx (expr_kept idx)
  | .lit .., p | .ident .., p | .unary .., p | .binary .., p | .call .., p | .bare .., p
  | .missing .., p => pure_keeps p

theorem args_kept : (es : List Expr) → (ts : List Ty) → Kept (args es ts)
  | e :: es, .pointer _ :: ts => bind_keeps (arrayArg_kept e _ (walk_kept e)) fun _ =>
      bind_keeps (args_kept es ts) fun _ => pure_keeps _
  | e :: es, .array _ :: ts | e :: es, .int :: ts | e :: es, .void :: ts =>
      bind_keeps (expr_kept e) fun _ => bind_keeps (args_kept es ts) fun _ => pure_keeps _
  | [], _ | _ :: _, [] => pure_keeps _

end

theorem effect_kept (e : Expr) : Kept (effect e) := by
  unfold effect
  split
  · exact bind_keeps (callFn_kept _ _ _ _ (args_kept _)) fun _ => pure_keeps _
  · exact bind_keeps (expr_kept e) fun _ => pure_keeps _

/-! ## Declarations -/

theorem makeMany_kept {f : Nat → Lower ValueId} (kept : ∀ i, Kept (f i)) (n i : Nat) :
    Kept (makeMany f n i) := by
  induction n generalizing i with
  | zero => exact pure_keeps _
  | succ n ih => exact bind_keeps (kept i) fun _ => bind_keeps (ih (i + 1)) fun _ => pure_keeps _

theorem makeGlobal_kept {f : Koopa.Program → Outcome (ValueId × Koopa.Program)}
    {x : Koopa.ValueDef} (inserts : ∀ {p r}, f p = .ok r → ∃ h t n, r = p.insert ⟨h, t, x, n⟩) :
    Kept (makeGlobal f) := tryMake_kept inserts

theorem aggregate_kept (dims : List Int) (data : List Int32) : Kept (aggregate dims data) := by
  induction dims generalizing data with
  | nil =>
    unfold aggregate
    split
    · exact makeGlobal_kept (x := .integer _) fun made => ⟨_, _, _, (Except.ok.inj made).symm⟩
    · exact throw_keeps _
  | cons d ds ih =>
    refine bind_keeps (makeMany_kept (fun _ => ih _) _ _) fun elems => ?_
    refine makeGlobal_kept (x := .aggregate elems) fun made => ?_
    obtain ⟨t, inserted⟩ := Koopa.Program.aggregate_inserts made
    exact ⟨_, _, _, inserted⟩

theorem setGlobalName_kept (v : ValueId) (name : String) :
    Kept (do setProgram (← lift ((← get).program.setGlobalName v name))) := fun σ => by
  refine bind_keeps_of (m := lift (σ.program.setGlobalName v name)) (lift_keeps _ σ) ?_
  intro p σ₁ named
  obtain ⟨named, rfl⟩ := lift_ok named
  exact .of_program (Koopa.Program.setGlobalName_enlarges named)

theorem namedGlobal_kept (name : String) (init : ValueId) : Kept (namedGlobal name init) :=
  bind_keeps (makeGlobal_kept Koopa.Program.globalAlloc_inserts) fun v => by
    simpa only [bind_assoc] using
      bind_keeps (setGlobalName_kept v ("@" ++ name)) fun _ => pure_keeps v

theorem globalVariable_kept (name : String) (ty : Ty) (data : List Int32) :
    Kept (globalVariable name ty data) := by
  rw [globalVariable_eq]
  refine bind_keeps (ite_keeps (fun _ => ?_) fun _ => aggregate_kept _ _) (namedGlobal_kept name)
  refine bind_keeps (lift_keeps _) fun t => makeGlobal_kept (x := .zeroInit) ?_
  exact fun made => ⟨_, _, _, (Except.ok.inj made).symm⟩

theorem constantSymbol_kept (d : Def) (ty : Ty) (value : Const.Value) :
    Kept (constantSymbol d ty value) :=
  ite_keeps (fun _ => bind_keeps (pure_keeps _) fun _ => pure_keeps _) fun _ =>
    bind_keeps (map_keeps (globalVariable_kept _ _ _)) fun _ => pure_keeps _

theorem globalDef_kept (isConst : Bool) (d : Def) : Kept (globalDef isConst d) := by
  refine get_keeps fun s => ite_keeps (fun _ => ?_) fun _ => bind_keeps (lift_keeps _) fun ty => ?_
  · exact bind_keeps (lift_keeps _) fun _ => constantSymbol_kept _ _ _
  · refine guard_keeps (throw_keeps _) fun _ => ?_
    have named (data : List Int32) : Kept (variableSymbol d ty data) :=
      bind_keeps (globalVariable_kept _ _ _) fun _ => pure_keeps _
    split
    · exact named []
    · exact bind_keeps (lift_keeps _) named

theorem refuseVoid_kept (d : Decl) : Kept (refuseVoid d) := by
  unfold refuseVoid
  split
  · exact throw_keeps _
  · exact raise_keeps _

theorem elementPtr_kept (base : ValueId) (count index : Int) (dims : List Int) :
    Kept (elementPtr base count index dims) := by
  induction dims generalizing base count index with
  | nil => exact pure_keeps _
  | cons d ds ih =>
    rw [elementPtr]
    exact guard_keeps (throw_keeps _) fun _ => bind_keeps (integer_kept _) fun _ =>
      bind_keeps (getElemPtr_kept _ _) fun _ => ih _ _ _

theorem storeElements_kept (slot : ValueId) (dims : List Int) (index : Nat)
    (elems : List (Option ValueId)) : Kept (storeElements slot dims index elems) := by
  induction elems generalizing index with
  | nil => exact pure_keeps _
  | cons e es ih =>
    have filled (v : ValueId) : Kept (filling slot dims index es v) :=
      bind_keeps (elementPtr_kept _ _ _ _) fun _ => bind_keeps (store_kept _ _) fun _ => ih _
    cases e with
    | some v => exact filled v
    | none => exact bind_keeps (integer_kept 0) filled

theorem storeLayout_kept {elem : Expr → Lower α} (kept : ∀ e, Kept (elem e))
    (ps : List Const.Placement) (out : List α) : Kept (Const.Layout.store elem ps out) := by
  induction ps generalizing out with
  | nil => exact pure_keeps _
  | cons p ps ih => exact bind_keeps (kept _) fun _ => ite_keeps (fun _ => ih _) fun _ => throw_keeps _

theorem flatten_kept {zero : α} {elem : Expr → Lower α} (kept : ∀ e, Kept (elem e))
    (dims : List Int) (init : Init) : Kept (Const.flatten zero elem dims init) := by
  unfold Const.flatten
  split
  · exact throw_keeps _
  · refine bind_keeps (storeLayout_kept kept _ _) fun out => ?_
    split
    · exact throw_keeps _
    · exact pure_keeps _

theorem storeInit_kept (slot : ValueId) (ty : Ty) (init : Init) :
    Kept (storeInit slot ty init) := by
  refine ite_keeps (fun _ => ?_) fun _ => ?_
  · split
    · exact throw_keeps _
    · exact raise_keeps _
    · exact bind_keeps (expr_kept _) fun _ => bind_keeps (store_kept _ _) fun _ => pure_keeps _
  · exact bind_keeps (flatten_kept (fun e => map_keeps (expr_kept e)) _ _) fun _ =>
      storeElements_kept _ _ _ _

/-- A constant is bound where it is declared. -/
theorem declareConstant_kept (d : Def) (ty : Ty) (value : Const.Value) :
    Kept (do declare (← constantSymbol d ty value)) := fun σ => by
  refine bind_keeps_of (constantSymbol_kept d ty value σ) fun s σ₁ made => ?_
  have value : s.isFunction = false := by
    unfold constantSymbol at made
    split at made
    all_goals
      obtain ⟨slot, σ₂, -, named⟩ := bind_eq_ok.mp made
      cases named
      rfl
  exact declare_kept value σ₁

theorem localConstant_kept (d : Def) : Kept (localConstant d) :=
  bind_keeps env_kept fun _ => bind_keeps (lift_keeps _) fun _ => declareConstant_kept d _ _

theorem localVariable_kept (d : Def) : Kept (localVariable d) := by
  refine bind_keeps env_kept fun _ => bind_keeps (lift_keeps _) fun ty => ?_
  refine bind_keeps (lift_keeps _) fun t => bind_keeps (alloc_kept _) fun slot => ?_
  refine bind_keeps (setName_kept _ _) fun _ => ?_
  split
  · exact declare_kept rfl
  · exact bind_keeps (storeInit_kept _ _ _) fun _ => declare_kept rfl

theorem localDecl_kept (d : Decl) : Kept (localDecl d) := by
  unfold localDecl
  split
  · exact refuseVoid_kept d
  · refine forM_keeps (fun d => ?_) _
    split
    · exact localConstant_kept d
    · exact localVariable_kept d

/-! ## Statements -/

theorem storing_kept (named : Expr.Place) (value : Expr) (p : Place) :
    Kept (storing named value p) := by
  unfold storing
  refine guard_keeps (raise_keeps _) fun _ => bind_keeps (expr_kept value) fun _ => ?_
  exact bind_keeps (address_kept p) fun _ => bind_keeps (store_kept _ _) fun _ => pure_keeps _

theorem assign_kept (target value : Expr) : Kept (assign target value) := by
  refine bind_keeps (asPlace_kept _ _) fun named => bind_keeps (findObject_kept _ _) fun s => ?_
  have aimed : Kept (assigning target value named.2) :=
    bind_keeps (startPlace_kept _) fun start => bind_keeps (walk_kept _ _) (storing_kept named.2 value)
  split
  · exact bind_keeps (raise_keeps _) fun _ => aimed
  · exact aimed

theorem ret_kept (span : Span) (value : Option Expr) : Kept (ret span value) := by
  have returned : ∀ v, Kept (do sealOff (← make (·.ret · v))) := fun _ =>
    bind_keeps (make_kept fun _ _ => rfl) sealOff_kept
  refine get_keeps fun s => ?_
  simp only
  split
  · refine bind_keeps (get_keeps fun _ => bind_keeps (lift_keeps _) fun _ => pure_keeps _) fun _ => ?_
    exact bind_keeps (raise_keeps _) returned
  · exact bind_keeps (map_keeps (expr_kept _)) returned
  · exact bind_keeps (pure_keeps _) returned
  · exact bind_keeps (map_keeps (integer_kept 0)) returned

theorem leaveLoop_kept (span : Span) (keyword : String) (target : LoopTargets → BlockId) :
    Kept (leaveLoop span keyword target) := by
  refine get_keeps fun s => ?_
  split
  · exact raise_keeps _
  · exact jump_kept _

theorem goTo_kept (b : BlockId) (reachable : Bool) : Kept (goTo b reachable) :=
  ite_keeps (fun _ => switchTo_kept b) fun _ => pure_keeps ()

theorem leaveTo_kept (b : BlockId) : Kept (leaveTo b) :=
  bind_keeps isOpen_kept fun _ =>
    ite_keeps (fun _ => bind_keeps (jump_kept b) fun _ => pure_keeps _) fun _ => pure_keeps _

theorem arm_kept (reachable : Bool) (block join : BlockId) {body : Lower Unit}
    (kept : Kept body) : Kept (arm reachable block join body) := by
  rw [arm_eq]
  exact bind_keeps (goTo_kept _ _) fun _ => bind_keeps kept fun _ => leaveTo_kept _

theorem branching_kept (reachable : Bool) (c : ValueId) {thenArm : Lower Unit}
    {elseArm : Option (Lower Unit)} (first : Kept thenArm) (second : ∀ m ∈ elseArm, Kept m) :
    Kept (branching reachable c thenArm elseArm) := by
  refine bind_keeps newBlock_kept fun thenBlock => ?_
  cases elseArm with
  | none =>
    refine bind_keeps newBlock_kept fun join => bind_keeps (make_kept fun _ _ => rfl) fun branch => ?_
    exact bind_keeps (sealOff_kept _) fun _ => bind_keeps (arm_kept _ _ _ first) fun _ =>
      goTo_kept _ _
  | some other =>
    refine bind_keeps newBlock_kept fun elseBlock => bind_keeps newBlock_kept fun join => ?_
    refine bind_keeps (make_kept fun _ _ => rfl) fun branch => bind_keeps (sealOff_kept _) fun _ => ?_
    refine bind_keeps (arm_kept _ _ _ first) fun _ => ?_
    exact bind_keeps (arm_kept _ _ _ (second other rfl)) fun _ => goTo_kept _ _

theorem conditional_kept (cond : Expr) {thenArm : Lower Unit} {elseArm : Option (Lower Unit)}
    (first : Kept thenArm) (second : ∀ m ∈ elseArm, Kept m) :
    Kept (conditional cond thenArm elseArm) :=
  bind_keeps isOpen_kept fun _ => bind_keeps (expr_kept cond) fun _ =>
    branching_kept _ _ first second

theorem circling_kept {body : Lower Unit} (kept : Kept body) (reachable : Bool) (c : ValueId)
    (condBlock bodyBlock done : BlockId) :
    Kept (circling body reachable c condBlock bodyBlock done) := by
  refine bind_keeps (make_kept fun _ _ => rfl) fun branch => bind_keeps (sealOff_kept _) fun _ => ?_
  refine bind_keeps (goTo_kept _ _) fun _ => bind_keeps (inLoop_kept kept) fun _ => ?_
  exact bind_keeps (leaveTo_kept _) fun _ => goTo_kept _ _

theorem loop_kept (cond : Expr) {body : Lower Unit} (kept : Kept body) :
    Kept (loop cond body) := by
  rw [loop_eq]
  refine bind_keeps isOpen_kept fun reachable => bind_keeps newBlock_kept fun condBlock => ?_
  refine bind_keeps newBlock_kept fun bodyBlock => bind_keeps newBlock_kept fun done => ?_
  refine bind_keeps (make_kept fun _ _ => rfl) fun jump => bind_keeps (sealTo_kept _ _) fun _ => ?_
  exact bind_keeps (expr_kept cond) fun c => circling_kept kept reachable c condBlock bodyBlock done

mutual

theorem stmt_kept : (s : Stmt) → Kept (stmt s)
  | .block _ ss => inScope_kept (stmts_kept ss)
  | .decl _ none => throw_keeps _
  | .decl _ (some d) => localDecl_kept d
  | .assign _ target value => assign_kept target value
  | .expr _ none => pure_keeps _
  | .expr _ (some e) => effect_kept e
  | .ifThen _ cond thenArm none => conditional_kept cond (stmt_kept thenArm) (by simp)
  | .ifThen _ cond thenArm (some elseArm) => conditional_kept cond (stmt_kept thenArm)
      fun _ other => by cases other; exact stmt_kept elseArm
  | .while _ cond body => loop_kept cond (stmt_kept body)
  | .break _ => leaveLoop_kept _ _ _
  | .continue _ => leaveLoop_kept _ _ _
  | .return s value => ret_kept s value
  | .bare .. => ite_keeps (fun _ => throw_keeps _) fun _ => raise_keeps _
  | .missing _ => get_keeps fun _ => raise_keeps _

theorem stmts_kept : (ss : List Stmt) → Kept (stmts ss)
  | [] => pure_keeps _
  | s :: ss => bind_keeps (stmt_kept s) fun _ => stmts_kept ss

end

/-! ## Units -/

theorem globalDefs_passes (isConst : Bool) (ds : List Def) :
    Keeps Passes (globalDefs isConst ds) := by
  induction ds with
  | nil => exact pure_keeps _
  | cons d ds ih =>
    refine bind_keeps (globalDef_kept isConst d).passes fun sym => fun σ => ?_
    refine bind_keeps_of (m := get) (refl_of Passes σ) fun s σ₁ read => ?_
    cases read
    have bound : Passes σ { σ with symbols := (σ.symbols.define sym).2 } :=
      .of_symbols (SymbolTable.gains_define σ.symbols sym)
    split
    next a t defined =>
    rw [defined] at bound
    dsimp only
    split
    · exact bind_keeps (raise_keeps _) (fun _ => ih) σ
    · exact trans_of Passes bound (ih _)

theorem globalDecl_passes (d : Decl) : Keeps Passes (globalDecl d) := by
  unfold globalDecl
  split
  · exact (refuseVoid_kept d).passes
  · exact globalDefs_passes _ _

theorem newFn_passes (name : String) (params : List Ty) (ret : Ty) (names : List String) :
    Keeps Passes (newFn name params ret names) := by
  refine bind_keeps (mapM_keeps (fun _ => lift_keeps _) _) fun ps => ?_
  refine bind_keeps (lift_keeps _) fun r => fun σ => ?_
  refine bind_keeps_of (m := get) (refl_of Passes σ) fun s σ₁ read => ?_
  cases read
  refine bind_keeps_of (lift_keeps _ σ) fun q σ₁ looked => ?_
  obtain ⟨made, rfl⟩ := lift_ok looked
  exact ⟨rfl, rfl, rfl, id, Koopa.Program.grows_newFn made⟩

theorem declareLibrary_passes (ls : List LibraryFn) : Keeps Passes (declareLibrary ls) := by
  induction ls with
  | nil => exact pure_keeps _
  | cons l ls ih =>
    refine bind_keeps (newFn_passes _ _ _ _) fun f => bind_keeps (fun σ => ?_) fun _ => ih
    exact .of_symbols (SymbolTable.gains_declare σ.symbols _)

theorem spillParams_kept (ps : List Param) (ts : List Ty) (vs : List ValueId) :
    Kept (spillParams ps ts vs) := by
  induction ps generalizing ts vs with
  | nil => exact pure_keeps _
  | cons p ps ih =>
    cases ts with
    | nil => exact pure_keeps _
    | cons t ts =>
      cases vs with
      | nil => exact pure_keeps _
      | cons v vs =>
        refine bind_keeps (setName_kept _ _) fun _ => bind_keeps (lift_keeps _) fun ty => ?_
        refine bind_keeps (alloc_kept _) fun slot => bind_keeps (setName_kept _ _) fun _ => ?_
        exact bind_keeps (store_kept _ _) fun _ => bind_keeps (declare_kept rfl) fun _ => ih ts vs

theorem header_passes (f : Fn) (ret : Ty) (params : List Ty) :
    Keeps Passes (header f ret params) := by
  refine get_keeps fun s => ?_
  split
  · exact newFn_passes _ _ _ _
  · split
    · exact guard_keeps (raise_keeps _) fun _ => guard_keeps (raise_keeps _) fun _ => pure_keeps _
    · exact raise_keeps _

theorem bindFn_passes (f : Fn) (sym : Symbol) : Keeps Passes (bindFn f sym) := fun σ => by
  have gains : σ.symbols.Gains
      (if f.isDecl then σ.symbols.declare sym else σ.symbols.define sym).2 := by
    split
    · exact SymbolTable.gains_declare σ.symbols sym
    · exact SymbolTable.gains_define σ.symbols sym
  unfold after bindFn
  rw [get_bind]
  generalize (if f.isDecl then σ.symbols.declare sym else σ.symbols.define sym) = bound at gains
  obtain ⟨⟨accepted, existing⟩, t⟩ := bound
  cases accepted <;> cases existing
  · exact .of_symbols gains
  · exact refl_of Passes σ
  · exact .of_symbols gains
  · exact .of_symbols gains

theorem after_recordBody (name : String) (m : Lower Unit) (σ : State) :
    ∃ bodies, after (recordBody name m) σ = { after m σ with bodies := bodies } := by
  unfold after recordBody
  cases m σ with
  | ok a s => exact ⟨_, rfl⟩
  | error e s => exact ⟨_, rfl⟩

theorem newBlock_encloses : Keeps Encloses newBlock := fun σ => by
  have stays := newBlock_kept σ
  obtain ⟨p, -, made⟩ := after_newBlock σ
  exact ⟨stays, by rw [made]⟩

theorem fnBody_encloses (f : Fn) (id : FnId) (params : List Ty) (block : Stmt) :
    Keeps Encloses (fnBody f id params block) := by
  refine inScope_encloses (get_keeps fun s => bind_keeps (lift_keeps _) fun d => ?_)
  refine bind_keeps (spillParams_kept _ _ _) fun _ => ?_
  split
  · exact stmts_kept _
  · exact raise_keeps _

/-- After a body its scopes are closed, no loop of the function is open, and no global name was
bound. -/
theorem body_encloses (f : Fn) (id : FnId) (ret : Ty) (params : List Ty) (block : Stmt)
    (σ : State) :
    Encloses (σ.framed id ret f.nameSpan) (after (body f id ret params block) σ) := by
  have entered : Keeps Encloses (do
      switchTo (← newBlock)
      fnBody f id params block) :=
    bind_keeps newBlock_encloses fun b =>
      bind_keeps (fun σ => ⟨switchTo_kept b σ, rfl⟩) fun _ => fnBody_encloses f id params block
  have encloses : Encloses (σ.framed id ret f.nameSpan)
      (after (enterBody f id ret params block) σ) := entered (σ.framed id ret f.nameSpan)
  obtain ⟨bodies, recorded⟩ := after_recordBody f.name (enterBody f id ret params block) σ
  rw [body_eq, recorded]
  exact ⟨⟨⟨encloses.loops, encloses.depth, encloses.balance, encloses.symbols, encloses.program⟩,
    encloses.functions, encloses.global, encloses.apart⟩, encloses.globals⟩


theorem closeBlocks_passes :
    Keeps Passes (do setProgram (← lift (← get).program.closeBlocks)) := fun σ => by
  change Passes σ (after (do setProgram (← lift σ.program.closeBlocks)) σ)
  refine bind_keeps_of (lift_keeps _ σ) fun p σ₁ looked => ?_
  obtain ⟨closed, rfl⟩ := lift_ok looked
  exact ⟨rfl, rfl, rfl, id, (Koopa.Program.closeBlocks_enlarges closed).toGrows⟩

/-- What is left as it was from one item to the next. Outside of functions no loop is open. -/
structure Crosses (σ σ' : State) : Prop where
  program : σ.program.Grows σ'.program
  passes : σ.frame.loops = [] → Passes σ σ'

instance : IsPreorder State Crosses where
  refl := fun σ => ⟨.refl _, fun _ => refl_of Passes σ⟩
  trans := fun _ _ _ h h' => ⟨h.program.trans h'.program, fun outside => by
    have first := h.passes outside
    exact trans_of Passes first (h'.passes (first.loops.trans outside))⟩

theorem Keeps.crosses {m : Lower α} (passes : Keeps Passes m) : Keeps Crosses m :=
  fun σ => ⟨(passes σ).program, fun _ => passes σ⟩

theorem body_crosses (f : Fn) (id : FnId) (ret : Ty) (params : List Ty) (block : Stmt) :
    Keeps Crosses (body f id ret params block) := fun σ => by
  have ends := body_encloses f id ret params block σ
  exact ⟨ends.program, fun outside =>
    ⟨ends.loops.trans outside.symm, ends.depth, ends.balance, ends.symbols, ends.program⟩⟩

theorem function_crosses (f : Fn) : Keeps Crosses (function f) := by
  refine get_keeps fun s => bind_keeps (lift_keeps _) fun params => ?_
  refine bind_keeps (header_passes _ _ _).crosses fun id => ?_
  refine bind_keeps (bindFn_passes _ _).crosses fun _ => ?_
  split
  · exact pure_keeps _
  · exact body_crosses f id _ params _

theorem item_crosses (i : Item) : Keeps Crosses (item i) := by
  match i with
  | .fn _ f => exact function_crosses f
  | .decl _ (some d) => exact (globalDecl_passes d).crosses
  | .decl _ none => exact throw_keeps _
  | .missing _ => exact throw_keeps _
  | .bare s kind => exact ite_keeps (fun _ => throw_keeps _) fun _ => raise_keeps _

theorem items_crosses (canceled : Bool) (is : List Item) : Keeps Crosses (items canceled is) := by
  induction is with
  | nil => exact pure_keeps _
  | cons i is ih =>
    exact guard_keeps (throw_keeps _) fun _ => bind_keeps (item_crosses i) fun _ => ih

end SysY.Lower

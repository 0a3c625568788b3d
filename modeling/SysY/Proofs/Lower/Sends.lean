import SysY.Lower.Unit
import SysY.Proofs.Const.Expected
import SysY.Proofs.Koopa.Insert
import SysY.Proofs.Lower.Parts

/-! # What code leaves in the symbol table

`Sends P m Q F` says of a computation that it sends tables of which `P` holds to tables of which `Q`
holds, or else ends with a failure of which `F` holds. Expressions and instructions leave the table
as it is, and none of their failures points to an earlier definition. So they send `P` to `P`
whatever it is, as long as `F` has nothing against such failures. -/

namespace SysY

open Koopa (ValueId BlockId FnId)
open Source (Span)

/-! ## Failures without an earlier definition -/

/-- An operation whose failures do not point to an earlier definition. -/
structure Outcome.Alone {α : Type} (o : Outcome α) : Prop where
  failure : ∀ {f}, o = .error f → f.previous? = none

namespace Outcome

variable {α β : Type} {o : Outcome α}

theorem Plain.alone (h : o.Plain) : o.Alone := ⟨fun failed => (h.failure failed).2⟩

theorem alone_ok (a : α) : Outcome.Alone (.ok a) := (plain_ok a).alone

theorem alone_error {f : Failure} (h : f.previous? = none) :
    Outcome.Alone (.error f : Outcome α) := ⟨fun e => by cases e; exact h⟩

theorem alone_refuse (text : String) : Outcome.Alone (.refuse text : Outcome α) := alone_error rfl

theorem Alone.bind {k : α → Outcome β} (h : o.Alone) (hk : ∀ a, (k a).Alone) :
    Outcome.Alone (o >>= k) := by
  cases o with
  | error f => exact alone_error (h.failure rfl)
  | ok a => exact hk a

theorem alone_foldlM {k : β → α → Outcome β} (h : ∀ b a, (k b a).Alone) (as : List α) (b : β) :
    Outcome.Alone (as.foldlM k b) := by
  induction as generalizing b with
  | nil => exact alone_ok b
  | cons a as ih =>
    rw [List.foldlM_cons]
    exact (h b a).bind ih

end Outcome

open Outcome

namespace Koopa

theorem Ty.ofBounds_alone (dims : List Int) : (ofBounds dims).Alone := by
  induction dims with
  | nil => exact alone_ok _
  | cons d ds ih =>
    refine ih.bind fun t => ?_
    unfold arrayOf
    split
    · exact alone_refuse _
    · exact alone_ok _

namespace Program

variable (p : Program) (f : FnId)

theorem fn_alone : (p.fn f).Alone := by
  unfold fn
  split
  · exact alone_ok _
  · exact alone_refuse _

theorem value_alone (v : ValueId) : (p.value f v).Alone := by
  unfold value
  split
  · exact alone_ok _
  · exact alone_refuse _

theorem global_alone (v : ValueId) : (p.global v).Alone := by
  unfold global
  split
  · exact alone_ok _
  · exact alone_refuse _

theorem block_alone (b : BlockId) : (p.block f b).Alone := by
  unfold block
  split
  · exact alone_ok _
  · exact alone_refuse _

theorem visible_alone (home : Option FnId) (v : ValueId) : (p.visible home v).Alone := by
  cases home with
  | none => exact p.global_alone v
  | some f => exact p.value_alone f v

theorem load_alone (src : ValueId) : (p.load f src).Alone :=
  (p.value_alone f src).bind fun d => by
    split
    · exact alone_ok _
    · exact alone_refuse _

theorem store_alone (v dest : ValueId) : (p.store f v dest).Alone :=
  (p.value_alone f dest).bind fun d => by
    split
    · exact alone_ok _
    · exact alone_refuse _

theorem getPtr_alone (src index : ValueId) : (p.getPtr f src index).Alone :=
  (p.value_alone f src).bind fun d => by
    split
    · exact alone_ok _
    · exact alone_refuse _

theorem getElemPtr_alone (src index : ValueId) : (p.getElemPtr f src index).Alone :=
  (p.value_alone f src).bind fun d => by
    split
    · exact alone_ok _
    · exact alone_refuse _

theorem call_alone (callee : FnId) (args : List ValueId) : (p.call f callee args).Alone :=
  (p.fn_alone callee).bind fun _ => alone_ok _

theorem globalAlloc_alone (init : ValueId) : (p.globalAlloc init).Alone :=
  (p.global_alone init).bind fun _ => alone_ok _

theorem checkElems_alone (home : Option FnId) (t : Ty) (vs : List ValueId) :
    (p.checkElems home t vs).Alone := by
  induction vs with
  | nil => exact alone_ok _
  | cons v vs ih =>
    refine (p.visible_alone home v).bind fun d => ?_
    split
    · exact ih
    · exact alone_refuse _

theorem aggregate_alone (home : Option FnId) (elems : List ValueId) :
    (p.aggregate home elems).Alone := by
  cases elems with
  | nil => exact alone_refuse _
  | cons v vs => exact (p.visible_alone home v).bind fun d =>
      (p.checkElems_alone home d.ty vs).bind fun _ => alone_ok _

theorem setName_alone (v : ValueId) (name : String) : (p.setName f v name).Alone :=
  (p.value_alone f v).bind fun _ => alone_ok _

theorem setGlobalName_alone (v : ValueId) (name : String) : (p.setGlobalName v name).Alone :=
  (p.global_alone v).bind fun _ => alone_ok _

theorem newFn_alone (name : String) (t : Ty) (names : List String) :
    (p.newFn name t names).Alone := by
  cases t with
  | func => exact alone_ok _
  | _ => exact alone_refuse _

theorem returning_alone (d : Fn) (b : BlockId) (v : Option ValueId) :
    (p.returning f d b v).Alone := by
  unfold returning
  dsimp only
  split
  · exact alone_ok _
  · exact alone_error rfl

theorem closeBlock_alone (b : BlockId) : (p.closeBlock f b).Alone := by
  have returned (d : Fn) : (p.addReturn f d b).Alone := by
    rw [addReturn_eq]
    split
    · exact p.returning_alone f d b _
    · exact returning_alone _ f d b _
  rw [closeBlock_eq]
  refine (p.fn_alone f).bind fun d => ?_
  split
  · exact returned d
  · refine (p.value_alone f _).bind fun v => ?_
    split
    · exact alone_ok _
    · exact returned d

theorem closeBlocks_alone : p.closeBlocks.Alone :=
  alone_foldlM (fun p f => (p.fn_alone f).bind fun _ =>
    alone_foldlM (fun p b => p.closeBlock_alone f b) _ p) _ p

end Program

end Koopa

theorem Ty.toKoopa_alone (t : Ty) : t.toKoopa.Alone := by
  cases t with
  | int | void => exact alone_ok _
  | array ds => exact Koopa.Ty.ofBounds_alone ds
  | pointer ds => exact (Koopa.Ty.ofBounds_alone ds).bind fun _ => alone_ok _

theorem Ty.decay_alone (t : Ty) : t.decay.Alone := by
  cases t with
  | array ds => exact (Koopa.Ty.ofBounds_alone ds.tail).bind fun _ => alone_ok _
  | int => exact toKoopa_alone .int
  | void => exact toKoopa_alone .void
  | pointer ds => exact toKoopa_alone (.pointer ds)

theorem Const.Value.item_alone (v : Const.Value) : v.item.Alone := by
  cases scalar : v.isScalar with
  | true => exact (item_plain scalar).alone
  | false =>
    unfold item
    rw [scalar]
    exact alone_refuse _

namespace Lower

variable {α β : Type} {P Q Q' R : SymbolTable → Prop} {F : Failure → Prop}

/-! ## Computations -/

/-- The end of a computation: with a table of which `Q` holds, or with a failure of which `F`
holds. -/
def EndsIn (Q : SymbolTable → Prop) (F : Failure → Prop) : EStateM.Result Failure State α → Prop
  | .ok _ σ => Q σ.symbols
  | .error f _ => F f

/-- A computation that sends tables of which `P` holds to tables of which `Q` holds, or ends with
failures of which `F` holds. -/
def Sends (P : SymbolTable → Prop) (m : Lower α) (Q : SymbolTable → Prop) (F : Failure → Prop) :
    Prop := ∀ σ : State, P σ.symbols → EndsIn Q F (m σ)

/-- Nothing is said of failures that do not point to an earlier definition. -/
class Lenient (F : Failure → Prop) : Prop where
  alone : ∀ {f : Failure}, f.previous? = none → F f

section Combinators

variable {m : Lower α} {g : α → Lower β}

theorem pure_sends (a : α) : Sends P (pure a : Lower α) P F := fun _ holds => holds

theorem throw_sends {f : Failure} (h : F f) : Sends P (throw f : Lower α) Q F := fun _ _ => h

/-- Nothing comes after a failure. -/
theorem stop_sends {f : Failure} (h : F f) : Sends P (throw f >>= g : Lower β) Q F := fun _ _ => h

/-- Results of which something is known. -/
def Gives (m : Lower α) (A : α → Prop) : Prop := ∀ σ a σ', m σ = .ok a σ' → A a

theorem pure_gives {A : α → Prop} {a : α} (h : A a) : Gives (pure a : Lower α) A := by
  rintro _ _ _ ⟨⟩
  exact h

theorem bind_gives {A : β → Prop} (h : ∀ a, Gives (g a) A) : Gives (m >>= g) A := by
  intro σ b σ' ran
  change EStateM.bind m g σ = _ at ran
  unfold EStateM.bind at ran
  split at ran
  · exact h _ _ _ _ ran
  · cases ran

theorem ite_gives {A : α → Prop} {c : Prop} [Decidable c] {m' : Lower α} (yes : Gives m A)
    (no : Gives m' A) : Gives (if c then m else m') A := by
  split
  · exact yes
  · exact no

theorem check_gives {A : β → Prop} {c : Prop} [Decidable c] {m : Lower PUnit}
    {g : PUnit → Lower β} (h : Gives (g ⟨⟩) A) : Gives (if c then m >>= g else g ⟨⟩) A :=
  ite_gives (bind_gives fun _ => h) h

/-- One computation after another, where something is known of the first result. -/
theorem Sends.bind_of {A : α → Prop} (gives : Gives m A) (first : Sends P m Q F)
    (next : ∀ a, A a → Sends Q (g a) R F) : Sends P (m >>= g) R F := fun σ holds => by
  have ends := first σ holds
  change EndsIn R F (EStateM.bind m g σ)
  rw [EStateM.bind]
  cases ran : m σ with
  | ok a σ' =>
    rw [ran] at ends
    exact next a (gives _ _ _ ran) σ' ends
  | error f σ' =>
    rw [ran] at ends
    exact ends

theorem Sends.bind (first : Sends P m Q F) (next : ∀ a, Sends Q (g a) R F) :
    Sends P (m >>= g) R F :=
  bind_of (A := fun _ => True) (fun _ _ _ _ => trivial) first fun a _ => next a

theorem Sends.mono {Q' : SymbolTable → Prop} {F' : Failure → Prop} (h : Sends P m Q F)
    (tables : ∀ t, Q t → Q' t) (failures : ∀ f, F f → F' f) : Sends P m Q' F' := fun σ holds => by
  have ends := h σ holds
  cases ran : m σ with
  | ok a σ' =>
    rw [ran] at ends
    exact tables _ ends
  | error f σ' =>
    rw [ran] at ends
    exact failures _ ends

theorem get_sends {g : State → Lower β} (next : ∀ σ : State, P σ.symbols → Sends P (g σ) Q F) :
    Sends P (get >>= g) Q F := fun σ holds => next σ holds σ holds

theorem modify_sends {g : State → State} (next : ∀ σ : State, P σ.symbols → Q (g σ).symbols) :
    Sends P (modify g : Lower PUnit) Q F := fun σ holds => next σ holds

theorem set_sends {σ : State} (holds : Q σ.symbols) : Sends P (set σ : Lower PUnit) Q F :=
  fun _ _ => holds

theorem ite_sends {c : Prop} [Decidable c] {m' : Lower α} (yes : c → Sends P m Q F)
    (no : ¬ c → Sends P m' Q F) : Sends P (if c then m else m') Q F := by
  split
  · exact yes ‹_›
  · exact no ‹_›

/-- A step that is left out or comes before the rest. -/
theorem check_sends {c : Prop} [Decidable c] {m : Lower PUnit} {g : PUnit → Lower β}
    (first : Sends P m P F) (next : Sends P (g ⟨⟩) Q F) :
    Sends P (if c then m >>= g else g ⟨⟩) Q F :=
  ite_sends (fun _ => first.bind fun _ => next) fun _ => next

theorem map_sends {g : α → β} (h : Sends P m Q F) : Sends P (g <$> m) Q F :=
  h.bind (g := fun a => pure (g a)) fun _ => pure_sends _

variable [Lenient F]

theorem alone_sends {f : Failure} (h : f.previous? = none) : Sends P (throw f : Lower α) Q F :=
  throw_sends (Lenient.alone h)

theorem raise_sends {e : Diag.Error} (h : e.previous = none) : Sends P (raise e : Lower α) Q F :=
  throw_sends (f := .error e) (Lenient.alone h)

theorem lift_sends {o : Outcome α} (h : o.Alone) : Sends P (lift o) P F := by
  cases o with
  | ok a => exact pure_sends a
  | error f => exact alone_sends (h.failure rfl)

end Combinators

/-! ## Instructions -/

theorem modifyFrame_sends (g : Frame → Frame) : Sends P (modifyFrame g) P F :=
  modify_sends fun _ holds => holds

theorem setProgram_sends (p : Koopa.Program) : Sends P (setProgram p) P F :=
  modify_sends fun _ holds => holds

theorem make_sends (f : Koopa.Program → FnId → ValueId × Koopa.Program) : Sends P (make f) P F :=
  fun _ holds => holds

theorem integer_sends (n : Int32) : Sends P (integer n) P F := make_sends _

theorem isOpen_sends : Sends P isOpen P F := get_sends fun _ _ => pure_sends _

theorem env_sends : Sends P env P F := get_sends fun _ _ => pure_sends _

theorem address_sends (p : Place) : Sends P p.address P F := pure_sends _

variable [Lenient F]

theorem tryMake_sends {f : Koopa.Program → FnId → Outcome (ValueId × Koopa.Program)}
    (alone : ∀ p fn, (f p fn).Alone) : Sends P (tryMake f) P F :=
  get_sends fun _ _ => (lift_sends (alone _ _)).bind fun r =>
    (setProgram_sends r.2).bind fun _ => pure_sends _

theorem emit_sends (v : ValueId) : Sends P (emit v) P F := by
  refine get_sends fun σ _ => ite_sends (fun _ => ?_) fun _ => pure_sends _
  refine (lift_sends (Koopa.Program.fn_alone _ _)).bind fun d => ?_
  split
  · exact alone_sends rfl
  · split
    · exact setProgram_sends _
    · exact (lift_sends (Koopa.Program.block_alone _ _ _)).bind fun _ => raise_sends rfl

theorem emitNew_sends (f : Koopa.Program → FnId → ValueId × Koopa.Program) :
    Sends P (emitNew f) P F :=
  (make_sends f).bind fun v => (emit_sends v).bind fun _ => pure_sends v

theorem tryEmitNew_sends {f : Koopa.Program → FnId → Outcome (ValueId × Koopa.Program)}
    (alone : ∀ p fn, (f p fn).Alone) : Sends P (tryEmitNew f) P F :=
  (tryMake_sends alone).bind fun v => (emit_sends v).bind fun _ => pure_sends v

theorem load_sends (src : ValueId) : Sends P (tryEmitNew (·.load · src)) P F :=
  tryEmitNew_sends fun p f => p.load_alone f src

theorem store_sends (v dest : ValueId) : Sends P (tryEmitNew (·.store · v dest)) P F :=
  tryEmitNew_sends fun p f => p.store_alone f v dest

theorem getPtr_sends (src i : ValueId) : Sends P (tryEmitNew (·.getPtr · src i)) P F :=
  tryEmitNew_sends fun p f => p.getPtr_alone f src i

theorem getElemPtr_sends (src i : ValueId) : Sends P (tryEmitNew (·.getElemPtr · src i)) P F :=
  tryEmitNew_sends fun p f => p.getElemPtr_alone f src i

theorem newBlock_sends : Sends P newBlock P F :=
  get_sends fun σ holds => by
    refine (set_sends (Q := P) ?_).bind fun _ => ?_
    · exact holds
    refine (lift_sends (Koopa.Program.fn_alone _ _)).bind fun d => ?_
    dsimp only
    split
    · exact (setProgram_sends _).bind fun _ => pure_sends _
    · exact stop_sends (Lenient.alone rfl)

theorem sealTo_sends (term : ValueId) (next : BlockId) : Sends P (sealTo term next) P F :=
  isOpen_sends.bind fun _ => (emit_sends term).bind fun _ => modifyFrame_sends _

theorem sealOff_sends (term : ValueId) : Sends P (sealOff term) P F :=
  (emit_sends term).bind fun _ => modifyFrame_sends _

theorem jump_sends (target : BlockId) : Sends P (jump target) P F :=
  (make_sends _).bind fun v => sealOff_sends v

theorem setName_sends (v : ValueId) (name : String) : Sends P (setName v name) P F :=
  get_sends fun _ _ => (lift_sends (Koopa.Program.setName_alone _ _ v name)).bind fun p =>
    setProgram_sends p

/-! ## Expressions -/

theorem findObject_sends (name : String) (span : Span) : Sends P (findObject name span) P F := by
  refine get_sends fun σ _ => ?_
  split
  · exact raise_sends rfl
  · exact ite_sends (fun _ => raise_sends rfl) fun _ => pure_sends _

theorem asPlace_sends (e : Expr) (reason : String) : Sends P (asPlace e reason) P F := by
  unfold asPlace
  refine check_sends (alone_sends rfl) ?_
  split
  · exact alone_sends rfl
  · exact raise_sends rfl
  · exact pure_sends _

theorem startPlace_sends (e : Expr) : Sends P (startPlace e) P F := by
  refine (asPlace_sends e _).bind fun named => (findObject_sends _ _).bind fun s => ?_
  split
  · refine ite_sends (fun _ => ?_) fun _ => pure_sends _
    exact ite_sends (fun _ => pure_sends _) fun _ => raise_sends rfl
  · exact pure_sends _

theorem subscript_sends (p : Place) (idx : Expr) {lowered : Lower ValueId}
    (sends : Sends P lowered P F) : Sends P (subscript p idx lowered) P F := by
  unfold subscript
  split
  · refine (address_sends p).bind fun _ => (load_sends _).bind fun _ => ?_
    exact sends.bind fun _ => (getPtr_sends _ _).bind fun _ => pure_sends _
  · refine (address_sends p).bind fun _ => sends.bind fun _ => ?_
    exact (getElemPtr_sends _ _).bind fun _ => pure_sends _
  · split
    · exact alone_sends rfl
    · exact raise_sends rfl

theorem read_sends (p : Place) : Sends P p.read P F := by
  unfold Place.read
  split
  · split
    · exact (lift_sends (Const.Value.item_alone _)).bind fun _ => integer_sends _
    · exact alone_sends rfl
  · exact ite_sends (fun _ => load_sends _) fun _ => raise_sends rfl

theorem arrayArg_sends (e : Expr) (want : Ty) {walk : Place → Lower Place}
    (sends : ∀ p, Sends P (walk p) P F) : Sends P (arrayArg e want walk) P F := by
  refine (asPlace_sends e _).bind fun named => (startPlace_sends e).bind fun start => ?_
  refine (sends start).bind fun p => ?_
  split
  · exact raise_sends rfl
  · exact raise_sends rfl
  · refine (lift_sends (Ty.decay_alone _)).bind fun _ => ?_
    refine (lift_sends (Ty.toKoopa_alone _)).bind fun _ => check_sends (raise_sends rfl) ?_
    split
    · exact load_sends _
    · exact (integer_sends 0).bind fun _ => getElemPtr_sends _ _
    · exact raise_sends rfl

theorem callFn_sends (span : Span) (name : String) (nameSpan : Span) (count : Nat)
    {lowerArgs : List Ty → Lower (List ValueId)} (sends : ∀ ts, Sends P (lowerArgs ts) P F) :
    Sends P (callFn span name nameSpan count lowerArgs) P F := by
  refine get_sends fun σ _ => ?_
  split
  · exact raise_sends rfl
  · split
    · refine check_sends (raise_sends rfl) ((sends _).bind fun _ => ?_)
      exact (tryEmitNew_sends fun p f => p.call_alone f _ _).bind fun _ => pure_sends _
    · exact raise_sends rfl

theorem applyUnary_sends (op : UnaryOp) (x : ValueId) : Sends P (applyUnary op x) P F := by
  cases op with
  | minus | not => exact (integer_sends 0).bind fun _ => emitNew_sends _
  | plus | other => exact pure_sends _

theorem shortCircuit_sends (isOr : Bool) {left right : Lower ValueId} (first : Sends P left P F)
    (second : Sends P right P F) : Sends P (shortCircuit isOr left right) P F := by
  refine (emitNew_sends _).bind fun slot => (integer_sends _).bind fun short => ?_
  refine (store_sends _ _).bind fun _ => first.bind fun a => ?_
  refine (integer_sends 0).bind fun nought => (emitNew_sends _).bind fun cond => ?_
  refine newBlock_sends.bind fun rhs => newBlock_sends.bind fun join => ?_
  refine (make_sends _).bind fun branch => (sealTo_sends _ _).bind fun _ => ?_
  refine second.bind fun b => (integer_sends 0).bind fun nought => ?_
  refine (emitNew_sends _).bind fun norm => (store_sends _ _).bind fun _ => ?_
  exact (make_sends _).bind fun back => (sealTo_sends _ _).bind fun _ => load_sends _

theorem applyBinary_sends (span : Span) (op : BinaryOp) {left right : Lower ValueId}
    (first : Sends P left P F) (second : Sends P right P F) :
    Sends P (applyBinary span op left right) P F := by
  refine first.bind fun a => second.bind fun b => ?_
  split
  · exact emitNew_sends _
  · exact raise_sends rfl

theorem foldOr_sends (e : Expr) {run : Unit → Lower ValueId} (sends : Sends P (run ()) P F) :
    Sends P (foldOr e run) P F := by
  refine env_sends.bind fun env => ?_
  split
  · exact integer_sends _
  · exact sends
  · exact alone_sends ((Const.eval_plain env e).alone.failure ‹_›)

mutual

theorem expr_sends : (e : Expr) → Sends P (expr e) P F
  | .lit _ v => foldOr_sends _ (integer_sends v)
  | .group _ inner => foldOr_sends _ (expr_sends inner)
  | .ident .. => foldOr_sends _ ((startPlace_sends _).bind read_sends)
  | .index _ target idx => foldOr_sends _ ((startPlace_sends _).bind fun start =>
      (walk_sends target start).bind fun p =>
        (subscript_sends p idx (expr_sends idx)).bind read_sends)
  | .unary _ op e => foldOr_sends _ ((expr_sends e).bind (applyUnary_sends op))
  | .binary s op l r => foldOr_sends _ (ite_sends
      (fun _ => shortCircuit_sends _ (expr_sends l) (expr_sends r))
      fun _ => applyBinary_sends s op (expr_sends l) (expr_sends r))
  | .call s name ns as => foldOr_sends _ ((callFn_sends s name ns _ (args_sends as)).bind
      fun _ => check_sends (raise_sends rfl) (pure_sends _))
  | .bare .. => foldOr_sends _ (ite_sends (fun _ => alone_sends rfl) fun _ => raise_sends rfl)
  | .missing _ => foldOr_sends _ (get_sends fun _ _ => raise_sends rfl)

theorem walk_sends : (e : Expr) → (p : Place) → Sends P (walk e p) P F
  | .group _ inner, p => walk_sends inner p
  | .index _ target idx, p =>
    (walk_sends target p).bind fun q => subscript_sends q idx (expr_sends idx)
  | .lit .., p | .ident .., p | .unary .., p | .binary .., p | .call .., p | .bare .., p
  | .missing .., p => pure_sends p

theorem args_sends : (es : List Expr) → (ts : List Ty) → Sends P (args es ts) P F
  | e :: es, .pointer _ :: ts => (arrayArg_sends e _ (walk_sends e)).bind fun _ =>
      (args_sends es ts).bind fun _ => pure_sends _
  | e :: es, .array _ :: ts | e :: es, .int :: ts | e :: es, .void :: ts =>
      (expr_sends e).bind fun _ => (args_sends es ts).bind fun _ => pure_sends _
  | [], _ | _ :: _, [] => pure_sends _

end

theorem effect_sends (e : Expr) : Sends P (effect e) P F := by
  unfold effect
  split
  · exact (callFn_sends _ _ _ _ (args_sends _)).bind fun _ => pure_sends _
  · exact (expr_sends e).bind fun _ => pure_sends _

/-! ## Values of declarations -/

omit [Lenient F] in
theorem makeMany_sends {f : Nat → Lower ValueId} (sends : ∀ i, Sends P (f i) P F) (n i : Nat) :
    Sends P (makeMany f n i) P F := by
  induction n generalizing i with
  | zero => exact pure_sends _
  | succ n ih => exact (sends i).bind fun _ => (ih (i + 1)).bind fun _ => pure_sends _

theorem aggregate_sends (dims : List Int) (data : List Int32) :
    Sends P (aggregate dims data) P F := by
  induction dims generalizing data with
  | nil =>
    unfold aggregate
    split
    · exact tryMake_sends fun _ _ => alone_ok _
    · exact alone_sends rfl
  | cons d ds ih =>
    refine (makeMany_sends (fun _ => ih _) _ _).bind fun elems => ?_
    exact tryMake_sends fun p _ => p.aggregate_alone none elems

theorem namedGlobal_sends (name : String) (init : ValueId) : Sends P (namedGlobal name init) P F :=
  (tryMake_sends fun p _ => p.globalAlloc_alone init).bind fun v => get_sends fun _ _ =>
    (lift_sends (Koopa.Program.setGlobalName_alone _ v _)).bind fun p =>
      (setProgram_sends p).bind fun _ => pure_sends v

theorem globalVariable_sends (name : String) (ty : Ty) (data : List Int32) :
    Sends P (globalVariable name ty data) P F := by
  rw [globalVariable_eq]
  refine Sends.bind (ite_sends (fun _ => ?_) fun _ => aggregate_sends _ _) (namedGlobal_sends name)
  exact (lift_sends (Ty.toKoopa_alone ty)).bind fun t => tryMake_sends fun _ _ => alone_ok _

theorem constantSymbol_sends (d : Def) (ty : Ty) (value : Const.Value) :
    Sends P (constantSymbol d ty value) P F :=
  ite_sends (fun _ => (pure_sends _).bind fun _ => pure_sends _) fun _ =>
    (map_sends (globalVariable_sends _ _ _)).bind fun _ => pure_sends _

/-- The symbol of a definition stands where the definition has its name. -/
def IsFor (d : Def) (s : Symbol) : Prop := s.name = d.name ∧ s.span = d.nameSpan

theorem constantSymbol_gives (d : Def) (ty : Ty) (value : Const.Value) :
    Gives (constantSymbol d ty value) (IsFor d) :=
  ite_gives (bind_gives fun _ => pure_gives ⟨rfl, rfl⟩) (bind_gives fun _ => pure_gives ⟨rfl, rfl⟩)

theorem globalDef_gives (isConst : Bool) (d : Def) : Gives (globalDef isConst d) (IsFor d) := by
  refine bind_gives fun σ => ?_
  dsimp only
  split
  · exact bind_gives fun r => constantSymbol_gives d r.1 r.2
  · refine bind_gives fun ty => check_gives ?_
    have named (data : List Int32) : Gives (variableSymbol d ty data) (IsFor d) :=
      bind_gives fun _ => pure_gives ⟨rfl, rfl⟩
    split
    · exact bind_gives named
    · exact bind_gives named

theorem globalDef_sends (isConst : Bool) (d : Def) : Sends P (globalDef isConst d) P F := by
  refine get_sends fun s _ => ite_sends (fun _ => ?_) fun _ => ?_
  · exact (lift_sends (constantDef_plain _ d).alone).bind fun r => constantSymbol_sends d r.1 r.2
  · refine (lift_sends (Ty.ofDef_plain _ _ d).alone).bind fun ty => check_sends (alone_sends rfl) ?_
    have named (data : List Int32) : Sends P (variableSymbol d ty data) P F :=
      (globalVariable_sends _ _ _).bind fun _ => pure_sends _
    split
    · exact (pure_sends _).bind named
    · exact (lift_sends (constantInit_plain _ _ _ _).alone).bind named

theorem refuseVoid_sends (d : Decl) : Sends P (refuseVoid d) Q F := by
  unfold refuseVoid
  split
  · exact alone_sends rfl
  · exact raise_sends rfl

theorem elementPtr_sends (base : ValueId) (count index : Int) (dims : List Int) :
    Sends P (elementPtr base count index dims) P F := by
  induction dims generalizing base count index with
  | nil => exact pure_sends _
  | cons d ds ih =>
    rw [elementPtr]
    exact check_sends (alone_sends rfl) <| (integer_sends _).bind fun _ =>
      (getElemPtr_sends _ _).bind fun _ => ih _ _ _

theorem storeElements_sends (slot : ValueId) (dims : List Int) (index : Nat)
    (elems : List (Option ValueId)) : Sends P (storeElements slot dims index elems) P F := by
  induction elems generalizing index with
  | nil => exact pure_sends _
  | cons e es ih =>
    have filled (v : ValueId) : Sends P (filling slot dims index es v) P F :=
      (elementPtr_sends _ _ _ _).bind fun _ => (store_sends _ _).bind fun _ => ih _
    cases e with
    | some v => exact (pure_sends v).bind filled
    | none => exact (integer_sends 0).bind filled

theorem flatten_sends {zero : α} {elem : Expr → Lower α} (sends : ∀ e, Sends P (elem e) P F)
    (dims : List Int) (init : Init) : Sends P (Const.flatten zero elem dims init) P F := by
  have stored (ps : List Const.Placement) (out : List α) :
      Sends P (Const.Layout.store elem ps out) P F := by
    induction ps generalizing out with
    | nil => exact pure_sends _
    | cons p ps ih =>
      exact (sends _).bind fun _ => ite_sends (fun _ => ih _) fun _ => alone_sends rfl
  unfold Const.flatten
  split
  · exact alone_sends ((Const.Layout.ofArray_plain dims init).alone.failure ‹_›)
  · refine (stored _ _).bind fun out => ?_
    split
    · exact alone_sends ((Const.Layout.ofArray_stopPlain ‹_›).failure ‹_›).2
    · exact pure_sends _

theorem storeInit_sends (slot : ValueId) (ty : Ty) (init : Init) :
    Sends P (storeInit slot ty init) P F := by
  refine ite_sends (fun _ => ?_) fun _ => ?_
  · split
    · exact alone_sends rfl
    · exact raise_sends rfl
    · exact (expr_sends _).bind fun _ => (store_sends _ _).bind fun _ => pure_sends _
  · refine (flatten_sends (fun e => map_sends (expr_sends e)) _ _).bind fun elems => ?_
    exact storeElements_sends _ _ _ _

theorem newFn_sends (name : String) (params : List Ty) (ret : Ty) (names : List String) :
    Sends P (newFn name params ret names) P F := by
  have types : Sends P (params.mapM fun t => lift t.toKoopa) P F := by
    induction params with
    | nil => exact pure_sends _
    | cons t ts ih =>
      rw [List.mapM_cons]
      exact (lift_sends (Ty.toKoopa_alone t)).bind fun _ => ih.bind fun _ => pure_sends _
  refine types.bind fun ps => (lift_sends (Ty.toKoopa_alone ret)).bind fun r => ?_
  exact get_sends fun σ _ => (lift_sends (Koopa.Program.newFn_alone _ _ _ _)).bind fun q =>
    (setProgram_sends q.2).bind fun _ => pure_sends _

/-! ## Statements -/

theorem storing_sends (named : Expr.Place) (value : Expr) (p : Place) :
    Sends P (storing named value p) P F := by
  unfold storing
  refine check_sends (raise_sends rfl) ((expr_sends value).bind fun v => ?_)
  exact (address_sends p).bind fun _ => (store_sends _ _).bind fun _ => pure_sends _

theorem assign_sends (target value : Expr) : Sends P (assign target value) P F := by
  refine (asPlace_sends _ _).bind fun named => (findObject_sends _ _).bind fun s => ?_
  have aimed : Sends P (assigning target value named.2) P F :=
    (startPlace_sends _).bind fun _ => (walk_sends _ _).bind fun p => storing_sends named.2 value p
  split
  · exact stop_sends (Lenient.alone rfl)
  · exact aimed

theorem ret_sends (span : Span) (value : Option Expr) : Sends P (ret span value) P F := by
  have returned : ∀ v, Sends P (do sealOff (← make (·.ret · v))) P F := fun _ =>
    (make_sends _).bind sealOff_sends
  refine get_sends fun s _ => ?_
  dsimp only
  split
  · have named : Sends P currentName P F := get_sends fun _ _ =>
      (lift_sends (Koopa.Program.fn_alone _ _)).bind fun _ => pure_sends _
    exact named.bind fun _ => stop_sends (Lenient.alone rfl)
  · exact (map_sends (expr_sends _)).bind returned
  · exact (pure_sends _).bind returned
  · exact (map_sends (integer_sends 0)).bind returned

theorem leaveLoop_sends (span : Span) (keyword : String) (target : LoopTargets → BlockId) :
    Sends P (leaveLoop span keyword target) P F := by
  refine get_sends fun s _ => ?_
  split
  · exact raise_sends rfl
  · exact jump_sends _

theorem andFinally_sends {m : Lower α} {after : State → Outcome State} (body : Sends P m Q F)
    (ends : ∀ {σ σ' : State}, after σ = .ok σ' → Q σ.symbols → R σ'.symbols)
    (alone : ∀ σ, (after σ).Alone) : Sends P (andFinally m after) R F := fun σ holds => by
  have first := body σ holds
  unfold andFinally
  cases ran : m σ with
  | ok a σ' =>
    rw [ran] at first
    cases done : after σ' with
    | ok σ'' =>
      simp only [done]
      exact ends done first
    | error f =>
      simp only [done]
      exact Lenient.alone ((alone σ').failure done)
  | error f σ' =>
    rw [ran] at first
    cases done : after σ' with
    | ok σ'' =>
      simp only [done]
      exact first
    | error g =>
      simp only [done]
      exact Lenient.alone ((alone σ').failure done)

theorem inScope_sends {kind : ScopeKind} {m : Lower α} (body : Sends Q m Q' F)
    (opens : ∀ t, P t → Q (t.push kind))
    (closes : ∀ {t t' : SymbolTable} {depth}, t.leave depth = .ok t' → Q' t → R t') :
    Sends P (inScope kind m) R F := by
  refine Sends.bind (modify_sends fun σ holds => opens _ holds) fun _ => get_sends fun σ _ => ?_
  refine andFinally_sends body (fun {σ σ'} done holds => ?_) fun σ => ?_
  · obtain ⟨t, left, done⟩ := Except.bind_eq_ok.mp done
    cases done
    exact closes left holds
  · refine Alone.bind ?_ fun _ => alone_ok _
    unfold SymbolTable.leave SymbolTable.pop
    split
    · split
      · exact alone_refuse _
      · exact alone_ok _
    · exact alone_refuse _

theorem inLoop_sends {targets : LoopTargets} {m : Lower α} (body : Sends P m Q F) :
    Sends P (inLoop targets m) Q F := by
  refine (modifyFrame_sends _).bind fun _ => get_sends fun σ _ => ?_
  refine andFinally_sends body (fun {σ σ'} done holds => ?_) fun σ => ?_
  · obtain ⟨r, left, done⟩ := Except.bind_eq_ok.mp done
    cases done
    exact holds
  · refine Alone.bind ?_ fun _ => alone_ok _
    unfold Frame.popLoop
    split
    · exact alone_ok _
    · exact alone_refuse _

theorem arm_sends (reachable : Bool) (block join : BlockId) {m : Lower Unit}
    (body : Sends P m Q F) : Sends P (arm reachable block join m) Q F := by
  unfold arm
  refine check_sends (modifyFrame_sends _) (body.bind fun _ => isOpen_sends.bind fun _ => ?_)
  exact ite_sends (fun _ => (jump_sends _).bind fun _ => pure_sends _) fun _ => pure_sends _

theorem conditional_sends (cond : Expr) {thenArm : Lower Unit} (first : Sends P thenArm Q F) :
    Sends P (conditional cond thenArm none) Q F := by
  refine isOpen_sends.bind fun reachable => (expr_sends cond).bind fun c => ?_
  refine newBlock_sends.bind fun thenBlock => newBlock_sends.bind fun join => ?_
  refine (make_sends _).bind fun branch => (sealOff_sends _).bind fun _ => ?_
  refine (arm_sends _ _ _ first).bind fun joined => ?_
  exact ite_sends (fun _ => modifyFrame_sends _) fun _ => pure_sends _

theorem conditional_else_sends (cond : Expr) {thenArm elseArm : Lower Unit}
    (first : Sends P thenArm Q F) (second : Sends Q elseArm R F) :
    Sends P (conditional cond thenArm (some elseArm)) R F := by
  refine isOpen_sends.bind fun reachable => (expr_sends cond).bind fun c => ?_
  refine newBlock_sends.bind fun thenBlock => newBlock_sends.bind fun elseBlock => ?_
  refine newBlock_sends.bind fun join => (make_sends _).bind fun branch => ?_
  refine (sealOff_sends _).bind fun _ => (arm_sends _ _ _ first).bind fun joined₁ => ?_
  refine (arm_sends _ _ _ second).bind fun joined₂ => ?_
  exact ite_sends (fun _ => modifyFrame_sends _) fun _ => pure_sends _

theorem loop_sends (cond : Expr) {m : Lower Unit} (body : Sends P m Q F) :
    Sends P (loop cond m) Q F := by
  refine isOpen_sends.bind fun reachable => newBlock_sends.bind fun condBlock => ?_
  refine newBlock_sends.bind fun bodyBlock => newBlock_sends.bind fun done => ?_
  refine (make_sends _).bind fun enter => (sealTo_sends _ _).bind fun _ => ?_
  refine (expr_sends cond).bind fun c => (make_sends _).bind fun branch => ?_
  refine (sealOff_sends _).bind fun _ => check_sends (modifyFrame_sends _) ?_
  refine (inLoop_sends body).bind fun _ => isOpen_sends.bind fun _ => ?_
  refine check_sends (jump_sends _) ?_
  exact ite_sends (fun _ => modifyFrame_sends _) fun _ => pure_sends _

omit [Lenient F] in
theorem recordBody_sends (name : String) {m : Lower Unit} (body : Sends P m Q F) :
    Sends P (recordBody name m) Q F := fun σ holds => by
  have ends := body σ holds
  unfold recordBody
  cases ran : m σ with
  | ok a σ' =>
    rw [ran] at ends
    exact ends
  | error f σ' =>
    rw [ran] at ends
    exact ends

end Lower
end SysY

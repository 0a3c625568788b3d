import SysY.Proofs.Lower.Forks

/-! # Expressions keep the invariant

Lowering a whole expression succeeds with an integer that the next instruction can read, or fails in
an expected way. The types of places decide which instruction applies a subscript: `PlaceOk` ties
the source type of a place to the type of its address. -/

namespace SysY.Lower

open Koopa (ValueId BlockId FnId Avail ValueDef)
open Source (Span)

variable {k : Kind} {c : Site} {avail : Avail} {σ : State}

/-- An operation that computes an integer. -/
structure Computes (c : Site) (m : Lower ValueId) : Prop where
  runs : ∀ {avail σ}, Inv c avail σ →
    Runs .expr c avail σ m fun v avail' σ' => Operand avail' σ' v .i32

/-! ## Symbols and places -/

/-- A symbol that is found fits the program. -/
theorem Inv.symbol (inv : Inv c avail σ) {name : String} {s : Symbol}
    (found : σ.symbols.find? name = some s) : s.Ok σ.program (some σ.frame.fn) := by
  rw [inv.site.fn]
  rcases SymbolTable.find?_eq_some found with ⟨sc, hsc, id, mem, here⟩ | ⟨id, mem, here⟩
  · obtain ⟨s', here', ok⟩ := inv.scopes sc hsc mem
    rw [here] at here'
    cases here'
    exact ok
  · obtain ⟨s', here', ok⟩ := inv.global mem
    rw [here] at here'
    cases here'
    exact ok.of_global

/-- A global slot can be read anywhere. -/
theorem Operand.of_global {v : ValueId} {t : Ty} (slot : Symbol.SlotOk σ.program none v t) :
    Operand avail σ v (.pointer t.koopa) := by
  rcases slot with ⟨init, has⟩ | ⟨f, hf, -⟩
  · exact .of_has has (.inr rfl) rfl (by simp)
  · cases hf

/-- The slot of a variable that is found can be read. -/
theorem Inv.variable (inv : Inv c avail σ) {name : String} {s : Symbol} {v : ValueId}
    (found : σ.symbols.find? name = some s) (meaning : s.meaning = .variable v) :
    s.type.Solid ∧ Operand avail σ v (.pointer s.type.koopa) := by
  have ok := inv.symbol found
  unfold Symbol.Ok at ok
  rw [meaning] at ok
  refine ⟨ok.1, ?_⟩
  rcases SymbolTable.find?_eq_some found with ⟨sc, hsc, id, mem, here⟩ | ⟨id, mem, here⟩
  · have slot : v ∈ σ.symbols.localSlots := ⟨sc, hsc, name, id, s, mem, here, meaning⟩
    exact ⟨ok.2.sees, fun isOpen => .inr ((inv.live isOpen).slots slot), by simp⟩
  · obtain ⟨s', here', ok'⟩ := inv.global mem
    rw [here] at here'
    cases here'
    unfold Symbol.Ok at ok'
    rw [meaning] at ok'
    exact .of_global ok'.2

/-- A place has an address for its type, or it is a constant integer. -/
def PlaceOk (avail : Avail) (σ : State) (p : Place) : Prop :=
  match p.addr with
  | some addr => p.type.Solid ∧ Operand avail σ addr (.pointer p.type.koopa)
  | none => p.type = .int ∧ ∃ v slot, p.symbol.meaning = .constant v slot ∧ v.isScalar = true

theorem PlaceOk.evo {avail' : Avail} {σ' : State} {p : Place} (evo : Evo k avail σ avail' σ')
    (ok : PlaceOk avail σ p) : PlaceOk avail' σ' p := by
  unfold PlaceOk at ok ⊢
  split at ok
  · exact ⟨ok.1, ok.2.evo evo⟩
  · exact ok

/-- An array or an array parameter has an address. -/
theorem PlaceOk.address {p : Place} (ok : PlaceOk avail σ p) (array : p.type ≠ .int) :
    p.type.Solid ∧ Operand avail σ (p.addr.getD 0) (.pointer p.type.koopa) := by
  unfold PlaceOk at ok
  split at ok
  · rename_i addr found
    rw [found]
    exact ok
  · exact absurd ok.1 array

theorem findObject_eq (name : String) (span : Span) (σ : State) :
    findObject name span σ = (match σ.symbols.find? name with
      | none => raise (.undefinedIdentifier span name)
      | some s =>
        if s.isFunction then raise (.typeMismatch span s!"function '{name}' used as a variable")
        else return s : Lower Symbol) σ := rfl

theorem findObject_runs (inv : Inv c avail σ) (name : String) (span : Span) :
    Runs k c avail σ (findObject name span) fun s avail' σ' =>
      σ' = σ ∧ avail' = avail ∧ σ.symbols.find? name = some s ∧ s.isFunction = false := by
  refine Ends.of_eq (findObject_eq name span σ) ?_
  split
  · exact Runs.raise inv .undefinedIdentifier rfl (by decide)
  · rename_i s found
    split
    · exact Runs.raise inv .typeMismatch rfl (by decide)
    · rename_i notFn
      exact Runs.pure inv ⟨rfl, rfl, found, by simpa using notFn⟩

theorem asPlace_ok {e : Expr} {reason : String} {r : Span × Expr.Place}
    {σ' : State} (ok : asPlace e reason σ = .ok r σ') : σ' = σ ∧ e.place? = some r.2 := by
  unfold asPlace at ok
  split at ok
  · cases ok
  · cases span : e.span? with
    | none => simp only [span] at ok; cases ok
    | some s =>
      cases place : e.place? with
      | none => simp only [span, place] at ok; cases ok
      | some p =>
        simp only [span, place] at ok
        cases ok
        exact ⟨rfl, rfl⟩

theorem asPlace_runs (inv : Inv c avail σ) (e : Expr) (reason : String) :
    Runs k c avail σ (asPlace e reason) fun r avail' σ' =>
      σ' = σ ∧ avail' = avail ∧ e.span? = some r.1 ∧ e.place? = some r.2 := by
  unfold asPlace
  refine Runs.guard inv (fun _ => Runs.throw inv rfl) fun _ => ?_
  split
  · exact Runs.throw inv rfl
  · exact Runs.raise inv .typeMismatch rfl (by decide)
  · exact Runs.pure inv ⟨rfl, rfl, by assumption, by assumption⟩

/-- The place that an expression names stands for the symbol that its name is bound to. -/
theorem startPlace_runs (inv : Inv c avail σ) (e : Expr) :
    Runs k c avail σ (startPlace e) fun p avail' σ' => PlaceOk avail' σ' p ∧
      ∃ named, e.place? = some named ∧ σ.symbols.find? named.name = some p.symbol := by
  unfold startPlace
  refine Runs.bind inv (asPlace_runs inv e _) ?_
  rintro ⟨span, named⟩ avail₁ σ₁ - - ⟨rfl, rfl, -, isPlace⟩
  refine Runs.bind inv (findObject_runs inv named.name named.nameSpan) ?_
  rintro s avail₂ σ₂ - - ⟨rfl, rfl, found, notFn⟩
  have ok := inv.symbol found
  unfold Symbol.Ok at ok
  cases meaning : s.meaning with
  | constant v slot =>
    rw [meaning] at ok
    obtain ⟨solid, object, dims, -, number, table⟩ := ok
    simp only
    split
    · rename_i scalar
      split
      · refine Runs.pure inv ⟨⟨?_, v, slot, meaning, scalar⟩, named, isPlace, found⟩
        cases type : s.type with
        | int => rfl
        | void => rw [type] at solid; cases solid
        | array ds =>
          rw [type] at solid dims
          rw [Const.Value.isScalar, dims, List.isEmpty_iff] at scalar
          exact absurd scalar solid.1
        | pointer ds => rw [type] at object; cases object
      · exact Runs.raise inv .typeMismatch rfl (by decide)
    · rename_i notScalar
      have array : s.type ≠ .int := by
        intro type
        rw [type] at dims
        exact notScalar (by rw [Const.Value.isScalar, dims]; rfl)
      obtain ⟨g, rfl, slotOk⟩ := table array
      exact Runs.pure inv ⟨⟨solid, .of_global slotOk⟩, named, isPlace, found⟩
  | «variable» slot =>
    obtain ⟨solid, operand⟩ := inv.variable found meaning
    refine Runs.pure inv ⟨?_, named, isPlace, found⟩
    unfold PlaceOk
    simp only [Symbol.slot?, meaning]
    exact ⟨solid, operand⟩
  | function fn params defined =>
    rw [Symbol.isFunction, meaning] at notFn
    cases notFn

theorem subscript_runs {p : Place} {idx : Expr} {lowered : Lower ValueId} (inv : Inv c avail σ)
    (ok : PlaceOk avail σ p) (index : Computes c lowered) :
    Runs .expr c avail σ (subscript p idx lowered) fun q avail' σ' =>
      PlaceOk avail' σ' q ∧ q.symbol = p.symbol := by
  unfold subscript
  split
  · rename_i ds type
    obtain ⟨solid, base⟩ := ok.address (by simp [type])
    rw [type] at solid base
    have address : Place.address p σ = .ok (p.addr.getD 0) σ := rfl
    refine Ends.of_eq (bind_ok address) ?_
    refine Runs.bind inv (load_runs inv base (by simp [Ty.koopa])) ?_
    intro start avail₁ σ₁ inv₁ evo₁ startOk
    refine Runs.bind inv₁ (index.runs inv₁) ?_
    intro i avail₂ σ₂ inv₂ evo₂ iOk
    refine Runs.bind inv₂ (getPtr_runs inv₂ (startOk.evo evo₂) iOk) ?_
    intro addr avail₃ σ₃ inv₃ evo₃ addrOk
    refine Runs.pure inv₃ ⟨⟨Ty.solid_arrayOf solid, ?_⟩, rfl⟩
    rw [Ty.koopa_arrayOf]
    exact addrOk
  · rename_i ds type
    obtain ⟨solid, base⟩ := ok.address (by simp [type])
    rw [type] at solid base
    obtain ⟨nonempty, bounds⟩ := solid
    cases ds with
    | nil => exact absurd rfl nonempty
    | cons d ds =>
      have address : Place.address p σ = .ok (p.addr.getD 0) σ := rfl
      refine Ends.of_eq (bind_ok address) ?_
      refine Runs.bind inv (index.runs inv) ?_
      intro i avail₁ σ₁ inv₁ evo₁ iOk
      refine Runs.bind inv₁ (getElemPtr_runs inv₁ (base.evo evo₁) iOk) ?_
      intro addr avail₂ σ₂ inv₂ evo₂ addrOk
      refine Runs.pure inv₂ ⟨⟨Ty.solid_arrayOf bounds.tail, ?_⟩, rfl⟩
      rw [Ty.koopa_arrayOf]
      exact addrOk
  · split
    · exact Runs.throw inv rfl
    · exact Runs.raise inv .typeMismatch rfl (by decide)

theorem read_runs {p : Place} (inv : Inv c avail σ) (ok : PlaceOk avail σ p) :
    Runs .expr c avail σ p.read fun v avail' σ' => Operand avail' σ' v .i32 := by
  unfold Place.read
  unfold PlaceOk at ok
  split
  · rename_i noAddr
    rw [noAddr] at ok
    obtain ⟨-, v, slot, meaning, scalar⟩ := ok
    simp only [meaning]
    exact Runs.lift inv (Const.Value.item_plain scalar).expected fun n _ => integer_runs inv n
  · rename_i addr hasAddr
    rw [hasAddr] at ok
    split
    · rename_i scalar
      rw [Ty.isScalar_iff.mp scalar] at ok
      exact load_runs inv ok.2 (by simp)
    · exact Runs.raise inv .typeMismatch rfl (by decide)

/-! ## Calls -/

/-- An array is passed as a pointer of the type that the parameter has. -/
theorem arrayArg_runs {e : Expr} {ds : List Int} {walk : Place → Lower Place}
    (bounds : Bounds ds) (inv : Inv c avail σ)
    (walks : ∀ {avail σ p}, Inv c avail σ → PlaceOk avail σ p →
      Runs .expr c avail σ (walk p) fun q avail' σ' => PlaceOk avail' σ' q ∧ q.symbol = p.symbol) :
    Runs .expr c avail σ (arrayArg e (.pointer ds) walk) fun v avail' σ' =>
      Operand avail' σ' v (Ty.pointer ds).koopa := by
  unfold arrayArg
  refine Runs.bind inv (asPlace_runs inv e _) ?_
  rintro ⟨span, named⟩ avail₁ σ₁ - - ⟨rfl, rfl, -, -⟩
  refine Runs.bind inv (startPlace_runs inv e) ?_
  rintro p₀ avail₂ σ₂ inv₂ evo₂ ⟨ok₀, -⟩
  refine Runs.bind inv₂ (walks inv₂ ok₀) ?_
  rintro p avail₃ σ₃ inv₃ evo₃ ⟨ok, -⟩
  split
  · exact Runs.raise inv₃ .typeMismatch rfl (by decide)
  · exact Runs.raise inv₃ .typeMismatch rfl (by decide)
  · rename_i addr hasAddr notInt
    unfold PlaceOk at ok
    rw [hasAddr] at ok
    obtain ⟨solid, operand⟩ := ok
    refine Runs.lift inv₃ ⟨fun h => by rw [Ty.decay_eq solid] at h; cases h⟩ fun got hgot => ?_
    have wantSolid : (Ty.pointer ds).Solid := bounds
    refine Runs.lift inv₃ ⟨fun h => by rw [Ty.toKoopa_eq wantSolid] at h; cases h⟩ fun want hwant => ?_
    rw [Ty.decay_eq solid] at hgot
    rw [Ty.toKoopa_eq wantSolid] at hwant
    cases hwant
    refine Runs.guard inv₃ (fun _ => Runs.raise inv₃ .typeMismatch rfl (by decide)) fun same => ?_
    have same : got = (Ty.pointer ds).koopa := by simpa using same
    subst same
    have decayed : p.type.decayed = (Ty.pointer ds).koopa := Except.ok.inj hgot
    cases type : p.type with
    | int => exact absurd type notInt
    | void =>
      rw [type] at solid
      cases solid
    | pointer es =>
      rw [type] at decayed operand
      have same : (Ty.pointer es).koopa = (Ty.pointer ds).koopa := decayed
      rw [same] at operand
      exact load_runs inv₃ operand (by simp [Ty.koopa])
    | array es =>
      rw [type] at solid decayed operand
      obtain ⟨nonempty, -⟩ := solid
      cases es with
      | nil => exact absurd rfl nonempty
      | cons d es =>
        refine Runs.bind inv₃ (integer_runs inv₃ 0) ?_
        intro nought avail₄ σ₄ inv₄ evo₄ noughtOk
        rw [← decayed]
        exact getElemPtr_runs inv₄ (operand.evo evo₄) noughtOk

theorem callFn_eq (span : Span) (name : String) (nameSpan : Span) (count : Nat)
    (lowerArgs : List Ty → Lower (List ValueId)) (σ : State) :
    callFn span name nameSpan count lowerArgs σ = (match σ.symbols.find? name with
      | none => raise (.undefinedIdentifier nameSpan name)
      | some s =>
        match s.meaning with
        | .function fn params _ => do
          if count ≠ params.length then
            raise (.typeMismatch span s!"'{name}' expects {params.length} arguments, got {count}")
          let args ← lowerArgs params
          return (← tryEmitNew (·.call · fn args), s)
        | _ => raise (.typeMismatch nameSpan s!"'{name}' is not a function") :
          Lower (ValueId × Symbol)) σ := rfl

/-- A call passes what the parameters of the function want. -/
theorem callFn_runs {span nameSpan : Span} {name : String} {count : Nat}
    {lowerArgs : List Ty → Lower (List ValueId)} (inv : Inv c avail σ)
    (argsOk : ∀ {params}, (∀ t ∈ params, t = .int ∨ ∃ ds, t = .pointer ds ∧ Bounds ds) →
      params.length = count → Runs .expr c avail σ (lowerArgs params) fun vs avail' σ' =>
        List.Forall₂ (Operand avail' σ') vs (params.map Ty.koopa)) :
    Runs .expr c avail σ (callFn span name nameSpan count lowerArgs) fun r avail' σ' =>
      r.2.type ≠ .void → Operand avail' σ' r.1 .i32 := by
  refine Ends.of_eq (callFn_eq span name nameSpan count lowerArgs σ) ?_
  split
  · exact Runs.raise inv .undefinedIdentifier rfl (by decide)
  · rename_i s found
    have ok := inv.symbol found
    unfold Symbol.Ok at ok
    split
    · rename_i fn params defined meaning
      rw [meaning] at ok
      obtain ⟨type, solid, d, foundFn, ret, paramTys⟩ := ok
      refine Runs.guard inv (fun _ => Runs.raise inv .typeMismatch rfl (by decide)) fun length => ?_
      refine Runs.bind inv (argsOk solid (by simpa using Eq.symm (not_not.mp length))) ?_
      intro args avail₁ σ₁ inv₁ evo₁ fits
      obtain ⟨d', foundFn', later⟩ := evo₁.grows.fns foundFn
      rw [← paramTys, ← later.paramTys] at fits
      refine Runs.bind inv₁ (call_runs inv₁ foundFn' fits) ?_
      intro v avail₂ σ₂ inv₂ evo₂ placed
      refine Runs.pure inv₂ fun notVoid => ?_
      have int : d'.ret = .i32 := by
        rcases type with int | void
        · rw [later.ret, ret, int]
          rfl
        · exact absurd void notVoid
      rw [int] at placed
      exact placed.operand (by simp)
    · exact Runs.raise inv .typeMismatch rfl (by decide)

/-! ## Operators -/

theorem applyUnary_runs {op : UnaryOp} {x : ValueId} (inv : Inv c avail σ)
    (operand : Operand avail σ x .i32) :
    Runs .expr c avail σ (applyUnary op x) fun v avail' σ' => Operand avail' σ' v .i32 := by
  cases op with
  | minus =>
    refine Runs.bind inv (integer_runs inv 0) ?_
    intro nought avail₁ σ₁ inv₁ evo₁ noughtOk
    exact binary_runs inv₁ .sub noughtOk (operand.evo evo₁)
  | not =>
    refine Runs.bind inv (integer_runs inv 0) ?_
    intro nought avail₁ σ₁ inv₁ evo₁ noughtOk
    exact binary_runs inv₁ .eq (operand.evo evo₁) noughtOk
  | plus => exact Runs.pure inv operand
  | other n => exact Runs.pure inv operand

theorem applyBinary_computes {span : Span} {op : BinaryOp} {left right : Lower ValueId}
    (known : op.Known) (plain : op.isShortCircuit = false) (l : Computes c left)
    (r : Computes c right) : Computes c (applyBinary span op left right) := by
  constructor
  intro avail σ inv
  unfold applyBinary
  refine Runs.bind inv (l.runs inv) ?_
  intro a avail₁ σ₁ inv₁ evo₁ aOk
  refine Runs.bind inv₁ (r.runs inv₁) ?_
  intro b avail₂ σ₂ inv₂ evo₂ bOk
  split
  · exact binary_runs inv₂ _ (aOk.evo evo₂) bOk
  · rename_i noInst
    cases op with
    | logicalAnd => cases plain
    | logicalOr => cases plain
    | other n => exact known.elim
    | _ => cases noInst

/-- The blocks of a logical operator. -/
theorem shortCircuit_computes {isOr : Bool} {left right : Lower ValueId} (l : Computes c left)
    (r : Computes c right) : Computes c (shortCircuit isOr left right) := by
  constructor
  intro avail σ inv
  unfold shortCircuit
  refine Runs.bind inv (alloc_runs inv .i32) ?_
  intro slot avail₁ σ₁ inv₁ evo₁ placed
  have slotOk : Operand avail₁ σ₁ slot (.pointer .i32) := placed.operand (by simp)
  refine Runs.bind inv₁ (integer_runs inv₁ _) ?_
  intro short avail₂ σ₂ inv₂ evo₂ shortOk
  refine Runs.bind inv₂ (store_runs inv₂ shortOk (slotOk.evo evo₂)) ?_
  intro _ avail₃ σ₃ inv₃ evo₃ _
  refine Runs.bind inv₃ (l.runs inv₃) ?_
  intro a avail₄ σ₄ inv₄ evo₄ aOk
  refine Runs.bind inv₄ (integer_runs inv₄ 0) ?_
  intro nought avail₅ σ₅ inv₅ evo₅ noughtOk
  refine Runs.bind inv₅ (binary_runs inv₅ _ (aOk.evo evo₅) noughtOk) ?_
  intro cond avail₀ σ₀ inv₀ evo₀ condOk
  have slotOk := (((slotOk.evo evo₂).evo evo₃).evo evo₄ |>.evo evo₅).evo evo₀
  -- From here on moments are compared with the one at which the two blocks are made.
  refine Ends.bind (newBlock_waits inv₀) ?_
  rintro rhs σ₁ ⟨avail₁, waits⟩
  refine Ends.bind (waits.fork inv₀) ?_
  rintro join σ₂ ⟨avail₂, fork⟩
  refine Ends.of_eq ((bind_ok (make_eq rfl)).trans (bind_ok (sealTo_made fork.inv.takes _ rhs))) ?_
  obtain ⟨inv₃, since₃, joinPending⟩ := fork.taken inv₀ (condOk.evo fork.since)
  refine RunsFrom.bind inv₀ since₃ (r.runs inv₃) ?_
  intro b avail₄ σ₄ inv₄ evo₄ since₄ bOk
  refine RunsFrom.bind inv₀ since₄ (integer_runs inv₄ 0) ?_
  intro nought avail₅ σ₅ inv₅ evo₅ since₅ noughtOk
  refine RunsFrom.bind inv₀ since₅ (binary_runs inv₅ .ne (bOk.evo evo₅) noughtOk) ?_
  intro norm avail₆ σ₆ inv₆ evo₆ since₆ normOk
  refine RunsFrom.bind inv₀ since₆ (store_runs inv₆ normOk (slotOk.evo since₆)) ?_
  intro _ avail₇ σ₇ inv₇ evo₇ since₇ _
  have joinPending := (((joinPending.evo inv₃ evo₄).evo inv₄ evo₅).evo inv₅ evo₆).evo inv₆ evo₇
  refine Ends.of_eq ((bind_ok (make_eq rfl)).trans (bind_ok (sealTo_made inv₇.takes _ join))) ?_
  obtain ⟨-, inv₈, since₈⟩ := inv₀.joined inv₇ since₇ joinPending fork.lastNew
  exact (load_runs inv₈ (slotOk.evo since₈) (by simp)).since inv₀ since₈

/-! ## Expressions -/

theorem foldOr_eq (e : Expr) (run : Unit → Lower ValueId) (σ : State) :
    foldOr e run σ = (match Const.eval σ.symbols.env e with
      | .ok v => integer v
      | .error .notConstant => run ()
      | .error f => throw f : Lower ValueId) σ := rfl

theorem foldOr_runs {e : Expr} {run : Unit → Lower ValueId} (inv : Inv c avail σ)
    (h : Runs .expr c avail σ (run ()) fun v avail' σ' => Operand avail' σ' v .i32) :
    Runs .expr c avail σ (foldOr e run) fun v avail' σ' => Operand avail' σ' v .i32 := by
  refine Ends.of_eq (foldOr_eq e run σ) ?_
  split
  · exact integer_runs inv _
  · exact h
  · rename_i f _ failed
    exact Runs.throw inv ((Const.eval_plain _ _).expected.failure failed)

/-- A way to lower an expression, given what its instructions would be. -/
abbrev Folding := Expr → (Unit → Lower ValueId) → Lower ValueId

section Folding

variable (fold : Folding)

mutual

/-- Compute an expression, with `fold` in charge at every node. -/
def exprBy : Expr → Lower ValueId
  | .lit s v => fold (.lit s v) fun _ => integer v
  | .group s inner => fold (.group s inner) fun _ => exprBy inner
  | .ident s name => fold (.ident s name) fun _ => do (← startPlace (.ident s name)).read
  | .index s target idx => fold (.index s target idx) fun _ => do
    let p ← walkBy target (← startPlace (.index s target idx))
    (← subscript p idx (exprBy idx)).read
  | .unary s op e => fold (.unary s op e) fun _ => do applyUnary op (← exprBy e)
  | .binary s op l r => fold (.binary s op l r) fun _ =>
    if op.isShortCircuit then shortCircuit (op == .logicalOr) (exprBy l) (exprBy r)
    else applyBinary s op (exprBy l) (exprBy r)
  | .call s name ns as => fold (.call s name ns as) fun _ => do
    let (v, f) ← callFn s name ns as.length (argsBy as)
    if f.type = .void then
      raise (.typeMismatch s s!"void function '{f.name}' used as a value")
    return v
  | .bare s kind => fold (.bare s kind) fun _ =>
    if Expr.lacksContents kind then throw (.fault none)
    else raise (.internal s s!"unexpected expression kind {kind}")
  | .missing id => fold (.missing id) fun _ => do
    raise (.internal (← get).frame.span s!"unknown expression {id}")

/-- Apply the subscripts of a place in order. -/
def walkBy : Expr → Place → Lower Place
  | .group _ inner, p => walkBy inner p
  | .index _ target idx, p => do subscript (← walkBy target p) idx (exprBy idx)
  | _, p => return p

/-- Compute arguments for parameters of the given types. -/
def argsBy : List Expr → List Ty → Lower (List ValueId)
  | e :: es, t :: ts => do
    let v ← match t with
      | .pointer _ => arrayArg e t (walkBy e)
      | _ => exprBy e
    return v :: (← argsBy es ts)
  | _, _ => return []

end

end Folding

mutual

/-- Constants are folded at every node. -/
theorem expr_eq : (e : Expr) → expr e = exprBy foldOr e
  | .lit .. | .ident .. | .bare .. | .missing _ => by rw [expr, exprBy]
  | .group s inner => by rw [expr, exprBy, expr_eq inner]
  | .index s target idx => by
    have walks : walk target = walkBy foldOr target := funext (walk_eq target)
    rw [expr, exprBy, walks, expr_eq idx]
  | .unary s op e => by rw [expr, exprBy, expr_eq e]
  | .binary s op l r => by rw [expr, exprBy, expr_eq l, expr_eq r]
  | .call s name ns as => by
    have computed : args as = argsBy foldOr as := funext (args_eq as)
    rw [expr, exprBy, computed]

theorem walk_eq : (e : Expr) → (p : Place) → walk e p = walkBy foldOr e p
  | .group s inner, p => by rw [walk, walkBy, walk_eq inner]
  | .index s target idx, p => by rw [walk, walkBy, walk_eq target, expr_eq idx]
  | .lit .., _ | .ident .., _ | .unary .., _ | .binary .., _ | .call .., _ | .bare .., _
  | .missing _, _ => by
    rw [walk, walkBy]
    all_goals simp

theorem args_eq : (es : List Expr) → (ts : List Ty) → args es ts = argsBy foldOr es ts
  | e :: es, t :: ts => by
    have walks : walk e = walkBy foldOr e := funext (walk_eq e)
    cases t <;> simp only [args, argsBy, walks, expr_eq e, args_eq es ts]
  | [], _ => by
    rw [args, argsBy]
    all_goals simp
  | _ :: _, [] => by
    rw [args, argsBy]
    all_goals simp

end

/-- A way to lower expressions that keeps the invariant. -/
structure Folds (c : Site) (fold : Folding) : Prop where
  computes : ∀ {e run}, Computes c (run ()) → Computes c (fold e run)

section Folds

variable {fold : Folding}

mutual

/-- A whole expression computes an integer. -/
theorem exprBy_computes (folds : Folds c fold) : (e : Expr) → e.Whole → Computes c (exprBy fold e)
  | .lit s v, _ => by
    rw [exprBy]
    exact folds.computes ⟨fun inv => integer_runs inv v⟩
  | .group s inner, whole => by
    rw [exprBy]
    exact folds.computes (exprBy_computes folds inner whole)
  | .ident s name, _ => by
    rw [exprBy]
    refine folds.computes ⟨fun inv => Runs.bind inv (startPlace_runs inv _) ?_⟩
    rintro p avail₁ σ₁ inv₁ evo₁ ⟨ok, -⟩
    exact read_runs inv₁ ok
  | .index s target idx, whole => by
    rw [exprBy]
    refine folds.computes ⟨fun inv => Runs.bind inv (startPlace_runs inv _) ?_⟩
    rintro p₀ avail₁ σ₁ inv₁ evo₁ ⟨ok₀, -⟩
    refine Runs.bind inv₁ (walkBy_runs folds target whole.1 inv₁ ok₀) ?_
    rintro p avail₂ σ₂ inv₂ evo₂ ⟨ok, -⟩
    refine Runs.bind inv₂ (subscript_runs inv₂ ok (exprBy_computes folds idx whole.2)) ?_
    rintro q avail₃ σ₃ inv₃ evo₃ ⟨ok', -⟩
    exact read_runs inv₃ ok'
  | .unary s op e, whole => by
    rw [exprBy]
    refine folds.computes ⟨fun inv =>
      Runs.bind inv ((exprBy_computes folds e whole.2).runs inv) ?_⟩
    intro v avail₁ σ₁ inv₁ evo₁ ok
    exact applyUnary_runs inv₁ ok
  | .binary s op l r, ⟨known, left, right⟩ => by
    rw [exprBy]
    refine folds.computes ?_
    split
    · exact shortCircuit_computes (exprBy_computes folds l left) (exprBy_computes folds r right)
    · rename_i plain
      exact applyBinary_computes known (by simpa using plain) (exprBy_computes folds l left)
        (exprBy_computes folds r right)
  | .call s name ns as, whole => by
    rw [exprBy]
    refine folds.computes ⟨fun inv => ?_⟩
    refine Runs.bind inv (callFn_runs inv fun solid length =>
      argsBy_runs folds as whole solid length inv) ?_
    rintro ⟨v, f⟩ avail₁ σ₁ inv₁ evo₁ ok
    refine Runs.guard inv₁ (fun _ => Runs.raise inv₁ .typeMismatch rfl (by decide)) fun notVoid => ?_
    exact Runs.pure inv₁ (ok notVoid)
  | .bare .., whole => whole.elim
  | .missing _, whole => whole.elim

/-- Applying the subscripts of a place leads to a place of the same symbol. -/
theorem walkBy_runs (folds : Folds c fold) : (e : Expr) → e.Whole → ∀ {avail σ p},
    Inv c avail σ → PlaceOk avail σ p → Runs .expr c avail σ (walkBy fold e p)
      fun q avail' σ' => PlaceOk avail' σ' q ∧ q.symbol = p.symbol
  | .group s inner, whole, _, _, _, inv, ok => by
    rw [walkBy]
    exact walkBy_runs folds inner whole inv ok
  | .index s target idx, whole, _, _, _, inv, ok => by
    rw [walkBy]
    refine Runs.bind inv (walkBy_runs folds target whole.1 inv ok) ?_
    rintro q avail₁ σ₁ inv₁ evo₁ ⟨ok', same⟩
    refine (subscript_runs inv₁ ok' (exprBy_computes folds idx whole.2)).mono ?_
    rintro q' _ _ _ _ ⟨ok'', same'⟩
    exact ⟨ok'', same'.trans same⟩
  | .lit .., _, _, _, _, inv, ok | .ident .., _, _, _, _, inv, ok | .unary .., _, _, _, _, inv, ok
  | .binary .., _, _, _, _, inv, ok | .call .., _, _, _, _, inv, ok => by
    rw [walkBy]
    · exact Runs.pure inv ⟨ok, rfl⟩
    all_goals simp
  | .bare .., whole, _, _, _, _, _ => whole.elim
  | .missing _, whole, _, _, _, _, _ => whole.elim

/-- Arguments have the types of the parameters. -/
theorem argsBy_runs (folds : Folds c fold) : (es : List Expr) → Expr.AllWhole es →
    ∀ {params : List Ty}, (∀ t ∈ params, t = .int ∨ ∃ ds, t = .pointer ds ∧ Bounds ds) →
    params.length = es.length → ∀ {avail σ}, Inv c avail σ →
    Runs .expr c avail σ (argsBy fold es params) fun vs avail' σ' =>
      List.Forall₂ (Operand avail' σ') vs (params.map Ty.koopa)
  | [], _, [], _, _, _, _, inv => by
    rw [argsBy]
    · exact Runs.pure inv .nil
    · simp
  | e :: es, whole, t :: ts, solid, length, avail, σ, inv => by
    have rest : ∀ {avail₁ σ₁ v}, Inv c avail₁ σ₁ → Operand avail₁ σ₁ v t.koopa →
        Runs .expr c avail₁ σ₁ (do return v :: (← argsBy fold es ts)) fun vs avail' σ' =>
          List.Forall₂ (Operand avail' σ') vs ((t :: ts).map Ty.koopa) := by
      intro avail₁ σ₁ v inv₁ ok
      refine Runs.bind inv₁ (argsBy_runs folds es whole.2 (fun t ht => solid t (by simp [ht]))
        (by simpa using length) inv₁) ?_
      intro vs avail₂ σ₂ inv₂ evo₂ oks
      exact Runs.pure inv₂ (.cons (ok.evo evo₂) oks)
    rcases solid t (by simp) with rfl | ⟨ds, rfl, bounds⟩
    · rw [argsBy]
      · exact Runs.bind inv ((exprBy_computes folds e whole.1).runs inv)
          fun v _ _ inv₁ _ ok => rest inv₁ ok
      · simp
    · rw [argsBy]
      exact Runs.bind inv (arrayArg_runs bounds inv
        fun inv ok => walkBy_runs folds e whole.1 inv ok) fun v _ _ inv₁ _ ok => rest inv₁ ok

end

end Folds

/-- Folding constants keeps the invariant. -/
theorem foldOr_folds : Folds c foldOr := ⟨fun h => ⟨fun inv => foldOr_runs inv (h.runs inv)⟩⟩

theorem expr_computes (e : Expr) (whole : e.Whole) : Computes c (expr e) := by
  rw [expr_eq]
  exact exprBy_computes foldOr_folds e whole

theorem walk_runs (e : Expr) (whole : e.Whole) {p : Place} (inv : Inv c avail σ)
    (ok : PlaceOk avail σ p) : Runs .expr c avail σ (walk e p) fun q avail' σ' =>
      PlaceOk avail' σ' q ∧ q.symbol = p.symbol := by
  rw [walk_eq]
  exact walkBy_runs foldOr_folds e whole inv ok

theorem args_runs (es : List Expr) (whole : Expr.AllWhole es) {params : List Ty}
    (solid : ∀ t ∈ params, t = .int ∨ ∃ ds, t = .pointer ds ∧ Bounds ds)
    (length : params.length = es.length) (inv : Inv c avail σ) :
    Runs .expr c avail σ (args es params) fun vs avail' σ' =>
      List.Forall₂ (Operand avail' σ') vs (params.map Ty.koopa) := by
  rw [args_eq]
  exact argsBy_runs foldOr_folds es whole solid length inv

theorem stripGroups_whole {e : Expr} (whole : e.Whole) : e.stripGroups.Whole := by
  induction e using Expr.stripGroups.induct with
  | case1 s inner ih =>
    rw [Expr.stripGroups]
    exact ih whole
  | case2 e notGroup =>
    rw [Expr.stripGroups]
    · exact whole
    · exact notGroup

theorem effect_runs {e : Expr} (whole : e.Whole) (inv : Inv c avail σ) :
    Runs .expr c avail σ (effect e) fun _ _ _ => True := by
  have inner := stripGroups_whole whole
  unfold effect
  split
  · rename_i s name ns as call
    rw [call] at inner
    refine Runs.bind inv (callFn_runs inv fun solid length => args_runs as inner solid length inv) ?_
    intro _ avail₁ σ₁ inv₁ _ _
    exact Runs.pure inv₁ trivial
  · refine Runs.bind inv ((expr_computes e whole).runs inv) ?_
    intro _ avail₁ σ₁ inv₁ _ _
    exact Runs.pure inv₁ trivial

end SysY.Lower

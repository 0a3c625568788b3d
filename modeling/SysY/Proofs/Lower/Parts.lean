import SysY.Lower.Stmt
import SysY.Proofs.Failure

/-! # Operations in parts

The rest of an operation after a choice that it makes has a name here, so that what holds of the
rest is said once and not for each way to get there. -/

namespace SysY.Lower

open Koopa (ValueId BlockId)

/-! ## Declarations -/

/-- The initializer of a global variable. -/
def initializer (ty : Ty) (data : List Int32) : Lower ValueId :=
  if data.all (· == 0) then do
    let t ← lift ty.toKoopa
    makeGlobal fun p => return p.zeroInit none t
  else aggregate ty.dims data

/-- The global variable for an initializer. -/
def namedGlobal (name : String) (init : ValueId) : Lower ValueId := do
  let v ← makeGlobal (·.globalAlloc init)
  setProgram (← lift ((← get).program.setGlobalName v ("@" ++ name)))
  return v

theorem globalVariable_eq (name : String) (ty : Ty) (data : List Int32) :
    globalVariable name ty data = initializer ty data >>= namedGlobal name := by
  unfold globalVariable initializer
  split
  · simp only [bind_assoc]
    rfl
  · rfl

/-- The symbol of a global variable with the given elements. -/
def variableSymbol (d : Def) (ty : Ty) (data : List Int32) : Lower Symbol := do
  let slot ← globalVariable d.name ty data
  return { name := d.name, span := d.nameSpan, type := ty, meaning := .variable slot }

/-- The operand for an element of an initializer. -/
def element : Option ValueId → Lower ValueId
  | some v => pure v
  | none => integer 0

/-- Store an element of an array, and the elements after it. -/
def filling (slot : ValueId) (dims : List Int) (index : Nat) (es : List (Option ValueId))
    (v : ValueId) : Lower Unit := do
  let ptr ← elementPtr slot (Const.count dims) index dims
  let _ ← tryEmitNew (·.store · v ptr)
  storeElements slot dims (index + 1) es

theorem storeElements_cons (slot : ValueId) (dims : List Int) (index : Nat) (e : Option ValueId)
    (es : List (Option ValueId)) : storeElements slot dims index (e :: es) = (do
      filling slot dims index es (← element e)) := by
  cases e <;> rfl

/-! ## Assignments -/

/-- Store the value of an expression in a place, which has the given name in the source. -/
def storing (named : Expr.Place) (value : Expr) (p : Place) : Lower Unit := do
  if !p.type.isScalar then
    raise (.typeMismatch p.span s!"cannot assign to array '{named.name}'")
  let v ← expr value
  let addr ← p.address
  let _ ← tryEmitNew (·.store · v addr)

/-- Assign to a target that is not a constant. -/
def assigning (target value : Expr) (named : Expr.Place) : Lower Unit := do
  storing named value (← walk target (← startPlace target))

/-- An assignment that succeeds was not one to a constant. -/
theorem assign_eq_ok {target value : Expr} {σ τ : State} (ran : assign target value σ = .ok () τ) :
    ∃ named σ₁ s σ₂, asPlace target "expression is not assignable" σ = .ok named σ₁ ∧
      findObject named.2.name named.2.nameSpan σ₁ = .ok s σ₂ ∧
      (∀ v slot, s.meaning ≠ .constant v slot) ∧ assigning target value named.2 σ₂ = .ok () τ := by
  obtain ⟨named, σ₁, isPlace, ran⟩ := bind_eq_ok.mp ran
  obtain ⟨s, σ₂, found, ran⟩ := bind_eq_ok.mp ran
  refine ⟨named, σ₁, s, σ₂, isPlace, found, ?_⟩
  cases meaning : s.meaning with
  | constant v slot =>
    simp only [meaning] at ran
    cases ran
  | «variable» | function =>
    simp only [meaning] at ran
    exact ⟨nofun, ran⟩

/-! ## Conditionals and loops -/

/-- Go on in a block, or stay without one. -/
def goTo (b : BlockId) (reachable : Bool) : Lower Unit :=
  if reachable then switchTo b else pure ()

/-- Jump if the current block is open, and tell whether it was. -/
def leaveTo (b : BlockId) : Lower Bool := do
  if ← isOpen then
    jump b
    return true
  else return false

theorem arm_eq (reachable : Bool) (block join : BlockId) (body : Lower Unit) :
    arm reachable block join body = (do
      goTo block reachable
      body
      leaveTo join) := by
  cases reachable <;> rfl

/-- What is lowered for a conditional after its condition. -/
def branching (reachable : Bool) (c : ValueId) (thenArm : Lower Unit) (elseArm : Option (Lower Unit)) :
    Lower Unit := do
  let thenBlock ← newBlock
  match elseArm with
  | none =>
    let join ← newBlock
    sealOff (← make (·.branch · c thenBlock join))
    let joined ← arm reachable thenBlock join thenArm
    if reachable || joined then switchTo join
  | some other =>
    let elseBlock ← newBlock
    let join ← newBlock
    sealOff (← make (·.branch · c thenBlock elseBlock))
    let joined₁ ← arm reachable thenBlock join thenArm
    let joined₂ ← arm reachable elseBlock join other
    if joined₁ || joined₂ then switchTo join

theorem conditional_eq (cond : Expr) (thenArm : Lower Unit) (elseArm : Option (Lower Unit)) :
    conditional cond thenArm elseArm = (do
      let reachable ← isOpen
      let c ← expr cond
      branching reachable c thenArm elseArm) := rfl

/-- What is lowered for a loop after its condition. -/
def circling (body : Lower Unit) (reachable : Bool) (c : ValueId)
    (condBlock bodyBlock done : BlockId) : Lower Unit := do
  sealOff (← make (·.branch · c bodyBlock done))
  goTo bodyBlock reachable
  inLoop ⟨condBlock, done⟩ body
  let _ ← leaveTo condBlock
  goTo done reachable

theorem loop_eq (cond : Expr) (body : Lower Unit) : loop cond body = (do
    let reachable ← isOpen
    let condBlock ← newBlock
    let bodyBlock ← newBlock
    let done ← newBlock
    sealTo (← make (·.jump · condBlock)) condBlock
    let c ← expr cond
    circling body reachable c condBlock bodyBlock done) := by
  have leave : ∀ (b : BlockId) (next : Lower Unit),
      (do
        if ← isOpen then jump b
        next) = (leaveTo b >>= fun _ => next) := by
    intro b next
    funext ρ
    have first : isOpen ρ = .ok ρ.frame.isOpen ρ := rfl
    unfold leaveTo
    rw [bind_ok first, bind_assoc, bind_ok first]
    cases ρ.frame.isOpen with
    | false => rfl
    | true => rw [if_pos rfl, if_pos rfl, bind_assoc]; rfl
  unfold loop circling
  simp only [leave]
  refine bind_congr fun reachable => ?_
  cases reachable <;> rfl

end SysY.Lower

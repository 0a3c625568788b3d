import SysY.Proofs.Lower.Balance
import SysY.Proofs.Lower.Moments

/-! # Parts that are lowered to their ends

Lowering stops at the first error. So when a unit is accepted, every part that lowering gets to was
lowered to its end, and all that was made for the part is in the program of the unit. -/

namespace SysY.Lower

open Koopa (ValueId BlockId FnId)
open Source (Span)

variable {α β : Type} {σ σ' τ : State} {part part' : Part}

/-! ### What comes before a part -/

theorem allotting_kept (d : Def) : Kept (allotting d) :=
  bind_keeps env_kept fun _ => bind_keeps (lift_keeps _) fun _ => bind_keeps (lift_keeps _) fun _ =>
    bind_keeps (alloc_kept _) fun _ => bind_keeps (setName_kept _ _) fun _ => pure_keeps _

theorem aiming_kept (target : Expr) : Kept (aiming target) := by
  refine bind_keeps (asPlace_kept _ _) fun named => bind_keeps (findObject_kept _ _) fun s => ?_
  simp only
  split
  · exact bind_keeps (raise_keeps _) fun _ => startPlace_kept target
  · exact startPlace_kept target

theorem testing_kept (cond : Expr) : Kept (testing cond) :=
  bind_keeps isOpen_kept fun _ => bind_keeps (expr_kept cond) fun _ => bind_keeps newBlock_kept
    fun _ => bind_keeps newBlock_kept fun _ => bind_keeps (make_kept fun _ _ => rfl) fun _ =>
      bind_keeps (sealOff_kept _) fun _ => ite_keeps (fun _ => switchTo_kept _) fun _ => pure_keeps _

theorem forking_kept (cond : Expr) : Kept (forking cond) :=
  bind_keeps isOpen_kept fun _ => bind_keeps (expr_kept cond) fun _ => bind_keeps newBlock_kept
    fun _ => bind_keeps newBlock_kept fun _ => bind_keeps newBlock_kept fun _ =>
      bind_keeps (make_kept fun _ _ => rfl) fun _ => bind_keeps (sealOff_kept _) fun _ => pure_keeps _

theorem looping_kept : Kept looping :=
  bind_keeps newBlock_kept fun _ => bind_keeps newBlock_kept fun _ => bind_keeps newBlock_kept
    fun _ => bind_keeps (make_kept fun _ _ => rfl) fun _ => bind_keeps (sealTo_kept _ _) fun _ =>
      pure_keeps _

theorem presetting_kept (isOr : Bool) : Kept (presetting isOr) :=
  bind_keeps (alloc_kept _) fun _ => bind_keeps (integer_kept _) fun _ =>
    bind_keeps (store_kept _ _) fun _ => pure_keeps _

theorem deciding_kept (isOr : Bool) {left : Lower ValueId} (kept : Kept left) :
    Kept (deciding isOr left) :=
  bind_keeps (presetting_kept _) fun _ => bind_keeps kept fun _ => bind_keeps (integer_kept 0)
    fun _ => bind_keeps (binary_kept _ _ _) fun _ => bind_keeps newBlock_kept fun _ =>
      bind_keeps newBlock_kept fun _ => bind_keeps (make_kept fun _ _ => rfl) fun _ =>
        sealTo_kept _ _

/-- The blocks of a loop are made before its body, and the body is inside of the loop. -/
theorem repeating_enters {cond : Expr} (ran : repeating cond σ = .ok () σ') :
    ∃ condBlock bodyBlock done σ₁ σ₂, looping σ = .ok (condBlock, bodyBlock, done) σ₁ ∧
      Stays σ σ₂ ∧ σ' = σ₂.looping ⟨condBlock, done⟩ := by
  have asked : isOpen σ = .ok σ.frame.isOpen σ := rfl
  rw [repeating, bind_ok asked] at ran
  obtain ⟨⟨condBlock, bodyBlock, done⟩, σ₁, made, ran⟩ := bind_eq_ok.mp ran
  obtain ⟨c, σ₂, tested, ran⟩ := bind_eq_ok.mp ran
  obtain ⟨branch, σ₃, branched, ran⟩ := bind_eq_ok.mp ran
  obtain ⟨_, σ₄, ended, ran⟩ := bind_eq_ok.mp ran
  have branch_kept : Kept (make (·.branch · c bodyBlock done)) := make_kept fun _ _ => rfl
  have stays : Stays σ σ₄ :=
    trans_of Stays (looping_kept.ok made) <| trans_of Stays ((expr_kept cond).ok tested) <|
      trans_of Stays (branch_kept.ok branched) ((sealOff_kept branch).ok ended)
  split at ran
  · obtain ⟨_, σ₅, switched, pushed⟩ := bind_eq_ok.mp ran
    cases pushed
    exact ⟨condBlock, bodyBlock, done, σ₁, σ₅, made,
      trans_of Stays stays ((switchTo_kept bodyBlock).ok switched), rfl⟩
  · cases ran
    exact ⟨condBlock, bodyBlock, done, σ₁, σ₄, made, stays, rfl⟩

/-! ## From one part to another -/

/-- Within a function, what comes before a part leaves scopes and loops as they were, unless the
part belongs to a block or is the body of a loop. -/
theorem Leads.keeps (leads : Leads part σ part' σ') (isBody : part.InBody) :
    Stays σ σ' ∨ σ' = σ.pushed .block ∨
      ∃ span cond body, part = .stmt (.while span cond body) ∧ part' = .stmt body ∧
        repeating cond σ = .ok () σ' := by
  cases leads with
  | body => exact isBody.elim
  | nextItem => exact isBody.elim
  | loopBody ran => exact .inr (.inr ⟨_, _, _, rfl, rfl, ran⟩)
  | block => exact .inr (.inl rfl)
  | firstStmt | decl | firstElement | effectCall | effect | condition | returned | group
  | operand | left | call | walkGroup | walkTarget | arrayIndex | numberArg =>
    exact .inl (refl_of Stays _)
  | nextStmts ran => exact .inl ((stmt_kept _).ok ran)
  | scalarInit _ ran => exact .inl ((allotting_kept _).ok ran)
  | arrayInit _ ran => exact .inl ((allotting_kept _).ok ran)
  | nextConst ran => exact .inl ((localConstant_kept _).ok ran)
  | nextVar ran => exact .inl ((localVariable_kept _).ok ran)
  | nextElements ran => exact .inl ((expr_kept _).ok ran)
  | target ran => exact .inl ((aiming_kept _).ok ran)
  | value ran => exact .inl ((bind_keeps (aiming_kept _) fun _ => walk_kept _ _).ok ran)
  | onlyArm ran => exact .inl ((testing_kept _).ok ran)
  | thenArm ran =>
    exact .inl ((bind_keeps (forking_kept _) fun _ =>
      ite_keeps (fun _ => switchTo_kept _) fun _ => pure_keeps _).ok ran)
  | elseArm ran =>
    exact .inl ((bind_keeps (forking_kept _) fun _ => bind_keeps (arm_kept _ _ _ (stmt_kept _))
      fun _ => ite_keeps (fun _ => switchTo_kept _) fun _ => pure_keeps _).ok ran)
  | loopCondition ran => exact .inl (looping_kept.ok ran)
  | place _ ran => exact .inl ((startPlace_kept _).ok ran)
  | lastSubscript _ ran =>
    exact .inl ((bind_keeps (startPlace_kept _) fun _ => walk_kept _ _).ok ran)
  | decisive _ _ ran => exact .inl ((presetting_kept _).ok ran)
  | undecided _ _ ran => exact .inl ((deciding_kept _ (expr_kept _)).ok ran)
  | right _ _ ran => exact .inl ((expr_kept _).ok ran)
  | walkSubscript ran => exact .inl ((walk_kept _ _).ok ran)
  | pointerIndex _ ran => exact .inl ((load_kept _).ok ran)
  | arrayArg ran => exact .inl ((startPlace_kept _).ok ran)
  | nextArgs ran =>
    refine .inl (Keeps.ok (R := Stays) ?_ ran)
    split
    · exact arrayArg_kept _ _ (walk_kept _)
    · exact expr_kept _

/-! ## Computations that end -/

/-- From `σ` on, a computation succeeds, and what it makes is still in the program of `τ`. -/
def Completes (m : Lower α) (σ τ : State) : Prop :=
  ∃ a σ', m σ = .ok a σ' ∧ σ'.program.Grows τ.program

section Completes

variable {m : Lower α} {rest : α → Lower β} {a : α} {b : β}

theorem Completes.of_ok (ran : m σ = .ok a τ) : Completes m σ τ := ⟨a, τ, ran, .refl _⟩

/-- What came first succeeded. -/
theorem Completes.of_bind (ran : (m >>= rest) σ = .ok b τ) (kept : ∀ a, Kept (rest a)) :
    Completes m σ τ := by
  obtain ⟨a, σ', first, later⟩ := bind_eq_ok.mp ran
  exact ⟨a, σ', first, ((kept a).ok later).program⟩

/-- What came next succeeded as well. -/
theorem Completes.of_next {γ : Type} {n : Lower γ} {f : α → Lower γ} {c : γ}
    (ran : (m >>= f) σ = .ok c τ) (first : m σ = .ok a σ') (eq : f a = n) : Completes n σ' τ := by
  subst eq
  exact .of_ok ((bind_ok first).symm.trans ran)

theorem Completes.grows {τ' : State} (completes : Completes m σ τ)
    (grows : τ.program.Grows τ'.program) : Completes m σ τ' := by
  obtain ⟨a, σ', ran, grows'⟩ := completes
  exact ⟨a, σ', ran, grows'.trans grows⟩

theorem Completes.drop (completes : Completes m σ τ) : Completes (do let _ ← m) σ τ := by
  obtain ⟨a, σ', ran, grows⟩ := completes
  exact ⟨(), σ', bind_ok ran, grows⟩

theorem Completes.map {f : α → β} (completes : Completes (f <$> m) σ τ) : Completes m σ τ := by
  obtain ⟨b, σ', ran, grows⟩ := completes
  obtain ⟨a, σ₁, ran, done⟩ := bind_eq_ok.mp ran
  cases done
  exact ⟨a, _, ran, grows⟩

theorem andFinally_completes {done : State → Outcome State}
    (same : ∀ {s s'}, done s = .ok s' → s'.program = s.program)
    (ran : andFinally m done σ = .ok a τ) : Completes m σ τ := by
  unfold andFinally at ran
  cases ended : m σ with
  | ok a' s =>
    rw [ended] at ran
    cases left : done s with
    | ok s' =>
      simp only [left] at ran
      cases ran
      exact ⟨_, s, ended, same left ▸ .refl _⟩
    | error e =>
      simp only [left] at ran
      cases ran
  | error e s =>
    rw [ended] at ran
    cases left : done s with
    | ok s' =>
      simp only [left] at ran
      cases ran
    | error e =>
      simp only [left] at ran
      cases ran

theorem inScope_completes {kind : ScopeKind} (ran : inScope kind m σ = .ok a τ) :
    Completes m (σ.pushed kind) τ := by
  refine andFinally_completes (fun left => ?_) ran
  obtain ⟨t, -, left⟩ := Except.bind_eq_ok.mp left
  cases left
  rfl

theorem inLoop_completes {t : LoopTargets} (ran : inLoop t m σ = .ok a τ) :
    Completes m (σ.looping t) τ := by
  refine andFinally_completes (fun left => ?_) ran
  obtain ⟨f, -, left⟩ := Except.bind_eq_ok.mp left
  cases left
  rfl

end Completes

/-! ### Functions -/

theorem function_completes {f : Fn} {blockSpan : Span} {ss : List Stmt}
    (isBody : f.body = some (.block blockSpan ss)) (opened : opening f σ = .ok () σ')
    (ran : function f σ = .ok () τ) : Completes (stmts ss) σ' τ := by
  obtain ⟨s, σ₀, asked, ran⟩ := bind_eq_ok.mp ran
  obtain ⟨params, σ₁, resolved, ran⟩ := bind_eq_ok.mp ran
  obtain ⟨id, σ₂, headed, ran⟩ := bind_eq_ok.mp ran
  obtain ⟨_, σ₃, bound, ran⟩ := bind_eq_ok.mp ran
  simp only [isBody] at ran
  have entered : ∃ τ₁, enterBody f id (returnTy f) params (.block blockSpan ss) σ₃ = .ok () τ₁ ∧
      τ₁.program = τ.program := by
    change recordBody f.name (enterBody f id (returnTy f) params (.block blockSpan ss)) σ₃ = _ at ran
    unfold recordBody at ran
    cases ended : enterBody f id (returnTy f) params (.block blockSpan ss) σ₃ with
    | ok _ τ₁ =>
      rw [ended] at ran
      cases ran
      exact ⟨τ₁, rfl, rfl⟩
    | error e τ₁ =>
      rw [ended] at ran
      cases ran
  obtain ⟨τ₁, ran, same⟩ := entered
  obtain ⟨_, σ₄, framed, ran⟩ := bind_eq_ok.mp ran
  obtain ⟨b, σ₅, laid, ran⟩ := bind_eq_ok.mp ran
  obtain ⟨_, σ₆, switched, ran⟩ := bind_eq_ok.mp ran
  obtain ⟨_, τ₂, ran, grows⟩ := inScope_completes ran
  obtain ⟨s', σ₇, asked', ran⟩ := bind_eq_ok.mp ran
  obtain ⟨d, σ₈, found, ran⟩ := bind_eq_ok.mp ran
  obtain ⟨_, σ₉, spilled, ran⟩ := bind_eq_ok.mp ran
  have pushed : (modify fun s => { s with symbols := s.symbols.push .function } : Lower Unit) σ₆ =
      .ok () (σ₆.pushed .function) := rfl
  have start : opening f σ = .ok () σ₉ :=
    (bind_ok asked).trans <| (bind_ok resolved).trans <| (bind_ok headed).trans <|
      (bind_ok bound).trans <| (bind_ok framed).trans <| (bind_ok laid).trans <|
      (bind_ok switched).trans <| (bind_ok pushed).trans <|
      (bind_ok asked').trans <| (bind_ok found).trans spilled
  cases start.symm.trans opened
  exact ⟨(), τ₂, ran, same ▸ grows⟩

/-! ### Statements -/

theorem loop_looping (cond : Expr) (body : Lower Unit) : loop cond body = (do
    let reachable ← isOpen
    let (condBlock, bodyBlock, done) ← looping
    let c ← expr cond
    circling body reachable c condBlock bodyBlock done) := by
  simp only [loop_eq, looping, bind_assoc, pure_bind]

theorem assign_aimed {target : Expr} (value : Expr) {p : Place}
    (aimed : aiming target σ = .ok p σ') : ∃ named : Expr.Place,
      assign target value σ = (do storing named value (← walk target p)) σ' := by
  obtain ⟨⟨span, named⟩, σ₁, isPlace, aimed⟩ := bind_eq_ok.mp aimed
  obtain ⟨s, σ₂, found, aimed⟩ := bind_eq_ok.mp aimed
  refine ⟨named, (bind_ok isPlace).trans ((bind_ok found).trans ?_)⟩
  cases meaning : s.meaning with
  | constant v slot =>
    simp only [meaning] at aimed
    cases aimed
  | «variable» slot | function fn ps defined =>
    simp only [meaning] at aimed ⊢
    exact bind_ok aimed

theorem target_completes {target value : Expr} {p : Place} (aimed : aiming target σ = .ok p σ')
    (ran : assign target value σ = .ok () τ) : Completes (walk target p) σ' τ := by
  obtain ⟨named, eq⟩ := assign_aimed value aimed
  rw [eq] at ran
  exact .of_bind ran (storing_kept named value)

theorem value_completes {target value : Expr} {p : Place}
    (walked : (do walk target (← aiming target)) σ = .ok p σ') (scalar : p.type.isScalar = true)
    (ran : assign target value σ = .ok () τ) : Completes (expr value) σ' τ := by
  obtain ⟨start, σ₁, aimed, walked⟩ := bind_eq_ok.mp walked
  obtain ⟨named, eq⟩ := assign_aimed value aimed
  rw [eq, bind_ok walked] at ran
  simp only [storing, scalar, Bool.not_true, Bool.false_eq_true, if_false] at ran
  exact .of_bind ran fun _ => bind_keeps (address_kept p) fun _ =>
    bind_keeps (store_kept _ _) fun _ => pure_keeps _

/-- A call computes its arguments, and makes the instruction. -/
theorem callFn_calls (span nameSpan : Span) {name : String} {as : List Expr} {params : List Ty}
    (calls : Calls σ name as params) : ∃ s fn defined, σ.symbols.find? name = some s ∧
      s.meaning = .function fn params defined ∧
      callFn span name nameSpan as.length (args as) σ = (do
        let vs ← args as params
        return (← tryEmitNew (·.call · fn vs), s)) σ := by
  obtain ⟨s, fn, defined, found, meaning, length⟩ := calls
  refine ⟨s, fn, defined, found, meaning, ?_⟩
  rw [callFn_eq, found]
  simp only [meaning, length, ne_eq, not_true, if_false]

theorem called_completes {span nameSpan : Span} {name : String} {as : List Expr}
    {params : List Ty} (calls : Calls σ name as params)
    (completes : Completes (callFn span name nameSpan as.length (args as)) σ τ) :
    Completes (args as params) σ τ := by
  obtain ⟨s, fn, defined, -, -, eq⟩ := callFn_calls span nameSpan calls
  obtain ⟨r, σ', ran, grows⟩ := completes
  rw [eq] at ran
  exact (Completes.of_bind ran fun _ => bind_keeps (call_kept _ _) fun _ => pure_keeps _).grows grows

theorem arm_completes {reachable : Bool} {block join : BlockId} {body : Lower Unit} {b : Bool}
    (entered : goTo block reachable σ = .ok () σ') (ran : arm reachable block join body σ = .ok b τ) :
    Completes body σ' τ := by
  rw [arm_eq, bind_ok entered] at ran
  exact .of_bind ran fun _ => leaveTo_kept join

theorem condition_completes {cond : Expr} {thenArm : Lower Unit} {elseArm : Option (Lower Unit)}
    (first : Kept thenArm) (second : ∀ m ∈ elseArm, Kept m)
    (ran : conditional cond thenArm elseArm σ = .ok () τ) : Completes (expr cond) σ τ := by
  have asked : isOpen σ = .ok σ.frame.isOpen σ := rfl
  rw [conditional_eq, bind_ok asked] at ran
  exact .of_bind ran fun c => branching_kept _ c first second

theorem onlyArm_completes {cond : Expr} {thenArm : Lower Unit}
    (tested : testing cond σ = .ok () σ') (ran : conditional cond thenArm none σ = .ok () τ) :
    Completes thenArm σ' τ := by
  obtain ⟨reachable, σ₁, asked, tested⟩ := bind_eq_ok.mp tested
  obtain ⟨c, σ₂, computed, tested⟩ := bind_eq_ok.mp tested
  obtain ⟨thenBlock, σ₃, first, tested⟩ := bind_eq_ok.mp tested
  obtain ⟨join, σ₄, second, tested⟩ := bind_eq_ok.mp tested
  obtain ⟨branch, σ₅, made, tested⟩ := bind_eq_ok.mp tested
  obtain ⟨_, σ₆, ended, entered⟩ := bind_eq_ok.mp tested
  rw [conditional_eq, bind_ok asked, bind_ok computed, branching, bind_ok first] at ran
  dsimp only at ran
  rw [bind_ok second, bind_ok made, bind_ok ended] at ran
  obtain ⟨joined, σ₇, armed, rest⟩ := bind_eq_ok.mp ran
  exact (arm_completes entered armed).grows ((goTo_kept _ _).ok rest).program

/-- What comes before the arms of a conditional with `else`, and what is lowered after that. -/
theorem forking_branching {cond : Expr} {thenArm elseArm : Lower Unit}
    {thenBlock elseBlock join : BlockId} {reachable : Bool}
    (forked : forking cond σ = .ok (thenBlock, elseBlock, join, reachable) σ')
    (ran : conditional cond thenArm (some elseArm) σ = .ok () τ) : (do
      let joined₁ ← arm reachable thenBlock join thenArm
      let joined₂ ← arm reachable elseBlock join elseArm
      if joined₁ || joined₂ then switchTo join) σ' = .ok () τ := by
  obtain ⟨_, σ₁, asked, forked⟩ := bind_eq_ok.mp forked
  obtain ⟨c, σ₂, computed, forked⟩ := bind_eq_ok.mp forked
  obtain ⟨_, σ₃, first, forked⟩ := bind_eq_ok.mp forked
  obtain ⟨_, σ₄, second, forked⟩ := bind_eq_ok.mp forked
  obtain ⟨_, σ₅, third, forked⟩ := bind_eq_ok.mp forked
  obtain ⟨branch, σ₆, made, forked⟩ := bind_eq_ok.mp forked
  obtain ⟨_, σ₇, ended, forked⟩ := bind_eq_ok.mp forked
  cases forked
  rw [conditional_eq, bind_ok asked, bind_ok computed, branching, bind_ok first] at ran
  dsimp only at ran
  rw [bind_ok second, bind_ok third, bind_ok made, bind_ok ended] at ran
  exact ran

theorem thenArm_completes {cond : Expr} {thenArm elseArm : Lower Unit} (kept : Kept elseArm)
    (entered : (do
      let (thenBlock, _, _, reachable) ← forking cond
      if reachable then switchTo thenBlock) σ = .ok () σ')
    (ran : conditional cond thenArm (some elseArm) σ = .ok () τ) : Completes thenArm σ' τ := by
  obtain ⟨⟨thenBlock, elseBlock, join, reachable⟩, σ₁, forked, entered⟩ :=
    bind_eq_ok.mp entered
  obtain ⟨joined, σ₂, armed, rest⟩ := bind_eq_ok.mp (forking_branching forked ran)
  refine (arm_completes entered armed).grows (Keeps.ok (R := Stays) ?_ rest).program
  exact bind_keeps (arm_kept _ _ _ kept) fun _ => goTo_kept _ _

theorem elseArm_completes {cond : Expr} {thenArm elseArm : Lower Unit}
    (entered : (do
      let (thenBlock, elseBlock, join, reachable) ← forking cond
      let _ ← arm reachable thenBlock join thenArm
      if reachable then switchTo elseBlock) σ = .ok () σ')
    (ran : conditional cond thenArm (some elseArm) σ = .ok () τ) : Completes elseArm σ' τ := by
  obtain ⟨⟨thenBlock, elseBlock, join, reachable⟩, σ₁, forked, entered⟩ :=
    bind_eq_ok.mp entered
  obtain ⟨joined, σ₂, armed, entered⟩ := bind_eq_ok.mp entered
  have ran := forking_branching forked ran
  rw [bind_ok armed] at ran
  obtain ⟨joined', σ₃, armed', rest⟩ := bind_eq_ok.mp ran
  exact (arm_completes entered armed').grows ((goTo_kept _ _).ok rest).program

theorem loopCondition_completes {cond : Expr} {body : Lower Unit} (kept : Kept body)
    {blocks : BlockId × BlockId × BlockId} (entered : looping σ = .ok blocks σ')
    (ran : loop cond body σ = .ok () τ) : Completes (expr cond) σ' τ := by
  have asked : isOpen σ = .ok σ.frame.isOpen σ := rfl
  rw [loop_looping, bind_ok asked, bind_ok entered] at ran
  exact .of_bind ran fun c => circling_kept kept _ c _ _ _

theorem loopBody_completes {cond : Expr} {body : Lower Unit}
    (entered : repeating cond σ = .ok () σ') (ran : loop cond body σ = .ok () τ) :
    Completes body σ' τ := by
  obtain ⟨reachable, σ₁, asked, entered⟩ := bind_eq_ok.mp entered
  obtain ⟨⟨condBlock, bodyBlock, done⟩, σ₂, made, entered⟩ := bind_eq_ok.mp entered
  obtain ⟨c, σ₃, tested, entered⟩ := bind_eq_ok.mp entered
  obtain ⟨branch, σ₄, branched, entered⟩ := bind_eq_ok.mp entered
  obtain ⟨_, σ₅, ended, entered⟩ := bind_eq_ok.mp entered
  obtain ⟨σ₆, went, rfl⟩ : ∃ σ₆, goTo bodyBlock reachable σ₅ = .ok () σ₆ ∧
      σ' = σ₆.looping ⟨condBlock, done⟩ := by
    cases reachable with
    | true =>
      obtain ⟨_, σ₆, switched, pushed⟩ := bind_eq_ok.mp entered
      cases pushed
      exact ⟨σ₆, switched, rfl⟩
    | false =>
      cases entered
      exact ⟨σ₅, rfl, rfl⟩
  rw [loop_looping, bind_ok asked, bind_ok made] at ran
  dsimp only at ran
  rw [bind_ok tested, circling, bind_ok branched, bind_ok ended, bind_ok went] at ran
  obtain ⟨_, σ₇, ran, rest⟩ := bind_eq_ok.mp ran
  refine (inLoop_completes ran).grows (Keeps.ok (R := Stays) ?_ rest).program
  exact bind_keeps (leaveTo_kept _) fun _ => goTo_kept _ _

theorem returned_completes {span : Span} {e : Expr} (value : σ.frame.ret ≠ .void)
    (ran : ret span (some e) σ = .ok () τ) : Completes (expr e) σ τ := by
  have isValue : (σ.frame.ret == Ty.void) = false := by simpa using value
  have eq : ret span (some e) σ = (do
      let v ← some <$> expr e
      sealOff (← make (·.ret · v))) σ := by
    unfold ret
    simp only [get_bind, isValue]
  rw [eq] at ran
  exact (Completes.of_bind ran fun _ => bind_keeps (make_kept fun _ _ => rfl) fun _ =>
    sealOff_kept _).map

/-! ### Definitions -/

/-- What is lowered for a variable before its initializer, and what is lowered after that. -/
theorem localVariable_allotted {d : Def} {init : Init} {ty : Ty} (isInit : d.init = some init)
    (allotted : allotting d σ = .ok ty σ') (ran : localVariable d σ = .ok () τ) :
    ∃ slot, (do
      storeInit slot ty init
      declare { name := d.name, span := d.nameSpan, type := ty, meaning := .variable slot }) σ' =
        .ok () τ := by
  obtain ⟨env, σ₁, asked, allotted⟩ := bind_eq_ok.mp allotted
  obtain ⟨ty', σ₂, resolved, allotted⟩ := bind_eq_ok.mp allotted
  obtain ⟨t, σ₃, lowered, allotted⟩ := bind_eq_ok.mp allotted
  obtain ⟨slot, σ₄, made, allotted⟩ := bind_eq_ok.mp allotted
  obtain ⟨_, σ₅, named, allotted⟩ := bind_eq_ok.mp allotted
  cases allotted
  rw [localVariable, bind_ok asked, bind_ok resolved, bind_ok lowered, bind_ok made,
    bind_ok named] at ran
  simp only [isInit] at ran
  exact ⟨slot, ran⟩

theorem scalarInit_completes {d : Def} {span : Span} {e : Expr} {ty : Ty}
    (isInit : d.init = some (.expr span e)) (allotted : allotting d σ = .ok ty σ')
    (scalar : ty.isScalar = true) (ran : localVariable d σ = .ok () τ) :
    Completes (expr e) σ' τ := by
  obtain ⟨slot, ran⟩ := localVariable_allotted isInit allotted ran
  obtain ⟨_, σ₁, stored, rest⟩ := bind_eq_ok.mp ran
  unfold storeInit at stored
  rw [if_pos scalar] at stored
  exact (Completes.of_bind stored fun _ => bind_keeps (store_kept _ _) fun _ =>
    pure_keeps _).grows ((declare_kept rfl).ok rest).program

theorem arrayInit_completes {d : Def} {init : Init} {ty : Ty} {l : Const.Layout} {size : Nat}
    (isInit : d.init = some init) (allotted : allotting d σ = .ok ty σ')
    (array : ty.isScalar = false) (laidOut : Const.Layout.ofArray ty.dims init = .ok (l, size))
    (ran : localVariable d σ = .ok () τ) :
    Completes (Const.Layout.store (fun e => some <$> expr e) l.placements
      (List.replicate size none)) σ' τ := by
  obtain ⟨slot, ran⟩ := localVariable_allotted isInit allotted ran
  obtain ⟨_, σ₁, stored, rest⟩ := bind_eq_ok.mp ran
  unfold storeInit at stored
  rw [if_neg (by simp [array])] at stored
  obtain ⟨elems, σ₂, flattened, stored⟩ := bind_eq_ok.mp stored
  unfold Const.flatten at flattened
  rw [laidOut] at flattened
  refine (Completes.of_bind flattened fun out => ?_).grows ?_
  · split
    · exact throw_keeps _
    · exact pure_keeps _
  · exact ((storeElements_kept slot ty.dims 0 elems).ok stored).program.trans
      ((declare_kept rfl).ok rest).program

/-! ### Expressions -/

/-- An expression that is not constant is computed. -/
theorem foldOr_runtime {e : Expr} {run : Unit → Lower ValueId} (runtime : Runtime σ e) :
    foldOr e run σ = run () σ := by
  rw [foldOr_eq, show Const.eval σ.symbols.env e = .error .notConstant from runtime]

theorem decisive_completes {isOr : Bool} {left right : Lower ValueId} {v : ValueId}
    (second : Kept right) (preset : presetting isOr σ = .ok () σ')
    (ran : shortCircuit isOr left right σ = .ok v τ) : Completes left σ' τ := by
  obtain ⟨slot, σ₁, made, preset⟩ := bind_eq_ok.mp preset
  obtain ⟨short, σ₂, known, preset⟩ := bind_eq_ok.mp preset
  obtain ⟨_, σ₃, stored, preset⟩ := bind_eq_ok.mp preset
  cases preset
  rw [shortCircuit, bind_ok made, bind_ok known, bind_ok stored] at ran
  refine .of_bind ran fun _ => bind_keeps (integer_kept 0) fun _ => ?_
  refine bind_keeps (binary_kept _ _ _) fun _ => bind_keeps newBlock_kept fun _ => ?_
  refine bind_keeps newBlock_kept fun _ => bind_keeps (make_kept fun _ _ => rfl) fun _ => ?_
  refine bind_keeps (sealTo_kept _ _) fun _ => bind_keeps second fun _ => ?_
  exact joining_kept _ _ _

theorem undecided_completes {isOr : Bool} {left right : Lower ValueId} {v : ValueId}
    (decided : deciding isOr left σ = .ok () σ') (ran : shortCircuit isOr left right σ = .ok v τ) :
    Completes right σ' τ := by
  obtain ⟨_, σ₃, preset, decided⟩ := bind_eq_ok.mp decided
  obtain ⟨slot, σ₁, alloced, preset⟩ := bind_eq_ok.mp preset
  obtain ⟨short, σ₂, known, preset⟩ := bind_eq_ok.mp preset
  obtain ⟨_, _, stored, preset⟩ := bind_eq_ok.mp preset
  cases preset
  obtain ⟨a, σ₄, computed, decided⟩ := bind_eq_ok.mp decided
  obtain ⟨nought, σ₅, zero, decided⟩ := bind_eq_ok.mp decided
  obtain ⟨cond, σ₆, tested, decided⟩ := bind_eq_ok.mp decided
  obtain ⟨rhs, σ₇, first, decided⟩ := bind_eq_ok.mp decided
  obtain ⟨join, σ₈, second, decided⟩ := bind_eq_ok.mp decided
  obtain ⟨branch, σ₉, made, ended⟩ := bind_eq_ok.mp decided
  rw [shortCircuit, bind_ok alloced, bind_ok known, bind_ok stored, bind_ok computed, bind_ok zero,
    bind_ok tested, bind_ok first, bind_ok second, bind_ok made, bind_ok ended] at ran
  exact .of_bind ran fun _ => joining_kept _ _ _

theorem Completes.run {m : Lower α} (ran : (do let _ ← m) σ = .ok () τ) : ∃ a, m σ = .ok a τ := by
  obtain ⟨a, σ', ran, done⟩ := bind_eq_ok.mp ran
  cases done
  exact ⟨a, ran⟩

/-- What an expression that is not constant is lowered to. -/
theorem expr_computed {e : Expr} {run : Unit → Lower ValueId} (eq : expr e = foldOr e run)
    (runtime : Runtime σ e) (ran : (Part.expr e).run σ = .ok () τ) : ∃ v, run () σ = .ok v τ := by
  obtain ⟨v, ran⟩ := Completes.run ran
  rw [eq, foldOr_runtime runtime] at ran
  exact ⟨v, ran⟩

theorem place_completes {target idx : Expr} {span : Span} {p : Place} {v : ValueId}
    (started : startPlace (.index span target idx) σ = .ok p σ')
    (ran : (do
      let p ← walk target (← startPlace (.index span target idx))
      (← subscript p idx (expr idx)).read) σ = .ok v τ) : Completes (walk target p) σ' τ := by
  rw [bind_ok started] at ran
  exact .of_bind ran fun p => bind_keeps (subscript_kept p idx (expr_kept idx)) read_kept

theorem lastSubscript_completes {target idx : Expr} {span : Span} {p : Place} {v : ValueId}
    (walked : (do walk target (← startPlace (.index span target idx))) σ = .ok p σ')
    (ran : (do
      let p ← walk target (← startPlace (.index span target idx))
      (← subscript p idx (expr idx)).read) σ = .ok v τ) :
    Completes (subscript p idx (expr idx)) σ' τ := by
  obtain ⟨q, σ₁, started, walked⟩ := bind_eq_ok.mp walked
  rw [bind_ok started, bind_ok walked] at ran
  exact .of_bind ran read_kept

theorem applyBinary_rest_kept (span : Span) (op : BinaryOp) (a b : ValueId) : Kept (match opOf? op with
    | some op => emitNew (·.binary · op a b)
    | none => raise (.internal span s!"no IR operator for {op.spelling}") : Lower ValueId) := by
  split
  · exact binary_kept _ _ _
  · exact raise_keeps _

theorem arrayArg_completes {e : Expr} {want : Ty} {p : Place} {v : ValueId}
    (started : startPlace e σ = .ok p σ') (ran : arrayArg e want (walk e) σ = .ok v τ) :
    Completes (walk e p) σ' τ := by
  obtain ⟨⟨span, named⟩, σ₁, isPlace, passed⟩ := bind_eq_ok.mp ran
  obtain ⟨rfl, -⟩ := asPlace_ok isPlace
  dsimp only at passed
  rw [bind_ok started] at passed
  exact .of_bind passed fun q => passing_kept _ _ want q

/-- Every part that lowering gets to from another one ends, if that one does. -/
theorem Leads.completes (leads : Leads part σ part' σ') (ran : part.run σ = .ok () τ) :
    Completes part'.run σ' τ := by
  cases leads with
  | body isBody opened =>
    obtain ⟨_, τ₁, first, rest⟩ := bind_eq_ok.mp ran
    exact (function_completes isBody opened first).grows ((items_crosses false _).ok rest).program
  | nextItem done => exact .of_next ran done rfl
  | firstStmt => exact .of_bind ran fun _ => stmts_kept _
  | nextStmts done => exact .of_next ran done rfl
  | block => exact inScope_completes ran
  | @decl span d _ type =>
    have eq : localDecl d = d.defs.forM (if d.isConst then localConstant else localVariable) := by
      unfold localDecl
      rw [type]
    exact .of_ok ((congrFun eq σ).symm.trans ran)
  | scalarInit isInit allotted scalar =>
    obtain ⟨_, τ₁, first, rest⟩ := bind_eq_ok.mp ran
    exact ((scalarInit_completes isInit allotted scalar first).grows
      ((forM_keeps localVariable_kept _).ok rest).program).drop
  | arrayInit isInit allotted array laidOut =>
    obtain ⟨_, τ₁, first, rest⟩ := bind_eq_ok.mp ran
    exact ((arrayInit_completes isInit allotted array laidOut first).grows
      ((forM_keeps localVariable_kept _).ok rest).program).drop
  | nextConst done => exact .of_next ran done rfl
  | nextVar done => exact .of_next ran done rfl
  | firstElement =>
    obtain ⟨out, stored⟩ := Completes.run ran
    refine (Completes.of_bind stored fun v => ite_keeps (fun _ => ?_) fun _ => throw_keeps _).map.drop
    exact storeLayout_kept (fun e => map_keeps (expr_kept e)) _ _
  | nextElements done inside =>
    obtain ⟨out, stored⟩ := Completes.run ran
    exact (Completes.of_next stored (bind_ok done) (if_pos inside)).drop
  | target aimed => exact (target_completes aimed ran).drop
  | value walked scalar => exact (value_completes walked scalar ran).drop
  | @effectCall span e s name ns as params _ isCall calls =>
    have eq : Lower.effect e = (do let _ ← callFn s name ns as.length (args as)) := by
      rw [Lower.effect, isCall]
    have ran := (congrFun eq σ).symm.trans ran
    exact (called_completes calls (.of_bind ran fun _ => pure_keeps _)).drop
  | @effect span e _ notCall =>
    have eq : Lower.effect e = (do let _ ← Lower.expr e) := by
      unfold Lower.effect
      split
      · exact absurd ‹_› (notCall _ _ _ _)
      · rfl
    exact .of_ok ((congrFun eq σ).symm.trans ran)
  | @condition span cond thenArm elseArm =>
    cases elseArm with
    | none =>
      have ran : conditional cond (stmt thenArm) none σ = .ok () τ := ran
      exact (condition_completes (stmt_kept _) (by simp) ran).drop
    | some other =>
      have ran : conditional cond (stmt thenArm) (some (stmt other)) σ = .ok () τ := ran
      exact (condition_completes (stmt_kept _) (by simpa using stmt_kept other) ran).drop
  | onlyArm tested => exact onlyArm_completes tested ran
  | thenArm entered => exact thenArm_completes (stmt_kept _) entered ran
  | elseArm entered => exact elseArm_completes entered ran
  | loopCondition entered => exact (loopCondition_completes (stmt_kept _) entered ran).drop
  | loopBody entered => exact loopBody_completes entered ran
  | returned value => exact (returned_completes value ran).drop
  | group runtime =>
    obtain ⟨v, ran⟩ := expr_computed rfl runtime ran
    exact (Completes.of_ok ran).drop
  | place runtime started =>
    obtain ⟨v, ran⟩ := expr_computed rfl runtime ran
    exact (place_completes started ran).drop
  | lastSubscript runtime walked =>
    obtain ⟨v, ran⟩ := expr_computed rfl runtime ran
    exact (lastSubscript_completes walked ran).drop
  | operand runtime =>
    obtain ⟨v, ran⟩ := expr_computed rfl runtime ran
    exact (Completes.of_bind ran (applyUnary_kept _)).drop
  | decisive runtime logical preset =>
    obtain ⟨v, ran⟩ := expr_computed rfl runtime ran
    rw [if_pos logical] at ran
    exact (decisive_completes (expr_kept _) preset ran).drop
  | undecided runtime logical decided =>
    obtain ⟨v, ran⟩ := expr_computed rfl runtime ran
    rw [if_pos logical] at ran
    exact (undecided_completes decided ran).drop
  | left runtime plain =>
    obtain ⟨v, ran⟩ := expr_computed rfl runtime ran
    rw [if_neg (by simp [plain])] at ran
    exact (Completes.of_bind ran fun a => bind_keeps (expr_kept _) fun b =>
      applyBinary_rest_kept _ _ a b).drop
  | right runtime plain done =>
    obtain ⟨v, ran⟩ := expr_computed rfl runtime ran
    rw [if_neg (by simp [plain]), applyBinary, bind_ok done] at ran
    exact (Completes.of_bind ran fun b => applyBinary_rest_kept _ _ _ b).drop
  | call runtime calls =>
    obtain ⟨v, ran⟩ := expr_computed rfl runtime ran
    refine (called_completes calls (.of_bind ran fun _ => ?_)).drop
    exact guard_keeps (raise_keeps _) fun _ => pure_keeps _
  | walkGroup => exact .of_ok ran
  | walkTarget =>
    obtain ⟨q, ran⟩ := Completes.run ran
    exact (Completes.of_bind ran fun q => subscript_kept q _ (expr_kept _)).drop
  | walkSubscript done =>
    obtain ⟨q, ran⟩ := Completes.run ran
    exact (Completes.of_next ran done rfl).drop
  | arrayIndex type =>
    obtain ⟨q, ran⟩ := Completes.run ran
    unfold Lower.subscript at ran
    rw [type] at ran
    obtain ⟨base, σ₁, addressed, ran⟩ := bind_eq_ok.mp ran
    cases addressed
    exact (Completes.of_bind ran fun _ => bind_keeps (getElemPtr_kept _ _) fun _ => pure_keeps _).drop
  | pointerIndex type loaded =>
    obtain ⟨q, ran⟩ := Completes.run ran
    unfold Lower.subscript at ran
    rw [type] at ran
    have ran := (bind_ok loaded).symm.trans ran
    exact (Completes.of_bind ran fun _ => bind_keeps (getPtr_kept _ _) fun _ => pure_keeps _).drop
  | @arrayArg e es ds ts p _ _ started =>
    obtain ⟨vs, ran⟩ := Completes.run ran
    obtain ⟨v, τ₁, passed, rest⟩ := bind_eq_ok.mp ran
    have last : Kept (do return v :: (← Lower.args es ts)) :=
      bind_keeps (args_kept es ts) fun _ => pure_keeps _
    exact ((arrayArg_completes started passed).grows (last.ok rest).program).drop
  | @numberArg e es t ts _ plain =>
    obtain ⟨vs, ran⟩ := Completes.run ran
    have last : ∀ v, Kept (do return v :: (← Lower.args es ts)) := fun v =>
      bind_keeps (args_kept es ts) fun _ => pure_keeps _
    cases t with
    | pointer ds => exact absurd rfl (plain ds)
    | int | void | array ds => exact (Completes.of_bind ran last).drop
  | @nextArgs e es t ts v _ _ done =>
    obtain ⟨vs, ran⟩ := Completes.run ran
    have rest : (do return v :: (← Lower.args es ts)) σ' = .ok vs τ := by
      cases t with
      | pointer ds | int | void | array ds => exact (bind_ok done).symm.trans ran
    exact (Completes.of_bind rest fun _ => pure_keeps _).drop

/-- When a unit is accepted, every part that lowering gets to is lowered to its end, and what is made
for it stays in the program. -/
theorem Reached.completes {withLibrary : Bool} {u : CompUnit} (reached : Reached withLibrary u part σ)
    (accepted : unit withLibrary false u {} = .ok () τ) : Completes part.run σ τ := by
  induction reached with
  | @start σ begun =>
    have rest : (do
        items false u.items
        setProgram (← lift (← get).program.closeBlocks)) σ = .ok () τ := by
      cases withLibrary with
      | true => exact (bind_ok begun).symm.trans accepted
      | false =>
        cases begun
        exact accepted
    obtain ⟨_, τ₁, ran, closed⟩ := bind_eq_ok.mp rest
    exact (Completes.of_ok ran).grows (closeBlocks_passes.ok closed).program
  | step _ leads ih =>
    obtain ⟨_, τ₁, ran, grows⟩ := ih
    exact (leads.completes ran).grows grows

end SysY.Lower

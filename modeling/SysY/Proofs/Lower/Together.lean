import SysY.Proofs.Lower.Twin

/-! # Expressions and declarations of twin states

Whether an expression or a declaration is accepted does not depend on the current block. Each lemma
is about one function of lowering that is run in two twin states: both runs fail with the same
failure, or both succeed, with values of the same types. -/

namespace SysY.Lower

open Koopa (ValueId BlockId FnId)
open Source (Span)

variable {c : Site} {σ τ : State}

/-- Operations that compute integers in twin states. -/
structure Agree (c : Site) (m n : Lower ValueId) : Prop where
  runs : ∀ {σ τ}, Twin c σ τ → Together c σ τ m n fun v σ' w τ' => Both c σ' τ' v w .i32

/-! ## Single instructions -/

theorem integer_together (twin : Twin c σ τ) (n : Int32) :
    Together c σ τ (integer n) (integer n) fun v σ' w τ' => Both c σ' τ' v w .i32 :=
  .both twin (integer_adds twin.left n) (integer_adds twin.right n)

theorem load_together (twin : Twin c σ τ) {v w : ValueId} {t : Koopa.Ty}
    (src : Both c σ τ v w (.pointer t)) :
    Together c σ τ (tryEmitNew (·.load · v)) (tryEmitNew (·.load · w)) fun u σ' x τ' =>
      Both c σ' τ' u x t :=
  .both twin (load_adds twin.left src.left) (load_adds twin.right src.right)

theorem store_together (twin : Twin c σ τ) {v w v' w' : ValueId} {t : Koopa.Ty}
    (dest : Both c σ τ w w' (.pointer t)) :
    Together c σ τ (tryEmitNew (·.store · v w)) (tryEmitNew (·.store · v' w')) fun _ _ _ _ => True :=
  (Together.adds twin (store_adds twin.left dest.left) (store_adds twin.right dest.right)).mono
    fun _ _ _ => trivial

theorem getElemPtr_together (twin : Twin c σ τ) {v w v' w' : ValueId} {t : Koopa.Ty} {n : Nat}
    (src : Both c σ τ v w (.pointer (.array t n))) :
    Together c σ τ (tryEmitNew (·.getElemPtr · v v')) (tryEmitNew (·.getElemPtr · w w'))
      fun u σ' x τ' => Both c σ' τ' u x (.pointer t) :=
  .both twin (getElemPtr_adds twin.left src.left) (getElemPtr_adds twin.right src.right)

theorem binary_together (twin : Twin c σ τ) (op : Koopa.Op) (v w v' w' : ValueId) :
    Together c σ τ (emitNew (·.binary · op v w)) (emitNew (·.binary · op v' w')) fun u σ' x τ' =>
      Both c σ' τ' u x .i32 :=
  .both twin (binary_adds twin.left op v w) (binary_adds twin.right op v' w')

theorem alloc_together (twin : Twin c σ τ) (t : Koopa.Ty) :
    Together c σ τ (emitNew (·.alloc · t)) (emitNew (·.alloc · t)) fun v σ' w τ' =>
      σ'.program.Has v (some c.fn) (.pointer t) .alloc ∧
        τ'.program.Has w (some c.fn) (.pointer t) .alloc :=
  .adds twin (emitNew_adds twin.left rfl) (emitNew_adds twin.right rfl)

/-! ## Blocks -/

/-- A block that both runs made, with the same number. -/
def Common (c : Site) (σ τ : State) (b : BlockId) : Prop :=
  (∀ {d}, σ.program.fn? c.fn = some d → b ∈ d.blocks) ∧
    ∀ {d}, τ.program.fn? c.fn = some d → b ∈ d.blocks

theorem Common.onward {σ' τ' : State} {b : BlockId} (common : Common c σ τ b) (twin : Twin c σ τ)
    (onward : Onward σ τ σ' τ') : Common c σ' τ' b := by
  have keep : ∀ {ρ ρ' : State}, Fit c ρ → ρ.program.Grows ρ'.program →
      (∀ {d}, ρ.program.fn? c.fn = some d → b ∈ d.blocks) →
      ∀ {d}, ρ'.program.fn? c.fn = some d → b ∈ d.blocks := by
    intro ρ ρ' fit grows laid d found
    obtain ⟨e, here⟩ := fit.fn
    obtain ⟨e', here', later⟩ := grows.fns here
    obtain rfl := Option.some.inj (here'.symm.trans found)
    exact later.mem_blocks (laid here)
  exact ⟨keep twin.left onward.left common.1, keep twin.right onward.right common.2⟩

/-- What is known of a state after a block was made. -/
theorem Fit.newBlock (fit : Fit c σ) : ∃ d, newBlock σ =
      .ok (σ.program.blocks.size + 1) (σ.withBlock d) ∧ Fit c (σ.withBlock d) ∧
      σ.program.Grows (σ.withBlock d).program ∧
      (σ.withBlock d).program.blocks.size = σ.program.blocks.size + 1 ∧
      ∀ {e}, (σ.withBlock d).program.fn? c.fn = some e → σ.program.blocks.size + 1 ∈ e.blocks := by
  obtain ⟨d, found⟩ := fit.fn
  have fresh : d.insts? (σ.program.blocks.size + 1) = none := by
    cases here : d.insts? (σ.program.blocks.size + 1) with
    | none => rfl
    | some is => exact absurd (fit.placed found here).1 (Nat.not_succ_le_self _)
  rw [← fit.site.fn] at found
  have grows := Koopa.Program.grows_withBlock found fresh s!"%bb{σ.frame.nextBlock}"
  have size : (σ.withBlock d).program.blocks.size = σ.program.blocks.size + 1 := Array.size_push ..
  have here : ∀ {e}, (σ.withBlock d).program.fn? c.fn = some e →
      d.extend (σ.program.blocks.size + 1) = e := by
    intro e found'
    rw [← fit.site.fn] at found'
    exact Option.some.inj ((Koopa.Program.fn?_withBlock_self found _).symm.trans found')
  refine ⟨d, newBlock_eq found fresh, ?_, grows, size, ?_⟩
  · refine fit.change (r := { σ.frame with nextBlock := σ.frame.nextBlock + 1 }) grows ?_ rfl rfl rfl
      (fun isOpen => fit.laid grows isOpen)
    intro e b is found' laid
    obtain rfl := here found'
    change b ≤ (σ.withBlock d).program.blocks.size ∧ _
    rw [size]
    rcases Koopa.Fn.insts?_extend_cases fresh laid with ⟨same, rfl⟩ | old
    · exact ⟨Nat.le_of_eq same, by simp⟩
    · rw [fit.site.fn] at found
      obtain ⟨small, values⟩ := fit.placed found old
      exact ⟨Nat.le_succ_of_le small, values⟩
  · intro e found'
    obtain rfl := here found'
    rw [Koopa.Fn.blocks_extend]
    simp

theorem newBlock_together (twin : Twin c σ τ) :
    Together c σ τ newBlock newBlock fun b σ' b' τ' => b' = b ∧ Common c σ' τ' b := by
  obtain ⟨d, done, fit, grows, size, laid⟩ := twin.left.newBlock
  obtain ⟨e, done', fit', grows', size', laid'⟩ := twin.right.newBlock
  unfold Together
  rw [done, done']
  have onward : Onward σ τ (σ.withBlock d) (τ.withBlock e) := ⟨grows, grows'⟩
  refine .ok ?_ onward ⟨by rw [twin.blocks], laid, ?_⟩
  · exact {
      left := fit
      right := fit'
      symbols := twin.symbols
      nextBlock := congrArg (· + 1) twin.nextBlock
      blocks := by rw [size, size', twin.blocks]
      name := twin.name_later onward }
  · rw [← twin.blocks]
    exact laid'

theorem sealTo_together {α β : Type} {f f' : Koopa.Program → FnId → ValueId × Koopa.Program}
    {x x' : Koopa.ValueDef} {b : BlockId} {next : Unit → Lower α} {next' : Unit → Lower β}
    {Q : α → State → β → State → Prop} (twin : Twin c σ τ) (common : Common c σ τ b)
    (eq : f σ.program σ.frame.fn = σ.program.inst σ.frame.fn .unit x)
    (eq' : f' τ.program τ.frame.fn = τ.program.inst τ.frame.fn .unit x')
    (h : ∀ {σ' τ'}, Twin c σ' τ' → Onward σ τ σ' τ' →
      Together c σ' τ' (next ()) (next' ()) Q) :
    Together c σ τ (do let t ← make f; let u ← sealTo t b; next u)
      (do let t ← make f'; let u ← sealTo t b; next' u) Q := by
  have first : Together c σ τ (do sealTo (← make f) b) (do sealTo (← make f') b)
      fun _ _ _ _ => True :=
    (Together.adds twin (sealTo_adds twin.left eq common.1) (sealTo_adds twin.right eq' common.2)).mono
      fun _ _ _ => trivial
  have whole := first.bind (f := next) (g := next') fun twin' onward _ => h twin' onward
  simpa only [bind_assoc] using whole

/-! ## Places -/

/-- Two places of the same type that have addresses, or that are the same constant integer. -/
structure Place.Alike (c : Site) (σ τ : State) (p q : Place) : Prop where
  symbol : p.symbol.outline = q.symbol.outline
  type : q.type = p.type
  span : q.span = p.span
  addr : (∃ a b, p.addr = some a ∧ q.addr = some b ∧ p.type.Solid ∧
      Both c σ τ a b (.pointer p.type.koopa)) ∨
    p.addr = none ∧ q.addr = none ∧ p.type = .int ∧
      ∃ v slot, p.symbol.meaning = .constant v slot

theorem Place.Alike.onward {σ' τ' : State} {p q : Place} (alike : p.Alike c σ τ q)
    (onward : Onward σ τ σ' τ') : p.Alike c σ' τ' q := by
  refine ⟨alike.symbol, alike.type, alike.span, alike.addr.imp_left ?_⟩
  rintro ⟨a, b, ha, hb, solid, both⟩
  exact ⟨a, b, ha, hb, solid, both.onward onward⟩

/-- An array or an array parameter has an address. -/
theorem Place.Alike.address {p q : Place} (alike : p.Alike c σ τ q) (array : p.type ≠ .int) :
    p.type.Solid ∧ Both c σ τ (p.addr.getD 0) (q.addr.getD 0) (.pointer p.type.koopa) := by
  rcases alike.addr with ⟨a, b, ha, hb, solid, both⟩ | ⟨-, -, int, -⟩
  · rw [ha, hb]
    exact ⟨solid, both⟩
  · exact absurd int array

theorem findObject_together (twin : Twin c σ τ) (name : String) (span : Span) :
    Together c σ τ (findObject name span) (findObject name span) fun s σ' s' τ' =>
      σ' = σ ∧ τ' = τ ∧ s.outline = s'.outline ∧ σ.symbols.find? name = some s ∧
        τ.symbols.find? name = some s' ∧ s.isFunction = false := by
  refine .of_eq (findObject_eq name span σ) (findObject_eq name span τ) ?_
  rcases twin.find? name with ⟨missing, missing'⟩ | ⟨s, s', found, found', same⟩
  · rw [missing, missing']
    exact .raise twin rfl
  · rw [found, found']
    have function : s'.isFunction = s.isFunction := by
      rw [← s.isFunction_outline, ← s'.isFunction_outline, same]
    simp only [function]
    cases isFn : s.isFunction with
    | true => exact .raise twin rfl
    | false => exact .pure twin ⟨rfl, rfl, same, rfl, rfl, isFn⟩

theorem asPlace_together (twin : Twin c σ τ) (e : Expr) (reason : String) :
    Together c σ τ (asPlace e reason) (asPlace e reason) fun r σ' r' τ' =>
      r' = r ∧ σ' = σ ∧ τ' = τ ∧ e.place? = some r.2 := by
  unfold asPlace
  refine .guard (fun _ => .throw twin) fun _ => ?_
  split
  · exact .throw twin
  · exact .raise twin rfl
  · rename_i place
    exact .pure twin ⟨rfl, rfl, rfl, place⟩

theorem startPlace_together (twin : Twin c σ τ) (e : Expr) :
    Together c σ τ (startPlace e) (startPlace e) fun p σ' q τ' => p.Alike c σ' τ' q ∧
      ∃ named, e.place? = some named ∧ σ.symbols.find? named.name = some p.symbol := by
  unfold startPlace
  refine (asPlace_together twin e _).bind ?_
  rintro ⟨span, named⟩ _ _ _ - - ⟨rfl, rfl, rfl, isPlace⟩
  refine (findObject_together twin named.name named.nameSpan).bind ?_
  rintro s _ s' _ - - ⟨rfl, rfl, same, found, found', notFn⟩
  have type := Symbol.type_of_outline same
  have ok := twin.left.symbol found
  have ok' := twin.right.symbol found'
  unfold Symbol.Ok at ok ok'
  cases meaning : s.meaning with
  | constant v slot =>
    obtain ⟨slot', meaning'⟩ := Symbol.constant_of_outline same meaning
    rw [meaning] at ok
    rw [meaning', type] at ok'
    obtain ⟨solid, object, dims, -, number, table⟩ := ok
    obtain ⟨-, -, -, -, number', table'⟩ := ok'
    simp only [meaning']
    cases scalar : v.isScalar with
    | true =>
      cases p : named.indices.isEmpty with
      | true =>
        refine .pure twin ⟨⟨same, type, rfl, .inr ⟨rfl, rfl, ?_, v, slot, meaning⟩⟩, named,
          isPlace, found⟩
        cases isType : s.type with
        | int => rfl
        | void => rw [isType] at solid; cases solid
        | array ds =>
          rw [isType] at solid dims
          rw [Const.Value.isScalar, dims, List.isEmpty_iff] at scalar
          exact absurd scalar solid.1
        | pointer ds => rw [isType] at object; cases object
      | false => exact .raise twin rfl
    | false =>
      have array : s.type ≠ .int := by
        intro isInt
        rw [isInt] at dims
        rw [Const.Value.isScalar, dims] at scalar
        cases scalar
      obtain ⟨g, rfl, slotOk⟩ := table array
      obtain ⟨g', rfl, slotOk'⟩ := table' array
      exact .pure twin ⟨⟨same, type, rfl, .inl ⟨g, g', rfl, rfl, solid,
        slotOk.of_global.sees, slotOk'.of_global.sees⟩⟩, named, isPlace, found⟩
  | «variable» slot =>
    obtain ⟨slot', meaning'⟩ := Symbol.variable_of_outline same meaning
    rw [meaning] at ok
    rw [meaning', type] at ok'
    simp only [meaning']
    refine .pure twin ⟨⟨same, type, rfl, .inl ⟨slot, slot', ?_, ?_, ok.1, ok.2.sees, ok'.2.sees⟩⟩,
      named, isPlace, found⟩
    · simp only [Symbol.slot?, meaning]
    · simp only [Symbol.slot?, meaning']
  | function fn params defined =>
    rw [Symbol.isFunction, meaning] at notFn
    cases notFn

theorem subscript_together {p q : Place} {idx : Expr} {index index' : Lower ValueId}
    (twin : Twin c σ τ) (alike : p.Alike c σ τ q) (agree : Agree c index index') :
    Together c σ τ (subscript p idx index) (subscript q idx index') fun p' σ' q' τ' =>
      p'.Alike c σ' τ' q' ∧ p'.symbol = p.symbol := by
  unfold subscript
  rw [alike.type]
  cases type : p.type with
  | pointer ds =>
    obtain ⟨solid, both⟩ := alike.address (by simp [type])
    rw [type] at solid both
    refine (load_together twin both).bind fun twin₁ onward₁ start => ?_
    refine (agree.runs twin₁).bind fun twin₂ onward₂ _ => ?_
    have start := start.onward onward₂
    refine (Together.both twin₂ (getPtr_adds twin₂.left start.left)
      (getPtr_adds twin₂.right start.right)).bind fun twin₃ _ addr => ?_
    refine .pure twin₃ ⟨⟨alike.symbol, rfl, alike.span, .inl ⟨_, _, rfl, rfl,
      Ty.solid_arrayOf solid, ?_⟩⟩, rfl⟩
    rw [Ty.koopa_arrayOf]
    exact addr
  | array ds =>
    obtain ⟨solid, both⟩ := alike.address (by simp [type])
    rw [type] at solid both
    obtain ⟨nonempty, bounds⟩ := solid
    cases ds with
    | nil => exact absurd rfl nonempty
    | cons d ds =>
      refine (agree.runs twin).bind fun twin₁ onward₁ _ => ?_
      refine (getElemPtr_together twin₁ (both.onward onward₁)).bind fun twin₂ _ addr => ?_
      refine .pure twin₂ ⟨⟨alike.symbol, rfl, alike.span, .inl ⟨_, _, rfl, rfl,
        Ty.solid_arrayOf bounds.tail, ?_⟩⟩, rfl⟩
      rw [Ty.koopa_arrayOf]
      exact addr
  | int =>
    cases idx.span? with
    | none => exact .throw twin
    | some s => exact .raise twin rfl
  | void =>
    cases idx.span? with
    | none => exact .throw twin
    | some s => exact .raise twin rfl

theorem read_together {p q : Place} (twin : Twin c σ τ) (alike : p.Alike c σ τ q) :
    Together c σ τ p.read q.read fun v σ' w τ' => Both c σ' τ' v w .i32 := by
  unfold Place.read
  rcases alike.addr with ⟨a, b, ha, hb, -, both⟩ | ⟨ha, hb, -, v, slot, meaning⟩
  · rw [ha, hb]
    simp only [alike.type, alike.span, Symbol.name_of_outline alike.symbol]
    split
    · rename_i scalar
      rw [Ty.isScalar_iff.mp scalar] at both
      exact load_together twin both
    · exact .raise twin rfl
  · obtain ⟨slot', meaning'⟩ := Symbol.constant_of_outline alike.symbol meaning
    rw [ha, hb]
    simp only [meaning, meaning']
    exact .lift twin fun n _ => integer_together twin n

/-! ## Calls -/

theorem arrayArg_together {e : Expr} {ds : List Int} {walk walk' : Place → Lower Place}
    (bounds : Bounds ds) (twin : Twin c σ τ)
    (walks : ∀ {σ τ p q}, Twin c σ τ → p.Alike c σ τ q →
      Together c σ τ (walk p) (walk' q) fun p' σ' q' τ' => p'.Alike c σ' τ' q' ∧
        p'.symbol = p.symbol) :
    Together c σ τ (arrayArg e (.pointer ds) walk) (arrayArg e (.pointer ds) walk')
      fun _ _ _ _ => True := by
  unfold arrayArg
  refine (asPlace_together twin e _).bind ?_
  rintro ⟨span, named⟩ _ _ _ - - ⟨rfl, rfl, rfl, -⟩
  refine (startPlace_together twin e).bind ?_
  rintro p₀ σ₁ q₀ τ₁ twin₁ - ⟨alike₀, -⟩
  refine (walks twin₁ alike₀).bind ?_
  rintro p σ₂ q τ₂ twin₂ - ⟨alike, -⟩
  rcases alike.addr with ⟨a, b, ha, hb, solid, both⟩ | ⟨ha, hb, int, -⟩
  · rw [ha, hb]
    simp only [alike.type]
    have wantSolid : (Ty.pointer ds).Solid := bounds
    cases type : p.type with
    | int => exact .raise twin₂ rfl
    | void => rw [type] at solid; cases solid
    | pointer es =>
      rw [type] at solid both
      simp only [Ty.decay_eq solid, Ty.toKoopa_eq wantSolid]
      refine .lift twin₂ fun _ _ => .lift twin₂ fun _ _ => .guard (fun _ => .raise twin₂ rfl)
        fun _ => ?_
      exact (load_together twin₂ both).mono fun _ _ _ => trivial
    | array es =>
      rw [type] at solid both
      simp only [Ty.decay_eq solid, Ty.toKoopa_eq wantSolid]
      refine .lift twin₂ fun _ _ => .lift twin₂ fun _ _ => .guard (fun _ => .raise twin₂ rfl)
        fun _ => ?_
      cases es with
      | nil => exact absurd rfl solid.1
      | cons d es =>
        refine (integer_together twin₂ 0).bind fun twin₃ onward₃ _ => ?_
        exact (getElemPtr_together twin₃ (both.onward onward₃)).mono fun _ _ _ => trivial
  · rw [ha, hb]
    exact .raise twin₂ rfl

theorem callFn_together {span nameSpan : Span} {name : String} {count : Nat}
    {args args' : List Ty → Lower (List ValueId)} (twin : Twin c σ τ)
    (agree : ∀ {params}, ParamTys params → params.length = count →
      Together c σ τ (args params) (args' params) fun _ _ _ _ => True) :
    Together c σ τ (callFn span name nameSpan count args) (callFn span name nameSpan count args')
      fun r σ' r' τ' => r.2.outline = r'.2.outline ∧
        (r.2.type ≠ .void → Both c σ' τ' r.1 r'.1 .i32) := by
  refine .of_eq (callFn_eq span name nameSpan count args σ)
    (callFn_eq span name nameSpan count args' τ) ?_
  rcases twin.find? name with ⟨missing, missing'⟩ | ⟨s, s', found, found', same⟩
  · rw [missing, missing']
    exact .raise twin rfl
  · rw [found, found']
    have ok := twin.left.symbol found
    have ok' := twin.right.symbol found'
    unfold Symbol.Ok at ok ok'
    cases meaning : s.meaning with
    | function fn params defined =>
      obtain ⟨fn', meaning'⟩ := Symbol.function_of_outline same meaning
      rw [meaning] at ok
      rw [meaning', Symbol.type_of_outline same] at ok'
      obtain ⟨type, solid, d, here, ret, -⟩ := ok
      obtain ⟨-, -, d', here', ret', -⟩ := ok'
      simp only [meaning, meaning']
      refine .guard (fun _ => .raise twin rfl) fun length => ?_
      refine (agree solid (not_not.mp length).symm).bind fun {as σ₁ as' τ₁} twin₁ onward₁ _ => ?_
      obtain ⟨e, heree, later⟩ := onward₁.left.fns here
      obtain ⟨e', heree', later'⟩ := onward₁.right.fns here'
      refine (Together.adds twin₁ (call_adds twin₁.left heree)
        (call_adds twin₁.right heree')).bind ?_
      rintro v σ₂ w τ₂ twin₂ - ⟨sees, sees'⟩
      refine .pure twin₂ ⟨same, fun notVoid => ?_⟩
      have int : s.type.koopa = .i32 := by
        rcases type with int | void
        · rw [int]; rfl
        · exact absurd void notVoid
      rw [later.ret, ret, int] at sees
      rw [later'.ret, ret', int] at sees'
      exact ⟨sees, sees'⟩
    | constant v slot =>
      obtain ⟨slot', meaning'⟩ := Symbol.constant_of_outline same meaning
      simp only [meaning, meaning']
      exact .raise twin rfl
    | «variable» slot =>
      obtain ⟨slot', meaning'⟩ := Symbol.variable_of_outline same meaning
      simp only [meaning, meaning']
      exact .raise twin rfl

/-! ## Operators -/

theorem applyUnary_together {op : UnaryOp} {v w : ValueId} (twin : Twin c σ τ)
    (both : Both c σ τ v w .i32) : Together c σ τ (applyUnary op v) (applyUnary op w)
      fun u σ' x τ' => Both c σ' τ' u x .i32 := by
  cases op with
  | minus => exact (integer_together twin 0).bind fun twin₁ _ _ => binary_together twin₁ ..
  | not => exact (integer_together twin 0).bind fun twin₁ _ _ => binary_together twin₁ ..
  | plus => exact .pure twin both
  | other n => exact .pure twin both

theorem applyBinary_agree {span : Span} {op : BinaryOp} {left left' right right' : Lower ValueId}
    (l : Agree c left left') (r : Agree c right right') :
    Agree c (applyBinary span op left right) (applyBinary span op left' right') := by
  constructor
  intro σ τ twin
  unfold applyBinary
  refine (l.runs twin).bind fun twin₁ _ _ => (r.runs twin₁).bind fun twin₂ _ _ => ?_
  split
  · exact binary_together twin₂ ..
  · exact .raise twin₂ rfl

theorem shortCircuit_agree {isOr : Bool} {left left' right right' : Lower ValueId}
    (l : Agree c left left') (r : Agree c right right') :
    Agree c (shortCircuit isOr left right) (shortCircuit isOr left' right') := by
  constructor
  intro σ τ twin
  unfold shortCircuit
  refine (alloc_together twin .i32).bind ?_
  rintro slot σ₁ slot' τ₁ twin₁ - ⟨has, has'⟩
  have slots : Both c σ₁ τ₁ slot slot' (.pointer .i32) :=
    ⟨⟨_, _, has, .inl rfl⟩, _, _, has', .inl rfl⟩
  refine (integer_together twin₁ _).bind fun twin₂ onward₂ _ => ?_
  have slots := slots.onward onward₂
  refine (store_together twin₂ slots).bind fun twin₃ onward₃ _ => ?_
  have slots := slots.onward onward₃
  refine (l.runs twin₃).bind fun twin₄ onward₄ _ => ?_
  have slots := slots.onward onward₄
  refine (integer_together twin₄ 0).bind fun twin₅ onward₅ _ => ?_
  have slots := slots.onward onward₅
  refine (binary_together twin₅ ..).bind fun twin₆ onward₆ _ => ?_
  have slots := slots.onward onward₆
  refine (newBlock_together twin₆).bind ?_
  rintro _ σ₇ rhs τ₇ twin₇ onward₇ ⟨rfl, rhsCommon⟩
  have slots := slots.onward onward₇
  refine (newBlock_together twin₇).bind ?_
  rintro _ σ₈ join τ₈ twin₈ onward₈ ⟨rfl, joinCommon⟩
  have slots := slots.onward onward₈
  refine sealTo_together twin₈ (rhsCommon.onward twin₇ onward₈) rfl rfl fun twin₉ onward₉ => ?_
  have slots := slots.onward onward₉
  refine (r.runs twin₉).bind fun {_ σ₁₀ _ τ₁₀} twin₁₀ onward₁₀ _ => ?_
  have slots := slots.onward onward₁₀
  refine (integer_together twin₁₀ 0).bind fun twin₁₁ onward₁₁ _ => ?_
  have slots := slots.onward onward₁₁
  refine (binary_together twin₁₁ ..).bind fun twin₁₂ onward₁₂ _ => ?_
  have slots := slots.onward onward₁₂
  refine (store_together twin₁₂ slots).bind fun twin₁₃ onward₁₃ _ => ?_
  have slots := slots.onward onward₁₃
  have since := (((onward₉.trans onward₁₀).trans onward₁₁).trans onward₁₂).trans onward₁₃
  refine sealTo_together twin₁₃ (joinCommon.onward twin₈ since) rfl rfl fun twin₁₄ onward₁₄ => ?_
  exact load_together twin₁₄ (slots.onward onward₁₄)

/-! ## Expressions -/

theorem foldOr_agree {e : Expr} {run run' : Unit → Lower ValueId} (h : Agree c (run ()) (run' ())) :
    Agree c (foldOr e run) (foldOr e run') := by
  constructor
  intro σ τ twin
  refine .of_eq (foldOr_eq e run σ) (foldOr_eq e run' τ) ?_
  rw [twin.env]
  split
  · exact integer_together twin _
  · exact h.runs twin
  · exact .throw twin

mutual

/-- An expression is accepted in both states or refused in both. -/
theorem expr_agree : (e : Expr) → e.Whole → Agree c (expr e) (expr e)
  | .lit s v, _ => by
    rw [expr]
    exact foldOr_agree ⟨fun twin => integer_together twin v⟩
  | .group s inner, whole => by
    rw [expr]
    exact foldOr_agree (expr_agree inner whole)
  | .ident s name, _ => by
    rw [expr]
    refine foldOr_agree ⟨fun twin => (startPlace_together twin _).bind ?_⟩
    rintro p σ₁ q τ₁ twin₁ - ⟨alike, -⟩
    exact read_together twin₁ alike
  | .index s target idx, whole => by
    rw [expr]
    refine foldOr_agree ⟨fun twin => (startPlace_together twin _).bind ?_⟩
    rintro p₀ σ₁ q₀ τ₁ twin₁ - ⟨alike₀, -⟩
    refine (walk_together target whole.1 twin₁ alike₀).bind ?_
    rintro p σ₂ q τ₂ twin₂ - ⟨alike, -⟩
    refine (subscript_together twin₂ alike (expr_agree idx whole.2)).bind ?_
    rintro p' σ₃ q' τ₃ twin₃ - ⟨alike', -⟩
    exact read_together twin₃ alike'
  | .unary s op e, whole => by
    rw [expr]
    exact foldOr_agree ⟨fun twin => ((expr_agree e whole.2).runs twin).bind
      fun twin₁ _ both => applyUnary_together twin₁ both⟩
  | .binary s op l r, ⟨_, left, right⟩ => by
    rw [expr]
    refine foldOr_agree ?_
    split
    · exact shortCircuit_agree (expr_agree l left) (expr_agree r right)
    · exact applyBinary_agree (expr_agree l left) (expr_agree r right)
  | .call s name ns as, whole => by
    rw [expr]
    refine foldOr_agree ⟨fun twin => (callFn_together twin fun paramsOk length =>
      args_together as whole paramsOk length twin).bind ?_⟩
    rintro ⟨v, f⟩ σ₁ ⟨w, f'⟩ τ₁ twin₁ - ⟨same, both⟩
    change f.outline = f'.outline at same
    simp only [Symbol.type_of_outline same, Symbol.name_of_outline same]
    refine .guard (fun _ => .raise twin₁ rfl) fun notVoid => ?_
    exact .pure twin₁ (both notVoid)
  | .bare .., whole => whole.elim
  | .missing _, whole => whole.elim

theorem walk_together : (e : Expr) → e.Whole → ∀ {σ τ p q}, Twin c σ τ → p.Alike c σ τ q →
    Together c σ τ (walk e p) (walk e q) fun p' σ' q' τ' => p'.Alike c σ' τ' q' ∧
      p'.symbol = p.symbol
  | .group s inner, whole, _, _, _, _, twin, alike => by
    rw [walk, walk]
    exact walk_together inner whole twin alike
  | .index s target idx, whole, _, _, _, _, twin, alike => by
    rw [walk, walk]
    refine (walk_together target whole.1 twin alike).bind ?_
    rintro p₁ σ₁ q₁ τ₁ twin₁ - ⟨alike₁, same₁⟩
    refine (subscript_together twin₁ alike₁ (expr_agree idx whole.2)).mono ?_
    rintro p₂ σ₂ q₂ τ₂ - - ⟨alike₂, same₂⟩
    exact ⟨alike₂, same₂.trans same₁⟩
  | .lit .., _, _, _, _, _, twin, alike | .ident .., _, _, _, _, _, twin, alike
  | .unary .., _, _, _, _, _, twin, alike | .binary .., _, _, _, _, _, twin, alike
  | .call .., _, _, _, _, _, twin, alike => by
    rw [walk, walk]
    · exact .pure twin ⟨alike, rfl⟩
    all_goals simp
  | .bare .., whole, _, _, _, _, _, _ => whole.elim
  | .missing _, whole, _, _, _, _, _, _ => whole.elim

theorem args_together : (es : List Expr) → Expr.AllWhole es → ∀ {params : List Ty},
    ParamTys params → params.length = es.length → ∀ {σ τ}, Twin c σ τ →
    Together c σ τ (args es params) (args es params) fun _ _ _ _ => True
  | [], _, [], _, _, _, _, twin => by
    rw [args]
    · exact .pure twin trivial
    · simp
  | e :: es, whole, t :: ts, paramsOk, length, σ, τ, twin => by
    have rest : ∀ {σ₁ τ₁} {v w : ValueId}, Twin c σ₁ τ₁ → Together c σ₁ τ₁
        (do return v :: (← args es ts)) (do return w :: (← args es ts)) fun _ _ _ _ => True := by
      intro σ₁ τ₁ v w twin₁
      refine (args_together es whole.2 (fun u hu => paramsOk u (by simp [hu]))
        (by simpa using length) twin₁).bind fun twin₂ _ _ => ?_
      exact .pure twin₂ trivial
    rcases paramsOk t (by simp) with rfl | ⟨ds, rfl, bounds⟩
    · rw [args]
      · exact ((expr_agree e whole.1).runs twin).bind fun twin₁ _ _ => rest twin₁
      · simp
    · rw [args]
      exact (arrayArg_together bounds twin fun twin alike =>
        walk_together e whole.1 twin alike).bind fun twin₁ _ _ => rest twin₁

end

theorem effect_together {e : Expr} (whole : e.Whole) (twin : Twin c σ τ) :
    Together c σ τ (effect e) (effect e) fun _ _ _ _ => True := by
  have inner := stripGroups_whole whole
  unfold effect
  split
  · rename_i s name ns as call
    rw [call] at inner
    exact (callFn_together twin fun paramsOk length =>
      args_together as inner paramsOk length twin).bind fun twin₁ _ _ => .pure twin₁ trivial
  · exact ((expr_agree e whole).runs twin).bind fun twin₁ _ _ => .pure twin₁ trivial

/-! ## Global values -/

/-- Global values of the two runs that stand for the same. -/
structure BothGlobal (σ τ : State) (v w : ValueId) (t : Koopa.Ty) : Prop where
  left : σ.program.Sees none v t
  right : τ.program.Sees none w t

theorem BothGlobal.onward {σ' τ' : State} {v w : ValueId} {t : Koopa.Ty}
    (both : BothGlobal σ τ v w t) (onward : Onward σ τ σ' τ') : BothGlobal σ' τ' v w t :=
  ⟨onward.left.sees both.left, onward.right.sees both.right⟩

/-- Constants of the same type are added to the two programs. -/
theorem makeGlobal_together {f f' : Koopa.Program → Outcome (ValueId × Koopa.Program)}
    {t : Koopa.Ty} {x x' : Koopa.ValueDef} (twin : Twin c σ τ)
    (eq : f σ.program = .ok (σ.program.insert { home := none, ty := t, defn := x }))
    (eq' : f' τ.program = .ok (τ.program.insert { home := none, ty := t, defn := x' })) :
    Together c σ τ (makeGlobal f) (makeGlobal f') fun v σ' w τ' => BothGlobal σ' τ' v w t := by
  have adds : ∀ {ρ : State} {f : Koopa.Program → Outcome (ValueId × Koopa.Program)}
      {x : Koopa.ValueDef}, Fit c ρ →
      f ρ.program = .ok (ρ.program.insert { home := none, ty := t, defn := x }) →
      Adds c ρ (makeGlobal f) fun v ρ' => ρ'.program.Sees none v t := by
    intro ρ f x fit eq
    exact ⟨_, _, makeGlobal_eq eq, fit.insert _, none, x, Koopa.Program.has_insert .., .inl rfl⟩
  exact (Together.adds twin (adds twin.left eq) (adds twin.right eq')).mono
    fun _ _ ⟨sees, sees'⟩ => ⟨sees, sees'⟩

theorem makeMany_together {f f' : Nat → Lower ValueId} {t : Koopa.Ty}
    (each : ∀ i {σ τ}, Twin c σ τ → Together c σ τ (f i) (f' i) fun v σ' w τ' =>
      BothGlobal σ' τ' v w t) (n i : Nat) (twin : Twin c σ τ) :
    Together c σ τ (makeMany f n i) (makeMany f' n i) fun vs σ' ws τ' =>
      vs.length = n ∧ ws.length = n ∧ (∀ v ∈ vs, σ'.program.Sees none v t) ∧
        ∀ w ∈ ws, τ'.program.Sees none w t := by
  induction n generalizing i σ τ with
  | zero => exact .pure twin ⟨rfl, rfl, by simp, by simp⟩
  | succ n ih =>
    rw [makeMany, makeMany]
    refine (each i twin).bind fun twin₁ _ both => (ih (i + 1) twin₁).bind ?_
    rintro vs σ₂ ws τ₂ twin₂ onward₂ ⟨length, length', sees, sees'⟩
    have both := both.onward onward₂
    refine .pure twin₂ ⟨by simp [length], by simp [length'], ?_, ?_⟩
    · exact List.forall_mem_cons.mpr ⟨both.left, sees⟩
    · exact List.forall_mem_cons.mpr ⟨both.right, sees'⟩

theorem aggregate_together {ds : List Int} (bounds : Bounds ds) (data : List Int32)
    (twin : Twin c σ τ) : Together c σ τ (aggregate ds data) (aggregate ds data) fun v σ' w τ' =>
      BothGlobal σ' τ' v w (.grid ds) := by
  induction ds generalizing data σ τ with
  | nil =>
    rw [aggregate]
    split
    · exact makeGlobal_together twin rfl rfl
    · exact .throw twin
  | cons d ds ih =>
    obtain ⟨⟨positive, -⟩, rest⟩ := bounds_cons.mp bounds
    rw [aggregate]
    refine (makeMany_together (t := .grid ds) (fun i _ _ twin => ih rest _ twin) d.toNat 0 twin).bind ?_
    rintro vs σ₁ ws τ₁ twin₁ - ⟨length, length', sees, sees'⟩
    have nonempty : ∀ {vs : List ValueId}, vs.length = d.toNat → vs ≠ [] := by
      rintro vs length rfl
      rw [List.length_nil] at length
      omega
    have made := Koopa.Program.aggregate_eq (nonempty length) sees
    have made' := Koopa.Program.aggregate_eq (nonempty length') sees'
    rw [length] at made
    rw [length'] at made'
    exact makeGlobal_together twin₁ made made'

theorem initializer_together {ty : Ty} (solid : ty.Solid) (object : ty.IsObject)
    (data : List Int32) (twin : Twin c σ τ) :
    Together c σ τ (initializer ty data) (initializer ty data) fun v σ' w τ' =>
      BothGlobal σ' τ' v w ty.koopa := by
  unfold initializer
  split
  · rw [Ty.toKoopa_eq solid]
    exact .lift twin fun t isType => by
      cases isType
      exact makeGlobal_together twin rfl rfl
  · rw [koopa_object object]
    exact aggregate_together (bounds_dims solid) data twin

theorem namedGlobal_adds (fit : Fit c σ) {init : ValueId} {t : Koopa.Ty}
    (sees : σ.program.Sees none init t) (name : String) :
    Adds c σ (namedGlobal name init) fun g σ' =>
      σ'.program.Has g none (.pointer t) (.globalAlloc init) :=
  ⟨_, _, namedGlobal_eq sees name, fit.insert _, Koopa.Program.has_insert ..⟩

/-- A global variable for the same data. -/
theorem globalVariable_together {ty : Ty} (solid : ty.Solid) (object : ty.IsObject) (name : String)
    (data : List Int32) (twin : Twin c σ τ) :
    Together c σ τ (globalVariable name ty data) (globalVariable name ty data) fun g σ' g' τ' =>
      Symbol.SlotOk σ'.program none g ty ∧ Symbol.SlotOk τ'.program none g' ty := by
  rw [globalVariable_eq]
  refine (initializer_together solid object data twin).bind fun twin₁ _ both => ?_
  refine (Together.adds twin₁ (namedGlobal_adds twin₁.left both.left name)
    (namedGlobal_adds twin₁.right both.right name)).mono ?_
  rintro g σ' g' τ' - - ⟨has, has'⟩
  exact ⟨.inl ⟨_, has⟩, .inl ⟨_, has'⟩⟩

/-- Symbols with the same outline, each of which fits its program. -/
structure BothOk (home : Option FnId) (σ τ : State) (s s' : Symbol) : Prop where
  outline : s.outline = s'.outline
  left : s.Ok σ.program home
  right : s'.Ok τ.program home

theorem constantSymbol_together {d : Def} {ty : Ty} {value : Const.Value} (solid : ty.Solid)
    (object : ty.IsObject) (dims : value.dims = ty.dims)
    (length : (value.data.length : Int) = Const.count value.dims) (twin : Twin c σ τ) :
    Together c σ τ (constantSymbol d ty value) (constantSymbol d ty value) fun s σ' s' τ' =>
      BothOk none σ' τ' s s' := by
  unfold constantSymbol
  cases scalar : ty.isScalar with
  | true =>
    obtain rfl := Ty.isScalar_iff.mp scalar
    exact .pure twin ⟨rfl, ⟨trivial, trivial, dims, length, fun _ => rfl, fun h => absurd rfl h⟩,
      trivial, trivial, dims, length, fun _ => rfl, fun h => absurd rfl h⟩
  | false =>
    have array : ty ≠ .int := by
      rintro rfl
      cases scalar
    simp only [Bool.false_eq_true, if_false, map_eq_pure_bind, bind_assoc, pure_bind]
    refine (globalVariable_together solid object d.name value.data twin).bind ?_
    rintro g σ₁ g' τ₁ twin₁ - ⟨slotOk, slotOk'⟩
    exact .pure twin₁ ⟨rfl,
      ⟨solid, object, dims, length, fun h => absurd h array, fun _ => ⟨g, rfl, slotOk⟩⟩,
      solid, object, dims, length, fun h => absurd h array, fun _ => ⟨g', rfl, slotOk'⟩⟩

/-! ## Local declarations -/

theorem Fit.declared (fit : Fit c σ) {sym : Symbol} {inner : Scope} {outer : List Scope}
    (ok : sym.Ok σ.program (some c.fn)) (scopes : σ.symbols.locals = inner :: outer)
    (fresh : inner.find? sym.name = none) : Fit c (σ.declared sym inner outer) := by
  have later : σ.symbols.Later (σ.symbols.bound sym inner outer) := σ.symbols.later_bound ..
  exact {
    site := by
      refine ⟨fit.site.fn, fit.site.ret, fit.site.loops, ?_⟩
      rw [← fit.site.depth]
      simp [State.declared, SymbolTable.bound, SymbolTable.depth, scopes]
    fn := fit.fn
    placed := fit.placed
    block := fit.block
    scopes := fun sc hsc {n id} mem => by
      rcases List.mem_cons.mp hsc with rfl | old
      · rw [Scope.names_bind fresh] at mem
        rcases List.mem_cons.mp mem with new | old
        · cases new
          exact ⟨sym, σ.symbols.get?_bound sym inner outer, ok⟩
        · obtain ⟨s, found, symbolOk⟩ := fit.scopes inner (by simp [scopes]) old
          exact ⟨s, later.kept found, symbolOk⟩
      · obtain ⟨s, found, symbolOk⟩ := fit.scopes sc (by simp [scopes, old]) mem
        exact ⟨s, later.kept found, symbolOk⟩
    global := fun mem => by
      obtain ⟨s, found, symbolOk⟩ := fit.global mem
      exact ⟨s, later.kept found, symbolOk⟩ }

/-- A name is bound in both states, or it is taken in both. -/
theorem declare_together {s s' : Symbol} (depth : 0 < c.depth) (twin : Twin c σ τ)
    (ok : BothOk (some c.fn) σ τ s s') :
    Together c σ τ (declare s) (declare s') fun _ _ _ _ => True := by
  obtain ⟨inner, outer, scopes⟩ := twin.left.site.scopes depth
  have scopes' : τ.symbols.locals = inner :: outer := twin.locals.trans scopes
  have name := Symbol.name_of_outline ok.outline
  cases taken : inner.find? s.name with
  | none =>
    have taken' : inner.find? s'.name = none := by rw [name]; exact taken
    unfold Together
    rw [declare_eq scopes taken, declare_eq scopes' taken']
    refine .ok ?_ ⟨.refl _, .refl _⟩ trivial
    exact {
      left := twin.left.declared ok.left scopes taken
      right := twin.right.declared ok.right scopes' taken'
      symbols := by
        change (σ.symbols.bound ..).outline = (τ.symbols.bound ..).outline
        rw [SymbolTable.outline_bound, SymbolTable.outline_bound, twin.symbols, ok.outline]
      nextBlock := twin.nextBlock
      blocks := twin.blocks
      name := twin.name }
  | some id =>
    have taken' : inner.find? s'.name = some id := by rw [name]; exact taken
    obtain ⟨old, found, -⟩ := twin.left.scopes inner (by simp [scopes]) (Scope.mem_of_find? taken)
    obtain ⟨old', found', -⟩ := twin.right.scopes inner (by simp [scopes'])
      (Scope.mem_of_find? taken)
    have same : old.outline = old'.outline := by
      have eq : (σ.symbols.get? id).map Symbol.outline = (τ.symbols.get? id).map Symbol.outline := by
        rw [← SymbolTable.get?_outline, ← SymbolTable.get?_outline, twin.symbols]
      rw [found, found'] at eq
      exact Option.some.inj eq
    have refused : ∀ {ρ : State} {sym old : Symbol}, ρ.symbols.locals = inner :: outer →
        inner.find? sym.name = some id → ρ.symbols.get? id = some old →
        declare sym ρ = raise (.redefinition sym.span sym.name old.span) ρ := by
      intro ρ sym old scopes taken found
      simp only [declare, get_bind, SymbolTable.insert_taken scopes taken, found]
      rfl
    refine .of_eq (refused scopes taken found) (refused scopes' taken' found') (.raise twin ?_)
    rw [name, Symbol.span_of_outline ok.outline, Symbol.span_of_outline same]

theorem localConstant_together {d : Def} (depth : 0 < c.depth) (twin : Twin c σ τ) :
    Together c σ τ (localConstant d) (localConstant d) fun _ _ _ _ => True := by
  refine .of_eq (localConstant_eq d σ) (localConstant_eq d τ) ?_
  rw [twin.env]
  refine .lift twin ?_
  rintro ⟨ty, value⟩ defined
  obtain ⟨type, dims, length⟩ := constantDef_eq_ok defined
  obtain ⟨solid, object⟩ := Ty.ofDef_solid type
  exact (constantSymbol_together solid object dims length twin).bind fun twin₁ _ ok =>
    declare_together depth twin₁ ⟨ok.outline, ok.left.of_global, ok.right.of_global⟩

theorem elementPtr_together {base base' : ValueId} {count index : Int} {ds : List Int}
    (twin : Twin c σ τ) (both : Both c σ τ base base' (.pointer (.grid ds))) :
    Together c σ τ (elementPtr base count index ds) (elementPtr base' count index ds)
      fun v σ' w τ' => Both c σ' τ' v w (.pointer .i32) := by
  induction ds generalizing σ τ base base' count index with
  | nil => exact .pure twin both
  | cons d ds ih =>
    rw [elementPtr, elementPtr]
    refine .guard (fun _ => .throw twin) fun _ => ?_
    refine (integer_together twin _).bind fun twin₁ onward₁ _ => ?_
    exact (getElemPtr_together twin₁ (both.onward onward₁)).bind fun twin₂ _ ptr => ih twin₂ ptr

/-- Elements of which the same ones are there in both runs. -/
def SameGaps : List (Option ValueId) → List (Option ValueId) → Prop :=
  List.Forall₂ fun v w => v.isSome = w.isSome

theorem sameGaps_set {es es' : List (Option ValueId)} (gaps : SameGaps es es') (i : Nat)
    (v w : ValueId) : SameGaps (es.set i (some v)) (es'.set i (some w)) := by
  induction gaps generalizing i with
  | nil => exact .nil
  | cons same rest ih =>
    cases i with
    | zero => exact .cons rfl rest
    | succ i => exact .cons same (ih i)

theorem storeElements_together {slot slot' : ValueId} {dims : List Int} {index : Nat}
    {es es' : List (Option ValueId)} (gaps : SameGaps es es') (twin : Twin c σ τ)
    (both : Both c σ τ slot slot' (.pointer (.grid dims))) :
    Together c σ τ (storeElements slot dims index es) (storeElements slot' dims index es')
      fun _ _ _ _ => True := by
  induction gaps generalizing σ τ index with
  | nil => exact .pure twin trivial
  | @cons e e' es es' same _ ih =>
    have filled : ∀ {σ₁ τ₁ v w}, Twin c σ₁ τ₁ → Both c σ₁ τ₁ slot slot' (.pointer (.grid dims)) →
        Together c σ₁ τ₁ (filling slot dims index es v) (filling slot' dims index es' w)
          fun _ _ _ _ => True := by
      intro σ₁ τ₁ v w twin₁ both₁
      refine (elementPtr_together twin₁ both₁).bind fun twin₂ onward₂ ptr => ?_
      refine (store_together twin₂ ptr).bind fun twin₃ onward₃ _ => ?_
      exact ih twin₃ ((both₁.onward onward₂).onward onward₃)
    cases e with
    | none =>
      cases e' with
      | some w => cases same
      | none =>
        rw [storeElements, storeElements]
        exact (integer_together twin 0).bind fun twin₁ onward₁ _ => filled twin₁ (both.onward onward₁)
    | some v =>
      cases e' with
      | none => cases same
      | some w =>
        rw [storeElements, storeElements]
        exact filled twin both

theorem storeLayout_together {ps : List Const.Placement} {out out' : List (Option ValueId)}
    (whole : ∀ p ∈ ps, p.value.Whole) (gaps : SameGaps out out') (twin : Twin c σ τ) :
    Together c σ τ (Const.Layout.store (fun e => some <$> expr e) ps out)
      (Const.Layout.store (fun e => some <$> expr e) ps out') fun es _ es' _ => SameGaps es es' := by
  induction ps generalizing σ τ out out' with
  | nil => exact .pure twin gaps
  | cons p ps ih =>
    rw [Const.Layout.store, Const.Layout.store]
    simp only [map_eq_pure_bind, bind_assoc, pure_bind]
    refine ((expr_agree p.value (whole p (by simp))).runs twin).bind fun {v σ₁ w τ₁} twin₁ _ _ => ?_
    rw [gaps.length_eq]
    split
    · refine ih (fun q hq => whole q (by simp [hq])) ?_ twin₁
      exact sameGaps_set gaps p.position.toNat v w
    · exact .throw twin₁

theorem flatten_together {dims : List Int} {i : Init} (whole : i.Whole) (twin : Twin c σ τ) :
    Together c σ τ (Const.flatten none (fun e => some <$> expr e) dims i)
      (Const.flatten none (fun e => some <$> expr e) dims i) fun es _ es' _ => SameGaps es es' := by
  unfold Const.flatten
  split
  · exact .throw twin
  · rename_i l size done
    unfold Const.Layout.fill
    refine (storeLayout_together (Const.Layout.ofArray_whole whole done) ?_ twin).bind
      fun twin₁ _ gaps => ?_
    · exact List.forall₂_same.mpr fun _ _ => rfl
    · split
      · exact .throw twin₁
      · exact .pure twin₁ gaps

theorem storeInit_together {slot slot' : ValueId} {ty : Ty} {i : Init} (whole : i.Whole)
    (object : ty.IsObject) (twin : Twin c σ τ) (both : Both c σ τ slot slot' (.pointer ty.koopa)) :
    Together c σ τ (storeInit slot ty i) (storeInit slot' ty i) fun _ _ _ _ => True := by
  unfold storeInit
  split
  · rename_i scalar
    rw [Ty.isScalar_iff.mp scalar] at both
    split
    · exact whole.elim
    · exact .raise twin rfl
    · rename_i e
      refine ((expr_agree e whole).runs twin).bind fun twin₁ onward₁ _ => ?_
      exact (store_together twin₁ (both.onward onward₁)).bind fun twin₂ _ _ => .pure twin₂ trivial
  · rw [koopa_object object] at both
    exact (flatten_together whole twin).bind fun twin₁ onward₁ gaps =>
      storeElements_together gaps twin₁ (both.onward onward₁)

theorem localVariable_together {d : Def} (whole : d.Whole) (depth : 0 < c.depth)
    (twin : Twin c σ τ) :
    Together c σ τ (localVariable d) (localVariable d) fun _ _ _ _ => True := by
  refine .of_eq (localVariable_eq d σ) (localVariable_eq d τ) ?_
  rw [twin.env]
  refine .lift twin fun ty type => ?_
  obtain ⟨solid, object⟩ := Ty.ofDef_solid type
  rw [Ty.toKoopa_eq solid]
  refine .lift twin ?_
  rintro _ ⟨⟩
  refine (alloc_together twin ty.koopa).bind ?_
  rintro slot σ₁ slot' τ₁ twin₁ - ⟨has, has'⟩
  have slots : Both c σ₁ τ₁ slot slot' (.pointer ty.koopa) :=
    ⟨⟨_, _, has, .inl rfl⟩, _, _, has', .inl rfl⟩
  refine (Together.adds twin₁ (setName_adds twin₁.left ("@" ++ d.name) slots.left)
    (setName_adds twin₁.right ("@" ++ d.name) slots.right)).bind fun twin₂ onward₂ _ => ?_
  have bindName : ∀ {σ₃ τ₃}, Twin c σ₃ τ₃ → Onward σ₁ τ₁ σ₃ τ₃ →
      Together c σ₃ τ₃ (declare
          { name := d.name, span := d.nameSpan, type := ty, meaning := .variable slot })
        (declare { name := d.name, span := d.nameSpan, type := ty, meaning := .variable slot' })
        fun _ _ _ _ => True := by
    intro σ₃ τ₃ twin₃ onward₃
    exact declare_together depth twin₃ ⟨rfl, ⟨solid, .inr ⟨_, rfl, onward₃.left.values has⟩⟩,
      solid, .inr ⟨_, rfl, onward₃.right.values has'⟩⟩
  cases hinit : d.init with
  | none => exact bindName twin₂ onward₂
  | some init =>
    refine (storeInit_together (whole.init init (by rw [hinit]; rfl)) object twin₂
      (slots.onward onward₂)).bind fun twin₃ onward₃ _ => ?_
    exact bindName twin₃ (onward₂.trans onward₃)

theorem localDefs_together {isConst : Bool} {ds : List Def} (whole : ∀ d ∈ ds, d.Whole)
    (depth : 0 < c.depth) (twin : Twin c σ τ) :
    Together c σ τ (ds.forM (if isConst then localConstant else localVariable))
      (ds.forM (if isConst then localConstant else localVariable)) fun _ _ _ _ => True := by
  induction ds generalizing σ τ with
  | nil => exact .pure twin trivial
  | cons d ds ih =>
    refine Together.bind (m := (if isConst then localConstant else localVariable) d)
      (n := (if isConst then localConstant else localVariable) d) (Q := fun _ _ _ _ => True) ?_
      fun twin₁ _ _ => ih (fun e he => whole e (by simp [he])) twin₁
    split
    · exact localConstant_together depth twin
    · exact localVariable_together (whole d (by simp)) depth twin

theorem localDecl_together {d : Decl} (whole : d.Whole) (depth : 0 < c.depth) (twin : Twin c σ τ) :
    Together c σ τ (localDecl d) (localDecl d) fun _ _ _ _ => True := by
  unfold localDecl
  split
  · unfold refuseVoid
    split
    · rename_i empty
      exact absurd empty whole.nonempty
    · exact .raise twin rfl
  · exact localDefs_together whole.defs depth twin

end SysY.Lower

import SysY.Proofs.Koopa.Build
import SysY.Proofs.Symbol.Scopes
import SysY.Proofs.Ty.Solid

/-! # The invariant of lowering

`Inv c avail σ` holds whenever one step of lowering a function ends and the next one begins: the
program so far is in order, symbols fit the values and functions they stand for, and while a block
is open it is laid out, it has no terminator yet, control can reach it, and the slots of all visible
variables are available in it. `Evo` compares two such moments, and `Runs` says of an operation that
it leads from one to another, or else fails in an expected way. -/

namespace SysY

open Koopa (ValueId BlockId FnId Avail)

/-! ## Symbols -/

namespace Symbol

/-- A slot for values of a type: a global variable, or one of the function itself. -/
def SlotOk (p : Koopa.Program) (home : Option FnId) (slot : ValueId) (ty : Ty) : Prop :=
  (∃ init, p.Has slot none (.pointer ty.koopa) (.globalAlloc init)) ∨
    ∃ f, home = some f ∧ p.Has slot (some f) (.pointer ty.koopa) .alloc

/-- What a symbol says fits the program. `home` is the function inside which it is bound. -/
def Ok (p : Koopa.Program) (home : Option FnId) (s : Symbol) : Prop :=
  match s.meaning with
  | .constant v slot =>
    s.type.Solid ∧ s.type.IsObject ∧ v.dims = s.type.dims ∧ (v.data.length : Int) = Const.count v.dims ∧
      (s.type = .int → slot = none) ∧ (s.type ≠ .int → ∃ g, slot = some g ∧ SlotOk p none g s.type)
  | .variable slot => s.type.Solid ∧ SlotOk p home slot s.type
  | .function fn params _ =>
    (s.type = .int ∨ s.type = .void) ∧ (∀ t ∈ params, t = .int ∨ ∃ ds, t = .pointer ds ∧ Bounds ds) ∧
      ∃ d, p.fn? fn = some d ∧ d.ret = s.type.koopa ∧ d.paramTys = params.map Ty.koopa

variable {p p' : Koopa.Program} {home : Option FnId} {s : Symbol}

theorem SlotOk.grows (grows : p.Grows p') {slot : ValueId} {ty : Ty}
    (ok : SlotOk p home slot ty) : SlotOk p' home slot ty := by
  rcases ok with ⟨init, has⟩ | ⟨f, hf, has⟩
  · exact .inl ⟨init, grows.values has⟩
  · exact .inr ⟨f, hf, grows.values has⟩

/-- A slot can be seen in the function where it is bound. -/
theorem SlotOk.sees {slot : ValueId} {ty : Ty} (ok : SlotOk p home slot ty) :
    p.Sees home slot (.pointer ty.koopa) := by
  rcases ok with ⟨init, has⟩ | ⟨f, hf, has⟩
  · exact ⟨_, _, has, .inr rfl⟩
  · exact ⟨_, _, has, .inl hf.symm⟩

/-- A global slot is one in every function. -/
theorem SlotOk.of_global {slot : ValueId} {ty : Ty} (ok : SlotOk p none slot ty) :
    SlotOk p home slot ty := by
  rcases ok with global | ⟨f, hf, -⟩
  · exact .inl global
  · cases hf

theorem Ok.grows (grows : p.Grows p') (ok : s.Ok p home) : s.Ok p' home := by
  unfold Ok at ok ⊢
  split at ok
  · obtain ⟨solid, object, dims, length, number, table⟩ := ok
    refine ⟨solid, object, dims, length, number, fun h => ?_⟩
    obtain ⟨g, hg, slotOk⟩ := table h
    exact ⟨g, hg, slotOk.grows grows⟩
  · exact ⟨ok.1, ok.2.grows grows⟩
  · obtain ⟨type, params, d, found, ret, paramTys⟩ := ok
    obtain ⟨d', found', later⟩ := grows.fns found
    exact ⟨type, params, d', found', later.ret.trans ret, later.paramTys.trans paramTys⟩

/-- A global symbol can be used in every function. -/
theorem Ok.of_global (ok : s.Ok p none) : s.Ok p home := by
  unfold Ok at ok ⊢
  split at ok
  · exact ok
  · exact ⟨ok.1, ok.2.of_global⟩
  · exact ok

end Symbol

namespace Lower

/-! ## States -/

/-- What stays the same from the start of a statement to its end: the function with its return type,
the loops around the statement, and the number of scopes. -/
structure Site where
  fn : FnId
  ret : Ty
  loops : List LoopTargets
  depth : Nat

/-- A state at a site. -/
structure At (c : Site) (σ : State) : Prop where
  fn : σ.frame.fn = c.fn
  ret : σ.frame.ret = c.ret
  loops : σ.frame.loops = c.loops
  depth : σ.symbols.depth = c.depth

/-- Inside a function there is an innermost scope. -/
theorem At.scopes {c : Site} {σ : State} (site : At c σ) (depth : 0 < c.depth) :
    ∃ inner outer, σ.symbols.locals = inner :: outer := by
  rw [← site.depth] at depth
  exact List.exists_cons_of_length_pos depth

/-- The instructions of the current block. -/
def State.insts (σ : State) : List ValueId :=
  ((σ.program.fn? σ.frame.fn).bind (·.insts? σ.frame.block)).getD []

/-- The instructions that have been executed when control is at the end of the current block. -/
def State.avail (σ : State) (avail : Avail) : Set ValueId :=
  { v | v ∈ avail σ.frame.block ∨ v ∈ σ.insts }

/-- What holds of the program and the global symbols at all times. -/
structure Sound (avail : Avail) (σ : State) : Prop where
  program : σ.program.Ok avail
  tidy : σ.program.Tidy
  /-- Every function is bound in the global scope. -/
  named : ∀ n ∈ σ.program.fns.toList.map (·.name), ∃ m id, n = "@" ++ m ∧
    (m, id) ∈ σ.symbols.global.names
  /-- Every global variable is the slot of a symbol. -/
  slots : ∀ {g t init}, σ.program.Has g none t (.globalAlloc init) → ∃ id s,
    σ.symbols.get? id = some s ∧ s.slot? = some g ∧ s.type.Solid ∧ t = .pointer s.type.koopa
  global : ∀ {n id}, (n, id) ∈ σ.symbols.global.names → ∃ s, σ.symbols.get? id = some s ∧
    s.Ok σ.program none

/-- What holds of the current block while it is open. -/
structure Live (c : Site) (avail : Avail) (σ : State) : Prop where
  block : ∃ d is, σ.program.fn? c.fn = some d ∧ d.insts? σ.frame.block = some is ∧
    (∀ w ∈ is, ¬ σ.program.IsTerm w) ∧ d.Reaches σ.program σ.frame.block
  slots : σ.symbols.localSlots ⊆ σ.avail avail
  loops : ∀ t ∈ c.loops, avail t.continueTo ⊆ σ.avail avail ∧ avail t.breakTo ⊆ σ.avail avail

/-- The invariant of lowering the body of a function. -/
structure Inv (c : Site) (avail : Avail) (σ : State) : Prop extends Sound avail σ where
  site : At c σ
  fn : ∃ d, σ.program.fn? c.fn = some d ∧ d.ret = c.ret.koopa ∧ d.blocks ≠ []
  ret : c.ret = .int ∨ c.ret = .void
  scopes : ∀ sc ∈ σ.symbols.locals, ∀ {n id}, (n, id) ∈ sc.names →
    ∃ s, σ.symbols.get? id = some s ∧ s.Ok σ.program (some c.fn)
  loops : ∀ t ∈ c.loops, ∀ {d}, σ.program.fn? c.fn = some d →
    t.continueTo ∈ d.blocks ∧ t.breakTo ∈ d.blocks
  live : σ.frame.isOpen = true → Live c avail σ

/-! ## Comparing states -/

/-- What is lowered: an expression, a statement that declares nothing, or any statement. -/
inductive Kind where
  | expr | stmt | item

/-- What lowering does not change. An expression leaves all symbols alone and ends where code is
reachable if it starts so, a statement leaves the open scopes alone, and a declaration only adds
names to the innermost scope. -/
def Kind.Keeps : Kind → State → State → Prop
  | .expr, σ, σ' => σ'.symbols = σ.symbols ∧ σ'.frame.isOpen = σ.frame.isOpen
  | .stmt, σ, σ' => σ.symbols.Later σ'.symbols ∧ σ'.symbols.locals = σ.symbols.locals
  | .item, σ, σ' => σ.symbols.Later σ'.symbols ∧ Widens σ.symbols.locals σ'.symbols.locals

theorem Kind.Keeps.refl (k : Kind) (σ : State) : k.Keeps σ σ := by
  cases k with
  | expr => exact ⟨rfl, rfl⟩
  | stmt => exact ⟨.refl _, rfl⟩
  | item => exact ⟨.refl _, .refl _⟩

theorem Kind.Keeps.trans {k : Kind} {σ₁ σ₂ σ₃ : State} (h : k.Keeps σ₁ σ₂) (h' : k.Keeps σ₂ σ₃) :
    k.Keeps σ₁ σ₃ := by
  cases k with
  | expr => exact ⟨h'.1.trans h.1, h'.2.trans h.2⟩
  | stmt => exact ⟨h.1.trans h'.1, h'.2.trans h.2⟩
  | item => exact ⟨h.1.trans h'.1, h.2.trans h'.2⟩

/-- What an expression keeps, every statement may keep. -/
theorem Kind.Keeps.of_expr {k : Kind} {σ σ' : State} (h : Kind.expr.Keeps σ σ') :
    k.Keeps σ σ' := by
  cases k with
  | expr => exact h
  | stmt => exact ⟨by rw [h.1]; exact .refl _, by rw [h.1]⟩
  | item => exact ⟨by rw [h.1]; exact .refl _, by rw [h.1]; exact .refl _⟩

/-- What a statement keeps, a declaration may keep. -/
theorem Kind.Keeps.of_stmt {σ σ' : State} (h : Kind.stmt.Keeps σ σ') : Kind.item.Keeps σ σ' :=
  ⟨h.1, by rw [h.2]; exact .refl _⟩

theorem Kind.Keeps.later {k : Kind} {σ σ' : State} (h : k.Keeps σ σ') :
    σ.symbols.Later σ'.symbols := by
  cases k with
  | expr => rw [h.1]; exact .refl _
  | stmt => exact h.1
  | item => exact h.1

/-- A later moment of lowering one function. Other functions and blocks other than the current one
are left alone, and code that starts unreachable ends unreachable. -/
structure Evo (k : Kind) (avail : Avail) (σ : State) (avail' : Avail) (σ' : State) : Prop where
  grows : σ.program.Grows σ'.program
  fn : σ'.frame.fn = σ.frame.fn
  others : ∀ {g}, g ≠ σ.frame.fn → σ'.program.fn? g = σ.program.fn? g
  ghost : ∀ {b}, b ≤ σ.program.blocks.size → avail' b = avail b
  still : ∀ {d d' b is}, σ.program.fn? σ.frame.fn = some d →
    σ'.program.fn? σ.frame.fn = some d' → d.insts? b = some is →
    (σ.frame.isOpen = true → b ≠ σ.frame.block) → d'.insts? b = some is
  here : σ'.frame.isOpen = true → σ.frame.isOpen = true ∧
    (σ'.frame.block = σ.frame.block ∨ σ.program.blocks.size < σ'.frame.block)
  avail : σ'.frame.isOpen = true → σ.avail avail ⊆ σ'.avail avail'
  keeps : k.Keeps σ σ'

theorem Evo.refl (k : Kind) (avail : Avail) (σ : State) : Evo k avail σ avail σ where
  grows := .refl _
  fn := rfl
  others := fun _ => rfl
  ghost := fun _ => rfl
  still := fun found found' here _ => by
    rw [found] at found'
    cases found'
    exact here
  here := fun h => ⟨h, .inl rfl⟩
  avail := fun _ => subset_rfl
  keeps := .refl k σ

theorem Evo.trans {k : Kind} {a₁ a₂ a₃ : Avail} {σ₁ σ₂ σ₃ : State} (h : Evo k a₁ σ₁ a₂ σ₂)
    (h' : Evo k a₂ σ₂ a₃ σ₃) (laid : ∀ {d b}, σ₁.program.fn? σ₁.frame.fn = some d → b ∈ d.blocks →
      b ≤ σ₁.program.blocks.size) : Evo k a₁ σ₁ a₃ σ₃ where
  grows := h.grows.trans h'.grows
  fn := h'.fn.trans h.fn
  others := fun other => (h'.others (by rw [h.fn]; exact other)).trans (h.others other)
  ghost := fun small =>
    (h'.ghost (Nat.le_trans small h.grows.blocks_size)).trans (h.ghost small)
  still := fun {d d'' b is} found found'' here away => by
    obtain ⟨d', found', -⟩ := h.grows.fns found
    have here' := h.still found found' here away
    refine h'.still (by rw [h.fn]; exact found') (by rw [h.fn]; exact found'') here' ?_
    intro isOpen same
    obtain ⟨wasOpen, old | new⟩ := h.here isOpen
    · exact away wasOpen (same.trans old)
    · rw [← same] at new
      exact absurd (laid found (Koopa.Fn.mem_blocks_of_insts? here)) (Nat.not_le_of_lt new)
  here := fun isOpen => by
    obtain ⟨open₂, at₂⟩ := h'.here isOpen
    obtain ⟨open₁, at₁⟩ := h.here open₂
    refine ⟨open₁, ?_⟩
    rcases at₂ with same | new
    · rw [same]
      exact at₁
    · exact .inr (Nat.lt_of_le_of_lt h.grows.blocks_size new)
  avail := fun isOpen => (h.avail (h'.here isOpen).1).trans (h'.avail isOpen)
  keeps := h.keeps.trans h'.keeps

theorem Evo.of_expr {k : Kind} {a a' : Avail} {σ σ' : State} (h : Evo .expr a σ a' σ') :
    Evo k a σ a' σ' :=
  ⟨h.grows, h.fn, h.others, h.ghost, h.still, h.here, h.avail, .of_expr h.keeps⟩

theorem Evo.of_stmt {a a' : Avail} {σ σ' : State} (h : Evo .stmt a σ a' σ') :
    Evo .item a σ a' σ' :=
  ⟨h.grows, h.fn, h.others, h.ghost, h.still, h.here, h.avail, .of_stmt h.keeps⟩

/-- A block that is laid out has a number that was given. -/
theorem Inv.laid {c : Site} {avail : Avail} {σ : State} (inv : Inv c avail σ) {d : Koopa.Fn}
    {b : BlockId} (found : σ.program.fn? σ.frame.fn = some d) (mem : b ∈ d.blocks) :
    b ≤ σ.program.blocks.size :=
  Koopa.Program.block?_le_size ((inv.program.fns found).homes mem)

/-! ## Running -/

/-- An operation succeeds with `Q`, or it fails in an expected way with `E`. -/
structure Ends {α : Type} (E : State → Prop) (m : Lower α) (σ : State) (Q : α → State → Prop) :
    Prop where
  ok : ∀ {a σ'}, m σ = .ok a σ' → Q a σ'
  error : ∀ {e σ'}, m σ = .error e σ' → e.Expected ∧ E σ'

/-- An operation that is run in state `σ` leads to a moment of lowering with `Q`, which is later than
the moment `σ₀`, or fails in an expected way. In between control may have been sent to blocks that
were made after `σ₀`. -/
def RunsFrom {α : Type} (k : Kind) (c : Site) (avail₀ : Avail) (σ₀ σ : State) (m : Lower α)
    (Q : α → Avail → State → Prop) : Prop :=
  Ends (At c) m σ fun a σ' => ∃ avail', Inv c avail' σ' ∧ Evo k avail₀ σ₀ avail' σ' ∧ Q a avail' σ'

/-- An operation leads from one moment of lowering to another one with `Q`, or fails in an expected
way. -/
abbrev Runs {α : Type} (k : Kind) (c : Site) (avail : Avail) (σ : State) (m : Lower α)
    (Q : α → Avail → State → Prop) : Prop := RunsFrom k c avail σ σ m Q

section Runs

variable {α β : Type} {k : Kind} {c : Site} {avail : Avail} {σ : State} {E : State → Prop}

theorem get_bind (next : State → Lower α) (σ : State) : (get >>= next) σ = next σ σ := rfl

theorem set_bind (s : State) (next : PUnit → Lower α) (σ : State) :
    (set s >>= next) σ = next ⟨⟩ s := rfl

theorem lift_bind (a : α) (next : α → Lower β) : (lift (.ok a) >>= next) = next a := rfl

theorem Ends.pure (a : α) {Q : α → State → Prop} (h : Q a σ) : Ends E (pure a) σ Q :=
  ⟨fun e => by cases e; exact h, fun e => by cases e⟩

theorem Ends.throw {Q : α → State → Prop} {f : Failure} (expected : f.Expected) (error : E σ) :
    Ends E (throw f : Lower α) σ Q :=
  ⟨fun e => (nomatch e), fun e => by cases e; exact ⟨expected, error⟩⟩

theorem Ends.bind {m : Lower α} {next : α → Lower β} {Q : α → State → Prop}
    {R : β → State → Prop} (h : Ends E m σ Q)
    (hnext : ∀ a σ', Q a σ' → Ends E (next a) σ' R) : Ends E (m >>= next) σ R := by
  cases hm : m σ with
  | ok a σ' =>
    have eq : (m >>= next) σ = next a σ' := by simp only [Bind.bind, EStateM.bind, hm]
    have after := hnext a σ' (h.ok hm)
    exact ⟨fun e => after.ok (eq.symm.trans e), fun e => after.error (eq.symm.trans e)⟩
  | error e σ' =>
    have eq : (m >>= next) σ = .error e σ' := by simp only [Bind.bind, EStateM.bind, hm]
    refine ⟨fun e => ?_, fun e => ?_⟩
    · rw [eq] at e
      cases e
    · rw [eq] at e
      cases e
      exact h.error hm

theorem Ends.mono {m : Lower α} {Q R : α → State → Prop} (h : Ends E m σ Q)
    (weaker : ∀ a σ', Q a σ' → R a σ') : Ends E m σ R :=
  ⟨fun e => weaker _ _ (h.ok e), h.error⟩

theorem Ends.of_eq {m n : Lower α} {s : State} {Q : α → State → Prop} (eq : m σ = n s)
    (h : Ends E n s Q) : Ends E m σ Q :=
  ⟨fun e => h.ok (eq.symm.trans e), fun e => h.error (eq.symm.trans e)⟩

theorem Ends.of_ok {m : Lower α} {a : α} {s : State} {Q : α → State → Prop}
    (eq : m σ = .ok a s) (h : Q a s) : Ends E m σ Q :=
  ⟨fun e => by rw [eq] at e; cases e; exact h, fun e => by rw [eq] at e; cases e⟩

/-- Taking over a result succeeds or fails as the operation does. -/
theorem Ends.lift {o : Outcome α} {Q : α → State → Prop} (error : E σ) (expected : o.Expected)
    (h : ∀ a, o = .ok a → Q a σ) : Ends E (lift o) σ Q := by
  cases o with
  | ok a => exact .pure a (h a rfl)
  | error f => exact .throw (expected.failure rfl) error

theorem RunsFrom.pure {Q : α → Avail → State → Prop} {avail₀ : Avail} {σ₀ : State} {a : α}
    (inv : Inv c avail σ) (evo : Evo k avail₀ σ₀ avail σ) (h : Q a avail σ) :
    RunsFrom k c avail₀ σ₀ σ (pure a) Q := Ends.pure a ⟨avail, inv, evo, h⟩

theorem Runs.pure {Q : α → Avail → State → Prop} (inv : Inv c avail σ) {a : α}
    (h : Q a avail σ) : Runs k c avail σ (pure a) Q := RunsFrom.pure inv (.refl k avail σ) h

theorem RunsFrom.bind {m : Lower α} {next : α → Lower β} {Q : α → Avail → State → Prop}
    {R : β → Avail → State → Prop} {avail₀ : Avail} {σ₀ : State} (inv₀ : Inv c avail₀ σ₀)
    (evo₀ : Evo k avail₀ σ₀ avail σ) (h : Runs k c avail σ m Q)
    (hnext : ∀ a avail' σ', Inv c avail' σ' → Evo k avail σ avail' σ' →
      Evo k avail₀ σ₀ avail' σ' → Q a avail' σ' → RunsFrom k c avail₀ σ₀ σ' (next a) R) :
    RunsFrom k c avail₀ σ₀ σ (m >>= next) R := by
  refine Ends.bind h ?_
  rintro a σ' ⟨avail', inv', evo, q⟩
  exact hnext a avail' σ' inv' evo (evo₀.trans evo inv₀.laid) q

/-- What runs from one moment also runs from an earlier one. -/
theorem Runs.since {m : Lower α} {Q : α → Avail → State → Prop} {avail₀ : Avail} {σ₀ : State}
    (inv₀ : Inv c avail₀ σ₀) (evo₀ : Evo k avail₀ σ₀ avail σ) (h : Runs k c avail σ m Q) :
    RunsFrom k c avail₀ σ₀ σ m Q := by
  refine Ends.mono h ?_
  rintro a σ' ⟨avail', inv', evo, q⟩
  exact ⟨avail', inv', evo₀.trans evo inv₀.laid, q⟩

theorem Runs.bind {m : Lower α} {next : α → Lower β} {Q : α → Avail → State → Prop}
    {R : β → Avail → State → Prop} (inv : Inv c avail σ) (h : Runs k c avail σ m Q)
    (hnext : ∀ a avail' σ', Inv c avail' σ' → Evo k avail σ avail' σ' → Q a avail' σ' →
      Runs k c avail' σ' (next a) R) : Runs k c avail σ (m >>= next) R :=
  RunsFrom.bind inv (.refl k avail σ) h fun a avail' σ' inv' evo _ q =>
    (hnext a avail' σ' inv' evo q).since inv evo

theorem Runs.throw {Q : α → Avail → State → Prop} (inv : Inv c avail σ) {f : Failure}
    (expected : f.Expected) : Runs k c avail σ (throw f) Q := Ends.throw expected inv.site

theorem Runs.raise {Q : α → Avail → State → Prop} (inv : Inv c avail σ) {e : Diag.Error}
    (code : Diag.Code) (has : e.code = code) (other : code ≠ .internalError) :
    Runs k c avail σ (raise e) Q := .throw inv (Failure.expected_code code has other)

theorem RunsFrom.mono {m : Lower α} {Q R : α → Avail → State → Prop} {avail₀ : Avail} {σ₀ : State}
    (h : RunsFrom k c avail₀ σ₀ σ m Q)
    (weaker : ∀ a avail' σ', Inv c avail' σ' → Evo k avail₀ σ₀ avail' σ' → Q a avail' σ' →
      R a avail' σ') : RunsFrom k c avail₀ σ₀ σ m R := by
  refine Ends.mono h ?_
  rintro a σ' ⟨avail', inv', evo, q⟩
  exact ⟨avail', inv', evo, weaker a avail' σ' inv' evo q⟩

theorem RunsFrom.of_expr {m : Lower α} {Q : α → Avail → State → Prop} {avail₀ : Avail} {σ₀ : State}
    (h : RunsFrom .expr c avail₀ σ₀ σ m Q) : RunsFrom k c avail₀ σ₀ σ m Q := by
  refine Ends.mono h ?_
  rintro a σ' ⟨avail', inv', evo, q⟩
  exact ⟨avail', inv', evo.of_expr, q⟩

theorem RunsFrom.of_stmt {m : Lower α} {Q : α → Avail → State → Prop} {avail₀ : Avail} {σ₀ : State}
    (h : RunsFrom .stmt c avail₀ σ₀ σ m Q) : RunsFrom .item c avail₀ σ₀ σ m Q := by
  refine Ends.mono h ?_
  rintro a σ' ⟨avail', inv', evo, q⟩
  exact ⟨avail', inv', evo.of_stmt, q⟩

/-- An operation that does not change the state is run in place. -/
theorem Runs.lift {o : Outcome α} {next : α → Lower β} {R : β → Avail → State → Prop}
    (inv : Inv c avail σ) (expected : o.Expected)
    (h : ∀ a, o = .ok a → Runs k c avail σ (next a) R) :
    Runs k c avail σ (lift o >>= next) R :=
  Ends.bind (Q := fun a σ' => o = .ok a ∧ σ' = σ)
    (Ends.lift inv.site expected fun a e => ⟨e, rfl⟩) (by rintro a σ' ⟨e, rfl⟩; exact h a e)

/-- A check that comes before the rest. -/
theorem Runs.guard {bad : Prop} [Decidable bad] {fails : Lower Unit} {next : Unit → Lower α}
    {Q : α → Avail → State → Prop} (inv : Inv c avail σ)
    (h : bad → Runs k c avail σ fails fun _ _ _ => False)
    (hnext : ¬ bad → Runs k c avail σ (next ()) Q) :
    Runs k c avail σ (if bad then fails >>= next else next ()) Q := by
  by_cases isBad : bad
  · rw [if_pos isBad]
    exact Runs.bind inv (h isBad) fun _ _ _ _ _ impossible => impossible.elim
  · rw [if_neg isBad]
    exact hnext isBad

end Runs

end Lower
end SysY

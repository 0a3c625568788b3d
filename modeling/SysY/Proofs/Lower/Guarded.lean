import SysY.Proofs.Koopa.Insert
import SysY.Proofs.Lower.Output
import SysY.Proofs.Meaning.Table

/-! # Stores go to variables

`Guarded` says of a state of lowering that the address of each store starts at the slot of a variable,
at a slot of the function itself, or at a pointer that was read from one, and that no such slot also
holds the elements of a constant array. `Guards` says of an operation that it keeps this, and `Hushed`
that it adds no store at all. The single steps of lowering come first. -/

namespace SysY

open Koopa (ValueId BlockId FnId)

/-- An address is that of an object, or of a part of the object. -/
inductive Koopa.Program.Inside (p : Koopa.Program) : ValueId → ValueId → Prop
  | whole {g : ValueId} : Inside p g g
  | elem {a b i g : ValueId} {h t} : p.Has a h t (.getElemPtr b i) → Inside p b g → Inside p a g
  | next {a b i g : ValueId} {h t} : p.Has a h t (.getPtr b i) → Inside p b g → Inside p a g

namespace Lower

variable {α β : Type} {σ σ' σ'' : State} {v a g : ValueId}

/-! ## Addresses that may be written to -/

/-- The slot of a variable. -/
def State.VariableAt (σ : State) (g : ValueId) : Prop :=
  ∃ s ∈ σ.symbols.symbols, s.meaning = .variable g

/-- The global variable that holds the elements of a constant array. -/
def State.TableAt (σ : State) (g : ValueId) : Prop :=
  ∃ s ∈ σ.symbols.symbols, ∃ w, s.meaning = .constant w (some g)

/-- An address inside a variable, or behind a pointer that is stored in one. -/
inductive Writable (σ : State) : ValueId → Prop
  | named {a : ValueId} : σ.VariableAt a → Writable σ a
  | slot {a : ValueId} {h t} : σ.program.Has a h t .alloc → Writable σ a
  | loaded {a src : ValueId} {h t} : σ.program.Has a h t (.load src) → Writable σ a
  | elem {a b i : ValueId} {h t} : σ.program.Has a h t (.getElemPtr b i) → Writable σ b → Writable σ a
  | next {a b i : ValueId} {h t} : σ.program.Has a h t (.getPtr b i) → Writable σ b → Writable σ a

/-- Stores only go to variables, and variables are apart from the tables of constants. -/
structure Guarded (σ : State) : Prop where
  stores : ∀ {v h t x a}, σ.program.Has v h t (.store x a) → Writable σ a
  slots : ∀ {g}, σ.VariableAt g → ∃ h t x, σ.program.Has g h t x ∧
    (x = .alloc ∨ ∃ init, x = .globalAlloc init)
  tables : ∀ {g}, σ.TableAt g → ∃ h t init, σ.program.Has g h t (.globalAlloc init)
  apart : ∀ {g}, σ.VariableAt g → ¬ σ.TableAt g

/-- The slot of a variable is allocated, and not computed from another address. -/
theorem Guarded.not_computed {x : Koopa.ValueDef} {h : Option FnId} {t : Koopa.Ty} (guarded : Guarded σ)
    (isVariable : σ.VariableAt a) (has : σ.program.Has a h t x) :
    (∀ b i, x ≠ .getElemPtr b i) ∧ ∀ b i, x ≠ .getPtr b i := by
  obtain ⟨_, _, y, has', isSlot⟩ := guarded.slots isVariable
  obtain ⟨-, -, rfl⟩ := has'.unique has
  rcases isSlot with rfl | ⟨_, rfl⟩ <;> exact ⟨nofun, nofun⟩

/-- An address that may be written to is not inside the table of a constant. -/
theorem Writable.not_inside (guarded : Guarded σ) (writable : Writable σ a) (table : σ.TableAt g) :
    ¬ σ.program.Inside a g := by
  obtain ⟨_, _, init, isTable⟩ := guarded.tables table
  intro inside
  induction inside with
  | whole =>
    cases writable with
    | named isVariable => exact guarded.apart isVariable table
    | slot has => cases (has.unique isTable).2.2
    | loaded has => cases (has.unique isTable).2.2
    | elem has _ => cases (has.unique isTable).2.2
    | next has _ => cases (has.unique isTable).2.2
  | elem here _ ih =>
    cases writable with
    | named isVariable => exact absurd rfl ((guarded.not_computed isVariable here).1 _ _)
    | slot has => cases (has.unique here).2.2
    | loaded has => cases (has.unique here).2.2
    | elem has writable =>
      cases (has.unique here).2.2
      exact ih writable table isTable
    | next has _ => cases (has.unique here).2.2
  | next here _ ih =>
    cases writable with
    | named isVariable => exact absurd rfl ((guarded.not_computed isVariable here).2 _ _)
    | slot has => cases (has.unique here).2.2
    | loaded has => cases (has.unique here).2.2
    | elem has _ => cases (has.unique here).2.2
    | next has writable =>
      cases (has.unique here).2.2
      exact ih writable table isTable

/-! ## Later states -/

/-- A later state: values and symbols stay. -/
structure Since (σ σ' : State) : Prop where
  values : ∀ {v h t x}, σ.program.Has v h t x → σ'.program.Has v h t x
  symbols : ∀ {s}, s ∈ σ.symbols.symbols → s ∈ σ'.symbols.symbols

theorem Since.refl (σ : State) : Since σ σ := ⟨id, id⟩

theorem Since.trans (h : Since σ σ') (h' : Since σ' σ'') : Since σ σ'' :=
  ⟨fun has => h'.values (h.values has), fun mem => h'.symbols (h.symbols mem)⟩

theorem Writable.since (since : Since σ σ') (writable : Writable σ a) : Writable σ' a := by
  induction writable with
  | named isVariable =>
    obtain ⟨s, mem, meaning⟩ := isVariable
    exact .named ⟨s, since.symbols mem, meaning⟩
  | slot has => exact .slot (since.values has)
  | loaded has => exact .loaded (since.values has)
  | elem has _ ih => exact .elem (since.values has) ih
  | next has _ ih => exact .next (since.values has) ih

/-- A later program without new stores. -/
structure AddsNoStore (p p' : Koopa.Program) : Prop where
  values : ∀ {v h t x}, p.Has v h t x → p'.Has v h t x
  stores : ∀ {v h t x a}, p'.Has v h t (.store x a) → p.Has v h t (.store x a)

theorem AddsNoStore.refl (p : Koopa.Program) : AddsNoStore p p := ⟨id, id⟩

theorem AddsNoStore.trans {p₁ p₂ p₃ : Koopa.Program} (h : AddsNoStore p₁ p₂)
    (h' : AddsNoStore p₂ p₃) : AddsNoStore p₁ p₃ :=
  ⟨fun has => h'.values (h.values has), fun has => h.stores (h'.stores has)⟩

/-- A later state without new symbols and new stores. -/
structure Quiet (σ σ' : State) : Prop extends AddsNoStore σ.program σ'.program where
  symbols : σ'.symbols.symbols = σ.symbols.symbols

theorem Quiet.refl (σ : State) : Quiet σ σ := ⟨.refl _, rfl⟩

theorem Quiet.trans (h : Quiet σ σ') (h' : Quiet σ' σ'') : Quiet σ σ'' :=
  ⟨h.toAddsNoStore.trans h'.toAddsNoStore, h'.symbols.trans h.symbols⟩

theorem Quiet.since (quiet : Quiet σ σ') : Since σ σ' :=
  ⟨quiet.values, fun mem => by rw [quiet.symbols]; exact mem⟩

/-- Symbols stay in order while values are added. -/
theorem Guarded.later (guarded : Guarded σ) (since : Since σ σ')
    (symbols : σ'.symbols.symbols = σ.symbols.symbols)
    (stores : ∀ {v h t x a}, σ'.program.Has v h t (.store x a) →
      σ.program.Has v h t (.store x a) ∨ Writable σ' a) : Guarded σ' := by
  have slots : ∀ {g}, σ'.VariableAt g → σ.VariableAt g := fun ⟨s, mem, meaning⟩ =>
    ⟨s, symbols ▸ mem, meaning⟩
  have tables : ∀ {g}, σ'.TableAt g → σ.TableAt g := fun ⟨s, mem, meaning⟩ =>
    ⟨s, symbols ▸ mem, meaning⟩
  refine ⟨fun has => ?_, fun isVariable => ?_, fun table => ?_, fun isVariable table =>
    guarded.apart (slots isVariable) (tables table)⟩
  · rcases stores has with old | writable
    · exact (guarded.stores old).since since
    · exact writable
  · obtain ⟨h, t, x, has, isSlot⟩ := guarded.slots (slots isVariable)
    exact ⟨h, t, x, since.values has, isSlot⟩
  · obtain ⟨h, t, init, has⟩ := guarded.tables (tables table)
    exact ⟨h, t, init, since.values has⟩

theorem Guarded.quiet (guarded : Guarded σ) (quiet : Quiet σ σ') : Guarded σ' :=
  guarded.later quiet.since quiet.symbols fun has => .inl (quiet.stores has)

/-! ## Operations -/

/-- An operation that, if it succeeds, only adds values, and no store. -/
structure Hushed (m : Lower α) : Prop where
  quiet : ∀ {σ a σ'}, m σ = .ok a σ' → Quiet σ σ'

/-- An operation that is run in `σ` and, if it succeeds, leads to a state that is in order. -/
structure Guards (σ : State) (m : Lower α) (Q : α → State → Prop) : Prop where
  ok : ∀ {a σ'}, m σ = .ok a σ' → Guarded σ' ∧ Since σ σ' ∧ Q a σ'

/-- An operation that can be run in every state that is in order. -/
structure Guarding (m : Lower α) : Prop where
  guards : ∀ {σ}, Guarded σ → Guards σ m fun _ _ => True

namespace Hushed

theorem pure (a : α) : Hushed (pure a) := ⟨fun e => by cases e; exact .refl _⟩

theorem throw (f : Failure) : Hushed (throw f : Lower α) := ⟨fun e => (nomatch e)⟩

theorem raise (e : Diag.Error) : Hushed (raise e : Lower α) := throw _

theorem bind {m : Lower α} {f : α → Lower β} (h : Hushed m) (next : ∀ a, Hushed (f a)) :
    Hushed (m >>= f) := by
  constructor
  intro σ b σ' e
  obtain ⟨a, σ₁, first, second⟩ := bind_eq_ok.mp e
  exact (h.quiet first).trans ((next a).quiet second)

theorem lift (o : Outcome α) : Hushed (Lower.lift o) := by
  cases o with
  | ok a => exact pure a
  | error f => exact throw f

/-- An operation that changes neither values nor symbols. -/
theorem of_values {m : Lower α} (h : ∀ {σ a σ'}, m σ = .ok a σ' →
    σ'.program.values = σ.program.values ∧ σ'.symbols.symbols = σ.symbols.symbols) : Hushed m := by
  constructor
  intro σ a σ' e
  obtain ⟨values, symbols⟩ := h e
  have same : ∀ {v h t x}, σ'.program.Has v h t x ↔ σ.program.Has v h t x := by
    unfold Koopa.Program.Has Koopa.Program.value?
    rw [values]
  exact ⟨⟨same.mpr, same.mp⟩, symbols⟩

end Hushed

theorem Hushed.guarding {m : Lower α} (h : Hushed m) : Guarding m :=
  ⟨fun guarded => ⟨fun e => ⟨guarded.quiet (h.quiet e), (h.quiet e).since, trivial⟩⟩⟩

namespace Guards

variable {m : Lower α} {f : α → Lower β} {Q : α → State → Prop} {R : β → State → Prop}

theorem pure {a : α} (guarded : Guarded σ) (q : Q a σ) : Guards σ (pure a) Q :=
  ⟨fun e => by cases e; exact ⟨guarded, .refl _, q⟩⟩

theorem bind (h : Guards σ m Q)
    (next : ∀ {a σ'}, Guarded σ' → Since σ σ' → Q a σ' → Guards σ' (f a) R) :
    Guards σ (m >>= f) R := by
  constructor
  intro b σ' e
  obtain ⟨a, σ₁, first, second⟩ := bind_eq_ok.mp e
  obtain ⟨guarded₁, since₁, q⟩ := h.ok first
  obtain ⟨guarded₂, since₂, r⟩ := (next guarded₁ since₁ q).ok second
  exact ⟨guarded₂, since₁.trans since₂, r⟩

/-- What comes after an operation that adds no store. -/
theorem after (h : Hushed m) (guarded : Guarded σ)
    (next : ∀ {a σ'}, Guarded σ' → Since σ σ' → Guards σ' (f a) R) : Guards σ (m >>= f) R :=
  (h.guarding.guards guarded).bind fun guarded' since _ => next guarded' since

/-- A check that comes before the rest. -/
theorem refuse {bad : Prop} [Decidable bad] {e : Failure} {next : Unit → Lower β}
    (h : Guards σ (next ()) R) :
    Guards σ (if bad then (throw e : Lower Unit) >>= next else next ()) R := by
  split
  · exact ⟨fun ok => (nomatch ok)⟩
  · exact h

theorem mono {R : α → State → Prop} (h : Guards σ m Q) (weaker : ∀ {a σ'}, Q a σ' → R a σ') :
    Guards σ m R := ⟨fun e => by
  obtain ⟨guarded, since, q⟩ := h.ok e
  exact ⟨guarded, since, weaker q⟩⟩

end Guards

namespace Guarding

theorem pure (a : α) : Guarding (pure a) := (Hushed.pure a).guarding

theorem raise (e : Diag.Error) : Guarding (raise e : Lower α) := (Hushed.raise e).guarding

theorem throw (f : Failure) : Guarding (throw f : Lower α) := (Hushed.throw f).guarding

theorem lift (o : Outcome α) : Guarding (Lower.lift o) := (Hushed.lift o).guarding

theorem bind {m : Lower α} {f : α → Lower β} (h : Guarding m) (next : ∀ a, Guarding (f a)) :
    Guarding (m >>= f) :=
  ⟨fun guarded => (h.guards guarded).bind fun {a _} guarded₁ _ _ => (next a).guards guarded₁⟩

/-- A check that comes before the rest. -/
theorem guard {bad : Prop} [Decidable bad] {fails : Lower Unit} {f : Unit → Lower α}
    (h : Guarding fails) (next : ∀ u, Guarding (f u)) :
    Guarding (if bad then fails >>= f else f ()) := by
  split
  · exact h.bind next
  · exact next ()

theorem of_guards {m : Lower α} {Q : α → State → Prop}
    (h : ∀ {σ}, Guarded σ → Guards σ m Q) : Guarding m :=
  ⟨fun guarded => (h guarded).mono fun _ => trivial⟩

end Guarding

/-! ## Steps -/

/-- One value was added. -/
structure Appends (σ : State) (x : Koopa.ValueDef) (v : ValueId) (σ' : State) : Prop where
  has : ∃ h t, σ'.program.Has v h t x
  values : ∀ {w h t y}, σ.program.Has w h t y → σ'.program.Has w h t y
  only : ∀ {w h t y}, σ'.program.Has w h t y → σ.program.Has w h t y ∨ y = x
  symbols : σ'.symbols.symbols = σ.symbols.symbols
  new : ∀ {h t y}, ¬ σ.program.Has v h t y

section Steps

variable {x : Koopa.ValueDef}

theorem Appends.since (appends : Appends σ x v σ') : Since σ σ' :=
  ⟨appends.values, fun mem => by rw [appends.symbols]; exact mem⟩

theorem Appends.quiet (appends : Appends σ x v σ') (other : ∀ y a, x ≠ .store y a) : Quiet σ σ' :=
  ⟨⟨appends.values, fun has => (appends.only has).resolve_right fun same => other _ _ same.symm⟩,
    appends.symbols⟩

theorem appends_insert (σ : State) (y : Koopa.Value) : Appends σ y.defn (σ.program.values.size + 1)
    (σ.withProgram (σ.program.insert y).2) :=
  ⟨⟨_, _, Koopa.Program.has_insert ..⟩, fun has => Koopa.Program.has_insert_iff.mpr (.inl has),
    fun has => (Koopa.Program.has_insert_iff.mp has).imp_right fun same => same.2.2.2, rfl,
    fun has => Nat.not_succ_le_self _ has.le_size.2⟩

theorem Appends.then_quiet (appends : Appends σ x v σ') (values : σ''.program.values =
    σ'.program.values) (symbols : σ''.symbols.symbols = σ'.symbols.symbols) :
    Appends σ x v σ'' := by
  have same : ∀ {v h t x}, σ''.program.Has v h t x ↔ σ'.program.Has v h t x := by
    unfold Koopa.Program.Has Koopa.Program.value?
    rw [values]
  obtain ⟨h, t, has⟩ := appends.has
  exact ⟨⟨h, t, same.mpr has⟩, fun has => same.mpr (appends.values has),
    fun has => appends.only (same.mp has), symbols.trans appends.symbols, appends.new⟩

/-- Appending an instruction to a block changes no value. -/
theorem emit_values {v : ValueId} (e : emit v σ = .ok () σ') :
    σ'.program.values = σ.program.values ∧ σ'.symbols = σ.symbols := by
  unfold emit at e
  rw [get_bind] at e
  split at e
  · obtain ⟨d, σ₁, found, e⟩ := bind_eq_ok.mp e
    obtain ⟨-, rfl⟩ := lift_ok found
    cases here : d.insts? σ₁.frame.block with
    | none => simp only [here] at e; cases e
    | some is =>
      simp only [here] at e
      cases pushed : d.pushInst σ₁.frame.block v with
      | ok d' =>
        simp only [pushed] at e
        cases e
        exact ⟨rfl, rfl⟩
      | error t =>
        simp only [pushed] at e
        obtain ⟨_, _, _, e⟩ := bind_eq_ok.mp e
        cases e
  · cases e
    exact ⟨rfl, rfl⟩

theorem tryMake_appends {f : Koopa.Program → FnId → Outcome (ValueId × Koopa.Program)}
    (inserts : ∀ {p fn r}, f p fn = .ok r → ∃ h t n, r = p.insert ⟨h, t, x, n⟩)
    (e : tryMake f σ = .ok v σ') : Appends σ x v σ' := by
  unfold tryMake at e
  rw [get_bind] at e
  cases made : f σ.program σ.frame.fn with
  | error g => rw [made] at e; cases e
  | ok r =>
    obtain ⟨h, t, n, rfl⟩ := inserts made
    rw [made] at e
    cases e
    exact appends_insert σ ⟨h, t, x, n⟩

theorem make_appends {f : Koopa.Program → FnId → ValueId × Koopa.Program}
    (inserts : ∀ p fn, ∃ h t n, f p fn = p.insert ⟨h, t, x, n⟩) (e : make f σ = .ok v σ') :
    Appends σ x v σ' :=
  tryMake_appends (f := fun p fn => .ok (f p fn)) (fun made => Except.ok.inj made ▸ inserts _ _) e

theorem tryEmitNew_appends {f : Koopa.Program → FnId → Outcome (ValueId × Koopa.Program)}
    (inserts : ∀ {p fn r}, f p fn = .ok r → ∃ h t n, r = p.insert ⟨h, t, x, n⟩)
    (e : tryEmitNew f σ = .ok v σ') : Appends σ x v σ' := by
  unfold tryEmitNew at e
  obtain ⟨u, σ₁, made, e⟩ := bind_eq_ok.mp e
  obtain ⟨_, σ₂, emitted, e⟩ := bind_eq_ok.mp e
  cases e
  obtain ⟨values, symbols⟩ := emit_values emitted
  exact (tryMake_appends inserts made).then_quiet values (by rw [symbols])

theorem emitNew_appends {f : Koopa.Program → FnId → ValueId × Koopa.Program}
    (inserts : ∀ p fn, ∃ h t n, f p fn = p.insert ⟨h, t, x, n⟩) (e : emitNew f σ = .ok v σ') :
    Appends σ x v σ' :=
  tryEmitNew_appends (f := fun p fn => .ok (f p fn)) (fun made => Except.ok.inj made ▸ inserts _ _) e

/-- An instruction that is no store. -/
theorem tryEmitNew_guards {f : Koopa.Program → FnId → Outcome (ValueId × Koopa.Program)}
    (inserts : ∀ {p fn r}, f p fn = .ok r → ∃ h t n, r = p.insert ⟨h, t, x, n⟩)
    (other : ∀ y a, x ≠ .store y a) (guarded : Guarded σ) :
    Guards σ (tryEmitNew f) fun v σ' => ∃ h t, σ'.program.Has v h t x := ⟨fun e => by
  have appends := tryEmitNew_appends inserts e
  exact ⟨guarded.quiet (appends.quiet other), appends.since, appends.has⟩⟩

theorem tryEmitNew_hushed {f : Koopa.Program → FnId → Outcome (ValueId × Koopa.Program)}
    (inserts : ∀ {p fn r}, f p fn = .ok r → ∃ h t n, r = p.insert ⟨h, t, x, n⟩)
    (other : ∀ y a, x ≠ .store y a) : Hushed (tryEmitNew f) :=
  ⟨fun e => (tryEmitNew_appends inserts e).quiet other⟩

theorem emitNew_hushed {f : Koopa.Program → FnId → ValueId × Koopa.Program}
    (inserts : ∀ p fn, ∃ h t n, f p fn = p.insert ⟨h, t, x, n⟩) (other : ∀ y a, x ≠ .store y a) :
    Hushed (emitNew f) := ⟨fun e => (emitNew_appends inserts e).quiet other⟩

theorem make_hushed {f : Koopa.Program → FnId → ValueId × Koopa.Program}
    (inserts : ∀ p fn, ∃ h t n, f p fn = p.insert ⟨h, t, x, n⟩) (other : ∀ y a, x ≠ .store y a) :
    Hushed (make f) := ⟨fun e => (make_appends inserts e).quiet other⟩

/-- A store to an address that may be written to. -/
theorem store_guards {w dest : ValueId} (guarded : Guarded σ) (writable : Writable σ dest) :
    Guards σ (tryEmitNew (·.store · w dest)) fun _ _ => True := by
  constructor
  intro v σ' e
  have appends := tryEmitNew_appends Koopa.Program.store_inserts e
  refine ⟨guarded.later appends.since appends.symbols fun has => ?_, appends.since, trivial⟩
  refine (appends.only has).imp_right fun same => ?_
  cases same
  exact writable.since appends.since

theorem alloc_guards (t : Koopa.Ty) (guarded : Guarded σ) :
    Guards σ (emitNew (·.alloc · t)) fun v σ' => Writable σ' v ∧
      ∃ h t, σ'.program.Has v h t .alloc := by
  constructor
  intro v σ' e
  have appends := emitNew_appends (x := .alloc) (fun _ _ => ⟨_, _, _, rfl⟩) e
  obtain ⟨h, t, has⟩ := appends.has
  exact ⟨guarded.quiet (appends.quiet (by simp)), appends.since, .slot has, h, t, has⟩

theorem integer_hushed (n : Int32) : Hushed (integer n) :=
  make_hushed (x := .integer n) (fun _ _ => ⟨_, _, _, rfl⟩) (by simp)

theorem binary_hushed (op : Koopa.Op) (l r : ValueId) : Hushed (emitNew (·.binary · op l r)) :=
  emitNew_hushed (x := .binary op l r) (fun _ _ => ⟨_, _, _, rfl⟩) (by simp)

theorem load_hushed (src : ValueId) : Hushed (tryEmitNew (·.load · src)) :=
  tryEmitNew_hushed Koopa.Program.load_inserts (by simp)

theorem getElemPtr_hushed (src i : ValueId) : Hushed (tryEmitNew (·.getElemPtr · src i)) :=
  tryEmitNew_hushed Koopa.Program.getElemPtr_inserts (by simp)

theorem emit_hushed (v : ValueId) : Hushed (emit v) := .of_values fun e => by
  obtain ⟨values, symbols⟩ := emit_values e
  exact ⟨values, by rw [symbols]⟩

theorem modifyFrame_hushed (f : Frame → Frame) : Hushed (modifyFrame f) := .of_values fun e => by
  cases e
  exact ⟨rfl, rfl⟩

theorem isOpen_hushed : Hushed isOpen := .of_values fun e => by
  cases e
  exact ⟨rfl, rfl⟩

theorem get_hushed : Hushed (get : Lower State) := .of_values fun e => by
  cases e
  exact ⟨rfl, rfl⟩

theorem env_hushed : Hushed env := get_hushed.bind fun _ => .pure _

theorem sealTo_hushed (v : ValueId) (b : BlockId) : Hushed (sealTo v b) :=
  isOpen_hushed.bind fun _ => (emit_hushed v).bind fun _ => modifyFrame_hushed _

theorem sealOff_hushed (v : ValueId) : Hushed (sealOff v) :=
  (emit_hushed v).bind fun _ => modifyFrame_hushed _

theorem jump_hushed (b : BlockId) : Hushed (jump b) :=
  (make_hushed (x := .jump b) (fun _ _ => ⟨_, _, _, rfl⟩) (by simp)).bind fun _ => sealOff_hushed _

theorem branch_hushed (cond : ValueId) (b b' : BlockId) : Hushed (make (·.branch · cond b b')) :=
  make_hushed (x := .branch cond b b') (fun _ _ => ⟨_, _, _, rfl⟩) (by simp)

theorem newBlock_hushed : Hushed newBlock := .of_values fun {σ b σ'} e => by
  unfold newBlock at e
  rw [get_bind] at e
  obtain ⟨_, σ₁, first, e⟩ := bind_eq_ok.mp e
  cases first
  obtain ⟨d, σ₂, found, e⟩ := bind_eq_ok.mp e
  obtain ⟨-, rfl⟩ := lift_ok found
  cases pushed : d.pushBlock (σ.program.blocks.size + 1) with
  | ok d' =>
    simp only [pushed] at e
    cases e
    exact ⟨rfl, rfl⟩
  | error t =>
    simp only [pushed] at e
    cases e

/-- Naming a value changes nothing else. -/
theorem rename_quiet {v : ValueId} {x : Koopa.Value} (name : String)
    (found : σ.program.value? v = some x) : Quiet σ (σ.withProgram (σ.program.rename v name)) :=
  ⟨⟨(Koopa.Program.has_rename_iff found).mpr, (Koopa.Program.has_rename_iff found).mp⟩, rfl⟩

theorem setName_hushed (v : ValueId) (name : String) : Hushed (setName v name) := by
  constructor
  intro σ a σ' e
  unfold setName at e
  rw [get_bind] at e
  obtain ⟨p, σ₁, first, rest⟩ := bind_eq_ok.mp e
  obtain ⟨named, rfl⟩ := lift_ok first
  obtain ⟨x, found, named⟩ := Except.bind_eq_ok.mp named
  cases named
  cases rest
  exact rename_quiet name (Koopa.Program.value?_of_value found)

end Steps

end Lower
end SysY

import SysY.Lower.Unit
import SysY.Proofs.Syntax.Blank
import SysY.Proofs.Symbol.Scopes

/-! # States of lowering without spans

Lowering keeps spans in its state, for the diagnostics that it may have to raise: symbols know where
they were declared, and the function that is being built knows where its name stands. `Parallel`
relates two operations that start from states that differ in their spans only: they have related
results, or fail with failures that differ in their places, and they end in such states again. An
operation that is parallel to itself is `Blind`. -/

namespace SysY

open Koopa (ValueId BlockId)

/-! ## Symbols without spans -/

/-- A symbol without its span. -/
def Symbol.blank (s : Symbol) : Symbol := { s with span := {} }

/-- Symbols that differ in their spans only. -/
abbrev Symbol.Same (s s' : Symbol) : Prop := s.blank = s'.blank

theorem Symbol.same_cases {o o' : Option Symbol} (same : o.map blank = o'.map blank) :
    (o = none ∧ o' = none) ∨ ∃ s s', o = some s ∧ o' = some s' ∧ s.Same s' := by
  cases o with
  | none => exact .inl ⟨rfl, Option.map_eq_none_iff.mp same.symm⟩
  | some s =>
    obtain ⟨s', found, symbols⟩ := Option.map_eq_some_iff.mp same.symm
    exact .inr ⟨s, s', rfl, found, symbols.symm⟩

namespace SymbolTable

/-- A table without the spans of its symbols. -/
def blank (t : SymbolTable) : SymbolTable := t.map Symbol.blank

/-- An attempt to bind a name, without spans. -/
def Attempt.blank (a : Attempt) : Attempt := { a with existing := a.existing.map Symbol.blank }

variable (t : SymbolTable) (s : Symbol)

theorem bindGlobal_blank : t.blank.bindGlobal s.blank = (t.bindGlobal s).blank :=
  t.bindGlobal_map (f := Symbol.blank) (fun _ => rfl) s

theorem insert_blank : t.blank.insert s.blank = ((t.insert s).1.blank, (t.insert s).2.blank) := by
  cases scopes : t.locals with
  | nil =>
    unfold insert
    rw [show t.blank.locals = [] from scopes, scopes]
    dsimp only
    rw [show t.blank.globalId? s.blank.name = t.globalId? s.name from rfl]
    cases t.globalId? s.name with
    | some id => exact congrArg (fun e => (Attempt.mk false e, t.blank)) (t.get?_map _ id)
    | none => exact congrArg (Prod.mk _) (t.bindGlobal_blank s)
  | cons inner outer =>
    have scopes' : t.blank.locals = inner :: outer := scopes
    cases bound : inner.find? s.name with
    | some id =>
      rw [insert_taken scopes bound, insert_taken scopes' (s := s.blank) bound]
      exact congrArg (fun e => (Attempt.mk false e, t.blank)) (t.get?_map _ id)
    | none =>
      rw [insert_fresh scopes bound, insert_fresh scopes' (s := s.blank) bound]
      exact congrArg (Prod.mk _) (t.bound_map (f := Symbol.blank) (fun _ => rfl) s inner outer)

theorem define_blank : t.blank.define s.blank = ((t.define s).1.blank, (t.define s).2.blank) := by
  unfold define
  rw [show s.blank.name = s.name from rfl, blank, findGlobal?_map, ← blank]
  cases t.findGlobal? s.name with
  | none => exact congrArg (Prod.mk _) (t.bindGlobal_blank s)
  | some old =>
    dsimp only [Option.map_some]
    rw [show old.blank.isFunction = old.isFunction from rfl,
      show old.blank.isDefined = old.isDefined from rfl,
      show s.blank.isFunction = s.isFunction from rfl]
    split
    · exact congrArg (Prod.mk _) (t.bindGlobal_blank s)
    · rfl

theorem declare_blank :
    t.blank.declare s.blank = ((t.declare s).1.blank, (t.declare s).2.blank) := by
  unfold declare
  rw [show s.blank.name = s.name from rfl, blank, findGlobal?_map, ← blank]
  cases t.findGlobal? s.name with
  | none => exact congrArg (Prod.mk _) (t.bindGlobal_blank s)
  | some old => rfl

section Same

variable {t t' : SymbolTable} {s s' : Symbol} (tables : t.blank = t'.blank)
  (symbols : s.blank = s'.blank)

include tables symbols

theorem insert_same : ((t.insert s).1.blank, (t.insert s).2.blank) =
    ((t'.insert s').1.blank, (t'.insert s').2.blank) := by
  rw [← insert_blank, ← insert_blank, tables, symbols]

theorem define_same : ((t.define s).1.blank, (t.define s).2.blank) =
    ((t'.define s').1.blank, (t'.define s').2.blank) := by
  rw [← define_blank, ← define_blank, tables, symbols]

theorem declare_same : ((t.declare s).1.blank, (t.declare s).2.blank) =
    ((t'.declare s').1.blank, (t'.declare s').2.blank) := by
  rw [← declare_blank, ← declare_blank, tables, symbols]

end Same

variable {r r' : Attempt × SymbolTable}

/-- Two attempts that are the same without spans, with what each has left. -/
theorem attempts_same (same : (r.1.blank, r.2.blank) = (r'.1.blank, r'.2.blank)) :
    ∃ accepted u u', u.blank = u'.blank ∧
      ((r = (⟨accepted, none⟩, u) ∧ r' = (⟨accepted, none⟩, u')) ∨
        ∃ old old', r = (⟨accepted, some old⟩, u) ∧ r' = (⟨accepted, some old'⟩, u')) := by
  obtain ⟨⟨accepted, existing⟩, u⟩ := r
  obtain ⟨⟨accepted', existing'⟩, u'⟩ := r'
  obtain ⟨⟨rfl, previous⟩, tables⟩ : (accepted = accepted' ∧
      existing.map Symbol.blank = existing'.map Symbol.blank) ∧ u.blank = u'.blank := by
    simpa only [Prod.mk.injEq, Attempt.blank, Attempt.mk.injEq] using same
  refine ⟨accepted, u, u', tables, ?_⟩
  obtain ⟨rfl, rfl⟩ | ⟨old, old', rfl, rfl, -⟩ := Symbol.same_cases previous
  · exact .inl ⟨rfl, rfl⟩
  · exact .inr ⟨old, old', rfl, rfl⟩

end SymbolTable

namespace Lower

/-! ## States that differ in their spans -/

/-- A state without spans. -/
def State.blank (σ : State) : State :=
  { σ with symbols := σ.symbols.blank, frame := { σ.frame with span := {} } }

/-- How two runs end that differ in spans only: with results that are related, or with the same
failure at different places. -/
inductive EndAlike {α β : Type} (R : α → β → Prop) :
    EStateM.Result Failure State α → EStateM.Result Failure State β → Prop
  | ok {a : α} {b : β} {σ τ : State} (related : R a b) (same : σ.blank = τ.blank) :
    EndAlike R (.ok a σ) (.ok b τ)
  | error {e f : Failure} {σ τ : State} (related : e.blank = f.blank) (same : σ.blank = τ.blank) :
    EndAlike R (.error e σ) (.error f τ)

/-- Two operations that run in parallel from states that differ in their spans only. -/
def Parallel {α β : Type} (R : α → β → Prop) (m : Lower α) (n : Lower β) : Prop :=
  ∀ σ τ : State, σ.blank = τ.blank → EndAlike R (m σ) (n τ)

/-- An operation that does not look at spans. -/
abbrev Blind {α : Type} (m : Lower α) : Prop := Parallel Eq m m

section Combinators

variable {α β α' β' : Type} {R : α → β → Prop} {S : α' → β' → Prop} {m : Lower α} {n : Lower β}
  {f : α → Lower α'} {g : β → Lower β'} {σ τ : State}

theorem pure_parallel {a : α} {b : β} (related : R a b) :
    Parallel R (pure a : Lower α) (pure b : Lower β) := fun _ _ same => .ok related same

theorem throw_parallel {d e : Failure} (same : d.blank = e.blank) :
    Parallel R (throw d : Lower α) (throw e : Lower β) := fun _ _ states => .error same states

theorem raise_parallel {d e : Diag.Error} (same : d.blank = e.blank) :
    Parallel R (raise d : Lower α) (raise e : Lower β) :=
  throw_parallel (d := .error d) (e := .error e) (congrArg Failure.error same)

/-- Nothing comes after an error. -/
theorem stop_parallel {d e : Diag.Error} (same : d.blank = e.blank) {f : α → Lower α'}
    {g : β → Lower β'} :
    Parallel S (raise d >>= f) (raise e >>= g) :=
  throw_parallel (d := .error d) (e := .error e) (congrArg Failure.error same)

theorem lift_parallel {x : Outcome α} {y : Outcome β} (same : Outcome.Same R x y) :
    Parallel R (lift x) (lift y) := by
  cases same with
  | ok related => exact pure_parallel related
  | error related => exact throw_parallel related

theorem Parallel.bind (first : Parallel R m n) (next : ∀ a b, R a b → Parallel S (f a) (g b)) :
    Parallel S (m >>= f) (n >>= g) := fun σ τ same => by
  have ends := first σ τ same
  change EndAlike S (EStateM.bind m f σ) (EStateM.bind n g τ)
  rw [EStateM.bind, EStateM.bind]
  generalize m σ = x, n τ = y at ends
  cases ends with
  | ok related states => exact next _ _ related _ _ states
  | error related states => exact .error related states

/-- Two operations with the same result, one after another. -/
theorem Parallel.next {m n : Lower α} {g : α → Lower β'} (first : Parallel Eq m n)
    (rest : ∀ a, Parallel S (f a) (g a)) : Parallel S (m >>= f) (n >>= g) :=
  first.bind fun a _ eq => eq ▸ rest a

theorem Parallel.symm {m n : Lower α} (h : Parallel Eq m n) : Parallel Eq n m := fun σ τ same => by
  have ends := h τ σ same.symm
  generalize m τ = x, n σ = y at ends
  cases ends with
  | ok related states => exact .ok related.symm states.symm
  | error related states => exact .error related.symm states.symm

theorem Parallel.trans {m n k : Lower α} (h : Parallel Eq m n) (h' : Parallel Eq n k) :
    Parallel Eq m k := fun σ τ same => by
  have ends := h σ σ rfl
  have ends' := h' σ τ same
  generalize m σ = x, n σ = y, k τ = z at ends ends'
  cases ends with
  | ok related states =>
    cases ends' with
    | ok related' states' => exact .ok (related.trans related') (states.trans states')
  | error related states =>
    cases ends' with
    | error related' states' => exact .error (related.trans related') (states.trans states')

theorem get_parallel {f : State → Lower α'} {g : State → Lower β'}
    (next : ∀ σ τ, σ.blank = τ.blank → Parallel S (f σ) (g τ)) :
    Parallel S (get >>= f) (get >>= g) := fun σ τ same => next σ τ same σ τ same

theorem set_parallel (same : σ.blank = τ.blank) : Parallel Eq (set σ : Lower PUnit) (set τ) :=
  fun _ _ _ => .ok rfl same

theorem modify_parallel {f g : State → State} (same : ∀ σ τ, σ.blank = τ.blank →
    (f σ).blank = (g τ).blank) : Parallel Eq (modify f : Lower PUnit) (modify g) :=
  fun σ τ states => .ok rfl (same σ τ states)

theorem map_parallel {m n : Lower α} (g : α → α') (h : Parallel Eq m n) :
    Parallel Eq (g <$> m) (g <$> n) :=
  h.next (f := fun a => pure (g a)) (g := fun a => pure (g a)) fun _ => pure_parallel rfl

theorem ite_parallel {c : Prop} [Decidable c] {m' : Lower α} {n' : Lower β}
    (yes : c → Parallel R m n) (no : ¬ c → Parallel R m' n') :
    Parallel R (if c then m else m') (if c then n else n') := by
  split
  · exact yes ‹_›
  · exact no ‹_›

theorem forM_parallel {α : Type} {f g : α → Lower PUnit} {h : α → α}
    (each : ∀ a, Parallel Eq (f a) (g (h a))) (as : List α) :
    Parallel Eq (as.forM f) ((as.map h).forM g) := by
  induction as with
  | nil => exact pure_parallel rfl
  | cons a as ih => exact (each a).next fun _ => ih

/-- A check ahead of the rest. -/
theorem check_parallel {c : Prop} [Decidable c] {m n : Lower PUnit} {f : PUnit → Lower α'}
    {g : PUnit → Lower β'} (stops : Parallel Eq m n) (rest : Parallel S (f ⟨⟩) (g ⟨⟩)) :
    Parallel S (if c then m >>= f else f ⟨⟩) (if c then n >>= g else g ⟨⟩) :=
  ite_parallel (fun _ => stops.next fun _ => rest) fun _ => rest

end Combinators

/-! ## What is read from a state -/

section Read

variable {σ τ : State}

theorem program_same (same : σ.blank = τ.blank) : σ.program = τ.program :=
  congrArg (·.program) same

theorem fn_same (same : σ.blank = τ.blank) : σ.frame.fn = τ.frame.fn :=
  congrArg (·.frame.fn) same

theorem ret_same (same : σ.blank = τ.blank) : σ.frame.ret = τ.frame.ret :=
  congrArg (·.frame.ret) same

theorem block_same (same : σ.blank = τ.blank) : σ.frame.block = τ.frame.block :=
  congrArg (·.frame.block) same

theorem isOpen_same (same : σ.blank = τ.blank) : σ.frame.isOpen = τ.frame.isOpen :=
  congrArg (·.frame.isOpen) same

theorem nextBlock_same (same : σ.blank = τ.blank) : σ.frame.nextBlock = τ.frame.nextBlock :=
  congrArg (·.frame.nextBlock) same

theorem loops_same (same : σ.blank = τ.blank) : σ.frame.loops = τ.frame.loops :=
  congrArg (·.frame.loops) same

theorem symbols_same (same : σ.blank = τ.blank) : σ.symbols.blank = τ.symbols.blank :=
  congrArg (·.symbols) same

theorem depth_same (same : σ.blank = τ.blank) : σ.symbols.depth = τ.symbols.depth :=
  congrArg (·.symbols.depth) same

theorem env_same (same : σ.blank = τ.blank) : σ.symbols.env = τ.symbols.env := by
  have env : ∀ t : SymbolTable, t.blank.env = t.env := fun t => t.env_map fun _ => rfl
  rw [← env, symbols_same same, env]

theorem globalEnv_same (same : σ.blank = τ.blank) :
    σ.symbols.globalEnv = τ.symbols.globalEnv := by
  have env : ∀ t : SymbolTable, t.blank.globalEnv = t.globalEnv := fun t =>
    t.globalEnv_map fun _ => rfl
  rw [← env, symbols_same same, env]

theorem find?_same (same : σ.blank = τ.blank) (name : String) :
    (σ.symbols.find? name = none ∧ τ.symbols.find? name = none) ∨
      ∃ s s', σ.symbols.find? name = some s ∧ τ.symbols.find? name = some s' ∧ s.Same s' := by
  apply Symbol.same_cases
  rw [← SymbolTable.find?_map, ← SymbolTable.find?_map]
  exact congrArg (·.find? name) (symbols_same same)

theorem findGlobal?_same (same : σ.blank = τ.blank) (name : String) :
    (σ.symbols.findGlobal? name = none ∧ τ.symbols.findGlobal? name = none) ∨
      ∃ s s', σ.symbols.findGlobal? name = some s ∧ τ.symbols.findGlobal? name = some s' ∧
        s.Same s' := by
  apply Symbol.same_cases
  rw [← SymbolTable.findGlobal?_map, ← SymbolTable.findGlobal?_map]
  exact congrArg (·.findGlobal? name) (symbols_same same)

end Read

/-- States stay the same when their symbols are replaced. -/
theorem withSymbols_same {σ τ : State} {t t' : SymbolTable} (same : σ.blank = τ.blank)
    (tables : t.blank = t'.blank) :
    ({ σ with symbols := t } : State).blank = ({ τ with symbols := t' } : State).blank :=
  congrArg₂ (fun (ρ : State) u => { ρ with symbols := u }) same tables

/-! ## Steps of a state -/

theorem modifyFrame_blind {f : Frame → Frame}
    (spans : ∀ r, { f r with span := {} } = f { r with span := {} }) : Blind (modifyFrame f) :=
  modify_parallel fun σ τ same => by
    have blank : ∀ ρ : State, ({ ρ with frame := f ρ.frame } : State).blank =
        { ρ.blank with frame := f ρ.blank.frame } := fun ρ => by
      change ({ ρ with symbols := _, frame := { f ρ.frame with span := {} } } : State) = _
      rw [spans]
      rfl
    rw [blank, same, blank]

theorem setProgram_blind (p : Koopa.Program) : Blind (setProgram p) :=
  modify_parallel fun _ _ same => congrArg (fun ρ => ({ ρ with program := p } : State)) same

theorem make_blind (f : Koopa.Program → Koopa.FnId → ValueId × Koopa.Program) : Blind (make f) :=
  get_parallel fun σ τ same => by
    rw [program_same same, fn_same same]
    exact (setProgram_blind _).next fun _ => pure_parallel rfl

theorem tryMake_blind (f : Koopa.Program → Koopa.FnId → Outcome (ValueId × Koopa.Program)) :
    Blind (tryMake f) :=
  get_parallel fun σ τ same => by
    rw [program_same same, fn_same same]
    exact (lift_parallel (.rfl _)).next fun r =>
      (setProgram_blind r.2).next fun _ => pure_parallel rfl

theorem integer_blind (n : Int32) : Blind (integer n) := make_blind _

theorem emit_blind (v : ValueId) : Blind (emit v) :=
  get_parallel fun σ τ same => by
    rw [program_same same, fn_same same, isOpen_same same, block_same same]
    refine ite_parallel (fun _ => ?_) fun _ => pure_parallel rfl
    refine (lift_parallel (.rfl _)).next fun f => ?_
    split
    · exact throw_parallel rfl
    · split
      · exact setProgram_blind _
      · exact (lift_parallel (.rfl _)).next fun b => raise_parallel rfl

theorem emitNew_blind (f : Koopa.Program → Koopa.FnId → ValueId × Koopa.Program) :
    Blind (emitNew f) :=
  (make_blind f).next fun v => (emit_blind v).next fun _ => pure_parallel rfl

theorem tryEmitNew_blind (f : Koopa.Program → Koopa.FnId → Outcome (ValueId × Koopa.Program)) :
    Blind (tryEmitNew f) :=
  (tryMake_blind f).next fun v => (emit_blind v).next fun _ => pure_parallel rfl

theorem newBlock_blind : Blind newBlock :=
  get_parallel fun σ τ same => by
    rw [program_same same, fn_same same, nextBlock_same same]
    refine (set_parallel ?_).next fun _ => (lift_parallel (.rfl _)).next fun f => ?_
    · exact congrArg (fun ρ : State => { ρ with
        program := (τ.program.newBlock τ.frame.fn s!"%bb{τ.frame.nextBlock}").2
        frame := { ρ.frame with nextBlock := τ.frame.nextBlock + 1 } }) same
    · dsimp only
      split
      · exact (setProgram_blind _).next fun _ => pure_parallel rfl
      · exact .next (raise_parallel rfl) fun _ => pure_parallel rfl

theorem isOpen_blind : Blind isOpen := get_parallel fun _ _ same => pure_parallel (isOpen_same same)

theorem switchTo_blind (b : BlockId) : Blind (switchTo b) := modifyFrame_blind fun _ => rfl

theorem sealTo_blind (term : ValueId) (next : BlockId) : Blind (sealTo term next) :=
  isOpen_blind.next fun _ => (emit_blind term).next fun _ => modifyFrame_blind fun _ => rfl

theorem sealOff_blind (term : ValueId) : Blind (sealOff term) :=
  (emit_blind term).next fun _ => modifyFrame_blind fun _ => rfl

theorem jump_blind (target : BlockId) : Blind (jump target) :=
  (make_blind _).next fun v => sealOff_blind v

/-- Work to be done in the end is done in both runs. -/
theorem andFinally_parallel {α : Type} {m n : Lower α} {after after' : State → Outcome State}
    (body : Parallel Eq m n) (ends : ∀ σ τ : State, σ.blank = τ.blank →
      Outcome.Same (fun σ' τ' => σ'.blank = τ'.blank) (after σ) (after' τ)) :
    Parallel Eq (andFinally m after) (andFinally n after') := fun σ τ same => by
  have first := body σ τ same
  unfold andFinally
  generalize m σ = x, n τ = y at first
  cases first with
  | @ok a b σ' τ' related states =>
    have last := ends _ _ states
    dsimp only
    generalize after σ' = x, after' τ' = y at last
    cases last with
    | ok states' => exact .ok related states'
    | error related' => exact .error related' states
  | @error e f σ' τ' related states =>
    have last := ends _ _ states
    dsimp only
    generalize after σ' = x, after' τ' = y at last
    cases last with
    | ok states' => exact .error related states'
    | error related' => exact .error related' states

theorem leave_same {t t' : SymbolTable} (same : t.blank = t'.blank) (depth : Nat) :
    Outcome.Same (fun u u' => u.blank = u'.blank) (t.leave depth) (t'.leave depth) := by
  have depths : t.depth = t'.depth := congrArg (·.depth) same
  have scopes : t.locals = t'.locals := congrArg (·.locals) same
  unfold SymbolTable.leave SymbolTable.pop
  rw [depths, ← scopes]
  split
  · cases t.locals with
    | nil => exact .error rfl
    | cons inner outer =>
      exact .ok (congrArg
        (fun u : SymbolTable => { u with locals := outer, pops := u.pops + 1 }) same)
  · exact .error rfl

theorem inScope_parallel {α : Type} (kind : ScopeKind) {m n : Lower α} (body : Parallel Eq m n) :
    Parallel Eq (inScope kind m) (inScope kind n) := by
  refine (modify_parallel fun _ _ same => ?_).next fun _ => get_parallel fun σ τ same => ?_
  · exact congrArg (fun ρ : State => { ρ with symbols := ρ.symbols.push kind }) same
  · dsimp only
    rw [depth_same same]
    refine andFinally_parallel body fun σ' τ' same => ?_
    exact (leave_same (symbols_same same) _).bind fun t t' tables =>
      .ok (withSymbols_same same tables)

theorem inLoop_parallel {α : Type} (targets : LoopTargets) {m n : Lower α}
    (body : Parallel Eq m n) : Parallel Eq (inLoop targets m) (inLoop targets n) := by
  refine (modifyFrame_blind fun _ => rfl).next fun _ => get_parallel fun σ τ same => ?_
  dsimp only
  rw [loops_same same]
  refine andFinally_parallel body fun σ' τ' same => ?_
  unfold Frame.popLoop
  rw [loops_same same]
  split
  · exact .ok (congrArg (fun ρ : State =>
      { ρ with frame := { ρ.frame with loops := τ'.frame.loops.tail } }) same)
  · exact .error rfl

/-- Symbols that differ in their spans are bound in parallel. -/
theorem declare_parallel {s s' : Symbol} (symbols : s.blank = s'.blank) :
    Parallel Eq (declare s) (declare s') :=
  get_parallel fun σ τ same => by
    obtain ⟨accepted, t, t', tables, ⟨eq, eq'⟩ | ⟨old, old', eq, eq'⟩⟩ :=
      SymbolTable.attempts_same (SymbolTable.insert_same (symbols_same same) symbols)
    · rw [eq, eq']
      exact set_parallel (withSymbols_same same tables)
    · rw [eq, eq']
      refine check_parallel (raise_parallel ?_) (set_parallel (withSymbols_same same tables))
      exact congrArg (Diag.Error.redefinition {} · {}) (congrArg (·.name) symbols)

end Lower
end SysY

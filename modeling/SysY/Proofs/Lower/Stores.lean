import SysY.Proofs.Lower.Guarded

/-! # Statements store to variables

Every operation of lowering up to statements keeps stores away from constant arrays: an expression
stores to slots of its own, an initializer to the variable that is being defined, and an assignment to
a place that is not that of a constant. -/

namespace SysY.Lower

open Koopa (ValueId BlockId FnId)

variable {α β : Type} {σ σ' σ'' : State} {v a g : ValueId}

/-! ## Expressions -/

/-- The place of a constant, or a place that may be written to. -/
def Aims (σ : State) (p : Place) : Prop :=
  (∃ w slot, p.symbol.meaning = .constant w slot) ∨ ∃ a, p.addr = some a ∧ Writable σ a

theorem Aims.since {p : Place} (since : Since σ σ') (aims : Aims σ p) : Aims σ' p :=
  aims.imp_right fun ⟨a, addr, writable⟩ => ⟨a, addr, writable.since since⟩

theorem findObject_ok {name : String} {span : Source.Span} {s : Symbol}
    (ok : findObject name span σ = .ok s σ') :
    σ' = σ ∧ σ.symbols.find? name = some s ∧ s.isFunction = false := by
  rw [findObject_eq] at ok
  cases found : σ.symbols.find? name with
  | none => simp only [found] at ok; cases ok
  | some s' =>
    simp only [found] at ok
    split at ok
    · cases ok
    · rename_i notFn
      cases ok
      exact ⟨rfl, rfl, by simpa using notFn⟩

theorem mem_of_get? {t : SymbolTable} {id : Nat} {s : Symbol} (found : t.get? id = some s) :
    s ∈ t.symbols := by
  unfold SymbolTable.get? at found
  split at found
  · cases found
  · exact Array.mem_of_getElem? found

theorem mem_of_find? {t : SymbolTable} {name : String} {s : Symbol}
    (found : t.find? name = some s) : s ∈ t.symbols := by
  rcases SymbolTable.find?_eq_some found with ⟨_, _, _, _, here⟩ | ⟨_, _, here⟩
  · exact mem_of_get? here
  · exact mem_of_get? here

/-- The place of a variable starts at its slot. -/
theorem startPlace_ok {e : Expr} {p : Place} (ok : startPlace e σ = .ok p σ') :
    σ' = σ ∧ Aims σ p ∧
      ∃ named, e.place? = some named ∧ σ.symbols.find? named.name = some p.symbol := by
  unfold startPlace at ok
  obtain ⟨⟨span, named⟩, σ₁, first, rest₁⟩ := bind_eq_ok.mp ok
  obtain ⟨rfl, isPlace⟩ := asPlace_ok first
  obtain ⟨s, σ₂, second, rest₂⟩ := bind_eq_ok.mp rest₁
  obtain ⟨rfl, found, notFn⟩ := findObject_ok second
  cases meaning : s.meaning with
  | constant w slot =>
    have const : ∀ {q : Place}, q.symbol = s → Aims σ₂ q := fun same =>
      .inl ⟨w, slot, by rw [same]; exact meaning⟩
    simp only [meaning] at rest₂
    split at rest₂
    · split at rest₂
      · cases rest₂
        exact ⟨rfl, const rfl, named, isPlace, found⟩
      · cases rest₂
    · cases rest₂
      exact ⟨rfl, const rfl, named, isPlace, found⟩
  | «variable» slot =>
    simp only [meaning] at rest₂
    cases rest₂
    refine ⟨rfl, .inr ⟨slot, ?_, .named ⟨s, mem_of_find? found, meaning⟩⟩, named, isPlace, found⟩
    simp only [Symbol.slot?, meaning]
  | function fn params defined =>
    unfold Symbol.isFunction at notFn
    rw [meaning] at notFn
    cases notFn

theorem startPlace_guards (e : Expr) (guarded : Guarded σ) :
    Guards σ (startPlace e) fun p σ' => Aims σ' p := ⟨fun ok => by
  obtain ⟨rfl, aims, -⟩ := startPlace_ok ok
  exact ⟨guarded, .refl _, aims⟩⟩

section Expressions

variable {l r : Lower ValueId} {p : Place}

theorem subscript_guards (idx : Expr) (lowered : Guarding l) (guarded : Guarded σ)
    (aims : Aims σ p) :
    Guards σ (subscript p idx l) fun q σ' => Aims σ' q ∧ q.symbol = p.symbol := by
  unfold subscript Place.address
  split
  · refine ((Guarding.pure _).guards guarded).bind fun guarded _ _ => ?_
    refine (tryEmitNew_guards Koopa.Program.load_inserts (by simp) guarded).bind ?_
    rintro base σ₁ guarded₁ - ⟨_, _, isBase⟩
    refine (lowered.guards guarded₁).bind fun {i σ₂} guarded₂ since₂ _ => ?_
    refine (tryEmitNew_guards Koopa.Program.getPtr_inserts (by simp) guarded₂).bind ?_
    rintro addr σ₃ guarded₃ since₃ ⟨_, _, isAddr⟩
    have isBase₃ := since₃.values (since₂.values isBase)
    exact .pure guarded₃ ⟨.inr ⟨addr, rfl, .next isAddr (.loaded isBase₃)⟩, rfl⟩
  · refine Guards.bind (Q := fun base σ' => base = p.addr.getD 0 ∧ Aims σ' p)
      (.pure guarded ⟨rfl, aims⟩) ?_
    rintro base σ₀ guarded₀ - ⟨rfl, aims₀⟩
    refine (lowered.guards guarded₀).bind fun {i σ₂} guarded₂ since₂ _ => ?_
    refine (tryEmitNew_guards Koopa.Program.getElemPtr_inserts (by simp) guarded₂).bind ?_
    rintro addr σ₃ guarded₃ since₃ ⟨_, _, isAddr⟩
    refine .pure guarded₃ ⟨?_, rfl⟩
    rcases aims₀ with constant | ⟨b, isBase, writable⟩
    · exact .inl constant
    · rw [isBase] at isAddr
      exact .inr ⟨addr, rfl, .elem isAddr (writable.since (since₂.trans since₃))⟩
  · split
    · exact ⟨fun e => (nomatch e)⟩
    · exact ⟨fun e => (nomatch e)⟩

theorem read_guarding (p : Place) : Guarding p.read := by
  unfold Place.read
  split
  · split
    · exact (Guarding.lift _).bind fun n => (integer_hushed n).guarding
    · exact .throw _
  · split
    · exact (load_hushed _).guarding
    · exact .raise _

theorem applyUnary_guarding (op : UnaryOp) (x : ValueId) : Guarding (applyUnary op x) := by
  unfold applyUnary
  split
  · exact ((integer_hushed 0).bind fun _ => binary_hushed ..).guarding
  · exact ((integer_hushed 0).bind fun _ => binary_hushed ..).guarding
  · exact .pure x
  · exact .pure x

/-- The slot of a logical operator is one of the function itself. -/
theorem shortCircuit_guarding (isOr : Bool) (left : Guarding l) (right : Guarding r) :
    Guarding (shortCircuit isOr l r) := by
  refine .of_guards (Q := fun _ _ => True) fun guarded => ?_
  unfold shortCircuit
  refine (alloc_guards .i32 guarded).bind ?_
  rintro slot σ₁ guarded₁ - ⟨-, _, _, isSlot⟩
  refine .after (integer_hushed _) guarded₁ fun guarded₂ since₂ => ?_
  refine (store_guards guarded₂ (.slot (since₂.values isSlot))).bind fun guarded₃ since₃ _ => ?_
  refine (left.guards guarded₃).bind fun guarded₄ since₄ _ => ?_
  refine .after (integer_hushed 0) guarded₄ fun guarded₅ since₅ => ?_
  refine .after (binary_hushed ..) guarded₅ fun guarded₆ since₆ => ?_
  refine .after newBlock_hushed guarded₆ fun guarded₇ since₇ => ?_
  refine .after newBlock_hushed guarded₇ fun guarded₈ since₈ => ?_
  refine .after (branch_hushed ..) guarded₈ fun guarded₉ since₉ => ?_
  refine .after (sealTo_hushed ..) guarded₉ fun guarded₁₀ since₁₀ => ?_
  refine (right.guards guarded₁₀).bind fun guarded₁₁ since₁₁ _ => ?_
  refine .after (integer_hushed 0) guarded₁₁ fun guarded₁₂ since₁₂ => ?_
  refine .after (binary_hushed ..) guarded₁₂ fun guarded₁₃ since₁₃ => ?_
  have since := (((since₂.trans since₃).trans (since₄.trans since₅)).trans
    ((since₆.trans since₇).trans (since₈.trans since₉))).trans
      ((since₁₀.trans since₁₁).trans (since₁₂.trans since₁₃))
  refine (store_guards guarded₁₃ (.slot (since.values isSlot))).bind fun guarded₁₄ _ _ => ?_
  exact (((make_hushed (x := .jump _) (fun _ _ => ⟨_, _, _, rfl⟩) (by simp)).bind fun _ =>
    (sealTo_hushed ..).bind fun _ => load_hushed slot).guarding.guards guarded₁₄)

theorem applyBinary_guarding (span : Source.Span) (op : BinaryOp) (left : Guarding l)
    (right : Guarding r) : Guarding (applyBinary span op l r) := by
  refine left.bind fun a => right.bind fun b => ?_
  split
  · exact (binary_hushed ..).guarding
  · exact .raise _

theorem arrayArg_guarding {e : Expr} {walk : Place → Lower Place} (want : Ty)
    (walks : ∀ {σ p}, Guarded σ → Aims σ p → Guards σ (walk p) fun q σ' => Aims σ' q ∧
      q.symbol = p.symbol) : Guarding (arrayArg e want walk) := by
  refine .of_guards (Q := fun _ _ => True) fun guarded => ?_
  unfold arrayArg
  refine Guards.bind (Q := fun _ _ => True) ⟨fun ok => ?_⟩ fun guarded _ _ => ?_
  · obtain ⟨rfl, -⟩ := asPlace_ok ok
    exact ⟨guarded, .refl _, trivial⟩
  refine (startPlace_guards e guarded).bind fun guarded₁ _ aims => ?_
  refine (walks guarded₁ aims).bind fun {p _} guarded₂ _ _ => ?_
  refine Guarding.guards ?_ guarded₂
  split
  · exact .raise _
  · exact .raise _
  · refine (Guarding.lift _).bind fun decayed => (Guarding.lift _).bind fun wanted => ?_
    refine .guard (.raise _) fun _ => ?_
    cases type : p.type with
    | pointer ds => exact (load_hushed _).guarding
    | array ds =>
      exact (integer_hushed 0).guarding.bind fun i => (getElemPtr_hushed _ i).guarding
    | int | void => exact .raise _

theorem callFn_guarding {span nameSpan : Source.Span} {name : String} {count : Nat}
    {lowerArgs : List Ty → Lower (List ValueId)} (args : ∀ ts, Guarding (lowerArgs ts)) :
    Guarding (callFn span name nameSpan count lowerArgs) := by
  refine get_hushed.guarding.bind fun s => ?_
  split
  · exact .raise _
  · split
    · refine .guard (.raise _) fun _ => (args _).bind fun vs => ?_
      exact ((tryEmitNew_hushed Koopa.Program.call_inserts (by simp)).bind fun _ => .pure _).guarding
    · exact .raise _

theorem foldOr_guarding {e : Expr} {run : Unit → Lower ValueId} (h : Guarding (run ())) :
    Guarding (foldOr e run) := by
  refine env_hushed.guarding.bind fun env => ?_
  split
  · exact (integer_hushed _).guarding
  · exact h
  · exact .throw _

end Expressions

mutual

/-- Computing an expression only stores to slots of its own. -/
theorem expr_guarding : (e : Expr) → Guarding (expr e)
  | .lit s v => by
    rw [expr]
    exact foldOr_guarding (integer_hushed v).guarding
  | .group s inner => by
    rw [expr]
    exact foldOr_guarding (expr_guarding inner)
  | .ident s name => by
    rw [expr]
    refine foldOr_guarding (.of_guards (Q := fun _ _ => True) fun guarded => ?_)
    exact (startPlace_guards _ guarded).bind fun {p _} guarded₁ _ _ =>
      (read_guarding p).guards guarded₁
  | .index s target idx => by
    rw [expr]
    refine foldOr_guarding (.of_guards (Q := fun _ _ => True) fun guarded => ?_)
    refine (startPlace_guards _ guarded).bind fun guarded₁ _ aims => ?_
    refine (walk_guards target guarded₁ aims).bind fun guarded₂ _ aims₂ => ?_
    refine (subscript_guards idx (expr_guarding idx) guarded₂ aims₂.1).bind ?_
    exact fun {p _} guarded₃ _ _ => (read_guarding p).guards guarded₃
  | .unary s op e => by
    rw [expr]
    exact foldOr_guarding ((expr_guarding e).bind fun x => applyUnary_guarding op x)
  | .binary s op l r => by
    rw [expr]
    refine foldOr_guarding ?_
    split
    · exact shortCircuit_guarding _ (expr_guarding l) (expr_guarding r)
    · exact applyBinary_guarding s op (expr_guarding l) (expr_guarding r)
  | .call s name ns as => by
    rw [expr]
    refine foldOr_guarding ((callFn_guarding (args_guarding as)).bind fun r => ?_)
    exact .guard (.raise _) fun _ => .pure _
  | .bare s kind => by
    rw [expr]
    refine foldOr_guarding ?_
    split
    · exact .throw _
    · exact .raise _
  | .missing id => by
    rw [expr]
    exact foldOr_guarding (get_hushed.guarding.bind fun _ => .raise _)

/-- Subscripts stay inside a place. -/
theorem walk_guards : (e : Expr) → ∀ {σ : State} {p : Place}, Guarded σ → Aims σ p →
    Guards σ (walk e p) fun q σ' => Aims σ' q ∧ q.symbol = p.symbol
  | .group _ inner, _, _, guarded, aims => by
    rw [walk]
    exact walk_guards inner guarded aims
  | .index _ target idx, _, _, guarded, aims => by
    rw [walk]
    refine (walk_guards target guarded aims).bind ?_
    rintro q σ₁ guarded₁ - ⟨aims₁, same⟩
    refine (subscript_guards idx (expr_guarding idx) guarded₁ aims₁).mono ?_
    exact fun ⟨aims₂, same₂⟩ => ⟨aims₂, same₂.trans same⟩
  | .lit .., _, _, guarded, aims | .ident .., _, _, guarded, aims
  | .unary .., _, _, guarded, aims | .binary .., _, _, guarded, aims
  | .call .., _, _, guarded, aims | .bare .., _, _, guarded, aims
  | .missing _, _, _, guarded, aims => by
    rw [walk]
    · exact .pure guarded ⟨aims, rfl⟩
    all_goals simp

theorem args_guarding : (es : List Expr) → (ts : List Ty) → Guarding (args es ts)
  | [], ts => by
    rw [args]
    · exact .pure _
    · simp
  | e :: es, [] => by
    rw [args]
    · exact .pure _
    · simp
  | e :: es, t :: ts => by
    have rest : ∀ v, Guarding (do return v :: (← args es ts)) := fun v =>
      (args_guarding es ts).bind fun _ => .pure _
    cases t with
    | pointer ds =>
      rw [args]
      exact (arrayArg_guarding _ (walk_guards e)).bind rest
    | int | void | array ds =>
      rw [args]
      · exact (expr_guarding e).bind rest
      · simp

end

theorem effect_guarding (e : Expr) : Guarding (effect e) := by
  unfold effect
  split
  · exact (callFn_guarding (args_guarding _)).bind fun _ => .pure _
  · exact (expr_guarding e).bind fun _ => .pure _

/-! ## Symbols -/

/-- A symbol can be bound: its slot is there, and it is not used for both a variable and a
constant. -/
structure Admits (σ : State) (s : Symbol) : Prop where
  slot : ∀ {g}, s.meaning = .variable g → (∃ h t x, σ.program.Has g h t x ∧
    (x = .alloc ∨ ∃ init, x = .globalAlloc init)) ∧ ¬ σ.TableAt g
  table : ∀ {w g}, s.meaning = .constant w (some g) →
    (∃ h t init, σ.program.Has g h t (.globalAlloc init)) ∧ ¬ σ.VariableAt g

/-- Binding a symbol keeps variables and constants apart. -/
theorem Guarded.bound {s : Symbol} {t : SymbolTable} (guarded : Guarded σ) (admits : Admits σ s)
    (symbols : t.symbols = σ.symbols.symbols ∨ t.symbols = σ.symbols.symbols.push s) :
    Guarded { σ with symbols := t } ∧ Since σ { σ with symbols := t } := by
  have since : Since σ { σ with symbols := t } := by
    refine ⟨id, fun mem => ?_⟩
    rcases symbols with same | pushed
    · exact same ▸ mem
    · exact pushed ▸ Array.mem_push_of_mem s mem
  have either : ∀ {s'}, s' ∈ t.symbols → s' ∈ σ.symbols.symbols ∨ s' = s := by
    intro s' mem
    rcases symbols with same | pushed
    · exact .inl (same ▸ mem)
    · exact Array.mem_push.mp (pushed ▸ mem)
  refine ⟨⟨fun has => (guarded.stores has).since since, ?_, ?_, ?_⟩, since⟩
  · rintro g ⟨s', mem, meaning⟩
    rcases either mem with old | rfl
    · exact guarded.slots ⟨s', old, meaning⟩
    · exact (admits.slot meaning).1
  · rintro g ⟨s', mem, w, meaning⟩
    rcases either mem with old | rfl
    · exact guarded.tables ⟨s', old, w, meaning⟩
    · exact (admits.table meaning).1
  · rintro g ⟨s₁, mem₁, meaning₁⟩ ⟨s₂, mem₂, w, meaning₂⟩
    rcases either mem₁ with old₁ | rfl <;> rcases either mem₂ with old₂ | rfl
    · exact guarded.apart ⟨s₁, old₁, meaning₁⟩ ⟨s₂, old₂, w, meaning₂⟩
    · exact (admits.table meaning₂).2 ⟨s₁, old₁, meaning₁⟩
    · exact (admits.slot meaning₁).2 ⟨s₂, old₂, w, meaning₂⟩
    · rw [meaning₁] at meaning₂
      cases meaning₂

theorem insert_symbols (t : SymbolTable) (s : Symbol) :
    (t.insert s).2.symbols = t.symbols ∨ (t.insert s).2.symbols = t.symbols.push s := by
  unfold SymbolTable.insert
  split
  · split
    · exact .inl rfl
    · exact .inr rfl
  · split
    · exact .inl rfl
    · exact .inr rfl

theorem define_symbols (t : SymbolTable) (s : Symbol) :
    (t.define s).2.symbols = t.symbols ∨ (t.define s).2.symbols = t.symbols.push s := by
  unfold SymbolTable.define
  split
  · exact .inr rfl
  · split
    · exact .inr rfl
    · exact .inl rfl

theorem declare_symbols (t : SymbolTable) (s : Symbol) :
    (t.declare s).2.symbols = t.symbols ∨ (t.declare s).2.symbols = t.symbols.push s := by
  unfold SymbolTable.declare
  split
  · exact .inr rfl
  · exact .inl rfl

theorem declare_guards {s : Symbol} (guarded : Guarded σ) (admits : Admits σ s) :
    Guards σ (declare s) fun _ _ => True := by
  constructor
  intro a σ' e
  unfold declare at e
  rw [get_bind] at e
  have result : σ' = { σ with symbols := (σ.symbols.insert s).2 } := by
    generalize σ.symbols.insert s = attempt at e ⊢
    obtain ⟨⟨accepted, existing⟩, t⟩ := attempt
    cases existing with
    | none =>
      cases e
      rfl
    | some old =>
      cases accepted with
      | false => cases e
      | true =>
        cases e
        rfl
  subst result
  obtain ⟨guarded', since⟩ := guarded.bound admits (insert_symbols σ.symbols s)
  exact ⟨guarded', since, trivial⟩

/-! ## Declarations -/

theorem makeGlobal_appends {f : Koopa.Program → Outcome (ValueId × Koopa.Program)}
    {x : Koopa.ValueDef} (inserts : ∀ {p r}, f p = .ok r → ∃ h t n, r = p.insert ⟨h, t, x, n⟩)
    (e : makeGlobal f σ = .ok v σ') : Appends σ x v σ' := tryMake_appends inserts e

theorem makeGlobal_hushed {f : Koopa.Program → Outcome (ValueId × Koopa.Program)}
    {x : Koopa.ValueDef} (inserts : ∀ {p r}, f p = .ok r → ∃ h t n, r = p.insert ⟨h, t, x, n⟩)
    (other : ∀ y a, x ≠ .store y a) : Hushed (makeGlobal f) :=
  ⟨fun e => (makeGlobal_appends inserts e).quiet other⟩

theorem makeMany_hushed {f : Nat → Lower ValueId} (each : ∀ i, Hushed (f i)) (n i : Nat) :
    Hushed (makeMany f n i) := by
  induction n generalizing i with
  | zero => exact .pure []
  | succ n ih => exact (each i).bind fun _ => (ih (i + 1)).bind fun _ => .pure _

theorem aggregate_hushed (ds : List Int) (data : List Int32) : Hushed (aggregate ds data) := by
  induction ds generalizing data with
  | nil =>
    rw [aggregate]
    split
    · exact makeGlobal_hushed (x := .integer _) (by rintro p r ⟨⟩; exact ⟨_, _, _, rfl⟩) (by simp)
    · exact .throw _
  | cons d ds ih =>
    rw [aggregate]
    refine (makeMany_hushed (fun i => ih _) _ _).bind fun elems => ?_
    refine makeGlobal_hushed (x := .aggregate elems) (fun made => ?_) (by simp)
    obtain ⟨t, rfl⟩ := Koopa.Program.aggregate_inserts made
    exact ⟨_, _, _, rfl⟩

theorem initializer_hushed (ty : Ty) (data : List Int32) : Hushed (initializer ty data) := by
  unfold initializer
  split
  · exact (Hushed.lift _).bind fun t =>
      makeGlobal_hushed (x := .zeroInit) (by rintro p r ⟨⟩; exact ⟨_, _, _, rfl⟩) (by simp)
  · exact aggregate_hushed _ _

/-- A global variable that was just made is not the slot of any symbol yet. -/
theorem globalVariable_guards (name : String) (ty : Ty) (data : List Int32) (guarded : Guarded σ) :
    Guards σ (globalVariable name ty data) fun g σ' =>
      (∃ h t init, σ'.program.Has g h t (.globalAlloc init)) ∧ ¬ σ'.VariableAt g ∧
        ¬ σ'.TableAt g := by
  rw [globalVariable_eq]
  refine .after (initializer_hushed ty data) guarded fun {init σ₁} guarded₁ _ => ?_
  constructor
  intro g σ' e
  unfold namedGlobal at e
  obtain ⟨u, σ₂, made, rest₂⟩ := bind_eq_ok.mp e
  rw [get_bind] at rest₂
  obtain ⟨p, σ₃, first, rest₃⟩ := bind_eq_ok.mp rest₂
  obtain ⟨named, rfl⟩ := lift_ok first
  obtain ⟨x, found, named⟩ := Except.bind_eq_ok.mp named
  cases named
  cases rest₃
  have appends := makeGlobal_appends Koopa.Program.globalAlloc_inserts made
  have quiet := rename_quiet ("@" ++ name) (Koopa.Program.value?_of_global found)
  have guarded₂ := guarded₁.quiet (appends.quiet (by simp))
  obtain ⟨h, t, has⟩ := appends.has
  have symbols := quiet.symbols.trans appends.symbols
  refine ⟨guarded₂.quiet quiet, appends.since.trans quiet.since, ⟨h, t, init, quiet.values has⟩, ?_, ?_⟩
  · rintro ⟨s, mem, meaning⟩
    obtain ⟨_, _, _, old, -⟩ := guarded₁.slots ⟨s, symbols ▸ mem, meaning⟩
    exact appends.new old
  · rintro ⟨s, mem, w, meaning⟩
    obtain ⟨_, _, _, old⟩ := guarded₁.tables ⟨s, symbols ▸ mem, w, meaning⟩
    exact appends.new old

theorem constantSymbol_guards (d : Def) (ty : Ty) (value : Const.Value) (guarded : Guarded σ) :
    Guards σ (constantSymbol d ty value) fun s σ' => Admits σ' s := by
  have symbol : ∀ {σ' : State} (slot : Option ValueId), Guarded σ' → (∀ g, slot = some g →
      (∃ h t init, σ'.program.Has g h t (.globalAlloc init)) ∧ ¬ σ'.VariableAt g) →
      Guards σ' (pure ⟨d.name, d.nameSpan, ty, .constant value slot⟩) fun s σ'' => Admits σ'' s := by
    intro σ' slot guarded' table
    exact .pure guarded' ⟨fun e => (nomatch e), fun e => by cases e; exact table _ rfl⟩
  unfold constantSymbol
  split
  · exact .bind (.pure (Q := fun slot _ => slot = none) guarded rfl) fun guarded₁ _ none =>
      symbol _ guarded₁ fun g some => by rw [none] at some; cases some
  · rw [map_eq_pure_bind, bind_assoc]
    refine (globalVariable_guards d.name ty value.data guarded).bind ?_
    rintro g σ₁ guarded₁ - ⟨table, notVariable, -⟩
    rw [pure_bind]
    exact symbol _ guarded₁ fun _ same => by cases same; exact ⟨table, notVariable⟩

theorem globalDef_guards (isConst : Bool) (d : Def) (guarded : Guarded σ) :
    Guards σ (globalDef isConst d) fun s σ' => Admits σ' s := by
  unfold globalDef
  refine .after get_hushed guarded fun guarded₁ _ => ?_
  split
  · refine .after (.lift _) guarded₁ fun guarded₂ _ => ?_
    exact constantSymbol_guards _ _ _ guarded₂
  · refine .after (.lift _) guarded₁ fun {ty _} guarded₂ _ => ?_
    have named : ∀ (data : List Int32) {σ₂ : State}, Guarded σ₂ →
        Guards σ₂ (variableSymbol d ty data) fun s σ' => Admits σ' s := by
      intro data σ₂ guarded₂
      refine (globalVariable_guards d.name ty data guarded₂).bind ?_
      rintro g σ₃ guarded₃ - ⟨⟨h, t, init, has⟩, -, notTable⟩
      refine .pure guarded₃ ⟨fun e => ?_, fun e => (nomatch e)⟩
      cases e
      exact ⟨⟨h, t, _, has, .inr ⟨init, rfl⟩⟩, notTable⟩
    refine .refuse ?_
    cases d.init with
    | none => exact .after (.pure []) guarded₂ fun guarded₃ _ => named _ guarded₃
    | some init => exact .after (.lift _) guarded₂ fun guarded₃ _ => named _ guarded₃

theorem refuseVoid_guarding (d : Decl) : Guarding (refuseVoid d) := by
  unfold refuseVoid
  split
  · exact .throw _
  · exact .raise _

theorem globalDefs_guarding (isConst : Bool) (ds : List Def) : Guarding (globalDefs isConst ds) := by
  induction ds with
  | nil => exact .pure ()
  | cons d ds ih =>
    refine .of_guards (Q := fun _ _ => True) fun guarded => ?_
    rw [globalDefs]
    refine (globalDef_guards isConst d guarded).bind fun {s σ₁} guarded₁ _ admits => ?_
    constructor
    intro a σ' e
    rw [get_bind] at e
    have rest : globalDefs isConst ds { σ₁ with symbols := (σ₁.symbols.define s).2 } =
        .ok a σ' := by
      generalize σ₁.symbols.define s = attempt at e ⊢
      obtain ⟨⟨accepted, existing⟩, t⟩ := attempt
      cases accepted with
      | true => exact e
      | false =>
        cases existing with
        | none => exact e
        | some old => cases e
    obtain ⟨guarded₂, since₂⟩ := guarded₁.bound admits (define_symbols σ₁.symbols s)
    obtain ⟨guarded₃, since₃, -⟩ := (ih.guards guarded₂).ok rest
    exact ⟨guarded₃, since₂.trans since₃, trivial⟩

theorem globalDecl_guarding (d : Decl) : Guarding (globalDecl d) := by
  unfold globalDecl
  split
  · exact refuseVoid_guarding d
  · exact globalDefs_guarding d.isConst d.defs

/-- The address of an element is inside the array. -/
theorem elementPtr_guards {base : ValueId} {count index : Int} (ds : List Int)
    (guarded : Guarded σ) (writable : Writable σ base) :
    Guards σ (elementPtr base count index ds) fun v σ' => Writable σ' v := by
  induction ds generalizing σ base count index with
  | nil => exact .pure guarded writable
  | cons d ds ih =>
    rw [elementPtr]
    split
    · exact ⟨fun e => by cases e⟩
    · refine .after (integer_hushed _) guarded fun guarded₁ since₁ => ?_
      refine (tryEmitNew_guards Koopa.Program.getElemPtr_inserts (by simp) guarded₁).bind ?_
      rintro ptr σ₂ guarded₂ since₂ ⟨_, _, isPtr⟩
      exact ih guarded₂ (.elem isPtr (writable.since (since₁.trans since₂)))

theorem storeElements_guards {slot : ValueId} {dims : List Int} {index : Nat}
    (es : List (Option ValueId)) (guarded : Guarded σ) (writable : Writable σ slot) :
    Guards σ (storeElements slot dims index es) fun _ _ => True := by
  induction es generalizing σ index with
  | nil => exact .pure guarded trivial
  | cons e es ih =>
    have filled : ∀ (v : ValueId) {σ₁ : State}, Guarded σ₁ → Since σ σ₁ →
        Guards σ₁ (filling slot dims index es v) fun _ _ => True := by
      intro v σ₁ guarded₁ since₁
      refine (elementPtr_guards dims guarded₁ (writable.since since₁)).bind ?_
      intro ptr σ₂ guarded₂ since₂ isPtr
      refine (store_guards guarded₂ isPtr).bind fun guarded₃ since₃ _ => ?_
      exact ih guarded₃ (writable.since ((since₁.trans since₂).trans since₃))
    cases e with
    | some v =>
      rw [storeElements]
      exact .after (.pure v) guarded fun guarded₁ since₁ => filled _ guarded₁ since₁
    | none =>
      rw [storeElements]
      exact .after (integer_hushed 0) guarded fun guarded₁ since₁ => filled _ guarded₁ since₁

theorem flatten_guarding {γ : Type} (zero : γ) {elem : Expr → Lower γ}
    (h : ∀ e, Guarding (elem e)) (dims : List Int) (i : Init) :
    Guarding (Const.flatten zero elem dims i) := by
  have stores : ∀ (ps : List Const.Placement) (out : List γ),
      Guarding (Const.Layout.store elem ps out) := by
    intro ps
    induction ps with
    | nil => exact fun out => .pure out
    | cons p ps ih =>
      intro out
      rw [Const.Layout.store]
      refine (h p.value).bind fun v => ?_
      split
      · exact ih _
      · exact .throw _
  unfold Const.flatten
  split
  · exact .throw _
  · refine (stores _ _).bind fun out => ?_
    split
    · exact .throw _
    · exact .pure out

theorem storeInit_guards {slot : ValueId} {ty : Ty} (init : Init) (guarded : Guarded σ)
    (writable : Writable σ slot) : Guards σ (storeInit slot ty init) fun _ _ => True := by
  unfold storeInit
  split
  · split
    · exact ⟨fun e => (nomatch e)⟩
    · exact ⟨fun e => (nomatch e)⟩
    · refine ((expr_guarding _).guards guarded).bind fun guarded₁ since₁ _ => ?_
      exact (store_guards guarded₁ (writable.since since₁)).bind fun guarded₂ _ _ =>
        .pure guarded₂ trivial
  · have elem : ∀ e, Guarding (some <$> expr e) := fun e => by
      rw [map_eq_pure_bind]
      exact (expr_guarding e).bind fun _ => .pure _
    refine ((flatten_guarding none elem ty.dims init).guards guarded).bind ?_
    exact fun {elems _} guarded₁ since₁ _ =>
      storeElements_guards elems guarded₁ (writable.since since₁)

theorem localConstant_guarding (d : Def) : Guarding (localConstant d) := by
  refine .of_guards (Q := fun _ _ => True) fun guarded => ?_
  unfold localConstant
  refine .after env_hushed guarded fun guarded₁ _ => .after (.lift _) guarded₁ fun guarded₂ _ => ?_
  exact (constantSymbol_guards _ _ _ guarded₂).bind fun guarded₃ _ admits =>
    declare_guards guarded₃ admits

/-- A slot of the function is not the table of a constant. -/
theorem Guarded.not_table (guarded : Guarded σ) {h : Option FnId} {t : Koopa.Ty}
    (has : σ.program.Has a h t .alloc) : ¬ σ.TableAt a := by
  intro table
  obtain ⟨_, _, init, other⟩ := guarded.tables table
  cases (has.unique other).2.2

theorem admits_slot (guarded : Guarded σ) {h : Option FnId} {t : Koopa.Ty}
    (has : σ.program.Has a h t .alloc) (name : String) (span : Source.Span) (ty : Ty) :
    Admits σ ⟨name, span, ty, .variable a⟩ :=
  ⟨fun e => by cases e; exact ⟨⟨h, t, _, has, .inl rfl⟩, guarded.not_table has⟩,
    fun e => (nomatch e)⟩

theorem localVariable_guarding (d : Def) : Guarding (localVariable d) := by
  refine .of_guards (Q := fun _ _ => True) fun guarded => ?_
  unfold localVariable
  refine .after env_hushed guarded fun guarded₁ _ => .after (.lift _) guarded₁ fun guarded₂ _ => ?_
  refine .after (.lift _) guarded₂ fun guarded₃ _ => ?_
  refine (alloc_guards _ guarded₃).bind ?_
  rintro slot σ₄ guarded₄ - ⟨-, h, t, isSlot⟩
  refine .after (setName_hushed ..) guarded₄ fun {_ σ₅} guarded₅ since₅ => ?_
  have isSlot₅ := since₅.values isSlot
  cases d.init with
  | none => exact declare_guards guarded₅ (admits_slot guarded₅ isSlot₅ _ _ _)
  | some init =>
    refine (storeInit_guards init guarded₅ (.slot isSlot₅)).bind fun guarded₆ since₆ _ => ?_
    exact declare_guards guarded₆ (admits_slot guarded₆ (since₆.values isSlot₅) _ _ _)

theorem localDecl_guarding (d : Decl) : Guarding (localDecl d) := by
  have each : ∀ {f : Def → Lower Unit}, (∀ d, Guarding (f d)) → ∀ ds : List Def,
      Guarding (ds.forM f) := by
    intro f h ds
    induction ds with
    | nil => exact .pure _
    | cons d ds ih => exact (h d).bind fun _ => ih
  unfold localDecl
  split
  · exact refuseVoid_guarding d
  · split
    · exact each localConstant_guarding _
    · exact each localVariable_guarding _

/-! ## Statements -/

/-- The target of an assignment is not a constant. -/
theorem assign_guarding (target value : Expr) : Guarding (assign target value) := by
  refine .of_guards (Q := fun _ _ => True) fun {σ} guarded => ⟨fun {a σ'} e => ?_⟩
  obtain ⟨⟨span, named⟩, σ₁, s, σ₂, first, second, mutable, ran⟩ := assign_eq_ok e
  obtain ⟨rfl, isPlace⟩ := asPlace_ok first
  obtain ⟨rfl, found, -⟩ := findObject_ok second
  have guards : Guards σ₂ (assigning target value named) fun _ _ => True := by
    refine Guards.bind (Q := fun p σ' => Aims σ' p ∧ p.symbol = s) ⟨fun started => ?_⟩ ?_
    · obtain ⟨rfl, aims, named', isPlace', found'⟩ := startPlace_ok started
      obtain rfl := Option.some.inj (isPlace.symm.trans isPlace')
      exact ⟨guarded, .refl _, aims, Option.some.inj (found'.symm.trans found)⟩
    rintro p₀ σ₃ guarded₃ - ⟨aims₀, rfl⟩
    refine (walk_guards target guarded₃ aims₀).bind ?_
    rintro p σ₄ guarded₄ - ⟨aims, same⟩
    obtain ⟨w, slot, constant⟩ | ⟨addr, isAddr, writable⟩ := aims
    · rw [same] at constant
      exact absurd constant (mutable w slot)
    unfold storing
    refine .refuse ?_
    refine ((expr_guarding value).guards guarded₄).bind fun guarded₅ since₅ _ => ?_
    refine Guards.bind (Q := fun b _ => b = addr) (.pure guarded₅ (by rw [isAddr]; rfl)) ?_
    rintro _ σ₆ guarded₆ since₆ rfl
    refine (store_guards guarded₆ (writable.since (since₅.trans since₆))).bind ?_
    exact fun guarded₇ _ _ => .pure guarded₇ trivial
  exact guards.ok ran

theorem ret_guarding (span : Source.Span) (value : Option Expr) : Guarding (ret span value) := by
  have seals : ∀ v : Option ValueId, Guarding (do sealOff (← make (·.ret · v))) := fun v =>
    ((make_hushed (x := .ret v) (fun _ _ => ⟨_, _, _, rfl⟩) (by simp)).bind fun _ =>
      sealOff_hushed _).guarding
  unfold ret
  refine get_hushed.guarding.bind fun s => ?_
  cases value with
  | none =>
    cases s.frame.ret == .void with
    | true => exact seals none
    | false =>
      refine Guarding.bind ?_ seals
      rw [map_eq_pure_bind]
      exact (integer_hushed 0).guarding.bind fun _ => .pure _
  | some e =>
    cases s.frame.ret == .void with
    | true =>
      have name : Guarding currentName := get_hushed.guarding.bind fun _ =>
        (Guarding.lift _).bind fun _ => .pure _
      exact name.bind fun _ => (Guarding.raise _).bind seals
    | false =>
      refine Guarding.bind ?_ seals
      rw [map_eq_pure_bind]
      exact (expr_guarding e).bind fun _ => .pure _

theorem leaveLoop_guarding (span : Source.Span) (keyword : String)
    (target : LoopTargets → BlockId) : Guarding (leaveLoop span keyword target) := by
  unfold leaveLoop
  refine get_hushed.guarding.bind fun s => ?_
  split
  · exact .raise _
  · exact (jump_hushed _).guarding

theorem switchTo_hushed (b : BlockId) : Hushed (switchTo b) := modifyFrame_hushed _

theorem arm_guarding {body : Lower Unit} (h : Guarding body) (reachable : Bool)
    (block join : BlockId) : Guarding (arm reachable block join body) := by
  unfold arm
  refine .guard (switchTo_hushed block).guarding fun _ => h.bind fun _ => ?_
  refine isOpen_hushed.guarding.bind fun isOpen => ?_
  split
  · exact (jump_hushed join).guarding.bind fun _ => .pure true
  · exact .pure false

theorem conditional_guarding (cond : Expr) {thenArm : Lower Unit} {elseArm : Option (Lower Unit)}
    (thenOk : Guarding thenArm) (elseOk : ∀ m ∈ elseArm, Guarding m) :
    Guarding (conditional cond thenArm elseArm) := by
  unfold conditional
  refine isOpen_hushed.guarding.bind fun reachable => (expr_guarding cond).bind fun c => ?_
  refine newBlock_hushed.guarding.bind fun thenBlock => ?_
  cases elseArm with
  | none =>
    refine newBlock_hushed.guarding.bind fun join => ?_
    refine (branch_hushed ..).guarding.bind fun v => (sealOff_hushed v).guarding.bind fun _ => ?_
    refine (arm_guarding thenOk ..).bind fun joined => ?_
    split
    · exact (switchTo_hushed join).guarding
    · exact .pure ()
  | some other =>
    refine newBlock_hushed.guarding.bind fun elseBlock => newBlock_hushed.guarding.bind fun join => ?_
    refine (branch_hushed ..).guarding.bind fun v => (sealOff_hushed v).guarding.bind fun _ => ?_
    refine (arm_guarding thenOk ..).bind fun joined₁ => ?_
    refine (arm_guarding (elseOk other rfl) ..).bind fun joined₂ => ?_
    split
    · exact (switchTo_hushed join).guarding
    · exact .pure ()

theorem andFinally_guarding {m : Lower α} {after : State → Outcome State} (h : Guarding m)
    (keeps : ∀ {s s'}, after s = .ok s' →
      s'.program = s.program ∧ s'.symbols.symbols = s.symbols.symbols) :
    Guarding (andFinally m after) := by
  refine .of_guards (Q := fun _ _ => True) fun {σ} guarded => ⟨fun {a σ'} e => ?_⟩
  unfold andFinally at e
  cases body : m σ with
  | error f σ₁ =>
    simp only [body] at e
    cases done : after σ₁ with
    | error g => simp only [done] at e; cases e
    | ok σ₂ => simp only [done] at e; cases e
  | ok b σ₁ =>
    simp only [body] at e
    cases done : after σ₁ with
    | error g => simp only [done] at e; cases e
    | ok σ₂ =>
      simp only [done] at e
      cases e
      obtain ⟨program, symbols⟩ := keeps done
      obtain ⟨guarded₁, since₁, -⟩ := (h.guards guarded).ok body
      have quiet : Quiet σ₁ σ' :=
        ⟨⟨fun has => program ▸ has, fun has => program ▸ has⟩, symbols⟩
      exact ⟨guarded₁.quiet quiet, since₁.trans quiet.since, trivial⟩

theorem leave_symbols {t t' : SymbolTable} {depth : Nat} (left : t.leave depth = .ok t') :
    t'.symbols = t.symbols := by
  unfold SymbolTable.leave SymbolTable.pop at left
  split at left
  · split at left
    · cases left
    · cases left
      rfl
  · cases left

theorem inScope_guarding (kind : ScopeKind) {body : Lower α} (h : Guarding body) :
    Guarding (inScope kind body) := by
  refine (Hushed.of_values fun e => ?_).guarding.bind fun _ => get_hushed.guarding.bind fun s => ?_
  · cases e
    exact ⟨rfl, rfl⟩
  · refine andFinally_guarding h fun e => ?_
    obtain ⟨t, left, e⟩ := Except.bind_eq_ok.mp e
    cases e
    exact ⟨rfl, leave_symbols left⟩

theorem inLoop_guarding (targets : LoopTargets) {body : Lower α} (h : Guarding body) :
    Guarding (inLoop targets body) := by
  refine (modifyFrame_hushed _).guarding.bind fun _ => get_hushed.guarding.bind fun s => ?_
  refine andFinally_guarding h fun e => ?_
  obtain ⟨t, left, e⟩ := Except.bind_eq_ok.mp e
  cases e
  exact ⟨rfl, rfl⟩

theorem loop_guarding (cond : Expr) {body : Lower Unit} (h : Guarding body) :
    Guarding (loop cond body) := by
  unfold loop
  refine isOpen_hushed.guarding.bind fun reachable => newBlock_hushed.guarding.bind fun condBlock => ?_
  refine newBlock_hushed.guarding.bind fun bodyBlock => newBlock_hushed.guarding.bind fun done => ?_
  refine (make_hushed (x := .jump condBlock) (fun _ _ => ⟨_, _, _, rfl⟩)
    (by simp)).guarding.bind fun _ => ?_
  refine (sealTo_hushed ..).guarding.bind fun _ => (expr_guarding cond).bind fun c => ?_
  refine (branch_hushed ..).guarding.bind fun v => (sealOff_hushed v).guarding.bind fun _ => ?_
  refine .guard (switchTo_hushed _).guarding fun _ => ?_
  refine (inLoop_guarding _ h).bind fun _ => isOpen_hushed.guarding.bind fun isOpen => ?_
  refine .guard (jump_hushed _).guarding fun _ => ?_
  split
  · exact (switchTo_hushed done).guarding
  · exact .pure ()

mutual

/-- Statements store to variables only. -/
theorem stmt_guarding : (s : Stmt) → Guarding (stmt s)
  | .block _ ss => by rw [stmt]; exact inScope_guarding _ (stmts_guarding ss)
  | .decl _ none => by rw [stmt]; exact .throw _
  | .decl _ (some d) => by rw [stmt]; exact localDecl_guarding d
  | .assign _ target value => by rw [stmt]; exact assign_guarding target value
  | .expr _ none => by rw [stmt]; exact .pure ()
  | .expr _ (some e) => by rw [stmt]; exact effect_guarding e
  | .ifThen _ cond thenArm none => by
    rw [stmt]
    exact conditional_guarding cond (stmt_guarding thenArm) (by simp)
  | .ifThen _ cond thenArm (some elseArm) => by
    rw [stmt]
    refine conditional_guarding cond (stmt_guarding thenArm) ?_
    rintro _ ⟨⟩
    exact stmt_guarding elseArm
  | .while _ cond body => by rw [stmt]; exact loop_guarding cond (stmt_guarding body)
  | .break s => by rw [stmt]; exact leaveLoop_guarding ..
  | .continue s => by rw [stmt]; exact leaveLoop_guarding ..
  | .return s value => by rw [stmt]; exact ret_guarding s value
  | .bare s kind => by
    rw [stmt]
    split
    · exact .throw _
    · exact .raise _
  | .missing id => by rw [stmt]; exact get_hushed.guarding.bind fun _ => .raise _

theorem stmts_guarding : (ss : List Stmt) → Guarding (stmts ss)
  | [] => by rw [stmts]; exact .pure ()
  | s :: ss => by rw [stmts]; exact (stmt_guarding s).bind fun _ => stmts_guarding ss

end

end SysY.Lower

import SysY.Proofs.Lower.Stores

/-! # Constant arrays are not assigned to

A constant array is folded where its subscripts are constants, and read from a global variable where
they are not. The two agree as long as nothing writes to that variable. No store of a lowered program
does. But a constant array can be passed to a function, which then writes to it through its
parameter. -/

namespace SysY

open Koopa (ValueId BlockId FnId)

namespace Lower

variable {σ : State}

/-! ## Units -/

theorem addsNoStore_insert (p : Koopa.Program) {x : Koopa.Value} (other : ∀ y a, x.defn ≠ .store y a) :
    AddsNoStore p (p.insert x).2 := by
  refine ⟨fun has => Koopa.Program.has_insert_iff.mpr (.inl has), fun has => ?_⟩
  exact (Koopa.Program.has_insert_iff.mp has).resolve_right fun same =>
    other _ _ same.2.2.2.symm

theorem addsNoStore_insertParams (p : Koopa.Program) (f : FnId) (index : Nat) (ts : List Koopa.Ty)
    (names : List String) : AddsNoStore p (p.insertParams f index ts names).2 := by
  induction ts generalizing p index names with
  | nil => exact .refl p
  | cons t ts ih => exact (addsNoStore_insert p (by simp)).trans (ih _ (index + 1) names.tail)

theorem addsNoStore_newFn {p : Koopa.Program} {name : String} {ty : Koopa.Ty} {names : List String}
    {r : FnId × Koopa.Program} (made : p.newFn name ty names = .ok r) : AddsNoStore p r.2 := by
  unfold Koopa.Program.newFn at made
  split at made
  · cases made
    have params := addsNoStore_insertParams p (p.fns.size + 1) 0 ‹_› names
    exact ⟨params.values, params.stores⟩
  · cases made

/-- Closing blocks adds returns only. -/
theorem addsNoStore_closable : Koopa.Program.Closable AddsNoStore where
  refl := .refl
  trans := .trans
  integer := fun p f n => addsNoStore_insert p (x := ⟨some f, .i32, .integer n, ""⟩) (by simp)
  ret := fun p f v => addsNoStore_insert p (x := ⟨some f, .unit, .ret v, ""⟩) (by simp)
  push := fun {p _ _ _ _ _} _ _ => ⟨(AddsNoStore.refl p).values, (AddsNoStore.refl p).stores⟩

theorem AddsNoStore.quiet {p : Koopa.Program} (adds : AddsNoStore σ.program p) :
    Quiet σ (σ.withProgram p) := ⟨adds, rfl⟩

theorem newFn_hushed (name : String) (params : List Ty) (ret : Ty) (names : List String) :
    Hushed (newFn name params ret names) := by
  have types : ∀ ts : List Ty, Hushed (ts.mapM fun t => lift t.toKoopa) := by
    intro ts
    induction ts with
    | nil => exact .pure _
    | cons t ts ih =>
      rw [List.mapM_cons]
      exact (Hushed.lift _).bind fun _ => ih.bind fun _ => .pure _
  unfold newFn
  refine (types params).bind fun ps => (Hushed.lift _).bind fun r => ⟨fun {σ f σ'} e => ?_⟩
  rw [get_bind] at e
  obtain ⟨made, σ₁, first, rest⟩ := bind_eq_ok.mp e
  obtain ⟨eq, rfl⟩ := lift_ok first
  cases rest
  exact (addsNoStore_newFn eq).quiet

/-- A function has no slot. -/
theorem admits_function {s : Symbol} {fn : FnId} {params : List Ty} {defined : Bool}
    (meaning : s.meaning = .function fn params defined) : Admits σ s :=
  ⟨fun e => (nomatch meaning.symm.trans e), fun e => (nomatch meaning.symm.trans e)⟩

theorem declareLibrary_guarding (ls : List LibraryFn) : Guarding (declareLibrary ls) := by
  induction ls with
  | nil => exact .pure ()
  | cons l ls ih =>
    rw [declareLibrary]
    refine (newFn_hushed ..).guarding.bind fun f => Guarding.bind ?_ fun _ => ih
    refine .of_guards (Q := fun _ _ => True) fun {σ} guarded => ⟨fun e => ?_⟩
    cases e
    let s : Symbol := { name := l.name, span := {}, type := l.ret, meaning := .function f l.params false }
    have admits : Admits σ s := admits_function rfl
    obtain ⟨guarded', since⟩ := guarded.bound admits (declare_symbols σ.symbols s)
    exact ⟨guarded', since, trivial⟩

/-- The slots of parameters are slots of the function. -/
theorem spillParams_guarding : (ps : List Param) → (ts : List Ty) → (vs : List ValueId) →
    Guarding (spillParams ps ts vs)
  | p :: ps, t :: ts, v :: vs => by
    rw [spillParams]
    refine .of_guards (Q := fun _ _ => True) fun guarded => ?_
    refine .after (setName_hushed ..) guarded fun guarded₁ _ => ?_
    refine .after (.lift _) guarded₁ fun guarded₂ _ => ?_
    refine (alloc_guards _ guarded₂).bind ?_
    rintro slot σ₃ guarded₃ - ⟨-, h, ty, isSlot⟩
    refine .after (setName_hushed ..) guarded₃ fun guarded₄ since₄ => ?_
    refine (store_guards guarded₄ (.slot (since₄.values isSlot))).bind fun guarded₅ since₅ _ => ?_
    have isSlot₅ := since₅.values (since₄.values isSlot)
    refine (declare_guards guarded₅ (admits_slot guarded₅ isSlot₅ _ _ _)).bind fun guarded₆ _ _ => ?_
    exact (spillParams_guarding ps ts vs).guards guarded₆
  | [], _, _ | _ :: _, [], _ | _ :: _, _ :: _, [] => by
    rw [spillParams]
    · exact .pure ()
    all_goals simp

theorem recordBody_guarding (name : String) {body : Lower Unit} (h : Guarding body) :
    Guarding (recordBody name body) := by
  refine .of_guards (Q := fun _ _ => True) fun {σ} guarded => ⟨fun {a σ'} e => ?_⟩
  unfold recordBody at e
  cases run : body σ with
  | error f σ₁ => simp only [run] at e; cases e
  | ok b σ₁ =>
    simp only [run] at e
    cases e
    obtain ⟨guarded₁, since₁, -⟩ := (h.guards guarded).ok run
    exact ⟨guarded₁.quiet ⟨.refl _, rfl⟩, since₁.trans ⟨id, id⟩, trivial⟩

theorem body_guarding (f : Fn) (id : FnId) (ret : Ty) (params : List Ty) (block : Stmt) :
    Guarding (body f id ret params block) := by
  refine recordBody_guarding _ ((modifyFrame_hushed _).guarding.bind fun _ => ?_)
  refine newBlock_hushed.guarding.bind fun b => (switchTo_hushed b).guarding.bind fun _ => ?_
  refine inScope_guarding _ (get_hushed.guarding.bind fun s => (Guarding.lift _).bind fun d => ?_)
  refine (spillParams_guarding ..).bind fun _ => ?_
  split
  · exact stmts_guarding _
  · exact .raise _

theorem header_guarding (f : Fn) (ret : Ty) (params : List Ty) :
    Guarding (header f ret params) := by
  unfold header
  refine get_hushed.guarding.bind fun s => ?_
  split
  · exact (newFn_hushed ..).guarding
  · split
    · exact .guard (.raise _) fun _ => .guard (.raise _) fun _ => .pure _
    · exact .raise _

theorem bindFn_guarding {f : Fn} {s : Symbol} {fn : FnId} {params : List Ty} {defined : Bool}
    (meaning : s.meaning = .function fn params defined) : Guarding (bindFn f s) := by
  refine .of_guards (Q := fun _ _ => True) fun {σ} guarded => ⟨fun {a σ'} e => ?_⟩
  unfold bindFn at e
  rw [get_bind] at e
  have symbols : (if f.isDecl then σ.symbols.declare s else σ.symbols.define s).2.symbols =
      σ.symbols.symbols ∨ (if f.isDecl then σ.symbols.declare s else σ.symbols.define s).2.symbols =
        σ.symbols.symbols.push s := by
    split
    · exact declare_symbols σ.symbols s
    · exact define_symbols σ.symbols s
  generalize (if f.isDecl then σ.symbols.declare s else σ.symbols.define s) = attempt at e symbols
  obtain ⟨⟨accepted, existing⟩, t⟩ := attempt
  obtain ⟨guarded', since⟩ := guarded.bound (admits_function meaning) symbols
  have result : σ' = { σ with symbols := t } := by
    cases accepted <;> cases existing <;> cases e <;> rfl
  subst result
  exact ⟨guarded', since, trivial⟩

theorem function_guarding (f : Fn) : Guarding (function f) := by
  unfold function
  refine get_hushed.guarding.bind fun s => (Guarding.lift _).bind fun params => ?_
  refine (header_guarding ..).bind fun id => (bindFn_guarding rfl).bind fun _ => ?_
  split
  · exact .pure ()
  · exact body_guarding ..

theorem item_guarding (i : Item) : Guarding (item i) := by
  unfold item
  split
  · exact function_guarding _
  · exact globalDecl_guarding _
  · exact .throw _
  · exact .throw _
  · split
    · exact .throw _
    · exact .raise _

theorem items_guarding (canceled : Bool) (is : List Item) : Guarding (items canceled is) := by
  induction is with
  | nil => exact .pure ()
  | cons i is ih => exact .guard (.throw _) fun _ => (item_guarding i).bind fun _ => ih

theorem unit_guarding (withLibrary canceled : Bool) (u : CompUnit) :
    Guarding (unit withLibrary canceled u) := by
  unfold unit
  refine .guard (declareLibrary_guarding _) fun _ => (items_guarding canceled u.items).bind fun _ => ?_
  refine .of_guards (Q := fun _ _ => True) fun {σ} guarded => ⟨fun {a σ'} e => ?_⟩
  rw [get_bind] at e
  obtain ⟨p, σ₁, first, rest⟩ := bind_eq_ok.mp e
  obtain ⟨closed, rfl⟩ := lift_ok first
  cases rest
  have quiet := (addsNoStore_closable.closeBlocks closed).quiet
  exact ⟨guarded.quiet quiet, quiet.since, trivial⟩

/-- At the start there is nothing. -/
theorem guarded_empty : Guarded {} := by
  refine ⟨fun has => ?_, fun ⟨_, mem, _⟩ => ?_, fun ⟨_, mem, _⟩ => ?_, fun ⟨_, mem, _⟩ => ?_⟩
  · obtain ⟨positive, le⟩ := has.le_size
    exact absurd positive (Nat.not_lt.mpr le)
  · cases Array.not_mem_empty _ mem
  · cases Array.not_mem_empty _ mem
  · cases Array.not_mem_empty _ mem

end Lower

/-- In a lowered program no store writes to a constant array: the address is neither that of the
global variable that holds the elements of the array nor of a part of it. -/
theorem constant_not_stored {withLibrary : Bool} {u : CompUnit} {σ : Lower.State}
    (accepted : Lower.unit withLibrary false u {} = .ok () σ) {s : Symbol} {w : Const.Value}
    {g : ValueId} (bound : s ∈ σ.symbols.symbols) (constant : s.meaning = .constant w (some g))
    {v x a : ValueId} {h : Option FnId} {t : Koopa.Ty}
    (store : σ.program.Has v h t (.store x a)) : ¬ σ.program.Inside a g := by
  obtain ⟨guarded, -, -⟩ := ((Lower.unit_guarding withLibrary false u).guards
    Lower.guarded_empty).ok accepted
  exact (guarded.stores store).not_inside guarded ⟨s, bound, w, constant⟩

/-- A source in which a constant array is passed to a function that writes to it. -/
def passedConstant : Source.File :=
  { id := 0
    path := "passed.c"
    content := Bytes.ofString ("const int a[2] = \x7b1, 2\x7d; int b; void f(int x[]) \x7b x[0] = 9; \x7d " ++
      "int main() \x7b f(a); return a[0] - a[b]; \x7d")
    flags := default }

/-- Its unit. -/
def passedConstantUnit : CompUnit :=
  (Parsed.ofLexed (.ofFile passedConstant) false).result.toOption.getD default

/-- What can be checked of the state in which lowering ends. -/
theorem Lower.unit_ok_of_check {u : CompUnit} {P : Lower.State → Prop} [DecidablePred P]
    (check : (match Lower.unit false false u {} with
      | .ok _ σ => decide (P σ)
      | .error .. => false) = true) : ∃ σ, Lower.unit false false u {} = .ok () σ ∧ P σ := by
  split at check
  · rename_i σ lowered
    exact ⟨σ, lowered, of_decide_eq_true check⟩
  · cases check

theorem Koopa.Program.has_of_defn {p : Koopa.Program} {v : ValueId} {x : Koopa.ValueDef}
    (defn : (p.value? v).map (·.defn) = some x) : ∃ h t, p.Has v h t x := by
  obtain ⟨y, found, rfl⟩ := Option.map_eq_some_iff.mp defn
  exact ⟨_, _, has_of_value? found⟩

/-- In the example value 4 holds the elements of the constant array, and value 14 is the assignment
in the function. -/
theorem passedConstant_lowered : ∃ σ s, Lower.unit false false passedConstantUnit {} = .ok () σ ∧
    s ∈ σ.symbols.symbols ∧ s.meaning = .constant ⟨[2], [1, 2]⟩ (some 4) ∧
    (σ.program.value? 14).map (·.defn) = some (.store 13 12) ∧
    (σ.program.value? 16).map (·.defn) = some (.getElemPtr 4 15) ∧
    (σ.program.value? 17).map (·.defn) = some (.call 1 [16]) := by
  obtain ⟨σ, lowered, symbol, store, address, call⟩ := Lower.unit_ok_of_check
    (u := passedConstantUnit)
    (P := fun σ => (σ.symbols.get? 1).map (·.meaning) = some (.constant ⟨[2], [1, 2]⟩ (some 4)) ∧
      (σ.program.value? 14).map (·.defn) = some (.store 13 12) ∧
      (σ.program.value? 16).map (·.defn) = some (.getElemPtr 4 15) ∧
      (σ.program.value? 17).map (·.defn) = some (.call 1 [16])) (by decide +kernel)
  obtain ⟨s, found, meaning⟩ := Option.map_eq_some_iff.mp symbol
  exact ⟨σ, s, lowered, Lower.mem_of_get? found, meaning, store, address, call⟩

/-- The assignment through the parameter is not a store to the constant array by itself. -/
theorem passedConstant_not_stored : ∃ σ s, Lower.unit false false passedConstantUnit {} = .ok () σ ∧
    s ∈ σ.symbols.symbols ∧ s.meaning = .constant ⟨[2], [1, 2]⟩ (some 4) ∧
    (∃ h t, σ.program.Has 14 h t (.store 13 12)) ∧ ¬ σ.program.Inside 12 4 := by
  obtain ⟨σ, s, lowered, bound, meaning, store, -⟩ := passedConstant_lowered
  obtain ⟨h, t, has⟩ := Koopa.Program.has_of_defn store
  exact ⟨σ, s, lowered, bound, meaning, ⟨h, t, has⟩, constant_not_stored lowered bound meaning has⟩

/-- But the address of the constant array is passed to the function. -/
theorem passedConstant_escapes : (Parsed.ofLexed (.ofFile passedConstant) false).result =
      .ok passedConstantUnit ∧
    ∃ σ s, Lower.unit false false passedConstantUnit {} = .ok () σ ∧ s ∈ σ.symbols.symbols ∧
      s.meaning = .constant ⟨[2], [1, 2]⟩ (some 4) ∧
      (∃ h t, σ.program.Has 17 h t (.call 1 [16])) ∧ σ.program.Inside 16 4 := by
  obtain ⟨σ, s, lowered, bound, meaning, -, address, call⟩ := passedConstant_lowered
  obtain ⟨h, t, has⟩ := Koopa.Program.has_of_defn address
  exact ⟨eq_ok_of_isSome (by decide +kernel), σ, s, lowered, bound, meaning,
    Koopa.Program.has_of_defn call, .elem has .whole⟩

end SysY

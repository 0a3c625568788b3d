import SysY.Proofs.Lower.Expr
import SysY.Proofs.Lower.Parts

/-! # Declarations keep the invariant

A constant array or a global variable adds values that belong to no function, and one global
variable among them, which is the slot of the symbol that is bound next. A local variable adds a
slot to the current block and the instructions that store its initializer. -/

namespace SysY.Lower

open Koopa (ValueId BlockId FnId Avail ValueDef)
open Source (Span)

variable {k : Kind} {c : Site} {avail : Avail} {σ : State}

/-! ## Global values -/

/-- A later program that has the same functions and the same global variables. -/
structure Consts (avail : Avail) (p p' : Koopa.Program) : Prop extends Added avail p p' where
  globals : ∀ {g t init}, p'.Has g none t (.globalAlloc init) → p.Has g none t (.globalAlloc init)

theorem Consts.refl {p : Koopa.Program} (ok : p.Ok avail) : Consts avail p p :=
  ⟨.refl ok, id⟩

theorem Consts.trans {p₁ p₂ p₃ : Koopa.Program} (h : Consts avail p₁ p₂)
    (h' : Consts avail p₂ p₃) : Consts avail p₁ p₃ :=
  ⟨h.toAdded.trans h'.toAdded, fun has => h.globals (h'.globals has)⟩

/-- Adding a value that stands in no block. -/
theorem Added.insert {p : Koopa.Program} (ok : p.Ok avail) {x : Koopa.Value}
    (new : (p.insert x).2.ValueOk (p.values.size + 1) x.home x.ty x.defn)
    (name : Koopa.Program.NameOk x) : Added avail p (p.insert x).2 :=
  ⟨Koopa.Program.grows_insert p x, ok.insert new name, rfl⟩

/-- Adding a constant. -/
theorem Consts.insert {p : Koopa.Program} (ok : p.Ok avail) {t : Koopa.Ty} {x : ValueDef}
    (typed : p.Typed none t x) (operands : ∀ o ∈ x.operands, ∃ t, p.Sees none o t ∧ t ≠ .unit)
    (isConst : x.isConst = true) :
    Consts avail p (p.insert { home := none, ty := t, defn := x }).2 := by
  have grows := Koopa.Program.grows_insert p { home := none, ty := t, defn := x }
  have notGlobal : ∀ init, x ≠ .globalAlloc init := by
    rintro init rfl
    cases isConst
  refine ⟨.insert ok (.of_typed (typed.grows grows) ?_ ?_ ?_ notGlobal) (.inr ⟨rfl, ?_⟩), ?_⟩
  · intro o ho
    obtain ⟨t, sees, solid⟩ := operands o ho
    exact ⟨t, grows.sees sees, solid⟩
  · cases x <;> first | rfl | cases isConst
  · rintro i rfl
    cases isConst
  · cases x <;> first | rfl | cases isConst
  · intro g t' init has
    rcases Koopa.Program.has_insert_iff.mp has with old | ⟨-, -, -, kind⟩
    · exact old
    · exact absurd kind.symm (notGlobal init)

theorem makeGlobal_eq {f : Koopa.Program → Outcome (ValueId × Koopa.Program)} {x : Koopa.Value}
    (eq : f σ.program = .ok (σ.program.insert x)) :
    makeGlobal f σ = .ok (σ.program.values.size + 1)
      (σ.withProgram (σ.program.insert x).2) := by
  simp only [makeGlobal, tryMake, get_bind, eq, lift]
  rfl

/-- Bounds lead to the type of something. -/
theorem grid_ne_unit (ds : List Int) : Koopa.Ty.grid ds ≠ .unit := by
  cases ds <;> simp [Koopa.Ty.grid]

/-- An operation that adds a global constant of a type. -/
structure MakesConst (c : Site) (avail : Avail) (t : Koopa.Ty) (m : Lower ValueId) : Prop where
  ends : ∀ {σ}, At c σ → σ.program.Ok avail → Ends (At c) m σ fun v σ' =>
    ∃ p, σ' = σ.withProgram p ∧ Consts avail σ.program p ∧ p.Sees none v t

theorem withProgram_at {p : Koopa.Program} (site : At c σ) : At c (σ.withProgram p) :=
  ⟨site.fn, site.ret, site.loops, site.depth⟩

theorem makeMany_ends {t : Koopa.Ty} {f : Nat → Lower ValueId}
    (each : ∀ i, MakesConst c avail t (f i)) (n i : Nat) (site : At c σ)
    (ok : σ.program.Ok avail) : Ends (At c) (makeMany f n i) σ fun vs σ' =>
      ∃ p, σ' = σ.withProgram p ∧ Consts avail σ.program p ∧ vs.length = n ∧
        ∀ v ∈ vs, p.Sees none v t := by
  induction n generalizing i σ with
  | zero => exact .pure [] ⟨σ.program, rfl, .refl ok, rfl, by simp⟩
  | succ n ih =>
    rw [makeMany]
    refine ((each i).ends site ok).bind ?_
    rintro v _ ⟨p, rfl, consts, sees⟩
    refine (ih (i + 1) (withProgram_at site) consts.ok).bind ?_
    rintro vs _ ⟨p', rfl, consts', length, all⟩
    refine .pure _ ⟨p', rfl, consts.trans consts', by simp [length], ?_⟩
    intro w hw
    rcases List.mem_cons.mp hw with rfl | hw
    · exact consts'.grows.sees sees
    · exact all w hw

theorem aggregate_makesConst {ds : List Int} (bounds : Bounds ds) (data : List Int32) :
    MakesConst c avail (.grid ds) (aggregate ds data) := by
  induction ds generalizing data with
  | nil =>
    constructor
    intro σ site ok
    rw [aggregate]
    split
    · rename_i n _
      exact .of_ok (makeGlobal_eq rfl) ⟨_, rfl,
        .insert ok rfl (by simp [ValueDef.operands]) rfl,
        none, .integer n, Koopa.Program.has_insert .., .inl rfl⟩
    · exact .throw rfl site
  | cons d ds ih =>
    obtain ⟨⟨positive, -⟩, rest⟩ := bounds_cons.mp bounds
    constructor
    intro σ site ok
    rw [aggregate]
    refine (makeMany_ends (fun i => ih rest _) d.toNat 0 site ok).bind ?_
    rintro elems _ ⟨p, rfl, consts, length, sees⟩
    have nonempty : elems ≠ [] := by
      intro empty
      rw [empty, List.length_nil] at length
      omega
    refine .of_ok (makeGlobal_eq (Koopa.Program.aggregate_eq nonempty sees)) ⟨_, rfl,
      consts.trans (.insert consts.ok ⟨_, rfl, nonempty, sees⟩ ?_ rfl),
      none, .aggregate elems, ?_, .inl rfl⟩
    · intro o ho
      exact ⟨_, sees o ho, grid_ne_unit ds⟩
    · have has := Koopa.Program.has_insert p
        { home := none, ty := .array (.grid ds) elems.length, defn := .aggregate elems }
      rw [length] at has
      rw [length]
      exact has

/-- What a name with an `@` starts with. -/
theorem head_at (name : String) : ("@" ++ name).toList.head? = some '@' := by
  rw [String.toList_append]
  rfl

theorem koopa_object {t : Ty} (object : t.IsObject) : t.koopa = .grid t.dims := by
  cases t with
  | int => rfl
  | void => cases object
  | array ds => rfl
  | pointer ds => cases object

theorem bounds_dims {t : Ty} (solid : t.Solid) : Bounds t.dims := by
  cases t with
  | int => exact .nil
  | void => exact .nil
  | array ds => exact solid.2
  | pointer ds => exact solid

theorem initializer_makesConst {ty : Ty} (solid : ty.Solid) (object : ty.IsObject)
    (data : List Int32) : MakesConst c avail ty.koopa (initializer ty data) := by
  unfold initializer
  split
  · constructor
    intro σ site ok
    have koopa : lift ty.toKoopa σ = .ok ty.koopa σ := by rw [Ty.toKoopa_eq solid]; rfl
    exact .of_eq (bind_ok koopa) (.of_ok (makeGlobal_eq rfl) ⟨_, rfl,
      .insert ok trivial (by simp [ValueDef.operands]) rfl,
      none, .zeroInit, Koopa.Program.has_insert .., .inl rfl⟩)
  · rw [koopa_object object]
    exact aggregate_makesConst (bounds_dims solid) data

/-- The global variable is added together with its name. -/
theorem namedGlobal_eq {init : ValueId} {t : Koopa.Ty} (sees : σ.program.Sees none init t)
    (name : String) : namedGlobal name init σ = .ok (σ.program.values.size + 1)
      (σ.withProgram (σ.program.insert
        ⟨none, .pointer t, .globalAlloc init, "@" ++ name⟩).2) := by
  let x : Koopa.Value := ⟨none, .pointer t, .globalAlloc init, ""⟩
  have named : lift ((σ.program.insert x).2.setGlobalName (σ.program.values.size + 1)
      ("@" ++ name)) = (pure (σ.program.insert { x with name := "@" ++ name }).2 :
        Lower Koopa.Program) := by
    rw [Koopa.Program.setGlobalName_insert σ.program rfl]
    rfl
  rw [namedGlobal, bind_ok (makeGlobal_eq (Koopa.Program.globalAlloc_eq sees))]
  change (lift ((σ.program.insert x).2.setGlobalName (σ.program.values.size + 1)
    ("@" ++ name)) >>= fun p => setProgram p >>= fun _ => pure (σ.program.values.size + 1)) _ = _
  rw [named]
  rfl

/-- A global variable is added, and its type is the declared type. -/
theorem globalVariable_ends {ty : Ty} (solid : ty.Solid) (object : ty.IsObject) (name : String)
    (data : List Int32) (site : At c σ) (ok : σ.program.Ok avail) :
    Ends (At c) (globalVariable name ty data) σ fun g σ' => ∃ p, σ' = σ.withProgram p ∧
      Added avail σ.program p ∧ Symbol.SlotOk p none g ty ∧
      ∀ {g' t init}, p.Has g' none t (.globalAlloc init) →
        σ.program.Has g' none t (.globalAlloc init) ∨ g' = g ∧ t = .pointer ty.koopa := by
  rw [globalVariable_eq]
  refine ((initializer_makesConst solid object data).ends site ok).bind ?_
  rintro v _ ⟨p, rfl, consts, sees⟩
  have grows := Koopa.Program.grows_insert p ⟨none, .pointer ty.koopa, .globalAlloc v, "@" ++ name⟩
  refine .of_ok (namedGlobal_eq (σ := σ.withProgram p) sees name) ⟨_, rfl,
    consts.toAdded.trans (.insert consts.ok
      ⟨⟨_, rfl, grows.sees sees⟩, ?_, by simp [ValueDef.targets], by simp, by simp⟩
      (.inl (head_at name))), .inl ⟨v, Koopa.Program.has_insert ..⟩, ?_⟩
  · simp only [ValueDef.operands, List.mem_singleton, forall_eq]
    exact ⟨_, grows.sees sees, koopa_ne_unit solid⟩
  · intro g t i hasG
    rcases Koopa.Program.has_insert_iff.mp hasG with old | ⟨new, -, type, -⟩
    · exact .inl (consts.globals old)
    · exact .inr ⟨new, type⟩

/-- The symbol of a constant, with the global variable for a constant array. -/
theorem constantSymbol_ends {d : Def} {ty : Ty} {value : Const.Value} (solid : ty.Solid)
    (object : ty.IsObject) (dims : value.dims = ty.dims)
    (length : (value.data.length : Int) = Const.count value.dims) (site : At c σ)
    (ok : σ.program.Ok avail) : Ends (At c) (constantSymbol d ty value) σ fun s σ' =>
      ∃ p slot, σ' = σ.withProgram p ∧ Added avail σ.program p ∧ s.Ok p none ∧
        s = ⟨d.name, d.nameSpan, ty, .constant value slot⟩ ∧
        ∀ {g t init}, p.Has g none t (.globalAlloc init) →
          σ.program.Has g none t (.globalAlloc init) ∨
            s.slot? = some g ∧ s.type.Solid ∧ t = .pointer s.type.koopa := by
  unfold constantSymbol
  cases scalar : ty.isScalar with
  | true =>
    rw [if_pos rfl]
    obtain rfl := Ty.isScalar_iff.mp scalar
    exact .of_ok rfl ⟨σ.program, none, rfl, .refl ok,
      ⟨trivial, trivial, dims, length, fun _ => rfl, fun h => absurd rfl h⟩, rfl, .inl⟩
  | false =>
    have array : ty ≠ .int := by
      rintro rfl
      cases scalar
    rw [if_neg (by simp)]
    refine Ends.bind (m := some <$> globalVariable d.name ty value.data)
      (Q := fun slot σ' => ∃ g p, slot = some g ∧ σ' = σ.withProgram p ∧
        Added avail σ.program p ∧ Symbol.SlotOk p none g ty ∧
        ∀ {g' t init}, p.Has g' none t (.globalAlloc init) →
          σ.program.Has g' none t (.globalAlloc init) ∨ g' = g ∧ t = .pointer ty.koopa) ?_ ?_
    · rw [map_eq_pure_bind]
      refine (globalVariable_ends solid object d.name value.data site ok).bind ?_
      rintro g _ ⟨p, rfl, added, slotOk, globals⟩
      exact .pure _ ⟨g, p, rfl, rfl, added, slotOk, globals⟩
    · rintro _ _ ⟨g, p, rfl, rfl, added, slotOk, globals⟩
      refine .pure _ ⟨p, some g, rfl, added, ⟨solid, object, dims, length, fun h => absurd h array,
        fun _ => ⟨g, rfl, slotOk⟩⟩, rfl, ?_⟩
      intro g' t init has
      exact (globals has).imp_right fun ⟨same, type⟩ => ⟨by rw [same]; rfl, solid, type⟩

/-! ## Local variables -/

theorem setName_eq {v : ValueId} {t : Koopa.Ty} {name : String}
    (sees : σ.program.Sees (some σ.frame.fn) v t) :
    setName v name σ = .ok () (σ.withProgram (σ.program.rename v name)) := by
  obtain ⟨x, found, -⟩ := Koopa.Program.value_eq_ok sees
  have named : lift (σ.program.setName σ.frame.fn v name) =
      (pure (σ.program.rename v name) : Lower Koopa.Program) := by
    simp only [Koopa.Program.setName, found, Bind.bind, Except.bind]
    rfl
  change (lift (σ.program.setName σ.frame.fn v name) >>= setProgram) σ = _
  rw [named]
  rfl

/-- Naming a value changes nothing but its name. -/
theorem setName_runs {v : ValueId} {t : Koopa.Ty} {name : String} (inv : Inv c avail σ)
    (sees : σ.program.Sees (some σ.frame.fn) v t) (isName : name.toList.head? = some '@') :
    Runs .expr c avail σ (setName v name) fun _ _ _ => True := by
  obtain ⟨x, -, -, found⟩ := Koopa.Program.value_eq_ok sees
  have grows := Koopa.Program.grows_rename found name
  refine .of_ok (setName_eq sees) ⟨avail, ?_, ?_, trivial⟩
  · refine inv.change grows (inv.program.rename found isName) (inv.tidy.grows grows rfl) rfl
      (Koopa.Program.has_rename_iff found).mp rfl rfl rfl fun isOpen => ?_
    refine (inv.live isOpen).withProgram ?_ subset_rfl
    obtain ⟨d, is, foundFn, here, plain, reaches⟩ := (inv.live isOpen).block
    refine ⟨d, is, foundFn, here, fun w hw term => plain w hw ?_, reaches.grows grows (.refl d)⟩
    obtain ⟨h, t, y, has, isTerm⟩ := term
    exact ⟨h, t, y, (Koopa.Program.has_rename_iff found).mp has, isTerm⟩
  · exact {
      grows := grows
      fn := rfl
      others := fun _ => rfl
      ghost := fun _ => rfl
      still := fun found found' here _ => by
        obtain rfl := Option.some.inj (found.symm.trans found')
        exact here
      here := fun isOpen => ⟨isOpen, .inl rfl⟩
      avail := fun _ => subset_rfl
      keeps := ⟨rfl, rfl⟩ }

theorem elementPtr_runs {base : ValueId} {count index : Int} {ds : List Int} (inv : Inv c avail σ)
    (operand : Operand avail σ base (.pointer (.grid ds))) :
    Runs .expr c avail σ (elementPtr base count index ds) fun v avail' σ' =>
      Operand avail' σ' v (.pointer .i32) := by
  induction ds generalizing avail σ base count index with
  | nil => exact Runs.pure inv operand
  | cons d ds ih =>
    rw [elementPtr]
    refine Runs.guard inv (fun _ => Runs.throw inv rfl) fun _ => ?_
    refine Runs.bind inv (integer_runs inv _) ?_
    intro i avail₁ σ₁ inv₁ evo₁ iOk
    refine Runs.bind inv₁ (getElemPtr_runs inv₁ (operand.evo evo₁) iOk) ?_
    intro ptr avail₂ σ₂ inv₂ evo₂ ptrOk
    exact ih inv₂ ptrOk

/-- Elements that are there can be stored. -/
def ElemsOk (avail : Avail) (σ : State) (es : List (Option ValueId)) : Prop :=
  ∀ v, some v ∈ es → Operand avail σ v .i32

theorem ElemsOk.evo {avail' : Avail} {σ' : State} {es : List (Option ValueId)}
    (evo : Evo k avail σ avail' σ') (ok : ElemsOk avail σ es) : ElemsOk avail' σ' es :=
  fun v hv => (ok v hv).evo evo

theorem storeElements_runs {slot : ValueId} {dims : List Int} {index : Nat}
    {es : List (Option ValueId)} (inv : Inv c avail σ)
    (operand : Operand avail σ slot (.pointer (.grid dims))) (ok : ElemsOk avail σ es) :
    Runs .expr c avail σ (storeElements slot dims index es) fun _ _ _ => True := by
  induction es generalizing avail σ index with
  | nil => exact Runs.pure inv trivial
  | cons e es ih =>
    have filled : ∀ {avail₁ σ₁ v}, Inv c avail₁ σ₁ → Evo .expr avail σ avail₁ σ₁ →
        Operand avail₁ σ₁ v .i32 →
        Runs .expr c avail₁ σ₁ (filling slot dims index es v) fun _ _ _ => True := by
      intro avail₁ σ₁ v inv₁ evo₁ vOk
      refine Runs.bind inv₁ (elementPtr_runs inv₁ (operand.evo evo₁)) ?_
      intro ptr avail₂ σ₂ inv₂ evo₂ ptrOk
      refine Runs.bind inv₂ (store_runs inv₂ (vOk.evo evo₂) ptrOk) ?_
      intro _ avail₃ σ₃ inv₃ evo₃ _
      refine ih inv₃ (((operand.evo evo₁).evo evo₂).evo evo₃) ?_
      intro w hw
      exact (((ok w (by simp [hw])).evo evo₁).evo evo₂).evo evo₃
    cases e with
    | none =>
      rw [storeElements]
      exact Runs.bind inv (integer_runs inv 0) fun v _ _ inv₁ evo₁ vOk => filled inv₁ evo₁ vOk
    | some v =>
      rw [storeElements]
      exact filled inv (.refl _ _ _) (ok v (by simp))

theorem storeLayout_runs {ps : List Const.Placement} {out : List (Option ValueId)}
    (whole : ∀ p ∈ ps, p.value.Whole) (inv : Inv c avail σ) (ok : ElemsOk avail σ out) :
    Runs .expr c avail σ (Const.Layout.store (fun e => some <$> expr e) ps out)
      fun es avail' σ' => ElemsOk avail' σ' es := by
  induction ps generalizing avail σ out with
  | nil => exact Runs.pure inv ok
  | cons p ps ih =>
    rw [Const.Layout.store]
    simp only [map_eq_pure_bind, bind_assoc, pure_bind]
    refine Runs.bind inv ((expr_computes p.value (whole p (by simp))).runs inv) ?_
    intro v avail₁ σ₁ inv₁ evo₁ vOk
    split
    · refine ih (fun q hq => whole q (by simp [hq])) inv₁ ?_
      intro w hw
      rcases List.mem_or_eq_of_mem_set hw with old | new
      · exact (ok w old).evo evo₁
      · cases new
        exact vOk
    · exact Runs.throw inv₁ rfl

/-- The elements of an initializer are computed in order. -/
theorem flatten_runs {dims : List Int} {i : Init} (whole : i.Whole) (inv : Inv c avail σ) :
    Runs .expr c avail σ (Const.flatten none (fun e => some <$> expr e) dims i)
      fun es avail' σ' => ElemsOk avail' σ' es := by
  unfold Const.flatten
  split
  · rename_i f failed
    exact Runs.throw inv ((Const.Layout.ofArray_plain ..).expected.failure failed)
  · rename_i l size done
    unfold Const.Layout.fill
    refine Runs.bind inv (storeLayout_runs (Const.Layout.ofArray_whole whole done) inv ?_) ?_
    · intro v hv
      cases List.eq_of_mem_replicate hv
    · intro out avail₁ σ₁ inv₁ evo₁ ok
      split
      · rename_i f stopped
        exact Runs.throw inv₁ (((Const.Layout.ofArray_stopPlain done).failure stopped).1)
      · exact Runs.pure inv₁ ok

theorem storeInit_runs {slot : ValueId} {ty : Ty} {i : Init} (whole : i.Whole)
    (object : ty.IsObject) (inv : Inv c avail σ)
    (operand : Operand avail σ slot (.pointer ty.koopa)) :
    Runs .expr c avail σ (storeInit slot ty i) fun _ _ _ => True := by
  unfold storeInit
  split
  · rename_i scalar
    rw [Ty.isScalar_iff.mp scalar] at operand
    split
    · exact whole.elim
    · exact Runs.raise inv .typeMismatch rfl (by decide)
    · rename_i e
      refine Runs.bind inv ((expr_computes e whole).runs inv) ?_
      intro v avail₁ σ₁ inv₁ evo₁ vOk
      refine Runs.bind inv₁ (store_runs inv₁ vOk (operand.evo evo₁)) ?_
      intro _ avail₂ σ₂ inv₂ _ _
      exact Runs.pure inv₂ trivial
  · rw [koopa_object object] at operand
    refine Runs.bind inv (flatten_runs whole inv) ?_
    intro es avail₁ σ₁ inv₁ evo₁ ok
    exact storeElements_runs inv₁ (operand.evo evo₁) ok

/-! ## Declarations -/

theorem store_length {α : Type} {elem : Expr → Outcome α} {ps : List Const.Placement}
    {out out' : List α} (h : Const.Layout.store elem ps out = .ok out') :
    out'.length = out.length := by
  induction ps generalizing out with
  | nil =>
    cases h
    rfl
  | cons p ps ih =>
    rw [Const.Layout.store] at h
    obtain ⟨v, -, h⟩ := Except.bind_eq_ok.mp h
    split at h
    · rw [ih h, List.length_set]
    · cases h

theorem flatten_length {α : Type} {zero : α} {elem : Expr → Outcome α} {dims : List Int}
    {init : Init} {data : List α} (h : Const.flatten zero elem dims init = .ok data) :
    (data.length : Int) = Const.count dims := by
  unfold Const.flatten at h
  split at h
  · cases h
  · rename_i l size layout
    obtain ⟨out, stored, h⟩ := Except.bind_eq_ok.mp h
    split at h
    · cases h
    · cases h
      rw [store_length stored, List.length_replicate]
      cases init with
      | expr | missing => cases layout
      | list s is =>
        rw [Const.Layout.ofArray] at layout
        split at layout
        · cases layout
        · cases layout
          omega

/-- A constant has as many elements as its bounds say. -/
theorem constantInit_length {env : Const.Env} {what : String} {ty : Ty} {init : Init}
    {data : List Int32} (h : constantInit env what ty init = .ok data) :
    (data.length : Int) = Const.count ty.dims := by
  unfold constantInit at h
  split at h
  · rename_i scalar
    rw [Ty.isScalar_iff.mp scalar]
    split at h
    · cases h
    · cases h
    · obtain ⟨v, -, h⟩ := Except.bind_eq_ok.mp h
      cases h
      rfl
  · exact flatten_length h

theorem constantDef_eq_ok {env : Const.Env} {d : Def} {ty : Ty} {value : Const.Value}
    (h : constantDef env d = .ok (ty, value)) :
    Ty.ofDef env .int d = .ok ty ∧ value.dims = ty.dims ∧
      (value.data.length : Int) = Const.count value.dims := by
  unfold constantDef at h
  obtain ⟨t, type, h⟩ := Except.bind_eq_ok.mp h
  split at h
  · cases h
  · obtain ⟨data, made, h⟩ := Except.bind_eq_ok.mp h
    cases h
    exact ⟨type, rfl, constantInit_length made⟩

theorem localConstant_eq (d : Def) (σ : State) :
    localConstant d σ = (do
      let (ty, value) ← lift (constantDef σ.symbols.env d)
      declare (← constantSymbol d ty value) : Lower Unit) σ := rfl

theorem localConstant_runs {d : Def} (depth : 0 < c.depth) (inv : Inv c avail σ) :
    Runs .item c avail σ (localConstant d) fun _ _ _ => True := by
  refine Ends.of_eq (localConstant_eq d σ) ?_
  refine Runs.lift inv (constantDef_plain _ _).expected ?_
  rintro ⟨ty, value⟩ defined
  obtain ⟨type, dims, length⟩ := constantDef_eq_ok defined
  obtain ⟨solid, object⟩ := Ty.ofDef_solid type
  refine Ends.bind (constantSymbol_ends solid object dims length inv.site inv.program) ?_
  rintro s _ ⟨p, slot, rfl, added, symOk, rfl, globals⟩
  exact declare_runs inv depth added globals symOk.of_global fun _ _ meaning => by cases meaning

theorem localVariable_eq (d : Def) (σ : State) :
    localVariable d σ = (do
      let ty ← lift (Ty.ofDef σ.symbols.env .int d)
      let t ← lift ty.toKoopa
      let slot ← emitNew (·.alloc · t)
      setName slot ("@" ++ d.name)
      match d.init with
      | none => pure ()
      | some init => storeInit slot ty init
      declare { name := d.name, span := d.nameSpan, type := ty, meaning := .variable slot } :
        Lower Unit) σ := rfl

theorem localVariable_runs {d : Def} (whole : d.Whole) (depth : 0 < c.depth)
    (inv : Inv c avail σ) : Runs .item c avail σ (localVariable d) fun _ _ _ => True := by
  refine Ends.of_eq (localVariable_eq d σ) ?_
  refine Runs.lift inv (Ty.ofDef_plain _ _ _).expected fun ty type => ?_
  obtain ⟨solid, object⟩ := Ty.ofDef_solid type
  rw [Ty.toKoopa_eq solid]
  refine Runs.lift inv (Outcome.expected_ok _) ?_
  rintro _ ⟨⟩
  refine Runs.bind inv (RunsFrom.of_expr (alloc_runs inv ty.koopa)) ?_
  intro slot avail₁ σ₁ inv₁ evo₁ placed
  have slotOk : Operand avail₁ σ₁ slot (.pointer ty.koopa) := placed.operand (by simp)
  refine Runs.bind inv₁ (RunsFrom.of_expr (setName_runs inv₁ slotOk.sees (head_at d.name))) ?_
  intro _ avail₂ σ₂ inv₂ evo₂ _
  have bindName : ∀ {avail₃ σ₃}, Inv c avail₃ σ₃ → Evo .item avail₁ σ₁ avail₃ σ₃ →
      Runs .item c avail₃ σ₃ (declare
        { name := d.name, span := d.nameSpan, type := ty, meaning := .variable slot })
        fun _ _ _ => True := by
    intro avail₃ σ₃ inv₃ evo₃
    refine declare_runs inv₃ depth (.refl inv₃.program) .inl ⟨solid, .inr ⟨_, rfl, ?_⟩⟩ ?_
    · have has := evo₃.grows.values placed.has
      rwa [inv₁.site.fn] at has
    · intro isOpen v meaning
      cases meaning
      exact evo₃.avail isOpen (placed.avail (evo₃.here isOpen).1)
  cases hinit : d.init with
  | none => exact bindName inv₂ evo₂
  | some init =>
    refine Runs.bind inv₂ (RunsFrom.of_expr (storeInit_runs (whole.init init (by rw [hinit]; rfl))
      object inv₂ (slotOk.evo evo₂))) ?_
    intro _ avail₃ σ₃ inv₃ evo₃ _
    exact bindName inv₃ (evo₂.trans evo₃ inv₁.laid)

theorem refuseVoid_runs {d : Decl} (whole : d.Whole) (inv : Inv c avail σ) :
    Runs .item c avail σ (refuseVoid d) fun _ _ _ => True := by
  unfold refuseVoid
  split
  · rename_i empty
    exact absurd empty whole.nonempty
  · exact Runs.raise inv .voidVariable rfl (by decide)

theorem localDefs_runs {isConst : Bool} {ds : List Def} (whole : ∀ d ∈ ds, d.Whole)
    (depth : 0 < c.depth) (inv : Inv c avail σ) :
    Runs .item c avail σ (ds.forM (if isConst then localConstant else localVariable))
      fun _ _ _ => True := by
  induction ds generalizing avail σ with
  | nil => exact Runs.pure inv trivial
  | cons d ds ih =>
    change Runs .item c avail σ (_ >>= fun _ => ds.forM _) _
    refine Runs.bind inv (Q := fun _ _ _ => True) ?_ ?_
    · split
      · exact localConstant_runs depth inv
      · exact localVariable_runs (whole d (by simp)) depth inv
    · intro _ avail₁ σ₁ inv₁ _ _
      exact ih (fun e he => whole e (by simp [he])) inv₁

theorem localDecl_runs {d : Decl} (whole : d.Whole) (depth : 0 < c.depth) (inv : Inv c avail σ) :
    Runs .item c avail σ (localDecl d) fun _ _ _ => True := by
  unfold localDecl
  split
  · exact refuseVoid_runs whole inv
  · exact localDefs_runs whole.defs depth inv

end SysY.Lower

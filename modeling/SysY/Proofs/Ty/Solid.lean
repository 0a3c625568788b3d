import SysY.Proofs.Const.Expected

/-! # Types of variables

The type of a name that stands for storage is an integer, an array or an array parameter, and its
bounds are positive 32-bit numbers. For these types `Ty.koopa` is the type in intermediate code. -/

namespace SysY

/-- Bounds of an array that has elements. -/
def Positive (ds : List Int) : Prop := ∀ d ∈ ds, 0 < d

theorem positive_cons {d : Int} {ds : List Int} : Positive (d :: ds) ↔ 0 < d ∧ Positive ds := by
  simp [Positive]

theorem Positive.of_suffix {sub ds : List Int} (h : Positive ds) (suffix : sub <:+ ds) :
    Positive sub := fun d mem => h d (suffix.subset mem)

/-- Bounds that a declaration can have. -/
def Bounds (ds : List Int) : Prop := ∀ d ∈ ds, 0 < d ∧ d < 0x80000000

theorem Bounds.nil : Bounds [] := by
  intro d h
  cases h

theorem bounds_cons {d : Int} {ds : List Int} :
    Bounds (d :: ds) ↔ (0 < d ∧ d < 0x80000000) ∧ Bounds ds := by
  simp [Bounds]

theorem Bounds.tail {ds : List Int} (h : Bounds ds) : Bounds ds.tail := by
  intro d mem
  exact h d (List.mem_of_mem_tail mem)

theorem Bounds.positive {ds : List Int} (h : Bounds ds) : Positive ds := fun d mem => (h d mem).1

/-- The type of an array of integers with the given bounds. -/
def Koopa.Ty.grid : List Int → Koopa.Ty
  | [] => .i32
  | d :: ds => .array (grid ds) d.toNat

theorem Koopa.Ty.ofBounds_eq {ds : List Int} (h : Bounds ds) :
    Koopa.Ty.ofBounds ds = .ok (Koopa.Ty.grid ds) := by
  induction ds with
  | nil => rfl
  | cons d ds ih =>
    obtain ⟨positive, rest⟩ := bounds_cons.mp h
    have notRefused : ¬ d ≤ 0 := by omega
    simp only [ofBounds, ih rest, bind, Except.bind, arrayOf, if_neg notRefused]
    rfl

namespace Ty

/-- The type of a value in intermediate code. -/
def koopa : Ty → Koopa.Ty
  | int => .i32
  | void => .unit
  | array ds => .grid ds
  | pointer ds => .pointer (.grid ds)

/-- A type that storage can have. -/
def Solid : Ty → Prop
  | int => True
  | void => False
  | array ds => ds ≠ [] ∧ Bounds ds
  | pointer ds => Bounds ds

theorem Solid.bounds {t : Ty} (h : t.Solid) : Bounds t.dims := by
  cases t with
  | int => exact .nil
  | void => cases h
  | array ds => exact h.2
  | pointer ds => exact h

/-- A type that a variable or a constant can have. Only parameters are array parameters. -/
def IsObject : Ty → Prop
  | int | array _ => True
  | void | pointer _ => False

theorem toKoopa_eq {t : Ty} (h : t.Solid) : t.toKoopa = .ok t.koopa := by
  cases t with
  | int => rfl
  | void => cases h
  | array ds => exact Koopa.Ty.ofBounds_eq h.2
  | pointer ds =>
    simp only [toKoopa, Koopa.Ty.ofBounds_eq h, bind, Except.bind]
    rfl

/-- The type of a value that is passed as an argument. -/
def decayed : Ty → Koopa.Ty
  | array ds => .pointer (.grid ds.tail)
  | t => t.koopa

/-- An array is passed as a pointer to its first element. -/
theorem decay_eq {t : Ty} (h : t.Solid) : t.decay = .ok t.decayed := by
  cases t with
  | int => rfl
  | void => cases h
  | array ds =>
    simp only [decay, Koopa.Ty.ofBounds_eq h.2.tail, bind, Except.bind]
    rfl
  | pointer ds => exact toKoopa_eq h

/-- What one subscript leaves of bounds is a type again. -/
theorem solid_arrayOf {ds : List Int} (h : Bounds ds) : (arrayOf ds).Solid := by
  unfold arrayOf
  cases ds with
  | nil => trivial
  | cons d ds => exact ⟨by simp, h⟩

theorem koopa_arrayOf (ds : List Int) : (arrayOf ds).koopa = .grid ds := by
  cases ds <;> rfl

theorem dims_arrayOf (ds : List Int) : (arrayOf ds).dims = ds := by
  cases ds <;> rfl

theorem isObject_arrayOf (ds : List Int) : (arrayOf ds).IsObject := by
  cases ds <;> trivial

theorem isScalar_iff {t : Ty} : t.isScalar = true ↔ t = int := by
  cases t <;> simp [isScalar]

/-! ## Resolved types -/

theorem bound_eq_ok {env : Const.Env} {e : Expr} {d : Int} (h : bound env e = .ok d) :
    0 < d ∧ d < 0x80000000 := by
  unfold bound at h
  split at h
  · cases h
  · split at h
    · cases h
    · cases h
    · rename_i v _
      split at h
      · cases h
      · rename_i positive
        cases h
        rw [Int32.le_iff_toInt_le] at positive
        have upper := v.toInt_lt
        have zero : (0 : Int32).toInt = 0 := rfl
        omega

theorem bounds_of_mapM {env : Const.Env} {es : List Expr} {ds : List Int}
    (h : es.mapM (bound env) = .ok ds) : Bounds ds := by
  have pairs := Outcome.mapM_eq_ok h
  clear h
  induction pairs with
  | nil => exact .nil
  | cons head _ ih => exact bounds_cons.mpr ⟨bound_eq_ok head, ih⟩

theorem ofDef_solid {env : Const.Env} {d : Def} {t : Ty} (h : ofDef env .int d = .ok t) :
    t.Solid ∧ t.IsObject := by
  unfold ofDef at h
  obtain ⟨ds, hds, h⟩ := Except.bind_eq_ok.mp h
  cases h
  exact ⟨solid_arrayOf (bounds_of_mapM hds), isObject_arrayOf ds⟩

/-- The type of a parameter: an integer or an array parameter. -/
theorem ofParam_solid {env : Const.Env} {p : Param} {t : Ty} (h : ofParam env p = .ok t) :
    t = int ∨ ∃ ds, t = pointer ds ∧ Bounds ds := by
  unfold ofParam at h
  split at h
  · cases h
  · obtain ⟨ds, hds, h⟩ := Except.bind_eq_ok.mp h
    cases h
    by_cases isArray : p.isArray
    · exact .inr ⟨ds, by simp [isArray], bounds_of_mapM hds⟩
    · exact .inl (by simp [isArray])

end Ty
end SysY

import SysY.Proofs.Const.Layout
import SysY.Proofs.Lower.Output
import SysY.Proofs.Lower.RowMajor

/-! # Sizes of arrays

Counts of elements and bytes are 64-bit words, and each array bound is only known to be a positive
32-bit number, so that a product of bounds can wrap around. While the product itself fits, counts
and sizes are exact; and while it is not larger than the largest array, every operation that
allocates, divides or takes an element with such a count does so within range. -/

namespace SysY

open Koopa (ValueId)

/-- A precondition of an operation did not hold. -/
def Failure.IsFault : Failure → Prop
  | .fault _ => True
  | _ => False

/-- An operation that fails, if it does, because of what its input says. -/
structure Outcome.Calm {α : Type} (o : Outcome α) : Prop where
  failure : ∀ {f}, o = .error f → ¬ f.IsFault

namespace Outcome

theorem calm_ok {α : Type} (a : α) : Calm (.ok a) := ⟨fun h => (nomatch h)⟩

theorem calm_error {α : Type} {f : Failure} (h : ¬ f.IsFault) : Calm (.error f : Outcome α) :=
  ⟨fun e => by cases e; exact h⟩

theorem Calm.bind {α β : Type} {o : Outcome α} {k : α → Outcome β} (h : o.Calm)
    (hk : ∀ a, o = .ok a → (k a).Calm) : Calm (o >>= k) := by
  cases o with
  | error f => exact calm_error (h.failure rfl)
  | ok a => exact hk a rfl

theorem Calm.mapM {α β : Type} {f : α → Outcome β} {as : List α} (each : ∀ a ∈ as, (f a).Calm) :
    Calm (as.mapM f) := by
  induction as with
  | nil => exact calm_ok _
  | cons a as ih =>
    obtain ⟨first, rest⟩ := List.forall_mem_cons.mp each
    rw [List.mapM_cons]
    exact first.bind fun _ _ => (ih rest).bind fun _ _ => calm_ok _

end Outcome

open Outcome

/-! ## Numbers of elements and bytes -/

/-- The size of an array whose bytes can be counted is four times the number of its elements. -/
theorem Koopa.Ty.size_grid {ds : List Int} (bounds : Bounds ds)
    (fits : 4 * ds.prod < Meaning.tooMany) : (Koopa.Ty.grid ds).size = 4 * ds.prod := by
  induction ds with
  | nil => rfl
  | cons d ds ih =>
    obtain ⟨⟨positive, -⟩, rest⟩ := bounds_cons.mp bounds
    have le := bounds.prod_le_cons
    have inner := ih rest (by omega)
    have exact : (d.toNat : Int) * (4 * ds.prod) = 4 * (d :: ds).prod := by
      rw [Int.toNat_of_nonneg positive.le, List.prod_cons]
      ring
    rw [grid, size, inner, exact, wrapCount_eq _ fits]
    have := bounds.prod_pos
    omega

/-! ## Layout -/

/-- The layout of an array that can be allocated needs no check of a position, and is refused, if it
is, because of what the initializer says. -/
theorem Const.Layout.flatten_eq {dims : List Int} (bounds : Bounds dims)
    (small : dims.prod ≤ maxCount) {i : Init} (whole : i.Whole) :
    ∃ (ps : List Placement) (stop : Option Failure),
      (∀ f ∈ stop, ¬ f.IsFault) ∧ ∀ {m : Type → Type} [Monad m] [LawfulMonad m]
        [MonadExceptOf Failure m] {α : Type} (zero : α) (elem : Expr → m α),
        flatten zero elem dims i = (do
          let out ← ps.foldlM (place elem) (List.replicate dims.prod.toNat zero)
          match stop with
          | some f => throw f
          | none => return out) := by
  cases i with
  | missing id => exact whole.elim
  | expr s e =>
    refine ⟨[], some (.error (.typeMismatch s "array initializer must be a brace list")), ?_, ?_⟩
    · rintro _ ⟨⟩ fault
      exact fault
    · intro m _ _ _ α zero elem
      rw [List.foldlM_nil, pure_bind]
      rfl
  | list s elems =>
    have positive := bounds.positive
    obtain ⟨ps, error, laid, -⟩ :=
      ofInits_laid whole positive (lt_of_le_of_lt small maxCount_lt_tooMany) 0 0
    refine ⟨ps, error.map .error, ?_, ?_⟩
    · intro f mem
      obtain ⟨e, -, rfl⟩ := Option.mem_map.mp mem
      exact id
    · intro m _ _ _ α zero elem
      rw [flatten_laid zero elem positive small whole s laid]
      cases error <;> rfl

/-- The numbers of whole initializers are whole. -/
theorem Init.AllWhole.scalars {is : List Init} (whole : Init.AllWhole is) :
    ∀ e ∈ Init.allScalars is, e.Whole := by
  induction is, whole using Init.AllWhole.elements with
  | nil => nofun
  | scalar _ e is first _ ih => exact List.forall_mem_cons.mpr ⟨first, ih⟩
  | list _ elems is _ _ inner rest => exact List.forall_mem_append.mpr ⟨inner, rest⟩

/-- Reading a whole expression as a place meets no gap. -/
theorem Expr.Whole.spine : {e : Expr} → e.Whole → e.spineBroken = false
  | .ident .., _ | .lit .., _ | .call .., _ | .unary .., _ | .binary .., _ => rfl
  | .group _ inner, whole => spine (e := inner) whole
  | .index _ target _, whole => spine (e := target) whole.1
  | .bare .., whole => whole.elim
  | .missing _, whole => whole.elim

/-! ## Constants -/

namespace Const

/-- A constant with all its elements. -/
structure Value.Full (v : Value) : Prop where
  bounds : Bounds v.dims
  length : (v.data.length : Int) = v.dims.prod

/-- Subscripts of a constant with all its elements select one with all its elements, or nothing. -/
theorem Value.Full.index {v : Value} (full : v.Full) (indices : List Int32) :
    ∃ r, v.index indices = .ok r ∧ ∀ w ∈ r, w.Full := by
  obtain ⟨r, found, parts⟩ := Value.Filled.index ⟨full.bounds.positive, full.length⟩ indices
  refine ⟨r, found, fun w mem => ?_⟩
  obtain ⟨filled, dims⟩ := parts w mem
  refine ⟨fun d here => full.bounds d ?_, filled.length⟩
  rw [dims] at here
  exact List.mem_of_mem_drop here

/-- A single number that has all its elements is one. -/
theorem Value.Full.item {v : Value} (full : v.Full) (scalar : v.isScalar = true) :
    ∃ n, v.item = .ok n := by
  have length := full.length
  rw [List.isEmpty_iff.mp scalar, List.prod_nil] at length
  unfold Value.item
  rw [if_pos scalar]
  cases data : v.data with
  | nil =>
    rw [data] at length
    cases length
  | cons n ns => exact ⟨n, rfl⟩

/-- All constants have all their elements. -/
def Env.Full (env : Env) : Prop := ∀ {name v}, env name = .constant v → v.Full

variable {env : Env}

theorem fold_calm (op : BinaryOp) (x y : Int32) : (fold op x y).Calm := by
  cases op <;> simp only [fold] <;> (try split) <;> first | exact calm_ok _ | exact calm_error id

theorem lookup_calm (full : env.Full) {p : Expr.Place} {indices : Unit → Outcome (List Int32)}
    (calm : (indices ()).Calm) : (lookup env p indices).Calm := by
  unfold lookup
  split
  · exact calm_error id
  · exact calm_error id
  · rename_i v found
    refine calm.bind fun is _ => ?_
    obtain ⟨r, eq, isFull⟩ := (full found).index is
    rw [eq]
    refine (calm_ok r).bind ?_
    rintro _ ⟨⟩
    split
    · split
      · rename_i w scalar
        obtain ⟨n, item⟩ := (isFull w rfl).item scalar
        rw [item]
        exact calm_ok n
      · exact calm_error id
    · exact calm_error id

mutual

/-- Folding a whole expression takes no element that is not there. -/
theorem eval_calm (full : env.Full) : (e : Expr) → e.Whole → (eval env e).Calm
  | .lit .., _ => by rw [eval]; exact calm_ok _
  | .group _ inner, whole => by rw [eval]; exact eval_calm full inner whole
  | .ident .., _ => by rw [eval]; exact lookup_calm full (calm_ok _)
  | .index s target idx, whole => by
    rw [eval]
    have unbroken : (Expr.index s target idx).spineBroken = false := Expr.Whole.spine whole
    rw [if_neg (by rw [unbroken]; exact Bool.false_ne_true)]
    split
    · exact calm_error id
    · refine lookup_calm full ?_
      exact (evalIndices_calm full target whole.1).bind fun _ _ =>
        (eval_calm full idx whole.2).bind fun _ _ => calm_ok _
  | .call .., _ => by rw [eval]; exact calm_error id
  | .unary _ op e, whole => by
    rw [eval]
    exact (eval_calm full e whole.2).bind fun _ _ => calm_ok _
  | .binary _ op l r, whole => by
    rw [eval]
    refine (eval_calm full l whole.2.1).bind fun x _ => ?_
    split
    · exact calm_ok _
    · exact (eval_calm full r whole.2.2).bind fun y _ => fold_calm op x y
  | .bare .., whole => whole.elim
  | .missing _, whole => whole.elim

theorem evalIndices_calm (full : env.Full) : (e : Expr) → e.Whole → (evalIndices env e).Calm
  | .group _ inner, whole => by rw [evalIndices]; exact evalIndices_calm full inner whole
  | .index _ target idx, whole => by
    rw [evalIndices]
    exact (evalIndices_calm full target whole.1).bind fun _ _ =>
      (eval_calm full idx whole.2).bind fun _ _ => calm_ok _
  | .lit .., _ | .ident .., _ | .call .., _ | .unary .., _ | .binary .., _ | .bare .., _
  | .missing _, _ => by
    rw [evalIndices]
    · exact calm_ok _
    all_goals simp

end

/-- Laying out a whole initializer of an array that can be allocated takes no position that is not
there, if evaluating its elements takes none. -/
theorem flatten_calm {α : Type} (zero : α) {elem : Expr → Outcome α}
    (calm : ∀ e : Expr, e.Whole → (elem e).Calm) {dims : List Int} (bounds : Bounds dims)
    (small : dims.prod ≤ Layout.maxCount) {i : Init} (whole : i.Whole) :
    (flatten zero elem dims i).Calm := by
  cases i with
  | expr span e => exact calm_error id
  | missing id => exact whole.elim
  | list span is =>
    obtain ⟨ps, error, laid, -⟩ := Layout.ofInits_laid whole bounds.positive
      (lt_of_le_of_lt small maxCount_lt_tooMany) 0 0
    have flattens := laid.flattens bounds.positive small whole span
    rw [flattens.result]
    have each : ∀ e ∈ ps.map (·.value), (elem e).Calm := fun e mem =>
      calm e (Init.AllWhole.scalars whole e (flattens.first.subset mem))
    refine (Calm.mapM each).bind fun _ _ => ?_
    cases error with
    | none => exact calm_ok _
    | some e => exact calm_error id

end Const

/-! ## Declared arrays -/

/-- What goes right with an array of the given bounds when it is not too large: it can be allocated,
the elements of an initializer go to positions that it has, its elements can be put together to one
value, subscripts find the elements of a constant, and the address of every element is computed
without dividing by zero. -/
structure InRange (dims : List Int) : Prop where
  allocated : ¬ (Const.count dims < 0 ∨ Const.Layout.maxCount < Const.count dims)
  placed : ∀ {i : Init}, i.Whole → ∃ (ps : List Const.Placement) (stop : Option Failure),
    (∀ f ∈ stop, ¬ f.IsFault) ∧ ∀ {m : Type → Type} [Monad m] [LawfulMonad m]
      [MonadExceptOf Failure m] {α : Type} (zero : α) (elem : Expr → m α),
      Const.flatten zero elem dims i = (do
        let out ← ps.foldlM (Const.Layout.place elem) (List.replicate dims.prod.toNat zero)
        match stop with
        | some f => throw f
        | none => return out)
  put : ∀ {data : List Int32}, (data.length : Int) = dims.prod → ∀ σ, ∃ v σ',
    Lower.aggregate dims data σ = .ok v σ'
  subscripted : ∀ {v : Const.Value}, v.dims = dims → (v.data.length : Int) = dims.prod →
    ∀ indices, ∃ r, v.index indices = .ok r ∧ ∀ w ∈ r, w.isScalar = true → ∃ n, w.item = .ok n
  addressed : ∀ {c σ base}, Lower.Fit c σ →
    σ.program.Sees (some c.fn) base (.pointer (.grid dims)) → ∀ index, ∃ v σ',
      Lower.elementPtr base (Const.count dims) index dims σ = .ok v σ'

theorem Bounds.inRange {dims : List Int} (bounds : Bounds dims)
    (small : dims.prod ≤ Const.Layout.maxCount) : InRange dims := by
  have count : Const.count dims = dims.prod :=
    Const.count_eq bounds (Int.lt_of_le_of_lt small maxCount_lt_tooMany)
  have positive := bounds.prod_pos
  refine ⟨by omega, fun whole => Const.Layout.flatten_eq bounds small whole, ?_, ?_, ?_⟩
  · intro data length σ
    obtain ⟨v, σ', made, -⟩ := Lower.aggregate_ok bounds.positive length σ
    exact ⟨v, σ', made⟩
  · rintro v rfl length indices
    obtain ⟨r, found, full⟩ := Const.Value.Full.index ⟨bounds, length⟩ indices
    exact ⟨r, found, fun w mem scalar => (full w mem).item scalar⟩
  · intro c σ base fit sees index
    obtain ⟨v, σ', made, -⟩ := Lower.elementPtr_adds bounds.positive fit sees index
    rw [count]
    exact ⟨v, σ', made⟩

/-- Each bound of a declared array is positive and fits in 32 bits, but nothing limits their product.
While the bytes of the array can be counted, the number of elements and the size in bytes are the
mathematical ones; and while the array is not larger than the largest one, no operation on it goes
out of range. -/
theorem declared_sizes {env : Const.Env} {ty : Ty}
    (declared : (∃ d : Def, Ty.ofDef env .int d = .ok ty) ∨ ∃ p : Param, Ty.ofParam env p = .ok ty) :
    (4 * ty.dims.prod < 2 ^ 63 → Const.count ty.dims = ty.dims.prod ∧
      (Koopa.Ty.grid ty.dims).size = 4 * ty.dims.prod) ∧
    (ty.dims.prod ≤ Const.Layout.maxCount → InRange ty.dims) := by
  have bounds : Bounds ty.dims := by
    rcases declared with ⟨d, resolved⟩ | ⟨p, resolved⟩
    · exact Lower.bounds_dims (Ty.ofDef_solid resolved).1
    · rcases Ty.ofParam_solid resolved with rfl | ⟨ds, rfl, bounds⟩
      · exact .nil
      · exact bounds
  refine ⟨fun fits => ?_, bounds.inRange⟩
  have positive := bounds.prod_pos
  exact ⟨Const.count_eq bounds (by unfold Meaning.tooMany; omega), Koopa.Ty.size_grid bounds fits⟩

/-- A name that stands for a constant is that of a symbol with the value. -/
theorem SymbolTable.env_constant {t : SymbolTable} {name : String} {v : Const.Value}
    (bound : t.env name = .constant v) :
    ∃ s slot, t.find? name = some s ∧ s.meaning = .constant v slot := by
  unfold SymbolTable.env at bound
  split at bound
  · cases bound
  · rename_i s found
    refine ⟨s, ?_⟩
    unfold Symbol.binding at bound
    split at bound
    · rename_i w slot meaning
      cases bound
      exact ⟨slot, found, meaning⟩
    · cases bound

/-- Where a source uses an expression and no visible array is too large, folding the expression takes
no element that is not there. -/
theorem Lower.Reached.folding_calm {file : Source.File} {stop : Bool} {u : CompUnit}
    (parsed : (Parsed.ofLexed (.ofFile file) stop).result = .ok u) {withLibrary : Bool} {e : Expr}
    {σ : Lower.State} (reached : Lower.Reached withLibrary u (.expr e) σ)
    (small : ∀ {name s}, σ.symbols.find? name = some s →
      s.type.dims.prod ≤ Const.Layout.maxCount) : (Const.eval σ.symbols.env e).Calm := by
  obtain ⟨whole, c, avail, -, inv, -⟩ := (reached.holds (Parsed.whole parsed)).inBody trivial
  refine Const.eval_calm ?_ e whole
  intro name v bound
  obtain ⟨s, slot, found, meaning⟩ := SymbolTable.env_constant bound
  have ok := inv.fit.symbol found
  unfold Symbol.Ok at ok
  rw [meaning] at ok
  obtain ⟨solid, -, dims, length, -⟩ := ok
  have bounds := Lower.bounds_dims solid
  rw [← dims] at bounds
  have counted := Int.lt_of_le_of_lt (small found) maxCount_lt_tooMany
  rw [← dims] at counted
  exact ⟨bounds, length.trans (Const.count_eq bounds counted)⟩

/-- A definition of an array with two bounds. -/
def matrixDef : Def :=
  { name := "a", nameSpan := {}, dims := [.lit {} 2, .lit {} 3], init := none }

/-- The sizes of a small array. -/
theorem matrixDef_sizes : Ty.ofDef .empty .int matrixDef = .ok (.array [2, 3]) ∧
    Const.count [2, 3] = 6 ∧ (Koopa.Ty.grid [2, 3]).size = 24 ∧ InRange [2, 3] := by
  have resolved : Ty.ofDef .empty .int matrixDef = .ok (.array [2, 3]) := by decide +kernel
  obtain ⟨exact, inRange⟩ := declared_sizes (.inl ⟨matrixDef, resolved⟩)
  obtain ⟨count, size⟩ := exact (by decide)
  exact ⟨resolved, count, size, inRange (by decide)⟩

/-- A source with an array of 2⁶³ elements. -/
def hugeArray : Source.File :=
  { id := 0
    path := "huge.c"
    content := Bytes.ofString "int a[65536][65536][65536][32768]; int main() \x7b return 0; \x7d"
    flags := default }

/-- Its unit. -/
def hugeArrayUnit : CompUnit :=
  (Parsed.ofLexed (.ofFile hugeArray) false).result.toOption.getD default

theorem eq_fault {α : Type} {o : Outcome α} (check : (match o with
    | .error (.fault _) => true
    | _ => false) = true) : ∃ f, o = .error f ∧ f.IsFault := by
  split at check
  · exact ⟨_, rfl, trivial⟩
  · cases check

/-- The bounds are accepted, although the elements cannot be counted, and then lowering ends in a
fault. With twice as many elements the count is zero. -/
theorem hugeArray_faults :
    (Parsed.ofLexed (.ofFile hugeArray) false).result = .ok hugeArrayUnit ∧
      (∃ f, (Lowered.ofUnit hugeArrayUnit true false).result = .error f ∧ f.IsFault) ∧
      Const.count [65536, 65536, 65536, 65536] = 0 :=
  ⟨eq_ok_of_isSome (by decide +kernel), eq_fault (by decide +kernel), by decide +kernel⟩

end SysY

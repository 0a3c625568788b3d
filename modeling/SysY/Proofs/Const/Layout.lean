import Mathlib.Tactic.Ring
import SysY.Proofs.Meaning.Constant

/-! # Brace initializers

`Layout.Laid` says where the elements of a brace initializer go, and which of them is the first that
has no place. It mentions neither words nor remainders: a number takes one position, and a list in
braces takes the largest proper sub-array that begins at its position and is laid out in it in the
same way. While the elements of an array can be counted, `Layout.ofInits` finds exactly this layout,
and `flatten` evaluates the elements in source order and leaves each at its position among zeros,
unless the array is larger than the largest one that can be allocated. -/

namespace SysY

theorem maxCount_lt_tooMany : Const.Layout.maxCount < Meaning.tooMany := by decide

/-- The bounds of a sub-array divide the bounds of the array. -/
theorem prod_dvd_of_suffix {sub ds : List Int} (suffix : sub <:+ ds) : sub.prod ∣ ds.prod := by
  obtain ⟨pre, rfl⟩ := suffix
  rw [List.prod_append]
  exact Int.dvd_mul_left _ _

theorem Positive.prod_le_of_suffix {sub ds : List Int} (positive : Positive ds)
    (suffix : sub <:+ ds) : sub.prod ≤ ds.prod :=
  Int.le_of_dvd positive.prod_pos (prod_dvd_of_suffix suffix)

/-- A sub-array that begins inside an array also ends inside it. -/
theorem room_of_dvd {n m position : Int} (positive : 0 < n) (dvd : n ∣ m) (aligned : n ∣ position)
    (inside : position < m) : position + n ≤ m := by
  obtain ⟨k, rfl⟩ := dvd
  obtain ⟨j, rfl⟩ := aligned
  have lt : j < k := by
    by_contra ge
    exact absurd inside (not_lt.mpr (mul_le_mul_of_nonneg_left (not_lt.mp ge) positive.le))
  calc n * j + n = n * (j + 1) := by ring
    _ ≤ n * k := mul_le_mul_of_nonneg_left lt positive.le

/-! ## Elements in source order -/

/-- Whole initializers are numbers, and lists of whole initializers. -/
@[elab_as_elim]
theorem Init.AllWhole.elements {motive : (is : List Init) → Init.AllWhole is → Prop}
    (nil : motive [] trivial)
    (scalar : ∀ span e is (first : e.Whole) (rest : Init.AllWhole is), motive is rest →
      motive (.expr span e :: is) ⟨first, rest⟩)
    (list : ∀ span elems is (inner : Init.AllWhole elems) (rest : Init.AllWhole is),
      motive elems inner → motive is rest → motive (.list span elems :: is) ⟨inner, rest⟩) :
    (is : List Init) → (whole : Init.AllWhole is) → motive is whole
  | [], _ => nil
  | .expr span e :: is, ⟨first, rest⟩ =>
    scalar span e is first rest (elements nil scalar list is rest)
  | .list span elems :: is, ⟨inner, rest⟩ =>
    list span elems is inner rest (elements nil scalar list elems inner)
      (elements nil scalar list is rest)
  | .missing _ :: _, whole => whole.1.elim

mutual

/-- The numbers of an initializer in source order, without the braces. -/
def Init.scalars : Init → List Expr
  | .expr _ e => [e]
  | .list _ elems => Init.allScalars elems
  | .missing _ => []

/-- The numbers of initializers in source order, without the braces. -/
def Init.allScalars : List Init → List Expr
  | [] => []
  | i :: is => i.scalars ++ Init.allScalars is

end

namespace Const.Layout

/-! ## The layout of braces -/

/-- The largest of the arrays with bounds `ds` or a part at the end of `ds` that begins at a
position. -/
structure Largest (ds : List Int) (position : Int) (sub : List Int) : Prop where
  isArray : sub ≠ []
  suffix : sub <:+ ds
  aligned : sub.prod ∣ position
  longest : ∀ other, other ≠ [] → other <:+ ds → other.prod ∣ position → other <:+ sub

/-- The elements `is` go to an array with bounds `dims` that begins at `base`, from the place
`position` of the array on. The placements are those before the first element without a place, with
the error that it causes; without such an element there is no error. -/
inductive Laid : (dims : List Int) → (base position : Int) → (is : List Init) →
    (placements : List Placement) → (error : Option Diag.Error) → Prop
  | nil {dims base position} : Laid dims base position [] [] none
  | excess {dims base position i is} : dims.prod ≤ position →
      Laid dims base position (i :: is) []
        (some (.typeMismatch i.span "excess elements in array initializer"))
  | scalar {dims base position span e is ps error} : position < dims.prod →
      Laid dims base (position + 1) is ps error →
      Laid dims base position (.expr span e :: is) (⟨base + position, e⟩ :: ps) error
  | braces {dims base position span elems is} : position < dims.prod →
      (∀ sub, ¬ Largest dims.tail position sub) →
      Laid dims base position (.list span elems :: is) []
        (some (.typeMismatch span "braces around scalar initializer"))
  | list {dims base position sub span elems is inner ps error} : position < dims.prod →
      Largest dims.tail position sub → Laid sub (base + position) 0 elems inner none →
      Laid dims base (position + sub.prod) is ps error →
      Laid dims base position (.list span elems :: is) (inner ++ ps) error
  | inside {dims base position sub span elems is inner e} : position < dims.prod →
      Largest dims.tail position sub → Laid sub (base + position) 0 elems inner (some e) →
      Laid dims base position (.list span elems :: is) inner (some e)

variable {dims sub other : List Int} {base position : Int} {is : List Init}
  {ps qs : List Placement} {error error' : Option Diag.Error}

theorem Largest.unique (h : Largest dims position sub) (h' : Largest dims position other) :
    sub = other :=
  (h'.longest sub h.isArray h.suffix h.aligned).eq_of_length_le
    (h.longest other h'.isArray h'.suffix h'.aligned).length_le

theorem Largest.positive (h : Largest dims.tail position sub) (positive : Positive dims) :
    Positive sub :=
  positive.of_suffix (h.suffix.trans (List.tail_suffix dims))

/-- The sub-array for a list in braces ends inside the array. -/
theorem Largest.room (h : Largest dims.tail position sub) (positive : Positive dims)
    (inside : position < dims.prod) : position + sub.prod ≤ dims.prod :=
  room_of_dvd (h.positive positive).prod_pos
    (prod_dvd_of_suffix (h.suffix.trans (List.tail_suffix dims))) h.aligned inside

/-- There is only one way to lay out elements. -/
theorem Laid.unique (h : Laid dims base position is ps error)
    (h' : Laid dims base position is qs error') : ps = qs ∧ error = error' := by
  induction h generalizing qs error' with
  | nil => cases h'; exact ⟨rfl, rfl⟩
  | excess full =>
    cases h' with
    | excess => exact ⟨rfl, rfl⟩
    | scalar room | braces room | list room | inside room => exact absurd full (not_le.mpr room)
  | scalar room _ ih =>
    cases h' with
    | excess full => exact absurd full (not_le.mpr room)
    | scalar _ rest =>
      obtain ⟨rfl, rfl⟩ := ih rest
      exact ⟨rfl, rfl⟩
  | braces room none =>
    cases h' with
    | excess full => exact absurd full (not_le.mpr room)
    | braces => exact ⟨rfl, rfl⟩
    | list _ largest | inside _ largest => exact absurd largest (none _)
  | list room largest _ _ inner rest =>
    cases h' with
    | excess full => exact absurd full (not_le.mpr room)
    | braces _ none => exact absurd largest (none _)
    | list _ largest' inner' rest' =>
      obtain rfl := largest.unique largest'
      obtain ⟨rfl, -⟩ := inner inner'
      obtain ⟨rfl, rfl⟩ := rest rest'
      exact ⟨rfl, rfl⟩
    | inside _ largest' inner' =>
      obtain rfl := largest.unique largest'
      cases (inner inner').2
  | inside room largest _ inner =>
    cases h' with
    | excess full => exact absurd full (not_le.mpr room)
    | braces _ none => exact absurd largest (none _)
    | list _ largest' inner' =>
      obtain rfl := largest.unique largest'
      cases (inner inner').2
    | inside _ largest' inner' =>
      obtain rfl := largest.unique largest'
      exact inner inner'

/-- The elements that are placed are the first ones in source order, and all of them if there is no
error. -/
theorem Laid.inOrder (h : Laid dims base position is ps error) :
    ps.map (·.value) <+: Init.allScalars is ∧
      (error = none → ps.map (·.value) = Init.allScalars is) := by
  induction h with
  | nil => exact ⟨List.prefix_rfl, fun _ => rfl⟩
  | excess => exact ⟨List.nil_prefix, fun none => nomatch none⟩
  | braces => exact ⟨List.nil_prefix, fun none => nomatch none⟩
  | scalar _ _ ih =>
    refine ⟨(List.prefix_cons_inj _).mpr ih.1, fun none => ?_⟩
    rw [List.map_cons, ih.2 none]
    rfl
  | list _ _ _ _ inner rest =>
    rw [List.map_append, inner.2 rfl]
    refine ⟨(List.prefix_append_right_inj _).mpr rest.1, fun none => ?_⟩
    rw [rest.2 none]
    rfl
  | inside _ _ _ inner =>
    exact ⟨inner.1.trans (List.prefix_append _ _), fun none => nomatch none⟩

/-- All positions lie in the array, and each element goes behind the ones before it. -/
theorem Laid.positions (h : Laid dims base position is ps error) (positive : Positive dims) :
    (∀ p ∈ ps, base + position ≤ p.position ∧ p.position < base + dims.prod) ∧
      ps.Pairwise (·.position < ·.position) := by
  induction h with
  | nil | excess | braces => exact ⟨fun p mem => (nomatch mem), .nil⟩
  | scalar room _ ih =>
    obtain ⟨within, order⟩ := ih positive
    refine ⟨List.forall_mem_cons.mpr ⟨⟨le_rfl, Int.add_lt_add_left room _⟩, fun p mem => ?_⟩,
      .cons (fun p mem => ?_) order⟩
    · have := within p mem
      omega
    · have := within p mem
      change _ + _ < p.position
      omega
  | list room largest _ _ inner rest =>
    obtain ⟨innerWithin, innerOrder⟩ := inner (largest.positive positive)
    obtain ⟨within, order⟩ := rest positive
    have fits := largest.room positive room
    have some := (largest.positive positive).prod_pos
    refine ⟨fun p mem => ?_, List.pairwise_append.mpr ⟨innerOrder, order, fun p hp q hq => ?_⟩⟩
    · rcases List.mem_append.mp mem with mem | mem
      · have := innerWithin p mem
        omega
      · have := within p mem
        omega
    · have := innerWithin p hp
      have := within q hq
      omega
  | inside room largest _ inner =>
    obtain ⟨within, order⟩ := inner (largest.positive positive)
    have fits := largest.room positive room
    refine ⟨fun p mem => ?_, order⟩
    have := within p mem
    omega

/-! ## The layout that is computed -/

/-- Looking for the sub-array at a position never divides by zero. -/
theorem subArray?_go_spec {ds : List Int} (positive : Positive ds)
    (small : ds.prod < Meaning.tooMany) (position : Int) :
    (∃ sub, subArray?.go position ds = .ok (some sub) ∧ Largest ds position sub) ∨
      subArray?.go position ds = .ok none ∧ ∀ sub, ¬ Largest ds position sub := by
  induction ds with
  | nil => exact .inr ⟨rfl, fun sub h => h.isArray (List.suffix_nil.mp h.suffix)⟩
  | cons d ds ih =>
    have le := positive.prod_le_cons
    rw [subArray?.go, positive.count_eq small, if_neg (Int.ne_of_gt positive.prod_pos)]
    by_cases aligned : position.tmod (d :: ds).prod = 0
    · rw [if_pos aligned]
      exact .inl ⟨_, rfl, List.cons_ne_nil d ds, List.suffix_rfl, Int.dvd_of_tmod_eq_zero aligned,
        fun _ _ suffix _ => suffix⟩
    · rw [if_neg aligned]
      -- a part that is aligned is not the whole
      have shorter : ∀ sub, sub <:+ d :: ds → sub.prod ∣ position → sub <:+ ds := by
        intro sub suffix dvd
        rcases List.suffix_cons_iff.mp suffix with rfl | suffix
        · exact absurd (Int.tmod_eq_zero_of_dvd dvd) aligned
        · exact suffix
      rcases ih (positive_cons.mp positive).2 (by omega) with ⟨sub, found, largest⟩ | ⟨found, none⟩
      · exact .inl ⟨sub, found, largest.isArray, largest.suffix.trans (List.suffix_cons d ds),
          largest.aligned, fun other isArray suffix dvd =>
            largest.longest other isArray (shorter other suffix dvd) dvd⟩
      · exact .inr ⟨found, fun sub h => none sub ⟨h.isArray, shorter sub h.suffix h.aligned,
          h.aligned, fun other isArray suffix dvd =>
            h.longest other isArray (suffix.trans (List.suffix_cons d ds)) dvd⟩⟩

theorem subArray?_spec (positive : Positive dims) (small : dims.prod < Meaning.tooMany)
    (position : Int) :
    (∃ sub, subArray? position dims = .ok (some sub) ∧ Largest dims.tail position sub) ∨
      subArray? position dims = .ok none ∧ ∀ sub, ¬ Largest dims.tail position sub := by
  cases dims with
  | nil => exact .inr ⟨rfl, fun sub h => h.isArray (List.suffix_nil.mp h.suffix)⟩
  | cons d ds =>
    have le := positive.prod_le_cons
    exact subArray?_go_spec (positive_cons.mp positive).2 (by omega) position

theorem ofInits_expr (dims : List Int) (base position : Int) (span : Source.Span) (e : Expr)
    (is : List Init) : ofInits dims base position (.expr span e :: is) =
      if count dims ≤ position then mismatch span "excess elements in array initializer"
      else Layout.andThen { placements := [⟨base + position, e⟩] }
        (ofInits dims base (position + 1) is) := by
  rw [ofInits, ofInit]
  · rfl
  · simp

theorem ofInits_list (dims : List Int) (base position : Int) (span : Source.Span)
    (elems is : List Init) : ofInits dims base position (.list span elems :: is) =
      if count dims ≤ position then mismatch span "excess elements in array initializer"
      else match subArray? position dims with
        | .error f => fail f
        | .ok none => mismatch span "braces around scalar initializer"
        | .ok (some sub) => (ofInits sub (base + position) 0 elems).andThen
          (ofInits dims base (position + count sub) is) := by
  rw [ofInits, ofInit]
  · congr 1
    rcases subArray? position dims with _ | _ | _ <;> rfl
  · simp

/-- The computed layout is the specified one. -/
theorem ofInits_laid (whole : Init.AllWhole is) (positive : Positive dims)
    (small : dims.prod < Meaning.tooMany) (base position : Int) : ∃ ps error,
      Laid dims base position is ps error ∧
        ofInits dims base position is = { placements := ps, stop := error.map .error } := by
  induction is, whole using Init.AllWhole.elements generalizing dims base position with
  | nil => exact ⟨[], none, .nil, rfl⟩
  | scalar span e is _ _ ih =>
    rw [ofInits_expr, positive.count_eq small]
    by_cases full : dims.prod ≤ position
    · exact ⟨_, _, .excess full, if_pos full⟩
    · obtain ⟨ps, error, laid, eq⟩ := ih positive small base (position + 1)
      refine ⟨_, error, .scalar (not_le.mp full) laid, ?_⟩
      rw [if_neg full, eq]
      rfl
  | list span elems is _ _ inner rest =>
    rw [ofInits_list, positive.count_eq small]
    by_cases full : dims.prod ≤ position
    · exact ⟨_, _, .excess full, if_pos full⟩
    rw [if_neg full]
    have room := not_le.mp full
    rcases subArray?_spec positive small position with ⟨sub, found, largest⟩ | ⟨found, none⟩
    · have subPositive := largest.positive positive
      have subSmall : sub.prod < Meaning.tooMany := lt_of_le_of_lt
        (positive.prod_le_of_suffix (largest.suffix.trans (List.tail_suffix dims))) small
      obtain ⟨ps, error, laid, eq⟩ := inner subPositive subSmall (base + position) 0
      simp only [found, subPositive.count_eq subSmall, eq]
      cases error with
      | some e => exact ⟨ps, some e, .inside room largest laid, rfl⟩
      | none =>
        obtain ⟨qs, error, laid', eq'⟩ := rest positive small base (position + sub.prod)
        refine ⟨ps ++ qs, error, .list room largest laid laid', ?_⟩
        rw [eq']
        rfl
    · simp only [found]
      exact ⟨_, _, .braces room none, rfl⟩

/-! ## Storing the elements -/

/-- The elements of an initializer that are evaluated in order, each stored at its position. -/
def place {m : Type → Type} [Monad m] {α : Type} (elem : Expr → m α) (out : List α)
    (p : Placement) : m (List α) := do
  return out.set p.position.toNat (← elem p.value)

/-- Where all positions are within range none is refused. -/
theorem store_eq {m : Type → Type} [Monad m] [LawfulMonad m] [MonadExceptOf Failure m] {α : Type}
    (elem : Expr → m α) {ps : List Placement} {out : List α}
    (within : ∀ p ∈ ps, 0 ≤ p.position ∧ p.position < out.length) :
    store elem ps out = ps.foldlM (place elem) out := by
  induction ps generalizing out with
  | nil => rfl
  | cons p ps ih =>
    rw [store, List.foldlM_cons, place, bind_assoc]
    refine bind_congr fun v => ?_
    rw [if_pos (within p List.mem_cons_self), pure_bind]
    exact ih fun q mem => by rw [List.length_set]; exact within q (List.mem_cons_of_mem p mem)

/-- Values that are put at the positions of elements, one after the other. -/
def scatter {α : Type} (out : List α) : List Placement → List α → List α
  | p :: ps, v :: vs => scatter (out.set p.position.toNat v) ps vs
  | _, _ => out

/-- Evaluating and storing take turns, which comes to the same as evaluating first. -/
theorem foldlM_place {m : Type → Type} [Monad m] [LawfulMonad m] {α : Type} (elem : Expr → m α)
    (ps : List Placement) (out : List α) :
    ps.foldlM (place elem) out = scatter out ps <$> (ps.map (·.value)).mapM elem := by
  induction ps generalizing out with
  | nil => simp [scatter]
  | cons p ps ih => simp [place, scatter, ih]

/-- What an array holds in which some elements have been put among zeros. -/
structure Spread {α : Type} (zero : α) (size : Int) (ps : List Placement) (vs out : List α) :
    Prop where
  length : (out.length : Int) = size
  placed : ∀ (k : Nat) (p : Placement) (v : α), ps[k]? = some p → vs[k]? = some v →
    out[p.position.toNat]? = some v
  others : ∀ n : Nat, n < size → (∀ p ∈ ps, p.position ≠ n) → out[n]? = some zero

theorem length_scatter {α : Type} (out : List α) (ps : List Placement) (vs : List α) :
    (scatter out ps vs).length = out.length := by
  fun_induction scatter out ps vs with
  | case1 out p ps v vs ih => rw [ih, List.length_set]
  | case2 => rfl

/-- Where no element is put nothing changes. -/
theorem getElem?_scatter {α : Type} {out : List α} {ps : List Placement} {vs : List α} {n : Nat}
    (low : ∀ p ∈ ps, 0 ≤ p.position) (other : ∀ p ∈ ps, p.position ≠ n) :
    (scatter out ps vs)[n]? = out[n]? := by
  fun_induction scatter out ps vs with
  | case1 out p ps v vs ih =>
    have ne := other p List.mem_cons_self
    have := low p List.mem_cons_self
    rw [ih (fun q mem => low q (List.mem_cons_of_mem p mem))
      (fun q mem => other q (List.mem_cons_of_mem p mem)), List.getElem?_set_ne (by omega)]
  | case2 => rfl

theorem scatter_spread {α : Type} (zero : α) {size : Int} (nonneg : 0 ≤ size)
    {ps : List Placement} (within : ∀ p ∈ ps, 0 ≤ p.position ∧ p.position < size)
    (order : ps.Pairwise (·.position < ·.position)) (vs : List α) :
    Spread zero size ps vs (scatter (List.replicate size.toNat zero) ps vs) := by
  refine ⟨?_, ?_, fun n small other => ?_⟩
  · rw [length_scatter, List.length_replicate]
    omega
  · generalize long : List.replicate size.toNat zero = out
    have length : (out.length : Int) = size := by
      rw [← long, List.length_replicate]
      omega
    clear long
    fun_induction scatter out ps vs with
    | case1 out p ps v vs ih =>
      obtain ⟨first, later⟩ := List.pairwise_cons.mp order
      obtain ⟨here, rest⟩ := List.forall_mem_cons.mp within
      intro k q w hq hw
      cases k with
      | zero =>
        cases hq
        cases hw
        rw [getElem?_scatter (fun q mem => (rest q mem).1), List.getElem?_set_self (by omega)]
        intro q mem
        have := first q mem
        omega
      | succ k => exact ih rest later (by rw [List.length_set]; exact length) k q w hq hw
    | case2 vs out ps ends =>
      intro k q w hq hw
      cases ps with
      | nil => cases hq
      | cons p ps =>
        cases vs with
        | nil => cases hw
        | cons v vs => exact (ends p ps v vs rfl rfl).elim
  · rw [getElem?_scatter (fun p mem => (within p mem).1) other, List.getElem?_replicate,
      if_pos (by omega)]

theorem Spread.unique {α : Type} {zero : α} {size : Int} {ps : List Placement}
    {vs out out' : List α} (h : Spread zero size ps vs out) (h' : Spread zero size ps vs out')
    (length : vs.length = ps.length) : out = out' := by
  refine List.ext_getElem? fun n => ?_
  by_cases taken : ∃ p ∈ ps, p.position = n
  · obtain ⟨p, mem, here⟩ := taken
    obtain ⟨k, small, rfl⟩ := List.mem_iff_getElem.mp mem
    have value : vs[k]? = some vs[k] := List.getElem?_eq_getElem (by rw [length]; exact small)
    have first := h.placed k ps[k] vs[k] (List.getElem?_eq_getElem small) value
    have second := h'.placed k ps[k] vs[k] (List.getElem?_eq_getElem small) value
    rw [here, Int.toNat_natCast] at first second
    rw [first, second]
  · have free : ∀ p ∈ ps, p.position ≠ n := fun p mem here => taken ⟨p, mem, here⟩
    have long := h.length
    have long' := h'.length
    by_cases small : (n : Int) < size
    · rw [h.others n small free, h'.others n small free]
    · rw [List.getElem?_eq_none (by omega), List.getElem?_eq_none (by omega)]

/-! ## Whole initializers -/

/-- An initializer in braces of an array that can be allocated needs no check of a position: the
elements are evaluated and stored one after the other, and then it may be refused. -/
theorem flatten_laid {m : Type → Type} [Monad m] [LawfulMonad m] [MonadExceptOf Failure m]
    {α : Type} (zero : α) (elem : Expr → m α) (positive : Positive dims)
    (small : dims.prod ≤ maxCount) (whole : Init.AllWhole is) (span : Source.Span)
    (laid : Laid dims 0 0 is ps error) :
    flatten zero elem dims (.list span is) = (do
      let out ← ps.foldlM (place elem) (List.replicate dims.prod.toNat zero)
      match error with
      | some e => throw (.error e)
      | none => return out) := by
  have counted : dims.prod < Meaning.tooMany := lt_of_le_of_lt small maxCount_lt_tooMany
  have nonempty := positive.prod_pos
  obtain ⟨ps', error', laid', eq⟩ := ofInits_laid whole positive counted 0 0
  obtain ⟨rfl, rfl⟩ := laid.unique laid'
  have inside : ∀ p ∈ ps, 0 ≤ p.position ∧
      p.position < (List.replicate dims.prod.toNat zero).length := by
    intro p mem
    have := (laid.positions positive).1 p mem
    rw [List.length_replicate]
    omega
  have array : ofArray dims (.list span is) =
      .ok ({ placements := ps, stop := error.map .error }, dims.prod.toNat) := by
    rw [ofArray, positive.count_eq counted, if_neg (by omega), eq]
    rfl
  unfold flatten
  simp only [array, fill]
  rw [store_eq elem inside]
  cases error <;> rfl

/-- What `flatten` makes of the elements `is` in braces for an array with bounds `dims`, of which it
places `ps` before it meets `error`. -/
structure Flattens (dims : List Int) (span : Source.Span) (is : List Init) (ps : List Placement)
    (error : Option Diag.Error) : Prop where
  within : ∀ p ∈ ps, 0 ≤ p.position ∧ p.position < dims.prod
  ordered : ps.Pairwise (·.position < ·.position)
  first : ps.map (·.value) <+: Init.allScalars is
  all : error = none → ps.map (·.value) = Init.allScalars is
  result : ∀ {m : Type → Type} [Monad m] [LawfulMonad m] [MonadExceptOf Failure m] {α : Type}
    (zero : α) (elem : Expr → m α), flatten zero elem dims (.list span is) = (do
      let vs ← (ps.map (·.value)).mapM elem
      match error with
      | some e => throw (.error e)
      | none => return scatter (List.replicate dims.prod.toNat zero) ps vs)
  spread : ∀ {α : Type} (zero : α) (vs : List α),
    Spread zero dims.prod ps vs (scatter (List.replicate dims.prod.toNat zero) ps vs)

theorem Laid.flattens (laid : Laid dims 0 0 is ps error) (positive : Positive dims)
    (small : dims.prod ≤ maxCount) (whole : Init.AllWhole is) (span : Source.Span) :
    Flattens dims span is ps error := by
  obtain ⟨positions, ordered⟩ := laid.positions positive
  have within : ∀ p ∈ ps, 0 ≤ p.position ∧ p.position < dims.prod := by
    intro p mem
    have := positions p mem
    omega
  refine ⟨within, ordered, laid.inOrder.1, laid.inOrder.2, ?_, fun zero vs =>
    scatter_spread zero positive.prod_pos.le within ordered vs⟩
  intro m _ _ _ α zero elem
  rw [flatten_laid zero elem positive small whole span laid, foldlM_place]
  cases error <;> simp

/-! ## Computations with a state -/

section State

variable {σ α β : Type} {x : EStateM Failure σ α} {next : α → EStateM Failure σ β} {s s' : σ}

theorem length_of_mapM {g : β → EStateM Failure σ α} {l : List β} {vs : List α}
    (ran : l.mapM g s = .ok vs s') : vs.length = l.length := by
  induction l generalizing s vs with
  | nil =>
    cases ran
    rfl
  | cons b l ih =>
    rw [List.mapM_cons] at ran
    obtain ⟨v, s₁, -, rest⟩ := bind_eq_ok.mp ran
    obtain ⟨ws, s₂, others, done⟩ := bind_eq_ok.mp rest
    cases done
    rw [List.length_cons, ih others, List.length_cons]

variable {zero : α} {elem : Expr → EStateM Failure σ α} {span : Source.Span}

/-- With a place for every element an initializer succeeds when the elements do, and the result
holds their values among zeros. -/
theorem Flattens.ok_iff (h : Flattens dims span is ps error) {out : List α} :
    flatten zero elem dims (.list span is) s = .ok out s' ↔ error = none ∧ ∃ vs,
      (Init.allScalars is).mapM elem s = .ok vs s' ∧ vs.length = ps.length ∧
        Spread zero dims.prod ps vs out := by
  rw [h.result, bind_eq_ok]
  cases error with
  | some e =>
    constructor
    · rintro ⟨vs, s₁, -, done⟩
      cases done
    · rintro ⟨none, -⟩
      cases none
  | none =>
    rw [h.all rfl, and_iff_right rfl]
    constructor
    · rintro ⟨vs, s₁, ran, done⟩
      cases done
      refine ⟨vs, ran, ?_, h.spread zero vs⟩
      rw [length_of_mapM ran, ← h.all rfl, List.length_map]
    · rintro ⟨vs, ran, length, spread⟩
      refine ⟨vs, s', ran, ?_⟩
      rw [spread.unique (h.spread zero vs) length]
      rfl

/-- An initializer fails with the first element that fails, or else with the error of the layout. -/
theorem Flattens.error_iff (h : Flattens dims span is ps error) {f : Failure} :
    flatten zero elem dims (.list span is) s = .error f s' ↔
      (ps.map (·.value)).mapM elem s = .error f s' ∨ ∃ e vs, error = some e ∧ f = .error e ∧
        (ps.map (·.value)).mapM elem s = .ok vs s' := by
  rw [h.result, bind_eq_error]
  refine or_congr_right ?_
  constructor
  · rintro ⟨vs, s₁, ran, done⟩
    cases error with
    | none => cases done
    | some e =>
      cases done
      exact ⟨e, vs, rfl, rfl, ran⟩
  · rintro ⟨e, vs, rfl, rfl, ran⟩
    exact ⟨vs, s', ran, rfl⟩

end State

end Const.Layout

namespace Const

open Layout

/-- Brace initializers of an array whose elements can be counted. If the array can be allocated, the
layout is the specified one: the elements before the first one without a place are evaluated in
source order, each goes to its own position in the array, and the others are zero. With a place for
every element, and only then, the initializer is accepted as soon as the evaluation of each element
succeeds; otherwise the first failure in source order is the one that is reported. An array that is
too large to be allocated ends in a fault before anything is laid out. -/
theorem braces_laid_out {dims : List Int} (positive : Positive dims)
    (counted : dims.prod < 0x8000000000000000) {is : List Init} (whole : Init.AllWhole is)
    (span : Source.Span) :
    (dims.prod ≤ maxCount → ∃ ps error,
      (∀ qs error', Laid dims 0 0 is qs error' ↔ qs = ps ∧ error' = error) ∧
      Flattens dims span is ps error ∧
      ∀ {σ α : Type} (zero : α) (elem : Expr → EStateM Failure σ α) (s s' : σ),
        (∀ out, flatten zero elem dims (.list span is) s = .ok out s' ↔ error = none ∧ ∃ vs,
          (Init.allScalars is).mapM elem s = .ok vs s' ∧ vs.length = ps.length ∧
            Spread zero dims.prod ps vs out) ∧
        ∀ f, flatten zero elem dims (.list span is) s = .error f s' ↔
          (ps.map (·.value)).mapM elem s = .error f s' ∨ ∃ e vs, error = some e ∧ f = .error e ∧
            (ps.map (·.value)).mapM elem s = .ok vs s') ∧
    (maxCount < dims.prod → ∀ {m : Type → Type} [Monad m] [MonadExceptOf Failure m] {α : Type}
      (zero : α) (elem : Expr → m α),
        flatten zero elem dims (.list span is) = throw (.fault none)) := by
  refine ⟨fun small => ?_, fun large m _ _ α zero elem => ?_⟩
  · obtain ⟨ps, error, laid, -⟩ := ofInits_laid whole positive counted 0 0
    have flattens := laid.flattens positive small whole span
    refine ⟨ps, error, fun qs error' => ⟨fun laid' => laid'.unique laid, ?_⟩, flattens,
      fun zero elem s s' => ⟨fun out => flattens.ok_iff, fun f => flattens.error_iff⟩⟩
    rintro ⟨rfl, rfl⟩
    exact laid
  · unfold flatten
    rw [ofArray, positive.count_eq counted, if_pos (.inr large)]
    rfl

/-- Elements in braces for an array with bounds 2, 2 and 2, in which a list begins at the third
place and another one at the fifth. -/
def cubeBraces : List Init :=
  [.expr {} (.lit {} 1), .expr {} (.lit {} 2), .list {} [.expr {} (.lit {} 3)],
    .list {} [.expr {} (.lit {} 4), .expr {} (.lit {} 5)]]

theorem cubeBraces_laid_out :
    (∃ ps error, Laid [2, 2, 2] 0 0 cubeBraces ps error ∧
      Flattens [2, 2, 2] {} cubeBraces ps error) ∧
    flatten 0 (eval .empty) [2, 2, 2] (.list {} cubeBraces) = .ok [1, 2, 3, 0, 4, 5, 0, 0] := by
  have positive : Positive [2, 2, 2] := by simp [Positive]
  have whole : Init.AllWhole cubeBraces := by
    simp [cubeBraces, Init.AllWhole, Init.Whole, Expr.Whole]
  obtain ⟨ps, error, laid, flattens, -⟩ :=
    (braces_laid_out positive (by decide) whole {}).1 (by decide)
  exact ⟨⟨ps, error, (laid ps error).mpr ⟨rfl, rfl⟩, flattens⟩, by decide +kernel⟩

/-- The only element has a place and cannot be evaluated, but that is not what is reported when the
elements of the array can be counted and the array cannot be allocated. -/
theorem hugeBraces_fault :
    Laid [0x800000000000] 0 0 [.expr {} (.call {} "f" {} [])] [⟨0, .call {} "f" {} []⟩] none ∧
    eval .empty (.call {} "f" {} []) = .error .notConstant ∧
    flatten 0 (eval .empty) [0x800000000000] (.list {} [.expr {} (.call {} "f" {} [])]) =
      .error (.fault none) :=
  ⟨.scalar (by decide) .nil, rfl, rfl⟩

end Const

end SysY

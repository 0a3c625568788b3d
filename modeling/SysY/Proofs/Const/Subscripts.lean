import Mathlib.Tactic.Ring
import SysY.Proofs.Meaning.Constant

/-! # Subscripts

The elements of an array are numbered in row-major order. `rowMajor` gives the subscripts of an
element, and `elementNumber` the number of the first element that some subscripts select, which
leads back from the subscripts of an element to the element. Applying subscripts to a constant
selects the elements that they number, and it fails exactly when there are too many subscripts or
one of them is not within its bound. -/

namespace SysY

/-! ## Row-major order -/

/-- The subscripts of element number `k` of an array with the given bounds. -/
def rowMajor : List Int → Int → List Int
  | [], _ => []
  | _ :: ds, k => k / ds.prod :: rowMajor ds (k % ds.prod)

/-- The number of the first element that subscripts select. -/
def elementNumber : List Int → List Int → Int
  | _ :: ds, i :: is => i * ds.prod + elementNumber ds is
  | _, _ => 0

/-- Subscripts that are within the bounds. There can be fewer subscripts than bounds. -/
def Inside : List Int → List Int → Prop
  | [], _ => True
  | _ :: _, [] => False
  | i :: is, d :: ds => (0 ≤ i ∧ i < d) ∧ Inside is ds

variable {ds is js : List Int} {k : Int}

@[simp] theorem length_rowMajor (ds : List Int) (k : Int) :
    (rowMajor ds k).length = ds.length := by
  induction ds generalizing k with
  | nil => rfl
  | cons d ds ih => rw [rowMajor, List.length_cons, ih, List.length_cons]

theorem rowMajor_inside (positive : Positive ds) (low : 0 ≤ k) (high : k < ds.prod) :
    Inside (rowMajor ds k) ds := by
  induction ds generalizing k with
  | nil => trivial
  | cons d ds ih =>
    have product := (positive_cons.mp positive).2.prod_pos
    rw [List.prod_cons] at high
    exact ⟨⟨Int.ediv_nonneg low product.le, Int.ediv_lt_of_lt_mul product high⟩,
      ih (positive_cons.mp positive).2 (Int.emod_nonneg k product.ne')
        (Int.emod_lt_of_pos k product)⟩

/-- The subscripts of an element select it. -/
theorem elementNumber_rowMajor (positive : Positive ds) (low : 0 ≤ k) (high : k < ds.prod) :
    elementNumber ds (rowMajor ds k) = k := by
  induction ds generalizing k with
  | nil =>
    rw [List.prod_nil] at high
    change 0 = k
    omega
  | cons d ds ih =>
    have product := (positive_cons.mp positive).2.prod_pos
    rw [rowMajor, elementNumber, ih (positive_cons.mp positive).2 (Int.emod_nonneg k product.ne')
      (Int.emod_lt_of_pos k product), Int.mul_comm]
    exact Int.mul_ediv_add_emod k ds.prod

/-- No two elements have the same subscripts. -/
theorem rowMajor_inj {k' : Int} (positive : Positive ds) (low : 0 ≤ k) (high : k < ds.prod)
    (low' : 0 ≤ k') (high' : k' < ds.prod) (same : rowMajor ds k = rowMajor ds k') : k = k' := by
  rw [← elementNumber_rowMajor positive low high, same,
    elementNumber_rowMajor positive low' high']

/-- What subscripts select lies within the array. -/
theorem Inside.number (inside : Inside is ds) (positive : Positive ds) :
    0 ≤ elementNumber ds is ∧ elementNumber ds is + (ds.drop is.length).prod ≤ ds.prod := by
  induction is generalizing ds with
  | nil =>
    cases ds <;> exact ⟨le_rfl, by simp [elementNumber]⟩
  | cons i is ih =>
    cases ds with
    | nil => exact inside.elim
    | cons d ds =>
      obtain ⟨⟨low, high⟩, rest⟩ := inside
      obtain ⟨start, ends⟩ := ih rest (positive_cons.mp positive).2
      have product := (positive_cons.mp positive).2.prod_pos
      have step : 0 ≤ i * ds.prod := Int.mul_nonneg low product.le
      have last : i * ds.prod + ds.prod ≤ (d :: ds).prod := by
        calc i * ds.prod + ds.prod = (i + 1) * ds.prod := by ring
          _ ≤ d * ds.prod := mul_le_mul_of_nonneg_right high product.le
          _ = (d :: ds).prod := List.prod_cons.symm
      rw [elementNumber, List.length_cons, List.drop_succ_cons]
      omega

theorem inside_append : Inside (is ++ js) ds ↔ Inside is ds ∧ Inside js (ds.drop is.length) := by
  induction is generalizing ds with
  | nil => simp [Inside]
  | cons i is ih =>
    cases ds with
    | nil => simp [Inside]
    | cons d ds => simp only [List.cons_append, Inside, ih, and_assoc, List.length_cons,
        List.drop_succ_cons]

theorem elementNumber_append (inside : Inside is ds) (js : List Int) :
    elementNumber ds (is ++ js) = elementNumber ds is + elementNumber (ds.drop is.length) js := by
  induction is generalizing ds with
  | nil => cases ds <;> simp [elementNumber]
  | cons i is ih =>
    cases ds with
    | nil => exact inside.elim
    | cons d ds =>
      rw [List.cons_append, elementNumber, elementNumber, ih inside.2, Int.add_assoc,
        List.length_cons, List.drop_succ_cons]

/-- Subscripts are not within bounds when there are too many of them, or one is out of range. -/
theorem not_inside_iff : ¬ Inside is ds ↔ ds.length < is.length ∨
    ∃ (n : Nat) (i d : Int), is[n]? = some i ∧ ds[n]? = some d ∧ (i < 0 ∨ d ≤ i) := by
  induction is generalizing ds with
  | nil => simp [Inside]
  | cons i is ih =>
    cases ds with
    | nil => simp [Inside]
    | cons d ds =>
      rw [Inside, not_and_or, ih, List.length_cons, List.length_cons, Nat.add_lt_add_iff_right]
      constructor
      · rintro (range | many | ⟨n, j, e, hj, he, range⟩)
        · exact .inr ⟨0, i, d, rfl, rfl, by omega⟩
        · exact .inl many
        · exact .inr ⟨n + 1, j, e, hj, he, range⟩
      · rintro (many | ⟨n, j, e, hj, he, range⟩)
        · exact .inr (.inl many)
        · cases n with
          | zero =>
            cases hj
            cases he
            exact .inl (by omega)
          | succ n => exact .inr (.inr ⟨n, j, e, hj, he, range⟩)

/-! ## Constants -/

theorem tdiv_prod {d : Int} {ds : List Int} (positive : 0 < d) :
    (d :: ds).prod.tdiv d = ds.prod := by
  rw [List.prod_cons, Int.mul_tdiv_cancel_left _ (Int.ne_of_gt positive)]

/-- Integers with 32 bits as mathematical ones. -/
def subscripts (indices : List Int32) : List Int := indices.map Int32.toInt

@[simp] theorem subscripts_cons (i : Int32) (is : List Int32) :
    subscripts (i :: is) = i.toInt :: subscripts is := rfl

@[simp] theorem subscripts_append (is js : List Int32) :
    subscripts (is ++ js) = subscripts is ++ subscripts js := List.map_append

@[simp] theorem length_subscripts (is : List Int32) : (subscripts is).length = is.length :=
  List.length_map _

theorem not_inside_subscripts_iff {ds : List Int} {is : List Int32} :
    ¬ Inside (subscripts is) ds ↔ ds.length < is.length ∨
      ∃ (n : Nat) (i : Int32) (d : Int), is[n]? = some i ∧ ds[n]? = some d ∧
        (i.toInt < 0 ∨ d ≤ i.toInt) := by
  rw [not_inside_iff, length_subscripts]
  refine or_congr_right ⟨?_, ?_⟩
  · rintro ⟨n, i, d, hi, hd, outside⟩
    rw [subscripts, List.getElem?_map] at hi
    obtain ⟨j, hj, rfl⟩ := Option.map_eq_some_iff.mp hi
    exact ⟨n, j, d, hj, hd, outside⟩
  · rintro ⟨n, i, d, hi, hd, outside⟩
    refine ⟨n, i.toInt, d, ?_, hd, outside⟩
    rw [subscripts, List.getElem?_map, hi]
    rfl

namespace Const.Value

variable {dims : List Int} {offset : Int} {indices : List Int32}

theorem select_inside (positive : Positive dims) (inside : Inside (subscripts indices) dims) :
    select offset dims.prod dims indices = .ok (some (dims.drop indices.length,
      offset + elementNumber dims (subscripts indices), (dims.drop indices.length).prod)) := by
  induction indices generalizing dims offset with
  | nil => cases dims <;> simp [select, elementNumber, subscripts, pure, Except.pure]
  | cons i is ih =>
    cases dims with
    | nil => exact inside.elim
    | cons d ds =>
      obtain ⟨first, rest⟩ := positive_cons.mp positive
      rw [subscripts_cons] at inside
      obtain ⟨⟨low, high⟩, inside⟩ := inside
      rw [select, if_neg first.ne', if_neg (by omega), tdiv_prod first, ih rest inside,
        List.length_cons, List.drop_succ_cons, subscripts_cons, elementNumber, Int.add_assoc]

theorem select_outside (positive : Positive dims) (outside : ¬ Inside (subscripts indices) dims) :
    select offset dims.prod dims indices = .ok none := by
  induction indices generalizing dims offset with
  | nil => exact (outside trivial).elim
  | cons i is ih =>
    cases dims with
    | nil => rfl
    | cons d ds =>
      obtain ⟨first, rest⟩ := positive_cons.mp positive
      rw [select, if_neg first.ne']
      by_cases range : i.toInt < 0 ∨ d ≤ i.toInt
      · rw [if_pos range]
        rfl
      · rw [if_neg range, tdiv_prod first]
        refine ih rest fun inside => outside ?_
        rw [subscripts_cons]
        exact ⟨by omega, inside⟩

/-- A constant that holds as many elements as its bounds say. -/
structure Filled (v : Value) : Prop where
  positive : Positive v.dims
  length : (v.data.length : Int) = v.dims.prod

variable {v : Value}

/-- What subscripts within the bounds select. -/
def part (v : Value) (indices : List Int32) : Value :=
  { dims := v.dims.drop indices.length
    data := (v.data.drop (elementNumber v.dims (subscripts indices)).toNat).take
      (v.dims.drop indices.length).prod.toNat }

theorem Filled.index_inside (filled : v.Filled) (inside : Inside (subscripts indices) v.dims) :
    v.index indices = .ok (some (v.part indices)) := by
  have enough : ¬ v.dims.length < indices.length := fun many =>
    not_inside_iff.mpr (.inl (by rw [length_subscripts]; exact many)) inside
  rw [index, if_neg enough, filled.length, select_inside filled.positive inside, Int.zero_add]
  rfl

theorem Filled.index_outside (filled : v.Filled)
    (outside : ¬ Inside (subscripts indices) v.dims) : v.index indices = .ok none := by
  unfold index
  split
  · rfl
  · rw [filled.length, select_outside filled.positive outside]
    rfl

theorem Filled.filled_part (filled : v.Filled) (inside : Inside (subscripts indices) v.dims) :
    (v.part indices).Filled := by
  have positive := filled.positive.of_suffix (List.drop_suffix indices.length v.dims)
  refine ⟨positive, ?_⟩
  obtain ⟨low, high⟩ := inside.number filled.positive
  have product := positive.prod_pos
  have length := filled.length
  rw [length_subscripts] at high
  change ((List.take _ (List.drop _ v.data)).length : Int) = (v.dims.drop indices.length).prod
  rw [List.length_take, List.length_drop]
  omega

/-- Subscripts select a constant with all its elements, or nothing. -/
theorem Filled.index (filled : v.Filled) (indices : List Int32) : ∃ r, v.index indices = .ok r ∧
    ∀ w ∈ r, w.Filled ∧ w.dims = v.dims.drop indices.length := by
  by_cases inside : Inside (subscripts indices) v.dims
  · refine ⟨_, filled.index_inside inside, ?_⟩
    rintro _ ⟨⟩
    exact ⟨filled.filled_part inside, rfl⟩
  · exact ⟨none, filled.index_outside inside, by simp⟩

theorem Filled.index_eq_none_iff (filled : v.Filled) :
    v.index indices = .ok none ↔ ¬ Inside (subscripts indices) v.dims := by
  refine ⟨fun none inside => ?_, filled.index_outside⟩
  rw [filled.index_inside inside] at none
  cases none

/-- A part of a part is a part. -/
theorem Filled.part_append (filled : v.Filled) {is js : List Int32}
    (first : Inside (subscripts is) v.dims)
    (second : Inside (subscripts js) (v.dims.drop is.length)) :
    v.part (is ++ js) = (v.part is).part js := by
  have low := (first.number filled.positive).1
  obtain ⟨low', fits⟩ := second.number (filled.filled_part first).positive
  have number : (elementNumber v.dims (subscripts (is ++ js))).toNat =
      (elementNumber v.dims (subscripts is)).toNat +
        (elementNumber (v.dims.drop is.length) (subscripts js)).toNat := by
    rw [subscripts_append, elementNumber_append first, length_subscripts,
      Int.toNat_add low low']
  rw [length_subscripts, List.drop_drop] at fits
  unfold Value.part
  simp only [number, List.drop_drop, List.length_append, List.drop_take, List.take_take]
  rw [Nat.min_eq_left (by omega)]

/-- Subscripts that are applied in two steps select the same. -/
theorem Filled.index_append (filled : v.Filled) (is js : List Int32) :
    v.index (is ++ js) = (do
      match ← v.index is with
      | some w => w.index js
      | none => return none) := by
  have both : Inside (subscripts (is ++ js)) v.dims ↔
      Inside (subscripts is) v.dims ∧ Inside (subscripts js) (v.dims.drop is.length) := by
    rw [subscripts_append, inside_append, length_subscripts]
  by_cases first : Inside (subscripts is) v.dims
  · rw [filled.index_inside first]
    change _ = (v.part is).index js
    by_cases second : Inside (subscripts js) (v.dims.drop is.length)
    · rw [filled.index_inside (both.mpr ⟨first, second⟩),
        (filled.filled_part first).index_inside second, filled.part_append first second]
    · rw [(filled.filled_part first).index_outside second,
        filled.index_outside fun inside => second (both.mp inside).2]
  · rw [filled.index_outside first, filled.index_outside fun inside => first (both.mp inside).1]
    rfl

end Const.Value
end SysY

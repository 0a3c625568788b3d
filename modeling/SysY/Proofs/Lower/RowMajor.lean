import SysY.Proofs.Const.Subscripts
import SysY.Proofs.Lower.Twin
import SysY.Proofs.Meaning.Table

/-! # One layout for all arrays

Lowering numbers the elements of an array in three ways. A constant is subscripted, its value as a
global variable is nested aggregates, and the elements of a local array are stored through addresses
that are computed from the number of an element. All three use row-major order: the constant indices
of such an address are the subscripts of the element, and following them through the aggregates
leads to the element, as subscripting the constant does. -/

namespace SysY

open Koopa (ValueId FnId ValueDef)

namespace Koopa.Program

variable {p p' : Program}

/-- What is found by following subscripts through nested aggregates. -/
def element? (p : Program) : ValueId → List Int → Option ValueDef
  | v, [] => p.defn? v
  | v, i :: is =>
    match p.defn? v with
    | some (.aggregate elems) =>
      if i < 0 then none
      else match elems[i.toNat]? with
        | some e => p.element? e is
        | none => none
    | _ => none

theorem element?_aggregate {v e : ValueId} {elems : List ValueId} {i : Nat} {is : List Int}
    (aggregate : p.defn? v = some (.aggregate elems)) (elem : elems[i]? = some e) :
    p.element? v (i :: is) = p.element? e is := by
  rw [element?, aggregate]
  simp [elem]

theorem element?_grows (grows : p.Grows p') {v : ValueId} {is : List Int} {x : ValueDef}
    (found : p.element? v is = some x) : p'.element? v is = some x := by
  induction is generalizing v with
  | nil => exact Meaning.defn?_grows grows found
  | cons i is ih =>
    rw [element?] at found
    split at found
    · rename_i elems aggregate
      split at found
      · cases found
      · rename_i low
        split at found
        · rename_i e elem
          obtain ⟨n, rfl⟩ := Int.eq_ofNat_of_zero_le (not_lt.mp low)
          exact (element?_aggregate (Meaning.defn?_grows grows aggregate) elem).trans (ih found)
        · cases found
    · cases found

end Koopa.Program

/-! ## Global constants -/

/-- A global value that holds the elements of an array. -/
structure Holds (p : Koopa.Program) (ds : List Int) (data : List Int32) (v : ValueId) : Prop where
  sees : p.Sees none v (.grid ds)
  element : ∀ {k : Nat} {n : Int32}, data[k]? = some n →
    p.element? v (rowMajor ds k) = some (.integer n)

theorem Holds.grows {p p' : Koopa.Program} {ds : List Int} {data : List Int32} {v : ValueId}
    (holds : Holds p ds data v) (grows : p.Grows p') : Holds p' ds data v :=
  ⟨grows.sees holds.sees, fun elem => Koopa.Program.element?_grows grows (holds.element elem)⟩

/-- One row of an array. -/
theorem getElem?_row {data : List Int32} {stride i k : Nat} (small : k < stride) :
    ((data.drop (i * stride)).take stride)[k]? = data[i * stride + k]? := by
  rw [List.getElem?_take_of_lt small, List.getElem?_drop]

/-- An aggregate of the rows of an array holds the elements of the array. -/
theorem Holds.ofRows {p : Koopa.Program} {n stride : Nat} {ds : List Int}
    (product : ds.prod = stride) {data : List Int32} (size : data.length = n * stride)
    {elems : List ValueId} (count : elems.length = n)
    (rows : ∀ {i e}, elems[i]? = some e → Holds p ds ((data.drop (i * stride)).take stride) e)
    {v : ValueId} (has : p.Has v none (.grid (n :: ds)) (.aggregate elems)) :
    Holds p (n :: ds) data v := by
  refine ⟨⟨none, .aggregate elems, has, .inl rfl⟩, fun {k m} elem => ?_⟩
  have inside : k < n * stride := by
    rw [← size]
    exact (List.getElem?_eq_some_iff.mp elem).1
  have positive : 0 < stride := by
    rcases Nat.eq_zero_or_pos stride with rfl | positive
    · cases inside
    · exact positive
  have rowInside : k / stride < elems.length := by
    rw [count]
    exact Nat.div_lt_of_lt_mul (by rwa [Nat.mul_comm])
  have row := List.getElem?_eq_getElem rowInside
  rw [rowMajor, product, ← Int.natCast_ediv, ← Int.natCast_emod,
    Koopa.Program.element?_aggregate (Meaning.defn?_of_has has) row]
  refine (rows row).element ?_
  rw [getElem?_row (Nat.mod_lt k positive), Nat.mul_comm, Nat.div_add_mod]
  exact elem

namespace Lower

variable {c : Site} {σ σ' σ'' : State}

/-- Global values are made one after the other. -/
theorem makeMany_ok {P : Nat → Koopa.Program → ValueId → Prop}
    (kept : ∀ {j p p' v}, p.Grows p' → P j p v → P j p' v) {f : Nat → Lower ValueId} {n i : Nat}
    (each : ∀ j < i + n, ∀ σ, ∃ v σ', f j σ = .ok v σ' ∧ σ.program.Grows σ'.program ∧
      P j σ'.program v) (σ : State) :
    ∃ vs σ', makeMany f n i σ = .ok vs σ' ∧ σ.program.Grows σ'.program ∧ vs.length = n ∧
      ∀ {j v}, vs[j]? = some v → P (i + j) σ'.program v := by
  induction n generalizing i σ with
  | zero => exact ⟨[], σ, rfl, .refl _, rfl, by simp⟩
  | succ n ih =>
    obtain ⟨v, σ₁, made, grows₁, holds⟩ := each i (by omega) σ
    obtain ⟨vs, σ₂, rest, grows₂, length, all⟩ :=
      ih (i := i + 1) (fun j small => each j (by omega)) σ₁
    refine ⟨v :: vs, σ₂, ?_, grows₁.trans grows₂, by rw [List.length_cons, length], ?_⟩
    · rw [makeMany, bind_ok made, bind_ok rest]
      rfl
    · intro j w elem
      cases j with
      | zero =>
        cases elem
        exact kept grows₂ holds
      | succ j =>
        rw [← Nat.succ_add_eq_add_succ]
        exact all elem

/-- The value of a global variable is made from all its elements, and holds them. -/
theorem aggregate_ok {ds : List Int} (positive : Positive ds) {data : List Int32}
    (length : (data.length : Int) = ds.prod) (σ : State) : ∃ v σ',
      aggregate ds data σ = .ok v σ' ∧ σ.program.Grows σ'.program ∧ Holds σ'.program ds data v := by
  induction ds generalizing data σ with
  | nil =>
    obtain ⟨n, rfl⟩ : ∃ n, data = [n] := List.length_eq_one_iff.mp (by simpa using length)
    have has := Koopa.Program.has_insert σ.program { home := none, ty := .i32, defn := .integer n }
    refine ⟨_, _, makeGlobal_eq rfl, Koopa.Program.grows_insert ..,
      ⟨none, .integer n, has, .inl rfl⟩, fun {k m} elem => ?_⟩
    obtain ⟨rfl, rfl⟩ : k = 0 ∧ n = m := by
      cases k with
      | zero => exact ⟨rfl, Option.some.inj elem⟩
      | succ k => cases elem
    exact Meaning.defn?_of_has has
  | cons d ds ih =>
    obtain ⟨first, rest⟩ := positive_cons.mp positive
    have product := rest.prod_pos
    obtain ⟨n, rfl⟩ := Int.eq_ofNat_of_zero_le first.le
    obtain ⟨stride, eq⟩ := Int.eq_ofNat_of_zero_le product.le
    have size : data.length = n * stride := by
      rw [List.prod_cons, eq] at length
      exact_mod_cast length
    have row : ∀ i < 0 + n, (((data.drop (i * stride)).take stride).length : Int) = ds.prod := by
      intro i small
      have room : (i + 1) * stride ≤ n * stride := Nat.mul_le_mul_right _ (by omega)
      rw [Nat.succ_mul] at room
      rw [List.length_take, List.length_drop, size, eq, Nat.min_eq_left (by omega)]
    obtain ⟨elems, σ₁, made, grows, count, holds⟩ :=
      makeMany_ok (P := fun i p v => Holds p ds ((data.drop (i * stride)).take stride) v)
        (fun grows holds => holds.grows grows) (fun i small σ => ih rest (row i small) σ) σ
    have sees : ∀ e ∈ elems, σ₁.program.Sees none e (.grid ds) := by
      intro e mem
      obtain ⟨i, elem⟩ := List.mem_iff_getElem?.mp mem
      exact (holds elem).sees
    have nonempty : elems ≠ [] := by
      rintro rfl
      rw [List.length_nil] at count
      omega
    have whole := makeGlobal_eq (σ := σ₁) (f := (·.aggregate none elems))
      (Koopa.Program.aggregate_eq nonempty sees)
    rw [count] at whole
    have steps : aggregate (n :: ds) data σ = makeGlobal (·.aggregate none elems) σ₁ := by
      rw [aggregate, Int.toNat_natCast, size, Nat.mul_div_cancel_left _ (by omega), bind_ok made]
    have last := Koopa.Program.grows_insert σ₁.program
      { home := none, ty := .array (.grid ds) n, defn := .aggregate elems }
    refine ⟨_, _, steps.trans whole, grows.trans last, .ofRows eq size count (fun elem => ?_)
      (Koopa.Program.has_insert ..)⟩
    have held := (holds elem).grows last
    rwa [Nat.zero_add] at held

/-! ## Addresses -/

/-- An address that is computed from `base` by the constant indices `ns`, one after the other, and
the instructions that compute it. -/
inductive Chain (p : Koopa.Program) (home : Option FnId) :
    (base : ValueId) → (ns : List Int32) → (insts : List ValueId) → (ptr : ValueId) → Prop
  | nil {base} : Chain p home base [] [] base
  | cons {base i v n t ns insts ptr} : p.Has i home .i32 (.integer n) →
      p.Has v home t (.getElemPtr base i) → Chain p home v ns insts ptr →
      Chain p home base (n :: ns) (v :: insts) ptr

/-- A later state in which the current block has taken the given instructions, if it takes any. -/
structure Emits (σ σ' : State) (vs : List ValueId) : Prop where
  frame : σ'.frame = σ.frame
  insts : σ.frame.isOpen = true → σ'.insts = σ.insts ++ vs

theorem Emits.refl (σ : State) : Emits σ σ [] := ⟨rfl, fun _ => (List.append_nil _).symm⟩

theorem Emits.trans {vs ws : List ValueId} (h : Emits σ σ' vs) (h' : Emits σ' σ'' ws) :
    Emits σ σ'' (vs ++ ws) := by
  refine ⟨h'.frame.trans h.frame, fun isOpen => ?_⟩
  rw [h'.insts (by rw [h.frame]; exact isOpen), h.insts isOpen, List.append_assoc]

theorem emits_insert (σ : State) (x : Koopa.Value) :
    Emits σ (σ.withProgram (σ.program.insert x).2) [] := ⟨rfl, fun _ => (List.append_nil _).symm⟩

theorem Fit.emits (fit : Fit c σ) (ty : Koopa.Ty) (x : ValueDef) :
    Emits σ (σ.emitted ty x) [σ.program.values.size + 1] :=
  ⟨σ.emitted_frame ty x, State.emitted_insts fit.takes⟩

/-- One subscript of an address: the constant index and the address of the row are made, and only
the address is an instruction. -/
theorem subscript_steps (fit : Fit c σ) {base : ValueId} {t : Koopa.Ty} {size : Nat}
    (sees : σ.program.Sees (some c.fn) base (.pointer (.array t size))) (n : Int32) :
    ∃ i row σ', (∀ {α : Type} (rest : ValueId → Lower α), (do
        let i ← integer n
        let row ← tryEmitNew (·.getElemPtr · base i)
        rest row) σ = rest row σ') ∧ Still c σ σ' ∧ Emits σ σ' [row] ∧
      σ'.program.Has i (some c.fn) .i32 (.integer n) ∧
      σ'.program.Has row (some c.fn) (.pointer t) (.getElemPtr base i) := by
  let x : Koopa.Value := { home := some σ.frame.fn, ty := .i32, defn := .integer n }
  let i := σ.program.values.size + 1
  obtain ⟨σ₁, made⟩ : ∃ σ₁, σ₁ = σ.withProgram (σ.program.insert x).2 := ⟨_, rfl⟩
  have first : integer n σ = .ok i σ₁ := by rw [made]; rfl
  have still₁ : Still c σ σ₁ := by rw [made]; exact fit.insert x
  have emits₁ : Emits σ σ₁ [] := by rw [made]; exact emits_insert σ x
  have constant : σ₁.program.Has i (some c.fn) .i32 (.integer n) := by
    rw [made, ← fit.site.fn]
    exact Koopa.Program.has_insert ..
  have src : σ₁.program.Sees (some σ₁.frame.fn) base (.pointer (.array t size)) := by
    rw [still₁.fit.site.fn]
    exact still₁.grows.sees sees
  have second := tryEmitNew_eq still₁.fit.takes (f := (·.getElemPtr · base i))
    (Koopa.Program.getElemPtr_eq src)
  have still₂ := still₁.fit.emitted (.pointer t) (.getElemPtr base i)
  have row := σ₁.emitted_has (.pointer t) (.getElemPtr base i)
  rw [still₁.fit.site.fn] at row
  refine ⟨i, _, _, fun rest => ?_, still₁.trans still₂, emits₁.trans (still₁.fit.emits _ _),
    still₂.grows.values constant, row⟩
  rw [bind_ok first, bind_ok second]

/-- The address of an element is computed without dividing by zero, and its constant indices are the
subscripts of the element. -/
theorem elementPtr_adds {ds : List Int} (positive : Positive ds) (fit : Fit c σ) {base : ValueId}
    (sees : σ.program.Sees (some c.fn) base (.pointer (.grid ds))) (index : Int) :
    Adds c σ (elementPtr base ds.prod index ds) fun v σ' =>
      σ'.program.Sees (some c.fn) v (.pointer .i32) ∧ ∃ ns insts, Emits σ σ' insts ∧
        Chain σ'.program (some c.fn) base ns insts v ∧
          (0 ≤ index → ns = (rowMajor ds index).map Int.toInt32) := by
  induction ds generalizing σ base index with
  | nil => exact ⟨base, σ, rfl, .refl fit, sees, [], [], .refl σ, .nil, fun _ => rfl⟩
  | cons d ds ih =>
    obtain ⟨first, rest⟩ := positive_cons.mp positive
    have product := rest.prod_pos
    obtain ⟨i, row, σ₁, step, still₁, emits₁, constant, made⟩ :=
      subscript_steps fit sees (index.tdiv ds.prod).toInt32
    obtain ⟨v, σ₂, ran, still₂, sees₂, ns, insts, emits₂, chain, indices⟩ :=
      ih rest still₁.fit ⟨_, _, made, .inl rfl⟩ (index.tmod ds.prod)
    refine ⟨v, σ₂, ?_, still₁.trans still₂, sees₂, _, _, emits₁.trans emits₂,
      .cons (still₂.grows.values constant) (still₂.grows.values made) chain, fun low => ?_⟩
    · rw [elementPtr, tdiv_prod first]
      simp only [if_neg product.ne']
      exact (step fun row => elementPtr row ds.prod (index.tmod ds.prod) ds).trans ran
    · rw [indices (Int.tmod_nonneg _ low), rowMajor, List.map_cons,
        Int.tmod_eq_emod_of_nonneg low, Int.tdiv_eq_ediv_of_nonneg low]

end Lower

/-! ## Subscripts as constants

The constants of an address are 32-bit words, and subscripts of a large array need not fit in them. -/

/-- Subscripts are not negative, and each of them is less than one of the bounds. -/
theorem Inside.below {is ds : List Int} (inside : Inside is ds) :
    ∀ i ∈ is, 0 ≤ i ∧ ∃ d ∈ ds, i < d := by
  induction is generalizing ds with
  | nil => exact nofun
  | cons i is ih =>
    cases ds with
    | nil => exact inside.elim
    | cons d ds =>
      obtain ⟨⟨low, high⟩, inside⟩ := inside
      refine List.forall_mem_cons.mpr ⟨⟨low, d, List.mem_cons_self, high⟩, fun j mem => ?_⟩
      obtain ⟨low, d', mem', high⟩ := ih inside j mem
      exact ⟨low, d', List.mem_cons_of_mem _ mem', high⟩

theorem Inside.nonneg {is ds : List Int} (inside : Inside is ds) : ∀ i ∈ is, 0 ≤ i :=
  fun i mem => (inside.below i mem).1

/-- Subscripts are less than the greatest bound. -/
theorem Inside.range {is ds : List Int} (inside : Inside is ds) {m : Int} (bounds : ∀ d ∈ ds, d ≤ m) :
    ∀ i ∈ is, 0 ≤ i ∧ i < m := by
  intro i mem
  obtain ⟨low, d, mem, high⟩ := inside.below i mem
  exact ⟨low, high.trans_le (bounds d mem)⟩

/-- The signed words for subscripts are the subscripts if none of them needs the sign. -/
theorem subscripts_toInt32_iff {is : List Int} (low : ∀ i ∈ is, 0 ≤ i) :
    subscripts (is.map Int.toInt32) = is ↔ ∀ i ∈ is, i < 0x80000000 := by
  rw [subscripts, List.map_map]
  nth_rewrite 2 [← List.map_id is]
  rw [List.map_inj_left]
  refine forall₂_congr fun i mem => ?_
  have := low i mem
  rw [Function.comp_apply, id, Int.toInt32, Int32.toInt_ofInt]
  simp only [Int32.size, Int.bmod]
  omega

/-- Subscripts that fit in a word without sign are known from their words. -/
theorem map_toInt32_inj {is js : List Int} (range : ∀ i ∈ is, 0 ≤ i ∧ i < 0x100000000)
    (range' : ∀ j ∈ js, 0 ≤ j ∧ j < 0x100000000)
    (same : is.map Int.toInt32 = js.map Int.toInt32) : is = js := by
  induction is generalizing js with
  | nil => exact (List.map_eq_nil_iff.mp same.symm).symm
  | cons i is ih =>
    cases js with
    | nil => cases same
    | cons j js =>
      obtain ⟨first, rest⟩ := List.cons.inj same
      obtain ⟨⟨low, high⟩, others⟩ := List.forall_mem_cons.mp range
      obtain ⟨⟨low', high'⟩, others'⟩ := List.forall_mem_cons.mp range'
      have signed := congrArg Int32.toInt first
      simp only [Int.toInt32, Int32.toInt_ofInt, Int32.size, Int.bmod] at signed
      obtain rfl : i = j := by omega
      rw [ih others others' rest]

/-- A bound that is too large leaves room for an element with the words of the first one. -/
theorem exists_same_words {ds : List Int} (positive : Positive ds)
    (large : ∃ d ∈ ds, 0x100000000 < d) : ∃ k, 0 < k ∧ k < ds.prod ∧
      (rowMajor ds k).map Int.toInt32 = (rowMajor ds 0).map Int.toInt32 := by
  induction ds with
  | nil =>
    obtain ⟨d, mem, -⟩ := large
    cases mem
  | cons d ds ih =>
    obtain ⟨first, rest⟩ := positive_cons.mp positive
    have product := rest.prod_pos
    simp only [List.prod_cons, rowMajor, List.map_cons, Int.zero_ediv, Int.zero_emod]
    rcases List.exists_mem_cons_iff .. |>.mp large with here | behind
    · refine ⟨0x100000000 * ds.prod, by omega, mul_lt_mul_of_pos_right here product, ?_⟩
      rw [Int.mul_ediv_cancel _ product.ne', Int.mul_emod_left]
      rfl
    · obtain ⟨k, pos, small, same⟩ := ih rest behind
      refine ⟨k, pos, small.trans_le (le_mul_of_one_le_left product.le first), ?_⟩
      rw [Int.ediv_eq_zero_of_lt pos.le small, Int.emod_eq_of_lt pos.le small, same]

/-! ## Agreement -/

/-- The ways of numbering the elements `data` of an array with bounds `dims` agree. The constants of
an address have 32 bits, which is enough for every array that is declared. -/
structure OneLayout (dims : List Int) (data : List Int32) : Prop where
  /-- Every element has subscripts, all within their bounds. -/
  inside : ∀ k < data.length,
    (rowMajor dims k).length = dims.length ∧ Inside (rowMajor dims k) dims
  /-- No two elements have the same subscripts. -/
  distinct : ∀ k < data.length, ∀ k' < data.length, rowMajor dims k = rowMajor dims k' → k = k'
  /-- The address of an element is computed from its subscripts. -/
  addressed : ∀ {c σ base}, Lower.Fit c σ →
    σ.program.Sees (some c.fn) base (.pointer (.grid dims)) → ∀ k < data.length, ∃ ptr insts σ',
      Lower.elementPtr base (Const.count dims) k dims σ = .ok ptr σ' ∧ Lower.Emits σ σ' insts ∧
        Lower.Chain σ'.program (some c.fn) base ((rowMajor dims k).map Int.toInt32) insts ptr
  /-- The bounds of a declared array are 32-bit numbers. -/
  bounded : ∀ {env : Const.Env} {d : Def} {t : Ty}, Ty.ofDef env .int d = .ok t → t.dims = dims →
    ∀ d ∈ dims, d < 0x80000000
  /-- The constants in the address of an element are its subscripts, if these fit. -/
  constants : ∀ k < data.length, subscripts ((rowMajor dims k).map Int.toInt32) = rowMajor dims k ↔
    ∀ i ∈ rowMajor dims k, i < 0x80000000
  /-- The addresses of any two elements are computed from different constants as long as all
  subscripts fit, with or without sign. -/
  apart : (∀ k < data.length, ∀ k' < data.length,
    (rowMajor dims k).map Int.toInt32 = (rowMajor dims k').map Int.toInt32 → k = k') ↔
      ∀ d ∈ dims, d ≤ 0x100000000
  /-- The value of a global variable has each element at its subscripts. -/
  aggregated : ∀ σ, ∃ v σ', Lower.aggregate dims data σ = .ok v σ' ∧
    ∀ {k : Nat} {n : Int32}, data[k]? = some n →
      σ'.program.element? v (rowMajor dims k) = some (.integer n)
  /-- The subscripts of an element select it from a constant. -/
  subscripted : ∀ {k : Nat} {n : Int32} {is : List Int32}, data[k]? = some n →
    subscripts is = rowMajor dims k → Const.Value.index ⟨dims, data⟩ is = .ok (some (.scalar n))
  /-- Subscripts select a constant that holds as many elements as its bounds say, or nothing. -/
  part : ∀ is, ∃ r, Const.Value.index ⟨dims, data⟩ is = .ok r ∧ ∀ w ∈ r, w.Filled
  /-- Nothing is selected when there are too many subscripts or one is out of range. -/
  missing : ∀ is, Const.Value.index ⟨dims, data⟩ is = .ok none ↔ dims.length < is.length ∨
    ∃ (n : Nat) (i : Int32) (d : Int), is[n]? = some i ∧ dims[n]? = some d ∧
      (i.toInt < 0 ∨ d ≤ i.toInt)
  /-- Subscripts can be applied in two steps. -/
  steps : ∀ is js, Const.Value.index ⟨dims, data⟩ (is ++ js) = (do
    match ← Const.Value.index ⟨dims, data⟩ is with
    | some w => w.index js
    | none => return none)

/-- All subscripts of an element select it. -/
theorem Const.Value.Filled.index_element {dims : List Int} {data : List Int32}
    (filled : Filled ⟨dims, data⟩) {k : Nat} {n : Int32} {is : List Int32}
    (element : data[k]? = some n) (eq : subscripts is = rowMajor dims k) :
    Value.index ⟨dims, data⟩ is = .ok (some (.scalar n)) := by
  have small := (List.getElem?_eq_some_iff.mp element).1
  have high : (k : Int) < dims.prod := by
    rw [← filled.length]
    exact_mod_cast small
  have inside := rowMajor_inside filled.positive (Int.natCast_nonneg k) high
  have all : is.length = dims.length := by rw [← length_subscripts, eq, length_rowMajor]
  rw [filled.index_inside (eq ▸ inside), part]
  have number := elementNumber_rowMajor filled.positive (Int.natCast_nonneg k) high
  simp only [eq, all, number, List.drop_length, List.prod_nil, Int.toNat_natCast, Int.toNat_one,
    List.take_one, List.head?_drop, element, Option.toList_some]
  rfl

/-- For every shape with positive bounds whose elements can be counted, and for all its elements,
the ways of numbering them agree. -/
theorem row_major_agrees {dims : List Int} (positive : Positive dims)
    (counted : dims.prod < 0x8000000000000000) {data : List Int32}
    (length : (data.length : Int) = dims.prod) : OneLayout dims data := by
  have filled : Const.Value.Filled ⟨dims, data⟩ := ⟨positive, length⟩
  have range : ∀ k < data.length, (0 : Int) ≤ k ∧ (k : Int) < dims.prod := by
    intro k small
    omega
  have inside : ∀ k < data.length, Inside (rowMajor dims k) dims := fun k small =>
    rowMajor_inside positive (range k small).1 (range k small).2
  have distinct : ∀ k < data.length, ∀ k' < data.length,
      rowMajor dims k = rowMajor dims k' → k = k' := by
    intro k small k' small' same
    exact_mod_cast rowMajor_inj positive (range k small).1 (range k small).2 (range k' small').1
      (range k' small').2 same
  refine ⟨fun k small => ⟨length_rowMajor dims k, inside k small⟩, distinct, ?_, ?_,
    fun k small => subscripts_toInt32_iff (inside k small).nonneg, ⟨fun apart => ?_, ?_⟩, ?_,
    filled.index_element, ?_, fun is => ?_, fun is js => filled.index_append is js⟩
  · intro c σ base fit sees k small
    obtain ⟨ptr, σ', ran, -, -, ns, insts, emits, chain, indices⟩ :=
      Lower.elementPtr_adds positive fit sees k
    rw [indices (range k small).1] at chain
    refine ⟨ptr, insts, σ', ?_, emits, chain⟩
    rw [positive.count_eq counted]
    exact ran
  · rintro env d t declared rfl bound mem
    exact ((Ty.ofDef_solid declared).1.bounds bound mem).2
  · by_contra large
    push Not at large
    obtain ⟨k, pos, small, same⟩ := exists_same_words positive large
    obtain ⟨k, rfl⟩ := Int.eq_ofNat_of_zero_le pos.le
    have := apart k (by omega) 0 (by omega) same
    omega
  · intro bounded k small k' small' same
    exact distinct k small k' small' (map_toInt32_inj ((inside k small).range bounded)
      ((inside k' small').range bounded) same)
  · intro σ
    obtain ⟨v, σ', made, -, holds⟩ := Lower.aggregate_ok positive length σ
    exact ⟨v, σ', made, holds.element⟩
  · intro is
    obtain ⟨r, found, parts⟩ := filled.index is
    exact ⟨r, found, fun w mem => (parts w mem).1⟩
  · rw [filled.index_eq_none_iff, not_inside_subscripts_iff]

/-- An array with two rows of three elements. -/
theorem matrix_agrees : OneLayout [2, 3] [1, 2, 3, 4, 5, 6] ∧
    rowMajor [2, 3] 4 = [1, 1] ∧
    Const.Value.index ⟨[2, 3], [1, 2, 3, 4, 5, 6]⟩ [1, 1] = .ok (some (.scalar 5)) ∧
    Const.Value.index ⟨[2, 3], [1, 2, 3, 4, 5, 6]⟩ [1] = .ok (some ⟨[3], [4, 5, 6]⟩) ∧
    Const.Value.index ⟨[2, 3], [1, 2, 3, 4, 5, 6]⟩ [1, 3] = .ok none :=
  ⟨row_major_agrees (by simp [Positive]) (by decide) (by decide), by decide, by decide, by decide,
    by decide⟩

/-- A function with the address of an array with one bound above 2³¹. -/
def tallArray : Lower.State where
  program :=
    { values := #[{ home := some 1, ty := .pointer (.grid [2147483650]), defn := .alloc }]
      blocks := #[{ home := 1, name := "%entry" }]
      fns := #[{ name := "@f", paramTys := [], ret := .unit, params := [], layout := [(1, [1])] }] }
  frame := { fn := 1, ret := .void, block := 1, isOpen := true }

/-- The address of an element in the last row of a tall array is computed from a negative constant,
which selects nothing from a constant array. -/
theorem tallArray_wraps :
    Positive [2147483650] ∧ [(2147483650 : Int)].prod < 0x8000000000000000 ∧
    (((List.replicate 2147483650 0 : List Int32).length : Nat) : Int) = [(2147483650 : Int)].prod ∧
    2147483648 < (List.replicate 2147483650 0 : List Int32).length ∧
    (∃ σ, Lower.elementPtr 1 (Const.count [2147483650]) 2147483648 [2147483650] tallArray = .ok 3 σ ∧
      σ.program.fns.toList.map (·.layout) = [[(1, [1, 3])]] ∧
      σ.program.defn? 3 = some (.getElemPtr 1 2) ∧
      σ.program.defn? 2 = some (.integer (-2147483648))) ∧
    ¬ Inside [-2147483648] [2147483650] ∧
    Const.Value.index ⟨[2147483650], List.replicate 2147483650 0⟩ [-2147483648] = .ok none := by
  refine ⟨by simp [Positive], by decide, ?_, ?_, ⟨_, rfl, rfl, rfl, rfl⟩, by simp [Inside], rfl⟩
  · rw [List.length_replicate]
    decide
  · rw [List.length_replicate]
    decide

end SysY

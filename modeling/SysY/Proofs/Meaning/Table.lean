import SysY.Proofs.Koopa.Insert
import SysY.Proofs.Meaning.Expr

/-! # What global variables hold at first

A global variable of a program starts with the elements that lowering was given, whether they are
written out one by one or, when all are zero, left out. -/

namespace SysY.Meaning

open Koopa (ValueId FnId Program Avail ValueDef)

variable {p p' : Program} {σ σ' : Lower.State} {v : ValueId}

/-! ## Payloads -/

theorem defn?_of_has {h : Option FnId} {t : Koopa.Ty} {x : ValueDef} (has : p.Has v h t x) :
    p.defn? v = some x := by
  obtain ⟨name, found⟩ := has
  simp [Program.defn?, found]

theorem defn?_grows (grows : p.Grows p') {x : ValueDef} (found : p.defn? v = some x) :
    p'.defn? v = some x := by
  unfold Program.defn? at found
  obtain ⟨y, here, rfl⟩ := Option.map_eq_some_iff.mp found
  exact defn?_of_has (grows.values (Program.has_of_value? here))

theorem mapM_mono {α β : Type} {f g : α → Option β} (more : ∀ {a b}, f a = some b → g a = some b)
    {as : List α} {bs : List β} (h : as.mapM f = some bs) : as.mapM g = some bs := by
  induction as generalizing bs with
  | nil => exact h
  | cons a as ih =>
    rw [List.mapM_cons] at h ⊢
    obtain ⟨b, here, h⟩ := Option.bind_eq_some_iff.mp h
    obtain ⟨others, there, h⟩ := Option.bind_eq_some_iff.mp h
    cases h
    rw [more here, ih there]
    rfl

/-- Initial data does not change when a program grows. -/
theorem payload_grows (grows : p.Grows p') : (t : Koopa.Ty) → ∀ {v data},
    p.payload t v = some data → p'.payload t v = some data
  | .array e n, v, data, h => by
    rw [Program.payload_array] at h ⊢
    cases found : p.defn? v with
    | none =>
      rw [found] at h
      cases h
    | some x =>
      rw [defn?_grows grows found]
      rw [found] at h
      cases x with
      | zeroInit => exact h
      | aggregate elems =>
        obtain ⟨rows, each, rfl⟩ := Option.map_eq_some_iff.mp h
        exact Option.map_eq_some_iff.mpr ⟨rows, mapM_mono (payload_grows grows e) each, rfl⟩
      | _ => cases h
  | .i32, v, data, h | .unit, v, data, h | .pointer _, v, data, h | .func .., v, data, h => by
    rw [Program.payload_single _ (by simp)] at h ⊢
    cases found : p.defn? v with
    | none =>
      rw [found] at h
      cases h
    | some x =>
      rw [defn?_grows grows found]
      rw [found] at h
      exact h

/-! ## Initializers -/

/-- The elements of an array, cut into rows. -/
theorem flatten_rows (data : List Int32) (stride n i : Nat) :
    ((List.range' i n).map fun i => (data.drop (i * stride)).take stride).flatten =
      (data.drop (i * stride)).take (n * stride) := by
  induction n generalizing i with
  | zero => simp
  | succ n ih =>
    rw [List.range'_succ, List.map_cons, List.flatten_cons, ih, Nat.succ_mul n, Nat.add_comm _ stride,
      List.take_add, List.drop_drop, Nat.succ_mul]

/-- An operation that makes a global value with the given data. -/
def Lays (t : Koopa.Ty) (data : List Int32) (m : Lower ValueId) : Prop :=
  ∀ ⦃σ v σ'⦄, m σ = .ok v σ' →
    σ.program.Grows σ'.program ∧ σ'.program.payload t v = some data

/-- A global value is added, and nothing else changes. -/
theorem makeGlobal_insert {f : Program → SysY.Outcome (ValueId × Program)} {x : ValueDef}
    {g : ValueId} (made : Lower.makeGlobal f σ = .ok g σ')
    (inserts : ∀ {r}, f σ.program = .ok r → ∃ t, r = σ.program.insert ⟨none, t, x, ""⟩) :
    σ.program.Grows σ'.program ∧ σ'.program.defn? g = some x := by
  cases result : f σ.program with
  | error e =>
    simp only [Lower.makeGlobal, Lower.tryMake, Lower.get_bind, result, Lower.lift] at made
    cases made
  | ok r =>
    obtain ⟨t, rfl⟩ := inserts result
    rw [Lower.makeGlobal_eq result] at made
    cases made
    exact ⟨Program.grows_insert .., defn?_of_has (Program.has_insert ..)⟩

theorem makeMany_lays {t : Koopa.Ty} {f : Nat → Lower ValueId} {r : Nat → List Int32} {n i : Nat}
    {vs : List ValueId} (each : ∀ j, i ≤ j → j < i + n → Lays t (r j) (f j))
    (made : Lower.makeMany f n i σ = .ok vs σ') :
    σ.program.Grows σ'.program ∧
      vs.mapM (σ'.program.payload t) = some ((List.range' i n).map r) := by
  induction n generalizing i σ vs with
  | zero =>
    cases made
    exact ⟨.refl _, rfl⟩
  | succ n ih =>
    rw [Lower.makeMany] at made
    obtain ⟨v, σ₁, made₁, rest₁⟩ := bind_eq_ok.mp made
    obtain ⟨us, σ₂, made₂, rest₂⟩ := bind_eq_ok.mp rest₁
    cases rest₂
    obtain ⟨grows₁, first⟩ := each i (Nat.le_refl i) (by omega) made₁
    obtain ⟨grows₂, others⟩ := ih (fun j low high => each j (by omega) (by omega)) made₂
    refine ⟨grows₁.trans grows₂, ?_⟩
    rw [List.mapM_cons, payload_grows grows₂ t first, others, List.range'_succ]
    rfl

theorem aggregate_lays {ds : List Int} (bounds : Bounds ds) {data : List Int32}
    (length : (data.length : Int) = ds.prod) : Lays (.grid ds) data (Lower.aggregate ds data) := by
  induction ds generalizing data with
  | nil =>
    intro σ v σ' made
    rw [Lower.aggregate] at made
    obtain ⟨n, rfl⟩ : ∃ n, data = [n] := List.length_eq_one_iff.mp (by simpa using length)
    obtain ⟨grows, found⟩ := makeGlobal_insert (x := .integer n) made (by rintro _ ⟨⟩; exact ⟨_, rfl⟩)
    refine ⟨grows, ?_⟩
    rw [Koopa.Ty.grid, Program.payload_single _ (by simp), found]
  | cons d ds ih =>
    obtain ⟨⟨positive, -⟩, rest⟩ := bounds_cons.mp bounds
    have product := rest.prod_pos
    obtain ⟨n, rfl⟩ : ∃ n : Nat, d = n := ⟨d.toNat, by omega⟩
    obtain ⟨stride, eq⟩ : ∃ m : Nat, ds.prod = m := ⟨ds.prod.toNat, by omega⟩
    have size : data.length = n * stride := by
      rw [List.prod_cons, eq] at length
      exact_mod_cast length
    have pos : 0 < n := by omega
    intro σ v σ' made
    rw [Lower.aggregate, Int.toNat_natCast, size, Nat.mul_div_cancel_left _ pos] at made
    obtain ⟨elems, σ₁, made₁, made₂⟩ := bind_eq_ok.mp made
    obtain ⟨grows₁, each⟩ := makeMany_lays (r := fun i => (data.drop (i * stride)).take stride)
      (fun i _ small => ih rest (by
        have room : (i + 1) * stride ≤ n * stride := Nat.mul_le_mul_right _ (by omega)
        rw [List.length_take, List.length_drop, size, eq, Nat.min_eq_left (by
          rw [Nat.succ_mul] at room
          omega)])) made₁
    obtain ⟨grows₂, found⟩ := makeGlobal_insert made₂ Program.aggregate_inserts
    refine ⟨grows₁.trans grows₂, ?_⟩
    rw [Koopa.Ty.grid, Program.payload_array, found]
    simp only [mapM_mono (payload_grows grows₂ _) each, Option.map_some, flatten_rows, Nat.zero_mul,
      List.drop_zero, ← size, List.take_length]

theorem payload_zeroInit (found : p.defn? v = some .zeroInit) (t : Koopa.Ty) :
    p.payload t v = some (List.replicate t.cells 0) := by
  cases t with
  | array e n => rw [Program.payload_array, found]
  | i32 | unit | pointer _ | func _ _ => rw [Program.payload_single _ (by simp), found]

/-- Zeros are not written out. -/
theorem zeros_lays {ty : Ty} (solid : ty.Solid) {data : List Int32}
    (zeros : data.all (· == 0) = true) :
    Lays ty.koopa (List.replicate ty.koopa.cells 0) (Lower.initializer ty data) := by
  intro σ v σ' made
  rw [Lower.initializer, if_pos zeros] at made
  have koopa : Lower.lift ty.toKoopa σ = .ok ty.koopa σ := by rw [Ty.toKoopa_eq solid]; rfl
  rw [bind_ok koopa] at made
  obtain ⟨grows, found⟩ := makeGlobal_insert (x := .zeroInit) made (by rintro _ ⟨⟩; exact ⟨_, rfl⟩)
  exact ⟨grows, payload_zeroInit found _⟩

theorem initializer_lays {ty : Ty} (solid : ty.Solid) (object : ty.IsObject) {data : List Int32}
    (length : (data.length : Int) = ty.dims.prod) :
    Lays ty.koopa data (Lower.initializer ty data) := by
  by_cases zeros : data.all (· == 0) = true
  · have all : data = List.replicate ty.koopa.cells 0 := by
      refine List.eq_replicate_iff.mpr ⟨?_, fun n mem => eq_of_beq (List.all_eq_true.mp zeros n mem)⟩
      rw [← cells_grid (Lower.bounds_dims solid), ← Lower.koopa_object object] at length
      exact_mod_cast length
    have lays := zeros_lays solid zeros
    rwa [← all] at lays
  · intro σ v σ' made
    rw [Lower.initializer, if_neg zeros] at made
    rw [Lower.koopa_object object]
    exact aggregate_lays (Lower.bounds_dims solid) length made

/-! ## Global variables -/

/-- A global variable that was just made, and what it holds at first. -/
structure Made (p : Program) (t : Koopa.Ty) (data : List Int32) (g : ValueId) (p' : Program) :
    Prop where
  grows : p.Grows p'
  has : ∃ init, p'.Has g none (.pointer t) (.globalAlloc init) ∧ p'.payload t init = some data
  new : p.values.size < g
  last : g = p'.values.size

theorem globalVariable_made {c : Lower.Site} {avail : Avail} {name : String} {ty : Ty}
    (solid : ty.Solid) (object : ty.IsObject) {given data : List Int32}
    (lays : Lays ty.koopa data (Lower.initializer ty given)) (site : Lower.At c σ)
    (ok : σ.program.Ok avail) {g : ValueId}
    (made : Lower.globalVariable name ty given σ = .ok g σ') :
    Made σ.program ty.koopa data g σ'.program := by
  rw [Lower.globalVariable_eq] at made
  obtain ⟨init, σ₁, made₁, made₂⟩ := bind_eq_ok.mp made
  obtain ⟨p, rfl, consts, sees⟩ :=
    ((Lower.initializer_makesConst solid object given).ends site ok).ok made₁
  obtain ⟨grows, payload⟩ := lays made₁
  rw [Lower.namedGlobal_eq (σ := σ.withProgram p) sees name] at made₂
  cases made₂
  have more := Program.grows_insert p ⟨none, .pointer ty.koopa, .globalAlloc init, "@" ++ name⟩
  refine ⟨grows.trans more, ⟨init, Program.has_insert .., payload_grows more _ payload⟩, ?_, ?_⟩
  · exact Nat.lt_succ_of_le grows.values_size
  · exact (Array.size_push _).symm

end SysY.Meaning

import Mathlib.Algebra.Order.Ring.Int
import Mathlib.Data.Int.DivMod
import SysY.Proofs.Meaning.Source
import SysY.Proofs.Ty.Solid

/-! # Constants mean what they are folded to

An expression that can be evaluated while compiling has the same value when it is run, and running
it changes nothing. The same holds of array bounds, of the places where the elements of a brace
initializer go, and of whole definitions of constants. -/

namespace SysY

open Const (Placement)

/-! ## Numbers of elements -/

theorem wrapCount_eq {n : Int} (positive : 0 < n) (small : n < Meaning.tooMany) :
    wrapCount n = n := by
  unfold Meaning.tooMany at small
  unfold wrapCount
  rw [Int.bmod_def]
  omega

theorem Positive.prod_pos {ds : List Int} (positive : Positive ds) : 0 < ds.prod := by
  induction ds with
  | nil => simp
  | cons d ds ih =>
    obtain ⟨first, rest⟩ := positive_cons.mp positive
    rw [List.prod_cons]
    exact Int.mul_pos first (ih rest)

theorem Bounds.prod_pos {ds : List Int} (bounds : Bounds ds) : 0 < ds.prod :=
  bounds.positive.prod_pos

/-- The bounds of a sub-array have a product that is no larger. -/
theorem Positive.prod_le_cons {d : Int} {ds : List Int} (positive : Positive (d :: ds)) :
    ds.prod ≤ (d :: ds).prod := by
  obtain ⟨first, rest⟩ := positive_cons.mp positive
  rw [List.prod_cons]
  exact le_mul_of_one_le_left rest.prod_pos.le first

theorem Bounds.prod_le_cons {d : Int} {ds : List Int} (bounds : Bounds (d :: ds)) :
    ds.prod ≤ (d :: ds).prod := bounds.positive.prod_le_cons

theorem foldl_count {ds : List Int} (positive : Positive ds) {n : Int} (start : 0 < n)
    (small : n * ds.prod < Meaning.tooMany) :
    ds.foldl (fun n d => wrapCount (n * d)) n = n * ds.prod := by
  induction ds generalizing n with
  | nil => simp
  | cons d ds ih =>
    obtain ⟨dPositive, rest⟩ := positive_cons.mp positive
    have product := rest.prod_pos
    rw [List.prod_cons, ← Int.mul_assoc] at small
    have first : 0 < n * d := Int.mul_pos start dPositive
    have notLarger : n * d ≤ n * d * ds.prod :=
      le_mul_of_one_le_right first.le product
    rw [List.foldl_cons, wrapCount_eq first (by omega), ih rest first small, List.prod_cons,
      Int.mul_assoc]

/-- The number of elements of an array that is not too large is the product of its bounds. -/
theorem Positive.count_eq {ds : List Int} (positive : Positive ds)
    (small : ds.prod < Meaning.tooMany) : Const.count ds = ds.prod := by
  rw [Const.count, foldl_count positive Int.one_pos (by simpa using small), Int.one_mul]

theorem Const.count_eq {ds : List Int} (bounds : Bounds ds) (small : ds.prod < Meaning.tooMany) :
    Const.count ds = ds.prod := bounds.positive.count_eq small

/-! ## Layout -/

namespace Const.Layout

theorem subArray?_go_eq {position : Int} {ds sub : List Int} (bounds : Bounds ds)
    (small : ds.prod < Meaning.tooMany) (h : subArray?.go position ds = .ok (some sub)) :
    ds.tails.find? (fun ds => !ds.isEmpty && decide (ds.prod ∣ position)) = some sub ∧ Bounds sub ∧
      sub.prod < Meaning.tooMany := by
  induction ds with
  | nil => cases h
  | cons d ds ih =>
    have count : count (d :: ds) = (d :: ds).prod := Const.count_eq bounds small
    have le := bounds.prod_le_cons
    rw [subArray?.go, count] at h
    rw [if_neg (Int.ne_of_gt bounds.prod_pos)] at h
    by_cases aligned : position.tmod (d :: ds).prod = 0
    · rw [if_pos aligned] at h
      cases h
      refine ⟨?_, bounds, small⟩
      have dvd : (d :: ds).prod ∣ position := Int.dvd_of_tmod_eq_zero aligned
      rw [List.tails, List.find?_cons_of_pos (by rw [decide_eq_true dvd]; rfl)]
    · rw [if_neg aligned] at h
      obtain ⟨found, rest⟩ := ih bounds.tail (by omega) h
      refine ⟨?_, rest⟩
      have notDvd : ¬ (d :: ds).prod ∣ position := fun dvd => aligned (Int.tmod_eq_zero_of_dvd dvd)
      rw [List.tails, List.find?_cons_of_neg (by rw [decide_eq_false notDvd]; simp)]
      exact found

/-- A layout that does not stop consists of two that do not. -/
theorem andThen_stop {l next : Layout} (h : (l.andThen next).stop = none) :
    l.stop = none ∧ next.stop = none ∧
      (l.andThen next).placements = l.placements ++ next.placements := by
  unfold andThen at h ⊢
  split
  · rename_i f stopped
    simp only [stopped] at h
    cases h
  · rename_i stopped
    simp only [stopped] at h
    exact ⟨stopped, h, rfl⟩

/-- A list that does not stop has room for its first element. -/
theorem ofInits_cons {dims : List Int} {base position : Int} {i : Init} {is : List Init}
    (done : (ofInits dims base position (i :: is)).stop = none) : ¬ count dims ≤ position ∧
      ofInits dims base position (i :: is) = (ofInit dims base position i).1.andThen
        (ofInits dims base (position + (ofInit dims base position i).2) is) := by
  by_cases full : count dims ≤ position
  · cases i <;> simp [ofInits, full, fail, mismatch] at done
  · refine ⟨full, ?_⟩
    cases i <;> simp [ofInits, full]

mutual

/-- A layout that does not stop says where the elements go. -/
theorem placesOf_eq {dims : List Int} (bounds : Bounds dims)
    (small : dims.prod < Meaning.tooMany) (base position : Int) :
    (i : Init) → (ofInit dims base position i).1.stop = none →
      Meaning.placesOf dims base position i =
        some ((ofInit dims base position i).1.placements, (ofInit dims base position i).2)
  | .expr _ e, _ => rfl
  | .list s elems, done => by
    rw [ofInit] at done ⊢
    cases sub : subArray? position dims with
    | error f => simp only [sub, fail] at done; cases done
    | ok found =>
      cases found with
      | none => simp only [sub, mismatch, fail] at done; cases done
      | some ds =>
        cases dims with
        | nil => cases sub
        | cons d rest =>
          have le := bounds.prod_le_cons
          have sub' : subArray?.go position rest = .ok (some ds) := sub
          obtain ⟨same, bounds', small'⟩ := subArray?_go_eq (bounds_cons.mp bounds).2 (by omega) sub'
          simp only [sub] at done ⊢
          have inner := places_eq bounds' small' (base + position) 0 elems done
          rw [Meaning.placesOf, List.tail_cons, same]
          change (Meaning.places ds (base + position) 0 elems).bind _ = _
          rw [inner, Const.count_eq bounds' small']
          rfl
  | .missing _, done => by
    rw [ofInit] at done
    cases done

theorem places_eq {dims : List Int} (bounds : Bounds dims)
    (small : dims.prod < Meaning.tooMany) (base position : Int) :
    (is : List Init) → (ofInits dims base position is).stop = none →
      Meaning.places dims base position is = some (ofInits dims base position is).placements
  | [], _ => rfl
  | i :: is, done => by
    obtain ⟨room, eq⟩ := ofInits_cons done
    rw [Const.count_eq bounds small] at room
    rw [eq] at done ⊢
    obtain ⟨first, later, both⟩ := andThen_stop done
    have head := placesOf_eq bounds small base position i first
    have tail := places_eq bounds small base _ is later
    rw [Meaning.places, both, head]
    simp only [if_neg room]
    change (Meaning.places dims base _ is).bind _ = _
    rw [tail]
    rfl

end

theorem ofArray_eq_ok {dims : List Int} {i : Init} {l : Layout} {size : Nat} (bounds : Bounds dims)
    (small : dims.prod < Meaning.tooMany) (h : ofArray dims i = .ok (l, size))
    (done : l.stop = none) : ∃ span is, i = .list span is ∧
      Meaning.places dims 0 0 is = some l.placements ∧ size = dims.prod.toNat := by
  cases i with
  | expr s e => cases h
  | missing id => cases h
  | list s is =>
    rw [ofArray] at h
    split at h
    · cases h
    · cases h
      exact ⟨s, is, rfl, places_eq bounds small 0 0 is done, by rw [Const.count_eq bounds small]⟩

end Const.Layout

/-! ## Subscripts of constants -/

namespace Const

theorem Value.select_snoc {offset stride : Int} {dims ds : List Int} {is : List Int32} {o n : Int}
    (h : select offset stride dims is = .ok (some (ds, o, n))) (i : Int32) :
    select offset stride dims (is ++ [i]) = select o n ds [i] := by
  induction is generalizing offset stride dims with
  | nil =>
    cases dims <;> (rw [select] at h; cases h; rfl)
  | cons j js ih =>
    cases dims with
    | nil => cases h
    | cons d dims =>
      rw [select] at h
      rw [List.cons_append, select]
      split at h
      · cases h
      · rename_i nonzero
        rw [if_neg nonzero]
        split at h
        · cases h
        · rename_i range
          rw [if_neg range]
          exact ih h

theorem lookup_eq_ok {env : Env} {p : Expr.Place} {indices : Unit → Outcome (List Int32)}
    {v : Int32} (h : lookup env p indices = .ok v) : ∃ c is w, env p.name = .constant c ∧
      indices () = .ok is ∧ c.index is = .ok (some w) ∧ w.dims = [] ∧ w.data.head? = some v := by
  unfold lookup at h
  split at h
  · cases h
  · cases h
  · rename_i c found
    obtain ⟨is, his, h⟩ := Except.bind_eq_ok.mp h
    obtain ⟨w, hw, h⟩ := Except.bind_eq_ok.mp h
    split at h
    · rename_i w
      split at h
      · rename_i scalar
        refine ⟨c, is, w, found, his, hw, List.isEmpty_iff.mp scalar, ?_⟩
        unfold Value.item at h
        rw [if_pos scalar] at h
        split at h
        · rename_i x head
          cases h
          exact head
        · cases h
      · cases h
    · cases h

theorem Value.index_eq_some {v w : Value} {is : List Int32} (h : v.index is = .ok (some w)) :
    ∃ o n, select 0 v.data.length v.dims is = .ok (some (w.dims, o, n)) ∧
      w.data = (v.data.drop o.toNat).take n.toNat := by
  unfold index at h
  split at h
  · cases h
  · obtain ⟨r, hr, h⟩ := Except.bind_eq_ok.mp h
    split at h
    · cases h
    · cases h
      exact ⟨_, _, hr, rfl⟩

/-- A constant that an expression is folded to is the element of a constant array, or a constant
integer. -/
theorem eval_place {env : Env} {e : Expr} {v : Int32} (h : eval env e = .ok v)
    (isPlace : (∃ s name, e = .ident s name) ∨ ∃ s t i, e = .index s t i) :
    ∃ q c is o n, e.place? = some q ∧ env q.name = .constant c ∧ evalIndices env e = .ok is ∧
      Value.select 0 c.data.length c.dims is = .ok (some ([], o, n)) ∧
      ((c.data.drop o.toNat).take n.toNat).head? = some v := by
  have found : ∃ q, e.place? = some q ∧ lookup env q (fun _ => evalIndices env e) = .ok v := by
    rcases isPlace with ⟨s, name, rfl⟩ | ⟨s, t, i, rfl⟩
    · rw [eval] at h
      exact ⟨⟨name, s, []⟩, rfl, h⟩
    · rw [eval] at h
      split at h
      · cases h
      · split at h
        · cases h
        · rename_i q place
          exact ⟨q, place, h⟩
  obtain ⟨q, place, h⟩ := found
  obtain ⟨c, is, w, bound, his, hw, scalar, head⟩ := lookup_eq_ok h
  obtain ⟨o, n, selected, data⟩ := Value.index_eq_some hw
  rw [scalar] at selected
  rw [data] at head
  exact ⟨q, c, is, o, n, place, bound, his, selected, head⟩

end Const

namespace Meaning

variable {W : Type} {k : Context W} {cenv : Const.Env} {env : Env}

/-- The constants that are known while compiling are bound to the same constants. -/
structure Knows (cenv : Const.Env) (env : Env) : Prop where
  constant : ∀ {name v}, cenv name = .constant v →
    env.lookup name = some (.constant v.dims v.data) ∧ Bounds v.dims ∧
      (v.data.length : Int) = v.dims.prod

/-- An expression that is folded has that value when it is run. -/
def ExprAgrees (k : Context W) (cenv : Const.Env) (env : Env) (n : Nat) : Prop :=
  ∀ {e v s r s'}, Const.eval cenv e = .ok v → expr k n env e s = some (r, s') → r = v ∧ s' = s

/-- A place in a constant is the one that its subscripts select. -/
def PlaceAgrees (k : Context W) (cenv : Const.Env) (env : Env) (n : Nat) : Prop :=
  ∀ {e q c is s p s'}, e.place? = some q → cenv q.name = .constant c →
    Const.evalIndices cenv e = .ok is → place k n env e s = some (p, s') →
    s' = s ∧ ∃ ds o, Const.Value.select 0 c.data.length c.dims is = .ok (some (ds, o, ds.prod)) ∧
      p = .storage ds ⟨.table c.data, o⟩ ∧ Bounds ds

theorem select_one {d : Int} {ds : List Int} (bounds : Bounds (d :: ds)) {i : Int32} (o : Int)
    (range : 0 ≤ i.toInt ∧ i.toInt < d) :
    Const.Value.select o (d :: ds).prod (d :: ds) [i] =
      .ok (some (ds, o + i.toInt * ds.prod, ds.prod)) := by
  obtain ⟨⟨positive, -⟩, -⟩ := bounds_cons.mp bounds
  have stride : (d :: ds).prod.tdiv d = ds.prod := by
    rw [List.prod_cons, Int.mul_tdiv_cancel_left _ (by omega)]
  rw [Const.Value.select, if_neg (by omega), if_neg (by omega), stride]
  cases ds <;> rfl

theorem placeAgrees_succ (knows : Knows cenv env) {n : Nat} (exprs : ExprAgrees k cenv env n)
    (places : PlaceAgrees k cenv env n) : PlaceAgrees k cenv env (n + 1) := by
  intro e q c is s p s' isPlace bound indices ran
  cases e with
  | ident span name =>
    cases isPlace
    rw [Const.evalIndices] at indices
    · cases indices
      obtain ⟨found, bounds, length⟩ := knows.constant bound
      rw [place] at ran
      simp only [found] at ran
      obtain ⟨eq, rfl⟩ := ofOption_eq_some.mp ran
      cases eq
      refine ⟨rfl, c.dims, 0, ?_, rfl, bounds⟩
      rw [length]
      cases c.dims <;> rfl
    all_goals simp
  | group span inner =>
    rw [place] at ran
    rw [Const.evalIndices] at indices
    rw [Expr.place?] at isPlace
    exact places isPlace bound indices ran
  | index span target idx =>
    rw [Const.evalIndices] at indices
    obtain ⟨js, hjs, indices₁⟩ := Except.bind_eq_ok.mp indices
    obtain ⟨i, hi, indices₂⟩ := Except.bind_eq_ok.mp indices₁
    cases indices₂
    rw [Expr.place?] at isPlace
    obtain ⟨q', isPlace', rfl⟩ := Option.map_eq_some_iff.mp isPlace
    rw [place] at ran
    obtain ⟨p₁, s₁, ran₁, rest₁⟩ := bind_eq_some.mp ran
    obtain ⟨x, s₂, ran₂, rest₂⟩ := bind_eq_some.mp rest₁
    obtain ⟨sub, rfl⟩ := ofOption_eq_some.mp rest₂
    obtain ⟨rfl, ds, o, selected, rfl, bounds⟩ := places isPlace' bound hjs ran₁
    obtain ⟨rfl, rfl⟩ := exprs hi ran₂
    cases ds with
    | nil => cases sub
    | cons d ds =>
      unfold Place.subscript at sub
      simp only at sub
      split at sub
      · rename_i range
        cases sub
        exact ⟨rfl, ds, _, (Const.Value.select_snoc selected _).trans (select_one bounds o range),
          rfl, (bounds_cons.mp bounds).2⟩
      · cases sub
  | lit | unary | binary | call | bare | missing => cases isPlace

theorem binary_agrees {op : BinaryOp} {x y v r : Int32} (folded : Const.fold op x y = .ok v)
    (ran : binary op x y = some r) : r = v := by
  cases op with
  | logicalAnd | logicalOr | other => cases ran
  | div | mod =>
    rw [Const.fold] at folded
    rw [binary] at ran
    split at folded
    · cases folded
    · rename_i nonzero
      rw [if_neg nonzero] at ran
      cases folded
      cases ran
      rfl
  | add | sub | mul | eq | ne | lt | le | gt | ge =>
    cases folded
    cases ran
    rfl

theorem unary_agrees {op : UnaryOp} {x r : Int32} (ran : unary op x = some r) :
    r = Const.foldUnary op x := by
  cases op <;> cases ran <;> rfl

section Succ

variable {n : Nat} {v r : Int32} {s s' : State W}

/-- What is read at a place in a constant is what the place is folded to. -/
theorem read_agrees {e : Expr} (places : PlaceAgrees k cenv env n) (folded : Const.eval cenv e = .ok v)
    (isPlace : (∃ s name, e = .ident s name) ∨ ∃ s t i, e = .index s t i)
    (ran : (do
      let p ← place k n env e
      ofOption (p.read (← get).memory) : Run W Int32) s = some (r, s')) : r = v ∧ s' = s := by
  obtain ⟨q, c, is, o, m, place, bound, indices, selected, head⟩ := Const.eval_place folded isPlace
  obtain ⟨p, s₁, ran₁, rest₁⟩ := bind_eq_some.mp ran
  obtain ⟨s₂, s₃, ran₂, rest₂⟩ := bind_eq_some.mp rest₁
  cases ran₂
  obtain ⟨read, rfl⟩ := ofOption_eq_some.mp rest₂
  obtain ⟨rfl, ds, o', selected', rfl, -⟩ := places place bound indices ran₁
  rw [selected] at selected'
  cases selected'
  refine ⟨?_, rfl⟩
  change (if o + 0 < 0 then none else c.data[(o + 0).toNat]?) = some r at read
  split at read
  · cases read
  · rw [Int.add_zero] at read
    simp only [List.prod_nil, Int.toNat_one, List.head?_take, List.head?_drop] at head
    rw [read] at head
    simpa using head

variable (exprs : ExprAgrees k cenv env n) {span : Source.Span} {op : BinaryOp} {left right : Expr}
  {x : Int32}

include exprs

/-- The right operand of an operator that computes both. -/
theorem plain_agrees (folded : (Const.eval cenv right >>= fun y => Const.fold op x y) = .ok v)
    (ran : (expr k n env right >>= fun y => ofOption (binary op x y) : Run W Int32) s =
      some (r, s')) : r = v ∧ s' = s := by
  obtain ⟨y, hy, folded₁⟩ := Except.bind_eq_ok.mp folded
  obtain ⟨y', s₁, ran₁, rest₁⟩ := bind_eq_some.mp ran
  obtain ⟨applied, rfl⟩ := ofOption_eq_some.mp rest₁
  obtain ⟨rfl, rfl⟩ := exprs hy ran₁
  exact ⟨binary_agrees folded₁ applied, rfl⟩

/-- The right operand of a logical operator, which the left one decides if `D` holds. -/
theorem logical_agrees {D : Prop} [Decidable D] {short : Int32} {f : Int32 → Int32}
    (first : Const.eval cenv left = .ok x)
    (folded : Const.eval cenv (.binary span op left right) = .ok v)
    (fold : ¬ D → ∀ y, Const.fold op x y = .ok (f y))
    (decided : Const.decided? op x = if D then some short else none)
    (ran : (if D then pure short else expr k n env right >>= fun y => pure (f y) :
      Run W Int32) s = some (r, s')) : r = v ∧ s' = s := by
  rw [Const.eval, first] at folded
  simp only [ok_bind, decided] at folded
  by_cases h : D
  · rw [if_pos h] at folded ran
    cases folded
    obtain ⟨rfl, rfl⟩ := pure_eq_some.mp ran
    exact ⟨rfl, rfl⟩
  · rw [if_neg h] at folded ran
    obtain ⟨y, hy, folded₁⟩ := Except.bind_eq_ok.mp folded
    obtain ⟨y', s₁, ran₁, rest₁⟩ := bind_eq_some.mp ran
    obtain ⟨rfl, rfl⟩ := pure_eq_some.mp rest₁
    obtain ⟨rfl, rfl⟩ := exprs hy ran₁
    rw [fold h] at folded₁
    cases folded₁
    exact ⟨rfl, rfl⟩

end Succ

theorem exprAgrees_succ {n : Nat} (exprs : ExprAgrees k cenv env n)
    (places : PlaceAgrees k cenv env n) : ExprAgrees k cenv env (n + 1) := by
  intro e v s r s' folded ran
  cases e with
  | lit span x =>
    rw [expr] at ran
    obtain ⟨rfl, rfl⟩ := pure_eq_some.mp ran
    rw [Const.eval] at folded
    cases folded
    exact ⟨rfl, rfl⟩
  | group span inner =>
    rw [expr] at ran
    rw [Const.eval] at folded
    exact exprs folded ran
  | ident span name =>
    rw [expr] at ran
    exact read_agrees places folded (.inl ⟨span, name, rfl⟩) ran
  | index span target idx =>
    rw [expr] at ran
    exact read_agrees places folded (.inr ⟨span, target, idx, rfl⟩) ran
  | unary span op x =>
    rw [expr] at ran
    rw [Const.eval] at folded
    obtain ⟨y, hy, folded₁⟩ := Except.bind_eq_ok.mp folded
    cases folded₁
    obtain ⟨z, s₁, ran₁, rest₁⟩ := bind_eq_some.mp ran
    obtain ⟨applied, rfl⟩ := ofOption_eq_some.mp rest₁
    obtain ⟨rfl, rfl⟩ := exprs hy ran₁
    exact ⟨unary_agrees applied, rfl⟩
  | binary span op left right =>
    rw [expr] at ran
    have parts := folded
    rw [Const.eval] at parts
    obtain ⟨x, hx, parts⟩ := Except.bind_eq_ok.mp parts
    obtain ⟨x', s₁, ran₁, rest₁⟩ := bind_eq_some.mp ran
    obtain ⟨rfl, rfl⟩ := exprs hx ran₁
    cases op with
    | logicalAnd =>
      refine logical_agrees exprs (D := x' = 0) hx folded ?_ rfl rest₁
      intro nonzero y
      simp [Const.fold, nonzero, pure, Except.pure, truth, Const.truth]
    | logicalOr =>
      refine logical_agrees exprs (D := x' ≠ 0) hx folded ?_ ?_ rest₁
      · intro zero y
        simp [Const.fold, not_not.mp zero, pure, Except.pure, truth, Const.truth]
      · by_cases zero : x' = 0 <;> simp [Const.decided?, zero]
    | _ => exact plain_agrees exprs parts rest₁
  | call => cases folded
  | bare span kind =>
    rw [Const.eval] at folded
    split at folded <;> cases folded
  | missing => cases folded

theorem agrees (knows : Knows cenv env) (n : Nat) :
    ExprAgrees k cenv env n ∧ PlaceAgrees k cenv env n := by
  induction n with
  | zero => exact ⟨fun _ ran => (by cases ran), fun _ _ _ ran => (by cases ran)⟩
  | succ n ih =>
    exact ⟨exprAgrees_succ ih.1 ih.2, placeAgrees_succ knows ih.1 ih.2⟩

theorem expr_of_eval (knows : Knows cenv env) {n : Nat} {e : Expr} {v r : Int32} {s s' : State W}
    (folded : Const.eval cenv e = .ok v) (ran : expr k n env e s = some (r, s')) :
    r = v ∧ s' = s := (agrees knows n).1 folded ran

/-! ## Definitions -/

theorem bound_eq_eval {e : Expr} {d : Int} (h : Ty.bound cenv e = .ok d) :
    ∃ v, Const.eval cenv e = .ok v ∧ d = v.toInt := by
  unfold Ty.bound at h
  split at h
  · cases h
  · split at h
    · cases h
    · cases h
    · rename_i v folded
      split at h
      · cases h
      · cases h
        exact ⟨v, folded, rfl⟩

theorem bounds_of_mapM (knows : Knows cenv env) {n : Nat} {es : List Expr} {ds ds' : List Int}
    {s s' : State W} (folded : es.mapM (Ty.bound cenv) = .ok ds)
    (ran : bounds k n env es s = some (ds', s')) : ds' = ds ∧ s' = s := by
  have pairs := Outcome.mapM_eq_ok folded
  clear folded
  induction n generalizing es ds ds' s with
  | zero => cases ran
  | succ n ih =>
    cases pairs with
    | nil =>
      rw [bounds] at ran
      obtain ⟨rfl, rfl⟩ := pure_eq_some.mp ran
      exact ⟨rfl, rfl⟩
    | cons head tail =>
      obtain ⟨v, hv, rfl⟩ := bound_eq_eval head
      rw [bounds] at ran
      obtain ⟨r, s₁, ran₁, rest₁⟩ := bind_eq_some.mp ran
      obtain ⟨rfl, rfl⟩ := expr_of_eval knows hv ran₁
      split at rest₁
      · obtain ⟨_, _, none, -⟩ := bind_eq_some.mp rest₁
        cases none
      · obtain ⟨more, s₂, ran₂, rest₂⟩ := bind_eq_some.mp rest₁
        obtain ⟨rfl, rfl⟩ := pure_eq_some.mp rest₂
        obtain ⟨rfl, rfl⟩ := ih ran₂ tail
        exact ⟨rfl, rfl⟩

theorem constant_eq_eval {what : String} {e : Expr} {v : Int32}
    (h : Lower.constant cenv what e = .ok v) : Const.eval cenv e = .ok v := by
  unfold Lower.constant at h
  split at h
  · split at h <;> cases h
  · exact h

theorem fill_of_store (knows : Knows cenv env) {what : String} {n : Nat} {ps : List Placement}
    {out out' out'' : List Int32} {s s' : State W}
    (folded : Const.Layout.store (Lower.constant cenv what) ps out = .ok out')
    (ran : fill k n env ps out s = some (out'', s')) : out'' = out' ∧ s' = s := by
  induction n generalizing ps out s with
  | zero => cases ran
  | succ n ih =>
    cases ps with
    | nil =>
      rw [fill] at ran
      obtain ⟨rfl, rfl⟩ := pure_eq_some.mp ran
      cases folded
      exact ⟨rfl, rfl⟩
    | cons p ps =>
      rw [fill] at ran
      rw [Const.Layout.store] at folded
      obtain ⟨v, hv, folded₁⟩ := Except.bind_eq_ok.mp folded
      obtain ⟨r, s₁, ran₁, rest₁⟩ := bind_eq_some.mp ran
      obtain ⟨rfl, rfl⟩ := expr_of_eval knows (constant_eq_eval hv) ran₁
      split at folded₁
      · exact ih folded₁ rest₁
      · cases folded₁

theorem fill_length {n : Nat} {ps : List Placement} {out out' : List Int32} {s s' : State W}
    (ran : fill k n env ps out s = some (out', s')) : out'.length = out.length := by
  induction n generalizing ps out s with
  | zero => cases ran
  | succ n ih =>
    cases ps with
    | nil =>
      rw [fill] at ran
      obtain ⟨rfl, rfl⟩ := pure_eq_some.mp ran
      rfl
    | cons p ps =>
      rw [fill] at ran
      obtain ⟨r, s₁, ran₁, rest₁⟩ := bind_eq_some.mp ran
      rw [ih rest₁, List.length_set]

/-- A variable has as many elements as its bounds say. -/
theorem elements_length {n : Nat} {dims : List Int} {init : Init} {data : List Int32}
    {s s' : State W} (bounds : Bounds dims)
    (ran : elements k n env dims init s = some (data, s')) : (data.length : Int) = dims.prod := by
  unfold elements at ran
  split at ran
  · obtain ⟨v, s₁, -, rest₁⟩ := bind_eq_some.mp ran
    obtain ⟨rfl, rfl⟩ := pure_eq_some.mp rest₁
    rfl
  · obtain ⟨ps, s₁, -, rest₁⟩ := bind_eq_some.mp ran
    have positive := bounds.prod_pos
    rw [fill_length rest₁, List.length_replicate, Int.toNat_of_nonneg positive.le]
  · cases ran

theorem elements_of_constantInit (knows : Knows cenv env) {what : String} {n : Nat}
    {dims : List Int} {init : Init} {data data' : List Int32} {s s' : State W}
    (bounds : Bounds dims) (small : dims.prod < tooMany)
    (folded : Lower.constantInit cenv what (Ty.arrayOf dims) init = .ok data)
    (ran : elements k n env dims init s = some (data', s')) : data' = data ∧ s' = s := by
  unfold Lower.constantInit at folded
  unfold elements at ran
  split at ran
  · obtain ⟨v, s₁, ran₁, rest₁⟩ := bind_eq_some.mp ran
    obtain ⟨rfl, rfl⟩ := pure_eq_some.mp rest₁
    rw [if_pos (show (Ty.arrayOf []).isScalar = true from rfl)] at folded
    obtain ⟨w, hw, folded₁⟩ := Except.bind_eq_ok.mp folded
    cases folded₁
    obtain ⟨rfl, rfl⟩ := expr_of_eval knows (constant_eq_eval hw) ran₁
    exact ⟨rfl, rfl⟩
  · rename_i m env d ds span is
    obtain ⟨ps, s₁, ran₁, rest₁⟩ := bind_eq_some.mp ran
    obtain ⟨placed, rfl⟩ := ofOption_eq_some.mp ran₁
    rw [if_neg (by simp [Ty.arrayOf, Ty.isScalar]), Ty.dims_arrayOf] at folded
    unfold Const.flatten at folded
    split at folded
    · cases folded
    · rename_i l size layout
      unfold Const.Layout.fill at folded
      obtain ⟨out, hout, folded₁⟩ := Except.bind_eq_ok.mp folded
      split at folded₁
      · cases folded₁
      · rename_i done
        cases folded₁
        obtain ⟨_, _, ⟨⟩, placed', rfl⟩ := Const.Layout.ofArray_eq_ok bounds small layout done
        rw [placed'] at placed
        cases placed
        exact fill_of_store knows hout rest₁
  · cases ran

theorem ofDef_eq_ok {d : Def} {ty : Ty} (h : Ty.ofDef cenv .int d = .ok ty) :
    ∃ dims, d.dims.mapM (Ty.bound cenv) = .ok dims ∧ ty = .arrayOf dims ∧ Bounds dims := by
  unfold Ty.ofDef at h
  obtain ⟨ds, hds, h⟩ := Except.bind_eq_ok.mp h
  cases h
  exact ⟨ds, hds, rfl, Ty.bounds_of_mapM hds⟩

/-- What a definition does first: it finds its bounds. -/
theorem define_dims {n : Nat} {blank : Option Int32} {isConst : Bool} {d : Def} {env' : Env}
    {s s' : State W} (ran : define k (n + 1) blank isConst env d s = some (env', s')) :
    ∃ dims s₁, bounds k n env d.dims s = some (dims, s₁) ∧ dims.prod < tooMany ∧
      bindName k n blank isConst env d.name dims d.init s₁ = some (env', s') := by
  rw [define] at ran
  obtain ⟨dims, s₁, ran₁, rest₁⟩ := bind_eq_some.mp ran
  by_cases large : tooMany ≤ dims.prod
  · rw [if_pos large] at rest₁
    obtain ⟨_, _, none, -⟩ := bind_eq_some.mp rest₁
    cases none
  · rw [if_neg large] at rest₁
    exact ⟨dims, s₁, ran₁, by omega, rest₁⟩

/-- A definition of a constant binds what was found while compiling. -/
theorem define_constant (knows : Knows cenv env) {n : Nat} {blank : Option Int32} {d : Def}
    {ty : Ty} {value : Const.Value} {env' : Env} {s s' : State W}
    (folded : Lower.constantDef cenv d = .ok (ty, value))
    (ran : define k n blank true env d s = some (env', s')) :
    env' = (d.name, .constant value.dims value.data) :: env ∧ s' = s ∧ Bounds value.dims ∧
      (value.data.length : Int) = value.dims.prod := by
  cases n with
  | zero => cases ran
  | succ n =>
    unfold Lower.constantDef at folded
    obtain ⟨t, type, folded₁⟩ := Except.bind_eq_ok.mp folded
    obtain ⟨dims, hdims, rfl, isBounds⟩ := ofDef_eq_ok type
    obtain ⟨dims', s₁, ran₁, small, rest₁⟩ := define_dims ran
    obtain ⟨rfl, rfl⟩ := bounds_of_mapM knows hdims ran₁
    split at folded₁
    · cases folded₁
    · rename_i i init
      rw [init] at rest₁
      obtain ⟨data, hdata, folded₂⟩ := Except.bind_eq_ok.mp folded₁
      cases folded₂
      cases n with
      | zero => cases rest₁
      | succ n =>
        rw [bindName] at rest₁
        obtain ⟨data', s₂, ran₂, rest₂⟩ := bind_eq_some.mp rest₁
        obtain ⟨rfl, rfl⟩ := pure_eq_some.mp rest₂
        have length := elements_length isBounds ran₂
        obtain ⟨rfl, rfl⟩ := elements_of_constantInit knows isBounds small hdata ran₂
        rw [Ty.dims_arrayOf]
        exact ⟨rfl, rfl, isBounds, length⟩

end Meaning
end SysY

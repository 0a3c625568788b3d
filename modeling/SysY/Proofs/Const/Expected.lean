import Mathlib.Data.List.Forall2
import SysY.Lower.Decl
import SysY.Proofs.Syntax.Whole

/-! # Expected failures

A source can be wrong, and it can ask for an array that is too large. It cannot break an invariant
of the compiler, and it cannot break the precondition of an operation that checks its
preconditions. `Failure.Expected` tells these apart. Evaluating constants and laying out
initializers fails for `Plain` reasons only: they are expected, and have to do with one place of the
source. A layout places elements of its initializer only. -/

namespace SysY

/-- The failures that a source can cause. -/
def Failure.Expected : Failure → Prop
  | .error e => e.code ≠ .internalError
  | .fault text => text = none
  | .notConstant | .canceled | .other _ => True

/-- A diagnostic with any other code is expected. -/
theorem Failure.expected_code {e : Diag.Error} (c : Diag.Code) (code : e.code = c)
    (other : c ≠ .internalError) : (Failure.error e).Expected := by
  rw [← code] at other
  exact other

/-- Where the name that a failure is about was defined before. -/
def Failure.previous? : Failure → Option Source.Span
  | .error e => e.previous
  | _ => none

/-- The expected failures that have to do with one place of the source only. -/
def Failure.Plain (f : Failure) : Prop := f.Expected ∧ f.previous? = none

theorem Failure.plain_code {e : Diag.Error} (c : Diag.Code) (code : e.code = c)
    (other : c ≠ .internalError) (alone : e.previous = none) : (Failure.error e).Plain :=
  ⟨expected_code c code other, alone⟩

/-- An operation that fails only in expected ways. -/
structure Outcome.Expected {α : Type} (o : Outcome α) : Prop where
  failure : ∀ {f}, o = .error f → f.Expected

/-- An operation that fails for plain reasons only. -/
structure Outcome.Plain {α : Type} (o : Outcome α) : Prop where
  failure : ∀ {f}, o = .error f → f.Plain

namespace Outcome

theorem expected_ok {α : Type} (a : α) : Outcome.Expected (.ok a) := ⟨fun h => by cases h⟩

theorem Plain.expected {α : Type} {o : Outcome α} (h : o.Plain) : o.Expected :=
  ⟨fun failed => (h.failure failed).1⟩

theorem plain_ok {α : Type} (a : α) : Outcome.Plain (.ok a) := ⟨fun h => by cases h⟩

theorem plain_error {α : Type} {f : Failure} (h : f.Plain) :
    Outcome.Plain (.error f : Outcome α) := ⟨fun e => by cases e; exact h⟩

theorem plain_outOfRange {α : Type} : Outcome.Plain (.outOfRange : Outcome α) :=
  plain_error ⟨rfl, rfl⟩

theorem plain_notConstant {α : Type} : Outcome.Plain (.error .notConstant : Outcome α) :=
  plain_error ⟨trivial, rfl⟩

theorem Plain.bind {α β : Type} {o : Outcome α} {k : α → Outcome β} (h : o.Plain)
    (hk : ∀ a, o = .ok a → (k a).Plain) : Outcome.Plain (o >>= k) := by
  cases o with
  | error f => exact plain_error (h.failure rfl)
  | ok a => exact hk a rfl

theorem plain_mapM {α β : Type} {g : α → Outcome β} (h : ∀ a, (g a).Plain) (xs : List α) :
    Outcome.Plain (xs.mapM g) := by
  induction xs with
  | nil => exact plain_ok _
  | cons x xs ih =>
    rw [List.mapM_cons]
    exact (h x).bind fun _ _ => ih.bind fun _ _ => plain_ok _

theorem mapM_eq_ok {α β : Type} {g : α → Outcome β} {xs : List α} {ys : List β}
    (h : xs.mapM g = .ok ys) : List.Forall₂ (fun x y => g x = .ok y) xs ys := by
  induction xs generalizing ys with
  | nil => cases h; exact .nil
  | cons x xs ih =>
    rw [List.mapM_cons] at h
    obtain ⟨y, hy, h⟩ := Except.bind_eq_ok.mp h
    obtain ⟨zs, hzs, h⟩ := Except.bind_eq_ok.mp h
    cases h
    exact .cons hy (ih hzs)

end Outcome

open Outcome

namespace Const

theorem Value.item_plain {v : Value} (scalar : v.isScalar = true) : v.item.Plain := by
  unfold Value.item
  rw [if_pos scalar]
  split
  · exact plain_ok _
  · exact plain_outOfRange

theorem Value.select_plain (offset stride : Int) (dims : List Int) (indices : List Int32) :
    (Value.select offset stride dims indices).Plain := by
  fun_induction Value.select offset stride dims indices with
  | case1 => exact plain_ok _
  | case2 => exact plain_ok _
  | case3 => exact plain_outOfRange
  | case4 => exact plain_ok _
  | case5 _ _ _ _ _ _ _ _ ih => exact ih

theorem Value.index_plain (v : Value) (indices : List Int32) : (v.index indices).Plain := by
  unfold Value.index
  split
  · exact plain_ok _
  · refine (Value.select_plain ..).bind fun r _ => ?_
    split <;> exact plain_ok _

theorem fold_plain (op : BinaryOp) (x y : Int32) : (fold op x y).Plain := by
  cases op <;> simp only [fold] <;> (try split) <;>
    first | exact plain_ok _ | exact plain_notConstant

theorem lookup_plain {env : Env} {p : Expr.Place} {indices : Unit → Outcome (List Int32)}
    (h : (indices ()).Plain) : (lookup env p indices).Plain := by
  unfold lookup
  split
  · exact plain_error (Failure.plain_code .undefinedIdentifier rfl (by decide) rfl)
  · exact plain_notConstant
  · refine h.bind fun is _ => (Value.index_plain ..).bind fun w _ => ?_
    split
    · split
      · exact Value.item_plain ‹_›
      · exact plain_notConstant
    · exact plain_notConstant

mutual

/-- Evaluating a constant fails for plain reasons only. -/
theorem eval_plain (env : Env) : (e : Expr) → (eval env e).Plain
  | .lit .. => by rw [eval]; exact plain_ok _
  | .group _ inner => by rw [eval]; exact eval_plain env inner
  | .ident .. => by rw [eval]; exact lookup_plain (plain_ok _)
  | .index s target idx => by
    rw [eval]
    split
    · exact plain_outOfRange
    · split
      · exact plain_notConstant
      · refine lookup_plain ?_
        exact (evalIndices_plain env target).bind fun _ _ =>
          (eval_plain env idx).bind fun _ _ => plain_ok _
  | .call .. => by rw [eval]; exact plain_notConstant
  | .unary _ op e => by rw [eval]; exact (eval_plain env e).bind fun _ _ => plain_ok _
  | .binary _ op l r => by
    rw [eval]
    refine (eval_plain env l).bind fun x _ => ?_
    split
    · exact plain_ok _
    · exact (eval_plain env r).bind fun y _ => fold_plain op x y
  | .bare _ kind => by
    rw [eval]
    split
    · exact plain_notConstant
    · exact plain_outOfRange
  | .missing _ => by rw [eval]; exact plain_notConstant

/-- Evaluating constant subscripts fails for plain reasons only. -/
theorem evalIndices_plain (env : Env) : (e : Expr) → (evalIndices env e).Plain
  | .group _ inner => by rw [evalIndices]; exact evalIndices_plain env inner
  | .index _ target idx => by
    rw [evalIndices]
    exact (evalIndices_plain env target).bind fun _ _ =>
      (eval_plain env idx).bind fun _ _ => plain_ok _
  | .lit .. | .ident .. | .call .. | .unary .. | .binary .. | .bare .. | .missing _ => by
    rw [evalIndices]
    · exact plain_ok _
    all_goals simp

end

/-! ## Layouts -/

namespace Layout

/-- A layout that ends early does so for a plain reason. -/
structure StopPlain (l : Layout) : Prop where
  failure : ∀ {f}, l.stop = some f → f.Plain

theorem stopPlain_fail {f : Failure} (h : f.Plain) : (fail f).StopPlain :=
  ⟨fun e => by cases e; exact h⟩

theorem stopPlain_none {ps : List Placement} : StopPlain { placements := ps } :=
  ⟨fun e => by cases e⟩

theorem StopPlain.andThen {l l' : Layout} (h : l.StopPlain) (h' : l'.StopPlain) :
    (l.andThen l').StopPlain := by
  unfold Layout.andThen
  split
  · exact h
  · exact ⟨h'.failure⟩

theorem subArray?_go_plain (position : Int) (dims : List Int) :
    (subArray?.go position dims).Plain := by
  fun_induction subArray?.go position dims with
  | case1 => exact plain_ok _
  | case2 => exact plain_outOfRange
  | case3 => exact plain_ok _
  | case4 _ _ _ _ ih => exact ih

theorem subArray?_plain (position : Int) (dims : List Int) :
    (subArray? position dims).Plain := by
  cases dims with
  | nil => exact plain_ok _
  | cons d ds => exact subArray?_go_plain position ds

mutual

theorem ofInit_stopPlain (dims : List Int) (base position : Int) :
    (i : Init) → (ofInit dims base position i).1.StopPlain
  | .expr _ e => by
    rw [ofInit]
    exact stopPlain_none
  | .list s elems => by
    rw [ofInit]
    cases hsub : subArray? position dims with
    | error f => exact stopPlain_fail ((subArray?_plain _ _).failure hsub)
    | ok sub =>
      cases sub with
      | none => exact stopPlain_fail (Failure.plain_code .typeMismatch rfl (by decide) rfl)
      | some sub => exact ofInits_stopPlain sub (base + position) 0 elems
  | .missing _ => by
    rw [ofInit]
    exact stopPlain_fail ⟨rfl, rfl⟩

theorem ofInits_stopPlain (dims : List Int) (base position : Int) :
    (is : List Init) → (ofInits dims base position is).StopPlain
  | [] => by
    rw [ofInits]
    exact stopPlain_none
  | i :: is => by
    unfold ofInits
    split
    · split
      · exact stopPlain_fail ⟨rfl, rfl⟩
      · exact stopPlain_fail (Failure.plain_code .typeMismatch rfl (by decide) rfl)
    · exact (ofInit_stopPlain dims base position i).andThen (ofInits_stopPlain ..)

end

theorem ofArray_plain (dims : List Int) (i : Init) : (ofArray dims i).Plain := by
  unfold ofArray
  split
  · split
    · exact plain_outOfRange
    · exact plain_ok _
  · exact plain_error (Failure.plain_code .typeMismatch rfl (by decide) rfl)
  · exact plain_outOfRange

theorem ofArray_stopPlain {dims : List Int} {i : Init} {l : Layout} {n : Nat}
    (h : ofArray dims i = .ok (l, n)) : l.StopPlain := by
  unfold ofArray at h
  split at h
  · split at h
    · cases h
    · cases h
      exact ofInits_stopPlain ..
  · cases h
  · cases h

/-- The elements of a layout are among some expressions. -/
def From (l : Layout) (es : List Expr) : Prop := ∀ p ∈ l.placements, p.value ∈ es

theorem from_fail (f : Failure) (es : List Expr) : (fail f).From es := nofun

theorem From.andThen {l l' : Layout} {es es' : List Expr} (h : l.From es) (h' : l'.From es') :
    (l.andThen l').From (es ++ es') := by
  unfold Layout.andThen
  split
  · exact fun p mem => List.mem_append_left _ (h p mem)
  · intro p mem
    rcases List.mem_append.mp mem with mem | mem
    · exact List.mem_append_left _ (h p mem)
    · exact List.mem_append_right _ (h' p mem)

mutual

theorem ofInit_from (dims : List Int) (base position : Int) :
    (i : Init) → (ofInit dims base position i).1.From i.values
  | .expr _ e => by
    rw [ofInit]
    intro p mem
    obtain rfl := List.mem_singleton.mp mem
    exact List.mem_singleton_self e
  | .list s elems => by
    rw [ofInit]
    split
    · exact from_fail _ _
    · exact from_fail _ _
    · exact ofInits_from _ _ _ elems
  | .missing _ => from_fail _ _

theorem ofInits_from (dims : List Int) (base position : Int) :
    (is : List Init) → (ofInits dims base position is).From (Init.allValues is)
  | [] => by
    rw [ofInits]
    exact nofun
  | i :: is => by
    unfold ofInits
    split
    · split
      · exact from_fail _ _
      · exact from_fail _ _
    · exact (ofInit_from dims base position i).andThen (ofInits_from _ _ _ is)

end

/-- A layout places elements of the initializer only. -/
theorem ofArray_from {dims : List Int} {i : Init} {l : Layout} {n : Nat}
    (h : ofArray dims i = .ok (l, n)) : l.From i.values := by
  unfold ofArray at h
  split at h
  · split at h
    · cases h
    · cases h
      exact ofInits_from _ _ _ _
  · cases h
  · cases h

/-- All elements of a layout are whole. -/
def Whole (l : Layout) : Prop := ∀ p ∈ l.placements, p.value.Whole

theorem ofArray_whole {dims : List Int} {i : Init} {l : Layout} {n : Nat} (whole : i.Whole)
    (h : ofArray dims i = .ok (l, n)) : l.Whole :=
  fun p mem => whole.values p.value (ofArray_from h p mem)

theorem store_plain {α : Type} {elem : Expr → Outcome α} (h : ∀ e, (elem e).Plain)
    (ps : List Placement) (out : List α) : (store elem ps out).Plain := by
  induction ps generalizing out with
  | nil => exact plain_ok _
  | cons p ps ih =>
    rw [store]
    refine (h _).bind fun v _ => ?_
    split
    · exact ih _
    · exact plain_outOfRange

end Layout

theorem flatten_plain {α : Type} (zero : α) {elem : Expr → Outcome α}
    (h : ∀ e, (elem e).Plain) (dims : List Int) (i : Init) :
    Outcome.Plain (flatten zero elem dims i) := by
  unfold flatten
  split
  · exact plain_error ((Layout.ofArray_plain ..).failure ‹_›)
  · unfold Layout.fill
    refine (Layout.store_plain h _ _).bind fun out _ => ?_
    split
    · exact plain_error ((Layout.ofArray_stopPlain ‹_›).failure ‹_›)
    · exact plain_ok _

end Const

/-! ## Types and constant definitions -/

namespace Ty

theorem bound_plain (env : Const.Env) (e : Expr) : (bound env e).Plain := by
  unfold bound
  split
  · exact plain_outOfRange
  · split
    · exact plain_error (Failure.plain_code .constantRequired rfl (by decide) rfl)
    · exact plain_error ((Const.eval_plain ..).failure ‹_›)
    · split
      · exact plain_error (Failure.plain_code .typeMismatch rfl (by decide) rfl)
      · exact plain_ok _

theorem ofDef_plain (env : Const.Env) (type : BaseType) (d : Def) :
    (ofDef env type d).Plain := by
  unfold ofDef
  split
  · split
    · exact plain_ok _
    · exact plain_error (Failure.plain_code .voidVariable rfl (by decide) rfl)
  · exact (plain_mapM (bound_plain env) _).bind fun _ _ => plain_ok _

theorem ofParam_plain (env : Const.Env) (p : Param) : (ofParam env p).Plain := by
  unfold ofParam
  split
  · exact plain_error (Failure.plain_code .voidVariable rfl (by decide) rfl)
  · exact (plain_mapM (bound_plain env) _).bind fun _ _ => plain_ok _

end Ty

namespace Lower

theorem constant_plain (env : Const.Env) (what : String) (e : Expr) :
    (constant env what e).Plain := by
  unfold constant
  split
  · split
    · exact plain_error (Failure.plain_code .constantRequired rfl (by decide) rfl)
    · exact plain_outOfRange
  · exact Const.eval_plain env e

theorem constantInit_plain (env : Const.Env) (what : String) (ty : Ty) (i : Init) :
    (constantInit env what ty i).Plain := by
  unfold constantInit
  split
  · split
    · exact plain_outOfRange
    · exact plain_error (Failure.plain_code .typeMismatch rfl (by decide) rfl)
    · exact (constant_plain env what _).bind fun _ _ => plain_ok _
  · exact Const.flatten_plain _ (constant_plain env what) _ _

theorem constantDef_plain (env : Const.Env) (d : Def) : (constantDef env d).Plain := by
  unfold constantDef
  refine (Ty.ofDef_plain env .int d).bind fun ty _ => ?_
  split
  · exact plain_error (Failure.plain_code .initializerRequired rfl (by decide) rfl)
  · exact (constantInit_plain ..).bind fun _ _ => plain_ok _

end Lower
end SysY

import SysY.Proofs.Const.Expected
import SysY.Proofs.Syntax.Only

/-! # Constants depend on the names in a tree

Environments that agree on all names in a tree give it the same value. So what else is bound does
not matter to constants, to the types of declarations, and to initializers. -/

namespace SysY

variable {P : String → Prop}

mutual

theorem Init.Only.values : {i : Init} → i.Only P → ∀ e ∈ i.values, e.Only P
  | .expr _ _, only => List.forall_mem_singleton.mpr only
  | .list _ elems, only => (show Init.AllOnly P elems from only).values
  | .missing _, _ => nofun

theorem Init.AllOnly.values : {is : List Init} → Init.AllOnly P is →
    ∀ e ∈ Init.allValues is, e.Only P
  | [], _ => nofun
  | _ :: _, only => List.forall_mem_append.mpr ⟨only.1.values, only.2.values⟩

end

namespace Const

/-- Environments that bind all names with a property in the same way. -/
def Env.Agree (P : String → Prop) (env env' : Env) : Prop := ∀ n, P n → env' n = env n

variable {env env' : Env}

theorem lookup_agree (agree : env.Agree P env') {p : Expr.Place} (name : P p.name)
    {indices indices' : Unit → Outcome (List Int32)} (same : indices' () = indices ()) :
    lookup env' p indices' = lookup env p indices := by
  rw [lookup, lookup, agree p.name name, same]

mutual

theorem eval_agree (agree : env.Agree P env') : (e : Expr) → e.Only P → eval env' e = eval env e
  | .lit .., _ | .call .., _ | .bare .., _ | .missing _, _ => rfl
  | .group _ inner, only => eval_agree agree inner only
  | .ident s name, only => lookup_agree agree (p := ⟨name, s, []⟩) only rfl
  | .index s target idx, only => by
    rw [eval, eval]
    split
    · rfl
    · cases found : (Expr.index s target idx).place? with
      | none => rfl
      | some p =>
        refine lookup_agree agree (only.place found) ?_
        rw [evalIndices_agree agree target only.1, eval_agree agree idx only.2]
  | .unary _ op e, only => by rw [eval, eval, eval_agree agree e only]
  | .binary _ op l r, only => by
    rw [eval, eval, eval_agree agree l only.1, eval_agree agree r only.2]

theorem evalIndices_agree (agree : env.Agree P env') :
    (e : Expr) → e.Only P → evalIndices env' e = evalIndices env e
  | .group _ inner, only => evalIndices_agree agree inner only
  | .index _ target idx, only => by
    rw [evalIndices, evalIndices, evalIndices_agree agree target only.1,
      eval_agree agree idx only.2]
  | .lit .., _ | .ident .., _ | .call .., _ | .unary .., _ | .binary .., _ | .bare .., _
  | .missing _, _ => rfl

end

theorem Layout.store_agree {α : Type} {elem elem' : Expr → Outcome α} (ps : List Placement)
    (same : ∀ p ∈ ps, elem' p.value = elem p.value) (out : List α) :
    store elem' ps out = store elem ps out := by
  induction ps generalizing out with
  | nil => rfl
  | cons p ps ih =>
    obtain ⟨first, rest⟩ := List.forall_mem_cons.mp same
    simp only [store, first, ih rest]

theorem flatten_agree {α : Type} (zero : α) {elem elem' : Expr → Outcome α} (dims : List Int)
    {i : Init} (same : ∀ e ∈ i.values, elem' e = elem e) :
    flatten zero elem' dims i = flatten zero elem dims i := by
  unfold flatten
  cases layout : Layout.ofArray dims i with
  | error f => rfl
  | ok r =>
    have placed : ∀ p ∈ r.1.placements, elem' p.value = elem p.value := fun p mem =>
      same p.value (Layout.ofArray_from layout p mem)
    simp only [Layout.fill, Layout.store_agree r.1.placements placed]

end Const

theorem Outcome.mapM_agree {α β : Type} {f f' : α → Outcome β} (as : List α)
    (same : ∀ a ∈ as, f' a = f a) : as.mapM f' = as.mapM f := by
  induction as with
  | nil => rfl
  | cons a as ih =>
    obtain ⟨first, rest⟩ := List.forall_mem_cons.mp same
    rw [List.mapM_cons, List.mapM_cons, first, ih rest]

namespace Ty

variable {env env' : Const.Env} (agree : env.Agree P env')

include agree

theorem bound_agree {e : Expr} (only : e.Only P) : bound env' e = bound env e := by
  rw [bound, bound, Const.eval_agree agree e only]

theorem bounds_agree {es : List Expr} (only : ∀ e ∈ es, e.Only P) :
    es.mapM (bound env') = es.mapM (bound env) :=
  Outcome.mapM_agree es fun e mem => bound_agree agree (only e mem)

theorem ofDef_agree (type : BaseType) {d : Def} (only : d.Only P) :
    ofDef env' type d = ofDef env type d := by
  cases type with
  | void => rfl
  | int => rw [ofDef, ofDef, bounds_agree agree only.dims]

theorem ofParam_agree {p : Param} (only : p.Only P) : ofParam env' p = ofParam env p := by
  unfold ofParam
  cases p.type with
  | void => rfl
  | int => rw [bounds_agree agree only.dims]

theorem ofParams_agree {ps : List Param} (only : ∀ p ∈ ps, p.Only P) :
    ps.mapM (ofParam env') = ps.mapM (ofParam env) :=
  Outcome.mapM_agree ps fun p mem => ofParam_agree agree (only p mem)

end Ty

namespace Lower

variable {env env' : Const.Env} (agree : env.Agree P env')

include agree

theorem constant_agree (what : String) {e : Expr} (only : e.Only P) :
    constant env' what e = constant env what e := by
  rw [constant, constant, Const.eval_agree agree e only]

theorem constantInit_agree (what : String) (ty : Ty) {i : Init} (only : i.Only P) :
    constantInit env' what ty i = constantInit env what ty i := by
  have same : ∀ e ∈ i.values, constant env' what e = constant env what e := fun e mem =>
    constant_agree agree what (only.values e mem)
  unfold constantInit
  split
  · cases i with
    | missing | list => rfl
    | expr _ e => simp only [same e (List.mem_singleton_self e)]
  · exact Const.flatten_agree 0 ty.dims same

theorem constantDef_agree {d : Def} (only : d.Only P) :
    constantDef env' d = constantDef env d := by
  rw [constantDef, constantDef, Ty.ofDef_agree agree .int only]
  cases init : d.init with
  | none => rfl
  | some i => simp only [constantInit_agree agree _ _ (only.init i init)]

end Lower
end SysY

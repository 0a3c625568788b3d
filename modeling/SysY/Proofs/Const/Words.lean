import SysY.Const.Layout
import SysY.Proofs.Syntax.Blank
import SysY.Ty.Resolve

/-! # Only words count to constants

Constants, bounds and array layouts are computed from trees. With the spans of a tree erased they
come out the same, and where they do not come out, the failure is the same but for its place. -/

namespace SysY

namespace Const

/-! ## Evaluation -/

theorem lookup_blank (env : Env) (p : Expr.Place) {indices indices' : Unit → Outcome (List Int32)}
    (same : Outcome.Same Eq (indices ()) (indices' ())) :
    Outcome.Same Eq (lookup env p indices) (lookup env p.blank indices') := by
  unfold lookup
  rw [show p.blank.name = p.name from rfl]
  cases env p.name with
  | unbound => exact .error rfl
  | «variable» => exact .error rfl
  | constant v => exact same.next fun is => .rfl _

mutual

theorem eval_blank (env : Env) : (e : Expr) → Outcome.Same Eq (eval env e) (eval env e.blank)
  | .lit _ v => .ok rfl
  | .group _ inner => eval_blank env inner
  | .ident s name => lookup_blank env ⟨name, s, []⟩ (.ok rfl)
  | .index s target idx => by
    have broken := Expr.spineBroken_blank (.index s target idx)
    have place := Expr.place?_blank (.index s target idx)
    rw [Expr.blank] at broken place ⊢
    rw [eval, eval, broken, place]
    split
    · exact .error rfl
    · cases (Expr.index s target idx).place? with
      | none => exact .error rfl
      | some p =>
        refine lookup_blank env p ?_
        exact (evalIndices_blank env target).next fun _ => (eval_blank env idx).next fun _ => .rfl _
  | .call .. => .error rfl
  | .unary _ op e => (eval_blank env e).next fun v => .rfl _
  | .binary _ op l r => by
    rw [Expr.blank, eval, eval]
    refine (eval_blank env l).next fun x => ?_
    split
    · exact .rfl _
    · exact (eval_blank env r).next fun y => .rfl _
  | .bare _ kind => .rfl _
  | .missing _ => .error rfl

theorem evalIndices_blank (env : Env) :
    (e : Expr) → Outcome.Same Eq (evalIndices env e) (evalIndices env e.blank)
  | .group _ inner => evalIndices_blank env inner
  | .index _ target idx =>
    (evalIndices_blank env target).next fun _ => (eval_blank env idx).next fun _ => .rfl _
  | .lit .. | .ident .. | .call .. | .unary .. | .binary .. | .bare .. | .missing .. => .ok rfl

end

/-! ## Layouts -/

/-- A placement without the spans of its element. -/
def Placement.blank (p : Placement) : Placement := { p with value := p.value.blank }

namespace Layout

/-- A layout without spans. -/
def blank (l : Layout) : Layout :=
  { placements := l.placements.map Placement.blank, stop := l.stop.map Failure.blank }

theorem blank_andThen {l l' next next' : Layout} (first : l.blank = l'.blank)
    (rest : next.blank = next'.blank) : (l.andThen next).blank = (l'.andThen next').blank := by
  obtain ⟨placed, stop⟩ := l
  obtain ⟨placed', stop'⟩ := l'
  simp only [blank, mk.injEq] at first rest
  unfold andThen
  cases stop with
  | none =>
    obtain rfl : stop' = none := Option.map_eq_none_iff.mp first.2.symm
    simp only [blank, List.map_append, first.1, rest.1, rest.2]
  | some f =>
    obtain ⟨f', rfl, same⟩ := Option.map_eq_some_iff.mp first.2.symm
    simp only [blank, first.1, Option.map_some, same]

mutual

theorem ofInit_blank (dims : List Int) (base position : Int) : (i : Init) →
    (ofInit dims base position i.blank).1.blank = (ofInit dims base position i).1.blank ∧
      (ofInit dims base position i.blank).2 = (ofInit dims base position i).2
  | .expr _ e => ⟨congrArg (fun e => ({ placements := [⟨base + position, e⟩] } : Layout))
      e.blank_blank, rfl⟩
  | .list s elems => by
    rw [Init.blank, ofInit, ofInit]
    split
    · exact ⟨rfl, rfl⟩
    · exact ⟨rfl, rfl⟩
    · exact ⟨ofInits_blank _ _ _ elems, rfl⟩
  | .missing _ => ⟨rfl, rfl⟩

theorem ofInits_blank (dims : List Int) (base position : Int) : (is : List Init) →
    (ofInits dims base position (Init.blankAll is)).blank = (ofInits dims base position is).blank
  | [] => rfl
  | i :: is => by
    obtain ⟨layout, taken⟩ := ofInit_blank dims base position i
    rw [Init.blankAll, ofInits.eq_def, ofInits.eq_def dims base position (i :: is)]
    dsimp only
    split
    · cases i <;> rfl
    · rw [taken]
      exact blank_andThen layout (ofInits_blank dims base _ is)

end

/-- Initializers are laid out in the same way without their spans. -/
theorem ofArray_blank (dims : List Int) (i : Init) :
    Outcome.Same (fun r r' => r.1.blank = r'.1.blank ∧ r.2 = r'.2) (ofArray dims i)
      (ofArray dims i.blank) := by
  cases i with
  | expr => exact .error rfl
  | list s elems =>
    rw [Init.blank]
    unfold ofArray
    dsimp only
    split
    · exact .error rfl
    · exact .ok ⟨(ofInits_blank dims 0 0 elems).symm, rfl⟩
  | missing => exact .error rfl

end Layout

/-! ## Elements -/

/-- What it means in a monad that two operations run in parallel. -/
structure Concurrence (m : Type → Type) [Monad m] [MonadExceptOf Failure m] where
  rel : {α : Type} → m α → m α → Prop
  pure : ∀ {α : Type} (a : α), rel (Pure.pure a) (Pure.pure a)
  bind : ∀ {α β : Type} {x y : m α} {f g : α → m β}, rel x y → (∀ a, rel (f a) (g a)) →
    rel (x >>= f) (y >>= g)
  throw : ∀ {α : Type} {e f : Failure}, e.blank = f.blank → rel (throw e : m α) (throw f)

/-- Operations that can fail, as a monad in which operations run in parallel. -/
def Concurrence.outcome : Concurrence Outcome where
  rel := Outcome.Same Eq
  pure := fun a => .rfl (.ok a)
  bind := .next
  throw := fun same => Except.Parallel.error same

section Fill

variable {m : Type → Type} [Monad m] [MonadExceptOf Failure m] {α : Type} {elem : Expr → m α}
  (c : Concurrence m) (elems : ∀ {e e'}, e.blank = e'.blank → c.rel (elem e) (elem e'))

include elems in
theorem Layout.store_same {ps ps' : List Placement}
    (same : ps.map Placement.blank = ps'.map Placement.blank) (out : List α) :
    c.rel (store elem ps out) (store elem ps' out) := by
  induction ps generalizing ps' out with
  | nil =>
    obtain rfl := List.map_eq_nil_iff.mp same.symm
    exact c.pure out
  | cons p ps ih =>
    obtain ⟨p', ps', rfl, place, more⟩ := List.map_eq_cons_iff.mp same.symm
    obtain ⟨position, value⟩ := Placement.mk.inj place
    unfold store
    refine c.bind (elems value.symm) fun v => ?_
    rw [position]
    split
    · exact ih more.symm _
    · exact c.throw rfl

include elems in
/-- Initializers have the same elements without their spans. -/
theorem flatten_blank (zero : α) (dims : List Int) (i : Init) :
    c.rel (flatten zero elem dims i) (flatten zero elem dims i.blank) := by
  unfold flatten
  have layouts := Layout.ofArray_blank dims i
  generalize Layout.ofArray dims i = x, Layout.ofArray dims i.blank = x' at layouts
  cases layouts with
  | error related => exact c.throw related
  | @ok r r' related =>
    obtain ⟨⟨ps, stop⟩, size⟩ := r
    obtain ⟨⟨ps', stop'⟩, size'⟩ := r'
    obtain ⟨layout, rfl⟩ := related
    obtain ⟨places, stops⟩ := Layout.mk.inj layout
    refine c.bind (Layout.store_same c elems places _) fun out => ?_
    dsimp only
    cases stop with
    | none =>
      obtain rfl : stop' = none := Option.map_eq_none_iff.mp stops.symm
      exact c.pure out
    | some f =>
      obtain ⟨f', rfl, failures⟩ := Option.map_eq_some_iff.mp stops.symm
      exact c.throw failures.symm

end Fill

end Const

/-! ## Types -/

namespace Ty

theorem bound_blank (env : Const.Env) (e : Expr) :
    Outcome.Same Eq (bound env e) (bound env e.blank) := by
  unfold bound
  rw [Expr.span?_blank]
  cases e.span? with
  | none => exact .error rfl
  | some s =>
    have value := Const.eval_blank env e
    generalize Const.eval env e = x, Const.eval env e.blank = x' at value
    cases value with
    | ok related =>
      subst related
      dsimp only [Option.map_some]
      split
      · exact .error rfl
      · exact .ok rfl
    | @error f f' related =>
      rcases Failure.cases_of_blank related with rfl | ⟨d, d', rfl, rfl⟩
      · cases f <;> exact .error rfl
      · exact .error related

theorem ofDef_blank (env : Const.Env) (type : BaseType) (d : Def) :
    Outcome.Same Eq (ofDef env type d) (ofDef env type d.blank) := by
  cases type with
  | void =>
    unfold ofDef
    rw [show d.blank.dims = d.dims.map Expr.blank from rfl, List.isEmpty_map]
    dsimp only
    split
    · exact .ok rfl
    · exact .error rfl
  | int => exact (Outcome.Same.mapM (bound_blank env) d.dims).next fun _ => .rfl _

theorem ofParam_blank (env : Const.Env) (p : Param) :
    Outcome.Same Eq (ofParam env p) (ofParam env p.blank) := by
  unfold ofParam
  rw [show p.blank.type = p.type from rfl]
  cases p.type with
  | void => exact .error rfl
  | int => exact (Outcome.Same.mapM (bound_blank env) p.dims).next fun _ => .rfl _

end Ty
end SysY

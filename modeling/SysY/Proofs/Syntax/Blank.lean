import SysY.Diag.Diagnostic
import SysY.Syntax

/-! # Trees without spans

What is left of trees and errors when all spans are erased. Two trees that agree in what is left
were written in the same words, and two failures that do are about the same thing at two places. -/

namespace SysY

/-! ## Parallel operations -/

/-- Two operations that can fail and run in parallel: both succeed, with results that are related,
or both fail, with errors that are. -/
inductive Except.Parallel {ε δ α β : Type} (E : ε → δ → Prop) (R : α → β → Prop) :
    Except ε α → Except δ β → Prop
  | ok {a : α} {b : β} (related : R a b) : Parallel E R (.ok a) (.ok b)
  | error {e : ε} {f : δ} (related : E e f) : Parallel E R (.error e) (.error f)

section Parallel

variable {ε δ α β α' β' : Type} {E : ε → δ → Prop} {R : α → β → Prop} {S : α' → β' → Prop}
  {x : Except ε α} {y : Except δ β} {f : α → Except ε α'} {g : β → Except δ β'}

theorem Except.Parallel.bind (first : Parallel E R x y)
    (next : ∀ a b, R a b → Parallel E S (f a) (g b)) : Parallel E S (x >>= f) (y >>= g) := by
  cases first with
  | ok related => exact next _ _ related
  | error related => exact .error related

end Parallel

/-! ## Errors -/

/-- An error without its places. -/
def Diag.Error.blank (e : Diag.Error) : Diag.Error :=
  { e with span := {}, previous := e.previous.map fun _ => {} }

/-- A failure without its places. -/
def Failure.blank : Failure → Failure
  | .error e => .error e.blank
  | f => f

section Errors

variable {e f : Failure}

theorem Failure.code_of_blank (same : e.blank = f.blank) : e.code = f.code := by
  have code : ∀ g : Failure, g.blank.code = g.code := fun g => by cases g <;> rfl
  rw [← code e, same, code]

/-- A failure that differs in its place only has the same message for its reader. -/
theorem Failure.message_of_blank (same : e.blank = f.blank) :
    (Diag.Diagnostic.ofFailure e).message = (Diag.Diagnostic.ofFailure f).message := by
  have message : ∀ g : Failure, (Diag.Diagnostic.ofFailure g.blank).message =
      (Diag.Diagnostic.ofFailure g).message := fun g => by cases g <;> rfl
  rw [← message e, same, message]

/-- Failures that differ in their places only are diagnostics, or they do not differ. -/
theorem Failure.cases_of_blank (same : e.blank = f.blank) :
    e = f ∨ ∃ d d', e = .error d ∧ f = .error d' := by
  cases e with
  | error d =>
    cases f with
    | error d' => exact .inr ⟨d, d', rfl, rfl⟩
    | _ => cases same
  | _ =>
    cases f with
    | error d' => cases same
    | _ => cases same <;> exact .inl rfl

end Errors

/-- Outcomes of parallel operations: failures may differ in their places. -/
abbrev Outcome.Same {α β : Type} (R : α → β → Prop) (x : Outcome α) (y : Outcome β) : Prop :=
  Except.Parallel (fun e f => e.blank = f.blank) R x y

namespace Outcome.Same

variable {α β : Type} {x y z : Outcome α}

theorem rfl (x : Outcome α) : Outcome.Same Eq x x := by
  cases x with
  | ok a => exact .ok (.refl a)
  | error e => exact .error (.refl _)

theorem cases (h : Outcome.Same Eq x y) :
    (∃ a, x = .ok a ∧ y = .ok a) ∨ ∃ e f, x = .error e ∧ y = .error f ∧ e.blank = f.blank := by
  cases h with
  | @ok a b related => exact .inl ⟨a, .refl _, related ▸ .refl _⟩
  | @error e f related => exact .inr ⟨e, f, .refl _, .refl _, related⟩

theorem symm (h : Outcome.Same Eq x y) : Outcome.Same Eq y x := by
  cases h with
  | ok related => exact .ok related.symm
  | error related => exact .error related.symm

theorem trans (h : Outcome.Same Eq x y) (h' : Outcome.Same Eq y z) : Outcome.Same Eq x z := by
  cases h with
  | ok related =>
    cases h' with
    | ok related' => exact .ok (related.trans related')
  | error related =>
    cases h' with
    | error related' => exact .error (related.trans related')

/-- One operation after another that gives the same result. -/
theorem next {R : β → β → Prop} {f g : α → Outcome β} (first : Outcome.Same Eq x y)
    (rest : ∀ a, Outcome.Same R (f a) (g a)) : Outcome.Same R (x >>= f) (y >>= g) :=
  first.bind fun a _ eq => eq ▸ rest a

/-- One operation for each of many things, where it does not count how they are written. -/
theorem mapM {f : β → Outcome α} {g : β → β} (each : ∀ b, Outcome.Same Eq (f b) (f (g b)))
    (bs : List β) : Outcome.Same Eq (bs.mapM f) ((bs.map g).mapM f) := by
  induction bs with
  | nil => exact .ok (.refl _)
  | cons b bs ih =>
    rw [List.map_cons, List.mapM_cons, List.mapM_cons]
    exact (each b).next fun _ => ih.next fun _ => .rfl _

end Outcome.Same

/-! ## Expressions -/

mutual

/-- An expression without spans. -/
def Expr.blank : Expr → Expr
  | .ident _ name => .ident {} name
  | .lit _ value => .lit {} value
  | .call _ name _ args => .call {} name {} (Expr.blankAll args)
  | .binary _ op left right => .binary {} op left.blank right.blank
  | .unary _ op operand => .unary {} op operand.blank
  | .group _ inner => .group {} inner.blank
  | .index _ target idx => .index {} target.blank idx.blank
  | .bare _ kind => .bare {} kind
  | .missing id => .missing id

/-- Expressions without spans. -/
def Expr.blankAll : List Expr → List Expr
  | [] => []
  | e :: es => e.blank :: Expr.blankAll es

end

mutual

theorem Expr.blank_blank : (e : Expr) → e.blank.blank = e.blank
  | .ident .. | .lit .. | .bare .. | .missing _ => rfl
  | .call _ name _ args => congrArg (Expr.call {} name {}) (Expr.blankAll_blankAll args)
  | .binary _ op left right => by rw [blank, blank, left.blank_blank, right.blank_blank]
  | .unary _ op operand => congrArg (Expr.unary {} op) operand.blank_blank
  | .group _ inner => congrArg (Expr.group {}) inner.blank_blank
  | .index _ target idx => by rw [blank, blank, target.blank_blank, idx.blank_blank]

theorem Expr.blankAll_blankAll : (es : List Expr) →
    Expr.blankAll (Expr.blankAll es) = Expr.blankAll es
  | [] => rfl
  | e :: es => by rw [blankAll, blankAll, e.blank_blank, Expr.blankAll_blankAll es]

end

namespace Expr

/-- A place without spans. -/
def Place.blank (p : Place) : Place :=
  { p with nameSpan := {}, indices := p.indices.map Expr.blank }

theorem blankAll_eq_map (es : List Expr) : blankAll es = es.map blank := by
  induction es with
  | nil => rfl
  | cons e es ih => rw [blankAll, ih, List.map_cons]

theorem span?_blank (e : Expr) : e.blank.span? = e.span?.map fun _ => {} := by
  cases e <;> rfl

theorem spineBroken_blank (e : Expr) : e.blank.spineBroken = e.spineBroken := by
  induction e using Expr.spineBroken.induct with
  | case1 _ inner ih => exact ih
  | case2 _ target idx ih => exact ih
  | case3 => rfl
  | case4 e notGroup notIndex notBare =>
    cases e with
    | group => exact absurd rfl (notGroup _ _)
    | index => exact absurd rfl (notIndex _ _ _)
    | bare => exact absurd rfl (notBare _ _)
    | _ => rfl

theorem place?_blank (e : Expr) : e.blank.place? = e.place?.map Place.blank := by
  induction e using Expr.place?.induct with
  | case1 => rfl
  | case2 _ inner ih => exact ih
  | case3 _ target idx ih =>
    rw [blank, place?, ih, place?, Option.map_map, Option.map_map]
    congr 1
    funext p
    simp [Place.blank]
  | case4 e notIdent notGroup notIndex =>
    cases e with
    | ident => exact absurd rfl (notIdent _ _)
    | group => exact absurd rfl (notGroup _ _)
    | index => exact absurd rfl (notIndex _ _ _)
    | _ => rfl

theorem stripGroups_blank (e : Expr) : e.blank.stripGroups = e.stripGroups.blank := by
  induction e using Expr.stripGroups.induct with
  | case1 _ inner ih => exact ih
  | case2 e notGroup =>
    cases e with
    | group => exact absurd rfl (notGroup _ _)
    | _ => rfl

/-- Whether an expression is a place does not depend on where it stands. -/
theorem isNone_place?_of_blank {e f : Expr} (same : e.blank = f.blank) :
    e.place?.isNone = f.place?.isNone := by
  have place : ∀ g : Expr, g.blank.place?.isNone = g.place?.isNone := fun g => by
    rw [place?_blank, Option.isNone_map]
  rw [← place e, same, place]

end Expr

/-! ## Declarations, statements and items -/

mutual

/-- An initializer without spans. -/
def Init.blank : Init → Init
  | .expr _ value => .expr {} value.blank
  | .list _ elems => .list {} (Init.blankAll elems)
  | .missing id => .missing id

/-- Initializers without spans. -/
def Init.blankAll : List Init → List Init
  | [] => []
  | i :: is => i.blank :: Init.blankAll is

end

theorem Init.blankAll_eq_map (is : List Init) : blankAll is = is.map blank := by
  induction is with
  | nil => rfl
  | cons i is ih => rw [blankAll, ih, List.map_cons]

/-- A definition without spans. -/
def Def.blank (d : Def) : Def :=
  { d with nameSpan := {}, dims := d.dims.map Expr.blank, init := d.init.map Init.blank }

/-- A declaration without spans. -/
def Decl.blank (d : Decl) : Decl := { d with span := {}, defs := d.defs.map Def.blank }

mutual

/-- A statement without spans. -/
def Stmt.blank : Stmt → Stmt
  | .block _ stmts => .block {} (Stmt.blankAll stmts)
  | .decl _ d => .decl {} (d.map Decl.blank)
  | .assign _ target value => .assign {} target.blank value.blank
  | .expr _ value => .expr {} (value.map Expr.blank)
  | .ifThen _ cond thenArm none => .ifThen {} cond.blank thenArm.blank none
  | .ifThen _ cond thenArm (some elseArm) =>
    .ifThen {} cond.blank thenArm.blank (some elseArm.blank)
  | .while _ cond body => .while {} cond.blank body.blank
  | .break _ => .break {}
  | .continue _ => .continue {}
  | .return _ value => .return {} (value.map Expr.blank)
  | .bare _ kind => .bare {} kind
  | .missing id => .missing id

/-- Statements without spans. -/
def Stmt.blankAll : List Stmt → List Stmt
  | [] => []
  | s :: ss => s.blank :: Stmt.blankAll ss

end

theorem Stmt.blankAll_eq_map (ss : List Stmt) : blankAll ss = ss.map blank := by
  induction ss with
  | nil => rfl
  | cons s ss ih => rw [blankAll, ih, List.map_cons]

/-- A parameter without spans. -/
def Param.blank (p : Param) : Param :=
  { p with nameSpan := {}, dims := p.dims.map Expr.blank, span := {} }

/-- A function without spans. -/
def Fn.blank (f : Fn) : Fn :=
  { f with nameSpan := {}, params := f.params.map Param.blank, body := f.body.map Stmt.blank }

/-- An item without spans. -/
def Item.blank : Item → Item
  | .fn _ f => .fn {} f.blank
  | .decl _ d => .decl {} (d.map Decl.blank)
  | .bare _ kind => .bare {} kind
  | .missing id => .missing id

/-- A unit without spans. -/
def CompUnit.blank (u : CompUnit) : CompUnit := { span := {}, items := u.items.map Item.blank }

end SysY

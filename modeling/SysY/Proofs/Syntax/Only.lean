import SysY.Proofs.Syntax.Nesting

/-! # The names in a tree

`Only P` says of a tree that all names in it have the property `P`, whether they are declared there
or used. The names in a tree that the parser built are names among its tokens. -/

namespace SysY

variable {P : String → Prop}

mutual

/-- An expression in which all names have a property. -/
def Expr.Only (P : String → Prop) : Expr → Prop
  | .ident _ name => P name
  | .lit .. | .bare .. | .missing _ => True
  | .call _ name _ args => P name ∧ Expr.AllOnly P args
  | .binary _ _ l r => l.Only P ∧ r.Only P
  | .unary _ _ e => e.Only P
  | .group _ inner => inner.Only P
  | .index _ target idx => target.Only P ∧ idx.Only P

/-- Expressions in which all names have a property. -/
def Expr.AllOnly (P : String → Prop) : List Expr → Prop
  | [] => True
  | e :: es => e.Only P ∧ Expr.AllOnly P es

end

mutual

/-- An initializer in which all names have a property. -/
def Init.Only (P : String → Prop) : Init → Prop
  | .expr _ e => e.Only P
  | .list _ elems => Init.AllOnly P elems
  | .missing _ => True

/-- Initializers in which all names have a property. -/
def Init.AllOnly (P : String → Prop) : List Init → Prop
  | [] => True
  | i :: is => i.Only P ∧ Init.AllOnly P is

end

/-- A definition in which all names have a property. -/
structure Def.Only (P : String → Prop) (d : Def) : Prop where
  name : P d.name
  dims : ∀ e ∈ d.dims, e.Only P
  init : ∀ i ∈ d.init, i.Only P

/-- A declaration in which all names have a property. -/
def Decl.Only (P : String → Prop) (d : Decl) : Prop := ∀ e ∈ d.defs, e.Only P

mutual

/-- A statement in which all names have a property. -/
def Stmt.Only (P : String → Prop) : Stmt → Prop
  | .block _ ss => Stmt.AllOnly P ss
  | .decl _ d => ∀ e ∈ d, e.Only P
  | .assign _ target value => target.Only P ∧ value.Only P
  | .expr _ e => ∀ x ∈ e, x.Only P
  | .ifThen _ cond thenArm none => cond.Only P ∧ thenArm.Only P
  | .ifThen _ cond thenArm (some elseArm) => cond.Only P ∧ thenArm.Only P ∧ elseArm.Only P
  | .while _ cond body => cond.Only P ∧ body.Only P
  | .return _ value => ∀ x ∈ value, x.Only P
  | .break _ | .continue _ | .bare .. | .missing _ => True

/-- Statements in which all names have a property. -/
def Stmt.AllOnly (P : String → Prop) : List Stmt → Prop
  | [] => True
  | s :: ss => s.Only P ∧ Stmt.AllOnly P ss

end

/-- A parameter in which all names have a property. -/
structure Param.Only (P : String → Prop) (p : Param) : Prop where
  name : P p.name
  dims : ∀ e ∈ p.dims, e.Only P

/-- A function in which all names have a property. -/
structure Fn.Only (P : String → Prop) (f : Fn) : Prop where
  name : P f.name
  params : ∀ p ∈ f.params, p.Only P
  body : ∀ s ∈ f.body, s.Only P

/-- An item in which all names have a property. -/
def Item.Only (P : String → Prop) : Item → Prop
  | .fn _ f => f.Only P
  | .decl _ d => ∀ e ∈ d, e.Only P
  | .bare .. | .missing _ => True

/-- A unit in which all names have a property. -/
def CompUnit.Only (P : String → Prop) (u : CompUnit) : Prop := ∀ i ∈ u.items, i.Only P

namespace Expr

theorem Only.place : {e : Expr} → {p : Place} → e.Only P → e.place? = some p → P p.name
  | .ident .., _, only, rfl => only
  | .group _ inner, _, only, found => Only.place (e := inner) only found
  | .index _ target _, _, only, found => by
    obtain ⟨q, here, rfl⟩ := Option.map_eq_some_iff.mp found
    exact (Only.place only.1 here : P q.name)

theorem Only.stripGroups : {e : Expr} → e.Only P → e.stripGroups.Only P
  | .group _ inner, only => Only.stripGroups (e := inner) only
  | .ident .., only | .lit .., only | .call .., only | .binary .., only | .unary .., only
  | .index .., only | .bare .., only | .missing _, only => only

end Expr

namespace Grammar

/-- Tokens among which all names have a property. -/
def AllNames (P : String → Prop) (ts : List Token) : Prop := ∀ t ∈ ts, t.kind = .ident → P t.name

section Tokens

variable {t : Token} {ts us : List Token}

theorem AllNames.left (h : AllNames P (ts ++ us)) : AllNames P ts :=
  fun t mem => h t (List.mem_append_left _ mem)

theorem AllNames.right (h : AllNames P (ts ++ us)) : AllNames P us :=
  fun t mem => h t (List.mem_append_right _ mem)

theorem AllNames.tail (h : AllNames P (t :: ts)) : AllNames P ts :=
  fun u mem => h u (List.mem_cons_of_mem _ mem)

theorem AllNames.head (h : AllNames P (t :: ts)) (isName : t.kind = .ident) : P t.name :=
  h t List.mem_cons_self isName

/-- Phrases with commas between them. -/
theorem Commas.only {α : Type} {Phrase : List Token → α → Prop} {Q : α → Prop} {as : List α}
    (h : Commas Phrase ts as) (each : ∀ {us a}, Phrase us a → AllNames P us → Q a)
    (names : AllNames P ts) : ∀ a ∈ as, Q a := by
  induction h with
  | one h => simpa using each h names
  | more h _ _ ih => exact List.forall_mem_cons.mpr ⟨each h names.left, ih names.right.tail⟩

end Tokens

/-! ## Expressions -/

mutual

theorem Level.only : {n : Nat} → {ts : List Token} → {e : Expr} → Level n ts e → AllNames P ts →
    e.Only P
  | _, _, _, .unary isUnary, names => isUnary.only names
  | _, _, _, .tighter _ isLevel, names => isLevel.only names
  | _, _, _, .binary left _ right, names => ⟨left.only names.left, right.only names.right.tail⟩

theorem Unary.only : {ts : List Token} → {e : Expr} → Unary ts e → AllNames P ts → e.Only P
  | _, _, .primary isPrimary, names => isPrimary.only names
  | _, _, .unary _ isUnary, names => isUnary.only names.tail

theorem Primary.only : {ts : List Token} → {e : Expr} → Primary ts e → AllNames P ts → e.Only P
  | _, _, .group _ inner _, names => inner.only names.left.tail
  | _, _, .number .., _ => trivial
  | _, _, .call isName _ _, names => ⟨names.head isName, trivial⟩
  | _, _, .callWith isName _ as _, names =>
    ⟨names.left.head isName, as.onlyAll names.left.tail.tail⟩
  | _, _, .named isNamed, names => isNamed.only names

theorem Named.only : {ts : List Token} → {e : Expr} → Named ts e → AllNames P ts → e.Only P
  | _, _, .name isName, names => names.head isName
  | _, _, .index isNamed _ idx _, names =>
    ⟨isNamed.only names.left.left, idx.only names.left.right.tail⟩

theorem Commas.onlyAll : {ts : List Token} → {es : List Expr} → Commas (Level 1) ts es →
    AllNames P ts → Expr.AllOnly P es
  | _, _, .one isLevel, names => ⟨isLevel.only names, trivial⟩
  | _, _, .more isLevel _ more, names => ⟨isLevel.only names.left, more.onlyAll names.right.tail⟩

end

theorem Assignable.only {ts : List Token} {e : Expr} (h : Assignable ts e) (names : AllNames P ts) :
    e.Only P := by
  induction h with
  | named isNamed => exact isNamed.only names
  | group _ _ _ ih => exact ih names.left.tail

/-! ## Declarations -/

section Phrases

variable {ts : List Token}

theorem Dims.only {es : List Expr} (h : Dims ts es) (names : AllNames P ts) :
    ∀ e ∈ es, e.Only P := by
  induction h with
  | none => exact nofun
  | more _ bound _ _ ih =>
    exact List.forall_mem_cons.mpr ⟨bound.only names.left.tail, ih names.right.tail⟩

mutual

theorem Initializer.only : {ts : List Token} → {i : Init} → Initializer ts i → AllNames P ts →
    i.Only P
  | _, _, .value isLevel, names => isLevel.only names
  | _, _, .empty .., _ => trivial
  | _, _, .list _ elems _, names => elems.onlyInits names.left.tail

theorem Commas.onlyInits : {ts : List Token} → {is : List Init} → Commas Initializer ts is →
    AllNames P ts → Init.AllOnly P is
  | _, _, .one isInit, names => ⟨isInit.only names, trivial⟩
  | _, _, .more isInit _ more, names => ⟨isInit.only names.left, more.onlyInits names.right.tail⟩

end

theorem Definition.only {d : Def} (h : Definition ts d) (names : AllNames P ts) : d.Only P := by
  cases h with
  | blank isName dims => exact ⟨names.head isName, dims.only names.tail, nofun⟩
  | init isName dims _ isInit =>
    refine ⟨names.left.head isName, dims.only names.left.tail, fun i mem => ?_⟩
    cases mem
    exact isInit.only names.right.tail

theorem Declaration.only {d : Decl} (h : Declaration ts d) (names : AllNames P ts) : d.Only P := by
  cases h with
  | vars _ defs _ => exact defs.only Definition.only names.left.tail
  | consts _ _ defs _ => exact defs.only Definition.only names.left.tail.tail

/-! ## Statements -/

mutual

theorem Statement.only : {ts : List Token} → {s : Stmt} → Statement true ts s → AllNames P ts →
    s.Only P
  | _, _, .block _ contents _, names => contents.only names.left.tail
  | _, _, .empty _, _ => nofun
  | _, _, .effect isLevel _, names => fun _ mem => by
    cases mem
    exact isLevel.only names.left
  | _, _, .assign target _ value _, names =>
    ⟨target.only names.left.left, value.only names.left.right.tail⟩
  | _, _, .ifThen _ _ cond _ arm, names => by
    rw [Stmt.Only]
    exact ⟨cond.only names.left.tail.tail, arm.only names.right.tail⟩
  | _, _, .ifElse _ _ cond _ arm _ _ other, names => by
    rw [Stmt.Only]
    exact ⟨cond.only names.left.left.tail.tail, arm.only names.left.right.tail,
      other.only names.right.tail⟩
  | _, _, .while _ _ cond _ body, names => by
    rw [Stmt.Only]
    exact ⟨cond.only names.left.tail.tail, body.only names.right.tail⟩
  | _, _, .break .., _ | _, _, .continue .., _ => trivial
  | _, _, .return .., _ => nofun
  | _, _, .returnValue _ value _, names => fun _ mem => by
    cases mem
    exact value.only names.left.tail

theorem Contents.only : {ts : List Token} → {ss : List Stmt} → Contents true ts ss →
    AllNames P ts → Stmt.AllOnly P ss
  | _, _, .none, _ => trivial
  | _, _, .decl isDecl more, names => ⟨fun _ mem => by
      cases mem
      exact isDecl.only names.left, more.only names.right⟩
  | _, _, .stmt isStmt more, names => ⟨isStmt.only names.left, more.only names.right⟩

end

/-! ## Items -/

theorem Parameter.only {p : Param} (h : Parameter ts p) (names : AllNames P ts) : p.Only P := by
  cases h with
  | number _ isName => exact ⟨names.tail.head isName, nofun⟩
  | array _ isName _ _ dims => exact ⟨names.tail.head isName, dims.only names.tail.tail.tail.tail⟩

theorem Parameters.only {ps : List Param} (h : Parameters ts ps) (names : AllNames P ts) :
    ∀ p ∈ ps, p.Only P := by
  cases h with
  | none => exact nofun
  | some _ params _ => exact params.only Parameter.only names.left.tail

theorem FnBody.only {body : Option Stmt} (h : FnBody true ts body) (names : AllNames P ts) :
    ∀ s ∈ body, s.Only P := by
  cases h with
  | none => exact nofun
  | block _ contents _ =>
    intro s mem
    cases mem
    exact contents.only names.left.tail

theorem TopLevel.only {i : Item} (h : TopLevel true ts i) (names : AllNames P ts) : i.Only P := by
  cases h with
  | decl isDecl =>
    intro d mem
    cases mem
    exact isDecl.only names
  | fn _ isName params isBody =>
    exact ⟨names.left.tail.head isName, params.only names.left.tail.tail, isBody.only names.right⟩

theorem Items.only {is : List Item} (h : Items true ts is) (names : AllNames P ts) :
    ∀ i ∈ is, i.Only P := by
  induction h with
  | none => exact nofun
  | more isItem _ ih => exact List.forall_mem_cons.mpr ⟨isItem.only names.left, ih names.right⟩

end Phrases

end Grammar

/-- The names in the tree of a file are names among its tokens. -/
theorem Parsed.only {f : Source.File} {u : CompUnit}
    (parsed : (Parsed.ofLexed (.ofFile f) false).result = .ok u)
    (names : Grammar.AllNames P (Lexed.ofFile f).tokens) : u.Only P :=
  (Parsed.spells parsed).1.only names

end SysY

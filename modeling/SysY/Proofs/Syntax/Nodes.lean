import SysY.Proofs.Syntax.Exact

/-! # Nodes of a tree

The nodes of a unit, whatever they are, and the nodes that stand directly below each. The tokens of
a node contain those of its children one after the other, so that every node of a unit is spelled
by tokens that stand together in its file. -/

namespace SysY.Grammar

open Source (Span)

/-- A part of a tree that has a span. -/
inductive Node where
  | item (item : Item)
  | stmt (stmt : Stmt)
  | decl (decl : Decl)
  | init (init : Init)
  | param (param : Param)
  | expr (expr : Expr)

namespace Node

/-- The span of a node, empty for a gap. -/
def span : Node → Span
  | item i => i.span?.getD {}
  | stmt s => s.span
  | decl d => d.span
  | init i => i.span
  | param p => p.span
  | expr e => e.span

/-- The operands of an expression. -/
def operands : Expr → List Expr
  | .call _ _ _ args => args
  | .binary _ _ left right => [left, right]
  | .unary _ _ operand => [operand]
  | .group _ inner => [inner]
  | .index _ target idx => [target, idx]
  | .ident .. | .lit .. | .bare .. | .missing _ => []

/-- What a definition consists of: its array bounds, and its initializer. -/
def ofDef (d : Def) : List Node := d.dims.map expr ++ d.init.toList.map init

/-- The nodes directly below a node, in the order of the source. -/
def children : Node → List Node
  | item (.fn _ f) => f.params.map param ++ f.body.toList.map stmt
  | item (.decl _ d) | stmt (.decl _ d) => d.toList.map decl
  | item (.bare ..) | item (.missing _) => []
  | stmt (.block _ ss) => ss.map stmt
  | stmt (.assign _ target value) => [expr target, expr value]
  | stmt (.expr _ value) | stmt (.return _ value) => value.toList.map expr
  | stmt (.ifThen _ cond thenArm elseArm) =>
    expr cond :: stmt thenArm :: elseArm.toList.map stmt
  | stmt (.while _ cond body) => [expr cond, stmt body]
  | stmt (.break _) | stmt (.continue _) | stmt (.bare ..) | stmt (.missing _) => []
  | decl d => d.defs.flatMap ofDef
  | init (.expr _ value) => [expr value]
  | init (.list _ elems) => elems.map init
  | init (.missing _) => []
  | param p => p.dims.map expr
  | expr e => (operands e).map expr

end Node

/-- The nodes of a unit: its items, and what stands below another node. -/
inductive Occurs (u : CompUnit) : Node → Prop
  | item {i : Item} : i ∈ u.items → Occurs u (.item i)
  | child {n m : Node} : Occurs u n → m ∈ n.children → Occurs u m

/-- The tokens of a node. -/
inductive Spelled : List Token → Node → Prop
  | item {ts i} : TopLevel true ts i → Spelled ts (.item i)
  | stmt {ts s} : Statement true ts s → Spelled ts (.stmt s)
  | declStmt {ts d} : Declaration ts d → Spelled ts (.stmt (.decl (extent ts) (some d)))
  | decl {ts d} : Declaration ts d → Spelled ts (.decl d)
  | init {ts i} : Initializer ts i → Spelled ts (.init i)
  | param {ts p} : Parameter ts p → Spelled ts (.param p)
  | expr {ts e} : Level 1 ts e → Spelled ts (.expr e)

/-- Tokens with nodes among them, one after the other. -/
inductive Parts : List Token → List Node → Prop
  | none {ts} : Parts ts []
  | next {before ts after n ns} : Spelled ts n → Parts after ns →
      Parts (before ++ (ts ++ after)) (n :: ns)

section Parts

variable {ts us : List Token} {n : Node} {ns ms : List Node}

theorem Parts.before (us : List Token) (h : Parts ts ns) : Parts (us ++ ts) ns := by
  cases h with
  | none => exact .none
  | next spelled later =>
    rw [← List.append_assoc]
    exact .next spelled later

theorem Parts.append (h : Parts ts ns) (h' : Parts us ms) : Parts (ts ++ us) (ns ++ ms) := by
  induction h with
  | none => exact h'.before _
  | next spelled _ ih =>
    rw [List.append_assoc, List.append_assoc]
    exact .next spelled ih

theorem Parts.after (us : List Token) (h : Parts ts ns) : Parts (ts ++ us) ns := by
  simpa using h.append (.none : Parts us [])

theorem Parts.one (h : Spelled ts n) : Parts ts [n] := by
  have all : Parts ([] ++ (ts ++ [])) [n] := .next h .none
  simpa using all

theorem Parts.cons (t : Token) (h : Parts ts ns) : Parts (t :: ts) ns := h.before [t]

/-- Phrases with commas between them. -/
theorem Commas.parts {α : Type} {P : List Token → α → Prop} {f : α → List Node} {as : List α}
    (h : Commas P ts as) (each : ∀ {ts a}, P ts a → Parts ts (f a)) : Parts ts (as.flatMap f) := by
  induction h with
  | one h => simpa using each h
  | more h _ _ ih => exact (each h).append (ih.cons _)

/-- Phrases with commas between them, each of which is a node. -/
theorem Commas.nodes {α : Type} {P : List Token → α → Prop} {f : α → Node} {as : List α}
    (h : Commas P ts as) (each : ∀ {ts a}, P ts a → Spelled ts (f a)) : Parts ts (as.map f) := by
  rw [List.map_eq_flatMap]
  exact h.parts fun h => .one (each h)

end Parts

/-! ## The children of a node -/

theorem Named.spelled {ts : List Token} {e : Expr} (h : Named ts e) : Spelled ts (.expr e) :=
  .expr (Level.lower (.unary (.primary (.named h))) (by decide))

theorem Unary.spelled {ts : List Token} {e : Expr} (h : Unary ts e) : Spelled ts (.expr e) :=
  .expr (Level.lower (.unary h) (by decide))

theorem Level.spelled {n : Nat} {ts : List Token} {e : Expr} (h : Level n ts e) (pos : 1 ≤ n) :
    Spelled ts (.expr e) := .expr (h.lower pos)

theorem Assignable.spelled {ts : List Token} {e : Expr} (h : Assignable ts e) :
    Spelled ts (.expr e) := .expr h.level

theorem Primary.parts {ts : List Token} {e : Expr} (h : Primary ts e) :
    Parts ts (Node.expr e).children := by
  cases h with
  | group _ inner _ => exact ((Parts.one (.expr inner)).cons _).after _
  | number => exact .none
  | call => exact .none
  | callWith _ _ args _ => exact (((args.nodes .expr).cons _).cons _).after _
  | named isNamed =>
    cases isNamed with
    | name => exact .none
    | index target _ idx _ =>
      rw [List.append_assoc]
      exact (Parts.one target.spelled).append (((Parts.one (.expr idx)).cons _).after _)

theorem Unary.parts {ts : List Token} {e : Expr} (h : Unary ts e) :
    Parts ts (Node.expr e).children := by
  cases h with
  | primary h => exact h.parts
  | unary _ operand => exact (Parts.one operand.spelled).cons _

theorem Level.parts {n : Nat} {ts : List Token} {e : Expr} (h : Level n ts e) :
    Parts ts (Node.expr e).children := by
  -- The types of the grammar are mutual, so the induction is on the number of tighter levels.
  induction d : 7 - n using Nat.strongRecOn generalizing n with
  | ind d ih =>
    cases h with
    | unary h => exact h.parts
    | tighter small h => exact ih _ (by omega) h rfl
    | binary left op right =>
      have pos := op.range.1
      exact (Parts.one (left.spelled pos)).append ((Parts.one (right.spelled (by omega))).cons _)

theorem Dims.parts {ts : List Token} {es : List Expr} (h : Dims ts es) :
    Parts ts (es.map .expr) := by
  induction h with
  | none => exact .none
  | more _ dim _ _ ih =>
    rw [List.map_cons, ← List.singleton_append]
    exact ((Parts.one (.expr dim)).cons _).append (ih.cons _)

theorem Initializer.parts {ts : List Token} {i : Init} (h : Initializer ts i) :
    Parts ts (Node.init i).children := by
  cases h with
  | value isExpr => exact .one (.expr isExpr)
  | empty => exact .none
  | list _ elems _ => exact ((elems.nodes .init).cons _).after _

theorem Definition.parts {ts : List Token} {d : Def} (h : Definition ts d) :
    Parts ts (Node.ofDef d) := by
  cases h with
  | blank _ dims => simpa [Node.ofDef] using dims.parts.cons _
  | init _ dims _ value =>
    exact (dims.parts.cons _).append ((Parts.one (.init value)).cons _)

theorem Declaration.parts {ts : List Token} {d : Decl} (h : Declaration ts d) :
    Parts ts (Node.decl d).children := by
  cases h with
  | vars _ defs _ => exact ((defs.parts Definition.parts).cons _).after _
  | consts _ _ defs _ => exact (((defs.parts Definition.parts).cons _).cons _).after _

theorem Contents.parts {ts : List Token} {ss : List Stmt} (h : Contents true ts ss) :
    Parts ts (ss.map .stmt) := by
  induction ss generalizing ts with
  | nil => exact .none
  | cons s ss ih =>
    rw [List.map_cons, ← List.singleton_append]
    cases h with
    | decl isDecl more => exact (Parts.one (.declStmt isDecl)).append (ih more)
    | stmt isStmt more => exact (Parts.one (.stmt isStmt)).append (ih more)

theorem Statement.parts {ts : List Token} {s : Stmt} (h : Statement true ts s) :
    Parts ts (Node.stmt s).children := by
  cases h with
  | block _ contents _ => exact (contents.parts.cons _).after _
  | empty => exact .none
  | effect isExpr _ => exact (Parts.one (.expr isExpr)).after _
  | assign target _ value _ =>
    exact ((Parts.one target.spelled).append ((Parts.one (.expr value)).cons _)).after _
  | ifThen _ _ cond _ arm =>
    exact (((Parts.one (.expr cond)).cons _).cons _).append ((Parts.one (.stmt arm)).cons _)
  | ifElse _ _ cond _ arm _ _ other =>
    exact ((((Parts.one (.expr cond)).cons _).cons _).append
      ((Parts.one (.stmt arm)).cons _)).append ((Parts.one (.stmt other)).cons _)
  | «while» _ _ cond _ body =>
    exact (((Parts.one (.expr cond)).cons _).cons _).append ((Parts.one (.stmt body)).cons _)
  | «break» | «continue» | «return» => exact .none
  | returnValue _ value _ => exact ((Parts.one (.expr value)).cons _).after _

theorem Parameter.parts {ts : List Token} {p : Param} (h : Parameter ts p) :
    Parts ts (Node.param p).children := by
  cases h with
  | number => exact .none
  | array _ _ _ _ dims => exact (((dims.parts.cons _).cons _).cons _).cons _

theorem Parameters.parts {ts : List Token} {ps : List Param} (h : Parameters ts ps) :
    Parts ts (ps.map .param) := by
  cases h with
  | none => exact .none
  | some _ params _ => exact ((params.nodes .param).cons _).after _

theorem FnBody.parts {ts : List Token} {body : Option Stmt} (h : FnBody true ts body) :
    Parts ts (body.toList.map .stmt) := by
  cases h with
  | none => exact .none
  | block isOpen contents isClose => exact .one (.stmt (.block isOpen contents isClose))

theorem TopLevel.parts {ts : List Token} {i : Item} (h : TopLevel true ts i) :
    Parts ts (Node.item i).children := by
  cases h with
  | decl isDecl => exact .one (.decl isDecl)
  | fn _ _ params body => exact ((params.parts.cons _).cons _).append body.parts

theorem Items.parts {ts : List Token} {is : List Item} (h : Items true ts is) :
    Parts ts (is.map .item) := by
  induction h with
  | none => exact .none
  | more isItem _ ih => exact (Parts.one (.item isItem)).append ih

/-- The tokens of a node contain those of its children, one after the other. -/
theorem Spelled.parts {ts : List Token} {n : Node} (h : Spelled ts n) : Parts ts n.children := by
  cases h with
  | item h => exact h.parts
  | stmt h => exact h.parts
  | declStmt h => exact .one (.decl h)
  | decl h => exact h.parts
  | init h => exact h.parts
  | param h => exact h.parts
  | expr h => exact h.parts

/-! ## All nodes -/

theorem Parts.spelled {ts : List Token} {ns : List Node} (h : Parts ts ns) :
    ∀ n ∈ ns, ∃ us, us <:+: ts ∧ Spelled us n := by
  induction h with
  | none => exact nofun
  | @next before us after n ns spelled _ ih =>
    refine List.forall_mem_cons.mpr ⟨⟨us, ⟨before, after, by simp⟩, spelled⟩, fun m mem => ?_⟩
    obtain ⟨vs, within, spelled⟩ := ih m mem
    exact ⟨vs, within.trans ⟨before ++ us, [], by simp⟩, spelled⟩

/-- Every node of a unit is spelled by tokens of the file that stand together. -/
theorem Occurs.spelled {ts : List Token} {u : CompUnit} {n : Node} (items : Items true ts u.items)
    (h : Occurs u n) : ∃ us, us <:+: ts ∧ Spelled us n := by
  induction h with
  | item mem => exact items.parts.spelled _ (List.mem_map_of_mem mem)
  | child _ mem ih =>
    obtain ⟨us, within, spelled⟩ := ih
    obtain ⟨vs, inner, spelled⟩ := spelled.parts.spelled _ mem
    exact ⟨vs, inner.trans within, spelled⟩

end SysY.Grammar

import SysY.Proofs.Syntax.Arena.Rooted
import Mathlib.Data.List.Forall2

/-! # Trees in tables

A node holds a tree if it is the root of the tree and the nodes to which it refers hold the parts.
Following references from such a node then ends, and comes to what the tree says. -/

namespace SysY.Arena

open Source (Span)

/-! ## Nodes that hold trees -/

mutual

/-- Whether the expression with a number holds a tree. No expression holds a gap. -/
def HoldsExpr (a : Arena) (id : Nat) : Expr → Prop
  | .ident s name => a.lookup (.expr id) = some (s, .expr (.ident name))
  | .lit s v => a.lookup (.expr id) = some (s, .expr (.lit v))
  | .call s name ns args => ∃ ids,
    a.lookup (.expr id) = some (s, .expr (.call name ns ids)) ∧ HoldsExprs a ids args
  | .binary s op l r => ∃ il ir, a.lookup (.expr id) = some (s, .expr (.binary op il ir)) ∧
    HoldsExpr a il l ∧ HoldsExpr a ir r
  | .unary s op e => ∃ ie, a.lookup (.expr id) = some (s, .expr (.unary op ie)) ∧ HoldsExpr a ie e
  | .group s e => ∃ ie, a.lookup (.expr id) = some (s, .expr (.group ie)) ∧ HoldsExpr a ie e
  | .index s t i => ∃ it ii, a.lookup (.expr id) = some (s, .expr (.index it ii)) ∧
    HoldsExpr a it t ∧ HoldsExpr a ii i
  | .bare .. | .missing _ => False

/-- Whether the expressions with some numbers hold trees, in order. -/
def HoldsExprs (a : Arena) : List Nat → List Expr → Prop
  | [], [] => True
  | id :: ids, e :: es => HoldsExpr a id e ∧ HoldsExprs a ids es
  | _, _ => False

end

mutual

/-- Whether the initializer with a number holds a tree. -/
def HoldsInit (a : Arena) (id : Nat) : Init → Prop
  | .expr s e => ∃ ie, a.lookup (.init id) = some (s, .init (.expr ie)) ∧ a.HoldsExpr ie e
  | .list s elems => ∃ ids,
    a.lookup (.init id) = some (s, .init (.list ids)) ∧ HoldsInits a ids elems
  | .missing _ => False

/-- Whether the initializers with some numbers hold trees, in order. -/
def HoldsInits (a : Arena) : List Nat → List Init → Prop
  | [], [] => True
  | id :: ids, i :: is => HoldsInit a id i ∧ HoldsInits a ids is
  | _, _ => False

end

/-- Whether a number stands for what may be absent, when `holds` tells what the others stand for. -/
def Optionally {α : Type} (holds : Nat → α → Prop) (id : Nat) : Option α → Prop
  | none => id = 0
  | some x => id ≠ 0 ∧ holds id x

/-- Whether a definition holds a tree. -/
structure HoldsDef (a : Arena) (d : DefNode) (t : Def) : Prop where
  name : d.name = t.name
  nameSpan : d.nameSpan = t.nameSpan
  dims : a.HoldsExprs d.dims t.dims
  init : Optionally a.HoldsInit d.init t.init

/-- Whether the declaration with a number holds a tree. -/
def HoldsDecl (a : Arena) (id : Nat) (d : Decl) : Prop := ∃ defs,
  a.lookup (.decl id) = some (d.span, .decl { isConst := d.isConst, type := d.type, defs }) ∧
    List.Forall₂ a.HoldsDef defs d.defs

mutual

/-- Whether the statement with a number holds a tree. -/
def HoldsStmt (a : Arena) (id : Nat) : Stmt → Prop
  | .block s stmts => ∃ ids,
    a.lookup (.stmt id) = some (s, .stmt (.block ids)) ∧ HoldsStmts a ids stmts
  | .decl s (some d) => ∃ i, a.lookup (.stmt id) = some (s, .stmt (.decl i)) ∧ a.HoldsDecl i d
  | .assign s t v => ∃ it iv, a.lookup (.stmt id) = some (s, .stmt (.assign it iv)) ∧
    a.HoldsExpr it t ∧ a.HoldsExpr iv v
  | .expr s e => ∃ i,
    a.lookup (.stmt id) = some (s, .stmt (.expr i)) ∧ Optionally a.HoldsExpr i e
  | .ifThen s c t none => ∃ ic it, a.lookup (.stmt id) = some (s, .stmt (.ifThen ic it 0)) ∧
    a.HoldsExpr ic c ∧ HoldsStmt a it t
  | .ifThen s c t (some e) => ∃ ic it ie,
    a.lookup (.stmt id) = some (s, .stmt (.ifThen ic it ie)) ∧
    a.HoldsExpr ic c ∧ HoldsStmt a it t ∧ ie ≠ 0 ∧ HoldsStmt a ie e
  | .while s c b => ∃ ic ib, a.lookup (.stmt id) = some (s, .stmt (.while ic ib)) ∧
    a.HoldsExpr ic c ∧ HoldsStmt a ib b
  | .break s => a.lookup (.stmt id) = some (s, .stmt .break)
  | .continue s => a.lookup (.stmt id) = some (s, .stmt .continue)
  | .return s e => ∃ i,
    a.lookup (.stmt id) = some (s, .stmt (.return i)) ∧ Optionally a.HoldsExpr i e
  | .decl _ none | .bare .. | .missing _ => False

/-- Whether the statements with some numbers hold trees, in order. -/
def HoldsStmts (a : Arena) : List Nat → List Stmt → Prop
  | [], [] => True
  | id :: ids, s :: ss => HoldsStmt a id s ∧ HoldsStmts a ids ss
  | _, _ => False

end

/-- Whether a parameter holds a tree. -/
structure HoldsParam (a : Arena) (p : ParamNode) (t : Param) : Prop where
  name : p.name = t.name
  nameSpan : p.nameSpan = t.nameSpan
  type : p.type = t.type
  isArray : p.isArray = t.isArray
  dims : a.HoldsExprs p.dims t.dims
  span : p.span = t.span

/-- Whether the item with a number holds a tree. -/
def HoldsItem (a : Arena) (id : Nat) : Item → Prop
  | .fn s f => ∃ ps body,
    a.lookup (.item id) = some (s, .item (.fn f.name f.nameSpan f.returnType ps body)) ∧
    List.Forall₂ a.HoldsParam ps f.params ∧ Optionally a.HoldsStmt body f.body
  | .decl s (some d) => ∃ i, a.lookup (.item id) = some (s, .item (.decl i)) ∧ a.HoldsDecl i d
  | .decl _ none | .bare .. | .missing _ => False

/-! ## Growth

Nodes hold what they held when more nodes are made. -/

section

variable {a b : Arena}

theorem Optionally.imp {α : Type} {holds holds' : Nat → α → Prop} {id : Nat} :
    {x : Option α} → (∀ x, holds id x → holds' id x) → Optionally holds id x →
      Optionally holds' id x
  | none, _, zero => zero
  | some x, more, ⟨ne, h⟩ => ⟨ne, more x h⟩

mutual

theorem HoldsExpr.grows (g : Grows a b) : {id : Nat} → {e : Expr} → a.HoldsExpr id e →
    b.HoldsExpr id e
  | _, .ident .., found | _, .lit .., found => g.lookup found
  | _, .call .., ⟨ids, found, args⟩ => ⟨ids, g.lookup found, args.grows g⟩
  | _, .binary .., ⟨il, ir, found, l, r⟩ => ⟨il, ir, g.lookup found, l.grows g, r.grows g⟩
  | _, .unary .., ⟨ie, found, e⟩ => ⟨ie, g.lookup found, e.grows g⟩
  | _, .group .., ⟨ie, found, e⟩ => ⟨ie, g.lookup found, e.grows g⟩
  | _, .index .., ⟨it, ii, found, t, i⟩ => ⟨it, ii, g.lookup found, t.grows g, i.grows g⟩

theorem HoldsExprs.grows (g : Grows a b) : {ids : List Nat} → {es : List Expr} →
    a.HoldsExprs ids es → b.HoldsExprs ids es
  | [], [], _ => trivial
  | _ :: _, _ :: _, ⟨e, es⟩ => ⟨e.grows g, es.grows g⟩

end

mutual

theorem HoldsInit.grows (g : Grows a b) : {id : Nat} → {i : Init} → a.HoldsInit id i →
    b.HoldsInit id i
  | _, .expr .., ⟨ie, found, e⟩ => ⟨ie, g.lookup found, e.grows g⟩
  | _, .list .., ⟨ids, found, elems⟩ => ⟨ids, g.lookup found, elems.grows g⟩

theorem HoldsInits.grows (g : Grows a b) : {ids : List Nat} → {is : List Init} →
    a.HoldsInits ids is → b.HoldsInits ids is
  | [], [], _ => trivial
  | _ :: _, _ :: _, ⟨i, is⟩ => ⟨i.grows g, is.grows g⟩

end

theorem HoldsDef.grows (g : Grows a b) {d : DefNode} {t : Def} (h : a.HoldsDef d t) :
    b.HoldsDef d t :=
  { h with dims := h.dims.grows g, init := h.init.imp fun _ i => i.grows g }

theorem HoldsDecl.grows (g : Grows a b) {id : Nat} {d : Decl} : a.HoldsDecl id d → b.HoldsDecl id d
  | ⟨defs, found, each⟩ => ⟨defs, g.lookup found, each.imp fun _ _ h => h.grows g⟩

theorem HoldsParam.grows (g : Grows a b) {p : ParamNode} {t : Param} (h : a.HoldsParam p t) :
    b.HoldsParam p t :=
  { h with dims := h.dims.grows g }

mutual

theorem HoldsStmt.grows (g : Grows a b) : {id : Nat} → {s : Stmt} → a.HoldsStmt id s →
    b.HoldsStmt id s
  | _, .block .., ⟨ids, found, ss⟩ => ⟨ids, g.lookup found, ss.grows g⟩
  | _, .decl _ (some _), ⟨i, found, d⟩ => ⟨i, g.lookup found, d.grows g⟩
  | _, .assign .., ⟨it, iv, found, t, v⟩ => ⟨it, iv, g.lookup found, t.grows g, v.grows g⟩
  | _, .expr .., ⟨i, found, e⟩ | _, .return .., ⟨i, found, e⟩ =>
    ⟨i, g.lookup found, e.imp fun _ e => e.grows g⟩
  | _, .ifThen _ _ _ none, ⟨ic, it, found, c, t⟩ => ⟨ic, it, g.lookup found, c.grows g, t.grows g⟩
  | _, .ifThen _ _ _ (some _), ⟨ic, it, ie, found, c, t, ne, e⟩ =>
    ⟨ic, it, ie, g.lookup found, c.grows g, t.grows g, ne, e.grows g⟩
  | _, .while .., ⟨ic, ib, found, c, b⟩ => ⟨ic, ib, g.lookup found, c.grows g, b.grows g⟩
  | _, .break _, found | _, .continue _, found => g.lookup found

theorem HoldsStmts.grows (g : Grows a b) : {ids : List Nat} → {ss : List Stmt} →
    a.HoldsStmts ids ss → b.HoldsStmts ids ss
  | [], [], _ => trivial
  | _ :: _, _ :: _, ⟨s, ss⟩ => ⟨s.grows g, ss.grows g⟩

end

theorem HoldsItem.grows (g : Grows a b) {id : Nat} : {i : Item} → a.HoldsItem id i →
    b.HoldsItem id i
  | .fn .., ⟨ps, body, found, params, s⟩ =>
    ⟨ps, body, g.lookup found, params.imp fun _ _ p => p.grows g, s.imp fun _ s => s.grows g⟩
  | .decl _ (some _), ⟨i, found, d⟩ => ⟨i, g.lookup found, d.grows g⟩

end

/-! ## Reading -/

section

variable {a : Arena}

/-- The node of a sort is the one that was made as a node of any sort. -/
theorem of_map_wrap {α : Type} {node : Option (Span × α)} {wrap : α → Content} {s : Span} {n : α}
    (inj : Function.Injective wrap)
    (found : node.map (fun x => (x.1, wrap x.2)) = some (s, wrap n)) : node = some (s, n) := by
  obtain ⟨x, rfl, same⟩ := Option.map_eq_some_iff.mp found
  obtain ⟨span, inner⟩ := Prod.mk.inj same
  exact congrArg some (Prod.ext span (inj inner))

theorem exprNode?_eq {id : Nat} {s : Span} {n : ExprNode}
    (found : a.lookup (.expr id) = some (s, .expr n)) : a.exprNode? id = some (s, n) :=
  of_map_wrap (fun _ _ => Content.expr.inj) found

theorem initNode?_eq {id : Nat} {s : Span} {n : InitNode}
    (found : a.lookup (.init id) = some (s, .init n)) : a.initNode? id = some (s, n) :=
  of_map_wrap (fun _ _ => Content.init.inj) found

theorem declNode?_eq {id : Nat} {s : Span} {n : DeclNode}
    (found : a.lookup (.decl id) = some (s, .decl n)) : a.declNode? id = some (s, n) :=
  of_map_wrap (fun _ _ => Content.decl.inj) found

theorem stmtNode?_eq {id : Nat} {s : Span} {n : StmtNode}
    (found : a.lookup (.stmt id) = some (s, .stmt n)) : a.stmtNode? id = some (s, n) :=
  of_map_wrap (fun _ _ => Content.stmt.inj) found

theorem itemNode?_eq {id : Nat} {s : Span} {n : ItemNode}
    (found : a.lookup (.item id) = some (s, .item n)) : a.itemNode? id = some (s, n) :=
  of_map_wrap (fun _ _ => Content.item.inj) found

/-- Following a reference takes a step. As many as the number of the node leave enough for the nodes
of its sort to which it refers. -/
theorem Ordered.step (ordered : a.Ordered) (sort : Nat → Ref) {id n : Nat} {x : Span × Content}
    (compares : ∀ {c}, (sort c).Precedes (sort id) → c < id) (numbered : (sort id).id = id)
    (found : a.lookup (sort id) = some x) (enough : id ≤ n) :
    ∃ k, n = k + 1 ∧ ∀ c, sort c ∈ x.2.children → c ≤ k := by
  have has : a.Has (sort id) := by rw [Has, found]; rfl
  have ne := has.ne_zero
  rw [numbered] at ne
  refine ⟨n - 1, by omega, fun c child => ?_⟩
  have before : c < id := compares (ordered (by rw [Arena.children, found]; exact child))
  omega

theorem Ordered.expr (ordered : a.Ordered) {id n : Nat} {s : Span} {x : ExprNode}
    (found : a.lookup (.expr id) = some (s, .expr x)) (enough : id ≤ n) :
    ∃ k, n = k + 1 ∧ ∀ c, .expr c ∈ x.children → c ≤ k :=
  ordered.step .expr (fun before => before) rfl found enough

theorem Ordered.init (ordered : a.Ordered) {id n : Nat} {s : Span} {x : InitNode}
    (found : a.lookup (.init id) = some (s, .init x)) (enough : id ≤ n) :
    ∃ k, n = k + 1 ∧ ∀ c, .init c ∈ x.children → c ≤ k :=
  ordered.step .init (fun before => before) rfl found enough

theorem Ordered.stmt (ordered : a.Ordered) {id n : Nat} {s : Span} {x : StmtNode}
    (found : a.lookup (.stmt id) = some (s, .stmt x)) (enough : id ≤ n) :
    ∃ k, n = k + 1 ∧ ∀ c, .stmt c ∈ x.children → c ≤ k :=
  ordered.step .stmt (fun before => before) rfl found enough

/-- Reading what may be absent. -/
theorem Optionally.read {α : Type} {holds : Nat → α → Prop} (reader : Nat → Option α)
    (reads : ∀ {id x}, holds id x → reader id = some x) {id : Nat} : {x : Option α} →
    Optionally holds id x → readOptional reader id = some x
  | none, zero => if_pos zero
  | some _, ⟨ne, h⟩ => by rw [readOptional, if_neg ne, reads h]; rfl

/-- Reading in order. -/
theorem mapM_read {α β : Type} {holds : α → β → Prop} (reader : α → Option β)
    (reads : ∀ {x y}, holds x y → reader x = some y) {xs : List α} {ys : List β}
    (each : List.Forall₂ holds xs ys) : xs.mapM reader = some ys := by
  induction each with
  | nil => rfl
  | cons h _ ih => rw [List.mapM_cons, reads h, ih]; rfl

theorem mem_unlessZero {sort : Nat → Ref} {id : Nat} (ne : id ≠ 0) :
    sort id ∈ Ref.unlessZero sort id := by
  rw [Ref.unlessZero, if_neg ne]
  exact List.mem_singleton_self _

mutual

/-- Reading an expression ends within as many steps as its number says. -/
theorem HoldsExpr.read (ordered : a.Ordered) : {id : Nat} → {e : Expr} → a.HoldsExpr id e →
    ∀ {n}, id ≤ n → a.readExpr n id = some e
  | _, .ident .., found, _, enough | _, .lit .., found, _, enough => by
    obtain ⟨k, rfl, -⟩ := ordered.expr found enough
    rw [readExpr, exprNode?_eq found]
    rfl
  | _, .call .., ⟨ids, found, args⟩, _, enough => by
    obtain ⟨k, rfl, parts⟩ := ordered.expr found enough
    rw [readExpr, exprNode?_eq found]
    show (ids.mapM (a.readExpr k)).bind _ = _
    rw [args.read ordered fun c mem => parts c (List.mem_map_of_mem mem)]
    rfl
  | _, .binary .., ⟨il, ir, found, l, r⟩, _, enough => by
    obtain ⟨k, rfl, parts⟩ := ordered.expr found enough
    rw [readExpr, exprNode?_eq found]
    show (a.readExpr k il).bind _ = _
    rw [l.read ordered (parts il (by simp [ExprNode.children])), Option.bind_some,
      r.read ordered (parts ir (by simp [ExprNode.children]))]
    rfl
  | _, .unary .., ⟨ie, found, e⟩, _, enough | _, .group .., ⟨ie, found, e⟩, _, enough => by
    obtain ⟨k, rfl, parts⟩ := ordered.expr found enough
    rw [readExpr, exprNode?_eq found]
    show (a.readExpr k ie).bind _ = _
    rw [e.read ordered (parts ie (by simp [ExprNode.children]))]
    rfl
  | _, .index .., ⟨it, ii, found, t, i⟩, _, enough => by
    obtain ⟨k, rfl, parts⟩ := ordered.expr found enough
    rw [readExpr, exprNode?_eq found]
    show (a.readExpr k it).bind _ = _
    rw [t.read ordered (parts it (by simp [ExprNode.children])), Option.bind_some,
      i.read ordered (parts ii (by simp [ExprNode.children]))]
    rfl

theorem HoldsExprs.read (ordered : a.Ordered) : {ids : List Nat} → {es : List Expr} →
    a.HoldsExprs ids es → ∀ {n}, (∀ id ∈ ids, id ≤ n) → ids.mapM (a.readExpr n) = some es
  | [], [], _, _, _ => rfl
  | _ :: _, _ :: _, ⟨e, es⟩, _, enough => by
    obtain ⟨first, rest⟩ := List.forall_mem_cons.mp enough
    rw [List.mapM_cons, e.read ordered first, es.read ordered rest]
    rfl

end

/-- The node of an expression stands where its tree does. -/
theorem HoldsExpr.found {id : Nat} : {e : Expr} → a.HoldsExpr id e →
    ∃ x, a.lookup (.expr id) = some (e.span, .expr x)
  | .ident .., found | .lit .., found => ⟨_, found⟩
  | .call .., ⟨_, found, _⟩ | .unary .., ⟨_, found, _⟩ | .group .., ⟨_, found, _⟩ => ⟨_, found⟩
  | .binary .., ⟨_, _, found, _⟩ | .index .., ⟨_, _, found, _⟩ => ⟨_, found⟩

theorem HoldsExpr.has {id : Nat} {e : Expr} (h : a.HoldsExpr id e) : a.Has (.expr id) := by
  obtain ⟨_, found⟩ := h.found
  rw [Has, found]
  rfl

theorem HoldsExpr.expr? (ordered : a.Ordered) {id : Nat} {e : Expr} (h : a.HoldsExpr id e) :
    a.expr? id = some e :=
  h.read ordered (Nat.le_succ_of_le h.has.le_count)

theorem HoldsExprs.exprs? (ordered : a.Ordered) : {ids : List Nat} → {es : List Expr} →
    a.HoldsExprs ids es → ids.mapM a.expr? = some es
  | [], [], _ => rfl
  | _ :: _, _ :: _, ⟨e, es⟩ => by
    rw [List.mapM_cons, e.expr? ordered, es.exprs? ordered]
    rfl

/-- Where references form a circle, reading does not end within any number of steps. -/
theorem readExpr_circle {id : Nat} {s : Span} (circle : a.exprNode? id = some (s, .group id))
    (steps : Nat) : a.readExpr steps id = none := by
  induction steps with
  | zero => rfl
  | succ steps ih =>
    rw [readExpr, circle]
    show (a.readExpr steps id).bind _ = _
    rw [ih]
    rfl

mutual

theorem HoldsInit.read (ordered : a.Ordered) : {id : Nat} → {i : Init} → a.HoldsInit id i →
    ∀ {n}, id ≤ n → a.readInit n id = some i
  | _, .expr .., ⟨ie, found, e⟩, _, enough => by
    obtain ⟨k, rfl, -⟩ := ordered.init found enough
    rw [readInit, initNode?_eq found]
    show (a.expr? ie).bind _ = _
    rw [e.expr? ordered]
    rfl
  | _, .list .., ⟨ids, found, elems⟩, _, enough => by
    obtain ⟨k, rfl, parts⟩ := ordered.init found enough
    rw [readInit, initNode?_eq found]
    show (ids.mapM (a.readInit k)).bind _ = _
    rw [elems.read ordered fun c mem => parts c (List.mem_map_of_mem mem)]
    rfl

theorem HoldsInits.read (ordered : a.Ordered) : {ids : List Nat} → {is : List Init} →
    a.HoldsInits ids is → ∀ {n}, (∀ id ∈ ids, id ≤ n) → ids.mapM (a.readInit n) = some is
  | [], [], _, _, _ => rfl
  | _ :: _, _ :: _, ⟨i, is⟩, _, enough => by
    obtain ⟨first, rest⟩ := List.forall_mem_cons.mp enough
    rw [List.mapM_cons, i.read ordered first, is.read ordered rest]
    rfl

end

theorem HoldsInit.has {id : Nat} : {i : Init} → a.HoldsInit id i → a.Has (.init id)
  | .expr .., ⟨_, found, _⟩ | .list .., ⟨_, found, _⟩ => by
    rw [Has, found]
    rfl

theorem HoldsInit.init? (ordered : a.Ordered) {id : Nat} {i : Init} (h : a.HoldsInit id i) :
    a.init? id = some i :=
  h.read ordered (Nat.le_succ_of_le h.has.le_count)

theorem HoldsDef.read (ordered : a.Ordered) {d : DefNode} {t : Def} (h : a.HoldsDef d t) :
    a.readDef d = some t := by
  unfold readDef
  rw [h.name, h.nameSpan, h.dims.exprs? ordered, h.init.read a.init? (·.init? ordered)]
  rfl

theorem HoldsDecl.read (ordered : a.Ordered) {id : Nat} {d : Decl} :
    a.HoldsDecl id d → a.readDecl id = some (some d)
  | ⟨defs, found, each⟩ => by
    rw [readDecl, declNode?_eq found]
    show (defs.mapM a.readDef).bind _ = _
    rw [mapM_read a.readDef (·.read ordered) each]
    rfl

theorem HoldsParam.read (ordered : a.Ordered) {p : ParamNode} {t : Param} (h : a.HoldsParam p t) :
    a.readParam p = some t := by
  unfold readParam
  rw [h.name, h.nameSpan, h.type, h.isArray, h.dims.exprs? ordered, h.span]
  rfl

mutual

theorem HoldsStmt.read (ordered : a.Ordered) : {id : Nat} → {s : Stmt} → a.HoldsStmt id s →
    ∀ {n}, id ≤ n → a.readStmt n id = some s
  | _, .block .., ⟨ids, found, ss⟩, _, enough => by
    obtain ⟨k, rfl, parts⟩ := ordered.stmt found enough
    rw [readStmt, stmtNode?_eq found]
    show (ids.mapM (a.readStmt k)).bind _ = _
    rw [ss.read ordered fun c mem => parts c (List.mem_map_of_mem mem)]
    rfl
  | _, .decl _ (some _), ⟨i, found, d⟩, _, enough => by
    obtain ⟨k, rfl, -⟩ := ordered.stmt found enough
    rw [readStmt, stmtNode?_eq found]
    show (a.readDecl i).bind _ = _
    rw [d.read ordered]
    rfl
  | _, .assign .., ⟨it, iv, found, t, v⟩, _, enough => by
    obtain ⟨k, rfl, -⟩ := ordered.stmt found enough
    rw [readStmt, stmtNode?_eq found]
    show (a.expr? it).bind _ = _
    rw [t.expr? ordered, Option.bind_some, v.expr? ordered]
    rfl
  | _, .expr .., ⟨i, found, e⟩, _, enough | _, .return .., ⟨i, found, e⟩, _, enough => by
    obtain ⟨k, rfl, -⟩ := ordered.stmt found enough
    rw [readStmt, stmtNode?_eq found]
    show (readOptional a.expr? i).bind _ = _
    rw [e.read a.expr? (·.expr? ordered)]
    rfl
  | _, .ifThen _ _ _ none, ⟨ic, it, found, c, t⟩, _, enough => by
    obtain ⟨k, rfl, parts⟩ := ordered.stmt found enough
    rw [readStmt, stmtNode?_eq found]
    show (a.expr? ic).bind _ = _
    rw [c.expr? ordered, Option.bind_some]
    show (a.readStmt k it).bind _ = _
    rw [t.read ordered (parts it (by simp [StmtNode.children]))]
    rfl
  | _, .ifThen _ _ _ (some _), ⟨ic, it, ie, found, c, t, ne, e⟩, _, enough => by
    obtain ⟨k, rfl, parts⟩ := ordered.stmt found enough
    rw [readStmt, stmtNode?_eq found]
    show (a.expr? ic).bind _ = _
    rw [c.expr? ordered, Option.bind_some]
    show (a.readStmt k it).bind _ = _
    rw [t.read ordered (parts it (by simp [StmtNode.children])), Option.bind_some, readOptional,
      if_neg ne, e.read ordered (parts ie (by simp [StmtNode.children, mem_unlessZero ne]))]
    rfl
  | _, .while .., ⟨ic, ib, found, c, b⟩, _, enough => by
    obtain ⟨k, rfl, parts⟩ := ordered.stmt found enough
    rw [readStmt, stmtNode?_eq found]
    show (a.expr? ic).bind _ = _
    rw [c.expr? ordered, Option.bind_some,
      b.read ordered (parts ib (by simp [StmtNode.children]))]
    rfl
  | _, .break _, found, _, enough | _, .continue _, found, _, enough => by
    obtain ⟨k, rfl, -⟩ := ordered.stmt found enough
    rw [readStmt, stmtNode?_eq found]
    rfl

theorem HoldsStmts.read (ordered : a.Ordered) : {ids : List Nat} → {ss : List Stmt} →
    a.HoldsStmts ids ss → ∀ {n}, (∀ id ∈ ids, id ≤ n) → ids.mapM (a.readStmt n) = some ss
  | [], [], _, _, _ => rfl
  | _ :: _, _ :: _, ⟨s, ss⟩, _, enough => by
    obtain ⟨first, rest⟩ := List.forall_mem_cons.mp enough
    rw [List.mapM_cons, s.read ordered first, ss.read ordered rest]
    rfl

end

theorem HoldsStmt.has {id : Nat} : {s : Stmt} → a.HoldsStmt id s → a.Has (.stmt id)
  | .block .., ⟨_, found, _⟩ | .decl _ (some _), ⟨_, found, _⟩ | .expr .., ⟨_, found, _⟩
  | .return .., ⟨_, found, _⟩ | .assign .., ⟨_, _, found, _⟩ | .ifThen _ _ _ none, ⟨_, _, found, _⟩
  | .while .., ⟨_, _, found, _⟩ | .ifThen _ _ _ (some _), ⟨_, _, _, found, _⟩ | .break _, found
  | .continue _, found => by
    rw [Has, found]
    rfl

theorem HoldsStmt.stmt? (ordered : a.Ordered) {id : Nat} {s : Stmt} (h : a.HoldsStmt id s) :
    a.stmt? id = some s :=
  h.read ordered (Nat.le_succ_of_le h.has.le_count)

theorem HoldsItem.read (ordered : a.Ordered) {id : Nat} : {i : Item} → a.HoldsItem id i →
    a.readItem id = some i
  | .fn .., ⟨ps, body, found, params, s⟩ => by
    rw [readItem, itemNode?_eq found]
    show (ps.mapM a.readParam).bind _ = _
    rw [mapM_read a.readParam (·.read ordered) params, Option.bind_some,
      s.read a.stmt? (·.stmt? ordered)]
    rfl
  | .decl _ (some _), ⟨i, found, d⟩ => by
    rw [readItem, itemNode?_eq found]
    show (a.readDecl i).bind _ = _
    rw [d.read ordered]
    rfl

/-! ## Loops -/

/-- Whether a place is the one that a tree is read as. -/
def HoldsPlace (a : Arena) : Option (String × Span × List Nat) → Option Expr.Place → Prop
  | none, none => True
  | some (name, span, ids), some p =>
    name = p.name ∧ span = p.nameSpan ∧ a.HoldsExprs ids p.indices
  | _, _ => False

theorem HoldsPlace.isSome : {place : Option (String × Span × List Nat)} →
    {p : Option Expr.Place} → a.HoldsPlace place p → place.isSome = p.isSome
  | none, none, _ | some _, some _, _ => rfl

/-- Splitting a place ends, with what the tree says. The subscripts are collected on the way from
the last one to the name. -/
theorem HoldsExpr.lvalue (ordered : a.Ordered) : {id : Nat} → {e : Expr} → a.HoldsExpr id e →
    ∀ {indices : List Nat} {es : List Expr}, a.HoldsExprs indices es →
      ∃ place, (∀ {n}, id ≤ n → a.lvalue n id indices = some (.ok place)) ∧
        a.HoldsPlace place (e.place?.map fun p => { p with indices := p.indices ++ es })
  | _, .ident s name, found, indices, _, later => by
    refine ⟨some (name, s, indices), fun enough => ?_, rfl, rfl, later⟩
    obtain ⟨k, rfl, -⟩ := ordered.expr found enough
    rw [Arena.lvalue, exprNode?_eq found]
  | _, .lit .., found, _, _, _ => by
    refine ⟨none, fun enough => ?_, trivial⟩
    obtain ⟨k, rfl, -⟩ := ordered.expr found enough
    rw [Arena.lvalue, exprNode?_eq found]
  | _, .call .., ⟨_, found, _⟩, _, _, _ | _, .unary .., ⟨_, found, _⟩, _, _, _ => by
    refine ⟨none, fun enough => ?_, trivial⟩
    obtain ⟨k, rfl, -⟩ := ordered.expr found enough
    rw [Arena.lvalue, exprNode?_eq found]
  | _, .binary .., ⟨_, _, found, _⟩, _, _, _ => by
    refine ⟨none, fun enough => ?_, trivial⟩
    obtain ⟨k, rfl, -⟩ := ordered.expr found enough
    rw [Arena.lvalue, exprNode?_eq found]
  | _, .group .., ⟨ie, found, inner⟩, _, _, later => by
    obtain ⟨place, ends, same⟩ := inner.lvalue ordered later
    refine ⟨place, fun enough => ?_, same⟩
    obtain ⟨k, rfl, parts⟩ := ordered.expr found enough
    rw [Arena.lvalue, exprNode?_eq found]
    exact ends (parts ie (by simp [ExprNode.children]))
  | _, .index _ target idx, ⟨it, ii, found, t, i⟩, indices, es, later => by
    have later : a.HoldsExprs (ii :: indices) (idx :: es) := ⟨i, later⟩
    obtain ⟨place, ends, same⟩ := t.lvalue ordered later
    refine ⟨place, fun enough => ?_, ?_⟩
    · obtain ⟨k, rfl, parts⟩ := ordered.expr found enough
      rw [Arena.lvalue, exprNode?_eq found]
      exact ends (parts it (by simp [ExprNode.children]))
    · rw [Expr.place?, Option.map_map]
      convert same using 3
      simp

/-- Only parentheses take further steps to take off. -/
theorem Ordered.stripGroups (ordered : a.Ordered) {id n : Nat} {s : Span} {x : ExprNode}
    (found : a.lookup (.expr id) = some (s, .expr x)) (outer : ∀ inner, x ≠ .group inner)
    (full : ∀ k, x ≠ .bare k) (enough : id ≤ n) : a.stripGroups n id = some (.ok id) := by
  obtain ⟨k, rfl, -⟩ := ordered.expr found enough
  rw [Arena.stripGroups, exprNode?_eq found]
  cases x with
  | group inner => exact (outer inner rfl).elim
  | bare k => exact (full k rfl).elim
  | _ => rfl

/-- Taking off parentheses ends, with the expression inside. -/
theorem HoldsExpr.stripGroups (ordered : a.Ordered) : {id : Nat} → {e : Expr} → a.HoldsExpr id e →
    ∃ inner, (∀ {n}, id ≤ n → a.stripGroups n id = some (.ok inner)) ∧
      a.HoldsExpr inner e.stripGroups
  | id, .ident .., found | id, .lit .., found =>
    ⟨id, ordered.stripGroups found nofun nofun, found⟩
  | id, .call .., ⟨ids, found, args⟩ =>
    ⟨id, ordered.stripGroups found nofun nofun, ids, found, args⟩
  | id, .unary .., ⟨ie, found, e⟩ => ⟨id, ordered.stripGroups found nofun nofun, ie, found, e⟩
  | id, .binary .., ⟨il, ir, found, l, r⟩ =>
    ⟨id, ordered.stripGroups found nofun nofun, il, ir, found, l, r⟩
  | id, .index .., ⟨it, ii, found, t, i⟩ =>
    ⟨id, ordered.stripGroups found nofun nofun, it, ii, found, t, i⟩
  | _, .group .., ⟨ie, found, e⟩ => by
    obtain ⟨inner, ends, same⟩ := e.stripGroups ordered
    refine ⟨inner, fun enough => ?_, same⟩
    obtain ⟨k, rfl, parts⟩ := ordered.expr found enough
    rw [Arena.stripGroups, exprNode?_eq found]
    exact ends (parts ie (by simp [ExprNode.children]))

/-! ## Rooted tables -/

/-- A statement is plain if its tree is no declaration. -/
theorem HoldsStmt.plain_iff {id : Nat} : {t : Stmt} → a.HoldsStmt id t →
    (a.PlainStmt id ↔ t.isDecl = false)
  | .decl _ (some _), ⟨i, found, _⟩ => by
    refine ⟨fun ⟨_, _, found', plain⟩ => ?_, nofun⟩
    rw [found] at found'
    cases found'
    exact (plain i rfl).elim
  | .block .., ⟨_, found, _⟩ | .expr .., ⟨_, found, _⟩ | .return .., ⟨_, found, _⟩ =>
    ⟨fun _ => rfl, fun _ => ⟨_, _, found, nofun⟩⟩
  | .assign .., ⟨_, _, found, _⟩ | .ifThen _ _ _ none, ⟨_, _, found, _⟩
  | .while .., ⟨_, _, found, _⟩ => ⟨fun _ => rfl, fun _ => ⟨_, _, found, nofun⟩⟩
  | .ifThen _ _ _ (some _), ⟨_, _, _, found, _⟩ => ⟨fun _ => rfl, fun _ => ⟨_, _, found, nofun⟩⟩
  | .break _, found | .continue _, found => ⟨fun _ => rfl, fun _ => ⟨_, _, found, nofun⟩⟩

/-- The tree of a block is a block. -/
theorem HoldsStmt.block {id : Nat} (isBlock : a.BlockStmt id) : {t : Stmt} → a.HoldsStmt id t →
    ∃ s ss, t = .block s ss
  | .block s ss, _ => ⟨s, ss, rfl⟩
  | .decl _ (some _), ⟨_, found, _⟩ | .expr .., ⟨_, found, _⟩ | .return .., ⟨_, found, _⟩
  | .assign .., ⟨_, _, found, _⟩ | .ifThen _ _ _ none, ⟨_, _, found, _⟩
  | .while .., ⟨_, _, found, _⟩ | .ifThen _ _ _ (some _), ⟨_, _, _, found, _⟩
  | .break _, found | .continue _, found => by
    obtain ⟨_, _, found'⟩ := isBlock
    rw [found] at found'
    cases found'

/-- Whether a node holds a tree without gaps. -/
def Stands (a : Arena) : Ref → Prop
  | .expr id => ∃ e : Expr, a.HoldsExpr id e ∧ e.Whole
  | .init id => ∃ i : Init, a.HoldsInit id i ∧ i.Whole
  | .decl id => ∃ d : Decl, a.HoldsDecl id d ∧ d.Whole
  | .stmt id => ∃ s : Stmt, a.HoldsStmt id s ∧ s.Whole
  | .item id => ∃ i : Item, a.HoldsItem id i ∧ i.Whole

theorem exists_forall₂ {α β : Type} {holds : α → β → Prop} {P : β → Prop} {xs : List α}
    (each : ∀ x ∈ xs, ∃ y, holds x y ∧ P y) : ∃ ys, List.Forall₂ holds xs ys ∧ ∀ y ∈ ys, P y := by
  induction xs with
  | nil => exact ⟨[], .nil, nofun⟩
  | cons x xs ih =>
    obtain ⟨⟨y, h, p⟩, rest⟩ := List.forall_mem_cons.mp each
    obtain ⟨ys, hs, ps⟩ := ih rest
    exact ⟨y :: ys, .cons h hs, List.forall_mem_cons.mpr ⟨p, ps⟩⟩

theorem exists_optionally {α : Type} {holds : Nat → α → Prop} {P : α → Prop} {id : Nat}
    (h : id ≠ 0 → ∃ x, holds id x ∧ P x) : ∃ x, Optionally holds id x ∧ ∀ y ∈ x, P y := by
  by_cases zero : id = 0
  · exact ⟨none, zero, nofun⟩
  · obtain ⟨x, hx, p⟩ := h zero
    exact ⟨some x, ⟨zero, hx⟩, by rintro y ⟨⟩; exact p⟩

theorem exists_holdsExprs : {ids : List Nat} → (∀ c ∈ ids.map Ref.expr, a.Stands c) →
    ∃ es, a.HoldsExprs ids es ∧ Expr.AllWhole es
  | [], _ => ⟨[], trivial, trivial⟩
  | _ :: _, parts => by
    obtain ⟨⟨e, h, whole⟩, rest⟩ := List.forall_mem_cons.mp parts
    obtain ⟨es, hs, wholes⟩ := exists_holdsExprs rest
    exact ⟨e :: es, ⟨h, hs⟩, whole, wholes⟩

theorem exists_holdsInits : {ids : List Nat} → (∀ c ∈ ids.map Ref.init, a.Stands c) →
    ∃ is, a.HoldsInits ids is ∧ Init.AllWhole is
  | [], _ => ⟨[], trivial, trivial⟩
  | _ :: _, parts => by
    obtain ⟨⟨i, h, whole⟩, rest⟩ := List.forall_mem_cons.mp parts
    obtain ⟨is, hs, wholes⟩ := exists_holdsInits rest
    exact ⟨i :: is, ⟨h, hs⟩, whole, wholes⟩

theorem exists_holdsStmts : {ids : List Nat} → (∀ c ∈ ids.map Ref.stmt, a.Stands c) →
    ∃ ss, a.HoldsStmts ids ss ∧ Stmt.AllWhole ss
  | [], _ => ⟨[], trivial, trivial⟩
  | _ :: _, parts => by
    obtain ⟨⟨s, h, whole⟩, rest⟩ := List.forall_mem_cons.mp parts
    obtain ⟨ss, hs, wholes⟩ := exists_holdsStmts rest
    exact ⟨s :: ss, ⟨h, hs⟩, whole, wholes⟩

/-- An expression holds a tree if the expressions to which it refers do. -/
theorem stands_expr {id : Nat} {s : Span} : {n : ExprNode} →
    a.lookup (.expr id) = some (s, .expr n) → (Content.expr n).Proper a →
    (∀ c ∈ n.children, a.Stands c) → a.Stands (.expr id)
  | .ident name, found, _, _ => ⟨.ident s name, found, trivial⟩
  | .lit v, found, _, _ => ⟨.lit s v, found, trivial⟩
  | .call name ns ids, found, _, parts => by
    obtain ⟨es, args, whole⟩ := exists_holdsExprs parts
    exact ⟨.call s name ns es, ⟨ids, found, args⟩, whole⟩
  | .binary op il ir, found, known, parts => by
    obtain ⟨l, hl, wholeL⟩ := parts (.expr il) (by simp [ExprNode.children])
    obtain ⟨r, hr, wholeR⟩ := parts (.expr ir) (by simp [ExprNode.children])
    exact ⟨.binary s op l r, ⟨il, ir, found, hl, hr⟩, known, wholeL, wholeR⟩
  | .unary op ie, found, known, parts => by
    obtain ⟨e, h, whole⟩ := parts (.expr ie) (by simp [ExprNode.children])
    exact ⟨.unary s op e, ⟨ie, found, h⟩, known, whole⟩
  | .group ie, found, _, parts => by
    obtain ⟨e, h, whole⟩ := parts (.expr ie) (by simp [ExprNode.children])
    exact ⟨.group s e, ⟨ie, found, h⟩, whole⟩
  | .index it ii, found, _, parts => by
    obtain ⟨t, ht, wholeT⟩ := parts (.expr it) (by simp [ExprNode.children])
    obtain ⟨i, hi, wholeI⟩ := parts (.expr ii) (by simp [ExprNode.children])
    exact ⟨.index s t i, ⟨it, ii, found, ht, hi⟩, wholeT, wholeI⟩

theorem stands_init {id : Nat} {s : Span} : {n : InitNode} →
    a.lookup (.init id) = some (s, .init n) → (∀ c ∈ n.children, a.Stands c) → a.Stands (.init id)
  | .expr ie, found, parts => by
    obtain ⟨e, h, whole⟩ := parts (.expr ie) (by simp [InitNode.children])
    exact ⟨.expr s e, ⟨ie, found, h⟩, whole⟩
  | .list ids, found, parts => by
    obtain ⟨is, h, whole⟩ := exists_holdsInits parts
    exact ⟨.list s is, ⟨ids, found, h⟩, whole⟩

theorem exists_holdsDef {d : DefNode} (parts : ∀ c ∈ d.children, a.Stands c) :
    ∃ t, a.HoldsDef d t ∧ t.Whole := by
  obtain ⟨dimsStand, initStands⟩ := List.forall_mem_append.mp parts
  obtain ⟨dims, h, whole⟩ := exists_holdsExprs dimsStand
  obtain ⟨init, hi, wholeI⟩ := exists_optionally fun ne => initStands _ (mem_unlessZero ne)
  exact ⟨{ name := d.name, nameSpan := d.nameSpan, dims := dims, init := init }, ⟨rfl, rfl, h, hi⟩,
    Expr.allWhole_iff.mp whole, wholeI⟩

theorem stands_decl {id : Nat} {s : Span} {n : DeclNode}
    (found : a.lookup (.decl id) = some (s, .decl n)) (proper : (Content.decl n).Proper a)
    (parts : ∀ c ∈ (Content.decl n).children, a.Stands c) : a.Stands (.decl id) := by
  have each : ∀ d ∈ n.defs, ∃ t, a.HoldsDef d t ∧ t.Whole := fun d mem =>
    exists_holdsDef fun c child => parts c (List.mem_flatMap.mpr ⟨d, mem, child⟩)
  obtain ⟨ts, h, whole⟩ := exists_forall₂ each
  refine ⟨{ isConst := n.isConst, type := n.type, span := s, defs := ts }, ⟨n.defs, found, h⟩,
    whole, ?_⟩
  rintro rfl
  exact proper (List.forall₂_nil_right_iff.mp h)

theorem stands_stmt {id : Nat} {s : Span} : {n : StmtNode} →
    a.lookup (.stmt id) = some (s, .stmt n) → (Content.stmt n).Proper a →
    (∀ c ∈ n.children, a.Stands c) → a.Stands (.stmt id)
  | .block ids, found, _, parts => by
    obtain ⟨ss, h, whole⟩ := exists_holdsStmts parts
    exact ⟨.block s ss, ⟨ids, found, h⟩, whole⟩
  | .decl i, found, _, parts => by
    obtain ⟨d, h, whole⟩ := parts (.decl i) (by simp [StmtNode.children])
    exact ⟨.decl s (some d), ⟨i, found, h⟩, d, rfl, whole⟩
  | .assign it iv, found, _, parts => by
    obtain ⟨t, ht, wholeT⟩ := parts (.expr it) (by simp [StmtNode.children])
    obtain ⟨v, hv, wholeV⟩ := parts (.expr iv) (by simp [StmtNode.children])
    exact ⟨.assign s t v, ⟨it, iv, found, ht, hv⟩, wholeT, wholeV⟩
  | .expr i, found, _, parts => by
    obtain ⟨e, h, whole⟩ := exists_optionally fun ne => parts _ (mem_unlessZero ne)
    exact ⟨.expr s e, ⟨i, found, h⟩, whole⟩
  | .ifThen ic it ie, found, ⟨plainT, plainE⟩, parts => by
    obtain ⟨c, hc, wholeC⟩ := parts (.expr ic) (by simp [StmtNode.children])
    obtain ⟨t, ht, wholeT⟩ := parts (.stmt it) (by simp [StmtNode.children])
    have arm := ht.plain_iff.mp plainT
    by_cases zero : ie = 0
    · exact ⟨.ifThen s c t none, ⟨ic, it, zero ▸ found, hc, ht⟩, wholeC, wholeT, arm⟩
    · obtain ⟨e, he, wholeE⟩ := parts (.stmt ie) (by simp [StmtNode.children, mem_unlessZero zero])
      exact ⟨.ifThen s c t (some e), ⟨ic, it, ie, found, hc, ht, zero, he⟩, wholeC, ⟨wholeT, arm⟩,
        wholeE, he.plain_iff.mp (plainE zero)⟩
  | .while ic ib, found, plain, parts => by
    obtain ⟨c, hc, wholeC⟩ := parts (.expr ic) (by simp [StmtNode.children])
    obtain ⟨b, hb, wholeB⟩ := parts (.stmt ib) (by simp [StmtNode.children])
    exact ⟨.while s c b, ⟨ic, ib, found, hc, hb⟩, wholeC, wholeB, hb.plain_iff.mp plain⟩
  | .break, found, _, _ => ⟨.break s, found, trivial⟩
  | .continue, found, _, _ => ⟨.continue s, found, trivial⟩
  | .return i, found, _, parts => by
    obtain ⟨e, h, whole⟩ := exists_optionally fun ne => parts _ (mem_unlessZero ne)
    exact ⟨.return s e, ⟨i, found, h⟩, whole⟩

theorem exists_holdsParam {p : ParamNode} (parts : ∀ c ∈ p.children, a.Stands c) :
    ∃ t, a.HoldsParam p t ∧ ∀ e ∈ t.dims, e.Whole := by
  obtain ⟨dims, h, whole⟩ := exists_holdsExprs parts
  exact ⟨{ p with dims := dims }, ⟨rfl, rfl, rfl, rfl, h, rfl⟩, Expr.allWhole_iff.mp whole⟩

theorem stands_item {id : Nat} {s : Span} : {n : ItemNode} →
    a.lookup (.item id) = some (s, .item n) → (Content.item n).Proper a →
    (∀ c ∈ n.children, a.Stands c) → a.Stands (.item id)
  | .fn name ns ret ps body, found, isBlock, parts => by
    obtain ⟨psStand, bodyStands⟩ := List.forall_mem_append.mp parts
    have each : ∀ p ∈ ps, ∃ t, a.HoldsParam p t ∧ ∀ e ∈ t.dims, e.Whole := fun p mem =>
      exists_holdsParam fun c child => psStand c (List.mem_flatMap.mpr ⟨p, mem, child⟩)
    obtain ⟨ts, hs, wholeP⟩ := exists_forall₂ each
    obtain ⟨b, hb, wholeB⟩ : ∃ b, Optionally a.HoldsStmt body b ∧
        ∀ t ∈ b, ∃ s ss, t = .block s ss ∧ Stmt.AllWhole ss :=
      exists_optionally fun ne => by
        obtain ⟨t, h, whole⟩ := bodyStands _ (mem_unlessZero ne)
        obtain ⟨s, ss, rfl⟩ := HoldsStmt.block (isBlock ne) h
        exact ⟨_, h, s, ss, rfl, whole⟩
    exact ⟨.fn s { name := name, nameSpan := ns, returnType := ret, params := ts, body := b },
      ⟨ps, body, found, hs, hb⟩, wholeP, wholeB⟩
  | .decl i, found, _, parts => by
    obtain ⟨d, h, whole⟩ := parts (.decl i) (by simp [ItemNode.children])
    exact ⟨.decl s (some d), ⟨i, found, h⟩, d, rfl, whole⟩

theorem stands_of_children {r : Ref} {s : Span} {n : Content} (found : a.lookup r = some (s, n))
    (proper : n.Proper a) (parts : ∀ c ∈ n.children, a.Stands c) : a.Stands r := by
  have sorted := found
  cases r <;> obtain ⟨_, -, same⟩ := Option.map_eq_some_iff.mp sorted <;> cases same
  case expr => exact stands_expr found proper parts
  case init => exact stands_init found parts
  case decl => exact stands_decl found proper parts
  case stmt => exact stands_stmt found proper parts
  case item => exact stands_item found proper parts

/-- In rooted tables every node holds a tree without gaps. -/
theorem Rooted.stands {roots : List Ref} (h : Rooted a roots) (r : Ref) (has : a.Has r) :
    a.Stands r := by
  induction r using h.wellFounded.induction with
  | _ r ih =>
    obtain ⟨⟨s, n⟩, found⟩ := Option.isSome_iff_exists.mp has
    have children : a.children r = n.children := by rw [Arena.children, found]; rfl
    refine stands_of_children found (h.proper found) fun c child => ?_
    rw [← children] at child
    exact ih c child (h.has_child child)

end

end SysY.Arena

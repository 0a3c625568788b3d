import SysY.Syntax.Arena
import SysY.Proofs.Syntax.Arena.Nodes
import SysY.Proofs.Syntax.Whole
import Mathlib.Data.List.Perm.Basic

/-! # Rooted tables

Tables in which every reference leads to a node that was made before, and no two references lead to
the same node. The nodes to which nothing refers yet are the roots. Making a node whose references
are some of the roots keeps tables so: it takes these roots, and is a root in their place. -/

namespace SysY.Arena

open Source (Span)

/-! ## Nodes of all sorts -/

/-- A stored node of any sort. -/
inductive Content where
  | expr (n : ExprNode)
  | init (n : InitNode)
  | decl (n : DeclNode)
  | stmt (n : StmtNode)
  | item (n : ItemNode)

/-- A node of any sort. -/
def lookup (a : Arena) : Ref → Option (Span × Content)
  | .expr id => (a.exprNode? id).map fun x => (x.1, .expr x.2)
  | .init id => (a.initNode? id).map fun x => (x.1, .init x.2)
  | .decl id => (a.declNode? id).map fun x => (x.1, .decl x.2)
  | .stmt id => (a.stmtNode? id).map fun x => (x.1, .stmt x.2)
  | .item id => (a.itemNode? id).map fun x => (x.1, .item x.2)

/-- The node with a number, and none for 0. -/
def Ref.unlessZero (sort : Nat → Ref) (id : Nat) : List Ref := if id = 0 then [] else [sort id]

/-- The expressions to which an expression refers. -/
def ExprNode.children : ExprNode → List Ref
  | .call _ _ args => args.map .expr
  | .binary _ l r => [.expr l, .expr r]
  | .unary _ e | .group e => [.expr e]
  | .index t i => [.expr t, .expr i]
  | .ident _ | .lit _ | .bare _ => []

/-- The nodes to which an initializer refers. -/
def InitNode.children : InitNode → List Ref
  | .expr e => [.expr e]
  | .list elems => elems.map .init

/-- The nodes to which a definition refers. It can do without an initializer. -/
def DefNode.children (d : DefNode) : List Ref := d.dims.map .expr ++ Ref.unlessZero .init d.init

/-- The nodes to which a statement refers. An expression statement, a `return` and the end of a
conditional can do without. -/
def StmtNode.children : StmtNode → List Ref
  | .block stmts => stmts.map .stmt
  | .decl d => [.decl d]
  | .assign t v => [.expr t, .expr v]
  | .expr e | .return e => Ref.unlessZero .expr e
  | .ifThen c t e => .expr c :: .stmt t :: Ref.unlessZero .stmt e
  | .while c b => [.expr c, .stmt b]
  | .break | .continue | .bare _ => []

/-- The nodes to which a parameter refers. -/
def ParamNode.children (p : ParamNode) : List Ref := p.dims.map .expr

/-- The nodes to which an item refers. A function can do without a body. -/
def ItemNode.children : ItemNode → List Ref
  | .fn _ _ _ ps body => ps.flatMap ParamNode.children ++ Ref.unlessZero .stmt body
  | .decl d => [.decl d]
  | .bare _ => []

/-- The nodes to which a node refers. -/
def Content.children : Content → List Ref
  | .expr n => n.children
  | .init n => n.children
  | .decl n => n.defs.flatMap DefNode.children
  | .stmt n => n.children
  | .item n => n.children

/-- The number of a node. -/
def Ref.id : Ref → Nat
  | .expr id | .init id | .decl id | .stmt id | .item id => id

/-- How many nodes there are of the sort of a node. -/
def count (a : Arena) : Ref → Nat
  | .expr _ => a.exprNodes.size
  | .init _ => a.inits.size
  | .decl _ => a.decls.size
  | .stmt _ => a.stmtNodes.size
  | .item _ => a.itemNodes.size

/-- Whether the numbers of two nodes allow that the first was made before the second. They tell of
nodes of the same sort only. -/
def Ref.Precedes : Ref → Ref → Prop
  | .expr c, .expr id | .init c, .init id | .decl c, .decl id | .stmt c, .stmt id
  | .item c, .item id => c < id
  | _, _ => True

/-- Whether a statement is there and may stand where a declaration may not. -/
def PlainStmt (a : Arena) (id : Nat) : Prop :=
  ∃ s n, a.lookup (.stmt id) = some (s, .stmt n) ∧ ∀ d, n ≠ .decl d

/-- Whether a statement is there and is a block. -/
def BlockStmt (a : Arena) (id : Nat) : Prop :=
  ∃ s ids, a.lookup (.stmt id) = some (s, .stmt (.block ids))

/-- Whether a node has all that its kind calls for: contents, an operator of the language, something
that is defined, arms that declare nothing in the scope around them, a body that is a block. -/
def Content.Proper (a : Arena) : Content → Prop
  | .expr (.binary op _ _) => op.Known
  | .expr (.unary op _) => op.Known
  | .decl n => n.defs ≠ []
  | .stmt (.ifThen _ t e) => a.PlainStmt t ∧ (e ≠ 0 → a.PlainStmt e)
  | .stmt (.while _ b) => a.PlainStmt b
  | .item (.fn _ _ _ _ body) => body ≠ 0 → a.BlockStmt body
  | .expr (.bare _) | .stmt (.bare _) | .item (.bare _) => False
  | _ => True

/-- Whether a node is there. -/
def Has (a : Arena) (r : Ref) : Prop := (a.lookup r).isSome

/-- The nodes to which a node refers, none if it is not there. -/
def children (a : Arena) (r : Ref) : List Ref := (a.lookup r).elim [] (·.2.children)

/-- Whether every node has a greater number than the nodes of its sort to which it refers. -/
def Ordered (a : Arena) : Prop := ∀ {r c}, c ∈ a.children r → c.Precedes r

/-- Tables whose heads and contents are in step, for each sort of node that is stored in two
parts. -/
structure Exact (a : Arena) : Prop where
  exprs : a.exprNodes.Exact
  stmts : a.stmtNodes.Exact
  items : a.itemNodes.Exact

/-- Tables of nodes that have all they need, in which each node was made after the nodes to which it
refers, and is referred to once or is one of `roots`. -/
structure Rooted (a : Arena) (roots : List Ref) : Prop where
  exact : Exact a
  proper : ∀ {r s n}, a.lookup r = some (s, n) → n.Proper a
  listed : ∀ r, r ∈ a.made ↔ a.Has r
  once : a.made.Nodup
  earlier : ∀ {r before}, r :: before <:+ a.made → a.children r ⊆ before
  ordered : a.Ordered
  owned : (a.made.flatMap a.children ++ roots).Perm a.made

/-- Only nodes that are there refer to others. -/
theorem has_of_child {a : Arena} {c r : Ref} (child : c ∈ a.children r) : a.Has r := by
  unfold children at child
  cases found : a.lookup r with
  | none => rw [found] at child; cases child
  | some x => rw [Has, found]; rfl

/-- No node has the number 0. -/
theorem Has.ne_zero {a : Arena} {r : Ref} (has : a.Has r) : r.id ≠ 0 := by
  intro zero
  cases r <;> cases zero <;> cases has

/-- The numbers in use count from 1 up to the number of nodes of the sort. -/
theorem Has.le_count {a : Arena} {r : Ref} (has : a.Has r) : r.id ≤ a.count r := by
  cases r <;> rw [Has, lookup, Option.isSome_map] at has
  case init | decl => exact le_of_node? has
  all_goals exact Nodes.le_of_find? has

theorem lookup_start (r : Ref) : lookup {} r = none := by
  cases r <;>
    simp [lookup, exprNode?, stmtNode?, initNode?, declNode?, itemNode?, Nodes.find?, node?_empty]

theorem rooted_start : Rooted {} [] where
  exact := ⟨Nodes.exact_start, Nodes.exact_start, Nodes.exact_start⟩
  proper {r _ _} found := by rw [lookup_start] at found; cases found
  listed r := ⟨(nomatch ·), fun has => by rw [Has, lookup_start] at has; cases has⟩
  once := .nil
  earlier suffix := nomatch List.suffix_nil.mp suffix
  ordered child := by
    have has := has_of_child child
    rw [Has, lookup_start] at has
    cases has
  owned := .nil

namespace Rooted

variable {a : Arena} {roots rest : List Ref}

theorem perm (h : Rooted a roots) (same : roots.Perm rest) : Rooted a rest :=
  { h with owned := (same.symm.append_left _).trans h.owned }

theorem mem_made (h : Rooted a roots) {r : Ref} (mem : r ∈ roots) : r ∈ a.made :=
  h.owned.subset (List.mem_append_right _ mem)

/-- What a node refers to is there. -/
theorem has_child (h : Rooted a roots) {c r : Ref} (child : c ∈ a.children r) : a.Has c := by
  have parent := (h.listed r).mpr (has_of_child child)
  exact (h.listed c).mp (h.owned.subset
    (List.mem_append_left _ (List.mem_flatMap.mpr ⟨r, parent, child⟩)))

/-- References form no circle and no chain without end. -/
theorem wellFounded (h : Rooted a roots) : WellFounded fun c r => c ∈ a.children r := by
  -- By induction on what was made: a node comes after all to which it refers.
  have listed {l : List Ref} : l <:+ a.made → ∀ r ∈ l, Acc (fun c r => c ∈ a.children r) r := by
    induction l with
    | nil => nofun
    | cons q before ih =>
      intro suffix r mem
      have older := ih ((List.suffix_cons q before).trans suffix)
      rcases List.mem_cons.mp mem with rfl | mem
      · exact .intro r fun c child => older c (h.earlier suffix child)
      · exact older r mem
  refine ⟨fun r => .intro r fun c child => ?_⟩
  exact listed (List.suffix_refl a.made) c ((h.listed c).mpr (h.has_child child))

end Rooted

/-! ## Growth -/

/-- Tables that still have all nodes that were there. -/
structure Grows (a b : Arena) : Prop where
  lookup : ∀ {r x}, a.lookup r = some x → b.lookup r = some x

theorem Grows.refl (a : Arena) : Grows a a := ⟨id⟩

theorem Grows.trans {a b c : Arena} (h : Grows a b) (k : Grows b c) : Grows a c :=
  ⟨fun found => k.lookup (h.lookup found)⟩

theorem PlainStmt.grows {a b : Arena} (g : Grows a b) {id : Nat} : a.PlainStmt id → b.PlainStmt id
  | ⟨s, n, found, plain⟩ => ⟨s, n, g.lookup found, plain⟩

theorem BlockStmt.grows {a b : Arena} (g : Grows a b) {id : Nat} : a.BlockStmt id → b.BlockStmt id
  | ⟨s, ids, found⟩ => ⟨s, ids, g.lookup found⟩

theorem Content.Proper.grows {a b : Arena} (g : Grows a b) : {n : Content} → n.Proper a → n.Proper b
  | .stmt (.ifThen ..), ⟨t, e⟩ => ⟨t.grows g, fun ne => (e ne).grows g⟩
  | .stmt (.while ..), body => PlainStmt.grows g body
  | .item (.fn ..), body => fun ne => (body ne).grows g
  | .expr n, h => by cases n <;> exact h
  | .init _, h | .decl _, h | .stmt (.block _), h | .stmt (.decl _), h | .stmt (.assign ..), h
  | .stmt (.expr _), h | .stmt .break, h | .stmt .continue, h | .stmt (.return _), h
  | .item (.decl _), h => h

/-- Tables with one more node. -/
structure Adds (a : Arena) (r : Ref) (x : Span × Content) (b : Arena) : Prop where
  exact : Exact b
  made : b.made = r :: a.made
  fileItems : b.fileItems = a.fileItems
  /-- It takes the next number of its sort. -/
  number : r.id = a.count r + 1
  lookup : ∀ q, b.lookup q = if q = r then some x else a.lookup q

namespace Adds

variable {a b : Arena} {r : Ref} {x : Span × Content} {roots rest : List Ref}

theorem found (adds : Adds a r x b) : b.lookup r = some x := by rw [adds.lookup, if_pos rfl]

theorem not_has (adds : Adds a r x b) : ¬ a.Has r := fun has => by
  have le := has.le_count
  rw [adds.number] at le
  omega

/-- The nodes that were there have smaller numbers. -/
theorem newest (adds : Adds a r x b) {q : Ref} (old : a.Has q) : q.Precedes r := by
  have le := old.le_count
  have number := adds.number
  cases q <;> cases r <;>
    first
    | trivial
    | exact Nat.lt_of_lt_of_eq (Nat.lt_succ_of_le le) number.symm

theorem lookup_old (adds : Adds a r x b) {q : Ref} (old : a.Has q) : b.lookup q = a.lookup q := by
  have other : q ≠ r := by
    rintro rfl
    exact adds.not_has old
  rw [adds.lookup, if_neg other]

theorem grows (adds : Adds a r x b) : Grows a b where
  lookup {q y} found := by rw [adds.lookup_old (by rw [Has, found]; rfl), found]

theorem has_iff (adds : Adds a r x b) (q : Ref) : b.Has q ↔ q = r ∨ a.Has q := by
  unfold Has
  rw [adds.lookup]
  split <;> simp_all

theorem children_new (adds : Adds a r x b) : b.children r = x.2.children := by
  unfold children
  rw [adds.found]
  rfl

theorem children_old (adds : Adds a r x b) {q : Ref} (old : a.Has q) :
    b.children q = a.children q := by
  unfold children
  rw [adds.lookup_old old]

/-- A node that refers to some of the roots takes their place. -/
theorem rooted (adds : Adds a r x b) (h : Rooted a roots) (proper : x.2.Proper a)
    (take : roots.Perm (x.2.children ++ rest)) : Rooted b (r :: rest) where
  exact := adds.exact
  proper {q _ _} found := by
    rw [adds.lookup] at found
    split at found
    · cases found
      exact proper.grows adds.grows
    · exact (h.proper found).grows adds.grows
  listed q := by rw [adds.made, adds.has_iff, List.mem_cons, h.listed]
  once := by
    have new : r ∉ a.made := fun mem => adds.not_has ((h.listed r).mp mem)
    rw [adds.made]
    exact List.nodup_cons.mpr ⟨new, h.once⟩
  earlier {q before} suffix := by
    rw [adds.made] at suffix
    rcases List.suffix_cons_iff.mp suffix with same | older
    · obtain ⟨rfl, rfl⟩ := List.cons.inj same
      rw [adds.children_new]
      intro c mem
      exact h.mem_made (take.symm.subset (List.mem_append_left _ mem))
    · rw [adds.children_old ((h.listed q).mp (older.subset List.mem_cons_self))]
      exact h.earlier older
  ordered {q c} child := by
    rcases (adds.has_iff q).mp (has_of_child child) with rfl | old
    · rw [adds.children_new] at child
      have root := take.symm.subset (List.mem_append_left _ child)
      exact adds.newest ((h.listed c).mp (h.mem_made root))
    · rw [adds.children_old old] at child
      exact h.ordered child
  owned := by
    -- What the new node takes from the roots appears among the references instead.
    have old : a.made.flatMap b.children = a.made.flatMap a.children :=
      List.flatMap_congr fun q mem => adds.children_old ((h.listed q).mp mem)
    rw [adds.made, List.flatMap_cons, adds.children_new, old]
    calc (x.2.children ++ a.made.flatMap a.children) ++ r :: rest
      _ |>.Perm (r :: (x.2.children ++ a.made.flatMap a.children ++ rest)) := List.perm_middle
      _ |>.Perm (r :: (a.made.flatMap a.children ++ (x.2.children ++ rest))) := by
        rw [List.append_assoc]
        exact (List.perm_append_comm_assoc ..).cons r
      _ |>.Perm (r :: (a.made.flatMap a.children ++ roots)) :=
        (take.symm.append_left _).cons r
      _ |>.Perm (r :: a.made) := h.owned.cons r

end Adds

/-! ## Making a node -/

section

variable {a : Arena} (s : Span)

theorem addExpr_adds (exact : Exact a) {n : ExprNode} :
    Adds a (.expr (a.addExpr s n).1) (s, .expr n) (a.addExpr s n).2 where
  exact := { exact with exprs := exact.exprs.add s n }
  made := rfl
  fileItems := rfl
  number := Nodes.add_fst ..
  lookup q := by
    show _ = if q = .expr (a.exprNodes.add s n).1 then _ else _
    rw [Nodes.add_fst]
    cases q with
    | expr id =>
      show ((a.exprNodes.add s n).2.find? id).map _ = _
      have stands : Kinded.isBare n = true → Kinded.bare (Kinded.kind n) = n := fun bare => by
        cases n <;> first | rfl | cases bare
      rw [exact.exprs.find?_add s stands, apply_ite (Option.map _)]
      simp only [Ref.expr.injEq]
      rfl
    | _ => rfl

theorem addStmt_adds (exact : Exact a) {n : StmtNode} (proper : (Content.stmt n).Proper a) :
    Adds a (.stmt (a.addStmt s n).1) (s, .stmt n) (a.addStmt s n).2 where
  exact := { exact with stmts := exact.stmts.add s n }
  made := rfl
  fileItems := rfl
  number := Nodes.add_fst ..
  lookup q := by
    show _ = if q = .stmt (a.stmtNodes.add s n).1 then _ else _
    rw [Nodes.add_fst]
    cases q with
    | stmt id =>
      show ((a.stmtNodes.add s n).2.find? id).map _ = _
      have stands : Kinded.isBare n = true → Kinded.bare (Kinded.kind n) = n := fun bare => by
        -- A bare statement of another kind would stand for a `break` or a `continue`.
        cases n <;> first | exact proper.elim | rfl | cases bare
      rw [exact.stmts.find?_add s stands, apply_ite (Option.map _)]
      simp only [Ref.stmt.injEq]
      rfl
    | _ => rfl

theorem addItem_adds (exact : Exact a) {n : ItemNode} :
    Adds a (.item (a.addItem s n).1) (s, .item n) (a.addItem s n).2 where
  exact := { exact with items := exact.items.add s n }
  made := rfl
  fileItems := rfl
  number := Nodes.add_fst ..
  lookup q := by
    show _ = if q = .item (a.itemNodes.add s n).1 then _ else _
    rw [Nodes.add_fst]
    cases q with
    | item id =>
      show ((a.itemNodes.add s n).2.find? id).map _ = _
      have stands : Kinded.isBare n = true → Kinded.bare (Kinded.kind n) = n := fun bare => by
        cases n <;> first | rfl | cases bare
      rw [exact.items.find?_add s stands, apply_ite (Option.map _)]
      simp only [Ref.item.injEq]
      rfl
    | _ => rfl

theorem addInit_adds (exact : Exact a) (n : InitNode) :
    Adds a (.init (a.addInit s n).1) (s, .init n) (a.addInit s n).2 where
  exact := { exact with }
  made := rfl
  fileItems := rfl
  number := rfl
  lookup q := by
    show _ = if q = .init (a.inits.size + 1) then _ else _
    cases q with
    | init id =>
      show (node? (a.inits.push (s, n)) id).map _ = _
      rw [node?_push, apply_ite (Option.map _)]
      simp only [Ref.init.injEq]
      rfl
    | _ => rfl

theorem addDecl_adds (exact : Exact a) (n : DeclNode) :
    Adds a (.decl (a.addDecl s n).1) (s, .decl n) (a.addDecl s n).2 where
  exact := { exact with }
  made := rfl
  fileItems := rfl
  number := rfl
  lookup q := by
    show _ = if q = .decl (a.decls.size + 1) then _ else _
    cases q with
    | decl id =>
      show (node? (a.decls.push (s, n)) id).map _ = _
      rw [node?_push, apply_ite (Option.map _)]
      simp only [Ref.decl.injEq]
      rfl
    | _ => rfl

end

end SysY.Arena

import SysY.Proofs.Syntax.Arena.Parser
import SysY.Proofs.Syntax.Dump
import SysY.Proofs.Lower.Moments
import SysY.Proofs.Lower.Sizes

/-! # Well-founded tables

However parsing ends, each node in the tables refers to nodes that are there and that were made
before it, and no two references lead to the same node. Therefore following references ends, within
as many steps as the number of the node to start from, and meets no gap. -/

namespace SysY

open Source (Span)

namespace Arena

/-! ## References -/

/-- Each head stands for contents of its kind, or for a node without any. -/
def Nodes.Matched {ν : Type} [Kinded ν] (n : Nodes ν) : Prop :=
  ∀ {id h}, node? n.heads id = some h → ∃ x, n.find? id = some (h.span, x) ∧
    Kinded.kind x = h.kind ∧
    if Kinded.isBare x then h.contents = 0 else node? (n.table h.kind) h.contents = some x

/-- Tables in which references can be followed. The unit is no node of them: it is there from the
start, and takes its items one by one. -/
structure WellMade (a : Arena) : Prop where
  exprs : a.exprNodes.Matched
  stmts : a.stmtNodes.Matched
  items : a.itemNodes.Matched
  /-- Only `break` and `continue` statements have no contents. -/
  proper : ∀ {r s n}, a.lookup r = some (s, n) → n.Proper a
  /-- Every node was made, and made once. -/
  made : ∀ r, r ∈ a.made ↔ a.Has r
  once : a.made.Nodup
  /-- Each reference leads to a node that is there. -/
  there : ∀ {r c}, c ∈ a.children r → a.Has c
  /-- Each reference leads to a node that was made before. -/
  earlier : ∀ {r before}, r :: before <:+ a.made → a.children r ⊆ before
  /-- Numbers are given out in order. -/
  ordered : a.Ordered
  unit : ∀ id ∈ a.fileItems, a.Has (.item id)
  /-- No two references lead to the same node. -/
  single : (a.made.flatMap a.children ++ a.fileItems.map Ref.item).Nodup
  wellFounded : WellFounded fun c r => c ∈ a.children r

theorem Sound.wellMade {a : Arena} : Sound a → a.WellMade
  | ⟨rest, rooted⟩ => {
    exprs := rooted.exact.exprs.matched
    stmts := rooted.exact.stmts.matched
    items := rooted.exact.items.matched
    proper := rooted.proper
    made := rooted.listed
    once := rooted.once
    there := rooted.has_child
    earlier := rooted.earlier
    ordered := rooted.ordered
    unit id mem := (rooted.listed _).mp
      (rooted.mem_made (List.mem_append_right _ (List.mem_map_of_mem mem)))
    single := by
      have all := rooted.owned.nodup_iff.mpr rooted.once
      rw [← List.append_assoc] at all
      exact all.sublist ((List.sublist_append_left _ rest).append_right _)
    wellFounded := rooted.wellFounded }

/-! ## Following references -/

/-- What follows references from an expression ends, with what the tree `e` says. -/
structure ExprEnds (a : Arena) (id : Nat) (e : Expr) : Prop where
  whole : e.Whole
  read : ∀ {n}, id ≤ n → a.readExpr n id = some e
  place : ∃ place, (∀ {n}, id ≤ n → a.lvalue n id [] = some (.ok place)) ∧
    a.HoldsPlace place e.place?
  groups : ∃ inner, (∀ {n}, id ≤ n → a.stripGroups n id = some (.ok inner)) ∧
    a.expr? inner = some e.stripGroups
  eval : ∀ {env : Const.Env}, env.Full → (Const.eval env e).Calm
  dump : ∃ text, e.dump = .ok text

theorem HoldsExpr.ends {a : Arena} (ordered : a.Ordered) {id : Nat} {e : Expr}
    (h : a.HoldsExpr id e) (whole : e.Whole) : a.ExprEnds id e where
  whole := whole
  read := h.read ordered
  place := by
    have none : a.HoldsExprs [] [] := trivial
    obtain ⟨place, ends, same⟩ := h.lvalue ordered none
    refine ⟨place, ends, ?_⟩
    simpa using same
  groups := by
    obtain ⟨inner, ends, same⟩ := h.stripGroups ordered
    exact ⟨inner, ends, same.expr? ordered⟩
  eval full := Const.eval_calm full e whole
  dump := whole.dump

/-- What follows references from an initializer ends, with what the tree `i` says. -/
structure InitEnds (a : Arena) (id : Nat) (i : Init) : Prop where
  whole : i.Whole
  read : ∀ {n}, id ≤ n → a.readInit n id = some i
  flatten : ∀ {α : Type} (zero : α) {elem : Expr → Outcome α} {dims : List Int},
    (∀ e, e.Whole → (elem e).Calm) → Bounds dims → dims.prod ≤ Const.Layout.maxCount →
      (Const.flatten zero elem dims i).Calm
  dump : ∃ text, i.dump = .ok text

theorem HoldsInit.ends {a : Arena} (ordered : a.Ordered) {id : Nat} {i : Init}
    (h : a.HoldsInit id i) (whole : i.Whole) : a.InitEnds id i where
  whole := whole
  read := h.read ordered
  flatten zero _ _ calm bounds small := Const.flatten_calm zero calm bounds small whole
  dump := whole.dump

/-- Whatever follows references ends, and meets no gap. -/
structure Ends (a : Arena) : Prop where
  expr : ∀ {id}, a.Has (.expr id) → ∃ e, a.ExprEnds id e
  init : ∀ {id}, a.Has (.init id) → ∃ i, a.InitEnds id i
  decl : ∀ {id}, a.Has (.decl id) → ∃ d, d.Whole ∧ a.readDecl id = some (some d) ∧
    ∀ depth, ∃ text, Dump.declaration depth (some d) = .ok text
  stmt : ∀ {id}, a.Has (.stmt id) → ∃ s, s.Whole ∧ (∀ {n}, id ≤ n → a.readStmt n id = some s) ∧
    ∀ depth, ∃ text, s.dump depth = .ok text
  item : ∀ {id}, a.Has (.item id) → ∃ i, i.Whole ∧ a.readItem id = some i ∧
    ∀ depth, ∃ text, i.dump depth = .ok text

theorem Sound.ends {a : Arena} (sound : Sound a) : a.Ends := by
  have ordered : a.Ordered := sound.ordered
  obtain ⟨_, rooted⟩ := sound
  constructor
  case expr =>
    intro id has
    obtain ⟨e, held, whole⟩ := rooted.stands _ has
    exact ⟨e, held.ends ordered whole⟩
  case init =>
    intro id has
    obtain ⟨i, held, whole⟩ := rooted.stands _ has
    exact ⟨i, held.ends ordered whole⟩
  case decl =>
    intro id has
    obtain ⟨d, held, whole⟩ := rooted.stands _ has
    exact ⟨d, whole, held.read ordered, fun depth => Dump.declaration_whole depth whole⟩
  case stmt =>
    intro id has
    obtain ⟨s, held, whole⟩ := rooted.stands _ has
    exact ⟨s, whole, held.read ordered, fun depth => whole.dump depth⟩
  case item =>
    intro id has
    obtain ⟨i, held, whole⟩ := rooted.stands _ has
    exact ⟨i, whole, held.read ordered, fun depth => whole.dump depth⟩

end Arena

/-! ## Parsing -/

/-- Nothing is missing from the parts of a whole unit that lowering gets to. -/
theorem Lower.Reached.whole {withLibrary : Bool} {u : CompUnit} {part : Lower.Part}
    {σ : Lower.State} (whole : u.Whole) (reached : Lower.Reached withLibrary u part σ) :
    part.Whole := by
  cases reached.holds whole with
  | top all => exact all
  | body _ all => exact all

/-- What is known of the tables in which a unit is stored. -/
structure Arena.Stores (a : Arena) (u : CompUnit) : Prop where
  read : a.readUnit = some u
  whole : u.Whole
  dump : ∃ text, u.dump = .ok text
  lower : ∀ {withLibrary part σ}, Lower.Reached withLibrary u part σ → part.Whole

theorem Arena.stores_ofUnit {u : CompUnit} (whole : u.Whole) : (Arena.ofUnit u).Stores u where
  read := readUnit_ofUnit whole
  whole := whole
  dump := whole.dump
  lower reached := reached.whole whole

/-- However parsing a file ends, the tables that it leaves are well made, and what follows
references in them ends without meeting a gap. When it succeeds they store the tree. -/
theorem stored_wellFounded (file : Source.File) (canceled : Bool) :
    let stored := Stored.ofLexed (.ofFile file) canceled
    let parsed := Parsed.ofLexed (.ofFile file) canceled
    stored.arena.WellMade ∧ stored.arena.Ends ∧ stored.result = parsed.result.map (fun _ => ()) ∧
      ∀ {u}, parsed.result = .ok u → stored.arena.Stores u := by
  intro stored parsed
  have sound := Stored.sound (.ofFile file) canceled
  refine ⟨sound.wellMade, sound.ends, Stored.result_eq .., fun success => ?_⟩
  rw [Stored.arena_eq _ _ success]
  exact Arena.stores_ofUnit (Parsed.whole success)

end SysY

import SysY.Proofs.Syntax.Arena.Trees

/-! # Storing trees

Storing a tree without gaps in rooted tables makes a new root that holds it, and leaves the other
roots alone. -/

namespace SysY.Arena

open Source (Span)

/-- Tables that have grown by new roots. -/
structure Plants (a : Arena) (roots new : List Ref) (b : Arena) : Prop where
  grows : Grows a b
  fileItems : b.fileItems = a.fileItems
  rooted : Rooted b (new ++ roots)

namespace Plants

variable {a b c : Arena} {roots new more : List Ref}

theorem start (h : Rooted a roots) : Plants a roots [] a := ⟨.refl a, rfl, h⟩

/-- What grows next to what has grown. -/
theorem and (h : Plants a roots new b) (k : Plants b (new ++ roots) more c) :
    Plants a roots (new ++ more) c where
  grows := h.grows.trans k.grows
  fileItems := k.fileItems.trans h.fileItems
  rooted := by
    refine k.rooted.perm ?_
    rw [List.append_assoc]
    exact List.perm_append_comm_assoc ..

/-- A node takes the new roots. -/
theorem make {r : Ref} {x : Span × Content} (adds : Adds b r x c) (proper : x.2.Proper b)
    (h : Plants a roots x.2.children b) : Plants a roots [r] c where
  grows := h.grows.trans adds.grows
  fileItems := adds.fileItems.trans h.fileItems
  rooted := adds.rooted h.rooted proper (.refl _)

theorem has {r : Ref} (h : Plants a roots [r] b) : b.Has r :=
  (h.rooted.listed r).mp (h.rooted.mem_made List.mem_cons_self)

variable {s : Span}

theorem addExpr {n : ExprNode} {e : Expr} (h : Plants a roots n.children b)
    (proper : (Content.expr n).Proper b)
    (held : ∀ {c id}, Grows b c → c.lookup (.expr id) = some (s, .expr n) → c.HoldsExpr id e) :
    Plants a roots [.expr (b.addExpr s n).1] (b.addExpr s n).2 ∧
      (b.addExpr s n).2.HoldsExpr (b.addExpr s n).1 e := by
  have adds := addExpr_adds s h.rooted.exact (n := n)
  exact ⟨make adds proper h, held adds.grows adds.found⟩

theorem addInit {n : InitNode} {i : Init} (h : Plants a roots n.children b)
    (held : ∀ {c id}, Grows b c → c.lookup (.init id) = some (s, .init n) → c.HoldsInit id i) :
    Plants a roots [.init (b.addInit s n).1] (b.addInit s n).2 ∧
      (b.addInit s n).2.HoldsInit (b.addInit s n).1 i := by
  have adds := addInit_adds s h.rooted.exact n
  exact ⟨make adds trivial h, held adds.grows adds.found⟩

theorem addStmt {n : StmtNode} {t : Stmt} (h : Plants a roots n.children b)
    (proper : (Content.stmt n).Proper b)
    (held : ∀ {c id}, Grows b c → c.lookup (.stmt id) = some (s, .stmt n) → c.HoldsStmt id t) :
    Plants a roots [.stmt (b.addStmt s n).1] (b.addStmt s n).2 ∧
      (b.addStmt s n).2.HoldsStmt (b.addStmt s n).1 t := by
  have adds := addStmt_adds s h.rooted.exact proper
  exact ⟨make adds proper h, held adds.grows adds.found⟩

theorem addItem {n : ItemNode} {i : Item} (h : Plants a roots n.children b)
    (proper : (Content.item n).Proper b)
    (held : ∀ {c id}, Grows b c → c.lookup (.item id) = some (s, .item n) → c.HoldsItem id i) :
    Plants a roots [.item (b.addItem s n).1] (b.addItem s n).2 ∧
      (b.addItem s n).2.HoldsItem (b.addItem s n).1 i := by
  have adds := addItem_adds s h.rooted.exact (n := n)
  exact ⟨make adds proper h, held adds.grows adds.found⟩

end Plants

variable {a : Arena} {roots : List Ref}

theorem storeOptional_plants {α : Type} {sort : Nat → Ref} {store : Arena → α → Nat × Arena}
    {holds : Arena → Nat → α → Prop} {x : Option α} (numbered : ∀ id, (sort id).id = id)
    (each : ∀ y ∈ x, Plants a roots [sort (store a y).1] (store a y).2 ∧
      holds (store a y).2 (store a y).1 y) (h : Rooted a roots) :
    Plants a roots (Ref.unlessZero sort (storeOptional store a x).1) (storeOptional store a x).2 ∧
      Optionally (holds (storeOptional store a x).2) (storeOptional store a x).1 x := by
  cases x with
  | none => exact ⟨.start h, rfl⟩
  | some y =>
    obtain ⟨planted, held⟩ := each y rfl
    have ne := planted.has.ne_zero
    rw [numbered] at ne
    refine ⟨?_, ne, held⟩
    rw [storeOptional, Ref.unlessZero, if_neg ne]
    exact planted

mutual

theorem storeExpr_plants : (e : Expr) → e.Whole → ∀ {a : Arena} {roots : List Ref},
    Rooted a roots → Plants a roots [.expr (a.storeExpr e).1] (a.storeExpr e).2 ∧
      (a.storeExpr e).2.HoldsExpr (a.storeExpr e).1 e
  | .ident s name, _, _, _, h | .lit s v, _, _, _, h =>
    (Plants.start h).addExpr trivial fun _ found => found
  | .call s name ns es, whole, a, _, h => by
    obtain ⟨args, held⟩ := storeExprs_plants es whole h
    exact args.addExpr trivial fun grows found => ⟨_, found, held.grows grows⟩
  | .binary s op l r, whole, _, _, h => by
    obtain ⟨left, heldL⟩ := storeExpr_plants l whole.2.1 h
    obtain ⟨right, heldR⟩ := storeExpr_plants r whole.2.2 left.rooted
    exact (left.and right).addExpr whole.1 fun grows found =>
      ⟨_, _, found, heldL.grows (right.grows.trans grows), heldR.grows grows⟩
  | .unary s op e, whole, _, _, h => by
    obtain ⟨operand, held⟩ := storeExpr_plants e whole.2 h
    exact operand.addExpr whole.1 fun grows found => ⟨_, found, held.grows grows⟩
  | .group s e, whole, _, _, h => by
    obtain ⟨inner, held⟩ := storeExpr_plants e whole h
    exact inner.addExpr trivial fun grows found => ⟨_, found, held.grows grows⟩
  | .index s t i, whole, _, _, h => by
    obtain ⟨target, heldT⟩ := storeExpr_plants t whole.1 h
    obtain ⟨idx, heldI⟩ := storeExpr_plants i whole.2 target.rooted
    exact (target.and idx).addExpr trivial fun grows found =>
      ⟨_, _, found, heldT.grows (idx.grows.trans grows), heldI.grows grows⟩

theorem storeExprs_plants : (es : List Expr) → Expr.AllWhole es → ∀ {a : Arena} {roots : List Ref},
    Rooted a roots → Plants a roots ((a.storeExprs es).1.map .expr) (a.storeExprs es).2 ∧
      (a.storeExprs es).2.HoldsExprs (a.storeExprs es).1 es
  | [], _, _, _, h => ⟨.start h, trivial⟩
  | e :: es, whole, _, _, h => by
    obtain ⟨first, held⟩ := storeExpr_plants e whole.1 h
    obtain ⟨rest, helds⟩ := storeExprs_plants es whole.2 first.rooted
    exact ⟨first.and rest, held.grows rest.grows, helds⟩

end

mutual

theorem storeInit_plants : (i : Init) → i.Whole → ∀ {a : Arena} {roots : List Ref},
    Rooted a roots → Plants a roots [.init (a.storeInit i).1] (a.storeInit i).2 ∧
      (a.storeInit i).2.HoldsInit (a.storeInit i).1 i
  | .expr s e, whole, _, _, h => by
    obtain ⟨value, held⟩ := storeExpr_plants e whole h
    exact value.addInit fun grows found => ⟨_, found, held.grows grows⟩
  | .list s is, whole, _, _, h => by
    obtain ⟨elems, held⟩ := storeInits_plants is whole h
    exact elems.addInit fun grows found => ⟨_, found, held.grows grows⟩

theorem storeInits_plants : (is : List Init) → Init.AllWhole is → ∀ {a : Arena} {roots : List Ref},
    Rooted a roots → Plants a roots ((a.storeInits is).1.map .init) (a.storeInits is).2 ∧
      (a.storeInits is).2.HoldsInits (a.storeInits is).1 is
  | [], _, _, _, h => ⟨.start h, trivial⟩
  | i :: is, whole, _, _, h => by
    obtain ⟨first, held⟩ := storeInit_plants i whole.1 h
    obtain ⟨rest, helds⟩ := storeInits_plants is whole.2 first.rooted
    exact ⟨first.and rest, held.grows rest.grows, helds⟩

end

theorem storeDef_plants {d : Def} (whole : d.Whole) (h : Rooted a roots) :
    Plants a roots (a.storeDef d).1.children (a.storeDef d).2 ∧
      (a.storeDef d).2.HoldsDef (a.storeDef d).1 d := by
  obtain ⟨dims, held⟩ := storeExprs_plants d.dims (Expr.allWhole_iff.mpr whole.dims) h
  obtain ⟨init, heldI⟩ := storeOptional_plants (fun _ => rfl)
    (fun i mem => storeInit_plants i (whole.init i mem) dims.rooted) dims.rooted
  exact ⟨dims.and init, rfl, rfl, held.grows init.grows, heldI⟩

theorem storeDefs_plants {ds : List Def} (whole : ∀ d ∈ ds, d.Whole) (h : Rooted a roots) :
    Plants a roots ((a.storeDefs ds).1.flatMap DefNode.children) (a.storeDefs ds).2 ∧
      List.Forall₂ (a.storeDefs ds).2.HoldsDef (a.storeDefs ds).1 ds := by
  induction ds generalizing a roots with
  | nil => exact ⟨.start h, .nil⟩
  | cons d ds ih =>
    obtain ⟨wholeD, wholes⟩ := List.forall_mem_cons.mp whole
    obtain ⟨first, held⟩ := storeDef_plants wholeD h
    obtain ⟨rest, helds⟩ := ih wholes first.rooted
    exact ⟨first.and rest, .cons (held.grows rest.grows) helds⟩

theorem storeDecl_plants {d : Decl} (whole : d.Whole) (h : Rooted a roots) :
    Plants a roots [.decl (a.storeDecl (some d)).1] (a.storeDecl (some d)).2 ∧
      (a.storeDecl (some d)).2.HoldsDecl (a.storeDecl (some d)).1 d := by
  obtain ⟨defs, held⟩ := storeDefs_plants whole.defs h
  have adds := addDecl_adds d.span defs.rooted.exact
    { isConst := d.isConst, type := d.type, defs := (a.storeDefs d.defs).1 }
  have proper : (a.storeDefs d.defs).1 ≠ [] := fun none =>
    whole.nonempty (List.forall₂_nil_left_iff.mp (none ▸ held))
  exact ⟨.make adds proper defs, _, adds.found, held.imp fun _ _ h => h.grows adds.grows⟩

mutual

theorem storeStmt_plants : (t : Stmt) → t.Whole → ∀ {a : Arena} {roots : List Ref},
    Rooted a roots → Plants a roots [.stmt (a.storeStmt t).1] (a.storeStmt t).2 ∧
      (a.storeStmt t).2.HoldsStmt (a.storeStmt t).1 t
  | .block s ss, whole, _, _, h => by
    obtain ⟨body, held⟩ := storeStmts_plants ss whole h
    exact body.addStmt trivial fun grows found => ⟨_, found, held.grows grows⟩
  | .decl s _, ⟨d, rfl, whole⟩, _, _, h => by
    obtain ⟨decl, held⟩ := storeDecl_plants whole h
    exact decl.addStmt trivial fun grows found => ⟨_, found, held.grows grows⟩
  | .assign s t v, whole, _, _, h => by
    obtain ⟨target, heldT⟩ := storeExpr_plants t whole.1 h
    obtain ⟨value, heldV⟩ := storeExpr_plants v whole.2 target.rooted
    exact (target.and value).addStmt trivial fun grows found =>
      ⟨_, _, found, heldT.grows (value.grows.trans grows), heldV.grows grows⟩
  | .expr s e, whole, _, _, h | .return s e, whole, _, _, h => by
    obtain ⟨value, held⟩ := storeOptional_plants (fun _ => rfl)
      (fun e mem => storeExpr_plants e (whole e mem) h) h
    exact value.addStmt trivial fun grows found =>
      ⟨_, found, held.imp fun _ e => e.grows grows⟩
  | .ifThen s c t none, whole, _, _, h => by
    obtain ⟨cond, heldC⟩ := storeExpr_plants c whole.1 h
    obtain ⟨thenArm, heldT⟩ := storeStmt_plants t whole.2.1 cond.rooted
    have plain := heldT.plain_iff.mpr whole.2.2
    exact (cond.and thenArm).addStmt ⟨plain, fun ne => (ne rfl).elim⟩ fun grows found =>
      ⟨_, _, found, heldC.grows (thenArm.grows.trans grows), heldT.grows grows⟩
  | .ifThen s c t (some e), whole, _, _, h => by
    obtain ⟨cond, heldC⟩ := storeExpr_plants c whole.1 h
    obtain ⟨thenArm, heldT⟩ := storeStmt_plants t whole.2.1.1 cond.rooted
    obtain ⟨elseArm, heldE⟩ := storeStmt_plants e whole.2.2.1 thenArm.rooted
    have ne := elseArm.has.ne_zero
    rw [Ref.id] at ne
    have plainT := (heldT.plain_iff.mpr whole.2.1.2).grows elseArm.grows
    have plainE := heldE.plain_iff.mpr whole.2.2.2
    refine Plants.addStmt (n := .ifThen _ _ _) ?_ ⟨plainT, fun _ => plainE⟩ fun grows found =>
      ⟨_, _, _, found, heldC.grows (thenArm.grows.trans (elseArm.grows.trans grows)),
        heldT.grows (elseArm.grows.trans grows), ne, heldE.grows grows⟩
    rw [StmtNode.children, Ref.unlessZero, if_neg ne]
    exact cond.and (thenArm.and elseArm)
  | .while s c b, whole, _, _, h => by
    obtain ⟨cond, heldC⟩ := storeExpr_plants c whole.1 h
    obtain ⟨body, heldB⟩ := storeStmt_plants b whole.2.1 cond.rooted
    have plain := heldB.plain_iff.mpr whole.2.2
    exact (cond.and body).addStmt plain fun grows found =>
      ⟨_, _, found, heldC.grows (body.grows.trans grows), heldB.grows grows⟩
  | .break s, _, _, _, h | .continue s, _, _, _, h =>
    (Plants.start h).addStmt trivial fun _ found => found

theorem storeStmts_plants : (ss : List Stmt) → Stmt.AllWhole ss → ∀ {a : Arena} {roots : List Ref},
    Rooted a roots → Plants a roots ((a.storeStmts ss).1.map .stmt) (a.storeStmts ss).2 ∧
      (a.storeStmts ss).2.HoldsStmts (a.storeStmts ss).1 ss
  | [], _, _, _, h => ⟨.start h, trivial⟩
  | s :: ss, whole, _, _, h => by
    obtain ⟨first, held⟩ := storeStmt_plants s whole.1 h
    obtain ⟨rest, helds⟩ := storeStmts_plants ss whole.2 first.rooted
    exact ⟨first.and rest, held.grows rest.grows, helds⟩

end

theorem storeParams_plants {ps : List Param} (whole : ∀ p ∈ ps, ∀ e ∈ p.dims, e.Whole)
    (h : Rooted a roots) :
    Plants a roots ((a.storeParams ps).1.flatMap ParamNode.children) (a.storeParams ps).2 ∧
      List.Forall₂ (a.storeParams ps).2.HoldsParam (a.storeParams ps).1 ps := by
  induction ps generalizing a roots with
  | nil => exact ⟨.start h, .nil⟩
  | cons p ps ih =>
    obtain ⟨wholeP, wholes⟩ := List.forall_mem_cons.mp whole
    obtain ⟨dims, held⟩ := storeExprs_plants p.dims (Expr.allWhole_iff.mpr wholeP) h
    obtain ⟨rest, helds⟩ := ih wholes dims.rooted
    exact ⟨dims.and rest, .cons ⟨rfl, rfl, rfl, rfl, held.grows rest.grows, rfl⟩ helds⟩

/-- A body that is there is a block if its tree is one. -/
theorem Optionally.block {id : Nat} : {body : Option Stmt} → Optionally a.HoldsStmt id body →
    (∀ t ∈ body, ∃ s ss, t = .block s ss ∧ Stmt.AllWhole ss) → id ≠ 0 → a.BlockStmt id
  | none, zero, _, ne => (ne zero).elim
  | some _, ⟨_, held⟩, blocks, _ => by
    obtain ⟨s, ss, rfl, -⟩ := blocks _ rfl
    obtain ⟨ids, found, -⟩ := held
    exact ⟨s, ids, found⟩

theorem storeItem_plants : {i : Item} → i.Whole → Rooted a roots →
    Plants a roots [.item (a.storeItem i).1] (a.storeItem i).2 ∧
      (a.storeItem i).2.HoldsItem (a.storeItem i).1 i
  | .fn s f, whole, h => by
    have wholeB : ∀ b ∈ f.body, b.Whole := fun b mem => by
      obtain ⟨_, _, rfl, all⟩ := Fn.Whole.body whole b mem
      exact all
    obtain ⟨params, heldP⟩ := storeParams_plants (Fn.Whole.params whole) h
    obtain ⟨body, heldB⟩ := storeOptional_plants (fun _ => rfl)
      (fun b mem => storeStmt_plants b (wholeB b mem) params.rooted) params.rooted
    have isBlock := heldB.block (Fn.Whole.body whole)
    exact (params.and body).addItem isBlock fun grows found =>
      ⟨_, _, found, heldP.imp fun _ _ p => p.grows (body.grows.trans grows),
        heldB.imp fun _ b => b.grows grows⟩
  | .decl s _, ⟨d, rfl, whole⟩, h => by
    obtain ⟨decl, held⟩ := storeDecl_plants whole h
    exact decl.addItem trivial fun grows found => ⟨_, found, held.grows grows⟩

/-! ## The unit -/

/-- The unit has no part in how nodes refer to each other. -/
theorem Rooted.frame (h : Rooted a roots) (s : Span) (is : List Nat) :
    Rooted { a with fileSpan := s, fileItems := is } roots where
  exact := ⟨h.exact.exprs, h.exact.stmts, h.exact.items⟩
  proper := h.proper
  listed := h.listed
  once := h.once
  earlier := h.earlier
  ordered := h.ordered
  owned := h.owned

theorem Grows.frame (a : Arena) (s : Span) (is : List Nat) :
    Grows a { a with fileSpan := s, fileItems := is } := ⟨fun found => found⟩

/-- Rooted tables in which the items of the unit are roots, with others beside them. -/
def Sound (a : Arena) : Prop := ∃ rest, Rooted a (rest ++ a.fileItems.map .item)

theorem sound_start : Sound {} := ⟨[], rooted_start⟩

theorem Sound.ordered : Sound a → a.Ordered
  | ⟨_, rooted⟩ => rooted.ordered

theorem Sound.frame (h : Sound a) (s : Span) : Sound { a with fileSpan := s } := by
  obtain ⟨rest, rooted⟩ := h
  exact ⟨rest, rooted.frame s a.fileItems⟩

/-- What is stored beside the roots leaves the items of the unit among them. -/
theorem Sound.plant {b : Arena} {new : List Ref} (h : Sound a)
    (plants : ∀ {roots}, Rooted a roots → Plants a roots new b) : Sound b := by
  obtain ⟨rest, rooted⟩ := h
  have planted := plants rooted
  refine ⟨new ++ rest, ?_⟩
  rw [planted.fileItems, List.append_assoc]
  exact planted.rooted

/-- A root becomes an item of the unit. -/
theorem Rooted.pushItem {rest : List Ref} {id : Nat}
    (h : Rooted a ([.item id] ++ (rest ++ a.fileItems.map .item))) :
    Rooted (a.pushItem id) (rest ++ (a.pushItem id).fileItems.map .item) := by
  refine Rooted.perm (h.frame a.fileSpan _) ?_
  rw [Arena.pushItem, List.map_append, ← List.append_assoc rest]
  exact List.perm_append_comm

theorem storeItems_rooted {is : List Item} (whole : ∀ i ∈ is, i.Whole) {rest : List Ref}
    (h : Rooted a (rest ++ a.fileItems.map .item)) : ∃ ids,
    (a.storeItems is).fileItems = a.fileItems ++ ids ∧ Grows a (a.storeItems is) ∧
      Rooted (a.storeItems is) (rest ++ (a.storeItems is).fileItems.map .item) ∧
      List.Forall₂ (a.storeItems is).HoldsItem ids is := by
  induction is generalizing a with
  | nil => exact ⟨[], (List.append_nil _).symm, .refl a, h, .nil⟩
  | cons i is ih =>
    obtain ⟨wholeI, wholes⟩ := List.forall_mem_cons.mp whole
    obtain ⟨first, held⟩ := storeItem_plants wholeI h
    have rooted := first.rooted
    rw [← first.fileItems] at rooted
    have pushed := Grows.frame (a.storeItem i).2 (a.storeItem i).2.fileSpan
      ((a.storeItem i).2.fileItems ++ [(a.storeItem i).1])
    obtain ⟨ids, fileItems, grows, rooted, helds⟩ := ih wholes rooted.pushItem
    refine ⟨(a.storeItem i).1 :: ids, ?_, first.grows.trans (pushed.trans grows), rooted,
      .cons (held.grows (pushed.trans grows)) helds⟩
    rw [storeItems, fileItems, Arena.pushItem, first.fileItems, List.append_assoc]
    rfl

/-- The tables of a unit hold it, and the only roots are its items. -/
theorem ofUnit_rooted {u : CompUnit} (whole : u.Whole) :
    Rooted (ofUnit u) ((ofUnit u).fileItems.map .item) ∧
      List.Forall₂ (ofUnit u).HoldsItem (ofUnit u).fileItems u.items := by
  have start : Rooted {} ([] ++ ({} : Arena).fileItems.map .item) := rooted_start
  obtain ⟨ids, fileItems, -, rooted, held⟩ := storeItems_rooted whole start
  refine ⟨rooted.frame u.span _, ?_⟩
  show List.Forall₂ _ (storeItems {} u.items).fileItems _
  rw [fileItems]
  exact held.imp fun _ _ h => h.grows (.frame _ u.span _)

theorem readUnit_ofUnit {u : CompUnit} (whole : u.Whole) : (ofUnit u).readUnit = some u := by
  obtain ⟨rooted, held⟩ := ofUnit_rooted whole
  show ((ofUnit u).fileItems.mapM (ofUnit u).readItem).bind _ = _
  rw [mapM_read (ofUnit u).readItem (·.read rooted.ordered) held]
  rfl

end SysY.Arena

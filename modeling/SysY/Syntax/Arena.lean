import SysY.Failure
import SysY.Syntax
import SysY.Syntax.Arena.Nodes

/-! # Node tables

A tree stored as tables of nodes that refer to each other by number. A node gets its number when
it is made, counting from 1 for each sort of node, so a child is made before its parent; 0 means no
node. `ofUnit` stores a parsed tree, and `unit` reads a tree back. Tools can make tables by hand, in
which references can lead nowhere or in a circle. -/

namespace SysY.Arena

open Source (Span)

/-- A stored expression: its children are numbers of other expressions. -/
inductive ExprNode where
  | ident (name : String)
  | lit (value : Int32)
  | call (name : String) (nameSpan : Span) (args : List Nat)
  | binary (op : BinaryOp) (left right : Nat)
  | unary (op : UnaryOp) (operand : Nat)
  | group (inner : Nat)
  | index (target idx : Nat)
  | bare (kind : Nat)
deriving Repr, Inhabited

/-- A stored statement. -/
inductive StmtNode where
  | block (stmts : List Nat)
  | decl (decl : Nat)
  | assign (target value : Nat)
  | expr (value : Nat)
  | ifThen (cond thenArm elseArm : Nat)
  | while (cond body : Nat)
  | break
  | continue
  | return (value : Nat)
  | bare (kind : Nat)
deriving Repr, Inhabited

/-- A stored initializer. -/
inductive InitNode where
  | expr (value : Nat)
  | list (elems : List Nat)
deriving Repr, Inhabited

/-- A stored definition. -/
structure DefNode where
  name : String
  nameSpan : Span
  dims : List Nat := []
  init : Nat := 0
deriving Repr, Inhabited

/-- A stored declaration. -/
structure DeclNode where
  isConst : Bool
  type : BaseType
  defs : List DefNode
deriving Repr, Inhabited

/-- A stored parameter. -/
structure ParamNode where
  name : String
  nameSpan : Span
  type : BaseType
  isArray : Bool
  dims : List Nat
  span : Span
deriving Repr, Inhabited

/-- A stored item. -/
inductive ItemNode where
  | fn (name : String) (nameSpan : Span) (returnType : BaseType) (params : List ParamNode)
      (body : Nat)
  | decl (decl : Nat)
  | bare (kind : Nat)
deriving Repr, Inhabited

/-- The kind of an expression, for a bare node the kind it claims. -/
def ExprNode.kind : ExprNode → Nat
  | ident _ => 0
  | lit _ => 1
  | call .. => 2
  | binary .. => 3
  | unary .. => 4
  | group _ => 5
  | index .. => 6
  | bare k => k

/-- The kind of a statement. -/
def StmtNode.kind : StmtNode → Nat
  | block _ => 0
  | decl _ => 1
  | assign .. => 2
  | expr _ => 3
  | ifThen .. => 4
  | «while» .. => 5
  | «break» => 6
  | «continue» => 7
  | «return» _ => 8
  | bare k => k

/-- The kind of an item. -/
def ItemNode.kind : ItemNode → Nat
  | fn .. => 0
  | decl _ => 1
  | bare k => k

instance : Kinded ExprNode where
  count := 7
  kind := ExprNode.kind
  isBare | .bare _ => true | _ => false
  bare := .bare
  kind_lt {x} h := by cases x <;> simp_all [ExprNode.kind]
  isBare_bare _ := rfl
  kind_bare _ := rfl

instance : Kinded StmtNode where
  count := 9
  kind := StmtNode.kind
  isBare | .break | .continue | .bare _ => true | _ => false
  bare | 6 => .break | 7 => .continue | k => .bare k
  kind_lt {x} h := by cases x <;> simp_all [StmtNode.kind]
  isBare_bare | 0 | 1 | 2 | 3 | 4 | 5 | 6 | 7 | _ + 8 => rfl
  kind_bare | 0 | 1 | 2 | 3 | 4 | 5 | 6 | 7 | _ + 8 => rfl

instance : Kinded ItemNode where
  count := 2
  kind := ItemNode.kind
  isBare | .bare _ => true | _ => false
  bare := .bare
  kind_lt {x} h := by cases x <;> simp_all [ItemNode.kind]
  isBare_bare _ := rfl
  kind_bare _ := rfl

/-- A node of any sort. -/
inductive Ref where
  | expr (id : Nat)
  | init (id : Nat)
  | decl (id : Nat)
  | stmt (id : Nat)
  | item (id : Nat)
deriving DecidableEq, Repr

end Arena

open Source (Span)
open Arena

/-- Tables of nodes, and the unit they belong to. -/
structure Arena where
  exprNodes : Nodes ExprNode := {}
  stmtNodes : Nodes StmtNode := {}
  inits : Array (Span × InitNode) := #[]
  decls : Array (Span × DeclNode) := #[]
  itemNodes : Nodes ItemNode := {}
  fileSpan : Span := {}
  fileItems : List Nat := []
  /-- All nodes in the order in which they were made, the latest first. Their numbers show the order
  for each sort only. -/
  made : List Ref := []

namespace Arena

/-- The expressions in the order of their numbers. -/
def exprs (a : Arena) : Array (Span × ExprNode) := a.exprNodes.toArray

/-- The statements in the order of their numbers. -/
def stmts (a : Arena) : Array (Span × StmtNode) := a.stmtNodes.toArray

/-- The items in the order of their numbers. -/
def items (a : Arena) : Array (Span × ItemNode) := a.itemNodes.toArray

/-- The expression with a number. -/
def exprNode? (a : Arena) (id : Nat) : Option (Span × ExprNode) := a.exprNodes.find? id

/-- The statement with a number. -/
def stmtNode? (a : Arena) (id : Nat) : Option (Span × StmtNode) := a.stmtNodes.find? id

/-- The initializer with a number. -/
def initNode? (a : Arena) (id : Nat) : Option (Span × InitNode) := node? a.inits id

/-- The declaration with a number. -/
def declNode? (a : Arena) (id : Nat) : Option (Span × DeclNode) := node? a.decls id

/-- The item with a number. -/
def itemNode? (a : Arena) (id : Nat) : Option (Span × ItemNode) := a.itemNodes.find? id

/-- Make an expression. -/
def addExpr (a : Arena) (s : Span) (n : ExprNode) : Nat × Arena :=
  let (id, nodes) := a.exprNodes.add s n
  (id, { a with exprNodes := nodes, made := .expr id :: a.made })

/-- Make a statement. -/
def addStmt (a : Arena) (s : Span) (n : StmtNode) : Nat × Arena :=
  let (id, nodes) := a.stmtNodes.add s n
  (id, { a with stmtNodes := nodes, made := .stmt id :: a.made })

/-- Make an initializer. -/
def addInit (a : Arena) (s : Span) (n : InitNode) : Nat × Arena :=
  let id := a.inits.size + 1
  (id, { a with inits := a.inits.push (s, n), made := .init id :: a.made })

/-- Make a declaration. -/
def addDecl (a : Arena) (s : Span) (n : DeclNode) : Nat × Arena :=
  let id := a.decls.size + 1
  (id, { a with decls := a.decls.push (s, n), made := .decl id :: a.made })

/-- Make an item. -/
def addItem (a : Arena) (s : Span) (n : ItemNode) : Nat × Arena :=
  let (id, nodes) := a.itemNodes.add s n
  (id, { a with itemNodes := nodes, made := .item id :: a.made })

/-- Append an item to the unit. -/
def pushItem (a : Arena) (id : Nat) : Arena := { a with fileItems := a.fileItems ++ [id] }

/-! ## Storing trees -/

/-- Store what may be absent. -/
def storeOptional {α : Type} (store : Arena → α → Nat × Arena) (a : Arena) : Option α → Nat × Arena
  | none => (0, a)
  | some x => store a x

mutual

/-- Store an expression, its parts first, in source order. -/
def storeExpr (a : Arena) : Expr → Nat × Arena
  | .ident s name => a.addExpr s (.ident name)
  | .lit s v => a.addExpr s (.lit v)
  | .call s name ns args =>
    let (ids, a) := storeExprs a args
    a.addExpr s (.call name ns ids)
  | .binary s op l r =>
    let (il, a) := storeExpr a l
    let (ir, a) := storeExpr a r
    a.addExpr s (.binary op il ir)
  | .unary s op e =>
    let (ie, a) := storeExpr a e
    a.addExpr s (.unary op ie)
  | .group s e =>
    let (ie, a) := storeExpr a e
    a.addExpr s (.group ie)
  | .index s t i =>
    let (it, a) := storeExpr a t
    let (ii, a) := storeExpr a i
    a.addExpr s (.index it ii)
  | .bare s k => a.addExpr s (.bare k)
  | .missing id => (id, a)

/-- Store expressions in order. -/
def storeExprs (a : Arena) : List Expr → List Nat × Arena
  | [] => ([], a)
  | e :: es =>
    let (i, a) := storeExpr a e
    let (is, a) := storeExprs a es
    (i :: is, a)

end

mutual

/-- Store an initializer, its parts first. -/
def storeInit (a : Arena) : Init → Nat × Arena
  | .expr s e =>
    let (i, a) := a.storeExpr e
    a.addInit s (.expr i)
  | .list s elems =>
    let (is, a) := storeInits a elems
    a.addInit s (.list is)
  | .missing id => (id, a)

/-- Store initializers in order. -/
def storeInits (a : Arena) : List Init → List Nat × Arena
  | [] => ([], a)
  | i :: is =>
    let (n, a) := storeInit a i
    let (ns, a) := storeInits a is
    (n :: ns, a)

end

/-- Store the parts of a definition. -/
def storeDef (a : Arena) (d : Def) : DefNode × Arena :=
  let (dims, a) := a.storeExprs d.dims
  let (init, a) := storeOptional storeInit a d.init
  ({ name := d.name, nameSpan := d.nameSpan, dims := dims, init := init }, a)

/-- Store the parts of definitions in order. -/
def storeDefs (a : Arena) : List Def → List DefNode × Arena
  | [] => ([], a)
  | d :: ds =>
    let (d, a) := a.storeDef d
    let (ds, a) := storeDefs a ds
    (d :: ds, a)

/-- Store a declaration, its definitions first. -/
def storeDecl (a : Arena) : Option Decl → Nat × Arena
  | none => (0, a)
  | some d =>
    let (defs, a) := a.storeDefs d.defs
    a.addDecl d.span { isConst := d.isConst, type := d.type, defs := defs }

mutual

/-- Store a statement, its parts first. -/
def storeStmt (a : Arena) : Stmt → Nat × Arena
  | .block s stmts =>
    let (is, a) := storeStmts a stmts
    a.addStmt s (.block is)
  | .decl s d =>
    let (i, a) := a.storeDecl d
    a.addStmt s (.decl i)
  | .assign s t v =>
    let (it, a) := a.storeExpr t
    let (iv, a) := a.storeExpr v
    a.addStmt s (.assign it iv)
  | .expr s e =>
    let (i, a) := storeOptional storeExpr a e
    a.addStmt s (.expr i)
  | .ifThen s c t none =>
    let (ic, a) := a.storeExpr c
    let (it, a) := storeStmt a t
    a.addStmt s (.ifThen ic it 0)
  | .ifThen s c t (some e) =>
    let (ic, a) := a.storeExpr c
    let (it, a) := storeStmt a t
    let (ie, a) := storeStmt a e
    a.addStmt s (.ifThen ic it ie)
  | .while s c b =>
    let (ic, a) := a.storeExpr c
    let (ib, a) := storeStmt a b
    a.addStmt s (.while ic ib)
  | .break s => a.addStmt s .break
  | .continue s => a.addStmt s .continue
  | .return s e =>
    let (i, a) := storeOptional storeExpr a e
    a.addStmt s (.return i)
  | .bare s k => a.addStmt s (.bare k)
  | .missing id => (id, a)

/-- Store statements in order. -/
def storeStmts (a : Arena) : List Stmt → List Nat × Arena
  | [] => ([], a)
  | s :: ss =>
    let (i, a) := storeStmt a s
    let (is, a) := storeStmts a ss
    (i :: is, a)

end

/-- Store the parts of a parameter. -/
def storeParam (a : Arena) (p : Param) : ParamNode × Arena :=
  let (dims, a) := a.storeExprs p.dims
  ({ name := p.name, nameSpan := p.nameSpan, type := p.type, isArray := p.isArray, dims := dims,
     span := p.span }, a)

/-- Store the parts of parameters in order. -/
def storeParams (a : Arena) : List Param → List ParamNode × Arena
  | [] => ([], a)
  | p :: ps =>
    let (p, a) := a.storeParam p
    let (ps, a) := storeParams a ps
    (p :: ps, a)

/-- Store an item, its parts first. -/
def storeItem (a : Arena) : Item → Nat × Arena
  | .fn s f =>
    let (ps, a) := a.storeParams f.params
    let (b, a) := storeOptional storeStmt a f.body
    a.addItem s (.fn f.name f.nameSpan f.returnType ps b)
  | .decl s d =>
    let (i, a) := a.storeDecl d
    a.addItem s (.decl i)
  | .bare s k => a.addItem s (.bare k)
  | .missing id => (id, a)

/-- Store items in order, as the items of the unit. -/
def storeItems (a : Arena) : List Item → Arena
  | [] => a
  | i :: is =>
    let (n, a) := a.storeItem i
    storeItems (a.pushItem n) is

/-- The node tables of a tree. -/
def ofUnit (u : CompUnit) : Arena := { storeItems {} u.items with fileSpan := u.span }

/-! ## Following references

What follows references takes some number of steps, unless they lead to a circle. The loops and the
recursions here are given a number of steps, and end with `none` if that is too small. -/

/-- Read an expression. A reference that leads nowhere becomes a gap. -/
def readExpr (a : Arena) : Nat → Nat → Option Expr
  | 0, _ => none
  | steps + 1, id =>
    match a.exprNode? id with
    | none => return .missing id
    | some (s, n) =>
      match n with
      | .ident name => return .ident s name
      | .lit v => return .lit s v
      | .call name ns args => return .call s name ns (← args.mapM (readExpr a steps))
      | .binary op l r => return .binary s op (← readExpr a steps l) (← readExpr a steps r)
      | .unary op e => return .unary s op (← readExpr a steps e)
      | .group e => return .group s (← readExpr a steps e)
      | .index t i => return .index s (← readExpr a steps t) (← readExpr a steps i)
      | .bare k => return .bare s k

/-- Read an expression in as many steps as it can take without a circle. -/
def expr? (a : Arena) (id : Nat) : Option Expr := a.readExpr (a.exprNodes.size + 1) id

/-- Read what is absent when its number is 0. -/
def readOptional {α : Type} (read : Nat → Option α) (id : Nat) : Option (Option α) :=
  if id = 0 then some none else (read id).map some

/-- Read an initializer. -/
def readInit (a : Arena) : Nat → Nat → Option Init
  | 0, _ => none
  | steps + 1, id =>
    match a.initNode? id with
    | none => return .missing id
    | some (s, .expr e) => return .expr s (← a.expr? e)
    | some (s, .list elems) => return .list s (← elems.mapM (readInit a steps))

/-- Read an initializer in as many steps as it can take without a circle. -/
def init? (a : Arena) (id : Nat) : Option Init := a.readInit (a.inits.size + 1) id

/-- Read a definition. -/
def readDef (a : Arena) (d : DefNode) : Option Def :=
  return { name := d.name, nameSpan := d.nameSpan, dims := ← d.dims.mapM a.expr?,
           init := ← readOptional a.init? d.init }

/-- Read a declaration, which is absent when there is none with the number. -/
def readDecl (a : Arena) (id : Nat) : Option (Option Decl) :=
  match a.declNode? id with
  | none => return none
  | some (s, d) =>
    return some { isConst := d.isConst, type := d.type, span := s, defs := ← d.defs.mapM a.readDef }

/-- Read a statement. -/
def readStmt (a : Arena) : Nat → Nat → Option Stmt
  | 0, _ => none
  | steps + 1, id =>
    match a.stmtNode? id with
    | none => return .missing id
    | some (s, n) =>
      match n with
      | .block stmts => return .block s (← stmts.mapM (readStmt a steps))
      | .decl d => return .decl s (← a.readDecl d)
      | .assign t v => return .assign s (← a.expr? t) (← a.expr? v)
      | .expr e => return .expr s (← readOptional a.expr? e)
      | .ifThen c t e =>
        return .ifThen s (← a.expr? c) (← readStmt a steps t) (← readOptional (readStmt a steps) e)
      | .while c b => return .while s (← a.expr? c) (← readStmt a steps b)
      | .break => return .break s
      | .continue => return .continue s
      | .return e => return .return s (← readOptional a.expr? e)
      | .bare k => return .bare s k

/-- Read a statement in as many steps as it can take without a circle. -/
def stmt? (a : Arena) (id : Nat) : Option Stmt := a.readStmt (a.stmtNodes.size + 1) id

/-- Read a parameter. -/
def readParam (a : Arena) (p : ParamNode) : Option Param :=
  return { name := p.name, nameSpan := p.nameSpan, type := p.type, isArray := p.isArray,
           dims := ← p.dims.mapM a.expr?, span := p.span }

/-- Read an item. -/
def readItem (a : Arena) (id : Nat) : Option Item :=
  match a.itemNode? id with
  | none => return .missing id
  | some (s, n) =>
    match n with
    | .fn name ns ret ps body =>
      return .fn s { name := name, nameSpan := ns, returnType := ret,
                     params := ← ps.mapM a.readParam, body := ← readOptional a.stmt? body }
    | .decl d => return .decl s (← a.readDecl d)
    | .bare k => return .bare s k

/-- Read the whole tree. -/
def readUnit (a : Arena) : Option CompUnit :=
  return { span := a.fileSpan, items := ← a.fileItems.mapM a.readItem }

/-- Split the expression with a number into a name, where it stands, and the numbers of the
subscripts applied to it in front of `indices`. A bare name, group or subscript on the way lacks
what would be needed. -/
def lvalue (a : Arena) :
    Nat → Nat → List Nat → Option (Outcome (Option (String × Span × List Nat)))
  | 0, _, _ => none
  | steps + 1, id, indices =>
    match a.exprNode? id with
    | some (s, .ident name) => some (.ok (some (name, s, indices)))
    | some (_, .group inner) => lvalue a steps inner indices
    | some (_, .index target idx) => lvalue a steps target (idx :: indices)
    | some (s, .bare k) => some (if (Expr.bare s k).spineBroken then .outOfRange else .ok none)
    | _ => some (.ok none)

/-- The number of an expression without the parentheses around it. -/
def stripGroups (a : Arena) : Nat → Nat → Option (Outcome Nat)
  | 0, _ => none
  | steps + 1, id =>
    match a.exprNode? id with
    | some (_, .group inner) => stripGroups a steps inner
    | some (_, .bare 5) => some .outOfRange
    | _ => some (.ok id)

/-- The expression with a number. -/
def exprAt (a : Arena) (id : Nat) : Expr := (a.expr? id).getD (.missing id)

/-- The expression with a number, split as a place. -/
def placeAt (a : Arena) (id : Nat) : Outcome (Option (String × Span × List Nat)) :=
  (a.lvalue (a.exprNodes.size + 1) id []).getD (.ok none)

/-- The whole tree. -/
def unit (a : Arena) : CompUnit := a.readUnit.getD { span := a.fileSpan, items := [] }

end Arena
end SysY

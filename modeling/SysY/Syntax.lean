import SysY.Text.Bytes
import SysY.Source.Span

/-! # Syntax trees

The tree of one compilation unit. Every node knows the span of source text it stands for.

Trees come from the parser, or a tool builds them by hand. A tree built by hand can have gaps: a
reference to a node that does not exist (`missing`), and a node of which only the kind is known
(`bare`). The parser produces neither. -/

namespace SysY

open Source (Span)

/-- Binary operators. The last one stands for numbers that name no operator. -/
inductive BinaryOp where
  | add | sub | mul | div | mod
  | logicalAnd | logicalOr
  | eq | ne | lt | le | gt | ge
  | other (number : Nat)
deriving DecidableEq, Repr, Inhabited

namespace BinaryOp

/-- The operators in their numerical order. -/
def all : List BinaryOp :=
  [add, sub, mul, div, mod, logicalAnd, logicalOr, eq, ne, lt, le, gt, ge]

/-- The operator with a number. -/
def ofNumber (n : Nat) : BinaryOp := (all[n]?).getD (other n)

/-- How an operator is spelled. -/
def spelling : BinaryOp → String
  | add => "+"
  | sub => "-"
  | mul => "*"
  | div => "/"
  | mod => "%"
  | logicalAnd => "&&"
  | logicalOr => "||"
  | eq => "=="
  | ne => "!="
  | lt => "<"
  | le => "<="
  | gt => ">"
  | ge => ">="
  | other _ => "?"

/-- The operator with a spelling. -/
def ofSpelling (s : String) : BinaryOp := (all.find? (·.spelling = s)).getD (other all.length)

/-- Whether the right operand is evaluated only if the left one does not decide the result. -/
def isShortCircuit (op : BinaryOp) : Bool := op == logicalAnd || op == logicalOr

end BinaryOp

/-- Unary operators. The last one stands for numbers that name no operator. -/
inductive UnaryOp where
  | plus | minus | not
  | other (number : Nat)
deriving DecidableEq, Repr, Inhabited

namespace UnaryOp

/-- The operators in their numerical order. -/
def all : List UnaryOp := [plus, minus, not]

/-- The operator with a number. -/
def ofNumber (n : Nat) : UnaryOp := (all[n]?).getD (other n)

/-- How an operator is spelled. -/
def spelling : UnaryOp → String
  | plus => "+"
  | minus => "-"
  | not => "!"
  | other _ => "?"

end UnaryOp

/-- Expressions. -/
inductive Expr where
  | ident (span : Span) (name : String)
  | lit (span : Span) (value : Int32)
  /-- A call; the callee is always a name. -/
  | call (span : Span) (name : String) (nameSpan : Span) (args : List Expr)
  | binary (span : Span) (op : BinaryOp) (left right : Expr)
  | unary (span : Span) (op : UnaryOp) (operand : Expr)
  /-- An expression in parentheses. -/
  | group (span : Span) (inner : Expr)
  /-- One subscript; `a[i][j]` has two. -/
  | index (span : Span) (target idx : Expr)
  | bare (span : Span) (kind : Nat)
  | missing (id : Nat)
deriving Inhabited

/-- The base type of a declaration. -/
inductive BaseType where
  | int | void
deriving DecidableEq, Repr, Inhabited

/-- The keyword of a base type. -/
def BaseType.keyword : BaseType → String
  | int => "int"
  | void => "void"

/-- Initializers: an expression, or a list in braces. -/
inductive Init where
  | expr (span : Span) (value : Expr)
  | list (span : Span) (elems : List Init)
  | missing (id : Nat)
deriving Inhabited

/-- One defined name with its array bounds and its initializer. -/
structure Def where
  name : String
  nameSpan : Span
  dims : List Expr := []
  init : Option Init := none
deriving Inhabited

/-- A declaration of constants or variables. -/
structure Decl where
  isConst : Bool
  type : BaseType
  span : Span
  defs : List Def
deriving Inhabited

/-- Statements. -/
inductive Stmt where
  | block (span : Span) (stmts : List Stmt)
  /-- A declaration; a gap when the declaration does not exist. -/
  | decl (span : Span) (decl : Option Decl)
  | assign (span : Span) (target value : Expr)
  /-- An expression for its effect, or the empty statement. -/
  | expr (span : Span) (value : Option Expr)
  | ifThen (span : Span) (cond : Expr) (thenArm : Stmt) (elseArm : Option Stmt)
  | while (span : Span) (cond : Expr) (body : Stmt)
  | break (span : Span)
  | continue (span : Span)
  | return (span : Span) (value : Option Expr)
  | bare (span : Span) (kind : Nat)
  | missing (id : Nat)
deriving Inhabited

/-- A parameter: `int a`, or `int a[]` followed by further bounds. -/
structure Param where
  name : String
  nameSpan : Span
  type : BaseType
  isArray : Bool := false
  dims : List Expr := []
  span : Span := {}
deriving Inhabited

/-- A function definition, or a declaration when there is no body. -/
structure Fn where
  name : String
  nameSpan : Span
  returnType : BaseType
  params : List Param := []
  body : Option Stmt := none
deriving Inhabited

/-- Whether a function item only declares the function. -/
def Fn.isDecl (f : Fn) : Bool := f.body.isNone

/-- What stands at the top level. -/
inductive Item where
  | fn (span : Span) (fn : Fn)
  | decl (span : Span) (decl : Option Decl)
  | bare (span : Span) (kind : Nat)
  | missing (id : Nat)
deriving Inhabited

/-- A compilation unit. -/
structure CompUnit where
  span : Span
  items : List Item
deriving Inhabited

namespace Expr

/-- The span of an expression that exists. -/
def span? : Expr → Option Span
  | ident s _ | lit s _ | call s .. | binary s .. | unary s .. | group s _ | index s .. | bare s _ =>
    some s
  | missing _ => none

/-- The span of an expression, empty for a gap. -/
def span (e : Expr) : Span := e.span?.getD {}

/-- A bare node of one of the seven kinds of expression lacks the contents its kind calls for. -/
def lacksContents (kind : Nat) : Bool := kind < 7

/-- An assignable expression: a name, where it stands, and the subscripts applied to it, in
order. -/
structure Place where
  name : String
  nameSpan : Span
  indices : List Expr

/-- Read an expression as a place. Parentheses are transparent. -/
def place? : Expr → Option Place
  | ident s name => some ⟨name, s, []⟩
  | group _ inner => inner.place?
  | index _ target idx => target.place?.map fun p => { p with indices := p.indices ++ [idx] }
  | _ => none

/-- Whether reading an expression as a place meets a bare name, group or subscript. -/
def spineBroken : Expr → Bool
  | group _ inner => inner.spineBroken
  | index _ target _ => target.spineBroken
  | bare _ kind => kind == 0 || kind == 5 || kind == 6
  | _ => false

/-- An expression without the parentheses around it. -/
def stripGroups : Expr → Expr
  | group _ inner => inner.stripGroups
  | e => e

end Expr

/-- The span of an initializer, empty for a gap. -/
def Init.span : Init → Span
  | expr s _ | list s _ => s
  | missing _ => {}

namespace Stmt

/-- The span of a statement, empty for a gap. -/
def span : Stmt → Span
  | block s _ | decl s _ | assign s .. | expr s _ | ifThen s .. | «while» s .. | «break» s
  | «continue» s | «return» s _ | bare s _ => s
  | missing _ => {}

/-- A bare node of one of the nine kinds of statement lacks the contents its kind calls for. -/
def lacksContents (kind : Nat) : Bool := kind < 9

end Stmt

/-- The span of an item that exists. -/
def Item.span? : Item → Option Span
  | fn s _ | decl s _ | bare s _ => some s
  | missing _ => none

end SysY

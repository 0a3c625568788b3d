import SysY.Failure
import SysY.Syntax

/-! # Tree dumps

A text form of syntax trees for people. Statements are indented lines, and expressions are fully
parenthesized, so that precedence is visible. A node that lacks its contents cannot be shown. -/

namespace SysY

mutual

/-- An expression as text. -/
def Expr.dump : Expr → Outcome String
  | .ident _ name => return name
  | .lit _ value => return toString value.toInt
  | .call _ name _ args => do return name ++ "(" ++ String.intercalate ", " (← Expr.dumpList args) ++ ")"
  | .binary _ op l r => do
    return "(" ++ (← l.dump) ++ " " ++ op.spelling ++ " " ++ (← r.dump) ++ ")"
  | .unary _ op e => do return "(" ++ op.spelling ++ (← e.dump) ++ ")"
  | .group _ e => e.dump
  | .index _ target idx => do return (← target.dump) ++ "[" ++ (← idx.dump) ++ "]"
  | .bare _ kind => if Expr.lacksContents kind then .outOfRange else return "?"
  | .missing _ => return "<nil>"

/-- Expressions as texts. -/
def Expr.dumpList : List Expr → Outcome (List String)
  | [] => return []
  | e :: es => do return (← e.dump) :: (← Expr.dumpList es)

end

mutual

/-- An initializer as text. -/
def Init.dump : Init → Outcome String
  | .expr _ e => e.dump
  | .list _ elems => do
    return "\x7b" ++ String.intercalate ", " (← Init.dumpList elems) ++ "\x7d"
  | .missing _ => .outOfRange

/-- Initializers as texts. -/
def Init.dumpList : List Init → Outcome (List String)
  | [] => return []
  | i :: is => do return (← i.dump) :: (← Init.dumpList is)

end

namespace Dump

/-- A line at a depth of indentation. -/
def line (depth : Nat) (text : String) : String :=
  String.ofList (List.replicate (2 * depth) ' ') ++ text ++ "\n"

/-- Array bounds, each in brackets. -/
def bounds (dims : List Expr) : Outcome String := do
  return String.join ((← Expr.dumpList dims).map fun d => "[" ++ d ++ "]")

/-- The line of one definition. -/
def definition (depth : Nat) (d : Def) : Outcome String := do
  let name := d.name ++ (← bounds d.dims)
  match d.init with
  | none => return line depth name
  | some i => return line depth (name ++ " = " ++ (← i.dump))

/-- The lines of a declaration. -/
def declaration (depth : Nat) : Option Decl → Outcome String
  | none => .outOfRange
  | some d => do
    let keyword := if d.isConst then "ConstDecl" else "Decl"
    return line depth (keyword ++ " " ++ d.type.keyword) ++
      String.join (← d.defs.mapM (definition (depth + 1)))

/-- A parameter as text. -/
def param (p : Param) : Outcome String := do
  return p.type.keyword ++ " " ++ p.name ++ (if p.isArray then "[]" else "") ++ (← bounds p.dims)

end Dump

open Dump in
mutual

/-- The lines of a statement. -/
def Stmt.dump (depth : Nat) : Stmt → Outcome String
  | .block _ stmts => do return line depth "Block" ++ (← Stmt.dumpList (depth + 1) stmts)
  | .decl _ d => declaration depth d
  | .assign _ target value => do
    return line depth ("Assign " ++ (← target.dump) ++ " = " ++ (← value.dump))
  | .expr _ none => return line depth "Empty"
  | .expr _ (some e) => do return line depth ("Expr " ++ (← e.dump))
  | .ifThen _ cond thenArm none => do
    return line depth ("If " ++ (← cond.dump)) ++ (← thenArm.dump (depth + 1))
  | .ifThen _ cond thenArm (some elseArm) => do
    return line depth ("If " ++ (← cond.dump)) ++ (← thenArm.dump (depth + 1)) ++
      line depth "Else" ++ (← elseArm.dump (depth + 1))
  | .while _ cond body => do
    return line depth ("While " ++ (← cond.dump)) ++ (← body.dump (depth + 1))
  | .break _ => return line depth "Break"
  | .continue _ => return line depth "Continue"
  | .return _ none => return line depth "Return"
  | .return _ (some e) => do return line depth ("Return " ++ (← e.dump))
  | .bare _ kind => if Stmt.lacksContents kind then .outOfRange else return ""
  | .missing _ => .outOfRange

/-- The lines of statements. -/
def Stmt.dumpList (depth : Nat) : List Stmt → Outcome String
  | [] => return ""
  | s :: ss => do return (← s.dump depth) ++ (← Stmt.dumpList depth ss)

end

open Dump in
/-- The lines of an item. An item that is neither function nor declaration shows nothing. -/
def Item.dump (depth : Nat) : Item → Outcome String
  | .fn _ f => do
    let header := s!"{f.returnType.keyword} {f.name}(" ++
      String.intercalate ", " (← f.params.mapM param) ++ ")"
    match f.body with
    | none => return line depth ("FuncDecl " ++ header)
    | some body => return line depth ("FuncDef " ++ header) ++ (← body.dump (depth + 1))
  | .decl _ d => declaration depth d
  | .bare _ kind => if kind < 2 then .outOfRange else return ""
  | .missing _ => return ""

/-- The lines of a unit. -/
def CompUnit.dump (u : CompUnit) : Outcome String := do
  return Dump.line 0 "CompUnit" ++ String.join (← u.items.mapM (Item.dump 1))

end SysY

import SysY.Syntax.Arena
import SysY.Syntax.Parser

/-! # Parsing into node tables

The parser as it fills node tables. It reads as the parser of trees does, and keeps the numbers of
the nodes that it makes in place of trees. A node is made when its last token has been read, so what
was made ahead of an error stays in the tables. -/

namespace SysY

open Source (Span)
open Parser

namespace Parser

variable {α : Type} {i : Input} {n : Nat}

/-- What has been taken leaves fewer tokens. -/
theorem Taken.fewer (t : Taken α i) : t.next.size + 1 ≤ i.size := t.shorter

theorem Taken.notLonger (t : Taken α i) : t.next.size ≤ i.size := Nat.le_of_lt t.shorter

/-- What leaves no more tokens than something that has been taken leaves fewer. -/
theorem Taken.less (t : Taken α i) (h : n ≤ t.next.size) : n < i.size :=
  Nat.lt_of_le_of_lt h t.shorter

theorem Taken.atMost (t : Taken α i) (h : n ≤ t.next.size) : n ≤ i.size := Nat.le_of_lt (t.less h)

theorem Kept.atMost (t : Kept α i) (h : n ≤ t.next.size) : n ≤ i.size := Nat.le_trans h t.notLonger

end Parser

/-- Why a parser that fills tables ends early. -/
inductive Storing.Halt where
  /-- The file is wrong. -/
  | refused (e : Parser.Error)
  /-- The tables are not as they should be. -/
  | failed (f : Failure)

/-- The failure that ended a parser. -/
def Storing.Halt.failure : Halt → Failure
  | refused e => .error e.error
  | failed f => f

/-- A parser that fills tables, which an error leaves as they are. -/
abbrev Storing := ExceptT Storing.Halt (StateM Arena)

namespace Storing

instance : MonadLift (Except Parser.Error) Storing :=
  ⟨fun p => ExceptT.mk (pure (p.mapError .refused))⟩

/-- A parser that consumes something and gives an `α`, or fails. -/
abbrev Result (α : Type) (i : Input) := Storing (Taken α i)

/-- A parser that may consume nothing and gives an `α`, or fails. -/
abbrev Optional (α : Type) (i : Input) := Storing (Kept α i)

/-- Where the expression with a number stands. It has to exist. -/
def spanOf (id : Nat) : Storing Span := do
  match (← get).exprNode? id with
  | some (span, _) => return span
  | none => throw (.failed (.fault none))

/-- Make an expression. -/
def makeExpr (s : Span) (n : Arena.ExprNode) : Storing Nat := modifyGet (·.addExpr s n)

/-- Make a statement. -/
def makeStmt (s : Span) (n : Arena.StmtNode) : Storing Nat := modifyGet (·.addStmt s n)

/-- Make an initializer. -/
def makeInit (s : Span) (n : Arena.InitNode) : Storing Nat := modifyGet (·.addInit s n)

/-- Make a declaration. -/
def makeDecl (s : Span) (n : Arena.DeclNode) : Storing Nat := modifyGet (·.addDecl s n)

/-- Make an item. -/
def makeItem (s : Span) (n : Arena.ItemNode) : Storing Nat := modifyGet (·.addItem s n)

/-! ## Expressions -/

/-- The expression of a number that has been taken. -/
def literal {i : Input} (number : Taken Token i) : Result Nat i :=
  match Literal.read number.value.text with
  | .ok v => do return ⟨← makeExpr number.value.span (.lit v), number.next, number.shorter⟩
  | .error _ => throw (.refused (failure number.next .badNumber "malformed integer literal"))

mutual

/-- An expression whose binary operators outside of parentheses bind at least as tightly as
`least`. -/
def binary (least : Nat) (i : Input) : Result Nat i := do
  let left ← unary i
  have := left.fewer
  let all ← binaryRest least left.value left.next
  return ⟨all.value, all.next, left.less all.notLonger⟩
termination_by 8 * i.size + 3
decreasing_by all_goals omega

/-- The operators and operands that continue the expression `left`. -/
def binaryRest (least : Nat) (left : Nat) (i : Input) : Optional Nat i :=
  match takeIf i (binaryOpFrom? least) with
  | none => return ⟨left, i, Nat.le_refl _⟩
  | some op => do
    have := op.fewer
    let right ← binary (op.value.2.2 + 1) op.next
    have := right.fewer
    let span := (← spanOf left).cover (← spanOf right.value)
    let whole ← makeExpr span (.binary op.value.2.1 left right.value)
    let all ← binaryRest least whole right.next
    return ⟨all.value, all.next, op.atMost (right.atMost all.notLonger)⟩
termination_by 8 * i.size
decreasing_by all_goals omega

/-- An operand with the unary operators in front of it. -/
def unary (i : Input) : Result Nat i :=
  match takeIf i unaryOp? with
  | some op => do
    have := op.fewer
    let operand ← unary op.next
    let span := op.value.1.span.cover (← spanOf operand.value)
    return ⟨← makeExpr span (.unary op.value.2 operand.value), operand.next,
      op.less operand.notLonger⟩
  | none => primary i
termination_by 8 * i.size + 2
decreasing_by all_goals omega

/-- An expression in parentheses, a number, a call, or a name with subscripts. -/
def primary (i : Input) : Result Nat i :=
  match take? i .lParen with
  | some opening => do
    have := opening.fewer
    let inner ← binary 0 opening.next
    let close ← expect inner.next .rParen .unclosedParen "expected ')' to close '('"
    let whole ← makeExpr (opening.value.span.cover close.value.span) (.group inner.value)
    return ⟨whole, close.next, opening.less (inner.atMost close.notLonger)⟩
  | none =>
    match take? i .intLit with
    | some number => literal number
    | none =>
      match take? i .ident with
      | some name =>
        have := name.fewer
        match take? name.next .lParen with
        | some opening => do
          have := opening.fewer
          let args ← arguments opening.next
          let close ← expect args.next .rParen .unclosedParen "expected ')' after call arguments"
          let whole ← makeExpr (name.value.span.cover close.value.span)
            (.call name.value.name name.value.span args.value)
          return ⟨whole, close.next, name.less (opening.atMost (args.atMost close.notLonger))⟩
        | none => do
          let target ← makeExpr name.value.span (.ident name.value.name)
          let all ← subscripts target name.next
          return ⟨all.value, all.next, name.less all.notLonger⟩
      | none =>
        throw (.refused
          (failure i .expectedExpression ("expected expression, got " ++ describe i.peek)))
termination_by 8 * i.size + 1
decreasing_by all_goals omega

/-- The arguments of a call, up to its closing parenthesis. -/
def arguments (i : Input) : Optional (List Nat) i :=
  if i.kind = .rParen then return ⟨[], i, Nat.le_refl _⟩
  else do
    let args ← argumentList i
    return ⟨args.value, args.next, args.notLonger⟩
termination_by 8 * i.size + 5
decreasing_by all_goals omega

/-- One or more expressions with commas between them. -/
def argumentList (i : Input) : Result (List Nat) i := do
  let arg ← binary 0 i
  have := arg.fewer
  match take? arg.next .comma with
  | none => return ⟨[arg.value], arg.next, arg.shorter⟩
  | some comma =>
    have := comma.fewer
    let more ← argumentList comma.next
    return ⟨arg.value :: more.value, more.next, arg.less (comma.atMost more.notLonger)⟩
termination_by 8 * i.size + 4
decreasing_by all_goals omega

/-- The subscripts that follow the expression `target`. -/
def subscripts (target : Nat) (i : Input) : Optional Nat i :=
  match take? i .lBracket with
  | none => return ⟨target, i, Nat.le_refl _⟩
  | some opening => do
    have := opening.fewer
    let idx ← binary 0 opening.next
    have := idx.fewer
    let close ← expect idx.next .rBracket .unclosedBracket "expected ']'"
    have := close.fewer
    let whole ← makeExpr ((← spanOf target).cover close.value.span) (.index target idx.value)
    let all ← subscripts whole close.next
    return ⟨all.value, all.next, opening.atMost (idx.atMost (close.atMost all.notLonger))⟩
termination_by 8 * i.size
decreasing_by all_goals omega

end

/-- Any expression. -/
def expr (i : Input) : Result Nat i := binary 0 i

/-! ## Declarations -/

/-- Any number of array bounds. -/
def bounds (i : Input) : Optional (List Nat) i :=
  match take? i .lBracket with
  | none => return ⟨[], i, Nat.le_refl _⟩
  | some opening => do
    have := opening.fewer
    let dim ← expr opening.next
    have := dim.fewer
    let close ← expect dim.next .rBracket .unclosedBracket "expected ']' after array bound"
    have := close.fewer
    let more ← bounds close.next
    return ⟨dim.value :: more.value, more.next,
      opening.atMost (dim.atMost (close.atMost more.notLonger))⟩
termination_by i.size
decreasing_by all_goals omega

mutual

/-- An initializer: an expression, or a list in braces. -/
def init (i : Input) : Result Nat i :=
  match take? i .lBrace with
  | none => do
    let value ← expr i
    return ⟨← makeInit (← spanOf value.value) (.expr value.value), value.next, value.shorter⟩
  | some opening => do
    have := opening.fewer
    let elems ← initElems opening.next
    let close ← expect elems.next .rBrace .unclosedBrace
      "expected '\x7d' to close initializer list"
    let whole ← makeInit (opening.value.span.cover close.value.span) (.list elems.value)
    return ⟨whole, close.next, opening.less (elems.atMost close.notLonger)⟩
termination_by 4 * i.size
decreasing_by all_goals omega

/-- The elements of a list in braces, up to its closing brace. -/
def initElems (i : Input) : Optional (List Nat) i :=
  if i.kind = .rBrace then return ⟨[], i, Nat.le_refl _⟩
  else do
    let elems ← initList i
    return ⟨elems.value, elems.next, elems.notLonger⟩
termination_by 4 * i.size + 2
decreasing_by all_goals omega

/-- One or more initializers with commas between them. -/
def initList (i : Input) : Result (List Nat) i := do
  let elem ← init i
  have := elem.fewer
  match take? elem.next .comma with
  | none => return ⟨[elem.value], elem.next, elem.shorter⟩
  | some comma =>
    have := comma.fewer
    let more ← initList comma.next
    return ⟨elem.value :: more.value, more.next, elem.less (comma.atMost more.notLonger)⟩
termination_by 4 * i.size + 1
decreasing_by all_goals omega

end

/-- The bounds and the initializer that follow a defined name. -/
def defRest (name : Token) (i : Input) : Optional Arena.DefNode i := do
  let dims ← bounds i
  match take? dims.next .assign with
  | none =>
    return ⟨{ name := name.name, nameSpan := name.span, dims := dims.value }, dims.next,
      dims.notLonger⟩
  | some assign =>
    let value ← init assign.next
    return ⟨{ name := name.name, nameSpan := name.span, dims := dims.value, init := value.value },
      value.next, dims.atMost (assign.atMost value.notLonger)⟩

/-- The definitions of a declaration, from after the first defined name on. -/
def defList (name : Token) (i : Input) : Optional (List Arena.DefNode) i := do
  let first ← defRest name i
  have := first.notLonger
  match take? first.next .comma with
  | none => return ⟨[first.value], first.next, first.notLonger⟩
  | some comma =>
    have := comma.fewer
    let second ← expect comma.next .ident .expectedIdentifier "expected identifier after ','"
    have := second.fewer
    let more ← defList second.value second.next
    return ⟨first.value :: more.value, more.next,
      first.atMost (comma.atMost (second.atMost more.notLonger))⟩
termination_by i.size
decreasing_by all_goals omega

/-- A declaration from after its first defined name on. -/
def declRest (start : Span) (isConst : Bool) (type : BaseType) (name : Token) (i : Input) :
    Result Nat i := do
  let defs ← defList name i
  let semicolon ← expect defs.next .semicolon .expectedSemicolon "expected ';' after declaration"
  let whole ← makeDecl (start.cover semicolon.next.last)
    { isConst := isConst, type := type, defs := defs.value }
  return ⟨whole, semicolon.next, Nat.lt_of_lt_of_le semicolon.shorter defs.notLonger⟩

/-- A declaration whose type comes next. -/
def declFrom (start : Span) (isConst : Bool) (i : Input) : Result Nat i := do
  let type ← baseType i
  let name ← expect type.next .ident .expectedIdentifier "expected identifier in declaration"
  let decl ← declRest start isConst type.value name.value name.next
  return ⟨decl.value, decl.next, type.less (name.atMost decl.notLonger)⟩

/-- A declaration. -/
def decl (i : Input) : Result Nat i :=
  match take? i .kwConst with
  | none => declFrom i.peek.span false i
  | some const => do
    let decl ← declFrom i.peek.span true const.next
    return ⟨decl.value, decl.next, const.less decl.notLonger⟩

/-! ## Statements -/

/-- The condition of an `if` or a `while`. -/
def condition (i : Input) : Result Nat i := do
  let opening ← expect i .lParen .unexpectedToken "expected '(' before condition"
  let cond ← expr opening.next
  let close ← expect cond.next .rParen .unclosedParen "expected ')' after condition"
  return ⟨cond.value, close.next, opening.less (cond.atMost close.notLonger)⟩

/-- Whether the expression with a number can be assigned to. -/
def isPlace (id : Nat) : Storing Bool := do
  match (← get).placeAt id with
  | .ok place => return place.isSome
  | .error f => throw (.failed f)

/-- An assignment, or an expression for its effect. -/
def simple (i : Input) : Result Nat i := do
  let start := i.peek.span
  let value ← expr i
  match take? value.next .assign with
  | none =>
    let close ← semicolon value.next "expression"
    let whole ← makeStmt (start.cover close.next.last) (.expr value.value)
    return ⟨whole, close.next, value.less close.notLonger⟩
  | some assign =>
    if ← isPlace value.value then
      let source ← expr assign.next
      let close ← semicolon source.next "assignment"
      let whole ← makeStmt (start.cover close.next.last) (.assign value.value source.value)
      return ⟨whole, close.next, value.less (assign.atMost (source.atMost close.notLonger))⟩
    else throw (.refused (failure value.next .unexpectedToken "left side of '=' is not assignable"))

/-- The value of a `return`, and 0 when it is absent. -/
def returnValue (i : Input) : Optional Nat i :=
  if i.kind = .semicolon then return ⟨0, i, Nat.le_refl _⟩
  else do
    let value ← expr i
    return ⟨value.value, value.next, value.notLonger⟩

mutual

/-- A block in braces. -/
def block (i : Input) : Result Nat i := do
  let opening ← expect i .lBrace .unexpectedToken "expected '\x7b'"
  have := opening.fewer
  let body ← blockRest opening.next
  let whole ← makeStmt (opening.value.span.cover body.value.2.span) (.block body.value.1)
  return ⟨whole, body.next, opening.less body.notLonger⟩
termination_by 8 * i.size
decreasing_by all_goals omega

/-- The rest of a block: its statements, and its closing brace. -/
def blockRest (i : Input) : Result (List Nat × Token) i :=
  match take? i .rBrace with
  | some close => return ⟨([], close.value), close.next, close.shorter⟩
  | none =>
    if i.kind = .eof then throw (.refused (failure i .unclosedBrace "expected '\x7d' to close block"))
    else do
      let first ← blockItem i
      have := first.fewer
      let more ← blockRest first.next
      return ⟨(first.value :: more.value.1, more.value.2), more.next, first.less more.notLonger⟩
termination_by 8 * i.size + 3
decreasing_by all_goals omega

/-- A local declaration or a statement. -/
def blockItem (i : Input) : Result Nat i :=
  if i.kind = .kwConst ∨ i.kind = .kwInt ∨ i.kind = .kwVoid then do
    let d ← decl i
    return ⟨← makeStmt (i.peek.span.cover d.next.last) (.decl d.value), d.next, d.shorter⟩
  else stmt i
termination_by 8 * i.size + 2
decreasing_by all_goals omega

/-- A statement. A dangling `else` belongs to the nearest `if`. -/
def stmt (i : Input) : Result Nat i :=
  match i.kind with
  | .lBrace => block i
  | .semicolon => do
    let t ← semicolon i "statement"
    return ⟨← makeStmt t.value.span (.expr 0), t.next, t.shorter⟩
  | .kwIf => do
    let keyword ← expect i .kwIf .unexpectedToken "expected 'if'"
    have := keyword.fewer
    let cond ← condition keyword.next
    have := cond.fewer
    let thenArm ← stmt cond.next
    have := thenArm.fewer
    match take? thenArm.next .kwElse with
    | none =>
      let whole ← makeStmt (keyword.value.span.cover thenArm.next.last)
        (.ifThen cond.value thenArm.value 0)
      return ⟨whole, thenArm.next, keyword.less (cond.atMost thenArm.notLonger)⟩
    | some other =>
      have := other.fewer
      let elseArm ← stmt other.next
      let whole ← makeStmt (keyword.value.span.cover elseArm.next.last)
        (.ifThen cond.value thenArm.value elseArm.value)
      return ⟨whole, elseArm.next,
        keyword.less (cond.atMost (thenArm.atMost (other.atMost elseArm.notLonger)))⟩
  | .kwWhile => do
    let keyword ← expect i .kwWhile .unexpectedToken "expected 'while'"
    have := keyword.fewer
    let cond ← condition keyword.next
    have := cond.fewer
    let body ← stmt cond.next
    let whole ← makeStmt (keyword.value.span.cover body.next.last) (.while cond.value body.value)
    return ⟨whole, body.next, keyword.less (cond.atMost body.notLonger)⟩
  | .kwBreak => do
    let keyword ← expect i .kwBreak .unexpectedToken "expected 'break'"
    let close ← semicolon keyword.next "break"
    let whole ← makeStmt (keyword.value.span.cover close.next.last) .break
    return ⟨whole, close.next, keyword.less close.notLonger⟩
  | .kwContinue => do
    let keyword ← expect i .kwContinue .unexpectedToken "expected 'continue'"
    let close ← semicolon keyword.next "continue"
    let whole ← makeStmt (keyword.value.span.cover close.next.last) .continue
    return ⟨whole, close.next, keyword.less close.notLonger⟩
  | .kwReturn => do
    let keyword ← expect i .kwReturn .unexpectedToken "expected 'return'"
    let value ← returnValue keyword.next
    let close ← semicolon value.next "return"
    let whole ← makeStmt (keyword.value.span.cover close.next.last) (.return value.value)
    return ⟨whole, close.next, keyword.less (value.atMost close.notLonger)⟩
  | _ => simple i
termination_by 8 * i.size + 1
decreasing_by all_goals omega

end

/-! ## Items -/

/-- One parameter of a function. -/
def param (i : Input) : Result Arena.ParamNode i := do
  let start := i.peek.span
  let type ← baseType i
  let name ← expect type.next .ident .expectedIdentifier "expected parameter name"
  match take? name.next .lBracket with
  | none =>
    return ⟨{ name := name.value.name, nameSpan := name.value.span, type := type.value,
              isArray := false, dims := [], span := start.cover name.next.last },
            name.next, type.less name.notLonger⟩
  | some opening =>
    let close ← expect opening.next .rBracket .unclosedBracket "expected '[]' for array parameter"
    let dims ← bounds close.next
    return ⟨{ name := name.value.name, nameSpan := name.value.span, type := type.value,
              isArray := true, dims := dims.value, span := start.cover dims.next.last },
            dims.next, type.less (name.atMost (opening.atMost (close.atMost dims.notLonger)))⟩

/-- One or more parameters with commas between them. -/
def paramList (i : Input) : Result (List Arena.ParamNode) i := do
  let first ← param i
  have := first.fewer
  match take? first.next .comma with
  | none => return ⟨[first.value], first.next, first.shorter⟩
  | some comma =>
    have := comma.fewer
    let more ← paramList comma.next
    return ⟨first.value :: more.value, more.next, first.less (comma.atMost more.notLonger)⟩
termination_by i.size
decreasing_by all_goals omega

/-- The parameters of a function, up to the closing parenthesis. -/
def params (i : Input) : Optional (List Arena.ParamNode) i :=
  if i.kind = .rParen then return ⟨[], i, Nat.le_refl _⟩
  else do
    let ps ← paramList i
    return ⟨ps.value, ps.next, ps.notLonger⟩

/-- The body of a function, and 0 after the semicolon of a declaration. -/
def fnBody (i : Input) : Result Nat i :=
  match take? i .semicolon with
  | some t => return ⟨0, t.next, t.shorter⟩
  | none => do
    let b ← block i
    return ⟨b.value, b.next, b.shorter⟩

/-- A function from its opening parenthesis on. -/
def fnRest (start : Span) (type : BaseType) (name : Token) (i : Input) : Result Nat i := do
  let opening ← expect i .lParen .unexpectedToken "expected '('"
  let ps ← params opening.next
  let close ← expect ps.next .rParen .unclosedParen "expected ')' after parameters"
  let body ← fnBody close.next
  let whole ← makeItem (start.cover body.next.last)
    (.fn name.name name.span type ps.value body.value)
  return ⟨whole, body.next, opening.less (ps.atMost (close.atMost body.notLonger))⟩

/-- An item. After a type and a name, an opening parenthesis tells a function from a
declaration. -/
def item (i : Input) : Result Nat i :=
  let start := i.peek.span
  if i.kind = .kwConst then do
    let d ← decl i
    return ⟨← makeItem (start.cover d.next.last) (.decl d.value), d.next, d.shorter⟩
  else do
    let type ← baseType i
    let name ← expect type.next .ident .expectedIdentifier "expected identifier after type"
    if name.next.kind = .lParen then
      let f ← fnRest start type.value name.value name.next
      return ⟨f.value, f.next, type.less (name.atMost f.notLonger)⟩
    else
      let d ← declRest start false type.value name.value name.next
      let whole ← makeItem (start.cover d.next.last) (.decl d.value)
      return ⟨whole, d.next, type.less (name.atMost d.notLonger)⟩

/-- Items up to the end of the file, each of which is appended to the unit. -/
def items (i : Input) : Storing Input :=
  if i.kind = .eof then return i
  else do
    let first ← item i
    have := first.fewer
    modify (·.pushItem first.value)
    items first.next
termination_by i.size
decreasing_by all_goals omega

end Storing

/-- The result of parsing a file into tables. -/
structure Stored where
  result : Outcome Unit
  arena : Arena

/-- Parse tokens into empty tables. The unit spans the first token only, until all is read. Whether
the work was called off is asked before every item, and here it has one answer for the whole file. -/
def Stored.ofLexed (l : Lexed) (canceled : Bool) : Stored :=
  let start := Input.ofLexed l
  let span := start.peek.span
  if canceled then { result := .error .canceled, arena := { fileSpan := span } }
  else
    match (Storing.items start).run {} with
    | (.ok last, a) => { result := .ok (), arena := { a with fileSpan := span.cover last.last } }
    | (.error h, a) => { result := .error h.failure, arena := { a with fileSpan := span } }

end SysY

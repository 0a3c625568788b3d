import SysY.Syntax
import SysY.Failure
import SysY.Token.Lexer

/-! # The parser

Recursive descent with one token of lookahead. Every function takes an input and returns what it
read together with the rest of the input, and with the fact that the rest is shorter; that is what
ends the recursion. The first error ends the parse. -/

namespace SysY.Parser

open Source (Span)

/-- What is left to read: the tokens, the end token, and the span of the token read last. -/
structure Input where
  tokens : List Token
  eof : Token
  last : Span
  /-- The first lexical error of the file. -/
  lexical : Option Diag.Error

namespace Input

/-- The number of tokens left. -/
def size (i : Input) : Nat := i.tokens.length

/-- The next token. -/
def peek (i : Input) : Token := i.tokens.head?.getD i.eof

/-- The category of the next token. -/
def kind (i : Input) : Token.Kind := i.peek.kind

/-- Where to point for an error at the next token. At the end that is right after the last token. -/
def errorSpan (i : Input) : Span :=
  if i.kind = .eof ∧ 0 < i.last.stop then i.last.after else i.peek.span

end Input

/-- A syntax error. `found` is the token that the parser could not use. -/
structure Error where
  error : Diag.Error
  found : Token
  /-- Whether the error is the lexical error of an invalid token. -/
  isLexical : Bool

/-- Fail at the next token. An invalid token has a lexical error already, which is the better
one. -/
def failure (i : Input) (code : Diag.Code) (detail : String) : Error :=
  match (if i.kind = .invalid then i.lexical else none) with
  | some e => { error := e, found := i.peek, isLexical := true }
  | none => { error := .mk' code i.errorSpan detail, found := i.peek, isLexical := false }

/-- A result that used up at least one token of `i`. -/
structure Taken (α : Type) (i : Input) where
  value : α
  next : Input
  shorter : next.size < i.size

/-- A result that used up any number of tokens of `i`. -/
structure Kept (α : Type) (i : Input) where
  value : α
  next : Input
  notLonger : next.size ≤ i.size

/-- A parser of `α` that consumes something, or fails. -/
abbrev Result (α : Type) (i : Input) := Except Error (Taken α i)

/-- A parser of `α` that may consume nothing, or fails. -/
abbrev Optional (α : Type) (i : Input) := Except Error (Kept α i)

/-- Take the next token if `f` accepts its category. -/
def takeIf {β : Type} (i : Input) (f : Token.Kind → Option β) : Option (Taken (Token × β) i) :=
  match h : i.tokens with
  | [] => none
  | t :: rest =>
    match f t.kind with
    | none => none
    | some b =>
      some { value := (t, b), next := { i with tokens := rest, last := t.span },
             shorter := by simp [Input.size, h] }

/-- Take the next token if it is of category `k`. -/
def take? (i : Input) (k : Token.Kind) : Option (Taken Token i) :=
  (takeIf i fun k' => if k' = k then some () else none).map fun t =>
    { value := t.value.1, next := t.next, shorter := t.shorter }

/-- Take a token of category `k`, or fail. -/
def expect (i : Input) (k : Token.Kind) (code : Diag.Code) (detail : String) : Result Token i :=
  match take? i k with
  | some t => .ok t
  | none => .error (failure i code detail)

/-- How messages describe a token. -/
def describe (t : Token) : String :=
  match t.kind with
  | .eof => "end of file"
  | .ident | .intLit => t.kind.name ++ " " ++ Text.quoted t.name
  | k => "'" ++ k.name ++ "'"

/-! ## Expressions -/

/-- The binary operators with their precedences. A higher precedence binds tighter, and all
operators are left-associative. -/
def binaryOp? : Token.Kind → Option (BinaryOp × Nat)
  | .orOr => some (.logicalOr, 1)
  | .andAnd => some (.logicalAnd, 2)
  | .eqEq => some (.eq, 3)
  | .bangEq => some (.ne, 3)
  | .lt => some (.lt, 4)
  | .ltEq => some (.le, 4)
  | .gt => some (.gt, 4)
  | .gtEq => some (.ge, 4)
  | .plus => some (.add, 5)
  | .minus => some (.sub, 5)
  | .star => some (.mul, 6)
  | .slash => some (.div, 6)
  | .percent => some (.mod, 6)
  | _ => none

/-- The binary operators that bind at least as tightly as `least`. -/
def binaryOpFrom? (least : Nat) (k : Token.Kind) : Option (BinaryOp × Nat) :=
  (binaryOp? k).filter (least ≤ ·.2)

/-- The unary operators. -/
def unaryOp? : Token.Kind → Option UnaryOp
  | .plus => some .plus
  | .minus => some .minus
  | .bang => some .not
  | _ => none

/-- The expression of a number that has been taken. -/
def literal {i : Input} (number : Taken Token i) : Result Expr i :=
  match Literal.read number.value.text with
  | .ok v => .ok ⟨.lit number.value.span v, number.next, number.shorter⟩
  | .error _ => .error (failure number.next .badNumber "malformed integer literal")

mutual

/-- An expression whose binary operators outside of parentheses bind at least as tightly as
`least`. -/
def binary (least : Nat) (i : Input) : Result Expr i := do
  let left ← unary i
  have := left.shorter
  let all ← binaryRest least left.value left.next
  return ⟨all.value, all.next, Nat.lt_of_le_of_lt all.notLonger left.shorter⟩
termination_by 8 * i.size + 3
decreasing_by all_goals omega

/-- The operators and operands that continue the expression `left`. -/
def binaryRest (least : Nat) (left : Expr) (i : Input) : Optional Expr i :=
  match takeIf i (binaryOpFrom? least) with
  | none => return ⟨left, i, Nat.le_refl _⟩
  | some op => do
    have := op.shorter
    let right ← binary (op.value.2.2 + 1) op.next
    have := right.shorter
    let whole := .binary (left.span.cover right.value.span) op.value.2.1 left right.value
    let all ← binaryRest least whole right.next
    have := all.notLonger
    return ⟨all.value, all.next, by omega⟩
termination_by 8 * i.size
decreasing_by all_goals omega

/-- An operand with the unary operators in front of it. -/
def unary (i : Input) : Result Expr i :=
  match takeIf i unaryOp? with
  | some op => do
    have := op.shorter
    let operand ← unary op.next
    have := operand.shorter
    return ⟨.unary (op.value.1.span.cover operand.value.span) op.value.2 operand.value,
      operand.next, by omega⟩
  | none => primary i
termination_by 8 * i.size + 2
decreasing_by all_goals omega

/-- An expression in parentheses, a number, a call, or a name with subscripts. -/
def primary (i : Input) : Result Expr i :=
  match take? i .lParen with
  | some opening => do
    have := opening.shorter
    let inner ← binary 0 opening.next
    have := inner.shorter
    let close ← expect inner.next .rParen .unclosedParen "expected ')' to close '('"
    have := close.shorter
    return ⟨.group (opening.value.span.cover close.value.span) inner.value, close.next, by omega⟩
  | none =>
    match take? i .intLit with
    | some number => literal number
    | none =>
      match take? i .ident with
      | some name =>
        have := name.shorter
        match take? name.next .lParen with
        | some opening => do
          have := opening.shorter
          let args ← arguments opening.next
          have := args.notLonger
          let close ← expect args.next .rParen .unclosedParen "expected ')' after call arguments"
          have := close.shorter
          return ⟨.call (name.value.span.cover close.value.span) name.value.name name.value.span
            args.value, close.next, by omega⟩
        | none => do
          let all ← subscripts (.ident name.value.span name.value.name) name.next
          have := all.notLonger
          return ⟨all.value, all.next, by omega⟩
      | none => .error (failure i .expectedExpression ("expected expression, got " ++ describe i.peek))
termination_by 8 * i.size + 1
decreasing_by all_goals omega

/-- The arguments of a call, up to its closing parenthesis. -/
def arguments (i : Input) : Optional (List Expr) i :=
  if i.kind = .rParen then return ⟨[], i, Nat.le_refl _⟩
  else do
    let args ← argumentList i
    return ⟨args.value, args.next, Nat.le_of_lt args.shorter⟩
termination_by 8 * i.size + 5
decreasing_by all_goals omega

/-- One or more expressions with commas between them. -/
def argumentList (i : Input) : Result (List Expr) i := do
  let arg ← binary 0 i
  have := arg.shorter
  match take? arg.next .comma with
  | none => return ⟨[arg.value], arg.next, arg.shorter⟩
  | some comma =>
    have := comma.shorter
    let more ← argumentList comma.next
    have := more.shorter
    return ⟨arg.value :: more.value, more.next, by omega⟩
termination_by 8 * i.size + 4
decreasing_by all_goals omega

/-- The subscripts that follow the expression `target`. -/
def subscripts (target : Expr) (i : Input) : Optional Expr i :=
  match take? i .lBracket with
  | none => return ⟨target, i, Nat.le_refl _⟩
  | some opening => do
    have := opening.shorter
    let idx ← binary 0 opening.next
    have := idx.shorter
    let close ← expect idx.next .rBracket .unclosedBracket "expected ']'"
    have := close.shorter
    let all ← subscripts (.index (target.span.cover close.value.span) target idx.value) close.next
    have := all.notLonger
    return ⟨all.value, all.next, by omega⟩
termination_by 8 * i.size
decreasing_by all_goals omega

end

/-- Any expression. -/
def expr (i : Input) : Result Expr i := binary 0 i

/-! ## Declarations -/

/-- `int` or `void`. -/
def baseType (i : Input) : Result BaseType i :=
  match takeIf i fun
    | .kwInt => some BaseType.int
    | .kwVoid => some BaseType.void
    | _ => none with
  | some t => .ok ⟨t.value.2, t.next, t.shorter⟩
  | none => .error (failure i .expectedType ("expected 'int' or 'void', got " ++ describe i.peek))

/-- Any number of array bounds. -/
def bounds (i : Input) : Optional (List Expr) i :=
  match take? i .lBracket with
  | none => return ⟨[], i, Nat.le_refl _⟩
  | some opening => do
    have := opening.shorter
    let dim ← expr opening.next
    have := dim.shorter
    let close ← expect dim.next .rBracket .unclosedBracket "expected ']' after array bound"
    have := close.shorter
    let more ← bounds close.next
    have := more.notLonger
    return ⟨dim.value :: more.value, more.next, by omega⟩
termination_by i.size
decreasing_by all_goals omega

mutual

/-- An initializer: an expression, or a list in braces. -/
def init (i : Input) : Result Init i :=
  match take? i .lBrace with
  | none => do
    let value ← expr i
    return ⟨.expr value.value.span value.value, value.next, value.shorter⟩
  | some opening => do
    have := opening.shorter
    let elems ← initElems opening.next
    have := elems.notLonger
    let close ← expect elems.next .rBrace .unclosedBrace
      "expected '\x7d' to close initializer list"
    have := close.shorter
    return ⟨.list (opening.value.span.cover close.value.span) elems.value, close.next, by omega⟩
termination_by 4 * i.size
decreasing_by all_goals omega

/-- The elements of a list in braces, up to its closing brace. -/
def initElems (i : Input) : Optional (List Init) i :=
  if i.kind = .rBrace then return ⟨[], i, Nat.le_refl _⟩
  else do
    let elems ← initList i
    return ⟨elems.value, elems.next, Nat.le_of_lt elems.shorter⟩
termination_by 4 * i.size + 2
decreasing_by all_goals omega

/-- One or more initializers with commas between them. -/
def initList (i : Input) : Result (List Init) i := do
  let elem ← init i
  have := elem.shorter
  match take? elem.next .comma with
  | none => return ⟨[elem.value], elem.next, elem.shorter⟩
  | some comma =>
    have := comma.shorter
    let more ← initList comma.next
    have := more.shorter
    return ⟨elem.value :: more.value, more.next, by omega⟩
termination_by 4 * i.size + 1
decreasing_by all_goals omega

end

/-- The bounds and the initializer that follow a defined name. -/
def defRest (name : Token) (i : Input) : Optional Def i := do
  let dims ← bounds i
  have := dims.notLonger
  match take? dims.next .assign with
  | none =>
    return ⟨{ name := name.name, nameSpan := name.span, dims := dims.value }, dims.next, this⟩
  | some assign =>
    have := assign.shorter
    let value ← init assign.next
    have := value.shorter
    return ⟨{ name := name.name, nameSpan := name.span, dims := dims.value,
              init := some value.value }, value.next, by omega⟩

/-- The definitions of a declaration, from after the first defined name on. -/
def defList (name : Token) (i : Input) : Optional (List Def) i := do
  let first ← defRest name i
  have := first.notLonger
  match take? first.next .comma with
  | none => return ⟨[first.value], first.next, this⟩
  | some comma =>
    have := comma.shorter
    let second ← expect comma.next .ident .expectedIdentifier "expected identifier after ','"
    have := second.shorter
    let more ← defList second.value second.next
    have := more.notLonger
    return ⟨first.value :: more.value, more.next, by omega⟩
termination_by i.size
decreasing_by all_goals omega

/-- A declaration from after its first defined name on. -/
def declRest (start : Span) (isConst : Bool) (type : BaseType) (name : Token) (i : Input) :
    Result Decl i := do
  let defs ← defList name i
  have := defs.notLonger
  let semicolon ← expect defs.next .semicolon .expectedSemicolon "expected ';' after declaration"
  have := semicolon.shorter
  return ⟨{ isConst := isConst, type := type, span := start.cover semicolon.next.last,
            defs := defs.value }, semicolon.next, by omega⟩

/-- A declaration whose type comes next. -/
def declFrom (start : Span) (isConst : Bool) (i : Input) : Result Decl i := do
  let type ← baseType i
  have := type.shorter
  let name ← expect type.next .ident .expectedIdentifier "expected identifier in declaration"
  have := name.shorter
  let decl ← declRest start isConst type.value name.value name.next
  have := decl.shorter
  return ⟨decl.value, decl.next, by omega⟩

/-- A declaration. -/
def decl (i : Input) : Result Decl i :=
  match take? i .kwConst with
  | none => declFrom i.peek.span false i
  | some const => do
    let decl ← declFrom i.peek.span true const.next
    have := const.shorter
    have := decl.shorter
    return ⟨decl.value, decl.next, by omega⟩

/-! ## Statements -/

/-- The condition of an `if` or a `while`. -/
def condition (i : Input) : Result Expr i := do
  let opening ← expect i .lParen .unexpectedToken "expected '(' before condition"
  have := opening.shorter
  let cond ← expr opening.next
  have := cond.shorter
  let close ← expect cond.next .rParen .unclosedParen "expected ')' after condition"
  have := close.shorter
  return ⟨cond.value, close.next, by omega⟩

/-- The semicolon after a statement. -/
def semicolon (i : Input) (after : String) : Result Token i :=
  expect i .semicolon .expectedSemicolon ("expected ';' after " ++ after)

/-- An assignment, or an expression for its effect. -/
def simple (i : Input) : Result Stmt i := do
  let start := i.peek.span
  let value ← expr i
  have := value.shorter
  match take? value.next .assign with
  | none =>
    let close ← semicolon value.next "expression"
    have := close.shorter
    return ⟨.expr (start.cover close.next.last) (some value.value), close.next, by omega⟩
  | some assign =>
    have := assign.shorter
    if value.value.place?.isNone then
      .error (failure value.next .unexpectedToken "left side of '=' is not assignable")
    else
      let source ← expr assign.next
      have := source.shorter
      let close ← semicolon source.next "assignment"
      have := close.shorter
      return ⟨.assign (start.cover close.next.last) value.value source.value, close.next, by omega⟩

/-- The value of a `return`, which may be absent. -/
def returnValue (i : Input) : Optional (Option Expr) i :=
  if i.kind = .semicolon then return ⟨none, i, Nat.le_refl _⟩
  else do
    let value ← expr i
    return ⟨some value.value, value.next, Nat.le_of_lt value.shorter⟩

mutual

/-- A block in braces. -/
def block (i : Input) : Result Stmt i := do
  let opening ← expect i .lBrace .unexpectedToken "expected '\x7b'"
  have := opening.shorter
  let body ← blockRest opening.next
  have := body.shorter
  return ⟨.block (opening.value.span.cover body.value.2.span) body.value.1, body.next, by omega⟩
termination_by 8 * i.size
decreasing_by all_goals omega

/-- The rest of a block: its statements, and its closing brace. -/
def blockRest (i : Input) : Result (List Stmt × Token) i :=
  match take? i .rBrace with
  | some close => return ⟨([], close.value), close.next, close.shorter⟩
  | none =>
    if i.kind = .eof then .error (failure i .unclosedBrace "expected '\x7d' to close block")
    else do
      let first ← blockItem i
      have := first.shorter
      let more ← blockRest first.next
      have := more.shorter
      return ⟨(first.value :: more.value.1, more.value.2), more.next, by omega⟩
termination_by 8 * i.size + 3
decreasing_by all_goals omega

/-- A local declaration or a statement. -/
def blockItem (i : Input) : Result Stmt i :=
  if i.kind = .kwConst ∨ i.kind = .kwInt ∨ i.kind = .kwVoid then do
    let d ← decl i
    return ⟨.decl (i.peek.span.cover d.next.last) (some d.value), d.next, d.shorter⟩
  else stmt i
termination_by 8 * i.size + 2
decreasing_by all_goals omega

/-- A statement. A dangling `else` belongs to the nearest `if`. -/
def stmt (i : Input) : Result Stmt i :=
  match i.kind with
  | .lBrace => block i
  | .semicolon => do
    let t ← semicolon i "statement"
    return ⟨.expr t.value.span none, t.next, t.shorter⟩
  | .kwIf => do
    let keyword ← expect i .kwIf .unexpectedToken "expected 'if'"
    have := keyword.shorter
    let cond ← condition keyword.next
    have := cond.shorter
    let thenArm ← stmt cond.next
    have := thenArm.shorter
    match take? thenArm.next .kwElse with
    | none =>
      return ⟨.ifThen (keyword.value.span.cover thenArm.next.last) cond.value thenArm.value none,
        thenArm.next, by omega⟩
    | some other =>
      have := other.shorter
      let elseArm ← stmt other.next
      have := elseArm.shorter
      return ⟨.ifThen (keyword.value.span.cover elseArm.next.last) cond.value thenArm.value
        (some elseArm.value), elseArm.next, by omega⟩
  | .kwWhile => do
    let keyword ← expect i .kwWhile .unexpectedToken "expected 'while'"
    have := keyword.shorter
    let cond ← condition keyword.next
    have := cond.shorter
    let body ← stmt cond.next
    have := body.shorter
    return ⟨.while (keyword.value.span.cover body.next.last) cond.value body.value, body.next,
      by omega⟩
  | .kwBreak => do
    let keyword ← expect i .kwBreak .unexpectedToken "expected 'break'"
    let close ← semicolon keyword.next "break"
    have := keyword.shorter
    have := close.shorter
    return ⟨.break (keyword.value.span.cover close.next.last), close.next, by omega⟩
  | .kwContinue => do
    let keyword ← expect i .kwContinue .unexpectedToken "expected 'continue'"
    let close ← semicolon keyword.next "continue"
    have := keyword.shorter
    have := close.shorter
    return ⟨.continue (keyword.value.span.cover close.next.last), close.next, by omega⟩
  | .kwReturn => do
    let keyword ← expect i .kwReturn .unexpectedToken "expected 'return'"
    have := keyword.shorter
    let value ← returnValue keyword.next
    have := value.notLonger
    let close ← semicolon value.next "return"
    have := close.shorter
    return ⟨.return (keyword.value.span.cover close.next.last) value.value, close.next, by omega⟩
  | _ => simple i
termination_by 8 * i.size + 1
decreasing_by all_goals omega

end

/-! ## Items -/

/-- One parameter of a function. -/
def param (i : Input) : Result Param i := do
  let start := i.peek.span
  let type ← baseType i
  have := type.shorter
  let name ← expect type.next .ident .expectedIdentifier "expected parameter name"
  have := name.shorter
  match take? name.next .lBracket with
  | none =>
    return ⟨{ name := name.value.name, nameSpan := name.value.span, type := type.value,
              span := start.cover name.next.last }, name.next, by omega⟩
  | some opening =>
    have := opening.shorter
    let close ← expect opening.next .rBracket .unclosedBracket "expected '[]' for array parameter"
    have := close.shorter
    let dims ← bounds close.next
    have := dims.notLonger
    return ⟨{ name := name.value.name, nameSpan := name.value.span, type := type.value,
              isArray := true, dims := dims.value, span := start.cover dims.next.last },
            dims.next, by omega⟩

/-- One or more parameters with commas between them. -/
def paramList (i : Input) : Result (List Param) i := do
  let first ← param i
  have := first.shorter
  match take? first.next .comma with
  | none => return ⟨[first.value], first.next, first.shorter⟩
  | some comma =>
    have := comma.shorter
    let more ← paramList comma.next
    have := more.shorter
    return ⟨first.value :: more.value, more.next, by omega⟩
termination_by i.size
decreasing_by all_goals omega

/-- The parameters of a function, up to the closing parenthesis. -/
def params (i : Input) : Optional (List Param) i :=
  if i.kind = .rParen then return ⟨[], i, Nat.le_refl _⟩
  else do
    let ps ← paramList i
    return ⟨ps.value, ps.next, Nat.le_of_lt ps.shorter⟩

/-- The body of a function, or the semicolon of a declaration. -/
def fnBody (i : Input) : Result (Option Stmt) i :=
  match take? i .semicolon with
  | some t => return ⟨none, t.next, t.shorter⟩
  | none => do
    let b ← block i
    return ⟨some b.value, b.next, b.shorter⟩

/-- A function from its opening parenthesis on. -/
def fnRest (start : Span) (type : BaseType) (name : Token) (i : Input) : Result Item i := do
  let opening ← expect i .lParen .unexpectedToken "expected '('"
  have := opening.shorter
  let ps ← params opening.next
  have := ps.notLonger
  let close ← expect ps.next .rParen .unclosedParen "expected ')' after parameters"
  have := close.shorter
  let body ← fnBody close.next
  have := body.shorter
  return ⟨.fn (start.cover body.next.last)
    { name := name.name, nameSpan := name.span, returnType := type, params := ps.value,
      body := body.value }, body.next, by omega⟩

/-- An item. After a type and a name, an opening parenthesis tells a function from a
declaration. -/
def item (i : Input) : Result Item i :=
  let start := i.peek.span
  if i.kind = .kwConst then do
    let d ← decl i
    return ⟨.decl (start.cover d.next.last) (some d.value), d.next, d.shorter⟩
  else do
    let type ← baseType i
    have := type.shorter
    let name ← expect type.next .ident .expectedIdentifier "expected identifier after type"
    have := name.shorter
    if name.next.kind = .lParen then
      let f ← fnRest start type.value name.value name.next
      have := f.shorter
      return ⟨f.value, f.next, by omega⟩
    else
      let d ← declRest start false type.value name.value name.next
      have := d.shorter
      return ⟨.decl (start.cover d.next.last) (some d.value), d.next, by omega⟩

/-- Items up to the end of the file. -/
def items (i : Input) : Except Error (List Item × Input) :=
  if i.kind = .eof then return ([], i)
  else do
    let first ← item i
    have := first.shorter
    let (more, last) ← items first.next
    return (first.value :: more, last)
termination_by i.size
decreasing_by all_goals omega

/-- The whole file as an input. -/
def Input.ofLexed (l : Lexed) : Input :=
  { tokens := l.tokens, eof := l.eof, last := (l.tokens.head?.getD l.eof).span,
    lexical := l.errors.head? }

/-- A compilation unit. -/
def compUnit (l : Lexed) : Except Error CompUnit := do
  let start := Input.ofLexed l
  let (is, last) ← items start
  return { span := start.peek.span.cover last.last, items := is }

end Parser

/-- The result of parsing a file. -/
structure Parsed where
  result : Outcome CompUnit
  /-- The errors in the order in which they are found, lexical errors included. -/
  reported : List Diag.Error

namespace Parsed

/-- The lexical errors that are known once `t` is the next token. -/
def lexicalUpTo (l : Lexed) (t : Token) : List Diag.Error :=
  l.errors.filter (·.span.start ≤ t.span.start)

/-- Parse tokens. Tokens are read only as far as they are needed, so errors beyond the first syntax
error stay unknown. Whether the work was called off is asked before every item, and here it has one
answer for the whole file, so that work which was called off ends before the first item. -/
def ofLexed (l : Lexed) (canceled : Bool) : Parsed :=
  if canceled then
    { result := .error .canceled, reported := lexicalUpTo l (Parser.Input.ofLexed l).peek }
  else
    match Parser.compUnit l with
    | .ok u => { result := .ok u, reported := l.errors }
    | .error e =>
      { result := .raise e.error
        reported := lexicalUpTo l e.found ++ if e.isLexical then [] else [e.error] }

end Parsed
end SysY

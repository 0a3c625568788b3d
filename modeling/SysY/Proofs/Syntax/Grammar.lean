import SysY.Syntax.Parser

/-! # The grammar

Which tokens spell which tree. There is one relation for every kind of phrase, between the tokens of
a phrase and its tree. Expressions have levels: at level `n` the operators outside of parentheses
belong to level `n` or a higher one. Statements are ambiguous as long as an `else` may belong to any `if`
before it. The tree that is meant is the one where it belongs to the nearest `if` that has none: the
phrase before an `else` never ends with such an `if`. -/

namespace SysY.Grammar

open Source (Span)

/-- The span from the first token of a phrase to its last one. -/
def extent (ts : List Token) : Span :=
  match ts.head?, ts.getLast? with
  | some first, some last => first.span.cover last.span
  | _, _ => {}

/-- Phrases with commas between them. -/
inductive Commas {α : Type} (P : List Token → α → Prop) : List Token → List α → Prop
  | one {ts a} : P ts a → Commas P ts [a]
  | more {ts a comma us as} : P ts a → comma.kind = .comma → Commas P us as →
      Commas P (ts ++ comma :: us) (a :: as)

/-! ## Operators -/

/-- The binary operators and their levels. The higher the level, the tighter an operator binds. -/
inductive Operator : Token.Kind → BinaryOp → Nat → Prop
  | or : Operator .orOr .logicalOr 1
  | and : Operator .andAnd .logicalAnd 2
  | eq : Operator .eqEq .eq 3
  | ne : Operator .bangEq .ne 3
  | lt : Operator .lt .lt 4
  | le : Operator .ltEq .le 4
  | gt : Operator .gt .gt 4
  | ge : Operator .gtEq .ge 4
  | add : Operator .plus .add 5
  | sub : Operator .minus .sub 5
  | mul : Operator .star .mul 6
  | div : Operator .slash .div 6
  | mod : Operator .percent .mod 6

/-- The unary operators. They bind tighter than all binary ones. -/
inductive Sign : Token.Kind → UnaryOp → Prop
  | plus : Sign .plus .plus
  | minus : Sign .minus .minus
  | not : Sign .bang .not

/-- The parser knows the same binary operators, with the same levels. -/
theorem binaryOp?_eq_some_iff {k : Token.Kind} {op : BinaryOp} {n : Nat} :
    Parser.binaryOp? k = some (op, n) ↔ Operator k op n := by
  constructor
  · intro known
    cases k <;> cases known <;> constructor
  · rintro ⟨⟩ <;> rfl

theorem unaryOp?_eq_some_iff {k : Token.Kind} {op : UnaryOp} :
    Parser.unaryOp? k = some op ↔ Sign k op := by
  constructor
  · intro known
    cases k <;> cases known <;> constructor
  · rintro ⟨⟩ <;> rfl

/-- There are six levels of binary operators. -/
theorem Operator.range {k : Token.Kind} {op : BinaryOp} {n : Nat} (h : Operator k op n) :
    1 ≤ n ∧ n ≤ 6 := by
  cases h <;> decide

/-! ## Expressions -/

mutual

/-- Expressions of a level. Binary operators are left-associative. -/
inductive Level : Nat → List Token → Expr → Prop
  | unary {ts e} : Unary ts e → Level 7 ts e
  | tighter {n ts e} : n < 7 → Level (n + 1) ts e → Level n ts e
  | binary {n ts left t op us right} : Level n ts left → Operator t.kind op n →
      Level (n + 1) us right →
      Level n (ts ++ t :: us) (.binary (left.span.cover right.span) op left right)

/-- Operands with unary operators in front of them. -/
inductive Unary : List Token → Expr → Prop
  | primary {ts e} : Primary ts e → Unary ts e
  | unary {t op ts e} : Sign t.kind op → Unary ts e →
      Unary (t :: ts) (.unary (t.span.cover e.span) op e)

/-- Expressions in parentheses, numbers, calls, and names with subscripts. -/
inductive Primary : List Token → Expr → Prop
  | group {opening ts e close} : opening.kind = .lParen → Level 1 ts e → close.kind = .rParen →
      Primary (opening :: ts ++ [close]) (.group (opening.span.cover close.span) e)
  | number {t v} : t.kind = .intLit → Literal.read t.text = .ok v → Primary [t] (.lit t.span v)
  | call {name opening close} : name.kind = .ident → opening.kind = .lParen →
      close.kind = .rParen →
      Primary [name, opening, close] (.call (name.span.cover close.span) name.name name.span [])
  | callWith {name opening ts as close} : name.kind = .ident → opening.kind = .lParen →
      Commas (Level 1) ts as → close.kind = .rParen →
      Primary (name :: opening :: ts ++ [close])
        (.call (name.span.cover close.span) name.name name.span as)
  | named {ts e} : Named ts e → Primary ts e

/-- Names with subscripts. -/
inductive Named : List Token → Expr → Prop
  | name {t} : t.kind = .ident → Named [t] (.ident t.span t.name)
  | index {ts e opening us idx close} : Named ts e → opening.kind = .lBracket → Level 1 us idx →
      close.kind = .rBracket →
      Named (ts ++ opening :: us ++ [close]) (.index (e.span.cover close.span) e idx)

end

theorem Level.le {n : Nat} {ts : List Token} {e : Expr} (h : Level n ts e) : n ≤ 7 := by
  cases h with
  | unary => exact Nat.le_refl 7
  | tighter small => exact Nat.le_of_lt small
  | binary left op right => exact Nat.le_succ_of_le op.range.2

/-- An expression of one level is an expression of every lower level. -/
theorem Level.lower {n m : Nat} {ts : List Token} {e : Expr} (h : Level m ts e) (le : n ≤ m) :
    Level n ts e := by
  induction m with
  | zero =>
    obtain rfl := Nat.le_zero.mp le
    exact h
  | succ m ih =>
    rcases Nat.lt_or_eq_of_le le with lt | rfl
    · exact ih (.tighter h.le h) (Nat.le_of_lt_succ lt)
    · exact h

/-- What can be assigned to: a name with subscripts, which can stand in parentheses. -/
inductive Assignable : List Token → Expr → Prop
  | named {ts e} : Named ts e → Assignable ts e
  | group {opening ts e close} : opening.kind = .lParen → Assignable ts e →
      close.kind = .rParen →
      Assignable (opening :: ts ++ [close]) (.group (opening.span.cover close.span) e)

/-- An expression of any level without a binary operator is an operand. -/
theorem Level.unary_or_binary {n : Nat} {ts : List Token} {e : Expr} (h : Level n ts e) :
    Unary ts e ∨ ∃ s op left right, e = .binary s op left right := by
  induction d : 7 - n generalizing n with
  | zero =>
    cases h with
    | unary isUnary => exact .inl isUnary
    | tighter small => omega
    | binary => exact .inr ⟨_, _, _, _, rfl⟩
  | succ d ih =>
    cases h with
    | unary isUnary => exact .inl isUnary
    | tighter _ tighter => exact ih tighter (by omega)
    | binary => exact .inr ⟨_, _, _, _, rfl⟩

/-- An expression that denotes a place can be assigned to. -/
theorem Level.assignable {n : Nat} {ts : List Token} {e : Expr} (h : Level n ts e)
    (isPlace : e.place?.isSome) : Assignable ts e := by
  rcases h.unary_or_binary with isUnary | ⟨s, op, left, right, rfl⟩
  · cases isUnary with
    | unary => simp [Expr.place?] at isPlace
    | primary isPrimary =>
      cases isPrimary with
      | group isOpen inner isClose =>
        exact .group isOpen (inner.assignable (by simpa [Expr.place?] using isPlace)) isClose
      | named isNamed => exact .named isNamed
      | number | call | callWith => simp [Expr.place?] at isPlace
  · simp [Expr.place?] at isPlace
termination_by ts.length

/-! ## Declarations -/

/-- The keywords of the base types. -/
def baseType? : Token.Kind → Option BaseType
  | .kwInt => some .int
  | .kwVoid => some .void
  | _ => none

/-- Array bounds. -/
inductive Dims : List Token → List Expr → Prop
  | none : Dims [] []
  | more {opening ts e close us es} : opening.kind = .lBracket → Level 1 ts e →
      close.kind = .rBracket → Dims us es → Dims (opening :: ts ++ close :: us) (e :: es)

/-- Initializers: an expression, or initializers in braces. There is no comma at the end. -/
inductive Initializer : List Token → Init → Prop
  | value {ts e} : Level 1 ts e → Initializer ts (.expr e.span e)
  | empty {opening close} : opening.kind = .lBrace → close.kind = .rBrace →
      Initializer [opening, close] (.list (opening.span.cover close.span) [])
  | list {opening ts is close} : opening.kind = .lBrace → Commas Initializer ts is →
      close.kind = .rBrace →
      Initializer (opening :: ts ++ [close]) (.list (opening.span.cover close.span) is)

/-- Definitions of a name. -/
inductive Definition : List Token → Def → Prop
  | blank {name ts ds} : name.kind = .ident → Dims ts ds →
      Definition (name :: ts) { name := name.name, nameSpan := name.span, dims := ds }
  | init {name ts ds assign us i} : name.kind = .ident → Dims ts ds → assign.kind = .assign →
      Initializer us i → Definition (name :: ts ++ assign :: us)
        { name := name.name, nameSpan := name.span, dims := ds, init := some i }

/-- Declarations of variables and constants. -/
inductive Declaration : List Token → Decl → Prop
  | vars {base type ts ds close} : baseType? base.kind = some type → Commas Definition ts ds →
      close.kind = .semicolon → Declaration (base :: ts ++ [close])
        { isConst := false, type := type, span := extent (base :: ts ++ [close]), defs := ds }
  | consts {const base type ts ds close} : const.kind = .kwConst →
      baseType? base.kind = some type → Commas Definition ts ds → close.kind = .semicolon →
      Declaration (const :: base :: ts ++ [close])
        { isConst := true, type := type, span := extent (const :: base :: ts ++ [close]),
          defs := ds }

theorem Declaration.ne_nil {ts : List Token} {d : Decl} (h : Declaration ts d) : ts ≠ [] := by
  cases h <;> simp

/-! ## Statements -/

/-- Whether a statement ends with an `if` without `else`. -/
def endsOpen : Stmt → Bool
  | .ifThen _ _ _ none => true
  | .ifThen _ _ _ (some other) => endsOpen other
  | .while _ _ body => endsOpen body
  | _ => false

mutual

/-- Statements. With `nearest` an `else` belongs to the nearest `if` that has none. -/
inductive Statement (nearest : Bool) : List Token → Stmt → Prop
  | block {opening ts ss close} : opening.kind = .lBrace → Contents nearest ts ss →
      close.kind = .rBrace →
      Statement nearest (opening :: ts ++ [close]) (.block (opening.span.cover close.span) ss)
  | empty {t} : t.kind = .semicolon → Statement nearest [t] (.expr t.span none)
  | effect {ts e close} : Level 1 ts e → close.kind = .semicolon →
      Statement nearest (ts ++ [close]) (.expr (extent (ts ++ [close])) (some e))
  | assign {ts target equals us value close} : Assignable ts target → equals.kind = .assign →
      Level 1 us value → close.kind = .semicolon →
      Statement nearest (ts ++ equals :: us ++ [close])
        (.assign (extent (ts ++ equals :: us ++ [close])) target value)
  | ifThen {keyword opening ts cond close us arm} : keyword.kind = .kwIf →
      opening.kind = .lParen → Level 1 ts cond → close.kind = .rParen → Statement nearest us arm →
      Statement nearest (keyword :: opening :: ts ++ close :: us)
        (.ifThen (extent (keyword :: opening :: ts ++ close :: us)) cond arm none)
  | ifElse {keyword opening ts cond close us arm other vs otherArm} : keyword.kind = .kwIf →
      opening.kind = .lParen → Level 1 ts cond → close.kind = .rParen → Statement nearest us arm →
      (nearest = true → endsOpen arm = false) → other.kind = .kwElse →
      Statement nearest vs otherArm →
      Statement nearest (keyword :: opening :: ts ++ close :: us ++ other :: vs)
        (.ifThen (extent (keyword :: opening :: ts ++ close :: us ++ other :: vs)) cond arm
          (some otherArm))
  | while {keyword opening ts cond close us body} : keyword.kind = .kwWhile →
      opening.kind = .lParen → Level 1 ts cond → close.kind = .rParen → Statement nearest us body →
      Statement nearest (keyword :: opening :: ts ++ close :: us)
        (.while (extent (keyword :: opening :: ts ++ close :: us)) cond body)
  | break {keyword close} : keyword.kind = .kwBreak → close.kind = .semicolon →
      Statement nearest [keyword, close] (.break (extent [keyword, close]))
  | continue {keyword close} : keyword.kind = .kwContinue → close.kind = .semicolon →
      Statement nearest [keyword, close] (.continue (extent [keyword, close]))
  | return {keyword close} : keyword.kind = .kwReturn → close.kind = .semicolon →
      Statement nearest [keyword, close] (.return (extent [keyword, close]) none)
  | returnValue {keyword ts e close} : keyword.kind = .kwReturn → Level 1 ts e →
      close.kind = .semicolon → Statement nearest (keyword :: ts ++ [close])
        (.return (extent (keyword :: ts ++ [close])) (some e))

/-- What stands in a block: statements and declarations. -/
inductive Contents (nearest : Bool) : List Token → List Stmt → Prop
  | none : Contents nearest [] []
  | decl {ts d us ss} : Declaration ts d → Contents nearest us ss →
      Contents nearest (ts ++ us) (.decl (extent ts) (some d) :: ss)
  | stmt {ts s us ss} : Statement nearest ts s → Contents nearest us ss →
      Contents nearest (ts ++ us) (s :: ss)

end

/-! ## Items -/

/-- Parameters of a function. -/
inductive Parameter : List Token → Param → Prop
  | number {base type name} : baseType? base.kind = some type → name.kind = .ident →
      Parameter [base, name] { name := name.name, nameSpan := name.span, type := type,
                               span := extent [base, name] }
  | array {base type name opening close ts ds} : baseType? base.kind = some type →
      name.kind = .ident → opening.kind = .lBracket → close.kind = .rBracket → Dims ts ds →
      Parameter (base :: name :: opening :: close :: ts)
        { name := name.name, nameSpan := name.span, type := type, isArray := true, dims := ds,
          span := extent (base :: name :: opening :: close :: ts) }

/-- Parameters in parentheses. -/
inductive Parameters : List Token → List Param → Prop
  | none {opening close} : opening.kind = .lParen → close.kind = .rParen →
      Parameters [opening, close] []
  | some {opening ts ps close} : opening.kind = .lParen → Commas Parameter ts ps →
      close.kind = .rParen → Parameters (opening :: ts ++ [close]) ps

/-- A block for a definition of a function, a semicolon for a declaration. -/
inductive FnBody (nearest : Bool) : List Token → Option Stmt → Prop
  | none {t} : t.kind = .semicolon → FnBody nearest [t] none
  | block {opening ts ss close} : opening.kind = .lBrace → Contents nearest ts ss →
      close.kind = .rBrace →
      FnBody nearest (opening :: ts ++ [close]) (some (.block (opening.span.cover close.span) ss))

/-- What stands at the top level. -/
inductive TopLevel (nearest : Bool) : List Token → Item → Prop
  | decl {ts d} : Declaration ts d → TopLevel nearest ts (.decl (extent ts) (some d))
  | fn {base type name ts ps us body} : baseType? base.kind = some type → name.kind = .ident →
      Parameters ts ps → FnBody nearest us body → TopLevel nearest (base :: name :: ts ++ us)
        (.fn (extent (base :: name :: ts ++ us))
          { name := name.name, nameSpan := name.span, returnType := type, params := ps,
            body := body })

/-- Items one after the other. -/
inductive Items (nearest : Bool) : List Token → List Item → Prop
  | none : Items nearest [] []
  | more {ts i us is} : TopLevel nearest ts i → Items nearest us is →
      Items nearest (ts ++ us) (i :: is)

/-- The tokens of a file spell a unit. A file without tokens is where its end is. -/
def Spells (nearest : Bool) (l : Lexed) (u : CompUnit) : Prop :=
  Items nearest l.tokens u.items ∧
    u.span = if l.tokens.isEmpty then l.eof.span else extent l.tokens

end SysY.Grammar

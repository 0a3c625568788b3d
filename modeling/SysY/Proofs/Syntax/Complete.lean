import SysY.Proofs.Syntax.Reading
import SysY.Proofs.Syntax.Whole

/-! # What is in the grammar is parsed

One token of lookahead is enough. The first token of a phrase tells which phrase it is, and the
token after a phrase tells that it is over. An expression is read together with whatever continues
it, because the parser does not know the level of an expression before it has seen all of it. -/

namespace SysY.Grammar

/-! ## First tokens -/

/-- What the first token of a phrase is. -/
def First (P : Token.Kind → Prop) (ts : List Token) : Prop := ∃ t us, ts = t :: us ∧ P t.kind

section First

variable {P Q : Token.Kind → Prop} {t : Token} {ts us : List Token}

theorem First.cons (h : P t.kind) : First P (t :: ts) := ⟨t, ts, rfl, h⟩

theorem First.append (h : First P ts) : First P (ts ++ us) := by
  obtain ⟨t, vs, rfl, h⟩ := h
  exact ⟨t, vs ++ us, rfl, h⟩

theorem First.mono (h : First P ts) (weaker : ∀ k, P k → Q k) : First Q ts := by
  obtain ⟨t, us, rfl, h⟩ := h
  exact .cons (weaker _ h)

end First

/-- Phrases with commas between them start as the first one does. -/
theorem Commas.first {α : Type} {R : List Token → α → Prop} {P : Token.Kind → Prop}
    {ts : List Token} {as : List α} (h : Commas R ts as)
    (each : ∀ {ts a}, R ts a → First P ts) : First P ts := by
  cases h with
  | one h => exact each h
  | more h _ _ => exact (each h).append

/-- The tokens with which an operand without operators starts. -/
def opensPrimary : Token.Kind → Bool
  | .lParen | .intLit | .ident => true
  | _ => false

/-- The tokens with which an expression starts. -/
def opensExpr (k : Token.Kind) : Bool := opensPrimary k || (Parser.unaryOp? k).isSome

/-- The tokens with which a declaration starts. -/
def opensDecl : Token.Kind → Bool
  | .kwConst | .kwInt | .kwVoid => true
  | _ => false

/-- The tokens with which a statement starts. -/
def opensStmt (k : Token.Kind) : Bool :=
  match k with
  | .lBrace | .semicolon | .kwIf | .kwWhile | .kwBreak | .kwContinue | .kwReturn => true
  | k => opensExpr k

theorem opensStmt_of_expr {k : Token.Kind} (h : opensExpr k = true) : opensStmt k = true := by
  unfold opensStmt
  split <;> first | rfl | exact h

theorem Named.first : ∀ {ts e}, Named ts e → First (· = .ident) ts
  | _, _, .name isName => .cons isName
  | _, _, .index isNamed _ _ _ => isNamed.first.append.append

theorem Primary.first {ts : List Token} {e : Expr} (h : Primary ts e) :
    First (opensPrimary · = true) ts := by
  cases h with
  | group isOpen _ _ => exact .cons (isOpen ▸ rfl)
  | number isNumber _ => exact .cons (isNumber ▸ rfl)
  | call isName _ _ => exact .cons (isName ▸ rfl)
  | callWith isName _ _ _ => exact .cons (isName ▸ rfl)
  | named isNamed => exact isNamed.first.mono fun _ isName => isName ▸ rfl

theorem Unary.first {ts : List Token} {e : Expr} (h : Unary ts e) :
    First (opensExpr · = true) ts := by
  cases h with
  | primary isPrimary => exact isPrimary.first.mono fun _ opens => by simp [opensExpr, opens]
  | unary isSign _ => exact .cons (by simp [opensExpr, unaryOp?_eq_some_iff.mpr isSign])

theorem Level.first : ∀ {n ts e}, Level n ts e → First (opensExpr · = true) ts
  | _, _, _, .unary isUnary => isUnary.first
  | _, _, _, Level.tighter _ h => h.first
  | _, _, _, .binary left _ _ => left.first.append

theorem Assignable.level : ∀ {ts e}, Assignable ts e → Level 1 ts e
  | _, _, .named isNamed => (Level.unary (.primary (.named isNamed))).lower (by decide)
  | _, _, .group isOpen inner isClose =>
    (Level.unary (.primary (.group isOpen inner.level isClose))).lower (by decide)

theorem Named.isPlace {ts : List Token} {e : Expr} (h : Named ts e) : e.place?.isSome := by
  cases h with
  | name _ => rfl
  | index isNamed _ _ _ => simpa [Expr.place?] using isNamed.isPlace

theorem Assignable.isPlace {ts : List Token} {e : Expr} (h : Assignable ts e) :
    e.place?.isSome := by
  cases h with
  | named isNamed => exact isNamed.isPlace
  | group _ inner _ => simpa [Expr.place?] using inner.isPlace

theorem opensDecl_of_baseType {k : Token.Kind} {type : BaseType} (h : baseType? k = some type) :
    opensDecl k = true ∧ k ≠ .kwConst := by
  cases k <;> first | exact ⟨rfl, by decide⟩ | cases h

theorem Declaration.first {ts : List Token} {d : Decl} (h : Declaration ts d) :
    First (opensDecl · = true) ts := by
  cases h with
  | vars isBase _ _ => exact .cons (opensDecl_of_baseType isBase).1
  | consts isConst _ _ _ => exact .cons (isConst ▸ rfl)

theorem Statement.first {nearest : Bool} {ts : List Token} {s : Stmt}
    (h : Statement nearest ts s) : First (opensStmt · = true) ts := by
  cases h with
  | effect isExpr _ => exact (isExpr.first.mono fun _ => opensStmt_of_expr).append
  | assign isTarget _ _ _ =>
    exact (isTarget.level.first.mono fun _ => opensStmt_of_expr).append.append
  | ifElse isIf _ _ _ _ _ _ _ => exact .cons (isIf ▸ rfl)
  | block keyword _ _ | empty keyword | ifThen keyword _ _ _ _ | «while» keyword _ _ _ _
  | «break» keyword _ | «continue» keyword _ | «return» keyword _ | returnValue keyword _ _ =>
    exact .cons (keyword ▸ rfl)

end SysY.Grammar

namespace SysY.Parser

open Source (Span)
open Grammar

theorem Reads.first {i j : Input} {ts : List Token} {P : Token.Kind → Prop} (h : Reads i ts j)
    (first : First P ts) : Next i P := by
  obtain ⟨t, us, rfl, isFirst⟩ := first
  exact h.next.mpr isFirst

theorem Reads.kind {i j : Input} {ts : List Token} {P : Token.Kind → Prop} (h : Reads i ts j)
    (first : First P ts) : P i.kind := by
  obtain ⟨t, us, rfl, isFirst⟩ := first
  rw [Input.kind, h.peek]
  exact isFirst

/-- Tokens that a test tells apart differ. -/
theorem ne_of_test {test : Token.Kind → Bool} {k c : Token.Kind} (h : test k = true)
    (no : test c = false) : k ≠ c := by
  rintro rfl
  cases h.symm.trans no

/-! ## Expressions -/

/-- A token that can stand after an expression of level `n` and does not belong to it. -/
structure Follows (n : Nat) (k : Token.Kind) : Prop where
  noParen : k ≠ .lParen
  noBracket : k ≠ .lBracket
  below : Below n k

theorem Follows.mono {n m : Nat} {k : Token.Kind} (h : Follows n k) (le : n ≤ m) : Follows m k :=
  { h with below := h.below.mono le }

theorem follows_operator {k : Token.Kind} {op : BinaryOp} {n : Nat} (h : Operator k op n) :
    Follows (n + 1) k where
  noParen := by rintro rfl; cases h
  noBracket := by rintro rfl; cases h
  below op' found := by
    obtain rfl := Option.some.inj ((binaryOp?_eq_some_iff.mpr h).symm.trans found)
    exact Nat.lt_succ_self n

/-- The tokens that end every expression before them. -/
def closes : Token.Kind → Bool
  | .rParen | .rBracket | .rBrace | .comma | .semicolon | .assign => true
  | _ => false

theorem follows_of_closes {k : Token.Kind} (h : closes k = true) (n : Nat) : Follows n k := by
  have none : binaryOp? k = none := by cases k <;> first | rfl | cases h
  refine ⟨?_, ?_, fun op found => by simp [none] at found⟩
  all_goals
    rintro rfl
    cases h

theorem binaryRest_stops {least : Nat} {i : Input} (below : Next i (Below least)) (e : Expr) :
    binaryRest least e i = .ok ⟨e, i, Nat.le_refl _⟩ := by
  have none := takeIf_eq_none.mpr (below.mono fun _ => binaryOpFrom?_eq_none.mpr)
  rw [binaryRest, none]
  rfl

theorem Next.follows {i : Input} (next : Next i (closes · = true)) (n : Nat) :
    Next i (Follows n) := next.mono fun _ h => follows_of_closes h n

theorem binaryRest_ends {i : Input} (next : Next i (closes · = true)) (e : Expr) :
    binaryRest 0 e i = .ok ⟨e, i, Nat.le_refl _⟩ :=
  binaryRest_stops ((next.follows 0).mono fun _ h => h.below) e

/-- An operator and its right operand continue an expression. -/
theorem binaryRest_goes {least n : Nat} {i j₁ j k : Input} {t : Token} {op : BinaryOp}
    {left right a : Expr} {s₁ : j.size < j₁.size} {s : k.size ≤ j.size}
    (readsOp : Reads i [t] j₁) (isOp : Operator t.kind op n) (le : least ≤ n)
    (hright : binary (n + 1) j₁ = .ok ⟨right, j, s₁⟩)
    (rest : binaryRest least (.binary (left.span.cover right.span) op left right) j =
      .ok ⟨a, k, s⟩) : ∃ s, binaryRest least left i = .ok ⟨a, k, s⟩ := by
  obtain ⟨s₂, hop⟩ := takeIf_of_reads (f := binaryOpFrom? least) readsOp
    (Option.filter_eq_some_iff.mpr ⟨binaryOp?_eq_some_iff.mpr isOp, by simpa using le⟩)
  refine ⟨by omega, ?_⟩
  rw [binaryRest, hop]
  exact Except.bind_eq_ok.mpr ⟨_, hright, Except.bind_eq_ok.mpr ⟨_, rest, rfl⟩⟩

theorem subscripts_stops {i : Input} (next : Next i (· ≠ .lBracket)) (e : Expr) :
    subscripts e i = .ok ⟨e, i, Nat.le_refl _⟩ := by
  rw [subscripts, take?_eq_none.mpr next]
  rfl

/-- A subscript continues a name. -/
theorem subscripts_goes {i j₁ j₂ j k : Input} {opening close : Token} {target idx a : Expr}
    {s₂ : j₂.size < j₁.size} {s : k.size ≤ j.size}
    (readsOpen : Reads i [opening] j₁) (isOpen : opening.kind = .lBracket)
    (hidx : expr j₁ = .ok ⟨idx, j₂, s₂⟩)
    (readsClose : Reads j₂ [close] j) (isClose : close.kind = .rBracket)
    (rest : subscripts (.index (target.span.cover close.span) target idx) j = .ok ⟨a, k, s⟩) :
    ∃ s, subscripts target i = .ok ⟨a, k, s⟩ := by
  obtain ⟨s₁, hopening⟩ := take?_of_reads readsOpen isOpen
  obtain ⟨s₃, hclose⟩ := expect_of_reads readsClose isClose .unclosedBracket _
  refine ⟨by omega, ?_⟩
  rw [subscripts, hopening]
  exact Except.bind_eq_ok.mpr ⟨_, hidx, Except.bind_eq_ok.mpr ⟨_, hclose,
    Except.bind_eq_ok.mpr ⟨_, rest, rfl⟩⟩⟩

theorem arguments_of {i j : Input} {args : List Expr} {s : j.size < i.size}
    (opens : opensExpr i.kind = true) (h : argumentList i = .ok ⟨args, j, s⟩) :
    arguments i = .ok ⟨args, j, Nat.le_of_lt s⟩ := by
  rw [arguments, if_neg (ne_of_test opens rfl)]
  exact Except.bind_eq_ok.mpr ⟨_, h, rfl⟩

/-- A call is read if its arguments are. -/
theorem call_of {i j₁ j₂ j₃ j : Input} {name opening close : Token} {args : List Expr}
    {s : j₃.size ≤ j₂.size} (readsName : Reads i [name] j₁) (isName : name.kind = .ident)
    (readsOpen : Reads j₁ [opening] j₂) (isOpen : opening.kind = .lParen)
    (hargs : arguments j₂ = .ok ⟨args, j₃, s⟩) (readsClose : Reads j₃ [close] j)
    (isClose : close.kind = .rParen) :
    ∃ s, primary i =
      .ok ⟨.call (name.span.cover close.span) name.name name.span args, j, s⟩ := by
  have noParen : take? i .lParen = none := take?_eq_none.mpr (readsName.next.mpr (isName ▸ nofun))
  have noNumber : take? i .intLit = none := take?_eq_none.mpr (readsName.next.mpr (isName ▸ nofun))
  obtain ⟨s₁, hname⟩ := take?_of_reads readsName isName
  obtain ⟨s₂, hopening⟩ := take?_of_reads readsOpen isOpen
  obtain ⟨s₃, hclose⟩ := expect_of_reads readsClose isClose .unclosedParen _
  refine ⟨by omega, ?_⟩
  rw [primary, noParen, noNumber, hname]
  simp only [hopening]
  exact Except.bind_eq_ok.mpr ⟨_, hargs, Except.bind_eq_ok.mpr ⟨_, hclose, rfl⟩⟩

mutual

/-- An expression is read together with what continues it. -/
theorem binary_of_level : ∀ {n ts e}, Level n ts e → ∀ ⦃least i j⦄, least ≤ n → Reads i ts j →
    Next j (Follows (n + 1)) → ∀ ⦃a k s⦄, binaryRest least e j = .ok ⟨a, k, s⟩ →
      ∃ s, binary least i = .ok ⟨a, k, s⟩
  | _, _, _, .unary isUnary => by
    intro least i j le reads follows a k s rest
    obtain ⟨s, hleft⟩ := unary_of isUnary reads follows
    rw [binary]
    exact ⟨_, Except.bind_eq_ok.mpr ⟨_, hleft, Except.bind_eq_ok.mpr ⟨_, rest, rfl⟩⟩⟩
  | _, _, _, .tighter _ isTighter => by
    intro least i j le reads follows a k s rest
    exact binary_of_level isTighter (Nat.le_succ_of_le le) reads
      (follows.mono fun _ h => h.mono (Nat.le_succ _)) rest
  | n, _, _, .binary isLeft isOp isRight => by
    intro least i j le reads follows a k s rest
    obtain ⟨j₁, readsLeft, readsMore⟩ := reads.split
    obtain ⟨j₂, readsOp, readsRight⟩ := readsMore.uncons
    obtain ⟨s₁, hright⟩ := binary_of_level isRight (Nat.le_refl _) readsRight
      (follows.mono fun _ h => h.mono (Nat.le_succ _))
      (binaryRest_stops (follows.mono fun _ h => h.below) _)
    obtain ⟨s₂, all⟩ := binaryRest_goes readsOp isOp le hright rest
    exact binary_of_level isLeft le readsLeft (readsMore.next.mpr (follows_operator isOp)) all

theorem unary_of : ∀ {ts e}, Grammar.Unary ts e → ∀ ⦃i j⦄, Reads i ts j → Next j (Follows 8) →
    ∃ s, unary i = .ok ⟨e, j, s⟩
  | _, _, .primary isPrimary => by
    intro i j reads follows
    have none : takeIf i unaryOp? = none := takeIf_eq_none.mpr
      ((reads.first isPrimary.first).mono fun k opens => by cases k <;> first | rfl | cases opens)
    rw [unary, none]
    exact primary_of isPrimary reads follows
  | _, _, .unary isSign isUnary => by
    intro i j reads follows
    obtain ⟨j₁, readsOp, readsRest⟩ := reads.uncons
    obtain ⟨s₁, hop⟩ := takeIf_of_reads readsOp (unaryOp?_eq_some_iff.mpr isSign)
    obtain ⟨s₂, hoperand⟩ := unary_of isUnary readsRest follows
    rw [unary, hop]
    exact ⟨_, Except.bind_eq_ok.mpr ⟨_, hoperand, rfl⟩⟩

theorem primary_of : ∀ {ts e}, Primary ts e → ∀ ⦃i j⦄, Reads i ts j → Next j (Follows 8) →
    ∃ s, primary i = .ok ⟨e, j, s⟩
  | _, _, .group isOpen inner isClose => by
    intro i j reads _
    obtain ⟨j₂, readsInner, readsClose⟩ := reads.split
    obtain ⟨j₁, readsOpen, readsInner⟩ := readsInner.uncons
    obtain ⟨s₁, hopening⟩ := take?_of_reads readsOpen isOpen
    have ends : Next j₂ (closes · = true) := readsClose.next.mpr (isClose ▸ rfl)
    obtain ⟨s₂, hinner⟩ := binary_of_level inner (Nat.zero_le 1) readsInner (ends.follows 2)
      (binaryRest_ends ends _)
    obtain ⟨s₃, hclose⟩ := expect_of_reads readsClose isClose .unclosedParen _
    rw [primary, hopening]
    exact ⟨_, Except.bind_eq_ok.mpr ⟨_, hinner, Except.bind_eq_ok.mpr ⟨_, hclose, rfl⟩⟩⟩
  | _, _, .number isNumber found => by
    intro i j reads _
    obtain ⟨s, hnumber⟩ := take?_of_reads reads isNumber
    have noParen : take? i .lParen = none := take?_eq_none.mpr
      (reads.next.mpr (isNumber ▸ nofun))
    refine ⟨s, ?_⟩
    rw [primary, noParen, hnumber]
    simp only [literal, found]
  | _, _, .call isName isOpen isClose => by
    intro i j reads _
    obtain ⟨j₁, readsName, readsRest⟩ := reads.uncons
    obtain ⟨j₂, readsOpen, readsClose⟩ := readsRest.uncons
    have noArgs : arguments j₂ = .ok ⟨[], j₂, Nat.le_refl _⟩ := by
      rw [arguments, if_pos (readsClose.kind_eq isClose)]
      rfl
    exact call_of readsName isName readsOpen isOpen noArgs readsClose isClose
  | _, _, .callWith isName isOpen areArgs isClose => by
    intro i j reads _
    obtain ⟨j₃, reads, readsClose⟩ := reads.split
    obtain ⟨j₁, readsName, reads⟩ := reads.uncons
    obtain ⟨j₂, readsOpen, readsArgs⟩ := reads.uncons
    obtain ⟨s, hargs⟩ := argumentList_of areArgs readsArgs (readsClose.next.mpr isClose)
    have someArgs := arguments_of (readsArgs.kind (areArgs.first (·.first))) hargs
    exact call_of readsName isName readsOpen isOpen someArgs readsClose isClose
  | _, _, .named isNamed => by
    intro i j reads follows
    exact primary_of_named isNamed reads (follows.mono fun _ h => h.noParen)
      (subscripts_stops (follows.mono fun _ h => h.noBracket) _)

/-- A name is read together with the subscripts that continue it. -/
theorem primary_of_named : ∀ {ts e}, Named ts e → ∀ ⦃i j⦄, Reads i ts j → Next j (· ≠ .lParen) →
    ∀ ⦃a k s⦄, subscripts e j = .ok ⟨a, k, s⟩ → ∃ s, primary i = .ok ⟨a, k, s⟩
  | _, _, .name isName => by
    intro i j reads next a k s rest
    obtain ⟨s, hname⟩ := take?_of_reads reads isName
    have noParen : take? i .lParen = none := take?_eq_none.mpr (reads.next.mpr (isName ▸ nofun))
    have noNumber : take? i .intLit = none := take?_eq_none.mpr (reads.next.mpr (isName ▸ nofun))
    refine ⟨by omega, ?_⟩
    rw [primary, noParen, noNumber, hname]
    simp only [take?_eq_none.mpr next]
    exact Except.bind_eq_ok.mpr ⟨_, rest, rfl⟩
  | _, _, .index isNamed isOpen isIdx isClose => by
    intro i j reads next a k s rest
    obtain ⟨j₃, reads, readsClose⟩ := reads.split
    obtain ⟨j₁, readsNamed, readsMore⟩ := reads.split
    obtain ⟨j₂, readsOpen, readsIdx⟩ := readsMore.uncons
    have ends : Next j₃ (closes · = true) := readsClose.next.mpr (isClose ▸ rfl)
    obtain ⟨s₁, hidx⟩ := binary_of_level isIdx (Nat.zero_le 1) readsIdx (ends.follows 2)
      (binaryRest_ends ends _)
    obtain ⟨s₂, all⟩ := subscripts_goes readsOpen isOpen hidx readsClose isClose rest
    exact primary_of_named isNamed readsNamed (readsMore.next.mpr (isOpen ▸ nofun)) all

theorem argumentList_of : ∀ {ts es}, Commas (Level 1) ts es → ∀ ⦃i j⦄, Reads i ts j →
    Next j (· = .rParen) → ∃ s, argumentList i = .ok ⟨es, j, s⟩
  | _, _, .one isArg => by
    intro i j reads next
    have ends : Next j (closes · = true) := next.mono fun _ h => h ▸ rfl
    obtain ⟨s, harg⟩ := binary_of_level isArg (Nat.zero_le 1) reads (ends.follows 2)
      (binaryRest_ends ends _)
    have noComma : take? j .comma = none := take?_eq_none.mpr (next.mono fun _ h => h ▸ nofun)
    rw [argumentList]
    refine ⟨by omega, Except.bind_eq_ok.mpr ⟨_, harg, ?_⟩⟩
    simp only [noComma]
    rfl
  | _, _, .more isArg isComma areMore => by
    intro i j reads next
    obtain ⟨j₁, readsArg, readsRest⟩ := reads.split
    obtain ⟨j₂, readsComma, readsMore⟩ := readsRest.uncons
    have ends : Next j₁ (closes · = true) := readsRest.next.mpr (isComma ▸ rfl)
    obtain ⟨s₁, harg⟩ := binary_of_level isArg (Nat.zero_le 1) readsArg (ends.follows 2)
      (binaryRest_ends ends _)
    obtain ⟨s₂, hcomma⟩ := take?_of_reads readsComma isComma
    obtain ⟨s₃, hmore⟩ := argumentList_of areMore readsMore next
    rw [argumentList]
    refine ⟨by omega, Except.bind_eq_ok.mpr ⟨_, harg, ?_⟩⟩
    simp only [hcomma]
    exact Except.bind_eq_ok.mpr ⟨_, hmore, rfl⟩

end

/-- An expression is read if what follows ends it. -/
theorem expr_of {ts : List Token} {e : Expr} {i j : Input} (h : Level 1 ts e)
    (reads : Reads i ts j) (next : Next j (closes · = true)) : ∃ s, expr i = .ok ⟨e, j, s⟩ :=
  binary_of_level h (Nat.zero_le 1) reads (next.follows 2) (binaryRest_ends next e)

/-! ## Declarations -/

theorem baseType_of {i j : Input} {base : Token} {type : BaseType} (reads : Reads i [base] j)
    (isBase : baseType? base.kind = some type) : ∃ s, baseType i = .ok ⟨type, j, s⟩ := by
  obtain ⟨s, hbase⟩ := takeIf_of_reads (f := baseType?) reads isBase
  refine ⟨s, ?_⟩
  unfold baseType
  split
  · rename_i taken
    obtain rfl := Option.some.inj (hbase.symm.trans taken)
    rfl
  · rename_i taken
    cases hbase.symm.trans taken

theorem bounds_of {ts : List Token} {es : List Expr} (h : Dims ts es) {i j : Input}
    (reads : Reads i ts j) (next : Next j (· ≠ .lBracket)) :
    ∃ s, bounds i = .ok ⟨es, j, s⟩ := by
  induction h generalizing i with
  | none =>
    obtain rfl := reads.unique (.refl i)
    rw [bounds, take?_eq_none.mpr next]
    exact ⟨Nat.le_refl _, rfl⟩
  | more isOpen isDim isClose _ ih =>
    obtain ⟨j₂, readsDim, readsRest⟩ := reads.split
    obtain ⟨j₁, readsOpen, readsDim⟩ := readsDim.uncons
    obtain ⟨j₃, readsClose, readsMore⟩ := readsRest.uncons
    obtain ⟨s₁, hopening⟩ := take?_of_reads readsOpen isOpen
    obtain ⟨s₂, hdim⟩ := expr_of isDim readsDim (readsRest.next.mpr (isClose ▸ rfl))
    obtain ⟨s₃, hclose⟩ := expect_of_reads readsClose isClose .unclosedBracket _
    obtain ⟨s₄, hmore⟩ := ih readsMore
    refine ⟨by omega, ?_⟩
    rw [bounds, hopening]
    exact Except.bind_eq_ok.mpr ⟨_, hdim, Except.bind_eq_ok.mpr ⟨_, hclose,
      Except.bind_eq_ok.mpr ⟨_, hmore, rfl⟩⟩⟩

/-- A list in braces is read if its elements are. -/
theorem initList_read {i j₁ j₂ j : Input} {opening close : Token} {is : List Init}
    {s : j₂.size ≤ j₁.size} (readsOpen : Reads i [opening] j₁) (isOpen : opening.kind = .lBrace)
    (helems : initElems j₁ = .ok ⟨is, j₂, s⟩) (readsClose : Reads j₂ [close] j)
    (isClose : close.kind = .rBrace) :
    ∃ s, init i = .ok ⟨.list (opening.span.cover close.span) is, j, s⟩ := by
  obtain ⟨s₁, hopening⟩ := take?_of_reads readsOpen isOpen
  obtain ⟨s₂, hclose⟩ := expect_of_reads readsClose isClose .unclosedBrace _
  refine ⟨by omega, ?_⟩
  rw [init, hopening]
  exact Except.bind_eq_ok.mpr ⟨_, helems, Except.bind_eq_ok.mpr ⟨_, hclose, rfl⟩⟩

theorem initElems_of {i j : Input} {is : List Init} {s : j.size < i.size}
    (noClose : i.kind ≠ .rBrace) (h : initList i = .ok ⟨is, j, s⟩) :
    initElems i = .ok ⟨is, j, Nat.le_of_lt s⟩ := by
  rw [initElems, if_neg noClose]
  exact Except.bind_eq_ok.mpr ⟨_, h, rfl⟩

/-- The tokens with which an initializer starts. -/
def opensInit (k : Token.Kind) : Bool := k = .lBrace || opensExpr k

theorem Initializer.first {ts : List Token} {a : Init} (h : Initializer ts a) :
    First (opensInit · = true) ts := by
  cases h with
  | value isExpr => exact isExpr.first.mono fun _ opens => by simp [opensInit, opens]
  | empty isOpen _ => exact .cons (by simp [opensInit, isOpen])
  | list isOpen _ _ => exact .cons (by simp [opensInit, isOpen])

mutual

theorem init_of : ∀ {ts a}, Initializer ts a → ∀ ⦃i j⦄, Reads i ts j →
    Next j (closes · = true) → ∃ s, init i = .ok ⟨a, j, s⟩
  | _, _, .value isExpr => by
    intro i j reads next
    obtain ⟨s, hvalue⟩ := expr_of isExpr reads next
    have noBrace : take? i .lBrace = none := take?_eq_none.mpr
      ((reads.first isExpr.first).mono fun _ opens => ne_of_test opens rfl)
    refine ⟨s, ?_⟩
    rw [init, noBrace]
    exact Except.bind_eq_ok.mpr ⟨_, hvalue, rfl⟩
  | _, _, .empty isOpen isClose => by
    intro i j reads _
    obtain ⟨j₁, readsOpen, readsClose⟩ := reads.uncons
    have noElems : initElems j₁ = .ok ⟨[], j₁, Nat.le_refl _⟩ := by
      rw [initElems, if_pos (readsClose.kind_eq isClose)]
      rfl
    exact initList_read readsOpen isOpen noElems readsClose isClose
  | _, _, .list isOpen areElems isClose => by
    intro i j reads _
    obtain ⟨j₂, reads, readsClose⟩ := reads.split
    obtain ⟨j₁, readsOpen, readsElems⟩ := reads.uncons
    obtain ⟨s, helems⟩ := initList_of areElems readsElems (readsClose.next.mpr isClose)
    have opens : opensInit j₁.kind = true := readsElems.kind (areElems.first Initializer.first)
    exact initList_read readsOpen isOpen (initElems_of (ne_of_test opens rfl) helems) readsClose
      isClose

theorem initList_of : ∀ {ts as}, Commas Initializer ts as → ∀ ⦃i j⦄, Reads i ts j →
    Next j (· = .rBrace) → ∃ s, initList i = .ok ⟨as, j, s⟩
  | _, _, .one isElem => by
    intro i j reads next
    obtain ⟨s, helem⟩ := init_of isElem reads (next.mono fun _ h => h ▸ rfl)
    have noComma : take? j .comma = none := take?_eq_none.mpr (next.mono fun _ h => h ▸ nofun)
    rw [initList]
    refine ⟨s, Except.bind_eq_ok.mpr ⟨_, helem, ?_⟩⟩
    simp only [noComma]
    rfl
  | _, _, .more isElem isComma areMore => by
    intro i j reads next
    obtain ⟨j₁, readsElem, readsRest⟩ := reads.split
    obtain ⟨j₂, readsComma, readsMore⟩ := readsRest.uncons
    obtain ⟨s₁, helem⟩ := init_of isElem readsElem (readsRest.next.mpr (isComma ▸ rfl))
    obtain ⟨s₂, hcomma⟩ := take?_of_reads readsComma isComma
    obtain ⟨s₃, hmore⟩ := initList_of areMore readsMore next
    rw [initList]
    refine ⟨by omega, Except.bind_eq_ok.mpr ⟨_, helem, ?_⟩⟩
    simp only [hcomma]
    exact Except.bind_eq_ok.mpr ⟨_, hmore, rfl⟩

end

/-- What stands after a definition. -/
def endsDef (k : Token.Kind) : Bool := k = .comma || k = .semicolon

theorem closes_of_endsDef {k : Token.Kind} (h : endsDef k = true) : closes k = true := by
  cases k <;> first | rfl | cases h

theorem Dims.first {ts us : List Token} {es : List Expr} {t : Token} (h : Dims ts es)
    (noParen : t.kind ≠ .lParen) : First (· ≠ .lParen) (ts ++ t :: us) := by
  cases h with
  | none => exact .cons noParen
  | more isOpen _ _ _ => exact .cons (isOpen ▸ nofun)

/-- A definition starts with a name, and the rest of it is read. The rest does not look like the
parameters of a function. -/
theorem defRest_of {ts : List Token} {d : Def} (h : Definition ts d) :
    ∃ name us, ts = name :: us ∧ name.kind = .ident ∧
      (∀ {t vs}, t.kind ≠ .lParen → First (· ≠ .lParen) (us ++ t :: vs)) ∧
      ∀ {i j}, Reads i us j → Next j (endsDef · = true) →
        ∃ s, defRest name i = .ok ⟨d, j, s⟩ := by
  cases h with
  | blank isName areDims =>
    refine ⟨_, _, rfl, isName, fun noParen => Dims.first areDims noParen, fun reads next => ?_⟩
    obtain ⟨s, hdims⟩ := bounds_of areDims reads (next.mono fun _ ends => ne_of_test ends rfl)
    have noAssign := take?_eq_none.mpr (next.mono fun _ ends => ne_of_test (c := .assign) ends rfl)
    refine ⟨s, Except.bind_eq_ok.mpr ⟨_, hdims, ?_⟩⟩
    simp only [noAssign]
    rfl
  | init isName areDims isAssign isInit =>
    refine ⟨_, _, rfl, isName, fun _ => (Dims.first areDims (isAssign ▸ nofun)).append,
      fun reads next => ?_⟩
    obtain ⟨j₁, readsDims, readsRest⟩ := reads.split
    obtain ⟨j₂, readsAssign, readsInit⟩ := readsRest.uncons
    obtain ⟨s₁, hdims⟩ := bounds_of areDims readsDims (readsRest.next.mpr (isAssign ▸ nofun))
    obtain ⟨s₂, hassign⟩ := take?_of_reads readsAssign isAssign
    obtain ⟨s₃, hinit⟩ := init_of isInit readsInit (next.mono fun _ => closes_of_endsDef)
    refine ⟨by omega, Except.bind_eq_ok.mpr ⟨_, hdims, ?_⟩⟩
    simp only [hassign]
    exact Except.bind_eq_ok.mpr ⟨_, hinit, rfl⟩

theorem defList_of {ts : List Token} {ds : List Def} (h : Commas Definition ts ds) :
    ∃ name us, ts = name :: us ∧ name.kind = .ident ∧
      (∀ {t vs}, t.kind ≠ .lParen → First (· ≠ .lParen) (us ++ t :: vs)) ∧
      ∀ {i j}, Reads i us j → Next j (· = .semicolon) →
        ∃ s, defList name i = .ok ⟨ds, j, s⟩ := by
  induction h with
  | one isDef =>
    obtain ⟨name, us, rfl, isName, noParen, rest⟩ := defRest_of isDef
    refine ⟨name, us, rfl, isName, noParen, fun {i j} reads next => ?_⟩
    obtain ⟨s, hfirst⟩ := rest reads (next.mono fun _ h => h ▸ rfl)
    have noComma : take? j .comma = none := take?_eq_none.mpr (next.mono fun _ h => by simp [h])
    rw [defList]
    refine ⟨s, Except.bind_eq_ok.mpr ⟨_, hfirst, ?_⟩⟩
    simp only [noComma]
    rfl
  | more isDef isComma _ ih =>
    obtain ⟨name, us, rfl, isName, noParen, rest⟩ := defRest_of isDef
    obtain ⟨second, vs, rfl, isSecond, -, more⟩ := ih
    refine ⟨name, us ++ _ :: second :: vs, rfl, isName,
      fun _ => (noParen (by simp [isComma])).append, fun {i j} reads next => ?_⟩
    obtain ⟨j₁, readsFirst, readsRest⟩ := reads.split
    obtain ⟨j₂, readsComma, readsMore⟩ := readsRest.uncons
    obtain ⟨j₃, readsSecond, readsMore⟩ := readsMore.uncons
    obtain ⟨s₁, hfirst⟩ := rest readsFirst (readsRest.next.mpr (isComma ▸ rfl))
    obtain ⟨s₂, hcomma⟩ := take?_of_reads readsComma isComma
    obtain ⟨s₃, hsecond⟩ := expect_of_reads readsSecond isSecond .expectedIdentifier _
    obtain ⟨s₄, hmore⟩ := more readsMore next
    rw [defList]
    refine ⟨by omega, Except.bind_eq_ok.mpr ⟨_, hfirst, ?_⟩⟩
    simp only [hcomma]
    exact Except.bind_eq_ok.mpr ⟨_, hsecond, Except.bind_eq_ok.mpr ⟨_, hmore, rfl⟩⟩

/-- The definitions of a declaration start with a name, and what follows the name is read. -/
theorem declRest_of {ts : List Token} {ds : List Def} (h : Commas Definition ts ds)
    {close : Token} (isClose : close.kind = .semicolon) :
    ∃ name us, ts = name :: us ∧ name.kind = .ident ∧ First (· ≠ .lParen) (us ++ [close]) ∧
      ∀ {i j} start isConst type, Reads i (us ++ [close]) j →
        ∃ s, declRest start isConst type name i =
          .ok ⟨{ isConst := isConst, type := type, span := start.cover j.last, defs := ds },
            j, s⟩ := by
  obtain ⟨name, us, rfl, isName, noParen, rest⟩ := defList_of h
  refine ⟨name, us, rfl, isName, noParen (isClose ▸ nofun),
    fun {i j} start isConst type reads => ?_⟩
  obtain ⟨j₁, readsDefs, readsClose⟩ := reads.split
  obtain ⟨s₁, hdefs⟩ := rest readsDefs (readsClose.next.mpr isClose)
  obtain ⟨s₂, hclose⟩ := expect_of_reads readsClose isClose .expectedSemicolon _
  exact ⟨by omega, Except.bind_eq_ok.mpr ⟨_, hdefs, Except.bind_eq_ok.mpr ⟨_, hclose, rfl⟩⟩⟩

theorem declFrom_of {base close : Token} {type : BaseType} {ts : List Token} {ds : List Def}
    {i j : Input} (isBase : baseType? base.kind = some type) (h : Commas Definition ts ds)
    (isClose : close.kind = .semicolon) (reads : Reads i (base :: ts ++ [close]) j)
    (start : Span) (isConst : Bool) : ∃ s, declFrom start isConst i =
      .ok ⟨{ isConst := isConst, type := type, span := start.cover j.last, defs := ds }, j, s⟩ := by
  obtain ⟨name, us, rfl, isName, -, rest⟩ := declRest_of h isClose
  obtain ⟨j₁, readsBase, reads⟩ := reads.uncons
  obtain ⟨j₂, readsName, readsRest⟩ := reads.uncons
  obtain ⟨s₁, htype⟩ := baseType_of readsBase isBase
  obtain ⟨s₂, hname⟩ := expect_of_reads readsName isName .expectedIdentifier _
  obtain ⟨s₃, hrest⟩ := rest start isConst type readsRest
  exact ⟨by omega, Except.bind_eq_ok.mpr ⟨_, htype, Except.bind_eq_ok.mpr ⟨_, hname,
    Except.bind_eq_ok.mpr ⟨_, hrest, rfl⟩⟩⟩⟩

theorem decl_of {ts : List Token} {d : Decl} (h : Declaration ts d) {i j : Input}
    (reads : Reads i ts j) : ∃ s, decl i = .ok ⟨d, j, s⟩ := by
  have extent := reads.extent h.ne_nil
  cases h with
  | vars isBase areDefs isClose =>
    have noConst : take? i .kwConst = none := take?_eq_none.mpr
      (reads.first (.cons (opensDecl_of_baseType isBase).2))
    rw [decl, noConst, ← extent]
    exact declFrom_of isBase areDefs isClose reads _ _
  | consts isConst isBase areDefs isClose =>
    obtain ⟨j₁, readsConst, readsRest⟩ := reads.uncons
    obtain ⟨s₁, hconst⟩ := take?_of_reads readsConst isConst
    obtain ⟨s₂, hrest⟩ := declFrom_of isBase areDefs isClose readsRest i.peek.span true
    rw [decl, hconst, ← extent]
    exact ⟨by omega, Except.bind_eq_ok.mpr ⟨_, hrest, rfl⟩⟩

/-! ## Statements -/

theorem condition_of {opening close : Token} {ts : List Token} {cond : Expr} {i j : Input}
    (isOpen : opening.kind = .lParen) (isCond : Level 1 ts cond) (isClose : close.kind = .rParen)
    (reads : Reads i (opening :: ts ++ [close]) j) : ∃ s, condition i = .ok ⟨cond, j, s⟩ := by
  obtain ⟨j₂, reads, readsClose⟩ := reads.split
  obtain ⟨j₁, readsOpen, readsCond⟩ := reads.uncons
  obtain ⟨s₁, hopening⟩ := expect_of_reads readsOpen isOpen .unexpectedToken _
  obtain ⟨s₂, hcond⟩ := expr_of isCond readsCond (readsClose.next.mpr (isClose ▸ rfl))
  obtain ⟨s₃, hclose⟩ := expect_of_reads readsClose isClose .unclosedParen _
  exact ⟨by omega, Except.bind_eq_ok.mpr ⟨_, hopening, Except.bind_eq_ok.mpr ⟨_, hcond,
    Except.bind_eq_ok.mpr ⟨_, hclose, rfl⟩⟩⟩⟩

theorem semicolon_of {i j : Input} {close : Token} (reads : Reads i [close] j)
    (isClose : close.kind = .semicolon) (after : String) :
    ∃ s, semicolon i after = .ok ⟨close, j, s⟩ :=
  expect_of_reads reads isClose .expectedSemicolon _

theorem simple_of_effect {ts : List Token} {e : Expr} {close : Token} {i j : Input}
    (isExpr : Level 1 ts e) (isClose : close.kind = .semicolon) (reads : Reads i (ts ++ [close]) j) :
    ∃ s, simple i = .ok ⟨.expr (extent (ts ++ [close])) (some e), j, s⟩ := by
  have extent := reads.extent (by simp)
  obtain ⟨j₁, readsExpr, readsClose⟩ := reads.split
  obtain ⟨s₁, hexpr⟩ := expr_of isExpr readsExpr (readsClose.next.mpr (isClose ▸ rfl))
  obtain ⟨s₂, hclose⟩ := semicolon_of readsClose isClose "expression"
  have noAssign : take? j₁ .assign = none := take?_eq_none.mpr
    (readsClose.next.mpr (isClose ▸ nofun))
  refine ⟨by omega, Except.bind_eq_ok.mpr ⟨_, hexpr, ?_⟩⟩
  simp only [noAssign]
  rw [← extent]
  exact Except.bind_eq_ok.mpr ⟨_, hclose, rfl⟩

theorem simple_of_assign {ts us : List Token} {target value : Expr} {equals close : Token}
    {i j : Input} (isTarget : Assignable ts target) (isAssign : equals.kind = .assign)
    (isValue : Level 1 us value) (isClose : close.kind = .semicolon)
    (reads : Reads i (ts ++ equals :: us ++ [close]) j) :
    ∃ s, simple i = .ok ⟨.assign (extent (ts ++ equals :: us ++ [close])) target value, j, s⟩ := by
  have extent := reads.extent (by simp)
  obtain ⟨j₃, reads, readsClose⟩ := reads.split
  obtain ⟨j₁, readsTarget, readsRest⟩ := reads.split
  obtain ⟨j₂, readsAssign, readsValue⟩ := readsRest.uncons
  obtain ⟨s₁, htarget⟩ := expr_of isTarget.level readsTarget (readsRest.next.mpr (isAssign ▸ rfl))
  obtain ⟨s₂, hassign⟩ := take?_of_reads readsAssign isAssign
  obtain ⟨s₃, hvalue⟩ := expr_of isValue readsValue (readsClose.next.mpr (isClose ▸ rfl))
  obtain ⟨s₄, hclose⟩ := semicolon_of readsClose isClose "assignment"
  have isPlace : ¬ target.place?.isNone := by simp [Option.isSome_iff_ne_none.mp isTarget.isPlace]
  refine ⟨by omega, Except.bind_eq_ok.mpr ⟨_, htarget, ?_⟩⟩
  simp only [hassign]
  rw [if_neg isPlace, ← extent]
  exact Except.bind_eq_ok.mpr ⟨_, hvalue, Except.bind_eq_ok.mpr ⟨_, hclose, rfl⟩⟩

theorem stmt_eq_simple {i : Input} (opens : opensExpr i.kind = true) : stmt i = simple i := by
  rw [stmt]
  split
  case h_8 => rfl
  all_goals
    rename_i kind
    rw [kind] at opens
    cases opens

theorem block_of {i j₁ j : Input} {opening close : Token} {ss : List Stmt} {s : j.size < j₁.size}
    (readsOpen : Reads i [opening] j₁) (isOpen : opening.kind = .lBrace)
    (rest : blockRest j₁ = .ok ⟨(ss, close), j, s⟩) :
    ∃ s, block i = .ok ⟨.block (opening.span.cover close.span) ss, j, s⟩ := by
  obtain ⟨s₁, hopening⟩ := expect_of_reads readsOpen isOpen .unexpectedToken _
  refine ⟨by omega, ?_⟩
  rw [block]
  exact Except.bind_eq_ok.mpr ⟨_, hopening, Except.bind_eq_ok.mpr ⟨_, rest, rfl⟩⟩

/-- No block goes on with an `else`. -/
theorem contents_next {ts : List Token} {ss : List Stmt} {i j k : Input} {close : Token}
    (h : Contents true ts ss) (reads : Reads i ts j) (readsClose : Reads j [close] k)
    (isClose : close.kind = .rBrace) : Next i (· ≠ .kwElse) := by
  cases h with
  | none =>
    obtain rfl := reads.unique (.refl i)
    exact readsClose.next.mpr (isClose ▸ nofun)
  | decl isDecl _ =>
    exact reads.first (isDecl.first.append.mono fun _ opens => ne_of_test opens rfl)
  | stmt isStmt _ =>
    exact reads.first (isStmt.first.append.mono fun _ opens => ne_of_test opens rfl)

theorem returnValue_of {i j : Input} {e : Expr} {s : j.size < i.size}
    (opens : opensExpr i.kind = true) (h : expr i = .ok ⟨e, j, s⟩) :
    returnValue i = .ok ⟨some e, j, Nat.le_of_lt s⟩ := by
  rw [returnValue, if_neg (ne_of_test opens rfl)]
  exact Except.bind_eq_ok.mpr ⟨_, h, rfl⟩

theorem blockItem_of_decl {i j : Input} {d : Decl} {s : j.size < i.size}
    (opens : opensDecl i.kind = true) (h : decl i = .ok ⟨d, j, s⟩) :
    blockItem i = .ok ⟨.decl (i.peek.span.cover j.last) (some d), j, s⟩ := by
  have atDecl : i.kind = .kwConst ∨ i.kind = .kwInt ∨ i.kind = .kwVoid := by
    revert opens
    cases i.kind <;> simp [opensDecl]
  rw [blockItem, if_pos atDecl]
  exact Except.bind_eq_ok.mpr ⟨_, h, rfl⟩

theorem blockItem_of_stmt {i j : Input} {a : Stmt} {s : j.size < i.size}
    (opens : opensStmt i.kind = true) (h : stmt i = .ok ⟨a, j, s⟩) :
    blockItem i = .ok ⟨a, j, s⟩ := by
  have noDecl : ¬ (i.kind = .kwConst ∨ i.kind = .kwInt ∨ i.kind = .kwVoid) := by
    rintro (kind | kind | kind) <;> exact ne_of_test opens rfl kind
  rw [blockItem, if_neg noDecl]
  exact h

/-- What stands in a block is read item by item. -/
theorem blockRest_goes {i j k : Input} {a : Stmt} {ss : List Stmt} {close : Token}
    {s₁ : j.size < i.size} {s₂ : k.size < j.size} (noClose : Next i (· ≠ .rBrace))
    (noEnd : i.kind ≠ .eof) (first : blockItem i = .ok ⟨a, j, s₁⟩)
    (more : blockRest j = .ok ⟨(ss, close), k, s₂⟩) :
    ∃ s, blockRest i = .ok ⟨(a :: ss, close), k, s⟩ := by
  refine ⟨by omega, ?_⟩
  rw [blockRest, take?_eq_none.mpr noClose]
  simp only [if_neg noEnd]
  exact Except.bind_eq_ok.mpr ⟨_, first, Except.bind_eq_ok.mpr ⟨_, more, rfl⟩⟩

mutual

theorem stmt_of : ∀ {ts a}, Statement true ts a → ∀ ⦃i j⦄, Reads i ts j →
    (endsOpen a = true → Next j (· ≠ .kwElse)) → ∃ s, stmt i = .ok ⟨a, j, s⟩
  | _, _, .block isOpen areContents isClose => by
    intro i j reads _
    have kind : i.kind = .lBrace := reads.kind_eq isOpen
    obtain ⟨j₂, reads, readsClose⟩ := reads.split
    obtain ⟨j₁, readsOpen, readsBody⟩ := reads.uncons
    obtain ⟨s, hrest⟩ := blockRest_of areContents readsBody readsClose isClose
    rw [stmt, kind]
    exact block_of readsOpen isOpen hrest
  | _, _, .empty isClose => by
    intro i j reads _
    have kind : i.kind = .semicolon := reads.kind_eq isClose
    obtain ⟨s, hclose⟩ := semicolon_of reads isClose "statement"
    rw [stmt, kind]
    exact ⟨s, Except.bind_eq_ok.mpr ⟨_, hclose, rfl⟩⟩
  | _, _, .effect isExpr isClose => by
    intro i j reads _
    rw [stmt_eq_simple (reads.kind isExpr.first.append)]
    exact simple_of_effect isExpr isClose reads
  | _, _, .assign isTarget isAssign isValue isClose => by
    intro i j reads _
    rw [stmt_eq_simple (reads.kind isTarget.level.first.append.append)]
    exact simple_of_assign isTarget isAssign isValue isClose reads
  | _, _, .ifThen isIf isOpen isCond isClose isArm => by
    intro i j reads next
    have kind : i.kind = .kwIf := reads.kind_eq isIf
    have cover := reads.peek ▸ reads.extent (by simp)
    obtain ⟨j₂, reads, readsArm⟩ := reads.partway
    obtain ⟨j₁, readsIf, readsCond⟩ := reads.uncons
    obtain ⟨s₁, hkeyword⟩ := expect_of_reads readsIf isIf .unexpectedToken _
    obtain ⟨s₂, hcond⟩ := condition_of isOpen isCond isClose readsCond
    obtain ⟨s₃, harm⟩ := stmt_of isArm readsArm fun _ => next rfl
    have noElse : take? j .kwElse = none := take?_eq_none.mpr (next rfl)
    rw [stmt, kind]
    refine ⟨by omega, Except.bind_eq_ok.mpr ⟨_, hkeyword, Except.bind_eq_ok.mpr ⟨_, hcond,
      Except.bind_eq_ok.mpr ⟨_, harm, ?_⟩⟩⟩⟩
    simp only [noElse]
    rw [← cover]
    rfl
  | _, _, .ifElse isIf isOpen isCond isClose isArm closed isElse isOther => by
    intro i j reads next
    have kind : i.kind = .kwIf := reads.kind_eq isIf
    have cover := reads.peek ▸ reads.extent (by simp)
    obtain ⟨j₃, reads, readsRest⟩ := reads.split
    obtain ⟨j₂, reads, readsArm⟩ := reads.partway
    obtain ⟨j₁, readsIf, readsCond⟩ := reads.uncons
    obtain ⟨j₄, readsElse, readsOther⟩ := readsRest.uncons
    obtain ⟨s₁, hkeyword⟩ := expect_of_reads readsIf isIf .unexpectedToken _
    obtain ⟨s₂, hcond⟩ := condition_of isOpen isCond isClose readsCond
    obtain ⟨s₃, harm⟩ := stmt_of isArm readsArm fun isOpen =>
      absurd ((closed rfl).symm.trans isOpen) (by decide)
    obtain ⟨s₄, helse⟩ := take?_of_reads readsElse isElse
    obtain ⟨s₅, hother⟩ := stmt_of isOther readsOther next
    rw [stmt, kind]
    refine ⟨by omega, Except.bind_eq_ok.mpr ⟨_, hkeyword, Except.bind_eq_ok.mpr ⟨_, hcond,
      Except.bind_eq_ok.mpr ⟨_, harm, ?_⟩⟩⟩⟩
    simp only [helse]
    rw [← cover]
    exact Except.bind_eq_ok.mpr ⟨_, hother, rfl⟩
  | _, _, .while isWhile isOpen isCond isClose isBody => by
    intro i j reads next
    have kind : i.kind = .kwWhile := reads.kind_eq isWhile
    have cover := reads.peek ▸ reads.extent (by simp)
    obtain ⟨j₂, reads, readsBody⟩ := reads.partway
    obtain ⟨j₁, readsWhile, readsCond⟩ := reads.uncons
    obtain ⟨s₁, hkeyword⟩ := expect_of_reads readsWhile isWhile .unexpectedToken _
    obtain ⟨s₂, hcond⟩ := condition_of isOpen isCond isClose readsCond
    obtain ⟨s₃, hbody⟩ := stmt_of isBody readsBody next
    rw [stmt, kind, ← cover]
    exact ⟨by omega, Except.bind_eq_ok.mpr ⟨_, hkeyword, Except.bind_eq_ok.mpr ⟨_, hcond,
      Except.bind_eq_ok.mpr ⟨_, hbody, rfl⟩⟩⟩⟩
  | _, _, .break isBreak isClose => by
    intro i j reads _
    have kind : i.kind = .kwBreak := reads.kind_eq isBreak
    have cover := reads.peek ▸ reads.extent (by simp)
    obtain ⟨j₁, readsKeyword, readsClose⟩ := reads.uncons
    obtain ⟨s₁, hkeyword⟩ := expect_of_reads readsKeyword isBreak .unexpectedToken _
    obtain ⟨s₂, hclose⟩ := semicolon_of readsClose isClose "break"
    rw [stmt, kind, ← cover]
    exact ⟨by omega, Except.bind_eq_ok.mpr ⟨_, hkeyword, Except.bind_eq_ok.mpr ⟨_, hclose, rfl⟩⟩⟩
  | _, _, .continue isContinue isClose => by
    intro i j reads _
    have kind : i.kind = .kwContinue := reads.kind_eq isContinue
    have cover := reads.peek ▸ reads.extent (by simp)
    obtain ⟨j₁, readsKeyword, readsClose⟩ := reads.uncons
    obtain ⟨s₁, hkeyword⟩ := expect_of_reads readsKeyword isContinue .unexpectedToken _
    obtain ⟨s₂, hclose⟩ := semicolon_of readsClose isClose "continue"
    rw [stmt, kind, ← cover]
    exact ⟨by omega, Except.bind_eq_ok.mpr ⟨_, hkeyword, Except.bind_eq_ok.mpr ⟨_, hclose, rfl⟩⟩⟩
  | _, _, .return isReturn isClose => by
    intro i j reads _
    have kind : i.kind = .kwReturn := reads.kind_eq isReturn
    have cover := reads.peek ▸ reads.extent (by simp)
    obtain ⟨j₁, readsKeyword, readsClose⟩ := reads.uncons
    obtain ⟨s₁, hkeyword⟩ := expect_of_reads readsKeyword isReturn .unexpectedToken _
    obtain ⟨s₂, hclose⟩ := semicolon_of readsClose isClose "return"
    have noValue : returnValue j₁ = .ok ⟨none, j₁, Nat.le_refl _⟩ :=
      if_pos (readsClose.kind_eq isClose)
    rw [stmt, kind, ← cover]
    exact ⟨by omega, Except.bind_eq_ok.mpr ⟨_, hkeyword, Except.bind_eq_ok.mpr ⟨_, noValue,
      Except.bind_eq_ok.mpr ⟨_, hclose, rfl⟩⟩⟩⟩
  | _, _, .returnValue isReturn isValue isClose => by
    intro i j reads _
    have kind : i.kind = .kwReturn := reads.kind_eq isReturn
    have cover := reads.peek ▸ reads.extent (by simp)
    obtain ⟨j₁, readsKeyword, readsRest⟩ := reads.uncons
    obtain ⟨j₂, readsValue, readsClose⟩ := readsRest.split
    obtain ⟨s₁, hkeyword⟩ := expect_of_reads readsKeyword isReturn .unexpectedToken _
    obtain ⟨s₂, hvalue⟩ := expr_of isValue readsValue (readsClose.next.mpr (isClose ▸ rfl))
    obtain ⟨s₃, hclose⟩ := semicolon_of readsClose isClose "return"
    have someValue := returnValue_of (readsValue.kind isValue.first) hvalue
    rw [stmt, kind, ← cover]
    exact ⟨by omega, Except.bind_eq_ok.mpr ⟨_, hkeyword, Except.bind_eq_ok.mpr ⟨_, someValue,
      Except.bind_eq_ok.mpr ⟨_, hclose, rfl⟩⟩⟩⟩

theorem blockRest_of : ∀ {ts ss}, Contents true ts ss → ∀ ⦃i j k close⦄, Reads i ts j →
    Reads j [close] k → close.kind = .rBrace → ∃ s, blockRest i = .ok ⟨(ss, close), k, s⟩
  | _, _, .none => by
    intro i j k close reads readsClose isClose
    obtain rfl := reads.unique (.refl i)
    obtain ⟨s, hclose⟩ := take?_of_reads readsClose isClose
    rw [blockRest, hclose]
    exact ⟨s, rfl⟩
  | _, _, .decl isDecl areMore => by
    intro i j k close reads readsClose isClose
    obtain ⟨j₁, readsDecl, readsMore⟩ := reads.split
    obtain ⟨s₁, hdecl⟩ := decl_of isDecl readsDecl
    obtain ⟨s₂, hmore⟩ := blockRest_of areMore readsMore readsClose isClose
    have opens : opensDecl i.kind = true := readsDecl.kind isDecl.first
    rw [← readsDecl.extent isDecl.ne_nil]
    exact blockRest_goes (readsDecl.first (isDecl.first.mono fun _ h => ne_of_test h rfl))
      (ne_of_test opens rfl) (blockItem_of_decl opens hdecl) hmore
  | _, _, .stmt isStmt areMore => by
    intro i j k close reads readsClose isClose
    obtain ⟨j₁, readsStmt, readsMore⟩ := reads.split
    obtain ⟨s₁, hstmt⟩ := stmt_of isStmt readsStmt fun _ =>
      contents_next areMore readsMore readsClose isClose
    obtain ⟨s₂, hmore⟩ := blockRest_of areMore readsMore readsClose isClose
    have opens : opensStmt i.kind = true := readsStmt.kind isStmt.first
    exact blockRest_goes (readsStmt.first (isStmt.first.mono fun _ h => ne_of_test h rfl))
      (ne_of_test opens rfl) (blockItem_of_stmt opens hstmt) hmore

end

/-! ## Items -/

theorem Parameter.first {ts : List Token} {p : Param} (h : Parameter ts p) :
    First (opensDecl · = true) ts := by
  cases h with
  | number isBase _ => exact .cons (opensDecl_of_baseType isBase).1
  | array isBase _ _ _ _ => exact .cons (opensDecl_of_baseType isBase).1

theorem param_of {ts : List Token} {p : Param} (h : Parameter ts p) {i j : Input}
    (reads : Reads i ts j) (next : Next j (· ≠ .lBracket)) : ∃ s, param i = .ok ⟨p, j, s⟩ := by
  cases h with
  | number isBase isName =>
    have extent := reads.extent (by simp)
    obtain ⟨j₁, readsBase, readsName⟩ := reads.uncons
    obtain ⟨s₁, htype⟩ := baseType_of readsBase isBase
    obtain ⟨s₂, hname⟩ := expect_of_reads readsName isName .expectedIdentifier _
    refine ⟨by omega, Except.bind_eq_ok.mpr ⟨_, htype, Except.bind_eq_ok.mpr ⟨_, hname, ?_⟩⟩⟩
    simp only [take?_eq_none.mpr next]
    rw [← extent]
    rfl
  | array isBase isName isOpen isClose areDims =>
    have extent := reads.extent (by simp)
    obtain ⟨j₁, readsBase, reads⟩ := reads.uncons
    obtain ⟨j₂, readsName, reads⟩ := reads.uncons
    obtain ⟨j₃, readsOpen, reads⟩ := reads.uncons
    obtain ⟨j₄, readsClose, readsDims⟩ := reads.uncons
    obtain ⟨s₁, htype⟩ := baseType_of readsBase isBase
    obtain ⟨s₂, hname⟩ := expect_of_reads readsName isName .expectedIdentifier _
    obtain ⟨s₃, hopening⟩ := take?_of_reads readsOpen isOpen
    obtain ⟨s₄, hclose⟩ := expect_of_reads readsClose isClose .unclosedBracket _
    obtain ⟨s₅, hdims⟩ := bounds_of areDims readsDims next
    refine ⟨by omega, Except.bind_eq_ok.mpr ⟨_, htype, Except.bind_eq_ok.mpr ⟨_, hname, ?_⟩⟩⟩
    simp only [hopening]
    rw [← extent]
    exact Except.bind_eq_ok.mpr ⟨_, hclose, Except.bind_eq_ok.mpr ⟨_, hdims, rfl⟩⟩

theorem paramList_of {ts : List Token} {ps : List Param} (h : Commas Parameter ts ps)
    {i j : Input} (reads : Reads i ts j) (next : Next j (· = .rParen)) :
    ∃ s, paramList i = .ok ⟨ps, j, s⟩ := by
  induction h generalizing i with
  | one isParam =>
    obtain ⟨s, hparam⟩ := param_of isParam reads (next.mono fun _ h => by simp [h])
    have noComma : take? j .comma = none := take?_eq_none.mpr (next.mono fun _ h => by simp [h])
    rw [paramList]
    refine ⟨s, Except.bind_eq_ok.mpr ⟨_, hparam, ?_⟩⟩
    simp only [noComma]
    rfl
  | more isParam isComma _ ih =>
    obtain ⟨j₁, readsParam, readsRest⟩ := reads.split
    obtain ⟨j₂, readsComma, readsMore⟩ := readsRest.uncons
    obtain ⟨s₁, hparam⟩ := param_of isParam readsParam (readsRest.next.mpr (by simp [isComma]))
    obtain ⟨s₂, hcomma⟩ := take?_of_reads readsComma isComma
    obtain ⟨s₃, hmore⟩ := ih readsMore
    rw [paramList]
    refine ⟨by omega, Except.bind_eq_ok.mpr ⟨_, hparam, ?_⟩⟩
    simp only [hcomma]
    exact Except.bind_eq_ok.mpr ⟨_, hmore, rfl⟩

theorem Parameters.first {ts : List Token} {ps : List Param} (h : Parameters ts ps) :
    First (· = .lParen) ts := by
  cases h with
  | none isOpen _ => exact .cons isOpen
  | some isOpen _ _ => exact .cons isOpen

theorem fnBody_of {ts : List Token} {body : Option Stmt} (h : FnBody true ts body) {i j : Input}
    (reads : Reads i ts j) : ∃ s, fnBody i = .ok ⟨body, j, s⟩ := by
  cases h with
  | none isClose =>
    obtain ⟨s, hclose⟩ := take?_of_reads reads isClose
    rw [fnBody, hclose]
    exact ⟨s, rfl⟩
  | block isOpen areContents isClose =>
    have noSemicolon : take? i .semicolon = none := take?_eq_none.mpr
      (reads.first (.cons (isOpen ▸ nofun)))
    obtain ⟨j₂, reads, readsClose⟩ := reads.split
    obtain ⟨j₁, readsOpen, readsBody⟩ := reads.uncons
    obtain ⟨s₁, hrest⟩ := blockRest_of areContents readsBody readsClose isClose
    obtain ⟨s₂, hblock⟩ := block_of readsOpen isOpen hrest
    rw [fnBody, noSemicolon]
    exact ⟨s₂, Except.bind_eq_ok.mpr ⟨_, hblock, rfl⟩⟩

/-- Parameters in parentheses are read up to the closing parenthesis. -/
theorem params_of {ts : List Token} {ps : List Param} (h : Parameters ts ps) {i j : Input}
    (reads : Reads i ts j) : ∃ opening close j₁ j₂ s, Reads i [opening] j₁ ∧
      opening.kind = .lParen ∧ params j₁ = .ok ⟨ps, j₂, s⟩ ∧ Reads j₂ [close] j ∧
      close.kind = .rParen := by
  cases h with
  | none isOpen isClose =>
    obtain ⟨j₁, readsOpen, readsClose⟩ := reads.uncons
    exact ⟨_, _, j₁, j₁, Nat.le_refl _, readsOpen, isOpen, if_pos (readsClose.kind_eq isClose),
      readsClose, isClose⟩
  | some isOpen areParams isClose =>
    obtain ⟨j₂, reads, readsClose⟩ := reads.split
    obtain ⟨j₁, readsOpen, readsParams⟩ := reads.uncons
    obtain ⟨s, hparams⟩ := paramList_of areParams readsParams (readsClose.next.mpr isClose)
    have opens : opensDecl j₁.kind = true := readsParams.kind (areParams.first Parameter.first)
    refine ⟨_, _, j₁, j₂, Nat.le_of_lt s, readsOpen, isOpen, ?_, readsClose, isClose⟩
    rw [params, if_neg (ne_of_test opens rfl)]
    exact Except.bind_eq_ok.mpr ⟨_, hparams, rfl⟩

theorem fnRest_of {ts us : List Token} {ps : List Param} {body : Option Stmt} {i j : Input}
    (areParams : Parameters ts ps) (isBody : FnBody true us body) (reads : Reads i (ts ++ us) j)
    (start : Span) (type : BaseType) (name : Token) :
    ∃ s, fnRest start type name i = .ok ⟨.fn (start.cover j.last)
      { name := name.name, nameSpan := name.span, returnType := type, params := ps,
        body := body }, j, s⟩ := by
  obtain ⟨j₃, readsParams, readsBody⟩ := reads.split
  obtain ⟨opening, close, j₁, j₂, s₁, readsOpen, isOpen, hparams, readsClose, isClose⟩ :=
    params_of areParams readsParams
  obtain ⟨s₂, hopening⟩ := expect_of_reads readsOpen isOpen .unexpectedToken _
  obtain ⟨s₃, hclose⟩ := expect_of_reads readsClose isClose .unclosedParen _
  obtain ⟨s₄, hbody⟩ := fnBody_of isBody readsBody
  exact ⟨by omega, Except.bind_eq_ok.mpr ⟨_, hopening, Except.bind_eq_ok.mpr ⟨_, hparams,
    Except.bind_eq_ok.mpr ⟨_, hclose, Except.bind_eq_ok.mpr ⟨_, hbody, rfl⟩⟩⟩⟩⟩

theorem TopLevel.first {ts : List Token} {a : Item} (h : TopLevel true ts a) :
    First (opensDecl · = true) ts := by
  cases h with
  | decl isDecl => exact isDecl.first
  | fn isBase _ _ _ => exact .cons (opensDecl_of_baseType isBase).1

theorem item_of {ts : List Token} {a : Item} (h : TopLevel true ts a) {i j : Input}
    (reads : Reads i ts j) : ∃ s, item i = .ok ⟨a, j, s⟩ := by
  cases h with
  | decl isDecl =>
    have extent := reads.extent isDecl.ne_nil
    rw [← extent]
    cases isDecl with
    | consts isConst isBase areDefs isClose =>
      obtain ⟨s, hdecl⟩ := decl_of (.consts isConst isBase areDefs isClose) reads
      rw [item, if_pos (reads.kind_eq isConst)]
      exact ⟨s, Except.bind_eq_ok.mpr ⟨_, hdecl, rfl⟩⟩
    | vars isBase areDefs isClose =>
      have noConst : i.kind ≠ .kwConst := reads.kind_eq rfl ▸ (opensDecl_of_baseType isBase).2
      obtain ⟨name, us, rfl, isName, noParen, rest⟩ := declRest_of areDefs isClose
      obtain ⟨j₁, readsBase, reads⟩ := reads.uncons
      obtain ⟨j₂, readsName, readsRest⟩ := reads.uncons
      obtain ⟨s₁, htype⟩ := baseType_of readsBase isBase
      obtain ⟨s₂, hname⟩ := expect_of_reads readsName isName .expectedIdentifier _
      obtain ⟨s₃, hrest⟩ := rest i.peek.span false _ readsRest
      have noParen : ¬ j₂.kind = .lParen := readsRest.kind noParen
      refine ⟨by omega, ?_⟩
      rw [item, if_neg noConst, ← extent]
      refine Except.bind_eq_ok.mpr ⟨_, htype, Except.bind_eq_ok.mpr ⟨_, hname, ?_⟩⟩
      rw [if_neg noParen]
      exact Except.bind_eq_ok.mpr ⟨_, hrest, rfl⟩
  | fn isBase isName areParams isBody =>
    have extent := reads.extent (by simp)
    have noConst : i.kind ≠ .kwConst := reads.kind_eq rfl ▸ (opensDecl_of_baseType isBase).2
    obtain ⟨j₁, readsBase, reads⟩ := reads.uncons
    obtain ⟨j₂, readsName, readsRest⟩ := reads.uncons
    obtain ⟨s₁, htype⟩ := baseType_of readsBase isBase
    obtain ⟨s₂, hname⟩ := expect_of_reads readsName isName .expectedIdentifier _
    obtain ⟨s₃, hrest⟩ := fnRest_of areParams isBody readsRest i.peek.span _ _
    have atParen : j₂.kind = .lParen := readsRest.kind (Parameters.first areParams).append
    refine ⟨by omega, ?_⟩
    rw [item, if_neg noConst, ← extent]
    refine Except.bind_eq_ok.mpr ⟨_, htype, Except.bind_eq_ok.mpr ⟨_, hname, ?_⟩⟩
    rw [if_pos atParen]
    exact Except.bind_eq_ok.mpr ⟨_, hrest, rfl⟩

theorem items_of {ts : List Token} {is : List Item} (h : Items true ts is) {i j : Input}
    (reads : Reads i ts j) (atEnd : j.kind = .eof) : items i = .ok (is, j) := by
  induction h generalizing i with
  | none =>
    obtain rfl := reads.unique (.refl i)
    rw [items, if_pos atEnd]
    rfl
  | more isItem _ ih =>
    obtain ⟨j₁, readsItem, readsMore⟩ := reads.split
    obtain ⟨s, hitem⟩ := item_of isItem readsItem
    have opens : opensDecl i.kind = true := readsItem.kind (TopLevel.first isItem)
    rw [items, if_neg (ne_of_test opens rfl)]
    exact Except.bind_eq_ok.mpr ⟨_, hitem, Except.bind_eq_ok.mpr ⟨_, ih readsMore, rfl⟩⟩

end SysY.Parser

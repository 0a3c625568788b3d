import SysY.Syntax.Arena.Parser
import SysY.Proofs.Syntax.Arena.Store

/-! # What the parser stores

The parser that fills tables stores the trees that the parser of trees builds, and fails with the
same errors. Whenever it fails, what it has made so far is left in rooted tables. -/

namespace SysY.Storing

open Source (Span)
open SysY.Parser Arena

/-- From the tables `a` on, a parser that fills tables does what a parser of trees does: it ends as
storing the tree ends, or fails alike and leaves sound tables. -/
def Tracks {α β : Type} (m : Storing β) (a : Arena) (p : Except Parser.Error α)
    (store : α → β × Arena) : Prop :=
  match p with
  | .ok x => m.run a = (.ok (store x).1, (store x).2)
  | .error e => ∃ b, m.run a = (.error (.refused e), b) ∧ Sound b

/-- What is run after an operation that succeeds. -/
theorem run_bind {α β : Type} (m : Storing α) (g : α → Storing β) (a : Arena) :
    (m >>= g).run a = match m.run a with
      | (.ok x, b) => (g x).run b
      | (.error e, b) => (.error e, b) := by
  show (match m.run a with | (r, b) => ExceptT.bindCont g r b) = _
  rcases m.run a with ⟨_ | _, _⟩ <;> rfl

namespace Tracks

variable {α β γ δ : Type} {a b : Arena} {m : Storing β} {g : β → Storing δ}
  {p : Except Parser.Error α} {f : α → Except Parser.Error γ} {store : α → β × Arena}
  {store' : γ → δ × Arena}

theorem of_run {m' : Storing β} (same : m.run a = m'.run b) (h : Tracks m' b p store) :
    Tracks m a p store := by
  unfold Tracks at h ⊢
  rw [same]
  exact h

theorem pure {x : α} {y : β} (same : store x = (y, a)) : Tracks (pure y) a (pure x) store := by
  show _ = (Except.ok (store x).1, (store x).2)
  rw [same]
  rfl

theorem throw (h : Sound a) (e : Parser.Error) :
    Tracks (throw (.refused e) : Storing β) a (.error e) store := ⟨a, rfl, h⟩

/-- A parser that makes nothing. -/
theorem lift (h : Sound a) (p : Except Parser.Error α) :
    Tracks (liftM p : Storing α) a p fun x => (x, a) := by
  cases p with
  | ok x => rfl
  | error e => exact ⟨a, rfl, h⟩

theorem bind (h : Tracks m a p store)
    (next : ∀ x, p = .ok x → Tracks (g (store x).1) (store x).2 (f x) store') :
    Tracks (m >>= g) a (p >>= f) store' := by
  cases p with
  | error e =>
    obtain ⟨b, run, sound⟩ := h
    exact ⟨b, by rw [run_bind, run], sound⟩
  | ok x =>
    have run : m.run a = (.ok (store x).1, (store x).2) := h
    exact of_run (by rw [run_bind, run]) (next x rfl)

/-- A step of the parser of trees only. -/
theorem map {f : α → γ} {store' : γ → β × Arena} (h : Tracks m a p store)
    (same : ∀ x, store' (f x) = store x) : Tracks m a (p >>= fun x => Pure.pure (f x)) store' := by
  cases p with
  | error e => exact h
  | ok x =>
    show _ = (Except.ok (store' (f x)).1, (store' (f x)).2)
    rw [same]
    exact h

/-- A step of the parser that fills tables only. -/
theorem step {q : Except Parser.Error γ} {y : β} (run : m.run a = (.ok y, b))
    (next : Tracks (g y) b q store') : Tracks (m >>= g) a q store' :=
  of_run (by rw [run_bind, run]) next

end Tracks

/-- Store what has been taken. -/
def storeTaken {α β : Type} {i : Input} (store : α → β × Arena) (t : Taken α i) :
    Taken β i × Arena := (⟨(store t.value).1, t.next, t.shorter⟩, (store t.value).2)

/-- Store what has been kept. -/
def storeKept {α β : Type} {i : Input} (store : α → β × Arena) (t : Kept α i) :
    Kept β i × Arena := (⟨(store t.value).1, t.next, t.notLonger⟩, (store t.value).2)

variable {a : Arena}

theorem spanOf_run {id : Nat} {e : Expr} (h : a.HoldsExpr id e) :
    (spanOf id).run a = (.ok e.span, a) := by
  obtain ⟨_, found⟩ := h.found
  have got : (get : Storing Arena).run a = (.ok a, a) := rfl
  rw [spanOf, run_bind, got]
  dsimp only
  rw [exprNode?_eq found]
  rfl

theorem storeExpr_sound (h : Sound a) {e : Expr} (whole : e.Whole) :
    Sound (a.storeExpr e).2 ∧ Grows a (a.storeExpr e).2 ∧
      (a.storeExpr e).2.HoldsExpr (a.storeExpr e).1 e := by
  obtain ⟨rest, rooted⟩ := id h
  obtain ⟨planted, held⟩ := storeExpr_plants e whole rooted
  exact ⟨h.plant fun r => (storeExpr_plants e whole r).1, planted.grows, held⟩

/-! ## Expressions -/

theorem literal_tracks {i : Input} (h : Sound a) (number : Taken Token i) :
    Tracks (literal number) a (Parser.literal number) (storeTaken a.storeExpr) := by
  unfold literal Parser.literal
  cases Literal.read number.value.text with
  | ok v => exact .step rfl (.pure rfl)
  | error e => exact .throw h _

mutual

theorem binary_tracks (least : Nat) (i : Input) {a : Arena} (h : Sound a) :
    Tracks (binary least i) a (Parser.binary least i) (storeTaken a.storeExpr) := by
  rw [binary, Parser.binary]
  refine (unary_tracks i h).bind fun left parsed => ?_
  have := left.shorter
  exact (binaryRest_tracks least left.next h (unary_whole parsed)).bind fun all _ => .pure rfl
termination_by 8 * i.size + 3
decreasing_by all_goals omega

theorem binaryRest_tracks (least : Nat) {left : Expr} (i : Input) {a : Arena} (h : Sound a)
    (whole : left.Whole) :
    Tracks (binaryRest least (a.storeExpr left).1 i) (a.storeExpr left).2
      (Parser.binaryRest least left i) (storeKept a.storeExpr) := by
  rw [binaryRest, Parser.binaryRest]
  -- Here the left operand is in the tables already; there it is stored with the whole.
  obtain ⟨sound, -, heldL⟩ := storeExpr_sound h whole
  cases taken : takeIf i (binaryOpFrom? least) with
  | none => exact .pure rfl
  | some op =>
    have := op.shorter
    obtain ⟨k, known⟩ := takeIf_some taken
    refine (binary_tracks _ op.next sound).bind fun right parsed => ?_
    have := right.shorter
    have wholeR := binary_whole parsed
    obtain ⟨-, grows, heldR⟩ := storeExpr_sound sound wholeR
    refine .step (spanOf_run (heldL.grows grows)) (.step (spanOf_run heldR) (.step rfl ?_))
    have wholeB : (Expr.binary (left.span.cover right.value.span) op.value.2.1 left
      right.value).Whole := ⟨binaryOpFrom?_known known, whole, wholeR⟩
    exact (binaryRest_tracks least right.next h wholeB).bind fun all _ => .pure rfl
termination_by 8 * i.size
decreasing_by all_goals omega

theorem unary_tracks (i : Input) {a : Arena} (h : Sound a) :
    Tracks (unary i) a (Parser.unary i) (storeTaken a.storeExpr) := by
  rw [unary, Parser.unary]
  cases takeIf i unaryOp? with
  | none => exact primary_tracks i h
  | some op =>
    have := op.shorter
    refine (unary_tracks op.next h).bind fun operand parsed => ?_
    obtain ⟨-, -, held⟩ := storeExpr_sound h (unary_whole parsed)
    exact .step (spanOf_run held) (.step rfl (.pure rfl))
termination_by 8 * i.size + 2
decreasing_by all_goals omega

theorem primary_tracks (i : Input) {a : Arena} (h : Sound a) :
    Tracks (primary i) a (Parser.primary i) (storeTaken a.storeExpr) := by
  rw [primary, Parser.primary]
  cases take? i .lParen with
  | some opening =>
    have := opening.shorter
    refine (binary_tracks 0 opening.next h).bind fun inner parsed => ?_
    have sound := (storeExpr_sound h (binary_whole parsed)).1
    exact (Tracks.lift sound _).bind fun close _ => .step rfl (.pure rfl)
  | none =>
    cases take? i .intLit with
    | some number => exact literal_tracks h number
    | none =>
      cases take? i .ident with
      | none => exact .throw h _
      | some name =>
        have := name.shorter
        dsimp only
        cases take? name.next .lParen with
        | some opening =>
          have := opening.shorter
          refine (arguments_tracks opening.next h).bind fun args parsed => ?_
          have sound := h.plant fun r => (storeExprs_plants _ (arguments_whole parsed) r).1
          exact (Tracks.lift sound _).bind fun close _ => .step rfl (.pure rfl)
        | none =>
          refine .step rfl ?_
          have whole : (Expr.ident name.value.span name.value.name).Whole := trivial
          exact (subscripts_tracks name.next h whole).bind fun all _ => .pure rfl
termination_by 8 * i.size + 1
decreasing_by all_goals omega

theorem arguments_tracks (i : Input) {a : Arena} (h : Sound a) :
    Tracks (arguments i) a (Parser.arguments i) (storeKept a.storeExprs) := by
  rw [arguments, Parser.arguments]
  by_cases last : i.kind = .rParen
  · rw [if_pos last, if_pos last]
    exact .pure rfl
  · rw [if_neg last, if_neg last]
    exact (argumentList_tracks i h).bind fun args _ => .pure rfl
termination_by 8 * i.size + 5
decreasing_by all_goals omega

theorem argumentList_tracks (i : Input) {a : Arena} (h : Sound a) :
    Tracks (argumentList i) a (Parser.argumentList i) (storeTaken a.storeExprs) := by
  rw [argumentList, Parser.argumentList]
  refine (binary_tracks 0 i h).bind fun arg parsed => ?_
  have := arg.shorter
  have sound := (storeExpr_sound h (binary_whole parsed)).1
  dsimp only [storeTaken]
  cases take? arg.next .comma with
  | none => exact .pure rfl
  | some comma =>
    have := comma.shorter
    exact (argumentList_tracks comma.next sound).bind fun more _ => .pure rfl
termination_by 8 * i.size + 4
decreasing_by all_goals omega

theorem subscripts_tracks {target : Expr} (i : Input) {a : Arena} (h : Sound a)
    (whole : target.Whole) :
    Tracks (subscripts (a.storeExpr target).1 i) (a.storeExpr target).2
      (Parser.subscripts target i) (storeKept a.storeExpr) := by
  rw [subscripts, Parser.subscripts]
  obtain ⟨sound, -, held⟩ := storeExpr_sound h whole
  cases take? i .lBracket with
  | none => exact .pure rfl
  | some opening =>
    have := opening.shorter
    refine (binary_tracks 0 opening.next sound).bind fun idx parsed => ?_
    have := idx.shorter
    have wholeI := binary_whole parsed
    obtain ⟨soundI, grows, -⟩ := storeExpr_sound sound wholeI
    refine (Tracks.lift soundI _).bind fun close _ => ?_
    have : close.next.size < idx.next.size := close.shorter
    refine .step (spanOf_run (held.grows grows)) (.step rfl ?_)
    have wholeT : (Expr.index (target.span.cover close.value.span) target idx.value).Whole :=
      ⟨whole, wholeI⟩
    exact (subscripts_tracks close.next h wholeT).bind fun all _ => .pure rfl
termination_by 8 * i.size
decreasing_by all_goals omega

end

theorem expr_tracks (i : Input) (h : Sound a) :
    Tracks (expr i) a (Parser.expr i) (storeTaken a.storeExpr) := binary_tracks 0 i h

/-! ## Declarations -/

theorem bounds_tracks (i : Input) {a : Arena} (h : Sound a) :
    Tracks (bounds i) a (Parser.bounds i) (storeKept a.storeExprs) := by
  rw [bounds, Parser.bounds]
  cases take? i .lBracket with
  | none => exact .pure rfl
  | some opening =>
    have := opening.shorter
    refine (expr_tracks opening.next h).bind fun dim parsed => ?_
    have := dim.shorter
    have sound := (storeExpr_sound h (expr_whole parsed)).1
    refine (Tracks.lift sound _).bind fun close _ => ?_
    have : close.next.size < dim.next.size := close.shorter
    exact (bounds_tracks close.next sound).bind fun more _ => .pure rfl
termination_by i.size
decreasing_by all_goals omega

mutual

theorem init_tracks (i : Input) {a : Arena} (h : Sound a) :
    Tracks (init i) a (Parser.init i) (storeTaken a.storeInit) := by
  rw [init, Parser.init]
  cases take? i .lBrace with
  | none =>
    refine (expr_tracks i h).bind fun value parsed => ?_
    obtain ⟨-, -, held⟩ := storeExpr_sound h (expr_whole parsed)
    exact .step (spanOf_run held) (.step rfl (.pure rfl))
  | some opening =>
    have := opening.shorter
    refine (initElems_tracks opening.next h).bind fun elems parsed => ?_
    have sound := h.plant fun r => (storeInits_plants _ (initElems_whole parsed) r).1
    exact (Tracks.lift sound _).bind fun close _ => .step rfl (.pure rfl)
termination_by 4 * i.size
decreasing_by all_goals omega

theorem initElems_tracks (i : Input) {a : Arena} (h : Sound a) :
    Tracks (initElems i) a (Parser.initElems i) (storeKept a.storeInits) := by
  rw [initElems, Parser.initElems]
  by_cases last : i.kind = .rBrace
  · rw [if_pos last, if_pos last]
    exact .pure rfl
  · rw [if_neg last, if_neg last]
    exact (initList_tracks i h).bind fun elems _ => .pure rfl
termination_by 4 * i.size + 2
decreasing_by all_goals omega

theorem initList_tracks (i : Input) {a : Arena} (h : Sound a) :
    Tracks (initList i) a (Parser.initList i) (storeTaken a.storeInits) := by
  rw [initList, Parser.initList]
  refine (init_tracks i h).bind fun elem parsed => ?_
  have := elem.shorter
  have sound := h.plant fun r => (storeInit_plants _ (init_whole parsed) r).1
  dsimp only [storeTaken]
  cases take? elem.next .comma with
  | none => exact .pure rfl
  | some comma =>
    have := comma.shorter
    exact (initList_tracks comma.next sound).bind fun more _ => .pure rfl
termination_by 4 * i.size + 1
decreasing_by all_goals omega

end

theorem defRest_tracks (name : Token) (i : Input) (h : Sound a) :
    Tracks (defRest name i) a (Parser.defRest name i) (storeKept a.storeDef) := by
  unfold defRest Parser.defRest
  refine (bounds_tracks i h).bind fun dims parsed => ?_
  have whole := Expr.allWhole_iff.mpr (bounds_whole parsed)
  have sound := h.plant fun r => (storeExprs_plants _ whole r).1
  dsimp only [storeKept]
  cases take? dims.next .assign with
  | none => exact .pure rfl
  | some assign => exact (init_tracks assign.next sound).bind fun value _ => .pure rfl

theorem defList_tracks (name : Token) (i : Input) {a : Arena} (h : Sound a) :
    Tracks (defList name i) a (Parser.defList name i) (storeKept a.storeDefs) := by
  rw [defList, Parser.defList]
  refine (defRest_tracks name i h).bind fun first parsed => ?_
  have := first.notLonger
  have sound := h.plant fun r => (storeDef_plants (defRest_whole parsed) r).1
  dsimp only [storeKept]
  cases take? first.next .comma with
  | none => exact .pure rfl
  | some comma =>
    have := comma.shorter
    refine (Tracks.lift sound _).bind fun second _ => ?_
    have := second.shorter
    exact (defList_tracks second.value second.next sound).bind fun more _ => .pure rfl
termination_by i.size
decreasing_by all_goals omega

theorem declRest_tracks (start : Span) (isConst : Bool) (type : BaseType) (name : Token)
    (i : Input) (h : Sound a) :
    Tracks (declRest start isConst type name i) a (Parser.declRest start isConst type name i)
      (storeTaken fun d => a.storeDecl (some d)) := by
  unfold declRest Parser.declRest
  refine (defList_tracks name i h).bind fun defs parsed => ?_
  have sound := h.plant fun r => (storeDefs_plants (defList_whole parsed).1 r).1
  exact (Tracks.lift sound _).bind fun semicolon _ => .step rfl (.pure rfl)

theorem declFrom_tracks (start : Span) (isConst : Bool) (i : Input) (h : Sound a) :
    Tracks (declFrom start isConst i) a (Parser.declFrom start isConst i)
      (storeTaken fun d => a.storeDecl (some d)) := by
  unfold declFrom Parser.declFrom
  refine (Tracks.lift h _).bind fun type _ => ?_
  refine (Tracks.lift h _).bind fun name _ => ?_
  exact (declRest_tracks start isConst type.value name.value name.next h).bind fun decl _ =>
    .pure rfl

theorem decl_tracks (i : Input) (h : Sound a) :
    Tracks (decl i) a (Parser.decl i) (storeTaken fun d => a.storeDecl (some d)) := by
  unfold decl Parser.decl
  cases take? i .kwConst with
  | none => exact declFrom_tracks i.peek.span false i h
  | some const => exact (declFrom_tracks i.peek.span true const.next h).bind fun decl _ => .pure rfl

/-! ## Statements -/

theorem condition_tracks (i : Input) (h : Sound a) :
    Tracks (condition i) a (Parser.condition i) (storeTaken a.storeExpr) := by
  unfold condition Parser.condition
  refine (Tracks.lift h _).bind fun opening _ => ?_
  refine (expr_tracks opening.next h).bind fun cond parsed => ?_
  have sound := (storeExpr_sound h (expr_whole parsed)).1
  exact (Tracks.lift sound _).bind fun close _ => .pure rfl

theorem isPlace_run (ordered : a.Ordered) {id : Nat} {e : Expr} (h : a.HoldsExpr id e) :
    (isPlace id).run a = (.ok e.place?.isSome, a) := by
  have none : a.HoldsExprs [] [] := trivial
  obtain ⟨place, ends, same⟩ := h.lvalue ordered none
  have placed : a.placeAt id = .ok place := by
    have enough : id ≤ a.exprNodes.size + 1 := Nat.le_succ_of_le h.has.le_count
    rw [placeAt, ends enough, Option.getD_some]
  have got : (get : Storing Arena).run a = (.ok a, a) := rfl
  rw [isPlace, run_bind, got]
  dsimp only
  rw [placed]
  show (Except.ok place.isSome, a) = _
  rw [same.isSome, Option.isSome_map]

theorem simple_tracks (i : Input) (h : Sound a) :
    Tracks (simple i) a (Parser.simple i) (storeTaken a.storeStmt) := by
  unfold simple Parser.simple
  refine (expr_tracks i h).bind fun value parsed => ?_
  have whole := expr_whole parsed
  obtain ⟨sound, -, held⟩ := storeExpr_sound h whole
  dsimp only [storeTaken]
  cases take? value.next .assign with
  | none => exact (Tracks.lift sound _).bind fun close _ => .step rfl (.pure rfl)
  | some assign =>
    refine .step (isPlace_run sound.ordered held) ?_
    cases place : value.value.place? with
    | none => exact .throw sound _
    | some p =>
      refine (expr_tracks assign.next sound).bind fun source parsed => ?_
      have soundS := (storeExpr_sound sound (expr_whole parsed)).1
      exact (Tracks.lift soundS _).bind fun close _ => .step rfl (.pure rfl)

theorem returnValue_tracks (i : Input) (h : Sound a) :
    Tracks (returnValue i) a (Parser.returnValue i) (storeKept (storeOptional storeExpr a)) := by
  unfold returnValue Parser.returnValue
  by_cases last : i.kind = .semicolon
  · rw [if_pos last, if_pos last]
    exact .pure rfl
  · rw [if_neg last, if_neg last]
    exact (expr_tracks i h).bind fun value _ => .pure rfl

/-- Store the statements of a block. The closing brace has no place in the tables. -/
def storeBlock (a : Arena) (body : List Stmt × Token) : (List Nat × Token) × Arena :=
  (((a.storeStmts body.1).1, body.2), (a.storeStmts body.1).2)

mutual

theorem block_tracks (i : Input) {a : Arena} (h : Sound a) :
    Tracks (block i) a (Parser.block i) (storeTaken a.storeStmt) := by
  rw [block, Parser.block]
  refine (Tracks.lift h _).bind fun opening _ => ?_
  have := opening.shorter
  exact (blockRest_tracks opening.next h).bind fun body _ => .step rfl (.pure rfl)
termination_by 8 * i.size
decreasing_by all_goals omega

theorem blockRest_tracks (i : Input) {a : Arena} (h : Sound a) :
    Tracks (blockRest i) a (Parser.blockRest i) (storeTaken (storeBlock a)) := by
  rw [blockRest, Parser.blockRest]
  cases take? i .rBrace with
  | some close => exact .pure rfl
  | none =>
    dsimp only
    by_cases last : i.kind = .eof
    · rw [if_pos last, if_pos last]
      exact .throw h _
    · rw [if_neg last, if_neg last]
      refine (blockItem_tracks i h).bind fun first parsed => ?_
      have := first.shorter
      have sound := h.plant fun r => (storeStmt_plants _ (blockItem_whole parsed) r).1
      exact (blockRest_tracks first.next sound).bind fun more _ => .pure rfl
termination_by 8 * i.size + 3
decreasing_by all_goals omega

theorem blockItem_tracks (i : Input) {a : Arena} (h : Sound a) :
    Tracks (blockItem i) a (Parser.blockItem i) (storeTaken a.storeStmt) := by
  rw [blockItem, Parser.blockItem]
  by_cases declares : i.kind = .kwConst ∨ i.kind = .kwInt ∨ i.kind = .kwVoid
  · rw [if_pos declares, if_pos declares]
    exact (decl_tracks i h).bind fun d _ => .step rfl (.pure rfl)
  · rw [if_neg declares, if_neg declares]
    exact stmt_tracks i h
termination_by 8 * i.size + 2
decreasing_by all_goals omega

theorem stmt_tracks (i : Input) {a : Arena} (h : Sound a) :
    Tracks (stmt i) a (Parser.stmt i) (storeTaken a.storeStmt) := by
  rw [stmt, Parser.stmt]
  cases i.kind with
  | lBrace => exact block_tracks i h
  | semicolon => exact (Tracks.lift h _).bind fun t _ => .step rfl (.pure rfl)
  | kwIf =>
    refine (Tracks.lift h _).bind fun keyword _ => ?_
    have := keyword.shorter
    refine (condition_tracks keyword.next h).bind fun cond parsed => ?_
    have := cond.shorter
    have sound := (storeExpr_sound h (condition_whole parsed)).1
    refine (stmt_tracks cond.next sound).bind fun thenArm parsed => ?_
    have := thenArm.shorter
    have soundT := sound.plant fun r => (storeStmt_plants _ (stmt_plain parsed).1 r).1
    dsimp only [storeTaken]
    cases take? thenArm.next .kwElse with
    | none => exact .step rfl (.pure rfl)
    | some other =>
      have := other.shorter
      exact (stmt_tracks other.next soundT).bind fun elseArm _ => .step rfl (.pure rfl)
  | kwWhile =>
    refine (Tracks.lift h _).bind fun keyword _ => ?_
    have := keyword.shorter
    refine (condition_tracks keyword.next h).bind fun cond parsed => ?_
    have := cond.shorter
    have sound := (storeExpr_sound h (condition_whole parsed)).1
    exact (stmt_tracks cond.next sound).bind fun body _ => .step rfl (.pure rfl)
  | kwBreak | kwContinue =>
    refine (Tracks.lift h _).bind fun keyword _ => ?_
    exact (Tracks.lift h _).bind fun close _ => .step rfl (.pure rfl)
  | kwReturn =>
    refine (Tracks.lift h _).bind fun keyword _ => ?_
    refine (returnValue_tracks keyword.next h).bind fun value parsed => ?_
    have whole := returnValue_whole parsed
    have sound := h.plant fun r => (storeOptional_plants (fun _ => rfl)
      (fun e mem => storeExpr_plants e (whole e mem) r) r).1
    exact (Tracks.lift sound _).bind fun close _ => .step rfl (.pure rfl)
  | _ => exact simple_tracks i h
termination_by 8 * i.size + 1
decreasing_by all_goals omega

end

/-! ## Items -/

theorem param_tracks (i : Input) (h : Sound a) :
    Tracks (param i) a (Parser.param i) (storeTaken a.storeParam) := by
  unfold param Parser.param
  refine (Tracks.lift h _).bind fun type _ => ?_
  refine (Tracks.lift h _).bind fun name _ => ?_
  dsimp only
  cases take? name.next .lBracket with
  | none => exact .pure rfl
  | some opening =>
    refine (Tracks.lift h _).bind fun close _ => ?_
    exact (bounds_tracks close.next h).bind fun dims _ => .pure rfl

theorem paramList_tracks (i : Input) {a : Arena} (h : Sound a) :
    Tracks (paramList i) a (Parser.paramList i) (storeTaken a.storeParams) := by
  rw [paramList, Parser.paramList]
  refine (param_tracks i h).bind fun first parsed => ?_
  have := first.shorter
  have whole := Expr.allWhole_iff.mpr (param_whole parsed)
  have sound := h.plant fun r => (storeExprs_plants _ whole r).1
  dsimp only [storeTaken]
  cases take? first.next .comma with
  | none => exact .pure rfl
  | some comma =>
    have := comma.shorter
    exact (paramList_tracks comma.next sound).bind fun more _ => .pure rfl
termination_by i.size
decreasing_by all_goals omega

theorem params_tracks (i : Input) (h : Sound a) :
    Tracks (params i) a (Parser.params i) (storeKept a.storeParams) := by
  unfold params Parser.params
  by_cases last : i.kind = .rParen
  · rw [if_pos last, if_pos last]
    exact .pure rfl
  · rw [if_neg last, if_neg last]
    exact (paramList_tracks i h).bind fun ps _ => .pure rfl

theorem fnBody_tracks (i : Input) (h : Sound a) :
    Tracks (fnBody i) a (Parser.fnBody i) (storeTaken (storeOptional storeStmt a)) := by
  unfold fnBody Parser.fnBody
  cases take? i .semicolon with
  | some t => exact .pure rfl
  | none => exact (block_tracks i h).bind fun b _ => .pure rfl

theorem fnRest_tracks (start : Span) (type : BaseType) (name : Token) (i : Input) (h : Sound a) :
    Tracks (fnRest start type name i) a (Parser.fnRest start type name i)
      (storeTaken a.storeItem) := by
  unfold fnRest Parser.fnRest
  refine (Tracks.lift h _).bind fun opening _ => ?_
  refine (params_tracks opening.next h).bind fun ps parsed => ?_
  have sound := h.plant fun r => (storeParams_plants (params_whole parsed) r).1
  refine (Tracks.lift sound _).bind fun close _ => ?_
  exact (fnBody_tracks close.next sound).bind fun body _ => .step rfl (.pure rfl)

theorem item_tracks (i : Input) (h : Sound a) :
    Tracks (item i) a (Parser.item i) (storeTaken a.storeItem) := by
  unfold item Parser.item
  dsimp only
  by_cases const : i.kind = .kwConst
  · rw [if_pos const, if_pos const]
    exact (decl_tracks i h).bind fun d _ => .step rfl (.pure rfl)
  · rw [if_neg const, if_neg const]
    refine (Tracks.lift h _).bind fun type _ => ?_
    refine (Tracks.lift h _).bind fun name _ => ?_
    dsimp only
    by_cases fn : name.next.kind = .lParen
    · rw [if_pos fn, if_pos fn]
      exact (fnRest_tracks i.peek.span type.value name.value name.next h).bind fun f _ => .pure rfl
    · rw [if_neg fn, if_neg fn]
      exact (declRest_tracks i.peek.span false type.value name.value name.next h).bind fun d _ =>
        .step rfl (.pure rfl)

/-- Store the items of a unit beside what is left to read. -/
def storeUnit (a : Arena) (r : List Item × Input) : Input × Arena := (r.2, a.storeItems r.1)

theorem items_tracks (i : Input) {a : Arena} (h : Sound a) :
    Tracks (items i) a (Parser.items i) (storeUnit a) := by
  rw [items, Parser.items]
  by_cases last : i.kind = .eof
  · rw [if_pos last, if_pos last]
    exact .pure rfl
  · rw [if_neg last, if_neg last]
    refine (item_tracks i h).bind fun first parsed => ?_
    have := first.shorter
    have sound : Sound ((a.storeItem first.value).2.pushItem (a.storeItem first.value).1) := by
      obtain ⟨rest, rooted⟩ := h
      have planted := (storeItem_plants (item_whole parsed) rooted).1
      have rooted := planted.rooted
      rw [← planted.fileItems] at rooted
      exact ⟨rest, rooted.pushItem⟩
    let add (r : List Item × Input) : List Item × Input := (first.value :: r.1, r.2)
    exact .step rfl (.map (f := add) (items_tracks first.next sound) fun _ => rfl)
termination_by i.size
decreasing_by all_goals omega

end Storing

namespace Stored

open Arena Storing

variable (l : Lexed) (canceled : Bool)

/-- Parsing into tables ends as parsing into trees does, with the tables of the tree or with what
was made ahead of the error. -/
theorem ofLexed_ends : match (Parsed.ofLexed l canceled).result with
    | .ok u => ofLexed l canceled = { result := .ok (), arena := Arena.ofUnit u }
    | .error f => (ofLexed l canceled).result = .error f ∧ Sound (ofLexed l canceled).arena := by
  cases canceled with
  | true => exact ⟨rfl, sound_start.frame _⟩
  | false =>
    have tracks := items_tracks (.ofLexed l) sound_start
    unfold ofLexed Parsed.ofLexed Parser.compUnit
    cases parsed : Parser.items (.ofLexed l) with
    | ok r =>
      rw [parsed] at tracks
      have run : (items (.ofLexed l)).run {} = (.ok r.2, storeItems {} r.1) := tracks
      dsimp only
      rw [parsed, run]
      rfl
    | error e =>
      rw [parsed] at tracks
      obtain ⟨b, run, sound⟩ := tracks
      dsimp only
      rw [parsed, run]
      exact ⟨rfl, sound.frame _⟩

theorem result_eq : (ofLexed l canceled).result =
    (Parsed.ofLexed l canceled).result.map fun _ => () := by
  have ends := ofLexed_ends l canceled
  split at ends <;> rename_i parsed
  · rw [ends, parsed]
    rfl
  · rw [ends.1, parsed]
    rfl

theorem arena_eq {u : CompUnit} (parsed : (Parsed.ofLexed l canceled).result = .ok u) :
    (ofLexed l canceled).arena = Arena.ofUnit u := by
  have ends := ofLexed_ends l canceled
  rw [parsed] at ends
  exact congrArg arena ends

/-- However parsing ends, it leaves sound tables. -/
theorem sound : Sound (ofLexed l canceled).arena := by
  have ends := ofLexed_ends l canceled
  split at ends <;> rename_i parsed
  · rw [ends]
    exact ⟨[], (ofUnit_rooted (Parsed.whole parsed)).1⟩
  · exact ends.2

end Stored
end SysY

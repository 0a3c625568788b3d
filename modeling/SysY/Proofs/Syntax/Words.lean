import SysY.Proofs.Syntax.Blank
import SysY.Syntax.Parser

/-! # Only words count to the parser

A word is what a token says: its category and its text. Two inputs of the same words are parsed in
parallel: the parser takes the same way through both, and either builds trees that differ in their
spans only, or gets stuck on both with errors that do. -/

namespace SysY

/-- What a token says, wherever it stands. -/
def Token.word (t : Token) : Token.Kind × Bytes := (t.kind, t.text)

section Word

variable {t t' : Token}

theorem Token.kind_of_word (same : t.word = t'.word) : t.kind = t'.kind := congrArg Prod.fst same

theorem Token.text_of_word (same : t.word = t'.word) : t.text = t'.text := congrArg Prod.snd same

theorem Token.name_of_word (same : t.word = t'.word) : t.name = t'.name := by
  rw [name, name, text_of_word same]

end Word

namespace Parser

/-! ## Inputs of the same words -/

/-- Two inputs of the same words up to the end of their files. Neither has a lexical error. -/
structure Input.Same (i i' : Input) : Prop where
  tokens : i.tokens.map Token.word = i'.tokens.map Token.word
  eof : i.eof.kind = .eof
  eof' : i'.eof.kind = .eof
  lexical : i.lexical = none
  lexical' : i'.lexical = none

/-- What was taken in parallel: values that are the same to `f`, before inputs of the same words. -/
def Taken.Same {α β : Type} {i i' : Input} (f : α → β) (t : Taken α i) (t' : Taken α i') : Prop :=
  f t.value = f t'.value ∧ t.next.Same t'.next

/-- What was read in parallel, where nothing may have been taken. -/
def Kept.Same {α β : Type} {i i' : Input} (f : α → β) (t : Kept α i) (t' : Kept α i') : Prop :=
  f t.value = f t'.value ∧ t.next.Same t'.next

/-- Errors that differ in their places only. -/
def Error.Same (e e' : Error) : Prop := e.error.blank = e'.error.blank

/-- Two parsers that run in parallel and take something. -/
abbrev Result.Same {α β : Type} {i i' : Input} (f : α → β) (x : Result α i) (x' : Result α i') :
    Prop := Except.Parallel Error.Same (Taken.Same f) x x'

/-- Two parsers that run in parallel. -/
abbrev Optional.Same {α β : Type} {i i' : Input} (f : α → β) (x : Optional α i)
    (x' : Optional α i') : Prop := Except.Parallel Error.Same (Kept.Same f) x x'

section Same

variable {i i' : Input}

/-- The next words are the same, or both inputs are at their ends. -/
theorem Input.Same.peek (same : i.Same i') :
    i.peek.word = i'.peek.word ∨ i.peek.kind = .eof ∧ i'.peek.kind = .eof := by
  have words := congrArg List.head? same.tokens
  rw [List.head?_map, List.head?_map] at words
  unfold Input.peek
  cases here : i.tokens.head? with
  | none =>
    rw [here] at words
    rw [Option.map_eq_none_iff.mp words.symm]
    exact .inr ⟨same.eof, same.eof'⟩
  | some t =>
    rw [here] at words
    obtain ⟨t', here', word⟩ := Option.map_eq_some_iff.mp words.symm
    rw [here']
    exact .inl word.symm

theorem Input.Same.kind (same : i.Same i') : i.kind = i'.kind := by
  rcases same.peek with word | ⟨atEnd, atEnd'⟩
  · exact Token.kind_of_word word
  · exact atEnd.trans atEnd'.symm

/-- Messages describe the next tokens in the same way. -/
theorem Input.Same.describe (same : i.Same i') : describe i.peek = describe i'.peek := by
  unfold Parser.describe
  rcases same.peek with word | ⟨atEnd, atEnd'⟩
  · rw [Token.kind_of_word word, Token.name_of_word word]
  · rw [atEnd, atEnd']

/-- Getting stuck at the same word for the same reason. -/
theorem failure_same (same : i.Same i') (code : Diag.Code) (detail : String) :
    (failure i code detail).Same (failure i' code detail) := by
  have plain : ∀ j : Input, j.lexical = none →
      (failure j code detail).error.blank = { code := code, span := {}, detail := detail } :=
    fun j none => by
      rw [failure, none, ite_self]
      rfl
  rw [Error.Same, plain i same.lexical, plain i' same.lexical']

theorem takeIf_same {β : Type} (same : i.Same i') (f : Token.Kind → Option β) :
    (takeIf i f = none ∧ takeIf i' f = none) ∨ ∃ t t', takeIf i f = some t ∧
      takeIf i' f = some t' ∧ t.value.1.word = t'.value.1.word ∧ t.value.2 = t'.value.2 ∧
      t.next.Same t'.next := by
  obtain ⟨tokens, eof, last, lexical⟩ := i
  obtain ⟨tokens', eof', last', lexical'⟩ := i'
  obtain ⟨words, eof, eof', clean, clean'⟩ := same
  cases tokens with
  | nil =>
    obtain rfl := List.map_eq_nil_iff.mp words.symm
    exact .inl ⟨rfl, rfl⟩
  | cons t rest =>
    obtain ⟨t', rest', rfl, word, more⟩ := List.map_eq_cons_iff.mp words.symm
    have kind := Token.kind_of_word word
    cases test : f t.kind with
    | none =>
      left
      simp only [takeIf, kind, test, and_self]
    | some b =>
      right
      simp only [takeIf, kind, test]
      exact ⟨_, _, rfl, rfl, word.symm, rfl, more.symm, eof, eof', clean, clean'⟩

theorem take?_same (same : i.Same i') (k : Token.Kind) :
    (take? i k = none ∧ take? i' k = none) ∨ ∃ t t', take? i k = some t ∧ take? i' k = some t' ∧
      t.Same Token.word t' := by
  rcases takeIf_same same fun k' => if k' = k then some () else none with
    ⟨none, none'⟩ | ⟨t, t', found, found', word, -, next⟩
  · left
    rw [take?, take?, none, none']
    exact ⟨rfl, rfl⟩
  · right
    rw [take?, take?, found, found']
    exact ⟨_, _, rfl, rfl, word, next⟩

theorem expect_same (same : i.Same i') (k : Token.Kind) (code : Diag.Code) (detail : String) :
    Result.Same Token.word (expect i k code detail) (expect i' k code detail) := by
  unfold expect
  rcases take?_same same k with ⟨none, none'⟩ | ⟨t, t', found, found', taken⟩
  · rw [none, none']
    exact .error (failure_same same code detail)
  · rw [found, found']
    exact .ok taken

end Same

/-! ## Expressions -/

theorem literal_same {i i' : Input} {number : Taken Token i} {number' : Taken Token i'}
    (same : number.Same Token.word number') :
    Result.Same Expr.blank (literal number) (literal number') := by
  unfold literal
  rw [Token.text_of_word same.1]
  cases Literal.read number'.value.text with
  | ok v => exact .ok ⟨rfl, same.2⟩
  | error e => exact .error (failure_same same.2 _ _)

-- The proofs below follow the recursion of the parser over the first input, and end for the same
-- reason.
mutual

theorem binary_same (least : Nat) {i i' : Input} (same : i.Same i') :
    Result.Same Expr.blank (binary least i) (binary least i') := by
  rw [binary, binary]
  refine (unary_same same).bind fun left left' ⟨value, next⟩ => ?_
  have := left.shorter
  refine (binaryRest_same least value next).bind fun all all' ⟨value, next⟩ => ?_
  exact .ok ⟨value, next⟩
termination_by 8 * i.size + 3
decreasing_by all_goals omega

theorem binaryRest_same (least : Nat) {left left' : Expr} (lefts : left.blank = left'.blank)
    {i i' : Input} (same : i.Same i') :
    Optional.Same Expr.blank (binaryRest least left i) (binaryRest least left' i') := by
  rw [binaryRest, binaryRest]
  rcases takeIf_same same (binaryOpFrom? least) with
    ⟨none, none'⟩ | ⟨op, op', found, found', -, which, next⟩
  · rw [none, none']
    exact .ok ⟨lefts, same⟩
  · rw [found, found']
    have := op.shorter
    simp only [← which]
    refine (binary_same _ next).bind fun right right' ⟨value, next⟩ => ?_
    have := right.shorter
    refine (binaryRest_same least ?_ next).bind fun all all' ⟨value, next⟩ => ?_
    · simp only [Expr.blank, lefts, value]
    · exact .ok ⟨value, next⟩
termination_by 8 * i.size
decreasing_by all_goals omega

theorem unary_same {i i' : Input} (same : i.Same i') :
    Result.Same Expr.blank (unary i) (unary i') := by
  rw [unary, unary]
  rcases takeIf_same same unaryOp? with ⟨none, none'⟩ | ⟨op, op', found, found', -, which, next⟩
  · rw [none, none']
    exact primary_same same
  · rw [found, found']
    have := op.shorter
    refine (unary_same next).bind fun operand operand' ⟨value, next⟩ => ?_
    exact .ok ⟨by simp only [Expr.blank, which, value], next⟩
termination_by 8 * i.size + 2
decreasing_by all_goals omega

theorem primary_same {i i' : Input} (same : i.Same i') :
    Result.Same Expr.blank (primary i) (primary i') := by
  rw [primary, primary]
  rcases take?_same same .lParen with ⟨none, none'⟩ | ⟨opening, opening', found, found', -, next⟩
  · rw [none, none']
    rcases take?_same same .intLit with ⟨none, none'⟩ | ⟨number, number', found, found', taken⟩
    · rw [none, none']
      rcases take?_same same .ident with ⟨none, none'⟩ | ⟨name, name', found, found', word, next⟩
      · rw [none, none']
        rw [same.describe]
        exact .error (failure_same same _ _)
      · rw [found, found']
        have := name.shorter
        have called := Token.name_of_word word
        dsimp only
        rcases take?_same next .lParen with
          ⟨none, none'⟩ | ⟨opening, opening', found, found', -, next⟩
        · rw [none, none']
          refine (subscripts_same ?_ next).bind fun all all' ⟨value, next⟩ => ?_
          · simp only [Expr.blank, called]
          · exact .ok ⟨value, next⟩
        · rw [found, found']
          have := opening.shorter
          refine (arguments_same next).bind fun args args' ⟨values, next⟩ => ?_
          refine (expect_same next _ _ _).bind fun close close' ⟨_, next⟩ => ?_
          exact .ok ⟨by simp only [Expr.blank, Expr.blankAll_eq_map, called, values], next⟩
    · rw [found, found']
      exact literal_same taken
  · rw [found, found']
    have := opening.shorter
    refine (binary_same 0 next).bind fun inner inner' ⟨value, next⟩ => ?_
    refine (expect_same next _ _ _).bind fun close close' ⟨_, next⟩ => ?_
    exact .ok ⟨by simp only [Expr.blank, value], next⟩
termination_by 8 * i.size + 1
decreasing_by all_goals omega

theorem arguments_same {i i' : Input} (same : i.Same i') :
    Optional.Same (List.map Expr.blank) (arguments i) (arguments i') := by
  rw [arguments, arguments, same.kind]
  split
  · exact .ok ⟨rfl, same⟩
  · exact (argumentList_same same).bind fun args args' taken => .ok taken
termination_by 8 * i.size + 5
decreasing_by all_goals omega

theorem argumentList_same {i i' : Input} (same : i.Same i') :
    Result.Same (List.map Expr.blank) (argumentList i) (argumentList i') := by
  rw [argumentList, argumentList]
  refine (binary_same 0 same).bind fun arg arg' ⟨value, next⟩ => ?_
  have := arg.shorter
  dsimp only
  rcases take?_same next .comma with ⟨none, none'⟩ | ⟨comma, comma', found, found', -, next'⟩
  · rw [none, none']
    exact .ok ⟨congrArg (fun e => [e]) value, next⟩
  · rw [found, found']
    have := comma.shorter
    refine (argumentList_same next').bind fun more more' ⟨values, next⟩ => ?_
    exact .ok ⟨by simp only [List.map_cons, value, values], next⟩
termination_by 8 * i.size + 4
decreasing_by all_goals omega

theorem subscripts_same {target target' : Expr} (targets : target.blank = target'.blank)
    {i i' : Input} (same : i.Same i') :
    Optional.Same Expr.blank (subscripts target i) (subscripts target' i') := by
  rw [subscripts, subscripts]
  rcases take?_same same .lBracket with ⟨none, none'⟩ | ⟨opening, opening', found, found', -, next⟩
  · rw [none, none']
    exact .ok ⟨targets, same⟩
  · rw [found, found']
    have := opening.shorter
    refine (binary_same 0 next).bind fun idx idx' ⟨value, next⟩ => ?_
    have := idx.shorter
    refine (expect_same next _ _ _).bind fun close close' ⟨_, next⟩ => ?_
    have := close.shorter
    refine (subscripts_same ?_ next).bind fun all all' ⟨value, next⟩ => ?_
    · simp only [Expr.blank, targets, value]
    · exact .ok ⟨value, next⟩
termination_by 8 * i.size
decreasing_by all_goals omega

end

theorem expr_same {i i' : Input} (same : i.Same i') :
    Result.Same Expr.blank (expr i) (expr i') := binary_same 0 same

/-! ## Declarations -/

theorem baseType_same {i i' : Input} (same : i.Same i') :
    Result.Same id (baseType i) (baseType i') := by
  unfold baseType
  rcases takeIf_same same _ with ⟨none, none'⟩ | ⟨t, t', found, found', -, which, next⟩
  · rw [none, none', same.describe]
    exact .error (failure_same same _ _)
  · rw [found, found']
    exact .ok ⟨which, next⟩

theorem bounds_same {i i' : Input} (same : i.Same i') :
    Optional.Same (List.map Expr.blank) (bounds i) (bounds i') := by
  rw [bounds, bounds]
  rcases take?_same same .lBracket with ⟨none, none'⟩ | ⟨opening, opening', found, found', -, next⟩
  · rw [none, none']
    exact .ok ⟨rfl, same⟩
  · rw [found, found']
    have := opening.shorter
    refine (expr_same next).bind fun dim dim' ⟨value, next⟩ => ?_
    have := dim.shorter
    refine (expect_same next _ _ _).bind fun close close' ⟨_, next⟩ => ?_
    have := close.shorter
    refine (bounds_same next).bind fun more more' ⟨values, next⟩ => ?_
    exact .ok ⟨by simp only [List.map_cons, value, values], next⟩
termination_by i.size
decreasing_by all_goals omega

mutual

theorem init_same {i i' : Input} (same : i.Same i') :
    Result.Same Init.blank (init i) (init i') := by
  rw [init, init]
  rcases take?_same same .lBrace with ⟨none, none'⟩ | ⟨opening, opening', found, found', -, next⟩
  · rw [none, none']
    refine (expr_same same).bind fun value value' ⟨values, next⟩ => ?_
    exact .ok ⟨by simp only [Init.blank, values], next⟩
  · rw [found, found']
    have := opening.shorter
    refine (initElems_same next).bind fun elems elems' ⟨values, next⟩ => ?_
    refine (expect_same next _ _ _).bind fun close close' ⟨_, next⟩ => ?_
    exact .ok ⟨by simp only [Init.blank, Init.blankAll_eq_map, values], next⟩
termination_by 4 * i.size
decreasing_by all_goals omega

theorem initElems_same {i i' : Input} (same : i.Same i') :
    Optional.Same (List.map Init.blank) (initElems i) (initElems i') := by
  rw [initElems, initElems, same.kind]
  split
  · exact .ok ⟨rfl, same⟩
  · exact (initList_same same).bind fun elems elems' taken => .ok taken
termination_by 4 * i.size + 2
decreasing_by all_goals omega

theorem initList_same {i i' : Input} (same : i.Same i') :
    Result.Same (List.map Init.blank) (initList i) (initList i') := by
  rw [initList, initList]
  refine (init_same same).bind fun elem elem' ⟨value, next⟩ => ?_
  have := elem.shorter
  dsimp only
  rcases take?_same next .comma with ⟨none, none'⟩ | ⟨comma, comma', found, found', -, next'⟩
  · rw [none, none']
    exact .ok ⟨congrArg (fun e => [e]) value, next⟩
  · rw [found, found']
    have := comma.shorter
    refine (initList_same next').bind fun more more' ⟨values, next⟩ => ?_
    exact .ok ⟨by simp only [List.map_cons, value, values], next⟩
termination_by 4 * i.size + 1
decreasing_by all_goals omega

end

theorem defRest_same {name name' : Token} (names : name.word = name'.word) {i i' : Input}
    (same : i.Same i') : Optional.Same Def.blank (defRest name i) (defRest name' i') := by
  unfold defRest
  have called := Token.name_of_word names
  refine (bounds_same same).bind fun dims dims' ⟨bounds, next⟩ => ?_
  dsimp only
  rcases take?_same next .assign with ⟨none, none'⟩ | ⟨assign, assign', found, found', -, next'⟩
  · rw [none, none']
    exact .ok ⟨by simp only [Def.blank, called, bounds, Option.map_none], next⟩
  · rw [found, found']
    refine (init_same next').bind fun value value' ⟨values, next⟩ => ?_
    exact .ok ⟨by simp only [Def.blank, called, bounds, Option.map_some, values], next⟩

theorem defList_same {name name' : Token} (names : name.word = name'.word) {i i' : Input}
    (same : i.Same i') :
    Optional.Same (List.map Def.blank) (defList name i) (defList name' i') := by
  rw [defList, defList]
  refine (defRest_same names same).bind fun first first' ⟨value, next⟩ => ?_
  have := first.notLonger
  dsimp only
  rcases take?_same next .comma with ⟨none, none'⟩ | ⟨comma, comma', found, found', -, next'⟩
  · rw [none, none']
    exact .ok ⟨congrArg (fun d => [d]) value, next⟩
  · rw [found, found']
    have := comma.shorter
    refine (expect_same next' _ _ _).bind fun second second' ⟨word, next⟩ => ?_
    have := second.shorter
    refine (defList_same word next).bind fun more more' ⟨values, next⟩ => ?_
    exact .ok ⟨by simp only [List.map_cons, value, values], next⟩
termination_by i.size
decreasing_by all_goals omega

theorem declRest_same (start start' : Source.Span) (isConst : Bool) (type : BaseType)
    {name name' : Token} (names : name.word = name'.word) {i i' : Input} (same : i.Same i') :
    Result.Same Decl.blank (declRest start isConst type name i)
      (declRest start' isConst type name' i') := by
  unfold declRest
  refine (defList_same names same).bind fun defs defs' ⟨values, next⟩ => ?_
  refine (expect_same next _ _ _).bind fun close close' ⟨_, next⟩ => ?_
  exact .ok ⟨by simp only [Decl.blank, values], next⟩

theorem declFrom_same (start start' : Source.Span) (isConst : Bool) {i i' : Input}
    (same : i.Same i') :
    Result.Same Decl.blank (declFrom start isConst i) (declFrom start' isConst i') := by
  unfold declFrom
  refine (baseType_same same).bind fun type type' ⟨which, next⟩ => ?_
  refine (expect_same next _ _ _).bind fun name name' ⟨word, next⟩ => ?_
  dsimp only
  rw [show type.value = type'.value from which]
  exact (declRest_same _ _ _ _ word next).bind fun decl decl' taken => .ok taken

theorem decl_same {i i' : Input} (same : i.Same i') :
    Result.Same Decl.blank (decl i) (decl i') := by
  unfold decl
  rcases take?_same same .kwConst with ⟨none, none'⟩ | ⟨const, const', found, found', -, next⟩
  · rw [none, none']
    exact declFrom_same _ _ _ same
  · rw [found, found']
    exact (declFrom_same _ _ _ next).bind fun decl decl' taken => .ok taken

/-! ## Statements -/

theorem condition_same {i i' : Input} (same : i.Same i') :
    Result.Same Expr.blank (condition i) (condition i') := by
  unfold condition
  refine (expect_same same _ _ _).bind fun opening opening' ⟨_, next⟩ => ?_
  refine (expr_same next).bind fun cond cond' ⟨value, next⟩ => ?_
  refine (expect_same next _ _ _).bind fun close close' ⟨_, next⟩ => ?_
  exact .ok ⟨value, next⟩

theorem semicolon_same {i i' : Input} (same : i.Same i') (after : String) :
    Result.Same Token.word (semicolon i after) (semicolon i' after) := expect_same same _ _ _

theorem simple_same {i i' : Input} (same : i.Same i') :
    Result.Same Stmt.blank (simple i) (simple i') := by
  unfold simple
  refine (expr_same same).bind fun value value' ⟨values, next⟩ => ?_
  dsimp only
  rcases take?_same next .assign with ⟨none, none'⟩ | ⟨assign, assign', found, found', -, next'⟩
  · rw [none, none']
    refine (semicolon_same next _).bind fun close close' ⟨_, next⟩ => ?_
    exact .ok ⟨by simp only [Stmt.blank, Option.map_some, values], next⟩
  · rw [found, found', Expr.isNone_place?_of_blank values]
    dsimp only
    split
    · exact .error (failure_same next _ _)
    · refine (expr_same next').bind fun source source' ⟨sources, next⟩ => ?_
      refine (semicolon_same next _).bind fun close close' ⟨_, next⟩ => ?_
      exact .ok ⟨by simp only [Stmt.blank, values, sources], next⟩

theorem returnValue_same {i i' : Input} (same : i.Same i') :
    Optional.Same (Option.map Expr.blank) (returnValue i) (returnValue i') := by
  rw [returnValue, returnValue, same.kind]
  split
  · exact .ok ⟨rfl, same⟩
  · refine (expr_same same).bind fun value value' ⟨values, next⟩ => ?_
    exact .ok ⟨congrArg some values, next⟩

mutual

theorem block_same {i i' : Input} (same : i.Same i') :
    Result.Same Stmt.blank (block i) (block i') := by
  rw [block, block]
  refine (expect_same same _ _ _).bind fun opening opening' ⟨_, next⟩ => ?_
  have := opening.shorter
  refine (blockRest_same next).bind fun body body' ⟨values, next⟩ => ?_
  exact .ok ⟨by simp only [Stmt.blank, Stmt.blankAll_eq_map, values], next⟩
termination_by 8 * i.size
decreasing_by all_goals omega

theorem blockRest_same {i i' : Input} (same : i.Same i') :
    Result.Same (fun r => r.1.map Stmt.blank) (blockRest i) (blockRest i') := by
  rw [blockRest, blockRest]
  rcases take?_same same .rBrace with ⟨none, none'⟩ | ⟨close, close', found, found', -, next⟩
  · rw [none, none', same.kind]
    dsimp only
    split
    · exact .error (failure_same same _ _)
    · refine (blockItem_same same).bind fun first first' ⟨value, next⟩ => ?_
      have := first.shorter
      refine (blockRest_same next).bind fun more more' ⟨values, next⟩ => ?_
      exact .ok ⟨by simp only [List.map_cons, value, values], next⟩
  · rw [found, found']
    exact .ok ⟨rfl, next⟩
termination_by 8 * i.size + 3
decreasing_by all_goals omega

theorem blockItem_same {i i' : Input} (same : i.Same i') :
    Result.Same Stmt.blank (blockItem i) (blockItem i') := by
  rw [blockItem, blockItem, same.kind]
  split
  · refine (decl_same same).bind fun d d' ⟨value, next⟩ => ?_
    exact .ok ⟨by simp only [Stmt.blank, Option.map_some, value], next⟩
  · exact stmt_same same
termination_by 8 * i.size + 2
decreasing_by all_goals omega

theorem stmt_same {i i' : Input} (same : i.Same i') :
    Result.Same Stmt.blank (stmt i) (stmt i') := by
  rw [stmt, stmt, ← same.kind]
  split
  · exact block_same same
  · refine (semicolon_same same _).bind fun t t' ⟨_, next⟩ => ?_
    exact .ok ⟨rfl, next⟩
  · refine (expect_same same _ _ _).bind fun keyword keyword' ⟨_, next⟩ => ?_
    have := keyword.shorter
    refine (condition_same next).bind fun cond cond' ⟨conds, next⟩ => ?_
    have := cond.shorter
    refine (stmt_same next).bind fun thenArm thenArm' ⟨arms, next⟩ => ?_
    have := thenArm.shorter
    dsimp only
    rcases take?_same next .kwElse with ⟨none, none'⟩ | ⟨other, other', found, found', -, next'⟩
    · rw [none, none']
      exact .ok ⟨by simp only [Stmt.blank, conds, arms], next⟩
    · rw [found, found']
      have := other.shorter
      refine (stmt_same next').bind fun elseArm elseArm' ⟨others, next⟩ => ?_
      exact .ok ⟨by simp only [Stmt.blank, conds, arms, others], next⟩
  · refine (expect_same same _ _ _).bind fun keyword keyword' ⟨_, next⟩ => ?_
    have := keyword.shorter
    refine (condition_same next).bind fun cond cond' ⟨conds, next⟩ => ?_
    have := cond.shorter
    refine (stmt_same next).bind fun body body' ⟨bodies, next⟩ => ?_
    exact .ok ⟨by simp only [Stmt.blank, conds, bodies], next⟩
  · refine (expect_same same _ _ _).bind fun keyword keyword' ⟨_, next⟩ => ?_
    refine (semicolon_same next _).bind fun close close' ⟨_, next⟩ => ?_
    exact .ok ⟨rfl, next⟩
  · refine (expect_same same _ _ _).bind fun keyword keyword' ⟨_, next⟩ => ?_
    refine (semicolon_same next _).bind fun close close' ⟨_, next⟩ => ?_
    exact .ok ⟨rfl, next⟩
  · refine (expect_same same _ _ _).bind fun keyword keyword' ⟨_, next⟩ => ?_
    refine (returnValue_same next).bind fun value value' ⟨values, next⟩ => ?_
    refine (semicolon_same next _).bind fun close close' ⟨_, next⟩ => ?_
    exact .ok ⟨by simp only [Stmt.blank, values], next⟩
  · exact simple_same same
termination_by 8 * i.size + 1
decreasing_by all_goals omega

end

/-! ## Items -/

theorem param_same {i i' : Input} (same : i.Same i') :
    Result.Same Param.blank (param i) (param i') := by
  unfold param
  refine (baseType_same same).bind fun type type' ⟨which, next⟩ => ?_
  refine (expect_same next _ _ _).bind fun name name' ⟨word, next⟩ => ?_
  have which : type.value = type'.value := which
  have called := Token.name_of_word word
  dsimp only
  rcases take?_same next .lBracket with ⟨none, none'⟩ | ⟨opening, opening', found, found', -, next'⟩
  · rw [none, none']
    exact .ok ⟨by simp only [Param.blank, called, which], next⟩
  · rw [found, found']
    refine (expect_same next' _ _ _).bind fun close close' ⟨_, next⟩ => ?_
    refine (bounds_same next).bind fun dims dims' ⟨values, next⟩ => ?_
    exact .ok ⟨by simp only [Param.blank, called, which, values], next⟩

theorem paramList_same {i i' : Input} (same : i.Same i') :
    Result.Same (List.map Param.blank) (paramList i) (paramList i') := by
  rw [paramList, paramList]
  refine (param_same same).bind fun first first' ⟨value, next⟩ => ?_
  have := first.shorter
  dsimp only
  rcases take?_same next .comma with ⟨none, none'⟩ | ⟨comma, comma', found, found', -, next'⟩
  · rw [none, none']
    exact .ok ⟨congrArg (fun p => [p]) value, next⟩
  · rw [found, found']
    have := comma.shorter
    refine (paramList_same next').bind fun more more' ⟨values, next⟩ => ?_
    exact .ok ⟨by simp only [List.map_cons, value, values], next⟩
termination_by i.size
decreasing_by all_goals omega

theorem params_same {i i' : Input} (same : i.Same i') :
    Optional.Same (List.map Param.blank) (params i) (params i') := by
  rw [params, params, same.kind]
  split
  · exact .ok ⟨rfl, same⟩
  · exact (paramList_same same).bind fun ps ps' taken => .ok taken

theorem fnBody_same {i i' : Input} (same : i.Same i') :
    Result.Same (Option.map Stmt.blank) (fnBody i) (fnBody i') := by
  unfold fnBody
  rcases take?_same same .semicolon with ⟨none, none'⟩ | ⟨t, t', found, found', -, next⟩
  · rw [none, none']
    refine (block_same same).bind fun b b' ⟨value, next⟩ => ?_
    exact .ok ⟨congrArg some value, next⟩
  · rw [found, found']
    exact .ok ⟨rfl, next⟩

theorem fnRest_same (start start' : Source.Span) (type : BaseType) {name name' : Token}
    (names : name.word = name'.word) {i i' : Input} (same : i.Same i') :
    Result.Same Item.blank (fnRest start type name i) (fnRest start' type name' i') := by
  unfold fnRest
  refine (expect_same same _ _ _).bind fun opening opening' ⟨_, next⟩ => ?_
  refine (params_same next).bind fun ps ps' ⟨values, next⟩ => ?_
  refine (expect_same next _ _ _).bind fun close close' ⟨_, next⟩ => ?_
  refine (fnBody_same next).bind fun body body' ⟨bodies, next⟩ => ?_
  exact .ok ⟨by simp only [Item.blank, Fn.blank, Token.name_of_word names, values, bodies], next⟩

theorem item_same {i i' : Input} (same : i.Same i') :
    Result.Same Item.blank (item i) (item i') := by
  unfold item
  rw [same.kind]
  dsimp only
  split
  · refine (decl_same same).bind fun d d' ⟨value, next⟩ => ?_
    exact .ok ⟨by simp only [Item.blank, Option.map_some, value], next⟩
  · refine (baseType_same same).bind fun type type' ⟨which, next⟩ => ?_
    refine (expect_same next _ _ _).bind fun name name' ⟨word, next⟩ => ?_
    rw [show type.value = type'.value from which, next.kind]
    split
    · exact (fnRest_same _ _ _ word next).bind fun f f' taken => .ok taken
    · refine (declRest_same _ _ _ _ word next).bind fun d d' ⟨value, next⟩ => ?_
      exact .ok ⟨by simp only [Item.blank, Option.map_some, value], next⟩

theorem items_same {i i' : Input} (same : i.Same i') :
    Except.Parallel Error.Same (fun r r' => r.1.map Item.blank = r'.1.map Item.blank)
      (items i) (items i') := by
  rw [items, items, same.kind]
  split
  · exact .ok rfl
  · refine (item_same same).bind fun first first' ⟨value, next⟩ => ?_
    have := first.shorter
    refine (items_same next).bind fun more more' values => ?_
    exact .ok (by simp only [List.map_cons, value, values])
termination_by i.size
decreasing_by all_goals omega

end Parser

/-! ## Files of the same words -/

/-- The words of a file in order. -/
def Lexed.words (l : Lexed) : List (Token.Kind × Bytes) := l.tokens.map Token.word

/-- Two files of the same words. Neither has a lexical error. -/
structure Lexed.Same (l l' : Lexed) : Prop where
  words : l.words = l'.words
  eof : l.eof.kind = .eof
  eof' : l'.eof.kind = .eof
  clean : l.errors = []
  clean' : l'.errors = []

variable {l l' : Lexed}

theorem Parser.compUnit_same (same : l.Same l') :
    Except.Parallel Error.Same (fun u u' => u.blank = u'.blank) (compUnit l) (compUnit l') := by
  have inputs : (Input.ofLexed l).Same (Input.ofLexed l') :=
    ⟨same.words, same.eof, same.eof', by rw [Input.ofLexed, same.clean]; rfl,
      by rw [Input.ofLexed, same.clean']; rfl⟩
  refine (items_same inputs).bind fun r r' values => ?_
  exact .ok (by simp only [CompUnit.blank, values])

/-- Files of the same words are parsed in parallel. -/
theorem Parsed.result_same (same : l.Same l') (canceled : Bool) :
    Outcome.Same (fun u u' => u.blank = u'.blank)
      (Parsed.ofLexed l canceled).result (Parsed.ofLexed l' canceled).result := by
  unfold ofLexed
  split
  · exact .error rfl
  · have parallel := Parser.compUnit_same same
    generalize Parser.compUnit l = x, Parser.compUnit l' = x' at parallel
    cases parallel with
    | ok related => exact .ok related
    | error related => exact .error (congrArg Failure.error related)

end SysY

import SysY.Proofs.Token.Issues

/-! # Lexical errors in the parser

The lexer records errors, and the parser only sees tokens. It can use a token nowhere that is not
valid, so that it gets stuck there at the latest, and then the lexical error is reported. A comment
that is never closed leaves no token behind: nothing of it reaches the parser. -/

namespace SysY

namespace Parser

open Source (Span)

/-! ## Where the parser gets stuck -/

/-- The parser gets from one input to another one over valid tokens. -/
def Advances (i j : Input) : Prop := ∃ ts, Reads i ts j ∧ ∀ t ∈ ts, t.kind ≠ .invalid

/-- What the parser may complain about. It knows nothing about comments, and it complains about a
number only if there is one without a value. -/
def Raises (i : Input) (code : Diag.Code) : Prop :=
  code ≠ .unterminatedComment ∧ (code = .badNumber → ∃ t ∈ i.tokens, ¬ Lexer.Readable t)

/-- A parser that starts at `i` ends further on, or it gets stuck at a token further on, about which
it complains. -/
structure Halts {α : Type} (i : Input) (next : α → Input) (x : Except Error α) : Prop where
  ok : ∀ {r}, x = .ok r → Advances i (next r)
  error : ∀ {e}, x = .error e → ∃ j code detail, Advances i j ∧ Raises i code ∧
    e = failure j code detail

section Halts

variable {α β : Type} {i j k : Input} {next : α → Input} {next' : β → Input}

theorem Advances.refl (i : Input) : Advances i i := ⟨[], .refl i, nofun⟩

theorem Advances.trans (h : Advances i j) (h' : Advances j k) : Advances i k := by
  obtain ⟨ts, reads, valid⟩ := h
  obtain ⟨us, reads', valid'⟩ := h'
  refine ⟨ts ++ us, reads.trans reads', fun t mem => ?_⟩
  rcases List.mem_append.mp mem with early | late
  · exact valid t early
  · exact valid' t late

/-- A test that no invalid token passes. -/
theorem Advances.of_takeIf {f : Token.Kind → Option β} {r : Taken (Token × β) i}
    (h : takeIf i f = some r) (refuses : f .invalid = none) : Advances i r.next := by
  obtain ⟨reads, found⟩ := takeIf_eq_some h
  refine ⟨_, reads, fun t mem isInvalid => ?_⟩
  rw [List.mem_singleton.mp mem] at isInvalid
  rw [isInvalid, refuses] at found
  cases found

theorem Advances.of_take? {k : Token.Kind} {r : Taken Token i} (h : take? i k = some r)
    (valid : k ≠ .invalid) : Advances i r.next := by
  obtain ⟨reads, isKind⟩ := take?_eq_some h
  refine ⟨_, reads, fun t mem => ?_⟩
  rw [List.mem_singleton.mp mem, isKind]
  exact valid

theorem Halts.pure {r : α} (h : Advances i (next r)) : Halts i next (pure r) where
  ok := fun e => by cases e; exact h
  error := nofun

theorem Raises.of_other {code : Diag.Code}
    (other : code ≠ .unterminatedComment ∧ code ≠ .badNumber) : Raises i code :=
  ⟨other.1, fun isNumber => absurd isNumber other.2⟩

theorem Raises.earlier {code : Diag.Code} (h : Advances i j) (raises : Raises j code) :
    Raises i code := by
  refine ⟨raises.1, fun isNumber => ?_⟩
  obtain ⟨t, mem, unreadable⟩ := raises.2 isNumber
  obtain ⟨ts, reads, -⟩ := h
  exact ⟨t, reads.tokens ▸ List.mem_append_right ts mem, unreadable⟩

theorem Halts.fails {code : Diag.Code} {detail : String} (h : Advances i j)
    (other : code ≠ .unterminatedComment ∧ code ≠ .badNumber) :
    Halts i next (.error (failure j code detail)) where
  ok := nofun
  error := fun e => by cases e; exact ⟨j, code, detail, h, .of_other other, rfl⟩

/-- A parser may start later. -/
theorem Halts.after {x : Except Error α} (h : Advances i j) (rest : Halts j next x) :
    Halts i next x where
  ok := fun e => h.trans (rest.ok e)
  error := fun e => by
    obtain ⟨k, code, detail, advances, raises, eq⟩ := rest.error e
    exact ⟨k, code, detail, h.trans advances, raises.earlier h, eq⟩

/-- One parser after the other. -/
theorem Halts.bind {x : Except Error α} {f : α → Except Error β} (first : Halts i next x)
    (rest : ∀ r, Halts (next r) next' (f r)) : Halts i next' (x >>= f) := by
  cases found : x with
  | ok r => exact (rest r).after (first.ok found)
  | error e =>
    refine ⟨nofun, fun eq => ?_⟩
    cases eq
    exact first.error found

theorem expect_halts (i : Input) {k : Token.Kind} {code : Diag.Code} {detail : String}
    (valid : k ≠ .invalid) (other : code ≠ .unterminatedComment ∧ code ≠ .badNumber) :
    Halts i Taken.next (expect i k code detail) := by
  unfold expect
  split
  · rename_i t taken
    exact .pure (.of_take? taken valid)
  · exact .fails (.refl i) other

end Halts

/-! ## Expressions -/

theorem literal_halts {i : Input} {number : Taken Token i}
    (taken : take? i .intLit = some number) : Halts i Taken.next (literal number) := by
  have h : Advances i number.next := .of_take? taken (by decide)
  unfold literal
  split
  · exact .pure h
  · rename_i bad
    obtain ⟨reads, isNumber⟩ := take?_eq_some taken
    have unreadable : ¬ Lexer.Readable number.value := fun readable => by
      obtain ⟨v, read⟩ := readable isNumber
      rw [read] at bad
      cases bad
    refine ⟨fun e => (by cases e), fun e => ?_⟩
    cases e
    exact ⟨_, _, _, h, ⟨by decide, fun _ => ⟨_, by simp [reads.tokens], unreadable⟩⟩, rfl⟩

theorem binaryOpFrom?_invalid (least : Nat) : binaryOpFrom? least .invalid = none := rfl

-- The proofs below follow the recursion of the parser, and end for the same reason.
mutual

theorem binary_halts (least : Nat) (i : Input) : Halts i Taken.next (binary least i) := by
  rw [binary]
  refine (unary_halts i).bind fun left => ?_
  have := left.shorter
  refine (binaryRest_halts least left.value left.next).bind fun all => ?_
  exact .pure (.refl _)
termination_by 8 * i.size + 3
decreasing_by all_goals omega

theorem binaryRest_halts (least : Nat) (left : Expr) (i : Input) :
    Halts i Kept.next (binaryRest least left i) := by
  rw [binaryRest]
  split
  · exact .pure (.refl _)
  · rename_i op taken
    have := op.shorter
    refine .after (.of_takeIf taken (binaryOpFrom?_invalid least)) ?_
    refine (binary_halts _ op.next).bind fun right => ?_
    have := right.shorter
    refine (binaryRest_halts least _ right.next).bind fun all => ?_
    exact .pure (.refl _)
termination_by 8 * i.size
decreasing_by all_goals omega

theorem unary_halts (i : Input) : Halts i Taken.next (unary i) := by
  rw [unary]
  split
  · rename_i op taken
    have := op.shorter
    refine .after (.of_takeIf taken rfl) ?_
    refine (unary_halts op.next).bind fun operand => ?_
    exact .pure (.refl _)
  · exact primary_halts i
termination_by 8 * i.size + 2
decreasing_by all_goals omega

theorem primary_halts (i : Input) : Halts i Taken.next (primary i) := by
  rw [primary]
  split
  · rename_i opening taken
    have := opening.shorter
    refine .after (.of_take? taken (by decide)) ?_
    refine (binary_halts 0 opening.next).bind fun inner => ?_
    refine (expect_halts inner.next (by decide) (by decide)).bind fun close => ?_
    exact .pure (.refl _)
  · split
    · rename_i number taken
      exact literal_halts taken
    · split
      · rename_i name taken
        have := name.shorter
        refine .after (.of_take? taken (by decide)) ?_
        split
        · rename_i opening taken
          have := opening.shorter
          refine .after (.of_take? taken (by decide)) ?_
          refine (arguments_halts opening.next).bind fun args => ?_
          refine (expect_halts args.next (by decide) (by decide)).bind fun close => ?_
          exact .pure (.refl _)
        · refine (subscripts_halts _ name.next).bind fun all => ?_
          exact .pure (.refl _)
      · exact .fails (.refl i) (by decide)
termination_by 8 * i.size + 1
decreasing_by all_goals omega

theorem arguments_halts (i : Input) : Halts i Kept.next (arguments i) := by
  rw [arguments]
  split
  · exact .pure (.refl _)
  · refine (argumentList_halts i).bind fun args => ?_
    exact .pure (.refl _)
termination_by 8 * i.size + 5
decreasing_by all_goals omega

theorem argumentList_halts (i : Input) : Halts i Taken.next (argumentList i) := by
  rw [argumentList]
  refine (binary_halts 0 i).bind fun arg => ?_
  have := arg.shorter
  split
  · exact .pure (.refl _)
  · rename_i comma taken
    have := comma.shorter
    refine .after (.of_take? taken (by decide)) ?_
    refine (argumentList_halts comma.next).bind fun more => ?_
    exact .pure (.refl _)
termination_by 8 * i.size + 4
decreasing_by all_goals omega

theorem subscripts_halts (target : Expr) (i : Input) :
    Halts i Kept.next (subscripts target i) := by
  rw [subscripts]
  split
  · exact .pure (.refl _)
  · rename_i opening taken
    have := opening.shorter
    refine .after (.of_take? taken (by decide)) ?_
    refine (binary_halts 0 opening.next).bind fun idx => ?_
    have := idx.shorter
    refine (expect_halts idx.next (by decide) (by decide)).bind fun close => ?_
    have := close.shorter
    refine (subscripts_halts _ close.next).bind fun all => ?_
    exact .pure (.refl _)
termination_by 8 * i.size
decreasing_by all_goals omega

end

theorem expr_halts (i : Input) : Halts i Taken.next (expr i) := binary_halts 0 i

/-! ## Declarations -/

theorem baseType_halts (i : Input) : Halts i Taken.next (baseType i) := by
  unfold baseType
  split
  · rename_i t taken
    exact .pure (.of_takeIf taken rfl)
  · exact .fails (.refl i) (by decide)

theorem bounds_halts (i : Input) : Halts i Kept.next (bounds i) := by
  rw [bounds]
  split
  · exact .pure (.refl _)
  · rename_i opening taken
    have := opening.shorter
    refine .after (.of_take? taken (by decide)) ?_
    refine (expr_halts opening.next).bind fun dim => ?_
    have := dim.shorter
    refine (expect_halts dim.next (by decide) (by decide)).bind fun close => ?_
    have := close.shorter
    refine (bounds_halts close.next).bind fun more => ?_
    exact .pure (.refl _)
termination_by i.size
decreasing_by all_goals omega

mutual

theorem init_halts (i : Input) : Halts i Taken.next (init i) := by
  rw [init]
  split
  · refine (expr_halts i).bind fun value => ?_
    exact .pure (.refl _)
  · rename_i opening taken
    have := opening.shorter
    refine .after (.of_take? taken (by decide)) ?_
    refine (initElems_halts opening.next).bind fun elems => ?_
    refine (expect_halts elems.next (by decide) (by decide)).bind fun close => ?_
    exact .pure (.refl _)
termination_by 4 * i.size
decreasing_by all_goals omega

theorem initElems_halts (i : Input) : Halts i Kept.next (initElems i) := by
  rw [initElems]
  split
  · exact .pure (.refl _)
  · refine (initList_halts i).bind fun elems => ?_
    exact .pure (.refl _)
termination_by 4 * i.size + 2
decreasing_by all_goals omega

theorem initList_halts (i : Input) : Halts i Taken.next (initList i) := by
  rw [initList]
  refine (init_halts i).bind fun elem => ?_
  have := elem.shorter
  split
  · exact .pure (.refl _)
  · rename_i comma taken
    have := comma.shorter
    refine .after (.of_take? taken (by decide)) ?_
    refine (initList_halts comma.next).bind fun more => ?_
    exact .pure (.refl _)
termination_by 4 * i.size + 1
decreasing_by all_goals omega

end

theorem defRest_halts (name : Token) (i : Input) : Halts i Kept.next (defRest name i) := by
  unfold defRest
  refine (bounds_halts i).bind fun dims => ?_
  split
  · exact .pure (.refl _)
  · rename_i assign taken
    refine .after (.of_take? taken (by decide)) ?_
    refine (init_halts assign.next).bind fun value => ?_
    exact .pure (.refl _)

theorem defList_halts (name : Token) (i : Input) : Halts i Kept.next (defList name i) := by
  rw [defList]
  refine (defRest_halts name i).bind fun first => ?_
  have := first.notLonger
  split
  · exact .pure (.refl _)
  · rename_i comma taken
    have := comma.shorter
    refine .after (.of_take? taken (by decide)) ?_
    refine (expect_halts comma.next (by decide) (by decide)).bind fun second => ?_
    have := second.shorter
    refine (defList_halts second.value second.next).bind fun more => ?_
    exact .pure (.refl _)
termination_by i.size
decreasing_by all_goals omega

theorem declRest_halts (start : Span) (isConst : Bool) (type : BaseType) (name : Token)
    (i : Input) : Halts i Taken.next (declRest start isConst type name i) := by
  unfold declRest
  refine (defList_halts name i).bind fun defs => ?_
  refine (expect_halts defs.next (by decide) (by decide)).bind fun semicolon => ?_
  exact .pure (.refl _)

theorem declFrom_halts (start : Span) (isConst : Bool) (i : Input) :
    Halts i Taken.next (declFrom start isConst i) := by
  unfold declFrom
  refine (baseType_halts i).bind fun type => ?_
  refine (expect_halts type.next (by decide) (by decide)).bind fun name => ?_
  refine (declRest_halts start isConst type.value name.value name.next).bind fun decl => ?_
  exact .pure (.refl _)

theorem decl_halts (i : Input) : Halts i Taken.next (decl i) := by
  unfold decl
  split
  · exact declFrom_halts _ false i
  · rename_i const taken
    refine .after (.of_take? taken (by decide)) ?_
    refine (declFrom_halts _ true const.next).bind fun decl => ?_
    exact .pure (.refl _)

/-! ## Statements -/

theorem condition_halts (i : Input) : Halts i Taken.next (condition i) := by
  unfold condition
  refine (expect_halts i (by decide) (by decide)).bind fun opening => ?_
  refine (expr_halts opening.next).bind fun cond => ?_
  refine (expect_halts cond.next (by decide) (by decide)).bind fun close => ?_
  exact .pure (.refl _)

theorem semicolon_halts (i : Input) (after : String) :
    Halts i Taken.next (semicolon i after) := expect_halts i (by decide) (by decide)

theorem simple_halts (i : Input) : Halts i Taken.next (simple i) := by
  unfold simple
  refine (expr_halts i).bind fun value => ?_
  split
  · refine (semicolon_halts value.next _).bind fun close => ?_
    exact .pure (.refl _)
  · rename_i assign taken
    split
    · exact .fails (.refl _) (by decide)
    · refine .after (.of_take? taken (by decide)) ?_
      refine (expr_halts assign.next).bind fun source => ?_
      refine (semicolon_halts source.next _).bind fun close => ?_
      exact .pure (.refl _)

theorem returnValue_halts (i : Input) : Halts i Kept.next (returnValue i) := by
  unfold returnValue
  split
  · exact .pure (.refl _)
  · refine (expr_halts i).bind fun value => ?_
    exact .pure (.refl _)

mutual

theorem block_halts (i : Input) : Halts i Taken.next (block i) := by
  rw [block]
  refine (expect_halts i (by decide) (by decide)).bind fun opening => ?_
  have := opening.shorter
  refine (blockRest_halts opening.next).bind fun body => ?_
  exact .pure (.refl _)
termination_by 8 * i.size
decreasing_by all_goals omega

theorem blockRest_halts (i : Input) : Halts i Taken.next (blockRest i) := by
  rw [blockRest]
  split
  · rename_i close taken
    exact .pure (.of_take? taken (by decide))
  · split
    · exact .fails (.refl i) (by decide)
    · refine (blockItem_halts i).bind fun first => ?_
      have := first.shorter
      refine (blockRest_halts first.next).bind fun more => ?_
      exact .pure (.refl _)
termination_by 8 * i.size + 3
decreasing_by all_goals omega

theorem blockItem_halts (i : Input) : Halts i Taken.next (blockItem i) := by
  rw [blockItem]
  split
  · refine (decl_halts i).bind fun d => ?_
    exact .pure (.refl _)
  · exact stmt_halts i
termination_by 8 * i.size + 2
decreasing_by all_goals omega

theorem stmt_halts (i : Input) : Halts i Taken.next (stmt i) := by
  rw [stmt]
  split
  · exact block_halts i
  · refine (semicolon_halts i _).bind fun t => ?_
    exact .pure (.refl _)
  · refine (expect_halts i (by decide) (by decide)).bind fun keyword => ?_
    have := keyword.shorter
    refine (condition_halts keyword.next).bind fun cond => ?_
    have := cond.shorter
    refine (stmt_halts cond.next).bind fun thenArm => ?_
    have := thenArm.shorter
    split
    · exact .pure (.refl _)
    · rename_i other taken
      have := other.shorter
      refine .after (.of_take? taken (by decide)) ?_
      refine (stmt_halts other.next).bind fun elseArm => ?_
      exact .pure (.refl _)
  · refine (expect_halts i (by decide) (by decide)).bind fun keyword => ?_
    have := keyword.shorter
    refine (condition_halts keyword.next).bind fun cond => ?_
    have := cond.shorter
    refine (stmt_halts cond.next).bind fun body => ?_
    exact .pure (.refl _)
  · refine (expect_halts i (by decide) (by decide)).bind fun keyword => ?_
    refine (semicolon_halts keyword.next _).bind fun close => ?_
    exact .pure (.refl _)
  · refine (expect_halts i (by decide) (by decide)).bind fun keyword => ?_
    refine (semicolon_halts keyword.next _).bind fun close => ?_
    exact .pure (.refl _)
  · refine (expect_halts i (by decide) (by decide)).bind fun keyword => ?_
    refine (returnValue_halts keyword.next).bind fun value => ?_
    refine (semicolon_halts value.next _).bind fun close => ?_
    exact .pure (.refl _)
  · exact simple_halts i
termination_by 8 * i.size + 1
decreasing_by all_goals omega

end

/-! ## Items -/

theorem param_halts (i : Input) : Halts i Taken.next (param i) := by
  unfold param
  refine (baseType_halts i).bind fun type => ?_
  refine (expect_halts type.next (by decide) (by decide)).bind fun name => ?_
  split
  · exact .pure (.refl _)
  · rename_i opening taken
    refine .after (.of_take? taken (by decide)) ?_
    refine (expect_halts opening.next (by decide) (by decide)).bind fun close => ?_
    refine (bounds_halts close.next).bind fun dims => ?_
    exact .pure (.refl _)

theorem paramList_halts (i : Input) : Halts i Taken.next (paramList i) := by
  rw [paramList]
  refine (param_halts i).bind fun first => ?_
  have := first.shorter
  split
  · exact .pure (.refl _)
  · rename_i comma taken
    have := comma.shorter
    refine .after (.of_take? taken (by decide)) ?_
    refine (paramList_halts comma.next).bind fun more => ?_
    exact .pure (.refl _)
termination_by i.size
decreasing_by all_goals omega

theorem params_halts (i : Input) : Halts i Kept.next (params i) := by
  unfold params
  split
  · exact .pure (.refl _)
  · refine (paramList_halts i).bind fun ps => ?_
    exact .pure (.refl _)

theorem fnBody_halts (i : Input) : Halts i Taken.next (fnBody i) := by
  unfold fnBody
  split
  · rename_i t taken
    exact .pure (.of_take? taken (by decide))
  · refine (block_halts i).bind fun b => ?_
    exact .pure (.refl _)

theorem fnRest_halts (start : Span) (type : BaseType) (name : Token) (i : Input) :
    Halts i Taken.next (fnRest start type name i) := by
  unfold fnRest
  refine (expect_halts i (by decide) (by decide)).bind fun opening => ?_
  refine (params_halts opening.next).bind fun ps => ?_
  refine (expect_halts ps.next (by decide) (by decide)).bind fun close => ?_
  refine (fnBody_halts close.next).bind fun body => ?_
  exact .pure (.refl _)

theorem item_halts (i : Input) : Halts i Taken.next (item i) := by
  unfold item
  simp only
  split
  · refine (decl_halts i).bind fun d => ?_
    exact .pure (.refl _)
  · refine (baseType_halts i).bind fun type => ?_
    refine (expect_halts type.next (by decide) (by decide)).bind fun name => ?_
    split
    · refine (fnRest_halts i.peek.span type.value name.value name.next).bind fun f => ?_
      exact .pure (.refl _)
    · refine (declRest_halts i.peek.span false type.value name.value name.next).bind fun d => ?_
      exact .pure (.refl _)

theorem items_halts (i : Input) : Halts i Prod.snd (items i) := by
  rw [items]
  split
  · exact .pure (.refl _)
  · refine (item_halts i).bind fun first => ?_
    have := first.shorter
    refine (items_halts first.next).bind fun rest => ?_
    exact .pure (.refl _)
termination_by i.size
decreasing_by all_goals omega

/-! ## Files -/

theorem compUnit_raises {l : Lexed} {e : Error} (h : compUnit l = .error e) :
    ∃ j code detail, Advances (.ofLexed l) j ∧ Raises (.ofLexed l) code ∧
      e = failure j code detail := by
  have all : (do
      let r ← items (.ofLexed l)
      return { span := (Input.ofLexed l).peek.span.cover r.2.last, items := r.1 }) =
        (.error e : Except Error CompUnit) := h
  cases found : items (Input.ofLexed l) with
  | ok r =>
    rw [found] at all
    cases all
  | error e' =>
    rw [found] at all
    cases all
    exact (items_halts _).error found

theorem compUnit_halts {l : Lexed} {e : Error} (h : compUnit l = .error e) :
    ∃ j code detail, Advances (.ofLexed l) j ∧ code ≠ .unterminatedComment ∧
      e = failure j code detail := by
  obtain ⟨j, code, detail, advances, raises, eq⟩ := compUnit_raises h
  exact ⟨j, code, detail, advances, raises.1, eq⟩

/-- A file that is accepted has valid tokens only. -/
theorem compUnit_valid {l : Lexed} {u : CompUnit} (ended : (Input.ofLexed l).Ended)
    (h : compUnit l = .ok u) : ∀ t ∈ l.tokens, t.kind ≠ .invalid := by
  obtain ⟨⟨is, last⟩, found, -⟩ := Except.bind_eq_ok.mp h
  obtain ⟨ts, reads, valid⟩ := (items_halts _).ok found
  obtain ⟨all, -⟩ : Reads (.ofLexed l) l.tokens last ∧ Grammar.Items true l.tokens is :=
    items_finds ended found
  have same : ts = l.tokens := List.append_cancel_right (reads.tokens.symm.trans all.tokens)
  exact same ▸ valid

/-- The parser stops at a syntax error in front of a position. -/
def StopsBefore (l : Lexed) (position : Nat) : Prop :=
  ∃ e, compUnit l = .error e ∧ e.isLexical = false ∧ e.found.span.stop ≤ position

/-- Where the parser gets stuck when not all tokens are valid: at the first one that is not, or at
one in front of it. -/
theorem stuck_at {l : Lexed} {first more : List Token} {t : Token} {j : Input}
    (tokens : l.tokens = first ++ t :: more) (invalid : t.kind = .invalid)
    (advances : Advances (.ofLexed l) j) : j.peek = t ∨ j.peek ∈ first := by
  obtain ⟨ts, reads, valid⟩ := advances
  have eq : first ++ t :: more = ts ++ j.tokens := tokens.symm.trans reads.tokens
  have inTs : t ∈ ts → False := fun mem => valid t mem invalid
  rcases List.append_eq_append_iff.mp eq with ⟨read, rfl, rest⟩ | ⟨left, rfl, rest⟩
  · cases read with
    | nil =>
      have rest : t :: more = j.tokens := rest
      exact .inl (by simp [Input.peek, ← rest])
    | cons u read =>
      obtain ⟨rfl, -⟩ := List.cons_eq_cons.mp rest
      exact (inTs (by simp)).elim
  · cases left with
    | nil => exact .inl (by simp [Input.peek, rest])
    | cons u left => exact .inr (by simp [Input.peek, rest])

theorem failure_invalid {j : Input} {e : Diag.Error} (kind : j.kind = .invalid)
    (lexical : j.lexical = some e) (code : Diag.Code) (detail : String) :
    (failure j code detail).error = e := by
  simp [failure, kind, lexical]

theorem failure_valid {j : Input} (kind : j.kind ≠ .invalid) (code : Diag.Code)
    (detail : String) : failure j code detail = ⟨.mk' code j.errorSpan detail, j.peek, false⟩ := by
  simp [failure, kind]

end Parser

theorem Parsed.result_eq (l : Lexed) :
    (Parsed.ofLexed l false).result = match Parser.compUnit l with
      | .ok u => .ok u
      | .error e => .raise e.error := by
  rw [Parsed.ofLexed, if_neg (by simp)]
  cases Parser.compUnit l with
  | ok u => rfl
  | error e => rfl

/-- A lexical error in a token makes the parser fail, and unless the parser finds a syntax error in
front of it, it is the first one of them that is reported. A comment that is never closed is the
only lexical error of its file then, and it is never what the parser reports. -/
theorem lexical_error_reported (f : Source.File) {e : Diag.Error}
    (first : (Lexed.ofFile f).errors.head? = some e) :
    (e.code ≠ .unterminatedComment →
      (∃ e', (Parsed.ofLexed (.ofFile f) false).result = .raise e') ∧
        (¬ Parser.StopsBefore (.ofFile f) e.span.start →
          (Parsed.ofLexed (.ofFile f) false).result = .raise e)) ∧
    (e.code = .unterminatedComment → (Lexed.ofFile f).errors = [e] ∧
      (Parsed.ofLexed (.ofFile f) false).result ≠ .raise e) := by
  have ended := Parser.Input.ofLexed_ended f
  have issues := Lexed.ofFile_issues f
  rw [Parsed.result_eq]
  generalize Lexed.ofFile f = l at first ended issues
  obtain ⟨tokens, eof, errors⟩ := l
  obtain ⟨es, rfl⟩ : ∃ es, errors = e :: es := List.head?_eq_some_iff.mp first
  cases issues with
  | token before t after eq early invalid span code =>
    refine ⟨fun _ => ?_, fun comment => absurd comment code⟩
    cases found : Parser.compUnit ⟨tokens, eof, e :: es⟩ with
    | ok u => exact absurd invalid (Parser.compUnit_valid ended found t (by rw [eq]; simp))
    | error err =>
      refine ⟨⟨_, rfl⟩, fun notBefore => ?_⟩
      obtain ⟨j, code', detail, advances, -, rfl⟩ := Parser.compUnit_halts found
      obtain ⟨ts, reads, -⟩ := id advances
      rcases Parser.stuck_at eq invalid advances with here | inFront
      · have isInvalid : j.kind = .invalid := by rw [Parser.Input.kind, here, invalid]
        simp only [Parser.failure_invalid isInvalid reads.lexical]
      · obtain ⟨valid, stop⟩ := early _ inFront
        rw [Parser.failure_valid valid] at found
        exact absurd ⟨_, found, rfl, stop⟩ notBefore
  | comment valid code =>
    refine ⟨fun other => absurd code other, fun _ => ⟨rfl, ?_⟩⟩
    cases found : Parser.compUnit ⟨tokens, eof, [e]⟩ with
    | ok u => simp [Outcome.raise]
    | error err =>
      obtain ⟨j, code', detail, ⟨ts, reads, -⟩, other, rfl⟩ := Parser.compUnit_halts found
      have isValid : j.kind ≠ .invalid := by
        have all := ended.later reads
        cases rest : j.tokens with
        | nil =>
          simp [all.kind_eq_eof.mpr rest]
        | cons t more =>
          have mem : t ∈ tokens := by
            have eq : tokens = ts ++ j.tokens := reads.tokens
            simp [eq, rest]
          simpa [Parser.Input.kind, Parser.Input.peek, rest] using valid t mem
      rw [Parser.failure_valid isValid]
      intro same
      cases same
      exact other code

/-- A file with a character between two operands that belongs to no token. -/
def strayCharacter : Source.File :=
  { id := 0
    path := "stray.c"
    content := Bytes.ofString "int main() \x7b return 1 $ 2; \x7d"
    flags := default }

theorem strayCharacter_reported : ∃ e, (Lexed.ofFile strayCharacter).errors.head? = some e ∧
    e.code = .unknownCharacter ∧
    (Parsed.ofLexed (.ofFile strayCharacter) false).result = .raise e := by
  have errors : (Lexed.ofFile strayCharacter).errors.map (·.code) = [.unknownCharacter] := by
    decide +kernel
  obtain ⟨e, first, code⟩ := List.map_eq_singleton_iff.mp errors
  have lexical : (match Parser.compUnit (.ofFile strayCharacter) with
      | .ok _ => false
      | .error err => err.isLexical) = true := by decide +kernel
  have reported := (lexical_error_reported strayCharacter (by rw [first]; rfl)).1
    (by rw [code]; decide)
  refine ⟨e, by rw [first]; rfl, code, reported.2 ?_⟩
  rintro ⟨err, found, notLexical, -⟩
  simp only [found] at lexical
  rw [lexical] at notLexical
  cases notLexical

/-- A file that ends inside a comment. -/
def openComment : Source.File :=
  { id := 0, path := "open.c", content := Bytes.ofString "int x; /*", flags := default }

/-- A comment that is never closed is a lexical error that the parser accepts. -/
theorem openComment_accepted :
    (Lexed.ofFile openComment).errors.map (·.code) = [.unterminatedComment] ∧
      (Parsed.ofLexed (.ofFile openComment) false).result.toOption.isSome = true := by
  decide +kernel

end SysY

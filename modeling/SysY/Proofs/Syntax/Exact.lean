import SysY.Proofs.Syntax.Complete
import SysY.Proofs.Syntax.Sound
import SysY.Syntax.Dump

/-! # The parser accepts exactly the grammar

Main result: a file is accepted if and only if its tokens spell a unit, whichever `if` an `else` is
read with. The result is then the one tree where every `else` belongs to the nearest `if` that has
none. -/

namespace SysY

/-! ## The tokens of a file -/

/-- A word is an identifier or a keyword. -/
theorem Token.Kind.ofWord_mem (word : String) : Token.Kind.ofWord word ∈ ident :: keywords := by
  unfold Token.Kind.ofWord
  cases found : Token.Kind.keywords.find? (·.name = word) with
  | none => exact List.mem_cons_self
  | some k => exact List.mem_cons_of_mem _ (List.mem_of_find?_eq_some found)

theorem Token.Kind.ofWord_ne_intLit (word : String) : Token.Kind.ofWord word ≠ .intLit :=
  ne_of_mem_of_not_mem (ofWord_mem word) (by decide)

namespace Scan

theorem sign_ne_intLit (b : UInt8) (rest : Bytes) : (sign b rest).kind ≠ .intLit := by
  unfold sign
  split
  · rename_i k found
    obtain ⟨c, -, found⟩ := Option.bind_eq_some_iff.mp found
    unfold pair? at found
    split at found <;> cases found <;> nofun
  · split
    · rename_i k found
      unfold single? at found
      split at found <;> cases found <;> nofun
    · nofun

/-- Where a digit can be read, a name goes on. -/
theorem takeWhile_name {p : UInt8 → Bool} (parts : ∀ b, p b = true → isNamePart b = true)
    (rest : Bytes) : rest.takeWhile p ++ (rest.drop (rest.takeWhile p).length).takeWhile isNamePart =
      rest.takeWhile isNamePart := by
  induction rest with
  | nil => rfl
  | cons c rest ih =>
    cases isDigit : p c with
    | true => simp [isDigit, parts c isDigit, ih]
    | false => simp [List.takeWhile_cons, isDigit]

/-- The digits of a number and what is glued to it are all that can continue a name. -/
theorem numberPart_eq (b : UInt8) (rest : Bytes) : numberPart b rest = rest.takeWhile isNamePart := by
  have decimal (c : UInt8) (isDigit : Literal.isDecimal c = true) : isNamePart c = true := by
    simp [isNamePart, isDigit]
  have hexadecimal (c : UInt8) (isDigit : Literal.isHexadecimal c = true) :
      isNamePart c = true := by
    simp only [Literal.isHexadecimal, Bool.or_eq_true, Bool.and_eq_true, decide_eq_true_eq] at isDigit
    simp only [isNamePart, isNameStart, Bool.or_eq_true, Bool.and_eq_true, decide_eq_true_eq]
    grind
  cases rest with
  | nil => rfl
  | cons x rest =>
    simp only [numberPart, digits]
    split
    · rename_i isMarked
      have isPart : isNamePart x = true := by
        obtain ⟨-, rfl | rfl⟩ := isMarked <;> rfl
      rw [List.takeWhile_cons_of_pos isPart, ← takeWhile_name hexadecimal rest]
      rfl
    · exact takeWhile_name decimal (x :: rest)

/-- A text is taken for a number only if it has a value. -/
theorem number_value {b : UInt8} {rest : Bytes} (h : (number b rest).kind = .intLit) :
    ∃ v, Literal.read ((b :: rest).take (number b rest).length) = .ok v := by
  have whole : rest.take (rest.takeWhile isNamePart).length = rest.takeWhile isNamePart :=
    (List.prefix_iff_eq_take.mp (List.takeWhile_prefix _)).symm
  simp only [number, numberPart_eq] at h ⊢
  cases read : Literal.read (b :: rest.takeWhile isNamePart) with
  | ok v => exact ⟨v, by simp [Lexeme.length, whole, read]⟩
  | error e => simp [read] at h

theorem lexeme_value {b : UInt8} {rest : Bytes} (h : (lexeme b rest).kind = .intLit) :
    ∃ v, Literal.read ((b :: rest).take (lexeme b rest).length) = .ok v := by
  unfold lexeme at h ⊢
  by_cases isName : isNameStart b
  · rw [if_pos isName] at h
    exact absurd h (Token.Kind.ofWord_ne_intLit _)
  · by_cases isDigit : Literal.isDecimal b
    · rw [if_neg isName, if_pos isDigit] at h ⊢
      exact number_value h
    · rw [if_neg isName, if_neg isDigit] at h
      exact absurd h (sign_ne_intLit b rest)

end Scan

namespace Lexer

/-- A token that is a number has a value. -/
def Readable (t : Token) : Prop := t.kind = .intLit → ∃ v, Literal.read t.text = .ok v

theorem scan_readable (lx : Lexer) : Readable lx.scan.1 := by
  intro isNumber
  unfold scan at isNumber ⊢
  split at isNumber
  · cases isNumber
  · rename_i b more rest
    simp only [rest] at isNumber ⊢
    split at isNumber <;> exact Scan.lexeme_value isNumber

theorem scan_ahead (lx : Lexer) : lx.scan.2.ahead = lx.ahead := by
  unfold scan
  split
  · rfl
  · simp only
    split <;> rfl

theorem skipGap_ahead (lx : Lexer) : lx.skipGap.ahead = lx.ahead := by
  unfold skipGap
  simp only
  split <;> rfl

theorem next_eq_scan {lx : Lexer} (h : lx.ahead = none) : lx.next = lx.skipGap.scan := by
  rw [next, h]

/-- The tokens of a file end with the end token, which comes nowhere before. -/
theorem drain_tokens (lx : Lexer) (h : lx.ahead = none) :
    ∃ ts e, lx.drain.1 = ts ++ [e] ∧ e.kind = .eof ∧ ∀ t ∈ ts, t.kind ≠ .eof ∧ Readable t := by
  rw [drain]
  split
  · rename_i atEnd
    exact ⟨[], lx.next.1, rfl, atEnd, nofun⟩
  · rename_i more
    have ahead : lx.next.2.ahead = none := by
      rw [next_eq_scan h, scan_ahead, skipGap_ahead, h]
    have := budget_next more
    obtain ⟨ts, e, drained, isEnd, others⟩ := drain_tokens lx.next.2 ahead
    refine ⟨lx.next.1 :: ts, e, by simp [drained], isEnd, ?_⟩
    rintro t (_ | ⟨_, mem⟩)
    · exact ⟨more, next_eq_scan h ▸ scan_readable _⟩
    · exact others t mem
termination_by lx.budget

end Lexer

theorem Lexed.ofFile_tokens (f : Source.File) :
    (Lexed.ofFile f).eof.kind = .eof ∧
      ∀ t ∈ (Lexed.ofFile f).tokens, t.kind ≠ .eof ∧ Lexer.Readable t := by
  obtain ⟨ts, e, drained, isEnd, others⟩ := Lexer.drain_tokens (.ofFile f) rfl
  unfold Lexed.ofFile
  simpa [drained] using ⟨isEnd, others⟩

/-! ## Where an `else` belongs -/

namespace Grammar

/-- An `else` after a statement with open `if`s can be read with the last one of them. -/
theorem Statement.attach : ∀ {us a}, Statement true us a → endsOpen a = true →
    ∀ ⦃other vs b⦄, other.kind = .kwElse → Statement true vs b →
      ∃ c, Statement true (us ++ other :: vs) c
  | _, _, @Statement.ifThen _ _ _ _ _ _ _ arm isIf isOpen isCond isClose isArm => by
    intro _ other vs b isElse isOther
    cases armOpen : endsOpen arm with
    | true =>
      obtain ⟨c, isArm⟩ := isArm.attach armOpen isElse isOther
      have all := Statement.ifThen isIf isOpen isCond isClose isArm
      exact ⟨_, by simpa using all⟩
    | false => exact ⟨_, .ifElse isIf isOpen isCond isClose isArm (fun _ => armOpen) isElse isOther⟩
  | _, _, .ifElse isIf isOpen isCond isClose isArm closed isElse isOther => by
    intro otherOpen other vs b isElse' isOther'
    obtain ⟨c, isOther⟩ := isOther.attach otherOpen isElse' isOther'
    have all := Statement.ifElse isIf isOpen isCond isClose isArm closed isElse isOther
    exact ⟨_, by simpa using all⟩
  | _, _, .while isWhile isOpen isCond isClose isBody => by
    intro bodyOpen other vs b isElse isOther
    obtain ⟨c, isBody⟩ := isBody.attach bodyOpen isElse isOther
    have all := Statement.while isWhile isOpen isCond isClose isBody
    exact ⟨_, by simpa using all⟩
  | _, _, .block .. | _, _, .empty .. | _, _, .effect .. | _, _, .assign .. | _, _, .break ..
  | _, _, .continue .. | _, _, .return .. | _, _, .returnValue .. => nofun

mutual

/-- What is a statement at all is one where every `else` belongs to the nearest `if`. -/
theorem Statement.settle {nearest : Bool} :
    ∀ {ts a}, Statement nearest ts a → ∃ b, Statement true ts b
  | _, _, .block isOpen areContents isClose => by
    obtain ⟨ss, areContents⟩ := areContents.settle
    exact ⟨_, .block isOpen areContents isClose⟩
  | _, _, .empty isClose => ⟨_, .empty isClose⟩
  | _, _, .effect isExpr isClose => ⟨_, .effect isExpr isClose⟩
  | _, _, .assign isTarget isAssign isValue isClose =>
    ⟨_, .assign isTarget isAssign isValue isClose⟩
  | _, _, .ifThen isIf isOpen isCond isClose isArm => by
    obtain ⟨a, isArm⟩ := isArm.settle
    exact ⟨_, .ifThen isIf isOpen isCond isClose isArm⟩
  | _, _, .ifElse isIf isOpen isCond isClose isArm _ isElse isOther => by
    obtain ⟨a, isArm⟩ := isArm.settle
    obtain ⟨b, isOther⟩ := isOther.settle
    cases armOpen : endsOpen a with
    | true =>
      obtain ⟨c, isArm⟩ := isArm.attach armOpen isElse isOther
      have all := Statement.ifThen isIf isOpen isCond isClose isArm
      exact ⟨_, by simpa using all⟩
    | false => exact ⟨_, .ifElse isIf isOpen isCond isClose isArm (fun _ => armOpen) isElse isOther⟩
  | _, _, .while isWhile isOpen isCond isClose isBody => by
    obtain ⟨a, isBody⟩ := isBody.settle
    exact ⟨_, .while isWhile isOpen isCond isClose isBody⟩
  | _, _, .break isBreak isClose => ⟨_, .break isBreak isClose⟩
  | _, _, .continue isContinue isClose => ⟨_, .continue isContinue isClose⟩
  | _, _, .return isReturn isClose => ⟨_, .return isReturn isClose⟩
  | _, _, .returnValue isReturn isValue isClose => ⟨_, .returnValue isReturn isValue isClose⟩

theorem Contents.settle {nearest : Bool} :
    ∀ {ts ss}, Contents nearest ts ss → ∃ us, Contents true ts us
  | _, _, .none => ⟨_, .none⟩
  | _, _, .decl isDecl areMore => by
    obtain ⟨us, areMore⟩ := areMore.settle
    exact ⟨_, .decl isDecl areMore⟩
  | _, _, .stmt isStmt areMore => by
    obtain ⟨a, isStmt⟩ := isStmt.settle
    obtain ⟨us, areMore⟩ := areMore.settle
    exact ⟨_, .stmt isStmt areMore⟩

end

theorem TopLevel.settle {nearest : Bool} {ts : List Token} {a : Item}
    (h : TopLevel nearest ts a) : ∃ b, TopLevel true ts b := by
  cases h with
  | decl isDecl => exact ⟨_, .decl isDecl⟩
  | fn isBase isName areParams isBody =>
    cases isBody with
    | none isClose => exact ⟨_, .fn isBase isName areParams (.none isClose)⟩
    | block isOpen areContents isClose =>
      obtain ⟨ss, areContents⟩ := areContents.settle
      exact ⟨_, .fn isBase isName areParams (.block isOpen areContents isClose)⟩

theorem Items.settle {nearest : Bool} {ts : List Token} {is : List Item}
    (h : Items nearest ts is) : ∃ as, Items true ts as := by
  induction h with
  | none => exact ⟨_, .none⟩
  | more isItem _ ih =>
    obtain ⟨b, isItem⟩ := isItem.settle
    obtain ⟨as, areMore⟩ := ih
    exact ⟨_, .more isItem areMore⟩

end Grammar

/-! ## Files -/

namespace Parser

open Grammar

theorem Input.ofLexed_ended (f : Source.File) : (Input.ofLexed (.ofFile f)).Ended where
  eof := (Lexed.ofFile_tokens f).1
  others t mem := ((Lexed.ofFile_tokens f).2 t mem).1

/-- The span of a unit whose tokens are all read. -/
theorem unit_span {l : Lexed} {last : Input} (reads : Reads (.ofLexed l) l.tokens last) :
    (Input.ofLexed l).peek.span.cover last.last =
      if l.tokens.isEmpty then l.eof.span else extent l.tokens := by
  split
  · rename_i isEmpty
    have empty := List.isEmpty_iff.mp isEmpty
    rw [reads.last]
    simp [empty, Input.ofLexed, Input.peek, lastSpan, Source.Span.cover]
  · rename_i nonempty
    exact reads.extent (by simpa using nonempty)

theorem compUnit_sound {nearest : Bool} {l : Lexed} {u : CompUnit}
    (ended : (Input.ofLexed l).Ended) (h : compUnit l = .ok u) : Spells nearest l u := by
  unfold compUnit at h
  obtain ⟨⟨is, last⟩, his, h⟩ := Except.bind_eq_ok.mp h
  cases h
  obtain ⟨reads, areItems⟩ := items_finds ended his
  exact ⟨areItems, unit_span reads⟩

theorem compUnit_complete {l : Lexed} {u : CompUnit} (ended : (Input.ofLexed l).Ended)
    (h : Spells true l u) : compUnit l = .ok u := by
  obtain ⟨span, is⟩ := u
  obtain ⟨areItems, isSpan⟩ := h
  have reads : Reads (.ofLexed l) l.tokens
      ⟨[], l.eof, lastSpan (Input.ofLexed l).last l.tokens, l.errors.head?⟩ :=
    ⟨by simp [Input.ofLexed], rfl, rfl, rfl⟩
  have atEnd := (ended.later reads).kind_eq_eof.mpr rfl
  refine Except.bind_eq_ok.mpr ⟨_, items_of areItems reads atEnd, ?_⟩
  simp only at isSpan
  rw [isSpan, ← unit_span reads]
  rfl

end Parser

/-- A file is accepted if and only if its tokens are a unit of the grammar, whichever `if` an `else`
belongs to there. What is parsed is the unit where it is the nearest one without `else`, and there
is only one such unit. Every number of a file has a value, so that no number is refused. -/
theorem parsed_iff_spelled (f : Source.File) :
    ((∃ u, (Parsed.ofLexed (.ofFile f) false).result = .ok u) ↔
      ∃ u, Grammar.Spells false (.ofFile f) u) ∧
    (∀ u, (Parsed.ofLexed (.ofFile f) false).result = .ok u ↔ Grammar.Spells true (.ofFile f) u) ∧
    (∀ u v, Grammar.Spells true (.ofFile f) u → Grammar.Spells true (.ofFile f) v → u = v) ∧
    ∀ t ∈ (Lexed.ofFile f).tokens, t.kind = .intLit → ∃ v, Literal.read t.text = .ok v := by
  have ended := Parser.Input.ofLexed_ended f
  have result (u : CompUnit) : (Parsed.ofLexed (.ofFile f) false).result = .ok u ↔
      Parser.compUnit (.ofFile f) = .ok u := by
    simp only [Parsed.ofLexed, Bool.false_eq_true, if_false]
    split <;> simp_all [Outcome.raise]
  have exact (u : CompUnit) : (Parsed.ofLexed (.ofFile f) false).result = .ok u ↔
      Grammar.Spells true (.ofFile f) u :=
    (result u).trans ⟨Parser.compUnit_sound ended, Parser.compUnit_complete ended⟩
  refine ⟨⟨?_, ?_⟩, exact, ?_, fun t mem => ((Lexed.ofFile_tokens f).2 t mem).2⟩
  · rintro ⟨u, h⟩
    exact ⟨u, Parser.compUnit_sound ended ((result u).mp h)⟩
  · rintro ⟨u, areItems, span⟩
    obtain ⟨is, areItems⟩ := areItems.settle
    exact ⟨{ u with items := is }, (exact _).mpr ⟨areItems, span⟩⟩
  · intro u v hu hv
    exact Except.ok.inj (((exact u).mpr hu).symm.trans ((exact v).mpr hv))

/-- A definition whose initial value has operators of all levels. -/
def mixed : Source.File :=
  { id := 0
    path := "mixed.c"
    content := Bytes.ofString "int x = 1 || 2 && 3 == 4 < 5 - 6 - 7 * -8;"
    flags := default }

/-- The same definition, where the last operator has no second operand. -/
def cut : Source.File :=
  { mixed with content := Bytes.ofString "int x = 1 || 2 && 3 == 4 < 5 - 6 - 7 *;" }

/-- The operators of the first file bind as their levels say, those of one level from left to right;
what is dumped has all parentheses. No tree is spelled by the second file. -/
theorem mixed_spelled : (∃ u, Grammar.Spells true (.ofFile mixed) u ∧
    u.dump.toOption = some
      "CompUnit\n  Decl int\n    x = (1 || (2 && (3 == (4 < ((5 - 6) - (7 * (-8)))))))\n") ∧
    ¬ ∃ u, Grammar.Spells false (.ofFile cut) u := by
  have dumped : ((Parsed.ofLexed (.ofFile mixed) false).result.toOption.bind
      (·.dump.toOption)) = some
        "CompUnit\n  Decl int\n    x = (1 || (2 && (3 == (4 < ((5 - 6) - (7 * (-8)))))))\n" := by
    decide +kernel
  have refused : (Parsed.ofLexed (.ofFile cut) false).result.toOption.isNone := by decide +kernel
  constructor
  · cases parsed : (Parsed.ofLexed (.ofFile mixed) false).result with
    | error e =>
      rw [parsed] at dumped
      cases dumped
    | ok u =>
      rw [parsed] at dumped
      exact ⟨u, ((parsed_iff_spelled mixed).2.1 u).mp parsed, dumped⟩
  · rw [← (parsed_iff_spelled cut).1]
    rintro ⟨u, parsed⟩
    rw [parsed] at refused
    cases refused

end SysY

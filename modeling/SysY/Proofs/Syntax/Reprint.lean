import SysY.Proofs.Syntax.Blank
import SysY.Proofs.Syntax.Nesting
import SysY.Proofs.Token.Laying
import SysY.Proofs.Token.Literal
import SysY.Syntax.Dump

/-! # Dumped expressions parse back

The text of an expression is laid out as tokens that spell the same expression, but for the
parentheses that the dump adds and those that it leaves out. Whatever the text consists of, each
part of it is laid out first, and its tokens are then put together as the grammar asks. -/

namespace SysY

open Grammar

/-! ## What is compared -/

mutual

/-- An expression without the parentheses in it. -/
def Expr.ungroup : Expr → Expr
  | .call s name nameSpan args => .call s name nameSpan (Expr.ungroupAll args)
  | .binary s op left right => .binary s op left.ungroup right.ungroup
  | .unary s op operand => .unary s op operand.ungroup
  | .group _ inner => inner.ungroup
  | .index s target idx => .index s target.ungroup idx.ungroup
  | .ident s name => .ident s name
  | .lit s value => .lit s value
  | .bare s kind => .bare s kind
  | .missing id => .missing id

/-- Expressions without the parentheses in them. -/
def Expr.ungroupAll : List Expr → List Expr
  | [] => []
  | e :: es => e.ungroup :: Expr.ungroupAll es

end

mutual

/-- The values of the literals in an expression. -/
def Expr.literals : Expr → List Int32
  | .lit _ value => [value]
  | .call _ _ _ args => Expr.literalsAll args
  | .binary _ _ left right => left.literals ++ right.literals
  | .unary _ _ operand => operand.literals
  | .group _ inner => inner.literals
  | .index _ target idx => target.literals ++ idx.literals
  | .ident .. | .bare .. | .missing _ => []

/-- The values of the literals in expressions. -/
def Expr.literalsAll : List Expr → List Int32
  | [] => []
  | e :: es => e.literals ++ Expr.literalsAll es

end

namespace Expr

/-- What an expression says: no parentheses, and no spans. -/
def core (e : Expr) : Expr := e.ungroup.blank

theorem ungroupAll_eq_map (es : List Expr) : ungroupAll es = es.map ungroup := by
  induction es with
  | nil => rfl
  | cons e es ih => rw [ungroupAll, ih, List.map_cons]

theorem core_call (s : Source.Span) (name : String) (nameSpan : Source.Span) (args : List Expr) :
    (call s name nameSpan args).core = .call {} name {} (args.map core) := by
  rw [core, ungroup, blank, blankAll_eq_map, ungroupAll_eq_map, List.map_map]
  rfl

/-- No literal in an expression is negative. -/
def NonNegative (e : Expr) : Prop := ∀ v ∈ e.literals, 0 ≤ v.toInt

end Expr

/-! ## Single tokens -/

section Tokens

variable {rest : Bytes}

theorem Bytes.ofString_space : Bytes.ofString " " = [32] := by decide +kernel

theorem Bytes.ofString_lParen : Bytes.ofString "(" = [40] := by decide +kernel

theorem Token.Kind.ne_invalid_of_isPunctuation {k : Token.Kind} (h : k.isPunctuation = true) :
    k ≠ .invalid := by
  rintro rfl
  cases h

/-- A sign begins with nothing that continues a name. -/
theorem Scan.sign_first {k : Token.Kind} (isSign : k.isPunctuation = true) :
    ∃ b part, Bytes.ofString k.name = b :: part ∧ isNamePart b = false := by
  rcases spelled_cases isSign with ⟨b, spelled, found⟩ | ⟨b, c, spelled, found⟩
  · exact ⟨b, [], spelled, (single?_first found).1⟩
  · exact ⟨b, [c], spelled, (pair?_first found).1⟩

/-- What follows is something, and it does not continue a name. -/
def Scan.Breaks (rest : Bytes) : Prop := ∃ c ∈ rest.head?, isNamePart c = false

namespace Scan.Breaks

variable {bs : Bytes}

theorem all (h : Breaks bs) : ∀ c ∈ bs.head?, isNamePart c = false := by
  obtain ⟨c, mem, notPart⟩ := h
  rw [Option.mem_def.mp mem]
  rintro _ ⟨⟩
  exact notPart

theorem append (h : Breaks bs) (rest : Bytes) : Breaks (bs ++ rest) := by
  obtain ⟨c, mem, notPart⟩ := h
  exact ⟨c, by simp [List.head?_append, Option.mem_def.mp mem], notPart⟩

theorem sign {k : Token.Kind} (isSign : k.isPunctuation = true) :
    Breaks (Bytes.ofString k.name) := by
  obtain ⟨b, part, bytes, notPart⟩ := sign_first isSign
  rw [bytes]
  exact ⟨b, rfl, notPart⟩

theorem space : Breaks (Bytes.ofString " ") := by
  rw [Bytes.ofString_space]
  exact ⟨32, rfl, rfl⟩

end Scan.Breaks

theorem Scan.blank_space : Blank (Bytes.ofString " ") := by
  rw [Bytes.ofString_space]
  exact .space rfl .none

/-- The signs of one byte with which no other sign begins. -/
def Token.Kind.isSeparator : Token.Kind → Bool
  | .lParen | .rParen | .lBracket | .rBracket | .comma | .semicolon => true
  | _ => false

theorem Token.Kind.isSeparator_byte {k : Token.Kind} (isSeparator : k.isSeparator = true) :
    k.isPunctuation = true ∧ ∃ b, Bytes.ofString k.name = [b] ∧ b ≠ 47 ∧
      ∀ c, Scan.pair? b c = none := by
  have isSign : k.isPunctuation = true := by cases k <;> first | rfl | cases isSeparator
  refine ⟨isSign, ?_⟩
  rcases Scan.spelled_cases isSign with ⟨b, spelled, found⟩ | ⟨b, c, spelled, found⟩
  · refine ⟨b, spelled, ?_⟩
    unfold Scan.single? at found
    split at found <;> cases found <;>
      first | exact absurd isSeparator (by decide) | exact ⟨by decide, fun _ => rfl⟩
  · unfold Scan.pair? at found
    split at found <;> cases found <;> cases isSeparator

/-- A separator is a token whatever follows. -/
theorem LaidOut.separator {k : Token.Kind} (isSeparator : k.isSeparator = true) :
    LaidOut (fun us => ∃ t : Token, us = [t] ∧ t.kind = k) (Bytes.ofString k.name) rest := by
  obtain ⟨isSign, b, bytes, other, noPair⟩ := Token.Kind.isSeparator_byte isSeparator
  obtain ⟨b', part, bytes', notPart⟩ := Scan.sign_first isSign
  cases bytes.symm.trans bytes'
  have ends : Scan.Ends [b] rest := .alone notPart noPair other rest
  have laid := LaidOut.token (.sign isSign) (Token.Kind.ne_invalid_of_isPunctuation isSign)
    (bytes ▸ ends)
  exact laid.mono fun us ⟨t, eq, kind, _⟩ => ⟨t, eq, kind⟩

/-- An operator in front of a byte that goes on from no sign. -/
theorem LaidOut.operator {k : Token.Kind} (isSign : k.isPunctuation = true)
    (loose : ∀ c ∈ rest.head?, Scan.Loose c) :
    LaidOut (fun us => ∃ t : Token, us = [t] ∧ t.kind = k) (Bytes.ofString k.name) rest := by
  obtain ⟨b, part, bytes, notPart⟩ := Scan.sign_first isSign
  have ends : Scan.Ends (Bytes.ofString k.name) rest := by
    rw [bytes]
    exact .of_sign (by rintro _ ⟨⟩; exact notPart) loose
  have laid := LaidOut.token (.sign isSign) (Token.Kind.ne_invalid_of_isPunctuation isSign) ends
  exact laid.mono fun us ⟨t, eq, kind, _⟩ => ⟨t, eq, kind⟩

/-- The text of a name. -/
theorem Scan.Lexical.of_ident {text : Bytes} (h : Lexical .ident text) :
    ∀ b ∈ text, isNamePart b = true := by
  generalize isIdent : Token.Kind.ident = k at h
  cases h with
  | word isWord all => exact List.forall_mem_cons.mpr ⟨by simp [isNamePart, isWord], all⟩
  | sign isSign => subst isIdent; cases isSign
  | number | malformed | unknown => cases isIdent

theorem Scan.ascii_of_isNamePart : ∀ b, isNamePart b = true → b < 128 :=
  Bytes.forall_byte (by decide +kernel)

theorem Bytes.ofString_name {t : Token} (isName : t.kind = .ident)
    (lexical : Scan.Lexical t.kind t.text) : Bytes.ofString t.name = t.text := by
  rw [isName] at lexical
  exact Bytes.ofString_latin fun b mem => Scan.ascii_of_isNamePart b (lexical.of_ident b mem)

/-- A name that a token spells. -/
theorem LaidOut.name {t : Token} (isName : t.kind = .ident) (lexical : Scan.Lexical t.kind t.text)
    (breaks : Scan.Breaks rest) :
    LaidOut (fun us => ∃ t' : Token, us = [t'] ∧ t'.kind = .ident ∧ t'.name = t.name)
      (Bytes.ofString t.name) rest := by
  rw [Bytes.ofString_name isName lexical]
  rw [isName] at lexical
  have part := lexical.of_ident
  have laid := LaidOut.token lexical (by decide)
    (.of_name (fun b mem => part b (List.mem_of_mem_head? mem)) breaks.all)
  exact laid.mono fun us ⟨t', eq, kind, text⟩ =>
    ⟨t', eq, kind, by rw [Token.name, Token.name, text]⟩

/-- The decimal digits of a number that is not negative. -/
theorem LaidOut.number {v : Int32} (nonneg : 0 ≤ v.toInt) (breaks : Scan.Breaks rest) :
    LaidOut (fun us => ∃ t : Token, us = [t] ∧ t.kind = .intLit ∧ Literal.read t.text = .ok v)
      (Bytes.ofString (toString v.toInt)) rest := by
  obtain ⟨n, eq⟩ := Int.eq_ofNat_of_zero_le nonneg
  have small : n < 0x80000000 := by
    have := v.toInt_lt
    omega
  have same : v = Int32.ofNat n := by
    rw [← Int32.toInt_inj, Literal.toInt_ofNat (Nat.le_of_lt small), if_neg (by omega), eq]
  have text : toString v.toInt = n.repr := by rw [eq]; rfl
  rw [text]
  have read : Literal.read (Bytes.ofString n.repr) = .ok v :=
    Literal.read_eq_ok.mpr ⟨n, Literal.denotes_repr n, Nat.le_of_lt small, same⟩
  obtain ⟨b, part, bytes, all⟩ := Literal.repr_decimal n
  have isPart : ∀ c ∈ b :: part, Scan.isNamePart c = true := fun c mem => by
    simp [Scan.isNamePart, all c mem]
  rw [bytes] at read ⊢
  have lexical : Scan.Lexical .intLit (b :: part) :=
    .number (all b (by simp)) (fun c mem => isPart c (by simp [mem])) read
  have laid : LaidOut _ _ rest := .token lexical (by decide)
    (.of_name (fun c mem => isPart c (List.mem_of_mem_head? mem)) breaks.all)
  refine laid.mono ?_
  rintro us ⟨t, eq, kind, text⟩
  exact ⟨t, eq, kind, text ▸ read⟩

end Tokens

/-! ## Operators -/

theorem Grammar.Sign.spelling {k : Token.Kind} {op : UnaryOp} (h : Sign k op) :
    k.isPunctuation = true ∧ op.spelling = k.name := by
  cases h <;> decide

theorem Grammar.Operator.spelling {k : Token.Kind} {op : BinaryOp} {n : Nat}
    (h : Operator k op n) : k.isPunctuation = true ∧ op.spelling = k.name := by
  cases h <;> decide

theorem Scan.loose_space (bs rest : Bytes) :
    ∀ c ∈ (Bytes.ofString " " ++ bs ++ rest).head?, Loose c := by
  rw [Bytes.ofString_space]
  rintro _ ⟨⟩
  exact (loose_of_space 32 rfl).1

theorem Grammar.Primary.level {ts : List Token} {e : Expr} (h : Primary ts e) : Level 1 ts e :=
  Level.lower (.unary (.primary h)) (by decide)

/-! ## Expressions -/

/-- The text of an expression, wherever it stands in front of something that does not continue a
name, is read as tokens of the same expression, which `Q` relates to it. -/
structure Reprints (Q : List Token → Expr → Prop) (e : Expr) (text : String) : Prop where
  dump : e.dump = .ok text
  first : ∃ b ∈ (Bytes.ofString text).head?, b = 40 ∨ Scan.isNamePart b = true
  laid : ∀ rest, Scan.Breaks rest →
    LaidOut (fun us => ∃ e', Q us e' ∧ e'.core = e.core) (Bytes.ofString text) rest

/-- The texts of expressions with commas between them. -/
structure ReprintsAll (es : List Expr) (texts : List String) : Prop where
  dump : Expr.dumpList es = .ok texts
  laid : ∀ rest, Scan.Breaks rest →
    LaidOut (fun us => ∃ es', Commas (Level 1) us es' ∧ es'.map Expr.core = es.map Expr.core)
      (Bytes.ofString (String.intercalate ", " texts)) rest

namespace Reprints

variable {Q Q' : List Token → Expr → Prop} {e l r : Expr} {text : String} {s : Source.Span}

theorem mono (h : Reprints Q e text) (weaker : ∀ us e', Q us e' → Q' us e') :
    Reprints Q' e text where
  dump := h.dump
  first := h.first
  laid := fun rest breaks => (h.laid rest breaks).mono fun us ⟨e', is, same⟩ =>
    ⟨e', weaker us e' is, same⟩

/-- The dump leaves out the parentheses of the source. -/
theorem group (h : Reprints Q e text) : Reprints Q (.group s e) text where
  dump := h.dump
  first := h.first
  laid := h.laid

theorem number {v : Int32} (nonneg : 0 ≤ v.toInt) :
    Reprints Primary (.lit s v) (toString v.toInt) where
  dump := rfl
  first := by
    obtain ⟨n, eq⟩ := Int.eq_ofNat_of_zero_le nonneg
    obtain ⟨b, part, bytes, all⟩ := Literal.repr_decimal n
    have text : toString v.toInt = n.repr := by rw [eq]; rfl
    rw [text, bytes]
    exact ⟨b, rfl, .inr (by simp [Scan.isNamePart, all b (by simp)])⟩
  laid := fun rest breaks => (LaidOut.number nonneg breaks).mono fun us ⟨t, eq, kind, read⟩ =>
    ⟨.lit t.span v, eq ▸ .number kind read, rfl⟩

section Name

variable {t : Token} (isName : t.kind = .ident) (lexical : Scan.Lexical t.kind t.text)

include isName lexical

theorem name_first : ∃ b ∈ (Bytes.ofString t.name).head?, Scan.isNamePart b = true := by
  have bytes := Bytes.ofString_name isName lexical
  rw [isName] at lexical
  obtain ⟨b, part, eq, -⟩ := lexical.first
  rw [bytes, eq]
  exact ⟨b, rfl, lexical.of_ident b (by simp [eq])⟩

theorem name : Reprints Named (.ident s t.name) t.name where
  dump := rfl
  first := by
    obtain ⟨b, mem, isPart⟩ := name_first isName lexical
    exact ⟨b, mem, .inr isPart⟩
  laid := fun rest breaks =>
    (LaidOut.name isName lexical breaks).mono fun us ⟨t', eq, kind, same⟩ =>
    ⟨.ident t'.span t'.name, eq ▸ .name kind, by rw [same]; rfl⟩

end Name

/-- One more subscript. -/
theorem index {idx : Expr} {target : String} (h : Reprints Named e target)
    (hIdx : Reprints Primary idx text) :
    Reprints Named (.index s e idx) (target ++ "[" ++ text ++ "]") where
  dump := Except.bind_eq_ok.mpr ⟨_, h.dump, Except.bind_eq_ok.mpr ⟨_, hIdx.dump, rfl⟩⟩
  first := by
    obtain ⟨b, mem, isFirst⟩ := h.first
    refine ⟨b, ?_, isFirst⟩
    simp only [Bytes.ofString_append, List.head?_append, Option.mem_def.mp mem]
    rfl
  laid := fun rest breaks => by
    simp only [Bytes.ofString_append, List.append_assoc]
    refine ((h.laid _ (((Scan.Breaks.sign (k := .lBracket) rfl).append _).append _)).append
      ((LaidOut.separator (k := .lBracket) rfl).append
        ((hIdx.laid _ ((Scan.Breaks.sign (k := .rBracket) rfl).append _)).append
          (LaidOut.separator (k := .rBracket) rfl)))).mono ?_
    rintro _ ⟨ts, _, rfl, ⟨e', isTarget, sameTarget⟩, _, _, rfl, ⟨opening, rfl, isOpen⟩, us, _, rfl,
      ⟨idx', isIdx, sameIdx⟩, close, rfl, isClose⟩
    refine ⟨.index (e'.span.cover close.span) e' idx', ?_, ?_⟩
    · simpa using Named.index isTarget isOpen isIdx.level isClose
    · exact congrArg₂ (Expr.index {}) sameTarget sameIdx

theorem unary {k : Token.Kind} {op : UnaryOp} (sign : Sign k op)
    (h : Reprints Primary e text) :
    Reprints Primary (.unary s op e) ("(" ++ op.spelling ++ text ++ ")") where
  dump := Except.bind_eq_ok.mpr ⟨_, h.dump, rfl⟩
  first := ⟨40, by simp [Bytes.ofString_append, Bytes.ofString_lParen], .inl rfl⟩
  laid := fun rest breaks => by
    obtain ⟨isSign, spelling⟩ := sign.spelling
    have loose (cs : Bytes) : ∀ c ∈ (Bytes.ofString text ++ cs).head?, Scan.Loose c := by
      obtain ⟨b, mem, isFirst⟩ := h.first
      rw [List.head?_append, Option.mem_def.mp mem]
      rintro _ ⟨⟩
      rcases isFirst with rfl | isPart
      · unfold Scan.Loose
        decide
      · exact Scan.loose_of_isNamePart b isPart
    simp only [Bytes.ofString_append, List.append_assoc, spelling]
    refine ((LaidOut.separator (k := .lParen) rfl).append
      ((LaidOut.operator isSign (by rw [List.append_assoc]; exact loose _)).append
        ((h.laid _ ((Scan.Breaks.sign (k := .rParen) rfl).append _)).append
          (LaidOut.separator (k := .rParen) rfl)))).mono ?_
    rintro _ ⟨_, _, rfl, ⟨opening, rfl, isOpen⟩, _, _, rfl, ⟨t, rfl, isOp⟩, us, _, rfl,
      ⟨e', isOperand, same⟩, close, rfl, isClose⟩
    have isUnary : Grammar.Unary (t :: us) (.unary (t.span.cover e'.span) op e') :=
      .unary (isOp ▸ sign) (.primary isOperand)
    refine ⟨.group (opening.span.cover close.span) (.unary (t.span.cover e'.span) op e'), ?_, ?_⟩
    · simpa using Primary.group isOpen (Level.lower (.unary isUnary) (by decide)) isClose
    · exact congrArg (Expr.unary {} op) same

theorem binary {k : Token.Kind} {op : BinaryOp} {n : Nat} {left right : String}
    (operator : Operator k op n) (hl : Reprints Primary l left)
    (hr : Reprints Primary r right) :
    Reprints Primary (.binary s op l r)
      ("(" ++ left ++ " " ++ op.spelling ++ " " ++ right ++ ")") where
  dump := Except.bind_eq_ok.mpr ⟨_, hl.dump, Except.bind_eq_ok.mpr ⟨_, hr.dump, rfl⟩⟩
  first := ⟨40, by simp [Bytes.ofString_append, Bytes.ofString_lParen], .inl rfl⟩
  laid := fun rest breaks => by
    obtain ⟨isSign, spelling⟩ := operator.spelling
    simp only [Bytes.ofString_append, List.append_assoc, spelling]
    refine ((LaidOut.separator (k := .lParen) rfl).append
      ((hl.laid _ ((Scan.Breaks.space.append _).append _)).append
        (.blank Scan.blank_space ((LaidOut.operator isSign (Scan.loose_space _ _)).append
          (.blank Scan.blank_space
            ((hr.laid _ ((Scan.Breaks.sign (k := .rParen) rfl).append _)).append
              (LaidOut.separator (k := .rParen) rfl))))))).mono ?_
    rintro _ ⟨_, _, rfl, ⟨opening, rfl, isOpen⟩, us, _, rfl, ⟨l', isLeft, sameLeft⟩, _, _, rfl,
      ⟨t, rfl, isOp⟩, vs, _, rfl, ⟨r', isRight, sameRight⟩, close, rfl, isClose⟩
    have range := operator.range
    have isBinary : Level n (us ++ t :: vs) (.binary (l'.span.cover r'.span) op l' r') :=
      .binary (Level.lower (.unary (.primary isLeft)) (by omega)) (isOp ▸ operator)
        (Level.lower (.unary (.primary isRight)) (by omega))
    refine ⟨.group (opening.span.cover close.span) (.binary (l'.span.cover r'.span) op l' r'),
      ?_, ?_⟩
    · simpa using Primary.group isOpen (isBinary.lower range.1) isClose
    · exact congrArg₂ (Expr.binary {} op) sameLeft sameRight

section Call

variable {t : Token} (isName : t.kind = .ident) (lexical : Scan.Lexical t.kind t.text)

include isName lexical

theorem call_first (more : String) :
    ∃ b ∈ (Bytes.ofString (t.name ++ more)).head?, b = 40 ∨ Scan.isNamePart b = true := by
  obtain ⟨b, mem, isPart⟩ := name_first isName lexical
  exact ⟨b, by simp [Bytes.ofString_append, List.head?_append, Option.mem_def.mp mem], .inr isPart⟩

theorem call {nameSpan : Source.Span} :
    Reprints Primary (.call s t.name nameSpan []) (t.name ++ "(" ++ "" ++ ")") where
  dump := rfl
  first := by simpa [String.append_assoc] using call_first isName lexical ("(" ++ "" ++ ")")
  laid := fun rest breaks => by
    simp only [Bytes.ofString_append, List.append_assoc]
    have bytes : Bytes.ofString "" = [] := by decide +kernel
    rw [bytes, List.nil_append]
    refine ((LaidOut.name isName lexical
      (((Scan.Breaks.sign (k := .lParen) rfl).append _).append _)).append
        ((LaidOut.separator (k := .lParen) rfl).append
          (LaidOut.separator (k := .rParen) rfl))).mono ?_
    rintro _ ⟨_, _, rfl, ⟨t', rfl, isName', same⟩, _, _, rfl, ⟨opening, rfl, isOpen⟩, close, rfl,
      isClose⟩
    refine ⟨.call (t'.span.cover close.span) t'.name t'.span [], .call isName' isOpen isClose, ?_⟩
    rw [same]
    rfl

theorem callWith {nameSpan : Source.Span} {args : List Expr} {texts : List String}
    (h : ReprintsAll args texts) :
    Reprints Primary (.call s t.name nameSpan args)
      (t.name ++ "(" ++ String.intercalate ", " texts ++ ")") where
  dump := Except.bind_eq_ok.mpr ⟨_, h.dump, rfl⟩
  first := by
    simpa [String.append_assoc] using
      call_first isName lexical ("(" ++ String.intercalate ", " texts ++ ")")
  laid := fun rest breaks => by
    simp only [Bytes.ofString_append, List.append_assoc]
    refine ((LaidOut.name isName lexical
      (((Scan.Breaks.sign (k := .lParen) rfl).append _).append _)).append
        ((LaidOut.separator (k := .lParen) rfl).append
          ((h.laid _ ((Scan.Breaks.sign (k := .rParen) rfl).append _)).append
            (LaidOut.separator (k := .rParen) rfl)))).mono ?_
    rintro _ ⟨_, _, rfl, ⟨t', rfl, isName', same⟩, _, _, rfl, ⟨opening, rfl, isOpen⟩, us, _, rfl,
      ⟨args', areArgs, sameArgs⟩, close, rfl, isClose⟩
    refine ⟨.call (t'.span.cover close.span) t'.name t'.span args', ?_, ?_⟩
    · simpa using Primary.callWith isName' isOpen areArgs isClose
    · rw [Expr.core_call, Expr.core_call, same, sameArgs]

end Call

end Reprints

theorem ReprintsAll.one {e : Expr} {text : String} (h : Reprints Primary e text) :
    ReprintsAll [e] [text] where
  dump := Except.bind_eq_ok.mpr ⟨_, h.dump, rfl⟩
  laid := fun rest breaks => by
    rw [String.intercalate_singleton]
    refine (h.laid rest breaks).mono ?_
    rintro us ⟨e', isArg, same⟩
    exact ⟨[e'], .one isArg.level, by simp [same]⟩

theorem ReprintsAll.more {e : Expr} {es : List Expr} {text : String} {texts : List String}
    (h : Reprints Primary e text) (hs : ReprintsAll es texts) (ne : texts ≠ []) :
    ReprintsAll (e :: es) (text :: texts) where
  dump := Except.bind_eq_ok.mpr ⟨_, h.dump, Except.bind_eq_ok.mpr ⟨_, hs.dump, rfl⟩⟩
  laid := fun rest breaks => by
    have comma : Bytes.ofString ", " = Bytes.ofString "," ++ Bytes.ofString " " := by
      decide +kernel
    rw [String.intercalate_cons_of_ne_nil ne]
    simp only [Bytes.ofString_append, comma, List.append_assoc]
    refine ((h.laid _ (((Scan.Breaks.sign (k := .comma) rfl).append _).append _)).append
      ((LaidOut.separator (k := .comma) rfl).append
        (.blank Scan.blank_space (hs.laid rest breaks)))).mono ?_
    rintro _ ⟨ts, _, rfl, ⟨e', isArg, same⟩, _, us, rfl, ⟨t, rfl, isComma⟩, es', areMore, sameAll⟩
    exact ⟨e' :: es', .more isArg.level isComma areMore, by simp [same, sameAll]⟩

/-! ## Parsed expressions -/

/-- Tokens that are what their texts say. -/
def AllLexical (ts : List Token) : Prop := ∀ t ∈ ts, Scan.Lexical t.kind t.text

theorem AllLexical.append {ts us : List Token} (h : AllLexical (ts ++ us)) :
    AllLexical ts ∧ AllLexical us := List.forall_mem_append.mp h

theorem AllLexical.cons {t : Token} {ts : List Token} (h : AllLexical (t :: ts)) :
    Scan.Lexical t.kind t.text ∧ AllLexical ts := List.forall_mem_cons.mp h

theorem Expr.NonNegative.binary {s : Source.Span} {op : BinaryOp} {l r : Expr}
    (h : (Expr.binary s op l r).NonNegative) : l.NonNegative ∧ r.NonNegative :=
  List.forall_mem_append.mp h

theorem Expr.NonNegative.index {s : Source.Span} {target idx : Expr}
    (h : (Expr.index s target idx).NonNegative) : target.NonNegative ∧ idx.NonNegative :=
  List.forall_mem_append.mp h

namespace Grammar

mutual

theorem Level.reprints : ∀ {n ts e}, Level n ts e → AllLexical ts → e.NonNegative →
    ∃ text, Reprints Primary e text
  | _, _, _, .unary h, lexical, nonneg => Unary.reprints h lexical nonneg
  | _, _, _, .tighter _ h, lexical, nonneg => Level.reprints h lexical nonneg
  | _, _, _, .binary isLeft operator isRight, lexical, nonneg => by
    obtain ⟨left, hl⟩ := Level.reprints isLeft lexical.append.1 nonneg.binary.1
    obtain ⟨right, hr⟩ := Level.reprints isRight lexical.append.2.cons.2 nonneg.binary.2
    exact ⟨_, .binary operator hl hr⟩

theorem Unary.reprints : ∀ {ts e}, Unary ts e → AllLexical ts → e.NonNegative →
    ∃ text, Reprints Primary e text
  | _, _, .primary h, lexical, nonneg => Primary.reprints h lexical nonneg
  | _, _, .unary sign h, lexical, nonneg => by
    obtain ⟨text, h⟩ := Unary.reprints h lexical.cons.2 nonneg
    exact ⟨_, .unary sign h⟩

theorem Primary.reprints : ∀ {ts e}, Primary ts e → AllLexical ts → e.NonNegative →
    ∃ text, Reprints Primary e text
  | _, _, .group _ inner _, lexical, nonneg => by
    obtain ⟨text, h⟩ := Level.reprints inner lexical.append.1.cons.2 nonneg
    exact ⟨text, h.group⟩
  | _, _, .number _ _, _, nonneg => ⟨_, .number (nonneg _ (by simp [Expr.literals]))⟩
  | _, _, .call isName _ _, lexical, _ => ⟨_, .call isName lexical.cons.1⟩
  | _, _, .callWith isName _ areArgs _, lexical, nonneg => by
    obtain ⟨texts, -, h⟩ := Commas.reprints areArgs lexical.append.1.cons.2.cons.2 nonneg
    exact ⟨_, .callWith isName lexical.append.1.cons.1 h⟩
  | _, _, .named h, lexical, nonneg => by
    obtain ⟨text, h⟩ := Named.reprints h lexical nonneg
    exact ⟨text, h.mono fun _ _ => .named⟩

theorem Named.reprints : ∀ {ts e}, Named ts e → AllLexical ts → e.NonNegative →
    ∃ text, Reprints Named e text
  | _, _, .name isName, lexical, _ => ⟨_, .name isName lexical.cons.1⟩
  | _, _, .index isTarget _ isIdx _, lexical, nonneg => by
    obtain ⟨target, h⟩ := Named.reprints isTarget lexical.append.1.append.1 nonneg.index.1
    obtain ⟨idx, hIdx⟩ := Level.reprints isIdx lexical.append.1.append.2.cons.2 nonneg.index.2
    exact ⟨_, h.index hIdx⟩

theorem Commas.reprints : ∀ {ts es}, Commas (Level 1) ts es → AllLexical ts →
    (∀ v ∈ Expr.literalsAll es, 0 ≤ v.toInt) → ∃ texts, texts ≠ [] ∧ ReprintsAll es texts
  | _, _, .one isArg, lexical, nonneg => by
    obtain ⟨text, h⟩ := Level.reprints isArg lexical (List.forall_mem_append.mp nonneg).1
    exact ⟨[text], nofun, .one h⟩
  | _, _, .more isArg _ areMore, lexical, nonneg => by
    obtain ⟨first, later⟩ := List.forall_mem_append.mp nonneg
    obtain ⟨text, h⟩ := Level.reprints isArg lexical.append.1 first
    obtain ⟨texts, ne, hs⟩ := Commas.reprints areMore lexical.append.2.cons.2 later
    exact ⟨text :: texts, nofun, .more h hs ne⟩

end

end Grammar

/-! ## Files -/

theorem Tiles.lexical {file offset : Nat} {bs : Bytes} {ts : List Token}
    (h : Tiles file offset bs ts) : ∀ t ∈ ts, t.kind ≠ .eof → Scan.Lexical t.kind t.text := by
  induction h with
  | last => simp
  | token _ _ longest _ ih => exact List.forall_mem_cons.mpr ⟨fun _ => longest.lexical, ih⟩

theorem Lexed.ofFile_lexical (f : Source.File) : AllLexical (Lexed.ofFile f).tokens := by
  have tiles : Tiles f.id 0 f.content (Lexer.ofFile f).drain.1 := (Lexer.ofFile f).drain_tiles rfl
  intro t mem
  have kind := ((Lexed.ofFile_tokens f).2 t mem).1
  exact tiles.lexical t ((List.dropLast_sublist _).subset mem) kind

theorem Scan.lexical_int : Lexical .kwInt (Bytes.ofString "int") := by
  have bytes : Bytes.ofString "int" = [105, 110, 116] := by decide +kernel
  have kind : Token.Kind.ofWord (Bytes.latin [105, 110, 116]) = .kwInt := by decide +kernel
  have word := @Lexical.word 105 [110, 116] rfl (List.all_eq_true.mp (by decide +kernel))
  rwa [kind, ← bytes] at word

theorem Scan.lexical_x : Lexical .ident (Bytes.ofString "x") := by
  have bytes : Bytes.ofString "x" = [120] := by decide +kernel
  have kind : Token.Kind.ofWord (Bytes.latin [120]) = .ident := by decide +kernel
  have word := @Lexical.word 120 [] rfl nofun
  rwa [kind, ← bytes] at word

/-- The declaration of a variable `x` with an initializer. -/
def xDecl (span nameSpan : Source.Span) (e : Expr) : Decl :=
  { isConst := false
    type := .int
    span := span
    defs := [{ name := "x", nameSpan := nameSpan, init := some (.expr e.span e) }] }

theorem LaidOut.declaration {e : Expr} {text : String} (h : Reprints Primary e text) :
    LaidOut (fun us => ∃ span nameSpan e', Declaration us (xDecl span nameSpan e') ∧
        e'.core = e.core)
      (Bytes.ofString ("int x = " ++ text ++ ";")) [] := by
  have front : Bytes.ofString "int x = " =
      Bytes.ofString "int" ++ (Bytes.ofString " " ++ (Bytes.ofString "x" ++
        (Bytes.ofString " " ++ (Bytes.ofString "=" ++ Bytes.ofString " ")))) := by
    decide +kernel
  have isPart (text : String) (all : (Bytes.ofString text).all Scan.isNamePart = true) :
      ∀ b ∈ (Bytes.ofString text).head?, Scan.isNamePart b = true := fun b mem =>
    List.all_eq_true.mp all b (List.mem_of_mem_head? mem)
  simp only [Bytes.ofString_append, front, List.append_assoc]
  refine ((LaidOut.token Scan.lexical_int (by decide)
      (.of_name (isPart _ (by decide +kernel)) ((Scan.Breaks.space.append _).append _).all)).append
    (.blank Scan.blank_space ((LaidOut.token Scan.lexical_x (by decide)
      (.of_name (isPart _ (by decide +kernel)) ((Scan.Breaks.space.append _).append _).all)).append
    (.blank Scan.blank_space ((LaidOut.operator (k := .assign) rfl (Scan.loose_space _ _)).append
    (.blank Scan.blank_space ((h.laid _ ((Scan.Breaks.sign (k := .semicolon) rfl).append _)).append
      (LaidOut.separator (k := .semicolon) rfl)))))))).mono ?_
  rintro _ ⟨_, _, rfl, ⟨base, rfl, isBase, -⟩, _, _, rfl, ⟨name, rfl, isName, named⟩, _, _, rfl,
    ⟨assign, rfl, isAssign⟩, us, _, rfl, ⟨e', isExpr, same⟩, close, rfl, isClose⟩
  have name_eq : name.name = "x" := by
    rw [Token.name, named]
    decide +kernel
  have isDef := Definition.init isName .none isAssign (.value isExpr.level)
  rw [name_eq] at isDef
  have isDecl := Declaration.vars (by rw [isBase]; rfl : baseType? base.kind = some .int)
    (.one isDef) isClose
  exact ⟨_, _, e', by simpa [xDecl] using isDecl, same⟩

/-- Dumped expressions parse back. The text of every expression of a unit that is parsed, provided
that no literal in it is negative, is read without errors as the initializer of a variable, and the
expression there is the same one, but for its spans and for parentheses. -/
theorem dump_parses_back {f : Source.File} {u : CompUnit} {e : Expr}
    (parsed : (Parsed.ofLexed (.ofFile f) false).result = .ok u) (occurs : Occurs u (.expr e))
    (nonneg : e.NonNegative) :
    ∃ text, e.dump = .ok text ∧ ∀ g : Source.File,
      g.content = Bytes.ofString ("int x = " ++ text ++ ";") →
        (Lexed.ofFile g).errors = [] ∧
        ∃ v itemSpan span nameSpan e', (Parsed.ofLexed (.ofFile g) false).result = .ok v ∧
          v.items = [.decl itemSpan (some (xDecl span nameSpan e'))] ∧ e'.core = e.core := by
  obtain ⟨ts, within, spelled⟩ := occurs.spelled (Parsed.spells parsed).1
  have lexical : AllLexical ts := fun t mem => Lexed.ofFile_lexical f t (within.subset mem)
  cases spelled with
  | expr isExpr =>
    obtain ⟨text, h⟩ := isExpr.reprints lexical nonneg
    refine ⟨text, h.dump, fun g content => ?_⟩
    have laid := LaidOut.declaration h
    rw [← content] at laid
    obtain ⟨⟨span, nameSpan, e', isDecl, same⟩, errors⟩ := laid.lexed
    have items : Items true (Lexed.ofFile g).tokens
        [.decl (extent (Lexed.ofFile g).tokens) (some (xDecl span nameSpan e'))] := by
      simpa using Items.more (.decl isDecl) .none
    obtain ⟨unitSpan, accepted⟩ := Parsed.of_items items
    exact ⟨errors, _, _, span, nameSpan, e', accepted, rfl, same⟩

/-- A declaration with an expression of every form. -/
def everyForm : Source.File :=
  { id := 0
    path := "forms.c"
    content := Bytes.ofString "int y = -(a[0x10] + f(2, !b, g())) * 3 <= y || (y);"
    flags := default }

/-- The initializer of the only variable of a unit. -/
def soleInitializer? (u : CompUnit) : Option Expr :=
  match u.items with
  | [.decl _ (some ⟨_, _, _, [⟨_, _, _, some (.expr _ e)⟩]⟩)] => some e
  | _ => none

theorem occurs_soleInitializer {u : CompUnit} {e : Expr} (h : soleInitializer? u = some e) :
    Occurs u (.expr e) := by
  unfold soleInitializer? at h
  split at h
  · rename_i s e' found
    cases h
    have item : Occurs u _ := .item (found ▸ List.mem_singleton_self _)
    have decl := Occurs.child item (List.mem_singleton_self _)
    have init := Occurs.child (m := .init (.expr s e)) decl (by simp [Node.children, Node.ofDef])
    exact .child init (List.mem_singleton_self _)
  · cases h

theorem everyForm_parses_back : ∃ u e text,
    (Parsed.ofLexed (.ofFile everyForm) false).result = .ok u ∧ Occurs u (.expr e) ∧
      e.dump = .ok text ∧ ∀ g : Source.File,
        g.content = Bytes.ofString ("int x = " ++ text ++ ";") →
          ∃ v, (Parsed.ofLexed (.ofFile g) false).result = .ok v ∧
            (soleInitializer? v).map Expr.core = some e.core := by
  have accepted : ((Parsed.ofLexed (.ofFile everyForm) false).result.toOption.bind
      soleInitializer?).any (fun e => e.literals.all fun v => 0 ≤ v.toInt) = true := by
    decide +kernel
  obtain ⟨e, found, nonneg⟩ := Option.any_eq_true _ _ |>.mp accepted
  obtain ⟨u, parsed, found⟩ := Option.bind_eq_some_iff.mp found
  cases result : (Parsed.ofLexed (.ofFile everyForm) false).result with
  | ok u' =>
    rw [result] at parsed
    cases parsed
    have occurs := occurs_soleInitializer found
    have nonneg : e.NonNegative := fun v mem => by simpa using List.all_eq_true.mp nonneg v mem
    obtain ⟨text, dump, back⟩ := dump_parses_back result occurs nonneg
    refine ⟨u, e, text, rfl, occurs, dump, fun g content => ?_⟩
    obtain ⟨-, v, _, _, _, e', parsed, items, same⟩ := back g content
    exact ⟨v, parsed, by simp [soleInitializer?, items, xDecl, same]⟩
  | error err =>
    rw [result] at parsed
    cases parsed

end SysY

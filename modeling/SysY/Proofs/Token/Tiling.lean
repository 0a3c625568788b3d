import Mathlib.Data.List.Basic
import Mathlib.Data.List.TakeWhile
import SysY.Proofs.Token.Issues

/-! # Tokens tile a file

A file is read as tokens with gaps between them. A gap consists of white space and comments, each
token is the longest one that begins where it stands, and after the last token at most one comment
is not closed. Main result: the tokens that are read are the only ones that tile a file in this
way. -/

namespace SysY

namespace Scan

/-! ## Gaps -/

/-- White space or a comment begins here. -/
inductive Opens : Bytes → Prop
  | space {b : UInt8} {rest : Bytes} : isSpace b = true → Opens (b :: rest)
  | line {rest : Bytes} : Opens (47 :: 47 :: rest)
  | block {rest : Bytes} : Opens (47 :: 42 :: rest)

theorem not_opens_nil : ¬ Opens [] := by
  intro h
  cases h

/-- White space and whole comments. A line comment ends in front of a newline, and a block comment
at the first `*/`. -/
inductive Blank : Bytes → Prop
  | none : Blank []
  | space {b : UInt8} {g : Bytes} : isSpace b = true → Blank g → Blank (b :: g)
  | line {text g : Bytes} : 10 ∉ text → g.head? = some 10 → Blank g →
      Blank (47 :: 47 :: (text ++ g))
  | block {text g : Bytes} : ¬ [42, 47] <:+: text ++ [42] → Blank g →
      Blank (47 :: 42 :: (text ++ 42 :: 47 :: g))

/-- What stands after the last token: a gap, and perhaps a comment that the end of the file ends. -/
inductive Ending : Bytes → Prop
  | blank {g : Bytes} : Blank g → Ending g
  | line {g text : Bytes} : Blank g → 10 ∉ text → Ending (g ++ 47 :: 47 :: text)
  | unclosed {g text : Bytes} : Blank g → ¬ [42, 47] <:+: text → Ending (g ++ 47 :: 42 :: text)

theorem infix_close_cons {b : UInt8} {rest : Bytes} :
    [42, 47] <:+: b :: rest ↔ b = 42 ∧ rest.head? = some 47 ∨ [42, 47] <:+: rest := by
  rw [List.infix_cons_iff, List.cons_prefix_cons, eq_comm]
  cases rest with
  | nil => simp
  | cons c rest => simp [List.cons_prefix_cons, eq_comm (a := c)]

/-- The text of a block comment reaches to the first `*/`. -/
theorem commentLength?_some {body : Bytes} {n : Nat} (h : commentLength? body = some n) :
    ∃ text, body = text ++ 42 :: 47 :: body.drop n ∧ n = text.length + 2 ∧
      ¬ [42, 47] <:+: text ++ [42] := by
  fun_induction commentLength? body generalizing n with
  | case1 rest =>
    cases h
    exact ⟨[], rfl, rfl, by simp [infix_close_cons]⟩
  | case2 b rest notClose ih =>
    obtain ⟨m, inner, rfl⟩ := Option.map_eq_some_iff.mp h
    obtain ⟨text, eq, rfl, unclosed⟩ := ih inner
    refine ⟨b :: text, by rw [List.drop_succ_cons, List.cons_append, ← eq], rfl, ?_⟩
    rw [List.cons_append, infix_close_cons]
    rintro (⟨rfl, slash⟩ | later)
    · cases text with
      | nil => cases slash
      | cons c text =>
        cases slash
        exact notClose _ rfl eq
    · exact unclosed later
  | case3 => cases h

theorem commentLength?_none {body : Bytes} (h : commentLength? body = none) :
    ¬ [42, 47] <:+: body := by
  fun_induction commentLength? body with
  | case1 => cases h
  | case2 b rest notClose ih =>
    rw [infix_close_cons]
    rintro (⟨rfl, slash⟩ | later)
    · obtain ⟨more, rfl⟩ := List.head?_eq_some_iff.mp slash
      exact notClose more rfl rfl
    · exact ih (Option.map_eq_none_iff.mp h) later
  | case3 => simp

theorem commentLength?_close {text : Bytes} (unclosed : ¬ [42, 47] <:+: text ++ [42])
    (rest : Bytes) : commentLength? (text ++ 42 :: 47 :: rest) = some (text.length + 2) := by
  induction text with
  | nil => rfl
  | cons b text ih =>
    rw [List.cons_append, infix_close_cons, not_or] at unclosed
    rw [List.cons_append, commentLength?, ih unclosed.2]
    · rfl
    · rintro more rfl eq
      cases text with
      | nil => cases eq
      | cons c text =>
        cases eq
        exact unclosed.1 ⟨rfl, rfl⟩

theorem commentLength?_unclosed {text : Bytes} (unclosed : ¬ [42, 47] <:+: text) :
    commentLength? text = none := by
  cases found : commentLength? text with
  | none => rfl
  | some n =>
    obtain ⟨front, eq, -⟩ := commentLength?_some found
    exact absurd ⟨front, _, by rw [List.append_assoc]; exact eq.symm⟩ unclosed

theorem Blank.append {g g' : Bytes} (h : Blank g) (h' : Blank g') : Blank (g ++ g') := by
  induction h with
  | none => exact h'
  | space isSpace _ ih => exact .space isSpace ih
  | line plain starts _ ih =>
    rw [List.cons_append, List.cons_append, List.append_assoc]
    exact .line plain (by simp [starts]) ih
  | block unclosed _ ih =>
    rw [List.cons_append, List.cons_append, List.append_assoc]
    exact .block unclosed ih

theorem Ending.after {g bs : Bytes} (h : Blank g) (h' : Ending bs) : Ending (g ++ bs) := by
  cases h' with
  | blank h' => exact .blank (h.append h')
  | line h' plain => rw [← List.append_assoc]; exact .line (h.append h') plain
  | unclosed h' unclosed => rw [← List.append_assoc]; exact .unclosed (h.append h') unclosed

theorem Ending.afterLine {text g : Bytes} (plain : 10 ∉ text) (starts : g.head? = some 10)
    (h : Ending g) : Ending (47 :: 47 :: (text ++ g)) := by
  have front {front back : Bytes} (other : back.head? ≠ some 10)
      (starts : (front ++ back).head? = some 10) : front.head? = some 10 := by
    cases front with
    | nil => exact absurd starts other
    | cons b front => exact starts
  cases h with
  | blank blank => exact .blank (.line plain starts blank)
  | line blank plain' =>
    have blank := Blank.line plain (front (by simp) starts) blank
    rw [← List.append_assoc, ← List.cons_append, ← List.cons_append]
    exact .line blank plain'
  | unclosed blank unclosed =>
    have blank := Blank.line plain (front (by simp) starts) blank
    rw [← List.append_assoc, ← List.cons_append, ← List.cons_append]
    exact .unclosed blank unclosed

/-- A line ends in front of a newline, or at the end. -/
theorem line_splits (line : Bytes) : ∃ text rest, line = text ++ rest ∧
    line.takeWhile (· ≠ 10) = text ∧ 10 ∉ text ∧ (rest = [] ∨ rest.head? = some 10) := by
  refine ⟨_, line.dropWhile (· ≠ 10), List.takeWhile_append_dropWhile.symm, rfl, ?_, ?_⟩
  · intro mem
    simpa using List.mem_takeWhile_imp mem
  · cases rest : line.dropWhile (· ≠ 10) with
    | nil => exact .inl rfl
    | cons b rest =>
      have newline := List.head_dropWhile_not (· ≠ (10 : UInt8)) (by rw [rest]; exact nofun)
      simp only [rest, List.head_cons] at newline
      exact .inr (by simpa using newline)

/-- White space and comments that are skipped are a gap, and none is left. -/
theorem gap_splits (bs : Bytes) : ∃ g rest, bs = g ++ rest ∧ (gap bs).length = g.length ∧
    ¬ Opens rest ∧ (Blank g ∨ rest = [] ∧ Ending g) := by
  fun_induction gap bs with
  | case1 => exact ⟨[], [], rfl, rfl, not_opens_nil, .inl .none⟩
  | case2 b rest isSpace ih =>
    obtain ⟨g, more, rfl, length, stops, reads⟩ := ih
    refine ⟨b :: g, more, rfl, by simp [Gap.shift, length, Nat.add_comm], stops, ?_⟩
    have first : Blank [b] := .space isSpace .none
    exact reads.imp first.append (And.imp_right (.after first))
  | case3 line n _ ih =>
    obtain ⟨text, after, whole, taken, plain, ends⟩ := line_splits line
    obtain ⟨g, more, rest, length, stops, reads⟩ := ih
    have here : line.drop n = after := by
      change line.drop (line.takeWhile (· ≠ 10)).length = after
      rw [taken, whole, List.drop_left]
    have size : n = text.length := congrArg List.length taken
    rw [here] at rest length ⊢
    refine ⟨47 :: 47 :: (text ++ g), more, by simp [whole, rest], ?_, stops, ?_⟩
    · simp [Gap.shift, length, size]
      omega
    rcases ends with rfl | newline
    · obtain ⟨rfl, rfl⟩ := List.append_eq_nil_iff.mp rest.symm
      exact .inr ⟨rfl, .line .none (by simpa using plain)⟩
    · have starts : g.head? = some 10 := by
        cases g with
        | nil =>
          rw [rest, List.nil_append] at newline
          obtain ⟨later, rfl⟩ := List.head?_eq_some_iff.mp newline
          exact absurd (.space rfl) stops
        | cons b g => rwa [rest] at newline
      exact reads.imp (.line plain starts) (And.imp_right (.afterLine plain starts))
  | case4 body n closed _ ih =>
    obtain ⟨text, eq, rfl, unclosed⟩ := commentLength?_some closed
    obtain ⟨g, more, rest, length, stops, reads⟩ := ih
    rw [rest] at eq length
    refine ⟨47 :: 42 :: (text ++ 42 :: 47 :: g), more, by simp [eq], ?_, stops, ?_⟩
    · simp [Gap.shift, rest, length]
      omega
    have first : Blank (47 :: 42 :: (text ++ [42, 47])) := .block unclosed .none
    have whole : 47 :: 42 :: (text ++ 42 :: 47 :: g) =
        47 :: 42 :: (text ++ [42, 47]) ++ g := by simp
    rw [whole]
    exact reads.imp first.append (And.imp_right (.after first))
  | case5 body unclosed =>
    exact ⟨_, [], (List.append_nil _).symm, by simp; omega, not_opens_nil,
      .inr ⟨rfl, .unclosed .none (commentLength?_none unclosed)⟩⟩
  | case6 rest notLine notBlock notSpace =>
    refine ⟨[], _, rfl, rfl, ?_, .inl .none⟩
    rintro (isSpace | _ | _)
    · exact notSpace isSpace
    · exact notLine _ rfl
    · exact notBlock _ rfl
  | case7 b rest notSpace notSlash =>
    refine ⟨[], _, rfl, rfl, ?_, .inl .none⟩
    rintro (isSpace | _ | _)
    · exact notSpace isSpace
    · exact notSlash rfl
    · exact notSlash rfl

/-- Nothing is skipped where no gap begins. -/
theorem gap_of_not_opens {rest : Bytes} (stops : ¬ Opens rest) : gap rest = { length := 0 } := by
  unfold gap
  split
  · rfl
  · rename_i b more
    rw [if_neg fun isSpace => stops (.space isSpace)]
    split
    · rename_i slash
      subst slash
      split
      · exact absurd .line stops
      · exact absurd .block stops
      · rfl
    · rfl

theorem Gap.shift_shift (m n : Nat) (g : Gap) : (g.shift n).shift m = g.shift (m + n) := by
  cases g with
  | mk length unclosed => cases unclosed <;> simp [Gap.shift, Nat.add_assoc]

theorem Gap.shift_zero (g : Gap) : g.shift 0 = g := by
  cases g with
  | mk length unclosed => cases unclosed <;> simp [Gap.shift]

theorem gap_space {b : UInt8} {rest : Bytes} (h : isSpace b = true) :
    gap (b :: rest) = (gap rest).shift 1 := by
  rw [gap.eq_def]
  exact if_pos h

/-- A gap in front of a text is skipped first. -/
theorem Blank.gap_append {g : Bytes} (h : Blank g) (rest : Bytes) :
    gap (g ++ rest) = (gap rest).shift g.length := by
  induction h with
  | none => exact (Gap.shift_zero _).symm
  | space isSpace _ ih =>
    rw [List.cons_append, gap_space isSpace, ih, Gap.shift_shift, List.length_cons, Nat.add_comm]
  | @line text g plain starts _ ih =>
    have taken : (text ++ (g ++ rest)).takeWhile (· ≠ 10) = text := by
      obtain ⟨more, rfl⟩ := List.head?_eq_some_iff.mp starts
      rw [List.takeWhile_append_of_pos (by simpa using fun b mem => ne_of_mem_of_not_mem mem plain)]
      simp
    simp only [List.cons_append, List.append_assoc]
    rw [gap, if_neg (by decide), if_pos rfl]
    simp only [taken, List.drop_left, ih, Gap.shift_shift, List.length_cons, List.length_append]
    congr 1
    omega
  | @block text g unclosed _ ih =>
    simp only [List.cons_append, List.append_assoc]
    rw [gap, if_neg (by decide), if_pos rfl, commentLength?_close unclosed]
    have here : (text ++ 42 :: 47 :: (g ++ rest)).drop (text.length + 2) = g ++ rest := by
      rw [← List.drop_drop, List.drop_left]
      rfl
    simp only [here, ih, Gap.shift_shift, List.length_cons, List.length_append]
    congr 1
    omega

/-- What may stand after the last token is skipped as a whole. -/
theorem Ending.gap_length {bs : Bytes} (h : Ending bs) : (gap bs).length = bs.length := by
  cases h with
  | blank blank =>
    have skipped := blank.gap_append []
    rw [List.append_nil] at skipped
    simp [skipped, gap, Gap.shift]
  | @line g text blank plain =>
    have taken : text.takeWhile (· ≠ 10) = text :=
      List.takeWhile_eq_self_iff.mpr (by simpa using fun b mem => ne_of_mem_of_not_mem mem plain)
    rw [blank.gap_append, gap, if_neg (by decide), if_pos rfl]
    simp only [taken, List.drop_length, Gap.shift, List.length_append, List.length_cons]
    simp [gap]
    omega
  | @unclosed g text blank unclosed =>
    rw [blank.gap_append, gap, if_neg (by decide), if_pos rfl, commentLength?_unclosed unclosed]
    simp only [Gap.shift, List.length_append, List.length_cons]
    omega

/-! ## Tokens -/

/-- The texts of tokens by category: words, numbers, and the operators and punctuation signs by
their spelling. A number without a value is not valid, and neither is a byte that can begin
nothing. -/
inductive Lexical : Token.Kind → Bytes → Prop
  | word {b : UInt8} {part : Bytes} : isNameStart b = true → (∀ c ∈ part, isNamePart c = true) →
      Lexical (.ofWord (Bytes.latin (b :: part))) (b :: part)
  | number {b : UInt8} {part : Bytes} {v : Int32} : Literal.isDecimal b = true →
      (∀ c ∈ part, isNamePart c = true) → Literal.read (b :: part) = .ok v →
      Lexical .intLit (b :: part)
  | malformed {b : UInt8} {part : Bytes} {e : Literal.Error} : Literal.isDecimal b = true →
      (∀ c ∈ part, isNamePart c = true) → Literal.read (b :: part) = .error e →
      Lexical .invalid (b :: part)
  | sign {k : Token.Kind} : k.isPunctuation = true → Lexical k (Bytes.ofString k.name)
  | unknown {b : UInt8} : isSpace b = false → isNamePart b = false →
      (∀ k : Token.Kind, k.isPunctuation = true → Bytes.ofString k.name ≠ [b]) →
      Lexical .invalid [b]

/-- No longer token begins where `text` does. -/
structure Longest (k : Token.Kind) (text rest : Bytes) : Prop where
  lexical : Lexical k text
  longest : ∀ {k' : Token.Kind} {text' : Bytes}, Lexical k' text' → text' <+: text ++ rest →
    text'.length ≤ text.length

theorem single?_spelled {b : UInt8} {k : Token.Kind} (h : single? b = some k) :
    k.isPunctuation = true ∧ Bytes.ofString k.name = [b] := by
  unfold single? at h
  split at h <;> cases h <;> decide +kernel

theorem pair?_spelled {b c : UInt8} {k : Token.Kind} (h : pair? b c = some k) :
    k.isPunctuation = true ∧ Bytes.ofString k.name = [b, c] := by
  unfold pair? at h
  split at h <;> cases h <;> decide +kernel

/-- Operators and punctuation signs have one or two bytes. -/
theorem spelled_cases {k : Token.Kind} (h : k.isPunctuation = true) :
    (∃ b, Bytes.ofString k.name = [b] ∧ single? b = some k) ∨
      ∃ b c, Bytes.ofString k.name = [b, c] ∧ pair? b c = some k := by
  have all : ∀ k : Token.Kind, k.isPunctuation = true →
      ((Bytes.ofString k.name).length = 1 ∧
        single? ((Bytes.ofString k.name).getD 0 0) = some k) ∨
      (Bytes.ofString k.name).length = 2 ∧
        pair? ((Bytes.ofString k.name).getD 0 0) ((Bytes.ofString k.name).getD 1 0) = some k := by
    intro k
    cases k <;> decide +kernel
  have here := all k h
  generalize Bytes.ofString k.name = text at here ⊢
  rcases here with ⟨one, found⟩ | ⟨two, found⟩
  · obtain ⟨b, rfl⟩ := List.length_eq_one_iff.mp one
    exact .inl ⟨b, rfl, found⟩
  · obtain ⟨b, c, rfl⟩ := List.length_eq_two.mp two
    exact .inr ⟨b, c, rfl, found⟩

/-- No operator or punctuation sign begins like a word or a number, or with white space. -/
theorem single?_first {b : UInt8} {k : Token.Kind} (h : single? b = some k) :
    isNamePart b = false ∧ isSpace b = false := by
  unfold single? at h
  split at h <;> cases h <;> decide

theorem pair?_first {b c : UInt8} {k : Token.Kind} (h : pair? b c = some k) :
    isNamePart b = false ∧ isSpace b = false := by
  unfold pair? at h
  split at h <;> cases h <;> decide

/-- Words and numbers begin differently. -/
theorem isNameStart_of_isDecimal {b : UInt8} (h : Literal.isDecimal b = true) :
    isNameStart b = false := by
  have all : ∀ n : Fin 256, Literal.isDecimal (UInt8.ofNat n) = true →
      isNameStart (UInt8.ofNat n) = false := by decide +kernel
  have here := all ⟨b.toNat, b.toNat_lt⟩
  rw [UInt8.ofNat_toNat] at here
  exact here h

theorem isNamePart_eq_false {b : UInt8} (h : isNamePart b = false) :
    isNameStart b = false ∧ Literal.isDecimal b = false := by
  simpa [isNamePart] using h

/-- A sign is read where neither a word nor a number begins. -/
theorem lexeme_sign {b : UInt8} (h : isNamePart b = false) (rest : Bytes) :
    lexeme b rest = sign b rest := by
  obtain ⟨notWord, notNumber⟩ := isNamePart_eq_false h
  simp [lexeme, notWord, notNumber]

/-- The part of a name that is read. -/
theorem length_le_takeWhile {p : UInt8 → Bool} {part rest : Bytes} (all : ∀ c ∈ part, p c = true)
    (here : part <+: rest) : part.length ≤ (rest.takeWhile p).length := by
  obtain ⟨more, rfl⟩ := here
  rw [List.takeWhile_append_of_pos all, List.length_append]
  exact Nat.le_add_right _ _

/-- What is read is a token. -/
theorem lexeme_splits {b : UInt8} (notSpace : isSpace b = false) (rest : Bytes) :
    ∃ text more, b :: rest = text ++ more ∧ text.length = (lexeme b rest).length ∧
      Lexical (lexeme b rest).kind text := by
  have whole : b :: rest = b :: rest.takeWhile isNamePart ++ rest.dropWhile isNamePart := by
    rw [List.cons_append, List.takeWhile_append_dropWhile]
  have all : ∀ c ∈ rest.takeWhile isNamePart, isNamePart c = true :=
    fun c mem => List.mem_takeWhile_imp mem
  cases isWord : isNameStart b with
  | true =>
    refine ⟨_, _, whole, ?_⟩
    simp only [lexeme, isWord, if_true]
    exact ⟨rfl, .word isWord all⟩
  | false =>
    cases isNumber : Literal.isDecimal b with
    | true =>
      refine ⟨_, _, whole, ?_⟩
      simp only [lexeme, isWord, isNumber, if_true, Bool.false_eq_true, if_false, number, numberPart_eq]
      split
      · exact ⟨rfl, .number isNumber all (by assumption)⟩
      · exact ⟨rfl, .malformed isNumber all (by assumption)⟩
    | false =>
      have notPart : isNamePart b = false := by simp [isNamePart, isWord, isNumber]
      rw [lexeme_sign notPart]
      unfold sign
      split
      · rename_i k found
        obtain ⟨c, first, found⟩ := Option.bind_eq_some_iff.mp found
        obtain ⟨more, rfl⟩ := List.head?_eq_some_iff.mp first
        obtain ⟨isSign, spelled⟩ := pair?_spelled found
        exact ⟨[b, c], more, rfl, rfl, spelled ▸ .sign isSign⟩
      · split
        · rename_i k found
          obtain ⟨isSign, spelled⟩ := single?_spelled found
          exact ⟨[b], rest, rfl, rfl, spelled ▸ .sign isSign⟩
        · rename_i none
          refine ⟨[b], rest, rfl, rfl, .unknown notSpace notPart fun k isSign spelled => ?_⟩
          rcases spelled_cases isSign with ⟨b', spelled', found⟩ | ⟨b', c, spelled', -⟩
          · rw [spelled'] at spelled
            cases spelled
            rw [none] at found
            cases found
          · rw [spelled'] at spelled
            cases spelled

/-- No token that begins at a place is longer than what is read there. -/
theorem lexeme_longest {b : UInt8} {rest text : Bytes} {k : Token.Kind} (h : Lexical k text)
    (here : text <+: b :: rest) : text.length ≤ (lexeme b rest).length := by
  cases h with
  | word isWord all =>
    obtain ⟨rfl, part⟩ := List.cons_prefix_cons.mp here
    have le := length_le_takeWhile all part
    simpa [lexeme, isWord, word, Lexeme.length] using le
  | number isNumber all read | malformed isNumber all read =>
    obtain ⟨rfl, part⟩ := List.cons_prefix_cons.mp here
    have le := length_le_takeWhile all part
    have notWord := isNameStart_of_isDecimal isNumber
    simp only [lexeme, isNumber, notWord, Bool.false_eq_true, if_false, if_true, number,
      numberPart_eq, List.length_cons]
    split <;> exact Nat.succ_le_succ le
  | sign isSign =>
    rcases spelled_cases isSign with ⟨b', spelled, -⟩ | ⟨b', c, spelled, found⟩
    · rw [spelled]
      exact Nat.succ_le_succ (Nat.zero_le _)
    · rw [spelled] at here ⊢
      obtain ⟨more, rest⟩ := here
      cases rest
      rw [lexeme_sign (pair?_first found).1]
      simp [sign, found, Lexeme.length]
  | unknown => exact Nat.succ_le_succ (Nat.zero_le _)

/-- The token that is read is the longest one. -/
theorem lexeme_is_longest {b : UInt8} (notSpace : isSpace b = false) (rest : Bytes) :
    ∃ text more, b :: rest = text ++ more ∧ text.length = (lexeme b rest).length ∧
      Longest (lexeme b rest).kind text more := by
  obtain ⟨text, more, whole, length, lexical⟩ := lexeme_splits notSpace rest
  refine ⟨text, more, whole, length, lexical, fun other here => ?_⟩
  rw [← whole] at here
  rw [length]
  exact lexeme_longest other here

/-- Tokens begin with no white space, and they are not empty. -/
theorem Lexical.first {k : Token.Kind} {text : Bytes} (h : Lexical k text) :
    ∃ b more, text = b :: more ∧ isSpace b = false := by
  have noSpace : ∀ n : Fin 256, isNamePart (UInt8.ofNat n) = true →
      isSpace (UInt8.ofNat n) = false := by decide +kernel
  have noSpace {b : UInt8} (isPart : isNamePart b = true) : isSpace b = false := by
    have here := noSpace ⟨b.toNat, b.toNat_lt⟩
    rw [UInt8.ofNat_toNat] at here
    exact here isPart
  cases h with
  | word isWord => exact ⟨_, _, rfl, noSpace (by simp [isNamePart, isWord])⟩
  | number isNumber | malformed isNumber =>
    exact ⟨_, _, rfl, noSpace (by simp [isNamePart, isNumber])⟩
  | sign isSign =>
    rcases spelled_cases isSign with ⟨b, spelled, found⟩ | ⟨b, c, spelled, found⟩
    · exact ⟨b, [], spelled, (single?_first found).2⟩
    · exact ⟨b, [c], spelled, (pair?_first found).2⟩
  | unknown notSpace => exact ⟨_, _, rfl, notSpace⟩

/-- Reading the text of a token finds its category. -/
theorem Lexical.kind_lexeme {k : Token.Kind} {text : Bytes} (h : Lexical k text) {b : UInt8}
    {more : Bytes} (eq : text = b :: more) : (lexeme b more).kind = k := by
  cases h with
  | word isWord all =>
    cases eq
    simp [lexeme, isWord, Scan.word, List.takeWhile_eq_self_iff.mpr all]
  | number isNumber all read | malformed isNumber all read =>
    cases eq
    simp [lexeme, isNumber, isNameStart_of_isDecimal isNumber, Scan.number, numberPart_eq,
      List.takeWhile_eq_self_iff.mpr all, read]
  | sign isSign =>
    rcases spelled_cases isSign with ⟨b', spelled, found⟩ | ⟨b', c, spelled, found⟩
    · rw [spelled] at eq
      cases eq
      rw [lexeme_sign (single?_first found).1]
      simp [Scan.sign, found]
    · rw [spelled] at eq
      cases eq
      rw [lexeme_sign (pair?_first found).1]
      simp [Scan.sign, found]
  | unknown notSpace notPart notSign =>
    cases eq
    have none : single? b = none := by
      cases found : single? b with
      | none => rfl
      | some k => exact absurd (single?_spelled found).2 (notSign k (single?_spelled found).1)
    rw [lexeme_sign notPart]
    simp [Scan.sign, none]

/-- The end token has no text. -/
theorem Lexical.ne_eof {k : Token.Kind} {text : Bytes} (h : Lexical k text) : k ≠ .eof := by
  cases h with
  | word => exact ne_of_mem_of_not_mem (Token.Kind.ofWord_mem _) (by decide)
  | number | malformed | unknown => exact nofun
  | sign isSign =>
    rintro rfl
    cases isSign

/-- A text is a token of one category only. -/
theorem Lexical.unique {k k' : Token.Kind} {text : Bytes} (h : Lexical k text)
    (h' : Lexical k' text) : k' = k := by
  obtain ⟨b, more, eq, -⟩ := h.first
  exact (h'.kind_lexeme eq).symm.trans (h.kind_lexeme eq)

/-- There is only one longest token at a place. -/
theorem Longest.unique {k k' : Token.Kind} {text text' rest rest' : Bytes} (h : Longest k text rest)
    (h' : Longest k' text' rest') (same : text ++ rest = text' ++ rest') :
    k' = k ∧ text' = text ∧ rest' = rest := by
  have le : text'.length ≤ text.length :=
    h.longest h'.lexical (same ▸ List.prefix_append text' rest')
  have ge : text.length ≤ text'.length :=
    h'.longest h.lexical (same ▸ List.prefix_append text rest)
  obtain ⟨rfl, rfl⟩ := List.append_inj same (Nat.le_antisymm ge le)
  exact ⟨h.lexical.unique h'.lexical, rfl, rfl⟩

end Scan

/-! ## Files -/

/-- Tokens that tile a text which begins at an offset of a file: every token but the last stands
behind a gap that goes on no further, and is the longest one there; and the end token stands at the
end, behind what may follow the last token. -/
inductive Tiles (file : Nat) : Nat → Bytes → List Token → Prop
  | last {offset : Nat} {bs : Bytes} : Scan.Ending bs →
      Tiles file offset bs
        [{ kind := .eof, span := ⟨file, offset + bs.length, offset + bs.length⟩ }]
  | token {offset : Nat} {gap text rest : Bytes} {k : Token.Kind} {ts : List Token} :
      Scan.Blank gap → ¬ Scan.Opens (text ++ rest) → Scan.Longest k text rest →
      Tiles file (offset + gap.length + text.length) rest ts →
      Tiles file offset (gap ++ (text ++ rest))
        ({ kind := k
           span := ⟨file, offset + gap.length, offset + gap.length + text.length⟩
           text := text } :: ts)

namespace Lexer

theorem skipGap_rest (lx : Lexer) : lx.skipGap.rest = lx.rest.drop (Scan.gap lx.rest).length ∧
    lx.skipGap.offset = lx.offset + (Scan.gap lx.rest).length ∧ lx.skipGap.file = lx.file := by
  unfold skipGap
  simp only
  split <;> exact ⟨rfl, rfl, rfl⟩

theorem scan_nil {lx : Lexer} (h : lx.rest = []) :
    lx.scan.1 = { kind := .eof, span := ⟨lx.file, lx.offset, lx.offset⟩ } := by
  rw [scan, h]

/-- Scanning takes the longest token. -/
theorem scan_cons {lx : Lexer} {b : UInt8} {more : Bytes} (h : lx.rest = b :: more)
    (notSpace : Scan.isSpace b = false) : ∃ k text rest, lx.rest = text ++ rest ∧
      Scan.Longest k text rest ∧ lx.scan.1 = { kind := k
                                               span := ⟨lx.file, lx.offset, lx.offset + text.length⟩
                                               text := text } ∧
      lx.scan.2.rest = rest ∧ lx.scan.2.offset = lx.offset + text.length ∧
      lx.scan.2.file = lx.file := by
  obtain ⟨text, rest, whole, length, longest⟩ := Scan.lexeme_is_longest notSpace more
  refine ⟨_, text, rest, h.trans whole, longest, ?_⟩
  unfold scan
  simp only [h]
  rw [whole, ← length, List.take_left]
  split <;> simp [advance, complain, h, whole]

/-- What taking a token does: it is the end token, behind what may follow the last token, or the
longest token behind a gap. -/
theorem next_tiles {lx : Lexer} (h : lx.ahead = none) :
    (Scan.Ending lx.rest ∧ lx.next.1 =
      { kind := .eof
        span := ⟨lx.file, lx.offset + lx.rest.length, lx.offset + lx.rest.length⟩ }) ∨
    ∃ gap k text rest, lx.rest = gap ++ (text ++ rest) ∧ Scan.Blank gap ∧
      ¬ Scan.Opens (text ++ rest) ∧ Scan.Longest k text rest ∧
      lx.next.1 = { kind := k
                    span := ⟨lx.file, lx.offset + gap.length, lx.offset + gap.length + text.length⟩
                    text := text } ∧
      lx.next.2.rest = rest ∧ lx.next.2.offset = lx.offset + gap.length + text.length ∧
      lx.next.2.file = lx.file := by
  obtain ⟨gap, rest, whole, length, stops, reads⟩ := Scan.gap_splits lx.rest
  obtain ⟨left, offset, file⟩ := lx.skipGap_rest
  rw [length] at left offset
  rw [whole, List.drop_left] at left
  rw [next_eq_scan h]
  cases rest with
  | nil =>
    rw [List.append_nil] at whole
    refine .inl ⟨?_, ?_⟩
    · rw [whole]
      exact reads.elim .blank fun ⟨_, ending⟩ => ending
    · rw [scan_nil left, offset, file, whole]
  | cons b more =>
    have notSpace : Scan.isSpace b = false := by
      cases isSpace : Scan.isSpace b with
      | false => rfl
      | true => exact absurd (.space isSpace) stops
    obtain ⟨k, text, rest, both, longest, token, later⟩ := scan_cons left notSpace
    have same : b :: more = text ++ rest := left.symm.trans both
    rw [offset, file] at token later
    exact .inr ⟨gap, k, text, rest, by rw [whole, same], reads.resolve_right (nomatch ·.1),
      same ▸ stops, longest, token, later⟩

/-- The tokens that are read tile what is left of the file. -/
theorem drain_tiles (lx : Lexer) (h : lx.ahead = none) :
    Tiles lx.file lx.offset lx.rest lx.drain.1 := by
  rw [drain]
  rcases next_tiles h with ⟨ending, token⟩ |
    ⟨gap, k, text, rest, whole, blank, stops, longest, token, left, offset, file⟩
  · rw [dif_pos (by rw [token]), token]
    exact .last ending
  · have more : lx.next.1.kind ≠ .eof := by
      rw [token]
      exact longest.lexical.ne_eof
    have := budget_next more
    have ahead : lx.next.2.ahead = none := by
      rw [next_eq_scan h, scan_ahead, skipGap_ahead, h]
    have later := drain_tiles lx.next.2 ahead
    rw [left, offset, file] at later
    rw [dif_neg more, token, whole]
    exact .token blank stops longest later
termination_by lx.budget

end Lexer

/-- A gap that goes on no further is skipped, and nothing else. -/
theorem Scan.Blank.gap_length {g rest : Bytes} (h : Blank g) (stops : ¬ Opens rest) :
    (gap (g ++ rest)).length = g.length := by
  rw [h.gap_append, gap_of_not_opens stops, Gap.shift, Nat.add_zero]

/-- Behind the last token there is no other. -/
theorem Scan.Ending.no_token {g text rest : Bytes} {k : Token.Kind}
    (h : Ending (g ++ (text ++ rest))) (blank : Blank g) (stops : ¬ Opens (text ++ rest))
    (lexical : Lexical k text) : False := by
  have whole := h.gap_length
  obtain ⟨b, more, rfl, -⟩ := lexical.first
  rw [blank.gap_length stops] at whole
  simp at whole

namespace Tiles

variable {file offset : Nat} {bs : Bytes} {ts ts' : List Token}

/-- A text is tiled in one way only. -/
theorem unique (h : Tiles file offset bs ts) (h' : Tiles file offset bs ts') : ts' = ts := by
  induction h generalizing ts' with
  | @last offset bs ending =>
    cases h' with
    | last => rfl
    | token blank stops longest => exact (ending.no_token blank stops longest.lexical).elim
  | @token offset gap text rest k ts blank stops longest later ih =>
    generalize whole : gap ++ (text ++ rest) = all at h'
    cases h' with
    | last ending =>
      rw [← whole] at ending
      exact (ending.no_token blank stops longest.lexical).elim
    | @token _ gap' text' rest' k' ts' blank' stops' longest' later' =>
      have length : gap.length = gap'.length := by
        rw [← blank.gap_length stops, whole, blank'.gap_length stops']
      obtain ⟨rfl, same⟩ := List.append_inj whole length
      obtain ⟨rfl, rfl, rfl⟩ := longest.unique longest' same
      rw [ih later']

/-- The last token is the end token, and no other is. -/
theorem ends (h : Tiles file offset bs ts) : ∃ before, ts = before ++
    [{ kind := .eof, span := ⟨file, offset + bs.length, offset + bs.length⟩ }] ∧
    ∀ t ∈ before, t.kind ≠ .eof ∧ t.span.start < t.span.stop := by
  induction h with
  | last => exact ⟨[], rfl, nofun⟩
  | @token offset gap text rest k ts blank stops longest later ih =>
    obtain ⟨before, rfl, all⟩ := ih
    refine ⟨⟨k, ⟨file, offset + gap.length, offset + gap.length + text.length⟩, text⟩ :: before, ?_,
      List.forall_mem_cons.mpr ⟨⟨longest.lexical.ne_eof, ?_⟩, all⟩⟩
    · simp [Nat.add_assoc]
    · obtain ⟨b, more, rfl, -⟩ := longest.lexical.first
      simp

/-- The text of every token is what the file has at its span. -/
theorem slices (h : Tiles file offset bs ts) : ∀ t ∈ ts, t.span.file = file ∧
    offset ≤ t.span.start ∧ t.span.start ≤ t.span.stop ∧ t.span.stop ≤ offset + bs.length ∧
    t.text = (bs.drop (t.span.start - offset)).take (t.span.stop - t.span.start) := by
  induction h with
  | last => simp
  | @token offset gap text rest k ts blank stops longest later ih =>
    refine List.forall_mem_cons.mpr ⟨?_, fun t mem => ?_⟩
    · refine ⟨rfl, Nat.le_add_right _ _, Nat.le_add_right _ _, ?_, ?_⟩
      · simp only [List.length_append]
        omega
      · simp
    · obtain ⟨sameFile, after, proper, inside, slice⟩ := ih t mem
      refine ⟨sameFile, by omega, proper, ?_, ?_⟩
      · simp only [List.length_append]
        omega
      · have here : t.span.start - offset = gap.length + text.length +
            (t.span.start - (offset + gap.length + text.length)) := by omega
        rw [slice, here, ← List.append_assoc, ← List.length_append, ← List.drop_drop,
          List.drop_left]

/-- Every token ends before the next one begins. -/
theorem ordered (h : Tiles file offset bs ts) :
    ts.Pairwise fun t u => t.span.start < u.span.start ∧ t.span.stop ≤ u.span.start := by
  induction h with
  | last => exact List.pairwise_singleton _ _
  | @token offset gap text rest k ts blank stops longest later ih =>
    refine List.pairwise_cons.mpr ⟨fun u mem => ?_, ih⟩
    have after := (later.slices u mem).2.1
    obtain ⟨b, more, rfl, -⟩ := longest.lexical.first
    simp only [List.length_cons] at after ⊢
    omega

end Tiles

/-- Reading a file always comes to an end. The tokens that are read are the ones, and the only ones,
that tile the file: behind gaps of white space and comments, each the longest at its place. The last
is the end token, and no other is. Every other token is not empty, all stand in the file one after
the other, and the text of each is what the file has at its span. -/
theorem tokens_tile (f : Source.File) : ∃ before last,
    (Lexer.ofFile f).drain.1 = before ++ [last] ∧
    last = { kind := .eof, span := ⟨f.id, f.content.length, f.content.length⟩ } ∧
    (∀ t ∈ before, t.kind ≠ .eof ∧ t.span.start < t.span.stop) ∧
    (∀ t ∈ before ++ [last], t.span.file = f.id ∧ t.span.stop ≤ f.content.length ∧
      t.text = (f.content.drop t.span.start).take (t.span.stop - t.span.start)) ∧
    ((before ++ [last]).Pairwise fun t u =>
      t.span.start < u.span.start ∧ t.span.stop ≤ u.span.start) ∧
    ∀ ts, Tiles f.id 0 f.content ts ↔ ts = before ++ [last] := by
  have tiles : Tiles f.id 0 f.content (Lexer.ofFile f).drain.1 := (Lexer.ofFile f).drain_tiles rfl
  obtain ⟨before, whole, others⟩ := tiles.ends
  rw [whole] at tiles
  rw [Nat.zero_add] at whole tiles
  refine ⟨before, _, whole, rfl, others, fun t mem => ?_, tiles.ordered, fun ts => ?_⟩
  · obtain ⟨sameFile, -, -, inside, slice⟩ := tiles.slices t mem
    exact ⟨sameFile, by omega, slice⟩
  · exact ⟨tiles.unique, fun same => same ▸ tiles⟩

end SysY

import SysY.Proofs.Token.Tiling

/-! # The lexical errors of a file

Two things are wrong with a text: a token that is not valid, and a comment behind the last token
that is never closed. Reading a file reports each of them once, in the order in which they stand in
the file. -/

namespace SysY

namespace Scan

/-- A comment that begins behind `n` bytes of white space and comments is never closed. -/
def Unclosed (bs : Bytes) (n : Nat) : Prop :=
  ∃ g text, bs = g ++ 47 :: 42 :: text ∧ g.length = n ∧ Blank g ∧ ¬ [42, 47] <:+: text

section Unclosed

variable {bs : Bytes} {n : Nat}

theorem Unclosed.lt_length (h : Unclosed bs n) : n < bs.length := by
  obtain ⟨g, text, rfl, rfl, -, -⟩ := h
  simp

theorem Unclosed.gap_unclosed (h : Unclosed bs n) : (gap bs).unclosed = some n := by
  obtain ⟨g, text, rfl, rfl, blank, unclosed⟩ := h
  rw [blank.gap_append, gap, if_neg (by decide), if_pos rfl, commentLength?_unclosed unclosed]
  rfl

theorem unclosed_of_gap (h : (gap bs).unclosed = some n) : Unclosed bs n := by
  fun_induction gap bs generalizing n with
  | case1 | case6 | case7 => cases h
  | case2 b rest isSpace ih =>
    obtain ⟨m, inner, rfl⟩ := Option.map_eq_some_iff.mp h
    obtain ⟨g, text, rfl, rfl, blank, unclosed⟩ := ih inner
    exact ⟨b :: g, text, rfl, by simp [Nat.add_comm], .space isSpace blank, unclosed⟩
  | case3 line =>
    rename_i ih
    obtain ⟨m, inner, rfl⟩ := Option.map_eq_some_iff.mp h
    obtain ⟨g, text, rest, rfl, blank, unclosed⟩ := ih inner
    obtain ⟨front, back, whole, taken, plain, ends⟩ := line_splits line
    have left : line.drop (line.takeWhile (· ≠ 10)).length = back := by
      rw [taken, whole, List.drop_left]
    have rest : back = g ++ 47 :: 42 :: text := left.symm.trans rest
    -- The rest of the file goes on with `/*` at the latest, so that the line ends with a newline.
    have starts : g.head? = some 10 := by
      rcases ends with rfl | newline
      · simp at rest
      · cases g with
        | nil =>
          rw [rest] at newline
          cases newline
        | cons b g => rwa [rest] at newline
    refine ⟨47 :: 47 :: (front ++ g), text, by simp [whole, rest], ?_, .line plain starts blank,
      unclosed⟩
    change _ = 2 + (line.takeWhile (· ≠ 10)).length + g.length
    simp only [taken, List.length_cons, List.length_append]
    omega
  | case4 body size closed _ ih =>
    obtain ⟨m, inner, rfl⟩ := Option.map_eq_some_iff.mp h
    obtain ⟨g, text, rest, rfl, blank, unclosed⟩ := ih inner
    obtain ⟨front, eq, rfl, plain⟩ := commentLength?_some closed
    rw [rest] at eq
    refine ⟨47 :: 42 :: (front ++ 42 :: 47 :: g), text, by simp [eq], ?_, .block plain blank,
      unclosed⟩
    simp only [List.length_cons, List.length_append]
    omega
  | case5 body unclosed =>
    cases h
    exact ⟨[], body, rfl, rfl, .none, commentLength?_none unclosed⟩

end Unclosed

/-- What is reported about a token. -/
theorem lexeme_issue {b : UInt8} {rest : Bytes} {code : Diag.Code} {detail : String}
    (h : (lexeme b rest).issue = some (code, detail)) :
    if Literal.isDecimal b then
      code = .badNumber ∧ detail = "malformed integer literal " ++
        Text.quoted (Bytes.latin ((b :: rest).take (lexeme b rest).length))
    else code = .unknownCharacter ∧
      detail = "unknown character " ++ Text.quotedChar (Char.ofNat b.toNat) := by
  unfold lexeme at h ⊢
  by_cases isName : isNameStart b
  · rw [if_pos isName] at h
    cases h
  · by_cases isDigit : Literal.isDecimal b
    · rw [if_neg isName, if_pos isDigit] at h
      rw [if_pos isDigit, if_neg isName, if_pos isDigit]
      have whole : rest.take (rest.takeWhile isNamePart).length = rest.takeWhile isNamePart :=
        (List.prefix_iff_eq_take.mp (List.takeWhile_prefix _)).symm
      simp only [number, numberPart_eq] at h ⊢
      split at h
      · cases h
      · rename_i bad
        cases h
        simp only [Lexeme.length, List.take_succ_cons, whole, and_self]
    · rw [if_neg isName, if_neg isDigit] at h
      rw [if_neg isDigit]
      unfold sign at h
      split at h
      · cases h
      · split at h <;> cases h
        exact ⟨rfl, rfl⟩

end Scan

/-- What is wrong with a token that is not valid: it begins with a digit and is no number, or it is
a byte with which nothing begins. -/
def Token.issue? (t : Token) : Option Diag.Error :=
  match t.kind, t.text with
  | .invalid, b :: _ =>
    if Literal.isDecimal b then
      some (.mk' .badNumber t.span ("malformed integer literal " ++ Text.quoted t.name))
    else
      some (.mk' .unknownCharacter t.span
        ("unknown character " ++ Text.quotedChar (Char.ofNat b.toNat)))
  | _, _ => none

theorem Token.issue?_valid {t : Token} (h : t.kind ≠ .invalid) : t.issue? = none := by
  unfold issue?
  split
  · contradiction
  · rfl

theorem Token.issue?_invalid {t : Token} {b : UInt8} {part : Bytes} (invalid : t.kind = .invalid)
    (text : t.text = b :: part) : t.issue? = some (if Literal.isDecimal b then
      .mk' .badNumber t.span ("malformed integer literal " ++ Text.quoted t.name)
    else .mk' .unknownCharacter t.span
      ("unknown character " ++ Text.quotedChar (Char.ofNat b.toNat))) := by
  unfold issue?
  rw [invalid, text]
  split
  · rename_i isKind isText
    cases isText
    split <;> rfl
  · rename_i other
    exact absurd rfl (other _ _ rfl)

/-- What is reported about the token that begins a text is what is wrong with it. -/
theorem Token.issue?_lexeme (b : UInt8) (rest : Bytes) (span : Source.Span) :
    Token.issue? ⟨(Scan.lexeme b rest).kind, span, (b :: rest).take (Scan.lexeme b rest).length⟩ =
      (Scan.lexeme b rest).issue.map fun i => .mk' i.1 span i.2 := by
  cases issue : (Scan.lexeme b rest).issue with
  | none => exact Token.issue?_valid (Scan.lexeme_valid issue)
  | some found =>
    have about := Scan.lexeme_issue issue
    rw [(Scan.lexeme_invalid issue).1]
    rw [Token.issue?_invalid rfl (List.take_succ_cons ..), Option.map_some]
    by_cases isDigit : Literal.isDecimal b
    · rw [if_pos isDigit] at about ⊢
      rw [about.1, about.2]
      rfl
    · rw [if_neg isDigit] at about ⊢
      rw [about.1, about.2]

theorem Token.issue?_span {t : Token} {e : Diag.Error} (h : t.issue? = some e) :
    e.span = t.span := by
  unfold issue? at h
  split at h
  · split at h <;> cases h <;> rfl
  · cases h

/-- The lexical errors of a text that begins at an offset of a file and consists of the tokens `ts`:
one for every token that is not valid, and one for a comment in front of the end token that is never
closed. -/
inductive Flaws (file : Nat) : Nat → Bytes → List Token → List Diag.Error → Prop
  | closed {offset : Nat} {bs : Bytes} {t : Token} : (∀ n, ¬ Scan.Unclosed bs n) →
      Flaws file offset bs [t] []
  | unclosed {offset : Nat} {bs : Bytes} {t : Token} {n : Nat} : Scan.Unclosed bs n →
      Flaws file offset bs [t] [.mk' .unterminatedComment
        ⟨file, offset + n, offset + bs.length⟩ "unterminated block comment"]
  | token {offset : Nat} {bs : Bytes} {t : Token} {ts : List Token} {es : List Diag.Error} :
      Flaws file t.span.stop (bs.drop (t.span.stop - offset)) ts es →
      Flaws file offset bs (t :: ts) (t.issue?.toList ++ es)

/-- The errors of a text stand in it one after the other. -/
theorem Flaws.ordered {file offset : Nat} {bs : Bytes} {ts : List Token} {es : List Diag.Error}
    (h : Flaws file offset bs ts es) (tiles : Tiles file offset bs ts) :
    (∀ e ∈ es, offset ≤ e.span.start ∧ e.span.start < e.span.stop) ∧
      es.Pairwise fun d e => d.span.stop ≤ e.span.start := by
  induction h with
  | closed => exact ⟨nofun, .nil⟩
  | unclosed unclosed =>
    have short := unclosed.lt_length
    refine ⟨fun e mem => ?_, List.pairwise_singleton _ _⟩
    rw [List.mem_singleton.mp mem]
    exact ⟨Nat.le_add_right _ _, Nat.add_lt_add_left short _⟩
  | @token offset bs t ts es later ih =>
    cases tiles with
    | last => cases later
    | @token _ gap text rest k _ blank stops longest tiles =>
      have here : (gap ++ (text ++ rest)).drop (offset + gap.length + text.length - offset) =
          rest := by
        rw [← List.append_assoc, Nat.add_assoc, Nat.add_sub_cancel_left, ← List.length_append,
          List.drop_left]
      simp only [here] at later ih
      obtain ⟨after, ordered⟩ := ih tiles
      obtain ⟨b, more, rfl, -⟩ := longest.lexical.first
      simp only [List.length_cons] at after ordered ⊢
      refine ⟨fun e mem => ?_, List.pairwise_append.mpr ⟨?_, ordered, fun d isIssue e mem => ?_⟩⟩
      · rcases List.mem_append.mp mem with isIssue | mem
        · rw [Token.issue?_span (Option.mem_toList.mp isIssue)]
          exact ⟨Nat.le_add_right _ _, by simp⟩
        · exact ⟨by have := (after e mem).1; omega, (after e mem).2⟩
      · cases Token.issue? _ <;> simp
      · rw [Token.issue?_span (Option.mem_toList.mp isIssue)]
        exact (after e mem).1

namespace Lexer

variable {lx : Lexer}

/-- Scanning a token reports what is wrong with it. -/
theorem scan_errors (lx : Lexer) : lx.scan.2.errors = lx.errors ++ lx.scan.1.issue?.toList := by
  unfold scan
  split
  · simp [Token.issue?]
  · rename_i b more rest
    have issue := Token.issue?_lexeme b more
      ⟨lx.file, lx.offset, lx.offset + (Scan.lexeme b more).length⟩
    simp only [rest]
    cases found : (Scan.lexeme b more).issue with
    | none =>
      rw [found] at issue
      simp only [issue, advance]
      simp
    | some about =>
      rw [found] at issue
      simp only [issue, complain, advance]
      rfl

/-- Skipping a gap reports a comment that is never closed, and nothing else. -/
theorem skipGap_errors (lx : Lexer) :
    ((∀ n, ¬ Scan.Unclosed lx.rest n) ∧ lx.skipGap.errors = lx.errors) ∨
    ∃ n, Scan.Unclosed lx.rest n ∧ lx.skipGap.rest = [] ∧
      lx.skipGap.errors = lx.errors ++ [.mk' .unterminatedComment
        ⟨lx.file, lx.offset + n, lx.offset + lx.rest.length⟩ "unterminated block comment"] := by
  cases closed : (Scan.gap lx.rest).unclosed with
  | none =>
    refine .inl ⟨fun n unclosed => ?_, by simp [skipGap, closed, advance]⟩
    rw [unclosed.gap_unclosed] at closed
    cases closed
  | some n =>
    have unclosed := Scan.unclosed_of_gap closed
    have short := unclosed.lt_length
    have whole := Scan.gap_unclosed closed
    have reach : lx.offset + n + (lx.rest.length - n) = lx.offset + lx.rest.length := by omega
    exact .inr ⟨n, unclosed, by simp [skipGap, closed, complain, advance, whole],
      by simp [skipGap, closed, complain, advance, whole, reach]⟩

/-- What taking a token reports: at the end of the file a comment that is never closed, and
elsewhere what is wrong with the token. -/
theorem next_errors (h : lx.ahead = none) :
    (lx.next.1.kind = .eof ∧ ∃ es, lx.next.2.errors = lx.errors ++ es ∧
      Flaws lx.file lx.offset lx.rest [lx.next.1] es) ∨
    lx.next.1.kind ≠ .eof ∧ lx.next.2.errors = lx.errors ++ lx.next.1.issue?.toList := by
  rw [next_eq_scan h, scan_errors]
  have scanned : lx.skipGap.rest = [] → lx.skipGap.scan.1.kind = .eof ∧
      lx.skipGap.scan.1.issue? = none := by
    intro rest
    rw [scan_nil rest]
    exact ⟨rfl, rfl⟩
  rcases lx.skipGap_errors with ⟨closed, same⟩ | ⟨n, unclosed, rest, errors⟩
  · rw [same]
    by_cases atEnd : lx.skipGap.scan.1.kind = .eof
    · rw [Token.issue?_valid (by rw [atEnd]; decide)]
      exact .inl ⟨atEnd, [], by simp, .closed closed⟩
    · exact .inr ⟨atEnd, rfl⟩
  · obtain ⟨atEnd, noIssue⟩ := scanned rest
    rw [noIssue, errors]
    exact .inl ⟨atEnd, _, by simp, .unclosed unclosed⟩

/-- What a token leaves of a file that is not at its end. -/
theorem next_rest (h : lx.ahead = none) (more : lx.next.1.kind ≠ .eof) :
    lx.next.2.file = lx.file ∧ lx.next.2.offset = lx.next.1.span.stop ∧
      lx.next.2.rest = lx.rest.drop (lx.next.1.span.stop - lx.offset) ∧
      lx.offset ≤ lx.next.1.span.start ∧ lx.next.1.span.start < lx.next.1.span.stop := by
  rcases next_tiles h with ⟨-, token⟩ |
    ⟨gap, k, text, rest, whole, -, -, longest, token, left, offset, file⟩
  · rw [token] at more
    exact absurd rfl more
  · obtain ⟨b, part, rfl, -⟩ := longest.lexical.first
    have here : (gap ++ (b :: part ++ rest)).drop (gap.length + (b :: part).length) = rest := by
      rw [← List.append_assoc, ← List.length_append, List.drop_left]
    rw [file, offset, left, token, whole]
    refine ⟨rfl, rfl, ?_, Nat.le_add_right _ _, by simp⟩
    rw [Nat.add_assoc, Nat.add_sub_cancel_left, here]

theorem next_ahead (lx : Lexer) : lx.next.2.ahead = none := by
  unfold next
  split
  · rfl
  · rename_i none
    rw [scan_ahead, skipGap_ahead, none]

/-- Reading a file to its end reports its lexical errors. -/
theorem drain_flaws (lx : Lexer) (h : lx.ahead = none) :
    ∃ es, lx.drain.2.errors = lx.errors ++ es ∧ Flaws lx.file lx.offset lx.rest lx.drain.1 es := by
  rw [drain]
  rcases next_errors h with ⟨atEnd, es, errors, flaws⟩ | ⟨more, errors⟩
  · rw [dif_pos atEnd]
    exact ⟨es, errors, flaws⟩
  · have := budget_next more
    obtain ⟨es, later, flaws⟩ := drain_flaws lx.next.2 lx.next_ahead
    obtain ⟨file, offset, rest, -⟩ := next_rest h more
    rw [file, offset, rest] at flaws
    rw [dif_neg more]
    exact ⟨_, by rw [later, errors, List.append_assoc], .token flaws⟩
termination_by lx.budget

end Lexer

end SysY

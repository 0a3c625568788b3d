import SysY.Proofs.Token.Flaws

/-! # Looking ahead changes nothing

A reader of tokens can look at the next token before it takes it, as often as it likes. Main result:
the tokens that it takes, and the errors that are reported meanwhile, are the same as without
looking, only that an error is reported as soon as its token is looked at. -/

namespace SysY.Lexer

/-- What a reader of tokens does: it looks at the next token, or takes it. -/
inductive Step where
  | peek | next
deriving DecidableEq, Repr

/-- The token that a step shows, and the lexer after it. -/
def step (lx : Lexer) : Step → Token × Lexer
  | .peek => lx.peek
  | .next => lx.next

/-- The tokens that are taken in some steps, and the lexer after them. -/
def run (lx : Lexer) : List Step → List Token × Lexer
  | [] => ([], lx)
  | .peek :: steps => lx.peek.2.run steps
  | .next :: steps =>
    let later := lx.next.2.run steps
    (lx.next.1 :: later.1, later.2)

/-! ## Taking tokens only -/

/-- The first `n` tokens. -/
def tokens (lx : Lexer) : Nat → List Token
  | 0 => []
  | n + 1 => lx.next.1 :: lx.next.2.tokens n

/-- The lexer behind the first `n` tokens. -/
def skip (lx : Lexer) : Nat → Lexer
  | 0 => lx
  | n + 1 => lx.next.2.skip n

variable {lx lx' : Lexer}

theorem skip_ahead (h : lx.ahead = none) (n : Nat) : (lx.skip n).ahead = none := by
  induction n generalizing lx with
  | zero => exact h
  | succ n ih => exact ih lx.next_ahead

/-- At the end there is nothing to skip. -/
theorem skipGap_nil (h : lx.rest = []) : lx.skipGap = lx := by
  obtain ⟨file, offset, rest, ahead, errors, first⟩ := lx
  cases h
  simp [skipGap, advance, Scan.gap]

/-- Behind the end token comes the end token again, and nothing is reported any more. -/
theorem next_again (h : lx.ahead = none) (atEnd : lx.next.1.kind = .eof) :
    lx.next.2.next = lx.next := by
  have kept : lx.next.2.rest = [] ∧
      lx.next.1 = { kind := .eof,
                    span := ⟨lx.next.2.file, lx.next.2.offset, lx.next.2.offset⟩ } := by
    rw [next_eq_scan h] at atEnd ⊢
    cases left : lx.skipGap.rest with
    | nil =>
      have same : lx.skipGap.scan.2 = lx.skipGap := by rw [scan, left]
      rw [same, scan_nil left]
      exact ⟨left, rfl⟩
    | cons b more =>
      obtain ⟨g, rest, whole, length, stops, -⟩ := Scan.gap_splits lx.rest
      have here := lx.skipGap_rest.1
      rw [left, length, whole, List.drop_left] at here
      have notSpace : Scan.isSpace b = false := by
        cases isSpace : Scan.isSpace b with
        | false => rfl
        | true => exact absurd (here ▸ .space isSpace) stops
      obtain ⟨k, text, after, -, longest, token, -⟩ := scan_cons left notSpace
      rw [token] at atEnd
      exact absurd atEnd longest.lexical.ne_eof
  rw [next_eq_scan lx.next_ahead, skipGap_nil kept.1]
  refine Prod.ext ?_ ?_
  · rw [scan_nil kept.1, ← kept.2]
  · rw [scan, kept.1]

theorem tokens_again (h : lx.ahead = none) (atEnd : lx.next.1.kind = .eof) (n : Nat) :
    lx.next.2.tokens n = List.replicate n lx.next.1 := by
  induction n with
  | zero => rfl
  | succ n ih => rw [tokens, next_again h atEnd, ih, List.replicate_succ]

/-- All tokens of a file are taken one after the other, and then the last one again and again. -/
theorem tokens_eq_take {t : Token} {n m : Nat} (h : lx.ahead = none)
    (last : lx.drain.1.getLast? = some t) (le : n ≤ m) :
    lx.tokens n = (lx.drain.1 ++ List.replicate m t).take n := by
  induction n generalizing lx with
  | zero => rfl
  | succ n ih =>
    rw [drain] at last ⊢
    by_cases atEnd : lx.next.1.kind = .eof
    · simp only [dif_pos atEnd, List.getLast?_singleton, Option.some.injEq] at last ⊢
      rw [← last, tokens, tokens_again h atEnd, List.singleton_append, List.take_succ_cons,
        List.take_replicate, Nat.min_eq_left (Nat.le_of_succ_le le)]
    · simp only [dif_neg atEnd] at last ⊢
      obtain ⟨before, e, drained, -⟩ := lx.next.2.drain_tokens lx.next_ahead
      have last : lx.next.2.drain.1.getLast? = some t := by
        rw [← last, drained, ← List.cons_append, List.getLast?_concat, List.getLast?_concat]
      rw [tokens, ih lx.next_ahead last (Nat.le_of_succ_le le), List.cons_append,
        List.take_succ_cons]

/-- What is reported in the end does not depend on how much has been read already. -/
theorem drain_errors_next (h : lx.ahead = none) :
    lx.next.2.drain.2.errors = lx.drain.2.errors := by
  conv => rhs; rw [drain]
  by_cases atEnd : lx.next.1.kind = .eof
  · have again := next_again h atEnd
    rw [dif_pos atEnd, drain, dif_pos (by rw [again]; exact atEnd), again]
  · rw [dif_neg atEnd]

theorem drain_errors_skip (h : lx.ahead = none) (n : Nat) :
    (lx.skip n).drain.2.errors = lx.drain.2.errors := by
  induction n generalizing lx with
  | zero => rfl
  | succ n ih => rw [skip, ih lx.next_ahead, drain_errors_next h]

/-- All that was reported is about the text that has been read. -/
def Settled (lx : Lexer) : Prop := ∀ e ∈ lx.errors, e.span.start ≤ lx.offset

/-- What is reported with a token begins no later than the token. -/
theorem Settled.next_start (settled : Settled lx) (h : lx.ahead = none) :
    ∀ e ∈ lx.next.2.errors, e.span.start ≤ lx.next.1.span.start := by
  intro e mem
  have onward := (next_cases h).1
  rcases next_errors h with ⟨atEnd, es, errors, flaws⟩ | ⟨more, errors⟩
  · rw [errors] at mem
    rcases List.mem_append.mp mem with early | late
    · exact Nat.le_trans (settled e early) onward
    · have token : lx.next.1.span.start = lx.offset + lx.rest.length := by
        rcases next_tiles h with ⟨-, token⟩ | ⟨gap, k, text, rest, -, -, -, longest, token, -⟩
        · rw [token]
        · rw [token] at atEnd
          exact absurd atEnd longest.lexical.ne_eof
      rw [token]
      cases flaws with
      | closed => cases late
      | unclosed unclosed =>
        rw [List.mem_singleton.mp late]
        exact Nat.add_le_add_left (Nat.le_of_lt unclosed.lt_length) _
      | token flaws => cases flaws
  · rw [errors] at mem
    rcases List.mem_append.mp mem with early | isIssue
    · exact Nat.le_trans (settled e early) onward
    · rw [Token.issue?_span (Option.mem_toList.mp isIssue)]

theorem Settled.next (settled : Settled lx) (h : lx.ahead = none) : Settled lx.next.2 :=
  fun e mem => Nat.le_trans (settled.next_start h e mem) (next_cases h).2.1

theorem Settled.skip (settled : Settled lx) (h : lx.ahead = none) (n : Nat) :
    Settled (lx.skip n) := by
  induction n generalizing lx with
  | zero => exact settled
  | succ n ih => exact ih (settled.next h) lx.next_ahead

/-- Behind a token all errors have been reported that begin no later than the token. -/
theorem Settled.errors_next (settled : Settled lx) (h : lx.ahead = none) :
    lx.next.2.errors =
      lx.drain.2.errors.filter (·.span.start ≤ lx.next.1.span.start) := by
  have reported : lx.next.2.errors.filter (·.span.start ≤ lx.next.1.span.start) =
      lx.next.2.errors :=
    List.filter_eq_self.mpr fun e mem => by simpa using settled.next_start h e mem
  rw [drain]
  by_cases atEnd : lx.next.1.kind = .eof
  · rw [dif_pos atEnd, reported]
  · obtain ⟨es, errors, flaws⟩ := lx.next.2.drain_flaws lx.next_ahead
    obtain ⟨-, offset, -, -, proper⟩ := next_rest h atEnd
    have later := (flaws.ordered (lx.next.2.drain_tiles lx.next_ahead)).1
    have none : es.filter (·.span.start ≤ lx.next.1.span.start) = [] :=
      List.filter_eq_nil_iff.mpr fun e mem => by
        have after := (later e mem).1
        simp only [decide_eq_true_eq]
        omega
    rw [dif_neg atEnd, errors, List.filter_append, reported, none, List.append_nil]

/-! ## Looking ahead -/

/-- What is looked at is taken next. -/
theorem next_peek (lx : Lexer) : lx.peek.2.next = lx.next := by
  cases ahead : lx.ahead with
  | some t => simp [peek, next, ahead]
  | none =>
    have taken := lx.next_ahead
    simp only [peek]
    rw [next]
    refine Prod.ext rfl ?_
    rw [← taken]

/-- What is looked at stays where it is. -/
theorem peek_peek (lx : Lexer) : lx.peek.2.peek = lx.peek := by
  have peeked (lx : Lexer) :
      lx.peek = (lx.next.1, { lx.next.2 with ahead := some lx.next.1 }) := rfl
  rw [peeked lx.peek.2, next_peek, ← peeked]

/-- A lexer that stands where another one does, from where it may have looked ahead. -/
def At (lx lx' : Lexer) : Prop := lx' = lx ∨ lx' = lx.peek.2

theorem At.peek (h : At lx lx') : lx'.peek = lx.peek := by
  rcases h with rfl | rfl
  · rfl
  · exact lx.peek_peek

theorem At.next (h : At lx lx') : lx'.next = lx.next := by
  rcases h with rfl | rfl
  · rfl
  · exact lx.next_peek

/-- A step shows the next token, and what it reports is what taking the token does. -/
theorem At.step (h : At lx lx') (s : Step) :
    (lx'.step s).1 = lx.next.1 ∧ (lx'.step s).2.errors = lx.next.2.errors := by
  cases s with
  | peek => exact ⟨by rw [Lexer.step, h.peek]; rfl, by rw [Lexer.step, h.peek]; rfl⟩
  | next => rw [Lexer.step, h.next]; exact ⟨rfl, rfl⟩

/-- The tokens that are taken are the first ones, however often they are looked at. -/
theorem At.run (h : At lx lx') (steps : List Step) :
    (lx'.run steps).1 = lx.tokens (steps.count .next) ∧
      At (lx.skip (steps.count .next)) (lx'.run steps).2 := by
  induction steps generalizing lx lx' with
  | nil => exact ⟨rfl, h⟩
  | cons s steps ih =>
    cases s with
    | peek =>
      rw [List.count_cons_of_ne (by decide), Lexer.run, h.peek]
      exact ih (.inr rfl)
    | next =>
      rw [List.count_cons_self, Lexer.run, h.next]
      have start : At lx.next.2 lx.next.2 := .inl rfl
      obtain ⟨taken, stands⟩ := ih start
      exact ⟨congrArg _ taken, stands⟩

/-! ## The error that is kept -/

/-- The error that is kept is the first one that was reported. -/
def KeepsFirst (lx : Lexer) : Prop := lx.first = lx.errors.head?

theorem KeepsFirst.complain (h : KeepsFirst lx) (code : Diag.Code) (start n : Nat)
    (detail : String) : KeepsFirst (lx.complain code start n detail) := by
  unfold KeepsFirst Lexer.complain at *
  rw [h]
  cases lx.errors <;> rfl

theorem KeepsFirst.next (h : KeepsFirst lx) : KeepsFirst lx.next.2 := by
  have skipped : KeepsFirst lx.skipGap := by
    unfold skipGap
    simp only
    split
    · exact h
    · have advanced : KeepsFirst (lx.advance (Scan.gap lx.rest).length) := h
      exact advanced.complain ..
  unfold Lexer.next
  split
  · exact h
  · unfold scan
    split
    · exact skipped
    · simp only
      split
      · exact skipped
      · have advanced (n : Nat) : KeepsFirst (lx.skipGap.advance n) := skipped
        exact (advanced _).complain ..

theorem KeepsFirst.run (h : KeepsFirst lx) (steps : List Step) : KeepsFirst (lx.run steps).2 := by
  induction steps generalizing lx with
  | nil => exact h
  | cons s steps ih =>
    cases s with
    | peek =>
      have looked : KeepsFirst lx.peek.2 := h.next
      exact ih looked
    | next => exact ih h.next

/-- Looking ahead is transparent. Whatever steps a reader makes on a file with the tokens `all` and
the lexical errors `es`, it takes the first tokens of `all`, and then the end token for ever. What a
look shows is what is taken next, after any number of further looks. Every error is reported
once, in the order of the file, when its token is looked at or taken for the first time: after each
step the errors that begin no later than the token of this step have been reported. The error that
is kept is the first of them, and there is none as long as nothing was reported. -/
theorem lookahead_transparent (f : Source.File) : ∃ es,
    Flaws f.id 0 f.content (ofFile f).drain.1 es ∧
    (ofFile f).drain.2.errors = es ∧
    (es.Pairwise fun d e => d.span.start < e.span.start ∧ d.span.stop ≤ e.span.start) ∧
    ∀ steps, let all := (ofFile f).drain.1
      let eof : Token := { kind := .eof, span := ⟨f.id, f.content.length, f.content.length⟩ }
      let taken := ((ofFile f).run steps).1
      let lx := ((ofFile f).run steps).2
      taken = (all ++ List.replicate steps.length eof).take (steps.count .next) ∧
      (∀ n, (lx.peek.2.run (List.replicate n .peek)).2.next.1 = lx.peek.1) ∧
      (∀ s, (lx.step s).2.errors = es.filter (·.span.start ≤ (lx.step s).1.span.start)) ∧
      lx.error? = lx.errors.head? ∧ (lx.error? = none ↔ lx.errors = []) := by
  obtain ⟨es, errors, flaws⟩ := (ofFile f).drain_flaws rfl
  have tiles : Tiles f.id 0 f.content (ofFile f).drain.1 := (ofFile f).drain_tiles rfl
  have start : KeepsFirst (ofFile f) := rfl
  have errors : (ofFile f).drain.2.errors = es := errors
  obtain ⟨proper, apart⟩ := flaws.ordered tiles
  refine ⟨es, flaws, errors, ?_, fun steps => ?_⟩
  · exact (List.pairwise_and_iff.mpr ⟨apart.imp_of_mem fun {d e} isD _ le =>
      Nat.lt_of_lt_of_le (proper d isD).2 le, apart⟩)
  simp only
  obtain ⟨taken, stands⟩ := At.run (.inl rfl : At (ofFile f) (ofFile f)) steps
  have kept := start.run steps
  generalize ((ofFile f).run steps).2 = lx at stands kept
  have kept : lx.error? = lx.errors.head? := kept
  refine ⟨?_, fun n => ?_, fun s => ?_, kept, by rw [kept, List.head?_eq_none_iff]⟩
  · obtain ⟨before, whole, -⟩ := tiles.ends
    rw [Nat.zero_add] at whole
    rw [taken]
    refine tokens_eq_take rfl ?_ (List.count_le_length ..)
    rw [whole, List.getLast?_concat]
  · have peeked (lx : Lexer) : lx.peek.1 = lx.next.1 := rfl
    have still := At.run (.inr rfl : At lx lx.peek.2) (List.replicate n .peek)
    rw [List.count_replicate, if_neg (by decide)] at still
    rw [still.2.next, peeked]
    rfl
  · have nothing : Settled (ofFile f) := nofun
    have fresh : (ofFile f).ahead = none := rfl
    have ahead := skip_ahead fresh (steps.count .next)
    have settled := nothing.skip fresh (steps.count .next)
    obtain ⟨token, reported⟩ := stands.step s
    rw [token, reported, settled.errors_next ahead, drain_errors_skip rfl, errors]

end SysY.Lexer

import SysY.Proofs.Syntax.Exact

/-! # What lexical errors are about

A lexical error belongs to a token that is not valid, or to a comment that is never closed. Such a
comment reaches to the end of the file, so that it is the last error, and no token stands for it. -/

namespace SysY

/-! ## One token -/

theorem Token.Kind.ofWord_ne_invalid (word : String) : Token.Kind.ofWord word ≠ .invalid :=
  ne_of_mem_of_not_mem (ofWord_mem word) (by decide)

namespace Scan

theorem commentLength?_le {bs : Bytes} {n : Nat} (h : commentLength? bs = some n) :
    n ≤ bs.length := by
  fun_induction commentLength? bs generalizing n with
  | case1 => cases h; simp
  | case2 b rest _ ih =>
    obtain ⟨m, inner, rfl⟩ := Option.map_eq_some_iff.mp h
    exact Nat.succ_le_succ (ih inner)
  | case3 => cases h

/-- A comment that is not closed reaches to the end. -/
theorem gap_unclosed {bs : Bytes} {n : Nat} (h : (gap bs).unclosed = some n) :
    (gap bs).length = bs.length := by
  fun_induction gap bs generalizing n with
  | case1 | case6 | case7 => cases h
  | case2 b rest isSpace ih =>
    obtain ⟨m, inner, -⟩ := Option.map_eq_some_iff.mp h
    simp [Gap.shift, ih inner, Nat.add_comm]
  | case3 line =>
    rename_i ih
    obtain ⟨m, inner, -⟩ := Option.map_eq_some_iff.mp h
    have short : (line.takeWhile (· ≠ 10)).length ≤ line.length :=
      (List.takeWhile_prefix _).length_le
    simp only [Gap.shift, ih inner, List.length_drop, List.length_cons]
    omega
  | case4 body n' closed _ ih =>
    obtain ⟨m, inner, -⟩ := Option.map_eq_some_iff.mp h
    have short := commentLength?_le closed
    simp only [Gap.shift, ih inner, List.length_drop, List.length_cons]
    omega
  | case5 body =>
    simp only [List.length_cons]
    omega

theorem sign_valid {b : UInt8} {rest : Bytes} (h : (sign b rest).issue = none) :
    (sign b rest).kind ≠ .invalid := by
  unfold sign at h ⊢
  split at h
  · rename_i k found
    obtain ⟨c, -, found⟩ := Option.bind_eq_some_iff.mp found
    unfold pair? at found
    split at found <;> cases found <;> nofun
  · split at h
    · rename_i k found
      unfold single? at found
      split at found <;> cases found <;> nofun
    · cases h

/-- A token without an issue is valid. -/
theorem lexeme_valid {b : UInt8} {rest : Bytes} (h : (lexeme b rest).issue = none) :
    (lexeme b rest).kind ≠ .invalid := by
  unfold lexeme at h ⊢
  by_cases isName : isNameStart b
  · rw [if_pos isName]
    exact Token.Kind.ofWord_ne_invalid _
  · by_cases isDigit : Literal.isDecimal b
    · rw [if_neg isName, if_pos isDigit] at h ⊢
      simp only [number, numberPart_eq] at h ⊢
      cases read : Literal.read (b :: rest.takeWhile isNamePart) with
      | ok v => simp
      | error e => simp [read] at h
    · rw [if_neg isName, if_neg isDigit] at h ⊢
      exact sign_valid h

/-- A token with an issue is not valid. -/
theorem lexeme_invalid {b : UInt8} {rest : Bytes} {code : Diag.Code} {detail : String}
    (h : (lexeme b rest).issue = some (code, detail)) :
    (lexeme b rest).kind = .invalid ∧ code ≠ .unterminatedComment := by
  unfold lexeme at h ⊢
  by_cases isName : isNameStart b
  · rw [if_pos isName] at h
    cases h
  · by_cases isDigit : Literal.isDecimal b
    · rw [if_neg isName, if_pos isDigit] at h ⊢
      simp only [number, numberPart_eq] at h ⊢
      cases read : Literal.read (b :: rest.takeWhile isNamePart) with
      | ok v => simp [read] at h
      | error e =>
        simp only [read, Option.some.injEq, Prod.mk.injEq] at h ⊢
        exact ⟨trivial, by rw [← h.1]; decide⟩
    · rw [if_neg isName, if_neg isDigit] at h ⊢
      unfold sign at h ⊢
      split at h
      · cases h
      · split at h
        · cases h
        · cases h
          exact ⟨by simp_all, by decide⟩

end Scan

/-! ## All tokens -/

/-- What the first of the errors that were recorded along with some tokens is about: a token that is
not valid, while those in front of it are, or a comment that is never closed. -/
inductive FirstIssue (ts : List Token) : List Diag.Error → Prop
  | none : (∀ t ∈ ts, t.kind ≠ .invalid) → FirstIssue ts []
  | token (first : List Token) (t : Token) (more : List Token) {e : Diag.Error}
      {es : List Diag.Error} :
      ts = first ++ t :: more →
      (∀ u ∈ first, u.kind ≠ .invalid ∧ u.span.stop ≤ e.span.start) →
      t.kind = .invalid → e.span = t.span → e.code ≠ .unterminatedComment → FirstIssue ts (e :: es)
  | comment {e : Diag.Error} : (∀ t ∈ ts, t.kind ≠ .invalid) → e.code = .unterminatedComment →
      FirstIssue ts [e]

theorem FirstIssue.cons {t : Token} {ts : List Token} {es : List Diag.Error}
    (valid : t.kind ≠ .invalid) (before : ∀ u ∈ ts, t.span.stop ≤ u.span.start)
    (h : FirstIssue ts es) : FirstIssue (t :: ts) es := by
  cases h with
  | none others => exact .none (by simpa using ⟨valid, others⟩)
  | token first u more eq early invalid span code =>
    refine .token (t :: first) u more (by rw [eq]; rfl) ?_ invalid span code
    rintro w (_ | ⟨_, mem⟩)
    · exact ⟨valid, by rw [span]; exact before u (by simp [eq])⟩
    · exact early w mem
  | comment others code => exact .comment (by simpa using ⟨valid, others⟩) code

namespace Lexer

/-- What reading one token does to the lexer. Either it is the end, perhaps after a comment that is
not closed, or it is a token of its own, with an error if it is not valid. -/
theorem next_cases {lx : Lexer} (h : lx.ahead = none) :
    lx.offset ≤ lx.next.1.span.start ∧ lx.next.1.span.start ≤ lx.next.2.offset ∧
    ((lx.next.1.kind = .eof ∧ (lx.next.2.errors = lx.errors ∨
        ∃ e, e.code = .unterminatedComment ∧ lx.next.2.errors = lx.errors ++ [e])) ∨
      lx.next.1.span.stop = lx.next.2.offset ∧
        (lx.next.1.kind ≠ .invalid ∧ lx.next.2.errors = lx.errors ∨
          lx.next.1.kind = .invalid ∧ ∃ e, e.span = lx.next.1.span ∧
            e.code ≠ .unterminatedComment ∧ lx.next.2.errors = lx.errors ++ [e])) := by
  rw [next_eq_scan h]
  cases closed : (Scan.gap lx.rest).unclosed with
  | some n =>
    have whole : lx.rest.drop (Scan.gap lx.rest).length = [] := by
      rw [Scan.gap_unclosed closed, List.drop_length]
    simp only [skipGap, closed, scan, complain, advance, whole]
    exact ⟨Nat.le_add_right _ _, Nat.le_refl _, .inl ⟨trivial, .inr ⟨_, rfl, rfl⟩⟩⟩
  | none =>
    simp only [skipGap, closed, scan]
    split
    · exact ⟨Nat.le_add_right _ _, Nat.le_refl _, .inl ⟨rfl, .inl rfl⟩⟩
    · rename_i b more _
      cases issue : (Scan.lexeme b more).issue with
      | none =>
        exact ⟨Nat.le_add_right _ _, Nat.le_add_right _ _,
          .inr ⟨rfl, .inl ⟨Scan.lexeme_valid issue, rfl⟩⟩⟩
      | some found =>
        obtain ⟨code, detail⟩ := found
        obtain ⟨invalid, other⟩ := Scan.lexeme_invalid issue
        exact ⟨Nat.le_add_right _ _, Nat.le_add_right _ _,
          .inr ⟨rfl, .inr ⟨invalid, _, rfl, other, rfl⟩⟩⟩

/-- The errors of a file from some position on, and what the first one is about. -/
theorem drain_issues (lx : Lexer) (h : lx.ahead = none) :
    ∃ new, lx.drain.2.errors = lx.errors ++ new ∧ FirstIssue lx.drain.1 new ∧
      ∀ t ∈ lx.drain.1, lx.offset ≤ t.span.start := by
  have ahead : lx.next.2.ahead = none := by
    rw [next_eq_scan h, scan_ahead, skipGap_ahead, h]
  obtain ⟨after, onward, step⟩ := next_cases h
  rw [drain]
  split
  · rename_i atEnd
    have single : ∀ t ∈ [lx.next.1], t.kind ≠ .invalid := by simp [atEnd]
    rcases step with ⟨-, same | ⟨e, code, errors⟩⟩ | ⟨-, ⟨-, same⟩ | ⟨invalid, -⟩⟩
    · exact ⟨[], by simp [same], .none single, by simpa using after⟩
    · exact ⟨[e], errors, .comment single code, by simpa using after⟩
    · exact ⟨[], by simp [same], .none single, by simpa using after⟩
    · rw [atEnd] at invalid
      cases invalid
  · rename_i more
    have := budget_next more
    obtain ⟨new, errors, issues, later⟩ := drain_issues lx.next.2 ahead
    have all : ∀ t ∈ lx.next.1 :: lx.next.2.drain.1, lx.offset ≤ t.span.start := by
      rintro t (_ | ⟨_, mem⟩)
      · exact after
      · exact Nat.le_trans after (Nat.le_trans onward (later t mem))
    rcases step with ⟨atEnd, -⟩ | ⟨stop, ⟨valid, same⟩ | ⟨invalid, e, span, code, first⟩⟩
    · exact absurd atEnd more
    · refine ⟨new, by rw [← same]; exact errors, issues.cons valid fun u mem => ?_, all⟩
      rw [stop]
      exact later u mem
    · exact ⟨e :: new, by simp [errors, first], .token [] _ _ rfl (by simp) invalid span code, all⟩
termination_by lx.budget

end Lexer

theorem FirstIssue.dropLast {ts : List Token} {t : Token} {es : List Diag.Error}
    (valid : t.kind ≠ .invalid) (h : FirstIssue (ts ++ [t]) es) : FirstIssue ts es := by
  cases h with
  | none others => exact .none fun u mem => others u (by simp [mem])
  | token first u more eq early invalid span code =>
    rcases List.eq_nil_or_concat more with rfl | ⟨more, w, rfl⟩
    · obtain rfl := List.singleton_inj.mp (List.append_inj' eq rfl).2
      exact absurd invalid valid
    · rw [List.concat_eq_append, ← List.cons_append, ← List.append_assoc] at eq
      exact .token first u more (List.append_inj' eq rfl).1 early invalid span code
  | comment others code => exact .comment (fun u mem => others u (by simp [mem])) code

/-- The lexical errors of a file, and what the first one is about. -/
theorem Lexed.ofFile_issues (f : Source.File) :
    FirstIssue (Lexed.ofFile f).tokens (Lexed.ofFile f).errors := by
  obtain ⟨ts, e, drained, isEnd, -⟩ := Lexer.drain_tokens (.ofFile f) rfl
  obtain ⟨new, errors, issues, -⟩ := Lexer.drain_issues (.ofFile f) rfl
  have same : (Lexed.ofFile f).errors = new := errors
  have tokens : (Lexed.ofFile f).tokens = ts := by simp [Lexed.ofFile, drained]
  rw [drained] at issues
  rw [same, tokens]
  exact issues.dropLast (by simp [isEnd])

end SysY

import SysY.Token.Cursor
import SysY.Token.Scan

/-! # The lexer

Reads a file token by token, with one token of lookahead. White space and comments are skipped.
After the end of the file every further token is the end token. -/

namespace SysY

/-- A reading position in a file. `rest` is what stands from `offset` on, `ahead` a token that was
looked at and not yet taken, `errors` holds all lexical errors that were reported so far, and
`first` is the error that is kept for the end. -/
structure Lexer where
  file : Nat
  offset : Nat
  rest : Bytes
  ahead : Option Token := none
  errors : List Diag.Error := []
  first : Option Diag.Error := none
deriving Repr

namespace Lexer

/-- The start of a file. -/
def ofFile (f : Source.File) : Lexer := { file := f.id, offset := 0, rest := f.content }

/-- The start of a file that has 32-bit offsets. -/
def start (f : Source.File) : Outcome Lexer := do return ofFile (← Cursor.ofFile f).file

theorem start_eq (f : Source.File) : start f =
    if f.content.length < Source.Span.offsetModulus then .ok (ofFile f) else .outOfRange := by
  rw [start, Cursor.ofFile]
  split <;> rfl

/-- Move on by `n` bytes. -/
def advance (lx : Lexer) (n : Nat) : Lexer :=
  { lx with offset := lx.offset + n, rest := lx.rest.drop n }

/-- Report an error about the `n` bytes from `start` on, and keep it if there was none before. -/
def complain (lx : Lexer) (code : Diag.Code) (start n : Nat) (detail : String) : Lexer :=
  let e : Diag.Error := .mk' code ⟨lx.file, start, start + n⟩ detail
  { lx with errors := lx.errors ++ [e], first := lx.first.or (some e) }

/-- Skip white space and comments. A comment that is not closed is an error. -/
def skipGap (lx : Lexer) : Lexer :=
  let g := Scan.gap lx.rest
  let next := lx.advance g.length
  match g.unclosed with
  | none => next
  | some n =>
    next.complain .unterminatedComment (lx.offset + n) (g.length - n) "unterminated block comment"

/-- Read a token where no gap is in the way. -/
def scan (lx : Lexer) : Token × Lexer :=
  match lx.rest with
  | [] => ({ kind := .eof, span := ⟨lx.file, lx.offset, lx.offset⟩ }, lx)
  | b :: more =>
    let l := Scan.lexeme b more
    let token : Token :=
      { kind := l.kind, span := ⟨lx.file, lx.offset, lx.offset + l.length⟩,
        text := lx.rest.take l.length }
    let next := lx.advance l.length
    match l.issue with
    | none => (token, next)
    | some (code, detail) => (token, next.complain code lx.offset l.length detail)

/-- Take the next token. -/
def next (lx : Lexer) : Token × Lexer :=
  match lx.ahead with
  | some t => (t, { lx with ahead := none })
  | none => lx.skipGap.scan

/-- Look at the next token without taking it. -/
def peek (lx : Lexer) : Token × Lexer :=
  let (t, lx') := lx.next
  (t, { lx' with ahead := some t })

/-- The first lexical error so far. -/
def error? (lx : Lexer) : Option Diag.Error := lx.first

/-- The number of tokens that can still follow is at most this. -/
def budget (lx : Lexer) : Nat := lx.rest.length + lx.ahead.toList.length

/-- Skipping blanks and comments leaves no more to do. -/
theorem budget_skipGap (lx : Lexer) (h : lx.ahead = none) : lx.skipGap.budget ≤ lx.budget := by
  simp only [skipGap, budget, complain, advance]
  split <;> simp [h]

/-- Scanning a token leaves less to do, unless it is the end. -/
theorem budget_scan {lx : Lexer} (h : lx.scan.1.kind ≠ .eof) :
    lx.scan.2.budget < lx.budget := by
  unfold scan at h ⊢
  split at h
  · simp at h
  · rename_i b more heq
    simp only [heq, budget, Scan.Lexeme.length]
    split <;> simp only [complain, advance, heq, List.length_drop, List.length_cons] <;> omega

/-- Taking a token that is not the end token uses up some of the budget. -/
theorem budget_next {lx : Lexer} (h : lx.next.1.kind ≠ .eof) : lx.next.2.budget < lx.budget := by
  cases ha : lx.ahead with
  | some t => simp [next, ha, budget]
  | none =>
    simp only [next, ha] at h ⊢
    exact Nat.lt_of_lt_of_le (budget_scan h) (budget_skipGap lx ha)

/-- Take all tokens up to the end token, which comes last. -/
def drain (lx : Lexer) : List Token × Lexer :=
  if _h : lx.next.1.kind = .eof then ([lx.next.1], lx.next.2)
  else
    let later := lx.next.2.drain
    (lx.next.1 :: later.1, later.2)
termination_by lx.budget
decreasing_by exact budget_next _h

end Lexer

/-- The result of reading a whole file: its tokens without the end token, the end token, and the
lexical errors in order. -/
structure Lexed where
  tokens : List Token
  eof : Token
  errors : List Diag.Error
deriving Repr

/-- Read a whole file. -/
def Lexed.ofFile (f : Source.File) : Lexed :=
  let (ts, lx) := (Lexer.ofFile f).drain
  { tokens := ts.dropLast
    eof := ts.getLast?.getD { kind := .eof, span := ⟨f.id, 0, 0⟩ }
    errors := lx.errors }

/-- Read a whole file that has 32-bit offsets. -/
def Lexed.read (f : Source.File) : Outcome Lexed := do
  let _ ← Lexer.start f
  return .ofFile f

theorem Lexed.read_eq_ok {f : Source.File} {l : Lexed} :
    Lexed.read f = .ok l ↔ f.content.length < Source.Span.offsetModulus ∧ Lexed.ofFile f = l := by
  rw [Lexed.read, Lexer.start_eq]
  split <;> rename_i small
  · exact ⟨fun h => ⟨small, Except.ok.inj h⟩, fun h => congrArg Except.ok h.2⟩
  · exact ⟨nofun, fun h => absurd h.1 small⟩

end SysY

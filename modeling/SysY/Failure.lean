import SysY.Diag.Error

/-! # Failures

The ways in which a computation ends without a result. -/

namespace SysY

/-- Why there is no result. -/
inductive Failure where
  /-- The input is wrong, and a diagnostic says how. -/
  | error (e : Diag.Error)
  /-- An expression cannot be evaluated while compiling. -/
  | notConstant
  /-- The work was called off. -/
  | canceled
  /-- Some other failure, described by a text. -/
  | other (text : String)
  /-- A precondition of an operation does not hold. The operations that check theirs say which;
  a number, index or size out of range has no text. -/
  | fault (text : Option String)
deriving DecidableEq, Repr, Inhabited

namespace Failure

/-- The failure in words, with the code of a diagnostic in front. -/
def text : Failure → String
  | error e => e.text
  | notConstant => "consteval: not a constant expression"
  | canceled => "context canceled"
  | other t => t
  | fault t => t.getD ""

/-- The code of a diagnostic, and the unknown code for all else. -/
def code : Failure → Diag.Code
  | error e => e.code
  | _ => .unknown

end Failure

/-- The result of an operation that can fail. -/
abbrev Outcome := Except Failure

/-- Fail with a diagnostic. -/
def Outcome.raise {α : Type} (e : Diag.Error) : Outcome α := .error (.error e)

/-- Fail because a precondition does not hold. -/
def Outcome.refuse {α : Type} (text : String) : Outcome α := .error (.fault (some text))

/-- Fail because a number, index or size is out of range. -/
def Outcome.outOfRange {α : Type} : Outcome α := .error (.fault none)

end SysY

import SysY.Failure

/-! # Diagnostics

What is shown to the user: a message with its severity, code and place, and notes about other
places. -/

namespace SysY.Diag

open Source (Span)

/-- How important a diagnostic is. -/
structure Severity where
  number : Nat
deriving DecidableEq, Repr

namespace Severity

def info : Severity := ⟨0⟩
def warning : Severity := ⟨1⟩
def error : Severity := ⟨2⟩

/-- The name of a severity. -/
def name (s : Severity) : String := (["INFO", "WARNING", "ERROR"][s.number]?).getD "UNKNOWN"

end Severity

/-- A remark about another place. -/
structure Note where
  span : Span
  message : String
deriving DecidableEq, Repr

/-- A diagnostic. -/
structure Diagnostic where
  severity : Severity := .error
  code : Code
  message : String
  span : Span
  notes : List Note := []
deriving DecidableEq, Repr

namespace Diagnostic

/-- The diagnostic of an error. A redefinition comes with a note on the previous definition. -/
def ofError (e : Error) : Diagnostic :=
  { code := e.code, message := e.message, span := e.span,
    notes := e.previous.toList.map (⟨·, "previous definition is here"⟩) }

/-- The diagnostic of a failure. A failure without a place gets an empty one. -/
def ofFailure : Failure → Diagnostic
  | .error e => ofError e
  | f => { code := .unknown, message := f.text, span := {} }

end Diagnostic
end SysY.Diag

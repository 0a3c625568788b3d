import SysY.Diag.Code
import SysY.Source.Span

/-! # Errors

The value with which the lexer, the parser and the lowering fail. The first error ends the work on
a unit. -/

namespace SysY.Diag
open Source (Span)

/-- An error: what went wrong, where, and about which name. -/
structure Error where
  code : Code
  span : Span
  /-- The offending identifier; empty when the error is not about one. -/
  name : String := ""
  /-- What exactly went wrong; empty when the code says it all. -/
  detail : String := ""
  /-- For a redefinition, where the name was defined before. -/
  previous : Option Span := none
  /-- For a broken invariant, what was found. -/
  cause : Option String := none
deriving DecidableEq, Repr, Inhabited

namespace Error

/-- The error in words, without its code. -/
def message (e : Error) : String :=
  let about := if e.name = "" then "" else s!" '{e.name}'"
  let detail := if e.detail = "" then "" else s!": {e.detail}"
  let cause := match e.cause with
    | some c => s!": {c}"
    | none => ""
  e.code.title ++ about ++ detail ++ cause

/-- The error in words, with its code. -/
def text (e : Error) : String := s!"{e.code.id}: {e.message}"

/-- An error with a code and a detail. -/
def mk' (code : Code) (span : Span) (detail : String) : Error :=
  { code := code, span := span, detail := detail }

/-- A name is defined a second time in a scope. -/
def redefinition (span : Span) (name : String) (previous : Span) : Error :=
  { code := .redefinition, span := span, name := name, previous := some previous }

/-- A name is used that is not defined. -/
def undefinedIdentifier (span : Span) (name : String) : Error :=
  { code := .undefinedIdentifier, span := span, name := name }

/-- Something is assigned that cannot be. -/
def illegalAssignment (span : Span) (name : String) : Error :=
  { code := .illegalAssignment, span := span, name := name }

/-- Where a constant is required; `what` says of what. -/
def constantRequired (span : Span) (what : String) : Error :=
  { code := .constantRequired, span := span, detail := what }

/-- A constant lacks its value. -/
def initializerRequired (span : Span) (name : String) : Error :=
  { code := .initializerRequired, span := span, name := name }

/-- A variable is declared without a type of values. -/
def voidVariable (span : Span) (name : String) : Error :=
  { code := .voidVariable, span := span, name := name }

/-- A `break` or `continue` outside of any loop. -/
def invalidControlTransfer (span : Span) (keyword : String) : Error :=
  { code := .invalidControlTransfer, span := span,
    detail := keyword ++ " statement not within a loop" }

/-- A value has the wrong type. -/
def typeMismatch (span : Span) (detail : String) : Error :=
  { code := .typeMismatch, span := span, detail := detail }

/-- An invariant of the compiler is broken; `cause` says which. -/
def internal (span : Span) (cause : String) : Error :=
  { code := .internalError, span := span, cause := some cause }

end Error
end SysY.Diag

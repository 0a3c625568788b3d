import SysY.Diag.Diagnostic
import SysY.Source.Files

/-! # Short diagnostics

One line per diagnostic and note, sorted, so that the text does not depend on the order in which
diagnostics were found. -/

namespace SysY.Diag.Short

open Source (Span Files)

/-- A line. -/
structure Line where
  path : String
  line : Nat
  column : Nat
  severity : String
  code : String
  message : String
deriving DecidableEq, Repr

namespace Line

/-- Whether a line stands before another one: by path, line, column, severity, code and message. -/
def le (a b : Line) : Bool :=
  if a.path ≠ b.path then a.path < b.path
  else if a.line ≠ b.line then a.line < b.line
  else if a.column ≠ b.column then a.column < b.column
  else if a.severity ≠ b.severity then a.severity < b.severity
  else if a.code ≠ b.code then a.code < b.code
  else a.message ≤ b.message

/-- A line as text. -/
def text (l : Line) : String :=
  s!"{l.severity} {l.code} {l.path}:{l.line}:{l.column} {l.message}"

end Line

/-- A path without leading `./`. -/
def dropDot (p : String) : String := String.ofList (go p.toList)
where
  /-- Drop as often as possible. -/
  go : List Char → List Char
    | '.' :: '/' :: rest => go rest
    | cs => cs

/-- The white space that is trimmed from messages. -/
def isBlank (c : Char) : Bool :=
  let n := c.toNat
  (9 ≤ n && n ≤ 13) || n == 32 || n == 0x85 || n == 0xA0 || n == 0x1680 ||
    (0x2000 ≤ n && n ≤ 0x200A) || n == 0x2028 || n == 0x2029 || n == 0x202F || n == 0x205F ||
    n == 0x3000

/-- Write line breaks as blanks. A carriage return before a newline belongs to it. -/
def joinLines : List Char → List Char
  | [] => []
  | c :: rest =>
    if c = '\r' ∧ rest.head? = some '\n' then joinLines rest
    else (if c = '\r' ∨ c = '\n' then ' ' else c) :: joinLines rest

/-- A message on one line, without white space around it. -/
def oneLine (s : String) : String :=
  let cs := (joinLines s.toList).dropWhile isBlank
  String.ofList (cs.reverse.dropWhile isBlank).reverse

/-- How severities are written. -/
def label (s : Severity) : String :=
  if s = .error then "error" else if s = .warning then "warning" else "info"

/-- The line of a message, if its file is known. -/
def line? (fs : Files) (span : Span) (severity : String) (code : Code) (message : String) :
    Option Line := do
  let f ← fs.get? span.file
  let p := f.position span.start
  return { path := dropDot f.path, line := p.line, column := p.column, severity := severity,
           code := code.id, message := oneLine message }

/-- The lines of a diagnostic. -/
def lines (fs : Files) (withNotes : Bool) (d : Diagnostic) : List Line :=
  (line? fs d.span (label d.severity) d.code d.message).toList ++
    if withNotes then d.notes.filterMap fun n => line? fs n.span "note" d.code n.message else []

/-- Diagnostics as text, without a newline at the end. -/
def render (fs : Files) (withNotes : Bool) (ds : List Diagnostic) : String :=
  String.intercalate "\n" (((ds.flatMap (lines fs withNotes)).mergeSort Line.le).map (·.text))

end SysY.Diag.Short

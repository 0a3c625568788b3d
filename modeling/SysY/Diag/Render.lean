import SysY.Diag.Bag
import SysY.Diag.Short
import SysY.Diag.Style
import SysY.Text.Cells
import SysY.Text.Json
import SysY.Text.Words

/-! # Rendering diagnostics

Diagnostics for people, with the source line and a marker below it; on one line each; or as
JSON. -/

namespace SysY.Diag

open Source (Span Files File)

/-- How paths are shown. -/
inductive PathMode where
  /-- Relative to the base directory when that is shorter. -/
  | auto
  | absolute
  | relative
  | basename
deriving DecidableEq, Repr

/-- The path mode with a name. -/
def PathMode.ofName : String → PathMode
  | "absolute" => absolute
  | "relative" => relative
  | "basename" => basename
  | _ => auto

/-- The output formats. -/
inductive Format where
  | pretty | short | json
deriving DecidableEq, Repr

/-- The format with a name. -/
def Format.ofName? : String → Option Format
  | "" | "pretty" => some pretty
  | "short" => some short
  | "json" => some json
  | _ => none

/-- Options of rendering. -/
structure Rendering where
  color : Bool := false
  pathMode : PathMode := .auto
  /-- The base directory; when empty, the working directory. -/
  base : String := ""
  notes : Bool := false
  /-- The working directory. -/
  cwd : String := "/"

namespace Rendering

/-! ## Paths -/

/-- A path relative to a base directory. A file that exists only in memory stays as it is. -/
def relativeTo (r : Rendering) (path base : String) : String :=
  if path.startsWith "<" then path
  else
    let base := if base = "" then r.cwd else base
    (Path.relative? base (Path.absolute r.cwd path)).getD path

/-- A path as it is shown. -/
def showPath (r : Rendering) (path base : String) : String :=
  match r.pathMode with
  | .absolute => Path.absolute r.cwd path
  | .basename => Path.base path
  | .relative => r.relativeTo path base
  | .auto =>
    let rel := r.relativeTo path base
    if rel.utf8ByteSize < path.utf8ByteSize && !rel.startsWith ".." then rel else path

/-- The file of a span. The empty span of an empty file counts as none. -/
def fileOf? (fs : Files) (s : Span) : Option File :=
  (fs.get? s.file).filter fun f => !(s.start == 0 && s.stop == 0 && f.content.isEmpty)

/-! ## Marked source lines -/

/-- Show tabs as four blanks. -/
def expandTabs (line : Bytes) : Bytes := line.flatMap fun b => if b = 9 then [32, 32, 32, 32] else [b]

/-- The marker below a line: a caret below byte column `first` and tildes before byte column `last`,
both counted from 1 and measured in display cells. -/
def underline (line : Bytes) (first last : Nat) : String :=
  let start := min (first - 1) line.length
  let stop := min (max ((last + Span.offsetModulus - 1) % Span.offsetModulus) start) line.length
  let lead := Text.Cells.width (expandTabs (line.take start))
  let width := Text.Cells.width ((line.take stop).drop start)
  String.ofList (List.replicate lead ' ' ++ '^' :: List.replicate (width - 1) '~')

/-- A line of source without carriage returns at its end. -/
def dropReturns (line : Bytes) : Bytes := (line.reverse.dropWhile (· == 13)).reverse

/-- A header with the place it is about, and below it the marked source line if the file is
known. -/
def located (r : Rendering) (fs : Files) (span : Span) (header : Bytes) (mark : Style) : Bytes :=
  let text := Bytes.ofString
  match fileOf? fs span with
  | none => header ++ text "\n"
  | some f =>
    let start := f.position span.start
    let stop := f.position span.stop
    let line := dropReturns (f.line start.line)
    let number := toString start.line
    let bar := Style.gutter.apply r.color (text "|")
    let last := if stop.line = start.line then stop.column else line.length + 1
    text s!"{r.showPath f.path r.base}:{start.line}:{start.column}: " ++ header ++ text "\n " ++
      Style.gutter.apply r.color (text number) ++ text " " ++ bar ++ text " " ++ expandTabs line ++
      text ("\n " ++ String.ofList (List.replicate number.length ' ') ++ " ") ++ bar ++ text " " ++
      mark.apply r.color (text (underline line start.column last)) ++ text "\n"

/-- The style of a severity. -/
def severityStyle (s : Severity) : Style :=
  if s = .error then .error else if s = .warning then .warning else .info

/-- A diagnostic for people. -/
def diagnostic (r : Rendering) (fs : Files) (d : Diagnostic) : Bytes :=
  let text := Bytes.ofString
  let header := (severityStyle d.severity).apply r.color (text (Text.lowerWord d.severity.name)) ++
    text " " ++ Style.code.apply r.color (text d.code.id) ++ text (": " ++ d.message)
  let notes := d.notes.map fun n =>
    r.located fs n.span (Style.note.apply r.color (text "note") ++ text (": " ++ n.message)) .note
  r.located fs d.span header .caret ++ if r.notes then notes.flatten else []

/-- Diagnostics for people, with an empty line between them. -/
def pretty (r : Rendering) (fs : Files) (ds : List Diagnostic) : Bytes :=
  (List.intersperse [10] (ds.map (r.diagnostic fs))).flatten

/-! ## JSON -/

/-- The lines of a JSON object with the given fields, each of which takes one or more lines. -/
def object (fields : List (String × List String)) : List String :=
  block "\x7b" "\x7d" (fields.map fun (k, ls) => prepend (Text.json k ++ ": ") ls)
where
  /-- Put a text in front of the first line. -/
  prepend (s : String) : List String → List String
    | [] => [s]
    | l :: ls => (s ++ l) :: ls
  /-- Put a text after the last line. -/
  append (s : String) : List String → List String
    | [] => [s]
    | [l] => [l ++ s]
    | l :: ls => l :: append s ls
  /-- Indent parts between two brackets, and put commas between them. -/
  block (opening closing : String) (parts : List (List String)) : List String :=
    if parts.isEmpty then [opening ++ closing]
    else
      let inner := parts.dropLast.map (append ",") ++ (parts.getLast?).toList
      opening :: inner.flatten.map ("  " ++ ·) ++ [closing]

/-- The lines of a JSON array. -/
def array (parts : List (List String)) : List String := object.block "[" "]" parts

/-- The place of a span. -/
def location (r : Rendering) (fs : Files) (s : Span) : List String :=
  let number (k : String) (n : Nat) : List (String × List String) :=
    if n = 0 then [] else [(k, [toString n])]
  match fileOf? fs s with
  | none => object [("file", ["\"\""])]
  | some f =>
    let p := f.position s.start
    object ([("file", [Text.json (r.showPath f.path "")])] ++ number "line" p.line ++
      number "col" p.column)

/-- A diagnostic as a JSON object. -/
def jsonDiagnostic (r : Rendering) (fs : Files) (d : Diagnostic) : List String :=
  let notes := d.notes.map fun n =>
    object [("message", [Text.json n.message]), ("location", r.location fs n.span)]
  object ([("severity", [Text.json d.severity.name]), ("code", [Text.json d.code.id]),
      ("title", [Text.json d.code.title]), ("message", [Text.json d.message]),
      ("location", r.location fs d.span)] ++
    if notes.isEmpty then [] else [("notes", array notes)])

/-- Diagnostics as a JSON array. -/
def json (r : Rendering) (fs : Files) (ds : List Diagnostic) : String :=
  String.intercalate "\n" (array (ds.map (r.jsonDiagnostic fs))) ++ "\n"

/-! ## All formats -/

/-- Diagnostics in a format. -/
def render (r : Rendering) (format : Format) (fs : Files) (ds : List Diagnostic) : Bytes :=
  match format with
  | .pretty => r.pretty fs ds
  | .short =>
    let s := Short.render fs r.notes ds
    Bytes.ofString (if s = "" then "" else s ++ "\n")
  | .json => Bytes.ofString (r.json fs ds)

end Rendering
end SysY.Diag

import SysY.Text.Json
import SysY.Text.Words

/-! # Trace events

What a compiler run did and when: spans begin and end, and points lie in between. Kinds, scopes,
levels and storage modes are small numbers with names. -/

namespace SysY.Trace

/-- What kind of event it is. -/
structure Kind where
  number : Nat
deriving DecidableEq, Repr

namespace Kind

def spanBegin : Kind := ⟨1⟩
def spanEnd : Kind := ⟨2⟩
def point : Kind := ⟨3⟩
def heartbeat : Kind := ⟨4⟩

/-- The name of a kind. -/
def name (k : Kind) : String :=
  (["unknown", "begin", "end", "point", "heartbeat"][k.number]?).getD "unknown"

/-- The mark of a kind in the text form. -/
def mark (k : Kind) : String := (["", "> ", "< ", "* ", "~ "][k.number]?).getD ""

end Kind

/-- How fine-grained an event is; coarser scopes have smaller numbers. -/
structure Scope where
  number : Nat
deriving DecidableEq, Repr

namespace Scope

/-- A whole command. -/
def driver : Scope := ⟨1⟩
/-- A stage of one compilation unit. -/
def pass : Scope := ⟨2⟩
/-- A function that is being lowered. -/
def module : Scope := ⟨3⟩
def node : Scope := ⟨4⟩

/-- The name of a scope. -/
def name (s : Scope) : String :=
  (["unknown", "driver", "pass", "module", "node"][s.number]?).getD "unknown"

end Scope

/-- How much is traced. -/
structure Level where
  number : Nat
deriving DecidableEq, Repr

namespace Level

def off : Level := ⟨0⟩
/-- Nothing is written, but recent events are kept for failures. -/
def error : Level := ⟨1⟩
def phase : Level := ⟨2⟩
def detail : Level := ⟨3⟩
def debug : Level := ⟨4⟩

/-- The name of a level. -/
def name (l : Level) : String :=
  (["off", "error", "phase", "detail", "debug"][l.number]?).getD "unknown"

/-- Whether events of a scope are recorded at a level. -/
def emits (l : Level) (s : Scope) : Bool :=
  if l = phase then s.number ≤ Scope.pass.number
  else if l = detail then s.number ≤ Scope.module.number
  else l = debug

/-- Read the name of a level. -/
def read (s : String) : Except String Level :=
  match Text.lowerWord s with
  | "" | "off" => return off
  | "error" => return error
  | "phase" => return phase
  | "detail" => return detail
  | "debug" => return debug
  | _ => .error ("invalid trace level: " ++ Text.quoted s ++ " (expected: off|error|phase|detail|debug)")

end Level

/-- Where events go: they are written at once, kept in a ring, or both. -/
structure Mode where
  number : Nat
deriving DecidableEq, Repr

namespace Mode

def stream : Mode := ⟨1⟩
def ring : Mode := ⟨2⟩
def both : Mode := ⟨3⟩

/-- The name of a storage mode. -/
def name (m : Mode) : String := (["unknown", "stream", "ring", "both"][m.number]?).getD "unknown"

/-- Read the name of a storage mode. -/
def read (s : String) : Except String Mode :=
  match Text.lowerWord s with
  | "stream" => return stream
  | "ring" => return ring
  | "both" => return both
  | _ => .error ("invalid storage mode: " ++ Text.quoted s ++ " (expected: stream|ring|both)")

end Mode

/-- How events are written. -/
structure Format where
  number : Nat
deriving DecidableEq, Repr

namespace Format

/-- The name of the output file decides. -/
def auto : Format := ⟨0⟩
/-- A line for people. -/
def text : Format := ⟨1⟩
/-- A JSON object on a line. -/
def ndjson : Format := ⟨2⟩

/-- Read the name of a format. -/
def read (s : String) : Except String Format :=
  match Text.lowerWord s with
  | "" | "auto" => return auto
  | "text" => return text
  | "ndjson" | "json" => return ndjson
  | _ => .error ("invalid trace format: " ++ Text.quoted s ++ " (expected: auto|text|ndjson)")

/-- The format for an output file. -/
def forPath (f : Format) (path : String) : Format :=
  if f ≠ auto then f
  else if path.endsWith ".ndjson" || path.endsWith ".jsonl" then ndjson
  else text

end Format

/-- An event. Numbers of spans and sequence numbers count from 1, and 0 means none. -/
structure Event where
  /-- The time as text. -/
  time : String := ""
  seq : Nat := 0
  kind : Kind
  scope : Scope
  span : Nat := 0
  parent : Nat := 0
  /-- The worker that reported the event, if known. -/
  worker : Option Nat := none
  name : String := ""
  detail : String := ""
  extra : List (String × String) := []
deriving Repr, DecidableEq

namespace Event

/-- The extra fields, sorted by key. -/
def sortedExtra (e : Event) : List (String × String) :=
  e.extra.mergeSort fun a b => decide (¬ b.1 < a.1)

/-- An event as a line of text. -/
def toText (e : Event) : String :=
  let extra := e.sortedExtra.map fun (k, v) => k ++ "=" ++ v
  "#" ++ Text.padRight 5 (toString e.seq) ++ " " ++ Text.padRight 6 e.scope.name ++ " " ++
    (if e.parent = 0 then "" else "  ") ++ e.kind.mark ++ e.name ++
    (if e.detail = "" then "" else " (" ++ e.detail ++ ")") ++
    (if extra.isEmpty then "" else " \x7b" ++ String.intercalate ", " extra ++ "\x7d") ++ "\n"

/-- An event as a JSON object. Empty fields are left out. -/
def toJson (e : Event) : String :=
  let field (k v : String) : String := Text.json k ++ ":" ++ v
  let number (k : String) (n : Nat) : List String :=
    if n = 0 then [] else [field k (toString n)]
  let extra := e.sortedExtra.map fun (k, v) => field k (Text.json v)
  "\x7b" ++ String.intercalate ","
    ([field "time" (Text.json e.time), field "seq" (toString e.seq),
      field "kind" (Text.json e.kind.name), field "scope" (Text.json e.scope.name)] ++
     number "span_id" e.span ++ number "parent_id" e.parent ++
     (e.worker.map fun w => field "gid" (toString w)).toList ++
     [field "name" (Text.json e.name)] ++
     (if e.detail = "" then [] else [field "detail" (Text.json e.detail)]) ++
     (if extra.isEmpty then []
      else [field "extra" ("\x7b" ++ String.intercalate "," extra ++ "\x7d")])) ++ "\x7d\n"

/-- An event in a format. -/
def render (e : Event) (f : Format) : String := if f = .ndjson then e.toJson else e.toText

end Event
end SysY.Trace

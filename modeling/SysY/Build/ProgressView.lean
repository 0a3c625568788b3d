import SysY.Build.Stage
import SysY.Path
import SysY.Text.Cells
import SysY.Text.Words

/-! # The progress view

What a terminal shows during a build: a line per file, and a bar. -/

namespace SysY.Build

/-- What the view is told about a file. Stages and statuses are known by name. -/
structure Notice where
  file : String
  stage : String
  status : String
deriving DecidableEq, Repr

/-- The notice of an event. -/
def Event.notice (e : Event) : Notice :=
  ⟨e.file, (e.stage.map (·.name)).getD "", e.status.name⟩

/-- A file in the view. -/
structure FileLine where
  path : String
  label : String := "queued"
  stage : String := ""
  status : String := "queued"
deriving DecidableEq, Repr

/-- What is shown for a stage and a status. -/
def Notice.label (n : Notice) : String :=
  if n.status = "working" then
    match n.stage with
    | "lex" => "lexing"
    | "parse" => "parsing"
    | "lower" => "lowering"
    | "validate" => "validating"
    | "emit" => "emitting"
    | stage => stage
  else if n.status = "" then "queued"
  else n.status

namespace FileLine

/-- Take over a notice. -/
def apply (l : FileLine) (n : Notice) : FileLine :=
  { l with
    label := n.label
    stage := if n.stage = "" then l.stage else n.stage
    status := n.status }

/-- How many stages of a file are behind it. A file that has ended has them all behind it. -/
def stagesDone (l : FileLine) : Nat :=
  if ["done", "cached", "error"].contains l.status then Stage.all.length
  else if l.status = "working" then ((Stage.all.map (·.name)).idxOf? l.stage).getD 0
  else 0

end FileLine

/-- The state of the view. -/
structure ProgressView where
  title : String
  /-- Paths are shown relative to this directory. -/
  base : String
  lines : List FileLine
  /-- Notices that have not been delivered yet. -/
  queue : List Notice := []
  /-- The width of the terminal. -/
  width : Nat := 80
  /-- The width of the bar. -/
  barWidth : Nat := 76
  /-- Which picture the spinner shows. -/
  frame : Nat := 0
  done : Bool := false

namespace ProgressView

/-- The view of a build that has not begun. -/
def start (title base : String) (files : List String) : ProgressView :=
  { title := title, base := base, lines := files.map fun f => { path := f } }

/-- Take over a notice. If a file is listed twice, its last line is meant. -/
def apply (v : ProgressView) (n : Notice) : ProgressView :=
  match (v.lines.reverse).findIdx? (·.path == n.file) with
  | none => v
  | some i => { v with lines := v.lines.modify (v.lines.length - 1 - i) (·.apply n) }

/-- The build has ended. -/
def finish (v : ProgressView) : ProgressView := { v with done := true }

/-- The terminal has a new width. -/
def resize (v : ProgressView) (width : Int) : ProgressView :=
  if width ≤ 0 then v
  else { v with width := width.toNat, barWidth := max (width.toNat - 4) 10 }

/-- Let the spinner turn. -/
def tick (v : ProgressView) : ProgressView := if v.done then v else { v with frame := v.frame + 1 }

/-- Queue a notice. -/
def send (v : ProgressView) (n : Notice) : ProgressView := { v with queue := v.queue ++ [n] }

/-- Deliver the next notice, or the end of the build if there is none. -/
def pump (v : ProgressView) : ProgressView :=
  match v.queue with
  | [] => v.finish
  | n :: queue => { v with queue := queue }.apply n

/-- The share of the work that is done, with four decimals. It is undefined without files. -/
def fraction (v : ProgressView) : String :=
  let total := v.lines.length * Stage.all.length
  if total = 0 then "NaN"
  else
    let part := v.lines.foldl (fun n l => n + l.stagesDone) 0
    let scaled := (2 * part * 10000 + total) / (2 * total)
    s!"{scaled / 10000}." ++ Text.padLeft 4 '0' (toString (scaled % 10000))

/-! ## Text -/

/-- The pictures of the spinner. -/
def frames : List String := ["⣾ ", "⣽ ", "⣻ ", "⢿ ", "⡿ ", "⣟ ", "⣯ ", "⣷ "]

/-- A path as it is shown. -/
def display (v : ProgressView) (path : String) : String :=
  if v.base = "" then path
  else ((Path.relative? v.base path).filter (!·.startsWith "..")).getD path

/-- Cut a text down to a width, with an ellipsis if there is room for one. -/
def truncate (s : String) (width : Int) : String :=
  if width ≤ 0 then s
  else
    let tail := if width ≤ 3 then "" else "..."
    let cut := Text.Cells.truncate (Bytes.ofString s) width.toNat (Bytes.ofString tail)
    (Bytes.toString? cut).getD s

/-- The bar, which moves only when the build has ended. -/
def bar (v : ProgressView) : String :=
  let percent := if v.done then " 100%" else "   0%"
  let cell := if v.done then '█' else '░'
  String.ofList (List.replicate (v.barWidth - percent.length) cell) ++ percent

/-- The whole view. Without files there is nothing to show. -/
def text (v : ProgressView) : String :=
  if v.lines.isEmpty then ""
  else
    let header := if v.done then "done: " ++ v.title
      else ((frames[v.frame % frames.length]?).getD "") ++ " " ++ v.title
    let line (l : FileLine) : String :=
      "  " ++ Text.padLeft 10 ' ' l.label ++ " " ++
        truncate (v.display l.path) (max (v.width - 16) 20 : Nat) ++ "\n"
    header ++ "\n\n" ++ String.join (v.lines.map line) ++ "\n" ++ v.bar ++ "\n"

end ProgressView
end SysY.Build

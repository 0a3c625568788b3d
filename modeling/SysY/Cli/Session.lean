import SysY.Build.Request
import SysY.Build.Timer
import SysY.Cli.Command
import SysY.Diag.Render
import SysY.Manifest
import SysY.Release
import SysY.Trace.Tracer

/-! # Sessions

What a run of a command knows and changes: the file tree, its two outputs, and what is traced, timed
and profiled on the side. -/

namespace SysY.Cli

/-- What a run is started with. -/
structure Environment where
  args : List String
  stdin : Bytes := []
  /-- Whether the run has been called off. -/
  canceled : Bool := false
  /-- The directory for caches; empty if it is not set. -/
  cacheHome : String := ""
  /-- The home of the user; empty if it is not set. -/
  home : String := ""
  /-- Whether output is coloured if that is not said otherwise. -/
  autoColor : Bool := false
  release : Release := .current
  /-- What is shown for times and durations. -/
  stamp : Trace.Stamp := {}

/-- A trace that is being recorded. -/
structure Tracing where
  tracer : Trace.Tracer
  /-- The span of the whole command. -/
  span : Trace.Span
  /-- The file that the trace is written to, if it is not the error output. -/
  output : Option String := none

/-- The state of a run. -/
structure Session where
  disk : Disk
  stdout : Bytes := []
  stderr : Bytes := []
  timer : Option Build.Timer := none
  tracing : Option Tracing := none
  /-- The file for the memory profile, which is written at the end. -/
  memoryProfile : Option String := none

/-- Why a run ends early. -/
inductive Stop where
  /-- What went wrong has been shown. -/
  | reported
  | failed (text : String)
deriving DecidableEq, Repr

/-- A step of a run. What it did stays done if it fails. -/
abbrev Step := EStateM Stop Session

namespace Step

/-- End the run with a text. -/
def fail {α : Type} (text : String) : Step α := throw (.failed text)

/-- Go on with a result, or fail with a text. -/
def orFail {α : Type} : Except String α → Step α
  | .ok a => return a
  | .error e => fail e

/-- Write to the output. -/
def print (bs : Bytes) : Step Unit := modify fun s => { s with stdout := s.stdout ++ bs }

/-- Write to the error output. -/
def printError (bs : Bytes) : Step Unit := modify fun s => { s with stderr := s.stderr ++ bs }

/-- Change the file tree; an operation that fails ends the run. -/
def changeDisk (f : Disk → Except Disk.Error Disk) (context : String) : Step Unit := do
  match f (← get).disk with
  | .ok d => modify fun s => { s with disk := d }
  | .error e => fail (context ++ e.text)

/-! ## Tracing -/

/-- Write what a tracer has put out to where its output goes. -/
def deliver (t : Tracing) : Step Unit := do
  let text := Bytes.ofString t.tracer.output
  modify fun s =>
    let s := { s with tracing := some { t with tracer := { t.tracer with output := "" } } }
    match t.output with
    | none => { s with stderr := s.stderr ++ text }
    | some path =>
      let old := (s.disk.read path).toOption.getD []
      { s with disk := (s.disk.write path (old ++ text)).toOption.getD s.disk }

/-- Trace tasks inside of the command. -/
def trace (tasks : List Trace.Task) : Step Unit := do
  if let some t := (← get).tracing then
    deliver { t with tracer := t.tracer.recordAll t.span.parent t.span.id tasks }

/-- Start to trace a command. -/
def startTrace (t : Tracing) (command : String) : Step Unit := do
  let (span, tracer) := t.tracer.start .driver ("sysyc " ++ command) 0
  deliver { t with tracer := tracer, span := span }

/-- End a trace. If the command failed, the most recent events are shown. -/
def endTrace (failed : Bool) : Step Unit := do
  if let some t := (← get).tracing then
    let (span, tracer) := t.tracer.finish t.span ""
    deliver { t with tracer := tracer, span := span }
    if failed then
      if let some text := tracer.dump? .text then
        printError (Bytes.ofString ("trace (most recent events):\n" ++ text))

/-! ## Timing -/

/-- Add phases to the timings. -/
def time (phases : List Build.Phase) : Step Unit :=
  modify fun s => { s with timer := s.timer.map fun t => { t with phases := t.phases ++ phases } }

end Step
end SysY.Cli

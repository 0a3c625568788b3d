import SysY.Build.Stage
import SysY.Diag.Diagnostic
import SysY.Koopa.Text
import SysY.Koopa.Validate
import SysY.Lower.Unit
import SysY.Syntax.Parser
import SysY.Trace.Tracer

/-! # Compiling a file

From source text to the text of intermediate code. The first stage that fails ends the work. -/

namespace SysY.Build

open Source (Files File)

/-- The outcome of compiling one file. -/
structure Compiled where
  path : String
  /-- The files that spans refer to. -/
  files : Files
  program : Option Koopa.Program := none
  /-- The text of the intermediate code. -/
  ir : String := ""
  /-- Whether the text was taken from the cache. -/
  cached : Bool := false
  failure : Option Failure := none

namespace Compiled

/-- Whether a file did not compile. -/
def failed (c : Compiled) : Bool := c.failure.isSome

/-- The outcome in words. -/
def text (c : Compiled) : String :=
  match c.failure with
  | some f => s!"{c.path}: {f.text}"
  | none => c.path ++ if c.cached then ": cached" else ": ok"

/-- The diagnostic of a failure. -/
def diagnostic? (c : Compiled) : Option Diag.Diagnostic := c.failure.map Diag.Diagnostic.ofFailure

end Compiled

/-- A stage that was run: why it failed if it did, and what is traced inside of it. -/
structure StageRun where
  stage : Stage
  failure : Option Failure := none
  inner : List Trace.Task := []

/-- The outcome of compiling one file with all that was reported on the way. -/
structure Compilation where
  result : Compiled
  events : List Event := []
  phases : List Phase := []
  trace : List Trace.Task := []

/-- Checking and printing a program. -/
def finishProgram (id : Nat) (p : Koopa.Program) : List StageRun × Outcome (Koopa.Program × String) :=
  match p.validate with
  | .error f => ([⟨.validate, some f, []⟩], .error f)
  | .ok (some issues) =>
    let f := Failure.error (.internal { file := id } issues)
    ([⟨.validate, some f, []⟩], .error f)
  | .ok none =>
    match p.text with
    | .error f => ([⟨.validate, none, []⟩, ⟨.emit, some f, []⟩], .error f)
    | .ok t => ([⟨.validate, none, []⟩, ⟨.emit, none, []⟩], .ok (p, t))

/-- The trace of the function bodies that were lowered. -/
def bodyTasks (bodies : List (String × Bool)) : List Trace.Task :=
  bodies.map fun (name, ok) =>
    .span .module ("lower:" ++ name) [] (if ok then "ok" else "error") []

/-- All stages of compiling a file, up to the first that fails. -/
def runStages (file : File) (withLibrary : Bool) :
    List StageRun × Outcome (Koopa.Program × String) :=
  match Lexed.read file with
  | .error f => ([⟨.lex, some f, []⟩], .error f)
  | .ok lexed =>
    match lexed.errors.head? with
    | some e => ([⟨.lex, some (.error e), []⟩], .raise e)
    | none =>
      match (Parsed.ofLexed lexed false).result with
      | .error f => ([⟨.lex, none, []⟩, ⟨.parse, some f, []⟩], .error f)
      | .ok unit =>
        let lowered := Lowered.ofUnit unit withLibrary false
        let inner := (bodyTasks lowered.bodies).map Trace.Task.beside
        let before : List StageRun := [⟨.lex, none, []⟩, ⟨.parse, none, []⟩]
        match lowered.result with
        | .error f => (before ++ [⟨.lower, some f, inner⟩], .error f)
        | .ok p =>
          let (runs, r) := finishProgram file.id p
          (before ++ ⟨.lower, none, inner⟩ :: runs, r)

namespace StageRun

/-- The progress events of a stage. -/
def events (path : String) (r : StageRun) : List Event :=
  { file := path, stage := some r.stage, status := .working } ::
    match r.failure with
    | none => []
    | some f => [{ file := path, stage := some r.stage, status := .error, failure := some f }]

/-- The timed phase of a stage. -/
def phase (path : String) (r : StageRun) : Phase :=
  { file := path, name := r.stage.name, note := if r.failure.isSome then "failed" else "" }

/-- The trace of a stage. -/
def task (r : StageRun) : Trace.Task :=
  .span .pass r.stage.name [] ((r.failure.map (·.text)).getD "") r.inner

end StageRun

/-- Compile a file. Work that was called off does not start. -/
def compile (files : Files) (file : File) (withLibrary canceled : Bool) : Compilation :=
  let base : Compiled := { path := file.path, files := files }
  let (runs, r) :=
    if canceled then ([], .error .canceled) else runStages file withLibrary
  let result := match r with
    | .ok (p, text) => { base with program := some p, ir := text }
    | .error f => { base with failure := some f }
  let last : List Event :=
    match canceled, r with
    | true, _ => [{ file := file.path, stage := some .lex, status := .error, failure := some .canceled }]
    | false, .ok _ => [{ file := file.path, stage := some .emit, status := .done }]
    | false, .error _ => []
  let detail := match result.failure with
    | none => "ok"
    | some f => f.code.id
  { result := result
    events := runs.flatMap (·.events file.path) ++ last
    phases := runs.map (·.phase file.path)
    trace := [.span .pass ("compile:" ++ file.path) [] detail (runs.map (·.task))] }

/-- Compile a text that exists only in memory. -/
def compileText (name : String) (content : Bytes) (withLibrary canceled : Bool) : Compilation :=
  let files := ({} : Files).addVirtual name content
  compile files ((files.get? 0).getD default) withLibrary canceled

end SysY.Build

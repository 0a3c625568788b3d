import SysY.Build.Watch
import SysY.Cli.Session
import SysY.Syntax.Dump

/-! # Running commands

A run reads a command line, sets up what all commands share, and carries the command out. Timings and
traces are shown whether it succeeds or not. -/

namespace SysY.Cli

open Source (Files File)
open Build (Compiled)

/-- What all commands share. -/
structure Setup where
  manifest : Manifest
  /-- Whether the project has a manifest. -/
  found : Bool
  /-- What is wrong with the manifest. It only matters to commands that build. -/
  problem : Option Manifest.Problem
  color : Bool
  quiet : Bool
  withLibrary : Bool
  format : Diag.Format

namespace Step

/-! ## Setting up -/

/-- Whether output is coloured. -/
def readColor (env : Environment) (mode : String) : Step Bool :=
  match Text.lowerWord mode with
  | "on" | "always" => return true
  | "off" | "never" => return false
  | "auto" | "" => return env.autoColor
  | _ => fail ("invalid --color value " ++ Text.quoted mode ++ " (expected auto|on|off)")

/-- Make the files of profiles. The memory profile is written at the end, or when the others cannot
be started. -/
def startProfiles (a : Arguments) : Step Unit := do
  let cpu := a.text "cpuprofile" ""
  let memory := a.text "memprofile" ""
  let execution := a.text "exectrace" ""
  if cpu ≠ "" then changeDisk (·.write cpu []) "prof: "
  if execution ≠ "" then
    match (← get).disk.write execution [] with
    | .ok d => modify fun s => { s with disk := d }
    | .error e =>
      modify fun s => { s with disk := (s.disk.write memory []).toOption.getD s.disk }
      fail ("prof: exec trace: " ++ e.text)
  if memory ≠ "" then modify fun s => { s with memoryProfile := some memory }

/-- Start the trace that flags or the manifest ask for. An output without a level means the level
`phase`. -/
def startTracing (env : Environment) (c : Command) (a : Arguments) (m : Manifest) : Step Unit := do
  let setting (flag fallback absent : String) : String :=
    (a.text? flag).getD (if fallback ≠ "" then fallback else absent)
  let output := setting "trace" m.traceOutput ""
  let level ← orFail (Trace.Level.read (setting "trace-level" m.traceLevel "off"))
  let level := if level = .off ∧ output ≠ "" then .phase else level
  if level = .off then return
  let mode ← orFail (Trace.Mode.read (setting "trace-mode" m.traceMode "stream"))
  let format ← orFail (Trace.Format.read (a.text "trace-format" "auto"))
  let file := if output = "" ∨ output = "-" then none else some output
  if mode ≠ .ring then
    if let some path := file then changeDisk (·.write path []) "trace: open output: "
  let tracer ← orFail ((Trace.Tracer.create level mode (format.forPath output)
    (a.integer "trace-ring-size" 4096) env.stamp).mapError (·.text))
  startTrace { tracer := tracer, span := {}, output := file } c.name

/-- Set up a run. -/
def setUp (env : Environment) (c : Command) (a : Arguments) : Step Setup := do
  let color ← readColor env (a.text "color" "auto")
  if a.isOn "timings" then modify fun s => { s with timer := some {} }
  let formatName := a.text "diag-format" "pretty"
  match Diag.Format.ofName? formatName with
  | none => fail ("invalid --diag-format " ++ Text.quoted formatName ++ " (expected pretty|short|json)")
  | some format =>
    let d := (← get).disk
    let wd := d.workingPath
    let (manifest, found, problem) := match Manifest.discover d wd with
      | .ok (m, found) => (m, found, none)
      | .error p => (Manifest.default wd, false, some p)
    startProfiles a
    startTracing env c a manifest
    let withLibrary := match a.get? "no-prelude" with
      | some (.switch off) => !off
      | _ => manifest.preludeEnabled
    return { manifest, found, problem, color, format, withLibrary, quiet := a.isOn "quiet" }

/-! ## Parts of commands -/

/-- Tell something that is not essential. -/
def inform (s : Setup) (text : String) : Step Unit := do
  if !s.quiet then printError (Bytes.ofString text)

/-- Show the diagnostics of files that failed. If there are any, the run ends. -/
def report (s : Setup) (units : List Compiled) : Step Unit := do
  let r : Diag.Rendering :=
    { color := s.color, base := s.manifest.root, notes := true, cwd := (← get).disk.workingPath }
  let failed := units.filter (·.failed)
  for u in failed do
    printError (r.render s.format u.files u.diagnostic?.toList)
  if !failed.isEmpty then throw .reported

/-- Read the single input of a command; `-` is the standard input. What cannot be read is reported. -/
def loadOne (env : Environment) (s : Setup) (path : String) : Step (Files × File) := do
  let files ←
    if path = "-" then pure (({} : Files).addVirtual "<stdin>" env.stdin)
    else match (← get).disk.read path with
      | .ok content => pure (({} : Files).addLoaded path content)
      | .error e => do
        report s [{ path := path, files := {}, failure := some (.error (.mk' .loadFailed {} e.text)) }]
        pure {}
  return (files, (files.get? 0).getD default)

/-- Write a text to a file, or to the output if no file is given. -/
def writeText (path text : String) : Step Unit := do
  let bytes := Bytes.ofString text
  if path = "" ∨ path = "-" then print bytes
  else
    changeDisk (·.createDirs (Path.dir path)) ""
    changeDisk (·.write path bytes) ""

/-- Check that the manifest can be used to build. -/
def requireManifest (env : Environment) (s : Setup) : Step Unit := do
  if let some p := s.problem then fail p.failure.text
  if s.found then
    let v ← orFail env.release.semantic
    orFail ((s.manifest.checkToolchain v).mapError (·.text))

/-- The source files to build: those of the arguments, or those of the project. -/
def buildInputs (s : Setup) (words : List String) : Step (List String) := do
  let d := (← get).disk
  if words.isEmpty then
    if !s.found then fail ("no input files and no " ++ Manifest.fileName ++ " found")
    let files ← orFail (s.manifest.sourceFiles d)
    if files.isEmpty then
      fail (Path.join [s.manifest.root, Manifest.fileName] ++ ": package.sources matched no files")
    return files
  return (← orFail (words.mapM (Manifest.collect d))).flatten

/-- The cache to use. -/
def openCache (env : Environment) : Step Build.Cache := do
  let dir ← orFail (Build.Cache.defaultDir env.cacheHome env.home)
  let (cache, d) ← orFail (Build.Cache.create dir (← get).disk)
  modify fun s => { s with disk := d }
  return cache

/-- The build that a command line asks for. -/
def buildRequest (env : Environment) (s : Setup) (a : Arguments) : Step Build.Request := do
  requireManifest env s
  let files ← buildInputs s a.words
  let outDir := a.text "out-dir" ""
  let cache ← if a.isOn "no-cache" || !s.manifest.cacheEnabled then pure none
    else some <$> openCache env
  return { files, cache
           outDir := if outDir = "" then s.manifest.outputDir else outDir
           baseDir := s.manifest.root
           toolchain := env.release.version
           withLibrary := s.withLibrary }

/-- Carry out a build. -/
def build (env : Environment) (req : Build.Request) : Step Build.Report := do
  let (b, d) := Build.run (← get).disk req env.canceled
  modify fun s => { s with disk := d }
  time b.phases
  trace b.trace
  return b

/-! ## Commands -/

/-- Build files and tell how many there were. -/
def runBuild (env : Environment) (s : Setup) (a : Arguments) : Step Unit := do
  let view := a.text "ui" "auto"
  let mode := (String.ofList (((Text.lowerWord view).toList.dropWhile Manifest.isSpace).reverse.dropWhile
    Manifest.isSpace).reverse)
  if !(["", "auto", "on", "off"].contains mode) then
    fail ("invalid --ui value " ++ Text.quoted view ++ " (expected auto|on|off)")
  let b ← build env (← buildRequest env s a)
  if env.canceled then fail Failure.canceled.text
  report s b.units
  if let some f := b.failure then fail f.text
  inform s (s!"built {b.units.length} unit(s) in {env.stamp.duration} ({b.cachedCount} cached)\n")

/-- Compile one file and print the intermediate code. -/
def runIr (env : Environment) (s : Setup) (a : Arguments) (path : String) : Step Unit := do
  let (files, file) ← loadOne env s path
  let c := Build.compile files file s.withLibrary env.canceled
  time c.phases
  trace c.trace
  report s [c.result]
  writeText (a.text "output" "") c.result.ir

/-- Print the tokens of a file. -/
def runTokenize (env : Environment) (s : Setup) (path : String) : Step Unit := do
  let (files, file) ← loadOne env s path
  let (tokens, lexer) := (← orFail ((Lexer.start file).mapError (·.text))).drain
  for t in tokens do
    if t.kind ≠ .eof then
      let p := file.position t.span.start
      print (Bytes.ofString s!"{p.line}:{p.column}\t{t.kind.name}\t" ++ t.text ++ [10])
  if let some e := lexer.error? then
    report s [{ path := path, files := files, failure := some (.error e) }]

/-- Print the syntax tree of a file. -/
def runParse (env : Environment) (s : Setup) (path : String) : Step Unit := do
  let (files, file) ← loadOne env s path
  match Lexed.read file >>= fun l => (Parsed.ofLexed l env.canceled).result with
  | .error f => report s [{ path := path, files := files, failure := some f }]
  | .ok unit =>
    let text ← orFail (unit.dump.mapError (·.text))
    print (Bytes.ofString text)

/-- What is watched: the arguments, or the sources of the project. -/
def watchedPaths (m : Manifest) (words : List String) : List String :=
  if !words.isEmpty then words
  else if m.sources.isEmpty then [m.root]
  else m.sources.map m.resolve

/-- The first build of a watch. A watch goes on after files that do not compile, but not after a
build that could not be done. -/
def runWatch (env : Environment) (s : Setup) (a : Arguments) : Step Unit := do
  if a.words.isEmpty && !s.found then requireManifest env s
  else
    let _ ← orFail (Build.watchDirs (← get).disk (watchedPaths s.manifest a.words))
    let b ← build env (← buildRequest env s a)
    if !env.canceled then
      tryCatch (report s b.units) fun _ => pure ()
      inform s s!"[{env.stamp.clock}] {b.units.length} unit(s), {b.failed.length} failed\n"
      if let some f := b.failure then
        if f ≠ Build.buildFailed then fail f.text

/-- Empty the cache. -/
def runCacheClean (env : Environment) (s : Setup) : Step Unit := do
  let cache ← openCache env
  let ((n, problem), d) := cache.clean (← get).disk
  modify fun s => { s with disk := d }
  if let some e := problem then fail e
  inform s s!"removed {n} cached unit(s) from {cache.dir}\n"

/-- How to use a command, in short. -/
def usage (c : Command) : String :=
  "Usage:\n  " ++ c.path ++ (if c.children.isEmpty then "" else " [command]") ++ " [flags]\n" ++
    String.join (c.children.map fun (w, _) => "  " ++ w ++ "\n") ++
    String.join (c.allFlags.map fun f => "      " ++ f.label ++ "\n")

/-- Carry out a command. -/
def execute (env : Environment) (c : Command) (a : Arguments) : Step Unit := do
  let s ← setUp env c a
  let path := a.words.head?.getD ""
  match c with
  | .build => runBuild env s a
  | .ir => runIr env s a path
  | .tokenize => runTokenize env s path
  | .parse => runParse env s path
  | .watch => runWatch env s a
  | .cacheClean => runCacheClean env s
  | .version => print (Bytes.ofString (env.release.banner s.color ++ "\n"))
  | c => print (Bytes.ofString (usage c))

/-- Show timings, end the trace and write the memory profile. -/
def tearDown (env : Environment) (failed : Bool) : Step Unit := do
  if let some t := (← get).timer then printError (Bytes.ofString (t.summary env.stamp.milliseconds))
  endTrace failed
  if let some path := (← get).memoryProfile then
    match (← get).disk.write path [] with
    | .ok d => modify fun s => { s with disk := d }
    | .error e => printError (Bytes.ofString s!"sysyc: prof: {e.text}\n")

end Step

/-! ## Runs -/

/-- What a run has put out, and whether it succeeded. -/
structure Result where
  stdout : Bytes := []
  stderr : Bytes := []
  ok : Bool := true

/-- Run a command line on a file tree. -/
def run (env : Environment) (d : Disk) : Result × Disk :=
  let failure (text : String) : Bytes := Bytes.ofString ("sysyc: " ++ text ++ "\n")
  match Command.read env.args with
  | .error e => ({ stderr := failure e, ok := false }, d)
  | .ok .showVersion => ({ stdout := Bytes.ofString s!"sysyc version {env.release.version}\n" }, d)
  | .ok (.showHelp c) => ({ stdout := Bytes.ofString (Step.usage c) }, d)
  | .ok (.run c a) =>
    if c = .help then ({ stdout := Bytes.ofString (Step.usage .root) }, d)
    else
      let (stop, s) : Option Stop × Session := match Step.execute env c a { disk := d } with
        | .ok _ s => (none, s)
        | .error stop s => (some stop, s)
      let s := match Step.tearDown env stop.isSome s with
        | .ok _ s => s
        | .error _ s => s
      let last := match stop with
        | some (.failed text) => failure text
        | _ => []
      ({ stdout := s.stdout, stderr := s.stderr ++ last, ok := stop.isNone }, s.disk)

/-- The directories to watch after a run; there are none unless the command is to watch something. -/
def watchedDirs (args : List String) (d : Disk) : List String :=
  match Command.read args, Manifest.discover d d.workingPath with
  | .ok (.run .watch a), .ok (m, found) =>
    if a.words.isEmpty && !found then []
    else (Build.watchDirs d (Step.watchedPaths m a.words)).toOption.getD []
  | _, _ => []

end SysY.Cli

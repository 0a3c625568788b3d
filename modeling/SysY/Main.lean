import SysY.Calendar
import SysY.Cli.Run
import Std.Time.DateTime.Timestamp

/-! # The program

The command line on a real file tree: read the part of the tree that a run may look at, run on it, and
carry out what changed. -/

namespace SysY.Program

/-! ## Reading the file tree -/

/-- Whether the content of a file may matter to a run that does not name the file. -/
def isInput (name : String) : Bool :=
  name == Manifest.fileName || Manifest.sourceExts.contains (Path.ext name) || Path.ext name == ".mp"

/-- Add what is at a rooted path. Of files that are neither inputs nor named only the existence
counts. -/
def addFile (d : Disk) (path : String) (named : Bool) : IO Disk := do
  let content ← if named || isInput (Path.base path) then IO.FS.readBinFile path else pure .empty
  return d.put (Path.names path) (.file content.toList)

/-- Add what is at a rooted path and below it, except hidden directories. -/
partial def addTree (d : Disk) (path : String) (named : Bool) : IO Disk := do
  let here := (← IO.currentDir) / path
  if ← here.isDir then
    let mut d := d.put (Path.names path) .dir
    for e in ← here.readDir do
      unless Disk.isHidden e.fileName && (← e.path.isDir) do
        d ← addTree d (Path.join [path, e.fileName]) false
    return d
  else if ← here.pathExists then addFile d path named
  else return d

/-- Add the directories that lead to a rooted path, with their manifests. -/
def addLeading (d : Disk) (path : String) : IO Disk := do
  let mut d := d
  for dir in Manifest.withParents path do
    if ← ((← IO.currentDir) / dir).isDir then
      let manifest := Path.join [dir, Manifest.fileName]
      unless dir = "/" do d := d.put (Path.names dir) .dir
      if ← ((← IO.currentDir) / manifest).pathExists then d ← addTree d manifest true
  return d

/-- Read what a run may look at: the project, what the arguments name, and the cache. -/
def readDisk (env : Cli.Environment) : IO Disk := do
  let here := toString (← IO.currentDir)
  let d ← addLeading { cwd := Path.names here } here
  let root := match Manifest.discover d here with
    | .ok (m, _) => m.root
    | .error _ => here
  let cache := (Build.Cache.defaultDir env.cacheHome env.home).toOption.toList
  let named := env.args.map fun a => (a.splitOn "=").getLast?.getD a
  let paths := ((root :: cache ++ named).filter (· ≠ "")).map d.absolute
  paths.foldlM (fun d path => do addTree (← addLeading d (Path.dir path)) path true) d

/-! ## Writing what changed -/

/-- Make the file tree what a run has made of it. -/
def writeDisk (before after : Disk) : IO Unit := do
  for (place, n) in before.nodes do
    if n ≠ .dir && (after.node? place).isNone then IO.FS.removeFile (Path.ofNames true place)
  for (place, n) in after.nodes do
    let path := Path.ofNames true place
    if before.node? place ≠ some n then
      match n with
      | .dir => IO.FS.createDirAll path
      | .file content => IO.FS.writeBinFile path ⟨content.toArray⟩

/-! ## Running -/

/-- All that is left of an input. -/
partial def readAll (input : IO.FS.Stream) (start : ByteArray) : IO ByteArray := do
  let more ← input.read 65536
  if more.isEmpty then return start else readAll input (start ++ more)

/-- What is stamped on a run. As a run has no effects, it can be done once before to see how long it
takes. -/
def stampFor (env : Cli.Environment) (d : Disk) : IO Trace.Stamp := do
  let now ← Std.Time.Timestamp.now
  let start ← IO.monoMsNow
  let _ ← IO.lazyPure fun _ => (Cli.run env d).1.ok
  let millis := (← IO.monoMsNow) - start
  let time := Calendar.timestamp (now.toNanosecondsSinceUnixEpoch.toInt / 1000)
  return { time := time
           clock := String.ofList ((time.toList.drop 11).take 8)
           duration := s!"{millis}ms"
           milliseconds := s!"{millis}.00"
           worker := some 1 }

/-- Run a command line once: whether it succeeded, and the file tree before it. -/
def runOnce (env : Cli.Environment) : IO (Bool × Disk) := do
  let before ← readDisk env
  let (r, after) := Cli.run { env with stamp := ← stampFor env before } before
  (← IO.getStdout).write ⟨r.stdout.toArray⟩
  (← IO.getStderr).write ⟨r.stderr.toArray⟩
  writeDisk before after
  return (r.ok, before)

/-- The files in some directories that call for a rebuild when they change. -/
def sourcesIn (dirs : List String) (d : Disk) : List (List String × Bytes) :=
  d.files.filter fun (place, _) =>
    let path := Path.ofNames true place
    Manifest.sourceExts.contains (Path.ext path) &&
      (dirs.map d.absolute).contains (Path.dir path)

/-- Run again whenever a watched file changes, until a run fails. -/
partial def runAgain (env : Cli.Environment) (before : Disk) : IO Bool := do
  let dirs := Cli.watchedDirs env.args before
  if dirs.isEmpty then return true
  IO.sleep 100
  let now ← readDisk env
  if sourcesIn dirs now = sourcesIn dirs before then runAgain env before
  else
    let (ok, before) ← runOnce env
    if ok then runAgain env before else return false

end SysY.Program

/-- Run the command line; the exit status tells whether it succeeded. -/
def main (args : List String) : IO UInt32 := do
  let setting (name : String) : IO String := return (← IO.getEnv name).getD ""
  let stdin ← if args.contains "-" then SysY.Program.readAll (← IO.getStdin) .empty else pure .empty
  let env : SysY.Cli.Environment :=
    { args := args
      stdin := stdin.toList
      cacheHome := ← setting "XDG_CACHE_HOME"
      home := ← setting "HOME"
      autoColor := (← setting "NO_COLOR") = "" && (← (← IO.getStderr).isTty) }
  let (ok, before) ← SysY.Program.runOnce env
  let ok ← if ok then SysY.Program.runAgain env before else pure false
  return if ok then 0 else 1

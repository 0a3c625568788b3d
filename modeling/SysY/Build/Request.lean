import SysY.Build.Cache
import SysY.Build.Compile
import SysY.Diag.Bag

/-! # Builds

Compile files one after the other and write each result to a file of its own. A file that does not
compile does not stop the others, but a result that cannot be written does. -/

namespace SysY.Build

open Source (Files)

/-- What to build. -/
structure Request where
  files : List String
  /-- Where results go; with an empty path nothing is written. -/
  outDir : String := ""
  /-- The directory whose structure results are laid out like. -/
  baseDir : String := ""
  /-- The version of the compiler. -/
  toolchain : String := ""
  cache : Option Cache := none
  /-- Whether the runtime library is declared. -/
  withLibrary : Bool := true

/-- The file for the result of a source file. Below the base directory the result has the same place
below the output directory; elsewhere only the name of the source counts. -/
def outputPath (outDir baseDir path : String) : String :=
  let below := if baseDir = "" then none
    else (Path.relative? baseDir path).filter (!·.startsWith "..")
  let name := below.getD (Path.base path)
  Path.join [outDir, Path.dropExt name ++ ".koopa"]

/-- What a build of some of the files has done. -/
structure Progress where
  disk : Disk
  units : List Compiled := []
  /-- The files that were written, empty where none was. -/
  outputs : List String := []
  events : List Event := []
  phases : List Phase := []
  trace : List Trace.Task := []
  /-- What ended the build early. -/
  stopped : Option Failure := none

/-- Read and compile a file from disk. -/
def compilePath (d : Disk) (path : String) (withLibrary canceled : Bool) : Compilation :=
  match d.read path with
  | .error e =>
    let f := Failure.error (.mk' .loadFailed {} e.text)
    { result := { path := path, files := {}, failure := some f }
      events := [{ file := path, stage := some .lex, status := .error, failure := some f }] }
  | .ok content =>
    let files := ({} : Files).addLoaded path content
    compile files ((files.get? 0).getD default) withLibrary canceled

/-- A remark of the cache in the trace. -/
def cacheRemark (text : String) : Trace.Task := .point .pass "cache" text

/-- Compile a file unless its result is in the cache, and add new results to the cache. What goes
wrong with the cache is only traced. -/
def compileCached (d : Disk) (path : String) (req : Request) (canceled : Bool) :
    Compilation × Disk :=
  match req.cache, d.read path with
  | some cache, .ok content =>
    let files := ({} : Files).addLoaded path content
    let file := (files.get? 0).getD default
    let key := cacheKey req.toolchain req.withLibrary file.content
    let found := cache.get d key req.toolchain
    let d := cache.touched d
    match found with
    | .ok (some e) =>
      ({ result := { path := path, files := files, ir := e.ir, cached := true }
         events := [{ file := path, stage := some .cache, status := .cached }]
         trace := [cacheRemark ("hit " ++ path)] }, d)
    | _ =>
      let c := compile files file req.withLibrary canceled
      let before := match found with
        | .error e => [cacheRemark e]
        | .ok _ => []
      if c.result.failed then ({ c with trace := before ++ c.trace }, d)
      else
        match cache.put d key { toolchain := req.toolchain, source := path, ir := c.result.ir } with
        | .ok d => ({ c with trace := before ++ c.trace }, d)
        | .error e => ({ c with trace := before ++ c.trace ++ [cacheRemark e] }, d)
  | _, _ => (compilePath d path req.withLibrary canceled, d)

/-- Write the result of a file. -/
def writeOutput (d : Disk) (req : Request) (path ir : String) : Outcome (String × Disk) :=
  let out := outputPath req.outDir req.baseDir path
  match (do (← d.createDirs (Path.dir out)).write out (Bytes.ofString ir) :
      Except Disk.Error Disk) with
  | .ok d => .ok (out, d)
  | .error e => .raise (.mk' .writeFailed {} e.text)

/-- Build one file. After the build was stopped or called off nothing is compiled, but results from
the cache are still written. -/
def Progress.step (req : Request) (canceled : Bool) (p : Progress) (path : String) : Progress :=
  let calledOff := canceled || p.stopped.isSome
  let (c, d) := compileCached p.disk path req calledOff
  let p := { p with
    disk := d
    events := p.events ++ c.events
    phases := p.phases ++ c.phases
    trace := p.trace ++ c.trace }
  let unit := c.result
  if unit.failed then
    { p with
      units := p.units ++ [unit]
      outputs := p.outputs ++ [""]
      stopped := p.stopped <|> if calledOff then some .canceled else none }
  else if req.outDir = "" then
    { p with units := p.units ++ [unit], outputs := p.outputs ++ [""] }
  else
    match writeOutput d req path unit.ir with
    | .ok (out, d) => { p with disk := d, units := p.units ++ [unit], outputs := p.outputs ++ [out] }
    | .error f =>
      { p with
        units := p.units ++ [{ unit with failure := some f }]
        outputs := p.outputs ++ [""]
        events := p.events ++ [{ file := path, stage := some .emit, status := .error, failure := some f }]
        stopped := p.stopped <|> some f }

/-- The failure of a build in which a file does not compile. -/
def buildFailed : Failure := .other "build failed"

/-- What became of a build. -/
structure Report where
  units : List Compiled
  outputs : List String
  events : List Event
  phases : List Phase
  trace : List Trace.Task
  failure : Option Failure

namespace Report

/-- The files that did not compile, or whose results could not be written. -/
def failed (b : Report) : List Compiled := b.units.filter (·.failed)

/-- One diagnostic for each failed file. -/
def bag (b : Report) : Diag.Bag :=
  (Diag.Bag.empty (b.units.length + 1)).addAll (b.failed.filterMap (·.diagnostic?))

/-- How many results were taken from the cache. -/
def cachedCount (b : Report) : Nat := (b.units.filter (·.cached)).length

end Report

/-- Build all files of a request. -/
def run (d : Disk) (req : Request) (canceled : Bool) : Report × Disk :=
  let p := req.files.foldl (Progress.step req canceled) { disk := d }
  let queued := req.files.map fun f => ({ file := f, stage := none, status := .queued } : Event)
  ({ units := p.units
     outputs := p.outputs
     events := queued ++ p.events
     phases := p.phases
     trace := [.span .driver "build" [("units", toString req.files.length)] "" p.trace]
     failure := p.stopped <|> if p.units.any (·.failed) then some buildFailed else none }, p.disk)

end SysY.Build

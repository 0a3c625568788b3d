import SysY.Disk
import SysY.Failure
import SysY.Toml.Reader
import SysY.Version.Constraint

/-! # Project manifests

The file `sysyc.toml` says which sources a project has, how they are built, and which compiler it
needs. -/

namespace SysY

/-- A project. -/
structure Manifest where
  /-- The directory of the manifest, at which relative paths start. -/
  root : String
  name : String := ""
  /-- Files and directories with sources; none means the whole project. -/
  sources : List String := []
  /-- Where results go; empty means the default. -/
  outDir : String := ""
  /-- Whether the runtime library is declared. -/
  prelude : Option Bool := none
  cache : Option Bool := none
  /-- How many files are compiled at the same time; 0 leaves it open. -/
  jobs : Int := 0
  /-- Which versions of the compiler can build the project; empty means all. -/
  toolchain : String := ""
  traceLevel : String := ""
  traceMode : String := ""
  traceOutput : String := ""
deriving Repr

namespace Manifest

/-- The name of manifests. -/
def fileName : String := "sysyc.toml"

/-- The extensions of source files. -/
def sourceExts : List String := [".c", ".sy"]

/-- The project of a directory without a manifest. -/
def default (root : String) : Manifest := { root := root, outDir := "build" }

/-- Whether the runtime library is declared, which it is if nothing is said. -/
def preludeEnabled (m : Manifest) : Bool := m.prelude.getD true

/-- Whether results are cached, which they are if nothing is said. -/
def cacheEnabled (m : Manifest) : Bool := m.cache.getD true

/-- A path, which is relative to the project if it is not rooted. -/
def resolve (m : Manifest) (path : String) : String :=
  if Path.isAbs path then path else Path.join [m.root, path]

/-- Where results go. -/
def outputDir (m : Manifest) : String := m.resolve (if m.outDir = "" then "build" else m.outDir)

/-! ## Fields -/

/-- A letter as it is compared in the names of fields. -/
def foldLetter (c : Char) : Char :=
  if c.toNat = 0x17F then 's' else if c.toNat = 0x212A then 'k' else c.toLower

/-- Whether two names of fields are the same up to case. -/
def sameName (a b : String) : Bool := a.toList.map foldLetter == b.toList.map foldLetter

/-- The tables of a manifest and their fields. -/
def schema : List (String × List String) :=
  [("package", ["name", "sources"]), ("build", ["out_dir", "prelude", "cache", "jobs"]),
   ("toolchain", ["version"]), ("trace", ["level", "mode", "output"])]

/-- Whether a key is one of the schema. -/
def isKnown : Toml.Key → Bool
  | [table] => schema.any fun (t, _) => sameName t table
  | [table, field] => schema.any fun (t, fs) => sameName t table && fs.any (sameName · field)
  | _ => false

/-- The fields with a name in any case. One with exactly that name comes last. -/
def named (name : String) (t : Toml.Table) : List Toml.Value :=
  ((t.filter fun (k, _) => sameName k name && k != name) ++ t.filter (·.1 == name)).map (·.2)

/-- The last of some values, all of which have to be of the right kind. -/
def lastOf {α : Type} (kind : Toml.Value → Option α) (vs : List Toml.Value) (absent : α) :
    Option α := vs.foldlM (fun _ v => kind v) absent

/-- The value as a text. -/
def text? : Toml.Value → Option String
  | .text s => some s
  | _ => none

/-- The value as a list of texts. -/
def texts? : Toml.Value → Option (List String)
  | .list vs => vs.mapM text?
  | .tables rows => if rows.isEmpty then some [] else none
  | _ => none

/-- The value as a truth value that was given. -/
def bool? : Toml.Value → Option (Option Bool)
  | .bool b => some (some b)
  | _ => none

/-- The value as a number. -/
def integer? : Toml.Value → Option Int
  | .integer n => some n
  | _ => none

/-- The value as a table. -/
def table? : Toml.Value → Option Toml.Table
  | .table t => some t
  | _ => none

/-- The manifest in a document; `none` if a field has a value of the wrong kind. -/
def ofDocument? (root : String) (d : Toml.Document) : Option Manifest := do
  let field {α : Type} (table name : String) (kind : Toml.Value → Option α) (absent : α) :
      Option α := do
    let tables ← (named table d.root).mapM table?
    lastOf kind (tables.flatMap (named name)) absent
  return {
    root := root
    name := ← field "package" "name" text? ""
    sources := ← field "package" "sources" texts? []
    outDir := ← field "build" "out_dir" text? ""
    prelude := ← field "build" "prelude" bool? none
    cache := ← field "build" "cache" bool? none
    jobs := ← field "build" "jobs" integer? 0
    toolchain := ← field "toolchain" "version" text? ""
    traceLevel := ← field "trace" "level" text? ""
    traceMode := ← field "trace" "mode" text? ""
    traceOutput := ← field "trace" "output" text? "" }

/-! ## Checks -/

/-- White space in any script. -/
def isSpace (c : Char) : Bool :=
  let n := c.toNat
  (9 ≤ n && n ≤ 13) || n = 32 || n = 0x85 || n = 0xA0 || n = 0x1680 ||
    (0x2000 ≤ n && n ≤ 0x200A) || n = 0x2028 || n = 0x2029 || n = 0x202F || n = 0x205F || n = 0x3000

/-- What is wrong with the values of a manifest. -/
def issues (m : Manifest) : List String :=
  let jobs :=
    if m.jobs < 0 then [s!"build.jobs must not be negative, got {m.jobs}"] else []
  let toolchain :=
    if m.toolchain = "" then []
    else match Version.Constraint.read m.toolchain with
      | .ok _ => []
      | .error e => ["toolchain.version: " ++ e]
  let empty := (List.range m.sources.length).filter fun i =>
    ((m.sources[i]?).getD "").toList.all isSpace
  jobs ++ toolchain ++ empty.map fun i => s!"package.sources[{i}] is empty"

/-- A mistake in a manifest. -/
def mistake (detail : String) : Failure := .error (.mk' .badManifest {} detail)

/-- Why a manifest cannot be used. -/
inductive Problem where
  /-- It could not be located. -/
  | lookup (text : String)
  /-- It is no document of the right kind. -/
  | unreadable (path reason : String)
  /-- It has fields or values that are not allowed. -/
  | invalid (path reason : String)

/-- A problem as a failure. -/
def Problem.failure : Problem → Failure
  | lookup text => .other text
  | unreadable path reason | invalid path reason => mistake (path ++ ": " ++ reason)

/-- Read the manifest at a path. -/
def load (d : Disk) (path : String) : Except Problem Manifest := do
  let content ← (d.read path).mapError fun e => Problem.invalid path e.text
  let doc ← (Toml.read content).mapError (Problem.unreadable path)
  match ofDocument? (Path.dir path) doc with
  | none => throw (.unreadable path "toml: incompatible types")
  | some m =>
    let unknown := doc.keys.filter (!isKnown ·)
    if !unknown.isEmpty then
      throw (.invalid path
        ("unknown keys: " ++ String.intercalate ", " (unknown.map Toml.keyText)))
    if !m.issues.isEmpty then throw (.invalid path (String.intercalate "\n" m.issues))
    return m

/-- Check that a version of the compiler can build the project. -/
def checkToolchain (m : Manifest) (v : Version) : Outcome Unit :=
  if m.toolchain = "" then .ok ()
  else match Version.Constraint.read m.toolchain with
    | .error e => .error (mistake ("toolchain.version: " ++ e))
    | .ok c =>
      if c.holds v then .ok ()
      else .raise (.mk' .toolchainMismatch {}
        ("sysyc " ++ v.text ++ " does not satisfy " ++ Text.quoted m.toolchain ++ ": " ++
          String.intercalate "; " (c.refusals v)))

/-! ## Finding projects -/

/-- Look for a manifest in a directory, then in those above it. -/
def findAbove (d : Disk) : List String → Except String (Option String)
  | [] => .ok none
  | dir :: above =>
    let path := Path.join [dir, fileName]
    match d.isDir path with
    | .ok _ => .ok (some path)
    | .error e =>
      if e.reason = .notFound then findAbove d above
      else .error ("project: stat " ++ Text.quoted path ++ ": " ++ e.text)

/-- A rooted clean path and all paths above it, down to the root. -/
def withParents (path : String) : List String :=
  let names := Path.names path
  ((List.range (names.length + 1)).map fun n => Path.ofNames true (names.take n)).reverse

/-- The path of the manifest that applies to a directory, if there is one. -/
def find (d : Disk) (start : String) : Except String (Option String) :=
  findAbove d (withParents (d.absolute (if start = "" then "." else start)))

/-- The project that a directory belongs to, and whether it has a manifest. -/
def discover (d : Disk) (start : String) : Except Problem (Manifest × Bool) := do
  match ← (find d start).mapError Problem.lookup with
  | none => return (default (d.absolute start), false)
  | some path => return (← load d path, true)

/-! ## Sources -/

/-- The path itself if it is that of a file, else the source files below it. -/
def collect (d : Disk) (path : String) : Except String (List String) :=
  match d.isDir path with
  | .error e => .error ("project: " ++ e.text)
  | .ok false => .ok [path]
  | .ok true => .ok (((d.filesBelow path).filter fun p => sourceExts.contains (Path.ext p)).mergeSort
      fun a b => decide (¬ b < a))

/-- The source files of a project, each once and sorted. -/
def sourceFiles (m : Manifest) (d : Disk) : Except String (List String) := do
  let roots := if m.sources.isEmpty then ["."] else m.sources
  let found ← roots.mapM fun r => collect d (m.resolve r)
  return found.flatten.eraseDups.mergeSort fun a b => decide (¬ b < a)

end Manifest
end SysY

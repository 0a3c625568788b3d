import SysY.Build.Entry
import SysY.Disk
import SysY.Hash.Sha256

/-! # The cache of results

Results are kept in files whose names are digests of all that a result depends on: the compiler, its
options and the source text. -/

namespace SysY.Build

/-- The digest that stands for a compilation: that of the compiler's version, a byte for the
options, and the source text. -/
def cacheKey (toolchain : String) (withLibrary : Bool) (content : Bytes) : String :=
  Hash.Sha256.hex (Bytes.ofString toolchain ++ [if withLibrary then 1 else 0] ++ content)

/-- A cache in a directory, and the format of its entries. -/
structure Cache where
  dir : String
  codec : Codec := .lengths

namespace Cache

/-- The directory that caches belong to, by the environment: the cache home, or a directory in the
home of the user. -/
def defaultDir (cacheHome home : String) : Except String String :=
  if cacheHome ≠ "" then .ok (Path.join [cacheHome, "sysyc"])
  else if home = "" then .error "cache: $HOME is not defined"
  else .ok (Path.join [Path.join [home, ".cache"], "sysyc"])

/-- The directory of the entries. -/
def unitsDir (c : Cache) : String := Path.join [c.dir, "units"]

/-- The file that is held while a cache is used. -/
def lockPath (c : Cache) : String := Path.join [c.dir, ".lock"]

/-- The file of an entry. -/
def entryPath (c : Cache) (key : String) : String := Path.join [c.unitsDir, key ++ ".mp"]

/-- The places of the files among the entries. -/
def entries (c : Cache) (d : Disk) : List (List String) :=
  (d.files.map (·.1)).filter (·.dropLast = Path.names (d.absolute c.unitsDir))

/-- Make the directories of a cache. -/
def create (dir : String) (d : Disk) : Except String (Cache × Disk) :=
  let c : Cache := { dir := dir }
  match d.createDirs c.unitsDir with
  | .ok d => .ok (c, d)
  | .error e => .error ("cache: " ++ e.text)

/-- Take the lock of a cache, which is a file. -/
def lock (c : Cache) (d : Disk) : Except String Disk :=
  let content := match d.read c.lockPath with
    | .ok content => content
    | .error _ => []
  (d.write c.lockPath content).mapError fun e => "cache: lock: " ++ e.text

/-- Look up an entry. Entries of another shape or compiler do not count. -/
def get (c : Cache) (d : Disk) (key toolchain : String) : Except String (Option Entry) := do
  let d ← c.lock d
  match d.read (c.entryPath key) with
  | .error e => if e.reason = .notFound then return none else throw ("cache: " ++ e.text)
  | .ok content =>
    match c.codec.decode? content with
    | none => throw s!"cache: decode {key}: unexpected content"
    | some e =>
      return if e.schema = Entry.currentSchema ∧ e.toolchain = toolchain then some e else none

/-- Store an entry. -/
def put (c : Cache) (d : Disk) (key : String) (e : Entry) : Except String Disk := do
  let d ← c.lock d
  (d.write (c.entryPath key) (c.codec.encode { e with schema := Entry.currentSchema })).mapError
    fun e => "cache: " ++ e.text

/-- The disk after an attempt to take the lock. -/
def touched (c : Cache) (d : Disk) : Disk := (c.lock d).toOption.getD d

/-- Remove all entries: how many were removed, what went wrong if anything did, and the rest. -/
def clean (c : Cache) (d : Disk) : (Nat × Option String) × Disk :=
  match c.lock d with
  | .error e => ((0, some e), d)
  | .ok d =>
    match d.list c.unitsDir with
    | .error e =>
      ((0, if e.reason = .notFound then none else some ("cache: " ++ e.text)), d)
    | .ok names => go names 0 d
where
  /-- Remove entries until one cannot be removed. -/
  go : List String → Nat → Disk → (Nat × Option String) × Disk
    | [], n, d => ((n, none), d)
    | name :: names, n, d =>
      match d.remove (Path.join [c.unitsDir, name]) with
      | .ok d => go names (n + 1) d
      | .error e => ((n, some ("cache: " ++ e.text)), d)

end Cache
end SysY.Build

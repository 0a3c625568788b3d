import SysY.Path
import SysY.Text.Bytes

/-! # Files and directories

A file tree as a value. Operations return the new tree, or say what was tried and why it failed. A
place in the tree is the list of names that lead to it from the root. -/

namespace SysY

/-- A file with its content, or a directory. -/
inductive Node where
  | file (content : Bytes)
  | dir
deriving DecidableEq, Repr

/-- A file tree. The root directory always exists. -/
structure Disk where
  nodes : List (List String × Node) := []
  /-- The working directory, at which relative paths start. -/
  cwd : List String := []

namespace Disk

/-- Why an operation fails. -/
inductive Reason where
  | notFound | notDirectory | isDirectory | notEmpty
deriving DecidableEq, Repr

/-- A reason in words. -/
def Reason.text : Reason → String
  | notFound => "no such file or directory"
  | notDirectory => "not a directory"
  | isDirectory => "is a directory"
  | notEmpty => "directory not empty"

/-- An operation that failed. -/
structure Error where
  operation : String
  path : String
  reason : Reason
deriving DecidableEq, Repr

/-- A failed operation in words. -/
def Error.text (e : Error) : String := s!"{e.operation} {e.path}: {e.reason.text}"

/-! ## Places -/

/-- What is at a place. -/
def node? (d : Disk) (place : List String) : Option Node :=
  if place.isEmpty then some .dir else d.nodes.lookup place

/-- Follow names from a place. Whatever a name is looked up in has to be a directory. The place that
is reached need not exist. -/
def follow (d : Disk) : List String → List String → Except Reason (List String)
  | place, [] => .ok place
  | place, name :: rest =>
    match d.node? place with
    | none => .error .notFound
    | some (.file _) => .error .notDirectory
    | some .dir =>
      if name = "" ∨ name = "." then d.follow place rest
      else if name = ".." then d.follow place.dropLast rest
      else d.follow (place ++ [name]) rest

/-- The place of a path. -/
def locate (d : Disk) (path : String) : Except Reason (List String) :=
  if path = "" then .error .notFound
  else d.follow (if Path.isAbs path then [] else d.cwd) (Path.parts path)

/-- The working directory as a path. -/
def workingPath (d : Disk) : String := Path.ofNames true d.cwd

/-- `path` as seen from the root. -/
def absolute (d : Disk) (path : String) : String := Path.absolute d.workingPath path

/-- Put a file or directory at a place. -/
def put (d : Disk) (place : List String) (n : Node) : Disk :=
  { d with nodes := d.nodes.filter (·.1 != place) ++ [(place, n)] }

/-! ## Operations -/

/-- Whether a path is that of a directory. -/
def isDir (d : Disk) (path : String) : Except Error Bool :=
  let fail (r : Reason) : Except Error Bool := .error ⟨"stat", path, r⟩
  match d.locate path with
  | .error r => fail r
  | .ok place =>
    match d.node? place with
    | none => fail .notFound
    | some n => .ok (n = .dir)

/-- The content of a file. -/
def read (d : Disk) (path : String) : Except Error Bytes :=
  match d.locate path with
  | .error r => .error ⟨"open", path, r⟩
  | .ok place =>
    match d.node? place with
    | none => .error ⟨"open", path, .notFound⟩
    | some .dir => .error ⟨"read", path, .isDirectory⟩
    | some (.file content) => .ok content

/-- Write a file, over an old one if there is one. Its directory has to exist. -/
def write (d : Disk) (path : String) (content : Bytes) : Except Error Disk :=
  let fail (r : Reason) : Except Error Disk := .error ⟨"open", path, r⟩
  match d.locate path with
  | .error r => fail r
  | .ok place =>
    if d.node? place = some .dir then fail .isDirectory else .ok (d.put place (.file content))

/-- The paths that lead to a clean path, shortest first and the path itself last. -/
def leading (path : String) : List String :=
  let rooted := Path.isAbs path
  let names := Path.names path
  (List.range names.length).map fun n => Path.ofNames rooted (names.take (n + 1))

/-- Make one directory unless it is there. -/
def createDir (d : Disk) (path : String) : Except Error Disk :=
  let fail (r : Reason) : Except Error Disk := .error ⟨"mkdir", path, r⟩
  match d.locate path with
  | .error r => fail r
  | .ok place =>
    match d.node? place with
    | some .dir => .ok d
    | some (.file _) => fail .notDirectory
    | none => .ok (d.put place .dir)

/-- Make a directory and those that lead to it. -/
def createDirs (d : Disk) (path : String) : Except Error Disk :=
  (leading path).foldlM createDir d

/-- The places right below a place. -/
def children (d : Disk) (place : List String) : List (List String) :=
  d.nodes.filterMap fun (p, _) =>
    if p ≠ [] ∧ p.dropLast = place then some p else none

/-- The names in a directory, sorted. -/
def list (d : Disk) (path : String) : Except Error (List String) :=
  match d.locate path with
  | .error r => .error ⟨"open", path, r⟩
  | .ok place =>
    match d.node? place with
    | none => .error ⟨"open", path, .notFound⟩
    | some (.file _) => .error ⟨"fdopendir", path, .notDirectory⟩
    | some .dir =>
      .ok (((d.children place).filterMap (·.getLast?)).mergeSort fun a b => decide (¬ b < a))

/-- Remove a file or an empty directory. -/
def remove (d : Disk) (path : String) : Except Error Disk :=
  let fail (r : Reason) : Except Error Disk := .error ⟨"remove", path, r⟩
  match d.locate path with
  | .error r => fail r
  | .ok place =>
    if (d.node? place).isNone then fail .notFound
    else if !(d.children place).isEmpty then fail .notEmpty
    else .ok { d with nodes := d.nodes.filter (·.1 != place) }

/-- Remove whatever is at a path, if there is anything. -/
def removeAll (d : Disk) (path : String) : Disk :=
  match d.locate path with
  | .error _ => d
  | .ok place => { d with nodes := d.nodes.filter fun (p, _) => !place.isPrefixOf p }

/-- Put a file at a path, and make the directories that lead to it. Nothing happens if that is not
possible. -/
def store (d : Disk) (path : String) (content : Bytes) : Disk :=
  match (do (← d.createDirs (Path.dir path)).write path content : Except Error Disk) with
  | .ok d => d
  | .error _ => d

/-! ## Walking -/

/-- The places of all files, with their contents. -/
def files (d : Disk) : List (List String × Bytes) :=
  d.nodes.filterMap fun (place, n) => match n with
    | .file content => some (place, content)
    | .dir => none

/-- Whether a name is hidden. -/
def isHidden (name : String) : Bool := name.startsWith "."

/-- What is below a directory, without hidden directories and all that is in them. -/
def visibleBelow (d : Disk) (place : List String) : List (List String × Node) :=
  d.nodes.filterMap fun (p, n) =>
    let names := p.drop place.length
    let dirs := if n = .dir then names else names.dropLast
    if place.isPrefixOf p && !names.isEmpty && !dirs.any isHidden then some (names, n) else none

/-- The paths of the files below a directory, except those in hidden directories. -/
def filesBelow (d : Disk) (root : String) : List String :=
  match d.locate root with
  | .error _ => []
  | .ok place => (d.visibleBelow place).filterMap fun (names, n) =>
    if n = .dir then none else some (Path.join (root :: names))

/-- The paths of a directory and of the directories below it that are not hidden. -/
def dirsBelow (d : Disk) (root : String) : List String :=
  match d.locate root with
  | .error _ => []
  | .ok place => root :: (d.visibleBelow place).filterMap fun (names, n) =>
    if n = .dir then some (Path.join (root :: names)) else none

end Disk
end SysY

import SysY.Disk
import SysY.Failure

/-! # Watching sources

Rebuild whenever a source file changes. Directories are watched, so that files that are replaced are
noticed. -/

namespace SysY.Build

/-- What can happen to a file. -/
inductive Change where
  | create | write | remove | rename
  /-- Only its attributes change. -/
  | chmod
deriving DecidableEq, Repr

/-- All changes, in the order of their bits in a set. -/
def Change.all : List Change := [create, write, remove, rename, chmod]

/-- The changes in a set that is written as a number. -/
def Change.ofBits (bits : Nat) : List Change :=
  (List.range all.length).filterMap fun i => if bits.testBit i then all[i]? else none

/-- Whether changes of a file call for a rebuild: its content must be affected, and its extension be
one of those that are watched, if any are given. -/
def isRelevant (exts : List String) (name : String) (changes : List Change) : Bool :=
  changes.any (· ≠ .chmod) && (exts.isEmpty || exts.contains (Path.ext name))

/-- The directories to watch: that of each file, and each directory with all below it that are not
hidden. -/
def watchDirs (d : Disk) (paths : List String) : Except String (List String) := do
  let dirs ← paths.mapM fun p =>
    match d.isDir p with
    | .error e => .error ("watch: " ++ e.text)
    | .ok false => .ok [Path.dir p]
    | .ok true => .ok ((d.dirsBelow p).map Path.clean)
  return dirs.flatten.eraseDups.mergeSort fun a b => decide (¬ b < a)

/-- How a rebuild ended. -/
inductive Rebuilt where
  /-- All is well. -/
  | ok
  /-- Some file does not compile. -/
  | buildFailed
  /-- The build could not be done. -/
  | failed (f : Failure)

/-- Watch until a rebuild cannot be done or the rebuilds are used up: how many were made, and what
ended it. A rebuild in which a file does not compile ends nothing. -/
def watch (d : Disk) (paths : List String) (rebuilds : List Rebuilt) : Nat × Option Failure :=
  match watchDirs d paths with
  | .error e => (0, some (.other e))
  | .ok _ =>
    match rebuilds.findIdx? (· matches .failed _) with
    | none => (rebuilds.length, none)
    | some i =>
      (i + 1, match rebuilds[i]? with
        | some (.failed f) => some f
        | _ => none)

end SysY.Build

/-! # Slash-separated paths

Lexical operations on file paths: nothing here looks at a file system. A path is rooted when it
starts with a slash. -/

namespace SysY.Path

/-- Whether a path is rooted. -/
def isAbs (p : String) : Bool := p.startsWith "/"

/-- The texts between the slashes of a path. -/
def parts (p : String) : List String := (p.toList.splitOn '/').map String.ofList

/-- Add one name to a stack of names, latest first. A `..` removes the name before it; at the root
it has no effect, and at the start of an unrooted path it stays. -/
def step (rooted : Bool) (stack : List String) (name : String) : List String :=
  if name = "" ∨ name = "." then stack
  else if name = ".." then
    match stack with
    | [] => if rooted then [] else [".."]
    | top :: rest => if top = ".." then ".." :: stack else rest
  else name :: stack

/-- The names of a path, with `.` and `..` resolved where that is possible without a file system. -/
def names (p : String) : List String :=
  ((parts p).foldl (step (isAbs p)) []).reverse

/-- The path with the given names. -/
def ofNames (rooted : Bool) (ns : List String) : String :=
  if rooted then "/" ++ String.intercalate "/" ns
  else if ns.isEmpty then "." else String.intercalate "/" ns

/-- The shortest path with the same meaning; the empty path means the current directory. -/
def clean (p : String) : String := ofNames (isAbs p) (names p)

/-- Join paths and clean the result. Leading empty parts are ignored, and so is a join of nothing. -/
def join (ps : List String) : String :=
  match ps.dropWhile (· = "") with
  | [] => ""
  | parts => clean (String.intercalate "/" parts)

/-- Split a text at its last slash: all up to and including the slash, and the rest. -/
def splitLast (p : String) : String × String :=
  let rev := p.toList.reverse
  (String.ofList (rev.dropWhile (· ≠ '/')).reverse, String.ofList (rev.takeWhile (· ≠ '/')).reverse)

/-- The directory a path lies in. -/
def dir (p : String) : String := clean (splitLast p).1

/-- The last name of a path, `.` for the empty path and `/` for the root. -/
def base (p : String) : String :=
  if p = "" then "."
  else
    let trimmed := String.ofList (p.toList.reverse.dropWhile (· = '/')).reverse
    if trimmed = "" then "/" else (splitLast trimmed).2

/-- The part of the last name from its last dot on; empty if it has no dot. -/
def ext (p : String) : String :=
  let rev := ((splitLast p).2).toList.reverse
  if rev.contains '.' then
    String.ofList ('.' :: (rev.takeWhile (· ≠ '.')).reverse)
  else ""

/-- A path without its extension. -/
def dropExt (p : String) : String :=
  String.ofList (p.toList.take (p.length - (ext p).length))

/-- `p` as a rooted path, seen from the directory `cwd`. -/
def absolute (cwd p : String) : String := if isAbs p then clean p else join [cwd, p]

/-- Remove the names that two lists start with in common. -/
def dropCommon : List String → List String → List String × List String
  | a :: as, b :: bs => if a = b then dropCommon as bs else (a :: as, b :: bs)
  | as, bs => (as, bs)

/-- The path that leads from a base to a target. There is none from a rooted path to an unrooted one,
nor out of a directory that is only known as `..`. -/
def relative? (base target : String) : Option String :=
  let a := clean base
  let b := clean target
  if a = b then some "."
  else if isAbs a != isAbs b then none
  else
    let targetNames := if b = "." then ["."] else names b
    match dropCommon (names a) targetNames with
    | (".." :: _, _ :: _) => none
    | (up, down) => some (String.intercalate "/" (up.map (fun _ => "..") ++ down))

end SysY.Path

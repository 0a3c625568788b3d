import SysY.Version

/-! # Releases

Which compiler this is: its version and where it was built from. -/

namespace SysY

/-- A build of the compiler. -/
structure Release where
  /-- The version as it was set; it need not be a semantic version. -/
  version : String := "0.1.0"
  commit : String := ""
  date : String := ""
deriving Repr

namespace Release

/-- This compiler. -/
def current : Release := {}

/-- The semantic version of a release. -/
def semantic (r : Release) : Except String Version :=
  (Version.read r.version).mapError fun e =>
    "version: invalid build version " ++ Text.quoted r.version ++ ": " ++ e

/-- A bold number in a colour. -/
def paint (color : String) (n : Nat) : String := s!"\x1b[{color};1m{n}\x1b[0;22m"

/-- A semantic version whose numbers are yellow, green and blue. Metadata are left out. -/
def colored (v : Version) : String :=
  paint "33" v.major ++ "." ++ paint "32" v.minor ++ "." ++ paint "34" v.patch ++
    if v.pre = "" then "" else "-" ++ v.pre

/-- Name and version of the compiler on one line, and what is known about the build. -/
def banner (r : Release) (color : Bool) : String :=
  let version := match r.semantic with
    | .ok v => if color then colored v else r.version
    | .error _ => r.version
  let build := [r.commit, r.date].filter (· ≠ "")
  "sysyc " ++ version ++
    if build.isEmpty then "" else " (" ++ String.intercalate ", " build ++ ")"

end Release
end SysY

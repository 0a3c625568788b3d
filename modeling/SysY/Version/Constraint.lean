import SysY.Version

/-! # Version constraints

Which versions are wanted: alternatives separated by `||`, each a list of comparisons that all have to
hold. A comparison names a version whose trailing numbers may be missing or placeholders. -/

namespace SysY.Version

/-- How a version is compared. -/
inductive Relation where
  /-- The same version, or the same up to the placeholders. -/
  | equal
  | notEqual
  | greater
  | less
  | greaterEqual
  | lessEqual
  /-- At least that version, with the same major and minor number. -/
  | tilde
  /-- At least that version, with the same leftmost number that is not zero. -/
  | caret
deriving DecidableEq, Repr

/-- Read the sign of a relation. No sign at all means equality. -/
def Relation.ofSign? : String → Option Relation
  | "" | "=" => some .equal
  | "!=" => some .notEqual
  | ">" => some .greater
  | "<" => some .less
  | ">=" | "=>" => some .greaterEqual
  | "<=" | "=<" => some .lessEqual
  | "~" | "~>" => some .tilde
  | "^" => some .caret
  | _ => none

/-- How much of the version in a comparison is left open. -/
inductive Openness where
  | exact
  | patch
  | minor
  /-- Even the major number is a placeholder. -/
  | major
deriving DecidableEq, Repr

/-- A comparison with a version. -/
structure Comparison where
  relation : Relation
  /-- The version as it is written. -/
  written : String
  /-- The version with zeros for open numbers. -/
  version : Version
  openness : Openness
deriving DecidableEq, Repr

namespace Comparison

/-! ## Checking -/

/-- A version is only a pre-release if a comparison asks for pre-releases. -/
def preRefusal (v : Version) : String :=
  v.text ++ " is a prerelease version and the constraint is only looking for release versions"

/-- Whether a version is a pre-release while the comparison names none. -/
def refusesPre (c : Comparison) (v : Version) : Bool := v.pre ≠ "" && c.version.pre = ""

/-- `none` if the condition holds, else a sentence about the version and the written one. -/
def unless_ (c : Comparison) (v : Version) (holds : Bool) (middle : String) : Option String :=
  if holds then none else some (v.text ++ " " ++ middle ++ " " ++ c.written)

/-- Why a version is equal to the one of a comparison, `none` if it is not. Open numbers are equal to
any number. -/
def differs (c : Comparison) (v : Version) : Option String :=
  let say (holds : Bool) := c.unless_ v holds "is equal to"
  let w := c.version
  match c.openness with
  | .exact => say (v.compare w != .eq)
  | .minor => say (v.major != w.major)
  | .patch =>
    say (v.major != w.major || v.minor != w.minor ||
      ((v.pre ≠ "" || w.pre ≠ "") && comparePre v.pre w.pre != .eq))
  | .major =>
    say (v.major != w.major || v.minor != w.minor || v.patch != w.patch || v.compare w != .eq)

/-- Why a version is not greater. A version that agrees up to the open numbers is not greater. -/
def greater (c : Comparison) (v : Version) : Option String :=
  let say (holds : Bool) := c.unless_ v holds "is less than or equal to"
  let w := c.version
  match c.openness with
  | .minor => say (v.major > w.major)
  | .patch => say (v.major > w.major || (v.major == w.major && v.minor > w.minor))
  | _ => say (v.compare w == .gt)

/-- Why a version is not less or equal. A version that agrees up to the open numbers is equal. -/
def lessEqual (c : Comparison) (v : Version) : Option String :=
  let say (holds : Bool) := c.unless_ v holds "is greater than"
  let w := c.version
  match c.openness with
  | .exact => say (v.compare w != .gt)
  | .minor => say (v.major ≤ w.major)
  | _ => say (v.major ≤ w.major && !(v.major == w.major && v.minor > w.minor))

/-- Why a version is not of the same minor version and at least as new. `0.0.0` stands for any version
unless it has open numbers. -/
def tilde (c : Comparison) (v : Version) : Option String :=
  let w := c.version
  if v.compare w == .lt then c.unless_ v false "is less than"
  else if w.major == 0 && w.minor == 0 && w.patch == 0 &&
      c.openness != .minor && c.openness != .patch then none
  else if v.major != w.major then c.unless_ v false "does not have same major version as"
  else c.unless_ v (v.minor == w.minor || c.openness == .minor)
    "does not have same major and minor version as"

/-- Why a version is not compatible: at least as new, and the same in the leftmost number that is not
zero. -/
def caret (c : Comparison) (v : Version) : Option String :=
  let w := c.version
  if v.compare w == .lt then c.unless_ v false "is less than"
  else if w.major > 0 || c.openness == .minor then
    c.unless_ v (v.major == w.major) "does not have same major version as"
  else if v.major > 0 then c.unless_ v false "does not have same major version as"
  else if w.minor > 0 || c.openness == .patch then
    (c.unless_ v (v.minor == w.minor) "does not have same minor version as").map
      (· ++ ". Expected minor versions to match when constraint major version is 0")
  else if v.minor > 0 then c.unless_ v false "does not have same minor version as"
  else (c.unless_ v (v.patch == w.patch) "does not equal").map
    (· ++ ". Expect version and constraint to equal when major and minor versions are 0")

/-- Why a comparison does not hold of a version; `none` if it does. -/
def refusal? (c : Comparison) (v : Version) : Option String :=
  match c.relation with
  | .equal =>
    if c.openness = .exact then c.unless_ v (v.compare c.version == .eq) "is not equal to"
    else c.tilde v
  | .notEqual => c.differs v
  | .greater => c.greater v
  | .less => c.unless_ v (v.compare c.version == .lt) "is greater than or equal to"
  | .greaterEqual => c.unless_ v (v.compare c.version != .lt) "is less than"
  | .lessEqual => c.lessEqual v
  | .tilde => c.tilde v
  | .caret => c.caret v

/-! ## Reading -/

/-- What stands for any number. -/
def isPlaceholder (s : List Char) : Bool := s = ['x'] || s = ['X'] || s = ['*']

/-- The characters of numbers and placeholders. -/
def isNumberChar (c : Char) : Bool := c.isDigit || c == 'x' || c == 'X' || c == '*' || c == '|'

/-- White space between comparisons. -/
def isBlank (c : Char) : Bool :=
  c == ' ' || c == '\t' || c == '\n' || c == '\r' || c.toNat == 12

/-- The characters that signs of relations consist of. -/
def isSignChar (c : Char) : Bool := "=!<>~^".contains c

/-- The numbers before the first placeholder, at most three, and what is open after them. -/
def openNumbers (numbers : List (List Char)) : List (List Char) × Openness :=
  let closed := numbers.takeWhile (!isPlaceholder ·)
  (closed, match closed with
    | [] => .major
    | [_] => .minor
    | [_, _] => .patch
    | _ => .exact)

/-- The comparison with a written version. -/
def ofParts (relation : Relation) (written : String) (parts : Parts) : Except String Comparison :=
  let (closed, openness) := openNumbers parts.numbers
  let filled := closed ++ List.replicate (3 - closed.length) ['0']
  let pre := if parts.pre = "" then "" else "-" ++ parts.pre
  let metadata := if openness = .exact && parts.metadata ≠ "" then "+" ++ parts.metadata else ""
  match Version.read (String.intercalate "." (filled.map String.ofList) ++ pre ++ metadata) with
  | .ok v => .ok ⟨relation, written, v, openness⟩
  | .error _ => .error "constraint Parser Error"

/-- Read a comparison at the start of a text; blanks may stand before the sign and the version. The
result has yet to be checked for its numbers. -/
def take? (cs : List Char) : Option ((Relation × String × Parts) × List Char) :=
  let cs := cs.dropWhile isBlank
  match Relation.ofSign? (String.ofList (cs.takeWhile isSignChar)) with
  | none => none
  | some relation =>
    let start := (cs.dropWhile isSignChar).dropWhile isBlank
    match takeParts? isNumberChar start with
    | none => none
    | some (parts, rest) =>
      let written := String.ofList (start.take (start.length - rest.length))
      some ((relation, written, parts), rest)

/-- Read comparisons that are separated by blanks or commas, up to the end of a text. -/
def takeAll? : Nat → List Char → Option (List (Relation × String × Parts))
  | 0, _ => none
  | fuel + 1, cs =>
    match take? cs with
    | none => none
    | some (c, rest) =>
      match rest, rest.dropWhile isBlank with
      | _, [] => some [c]
      | _, ',' :: more => (takeAll? fuel more).map (c :: ·)
      | r :: _, more => if isBlank r then (takeAll? fuel more).map (c :: ·) else none
      | [], _ => none

end Comparison

/-! ## Constraints -/

/-- Alternatives of comparisons. -/
structure Constraint where
  alternatives : List (List Comparison)
deriving Repr

namespace Constraint

open Comparison

/-- Replace the first occurrence of a text. -/
def replaceFirst (old new : List Char) : List Char → List Char
  | [] => []
  | c :: cs =>
    if old.isPrefixOf (c :: cs) then new ++ (c :: cs).drop old.length
    else c :: replaceFirst old new cs

/-- A range at the start of a text: two versions around a hyphen that stands between blanks. The
result has the two versions and the text after the range and the blanks that follow it. -/
def takeRange? (cs : List Char) : Option ((List Char × List Char) × List Char) :=
  let first := cs.dropWhile isBlank
  match takeParts? isNumberChar first with
  | none => none
  | some (_, rest) =>
    match rest.takeWhile isBlank, rest.dropWhile isBlank with
    | _ :: _, '-' :: after =>
      let second := after.dropWhile isBlank
      match after.takeWhile isBlank, takeParts? isNumberChar second with
      | _ :: _, some (_, rest') =>
        some ((first.take (first.length - rest.length),
          second.take (second.length - rest'.length)), rest'.dropWhile isBlank)
      | _, _ => none
    | _, _ => none

/-- All ranges of a text, each with the text that is replaced by its two comparisons. -/
def ranges : Nat → List Char → List (List Char × List Char)
  | 0, _ => []
  | _, [] => []
  | fuel + 1, c :: cs =>
    match takeRange? (c :: cs) with
    | none => ranges fuel cs
    | some ((low, high), rest) =>
      ((c :: cs).take ((c :: cs).length - rest.length),
        ">= ".toList ++ low ++ ", <= ".toList ++ high ++ [' ']) :: ranges fuel rest

/-- Write ranges as two comparisons. -/
def expandRanges (cs : List Char) : List Char :=
  (ranges cs.length cs).foldl (fun cs (old, new) => replaceFirst old new cs) cs

/-- Read one alternative. -/
def readAlternative (s : String) : Except String (List Comparison) :=
  match takeAll? (s.length + 1) s.toList with
  | none => .error ("improper constraint: " ++ s)
  | some cs => cs.mapM fun (relation, written, parts) => ofParts relation written parts

/-- Read a constraint. -/
def read (s : String) : Except String Constraint := do
  let text := String.ofList (expandRanges s.toList)
  return ⟨← (text.splitOn "||").mapM readAlternative⟩

/-- Why the comparisons of an alternative do not all hold. That pre-releases are not wanted is said
once; `said` tells whether it has been said already. -/
def alternativeRefusals (v : Version) : Bool → List Comparison → Bool × List String
  | said, [] => (said, [])
  | said, c :: cs =>
    if c.refusesPre v then
      let (said', more) := alternativeRefusals v true cs
      (said', if said then more else preRefusal v :: more)
    else
      let (said', more) := alternativeRefusals v said cs
      (said', (c.refusal? v).toList ++ more)

/-- Whether all comparisons of an alternative hold. -/
def alternativeHolds (v : Version) (cs : List Comparison) : Bool :=
  cs.all fun c => !c.refusesPre v && (c.refusal? v).isNone

/-- Whether a version is wanted. -/
def holds (c : Constraint) (v : Version) : Bool := c.alternatives.any (alternativeHolds v)

/-- Why a version is not wanted, for each alternative in order. -/
def refusals (c : Constraint) (v : Version) : List String :=
  (c.alternatives.foldl (fun (said, out) alternative =>
    let (said, more) := alternativeRefusals v said alternative
    (said, out ++ more)) (false, [])).2

end Constraint
end SysY.Version

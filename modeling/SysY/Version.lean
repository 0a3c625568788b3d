import SysY.Text.Quoted

/-! # Versions

Semantic versions: three numbers, then optionally the name of a pre-release and build metadata. When
a version is read, a leading `v`, leading zeros and missing numbers are tolerated. -/

namespace SysY

/-- A semantic version. -/
structure Version where
  major : Nat
  minor : Nat
  patch : Nat
  /-- The identifiers of a pre-release, joined by dots; empty for a release. -/
  pre : String := ""
  metadata : String := ""
deriving DecidableEq, Repr, Inhabited

namespace Version

/-- A version in its normal form. -/
def text (v : Version) : String :=
  s!"{v.major}.{v.minor}.{v.patch}" ++ (if v.pre = "" then "" else "-" ++ v.pre) ++
    if v.metadata = "" then "" else "+" ++ v.metadata

/-! ## Reading -/

/-- Letters, digits and hyphens, of which pre-release and metadata identifiers consist. -/
def isIdentifierChar (c : Char) : Bool := c.isAlphanum || c == '-'

/-- Read a run of characters of a class; it may not be empty. -/
def takeRun? (p : Char → Bool) (cs : List Char) : Option (List Char × List Char) :=
  match cs.takeWhile p with
  | [] => none
  | run => some (run, cs.dropWhile p)

/-- Read further runs of a class, each after a dot, as many as there are up to `limit`. A dot without
a run is left. -/
def takeDotted (p : Char → Bool) : Nat → List Char → List (List Char) × List Char
  | limit + 1, '.' :: cs =>
    match takeRun? p cs with
    | none => ([], '.' :: cs)
    | some (run, rest) =>
      let (runs, rest) := takeDotted p limit rest
      (run :: runs, rest)
  | _, cs => ([], cs)

/-- Read an optional list of identifiers after a mark. -/
def takeLabel (mark : Char) (cs : List Char) : String × List Char :=
  match cs with
  | [] => ("", [])
  | c :: rest =>
    if c = mark then
      match takeRun? isIdentifierChar rest with
      | none => ("", cs)
      | some (run, rest) =>
        let (runs, rest) := takeDotted isIdentifierChar rest.length rest
        (String.intercalate "." ((run :: runs).map String.ofList), rest)
    else ("", cs)

/-- The parts of a written version: one to three numbers or placeholders, pre-release, metadata. -/
structure Parts where
  numbers : List (List Char)
  pre : String
  metadata : String
deriving DecidableEq, Repr

/-- Read the longest written version at the start of a text. The numbers consist of characters of
the class `p`. -/
def takeParts? (p : Char → Bool) (cs : List Char) : Option (Parts × List Char) :=
  let start := match cs with
    | 'v' :: rest => rest
    | _ => cs
  match takeRun? p start with
  | none => none
  | some (first, rest) =>
    let (more, rest) := takeDotted p 2 rest
    let (pre, rest) := takeLabel '-' rest
    let (metadata, rest) := takeLabel '+' rest
    some (⟨first :: more, pre, metadata⟩, rest)

/-- Read a number of at most 64 bits. -/
def readNumber (digits : List Char) : Except String Nat :=
  let n := digits.foldl (fun n c => 10 * n + (c.toNat - '0'.toNat)) 0
  if n < 0x10000000000000000 then .ok n
  else .error ("Error parsing version segment: strconv.ParseUint: parsing " ++
    Text.quoted (String.ofList digits) ++ ": value out of range")

/-- Whether a number of a pre-release starts with a needless zero. -/
def hasLeadingZero (identifier : String) : Bool :=
  identifier.length > 1 && identifier.startsWith "0" && identifier.toList.all Char.isDigit

/-- Read a version. -/
def read (s : String) : Except String Version :=
  match takeParts? Char.isDigit s.toList with
  | some (parts, []) => do
    let numbers ← parts.numbers.mapM readNumber
    if (parts.pre.splitOn ".").any hasLeadingZero then
      throw "Version segment starts with 0"
    return { major := numbers.getD 0 0, minor := numbers.getD 1 0, patch := numbers.getD 2 0
             pre := parts.pre, metadata := parts.metadata }
  | _ => .error "Invalid Semantic Version"

/-! ## Order -/

/-- The number that an identifier is, if it is one of at most 64 bits. -/
def identifierNumber? (s : String) : Option Nat :=
  if s ≠ "" && s.toList.all Char.isDigit then (readNumber s.toList).toOption else none

/-- Compare two identifiers of pre-releases. A missing one comes first. A number comes before
a word, numbers are compared as numbers and words by their letters. -/
def compareIdentifier (a b : String) : Ordering :=
  if a = b then .eq
  else if a = "" then .lt
  else if b = "" then .gt
  else
    match identifierNumber? a, identifierNumber? b with
    | some m, some n => if m > n then .gt else .lt
    | some _, none => .lt
    | none, some _ => .gt
    | none, none => if b < a then .gt else .lt

/-- Compare identifiers in order. A list that ends goes on with missing identifiers. -/
def compareIdentifiers : List String → List String → Ordering
  | [], [] => .eq
  | a :: as, [] => (compareIdentifier a "").then (compareIdentifiers as [])
  | [], b :: bs => (compareIdentifier "" b).then (compareIdentifiers [] bs)
  | a :: as, b :: bs => (compareIdentifier a b).then (compareIdentifiers as bs)

/-- Compare two pre-releases. -/
def comparePre (a b : String) : Ordering := compareIdentifiers (a.splitOn ".") (b.splitOn ".")

/-- The order of versions. A pre-release comes before its release, and metadata do not count. -/
def compare (a b : Version) : Ordering :=
  (Ord.compare a.major b.major).then <|
  (Ord.compare a.minor b.minor).then <|
  (Ord.compare a.patch b.patch).then <|
  if a.pre = "" && b.pre = "" then .eq
  else if a.pre = "" then .gt
  else if b.pre = "" then .lt
  else comparePre a.pre b.pre

end Version
end SysY

import SysY.Text.Quoted

/-! # Flags

How flags are written on a command line: `--name value`, `--name=value`, or with a single letter. A
switch needs no value. -/

namespace SysY.Cli

/-- What kind of value a flag takes. -/
inductive FlagKind where
  /-- A switch, which is on if no value is given. -/
  | switch
  | integer
  /-- A length of time. -/
  | duration
  | text
deriving DecidableEq, Repr

/-- A flag that a command understands. -/
structure Flag where
  name : String
  kind : FlagKind
  /-- A single letter that stands for the name. -/
  short : Option Char := none
deriving DecidableEq, Repr

/-- How a flag is named in messages. -/
def Flag.label (f : Flag) : String :=
  (match f.short with
    | some c => s!"-{c}, "
    | none => "") ++ "--" ++ f.name

/-- The value of a flag. -/
inductive Setting where
  | switch (on : Bool)
  | integer (n : Int)
  /-- A length of time in nanoseconds. -/
  | duration (nanos : Int)
  | text (s : String)
deriving DecidableEq, Repr

/-! ## Values -/

/-- Read the value of a switch. -/
def readSwitch (s : String) : Except String Bool :=
  if ["1", "t", "T", "TRUE", "true", "True"].contains s then .ok true
  else if ["0", "f", "F", "FALSE", "false", "False"].contains s then .ok false
  else .error ("strconv.ParseBool: parsing " ++ Text.quoted s ++ ": invalid syntax")

/-- The value of a digit or letter, from 0 up to 35. -/
def digitValue (c : Char) : Nat :=
  if c.isDigit then c.toNat - '0'.toNat
  else if c.isAlpha then c.toLower.toNat - 'a'.toNat + 10
  else 36

/-- Split off the mark of a base: the base and the digits. A leading zero marks octal digits, unless
it is all there is. -/
def splitBase (cs : List Char) : Nat × List Char :=
  match cs with
  | '0' :: c :: d :: rest =>
    match c.toLower with
    | 'b' => (2, d :: rest)
    | 'o' => (8, d :: rest)
    | 'x' => (16, d :: rest)
    | _ => (8, c :: d :: rest)
  | '0' :: rest => (8, rest)
  | _ => (10, cs)

/-- Whether underscores only stand between digits, or between the mark of a base and a digit; `before`
tells whether one may come next. -/
def underscoresFit : Bool → List Char → Bool
  | _, [] => true
  | before, '_' :: rest =>
    before && (rest.head?.any fun c => digitValue c < 36) && underscoresFit false rest
  | _, _ :: rest => underscoresFit true rest

/-- Read the rest of a number whose first digits denote `n`. The first character that is no digit, or
the first digit that makes the number too large, ends the reading. -/
def readDigits (base : Nat) (n : Nat) : List Char → Except String Nat
  | [] => .ok n
  | c :: cs =>
    if c = '_' then readDigits base n cs
    else if base ≤ digitValue c then .error "invalid syntax"
    else if 0x10000000000000000 ≤ base * n + digitValue c then .error "value out of range"
    else readDigits base (base * n + digitValue c) cs

/-- Read an integer of 64 bits, which may have the mark of a base. -/
def readInteger (s : String) : Except String Int :=
  let cs := s.toList
  let (negative, body) := match cs with
    | '-' :: rest => (true, rest)
    | '+' :: rest => (false, rest)
    | _ => (false, cs)
  let (base, digits) := splitBase body
  let value : Except String Int := do
    let n ← readDigits base 0 digits
    if body.isEmpty || !underscoresFit (base != 10) digits then throw "invalid syntax"
    let limit := if negative then 0x8000000000000000 else 0x7fffffffffffffff
    if limit < n then throw "value out of range"
    return if negative then -(n : Int) else n
  value.mapError fun why => "strconv.ParseInt: parsing " ++ Text.quoted s ++ ": " ++ why

/-- Nanoseconds of a unit of time. -/
def unitNanos? (s : String) : Option Nat :=
  if s = "ns" then some 1
  else if s = "us" || s = "µs" || s = "μs" then some 1000
  else if s = "ms" then some 1000000
  else if s = "s" then some 1000000000
  else if s = "m" then some 60000000000
  else if s = "h" then some 3600000000000
  else none

/-- A text between quotes in messages about lengths of time, where all but printable ASCII is written
as bytes. -/
def durationQuoted (s : String) : String :=
  let char (c : Char) : String :=
    if c.toNat < 32 ∨ 128 ≤ c.toNat then
      String.join ((String.singleton c).toUTF8.toList.map fun b => "\\x" ++ Text.hexDigits 2 b.toNat)
    else if c = '"' ∨ c = '\\' then String.ofList ['\\', c]
    else String.singleton c
  "\"" ++ String.join (s.toList.map char) ++ "\""

/-- What a number in a length of time consists of. -/
def isDurationDigit (c : Char) : Bool := c.isDigit || c == '.'

/-- Read numbers with units, and add them up. -/
def readDurationParts (whole : String) : Nat → List Char → Nat → Except String Nat
  | 0, _, total => .ok total
  | _, [], total => .ok total
  | fuel + 1, cs, total => do
    let invalid : Except String Nat := .error ("time: invalid duration " ++ durationQuoted whole)
    let ones := cs.takeWhile Char.isDigit
    let rest := cs.dropWhile Char.isDigit
    let (tenths, rest) := match rest with
      | '.' :: more => (more.takeWhile Char.isDigit, more.dropWhile Char.isDigit)
      | _ => ([], rest)
    let number (ds : List Char) : Nat := ds.foldl (fun n c => 10 * n + digitValue c) 0
    if ones.isEmpty && tenths.isEmpty then invalid
    else if 0x8000000000000000 < number ones then invalid
    else
      let unit := String.ofList (rest.takeWhile (!isDurationDigit ·))
      let rest := rest.dropWhile (!isDurationDigit ·)
      if unit = "" then .error ("time: missing unit in duration " ++ durationQuoted whole)
      else match unitNanos? unit with
        | none => .error ("time: unknown unit " ++ durationQuoted unit ++ " in duration " ++
            durationQuoted whole)
        | some nanos =>
          let total := total + number ones * nanos + number tenths * nanos / Nat.pow 10 tenths.length
          if 0x8000000000000000 < total then invalid else readDurationParts whole fuel rest total

/-- Read a length of time in nanoseconds. -/
def readDuration (s : String) : Except String Int :=
  let invalid : Except String Int := .error ("time: invalid duration " ++ durationQuoted s)
  let (negative, body) := match s.toList with
    | '-' :: rest => (true, rest)
    | '+' :: rest => (false, rest)
    | cs => (false, cs)
  if body = ['0'] then .ok 0
  else if body.isEmpty then invalid
  else do
    let n ← readDurationParts s (body.length + 1) body 0
    if negative then return -n else if n < 0x8000000000000000 then return n else invalid

/-- Read the value of a flag. -/
def Flag.read (f : Flag) (s : String) : Except String Setting :=
  let r : Except String Setting := match f.kind with
    | .switch => (readSwitch s).map .switch
    | .integer => (readInteger s).map .integer
    | .duration => (readDuration s).map .duration
    | .text => .ok (.text s)
  r.mapError fun e =>
    "invalid argument " ++ Text.quoted s ++ " for " ++ Text.quoted f.label ++ " flag: " ++ e

/-! ## Arguments -/

/-- A command line that has been taken apart: settings in the order in which they were made, and
arguments that are no flags. -/
structure Arguments where
  settings : List (String × Setting) := []
  words : List String := []
deriving Repr

namespace Arguments

/-- The last setting of a flag. -/
def get? (a : Arguments) (name : String) : Option Setting := a.settings.reverse.lookup name

/-- Whether a switch is on. -/
def isOn (a : Arguments) (name : String) : Bool := a.get? name = some (.switch true)

/-- The text of a flag. -/
def text? (a : Arguments) (name : String) : Option String :=
  match a.get? name with
  | some (.text s) => some s
  | _ => none

/-- The text of a flag that may be missing. -/
def text (a : Arguments) (name absent : String) : String := (a.text? name).getD absent

/-- The number of a flag that may be missing. -/
def integer (a : Arguments) (name : String) (absent : Int) : Int :=
  match a.get? name with
  | some (.integer n) => n
  | _ => absent

/-- Add the setting that a flag and its value make. -/
def set (a : Arguments) (f : Flag) (value : String) : Except String Arguments := do
  return { a with settings := a.settings ++ [(f.name, ← f.read value)] }

end Arguments

/-- The flag with a name. -/
def findFlag? (flags : List Flag) (name : String) : Option Flag := flags.find? (·.name == name)

/-- The flag with a letter. -/
def findShort? (flags : List Flag) (c : Char) : Option Flag := flags.find? (·.short == some c)

/-- Take a flag that is written with its name; `rest` are the arguments after it. -/
def takeLong (flags : List Flag) (arg : String) (rest : List String) (a : Arguments) :
    Except String (List String × Arguments) := do
  let body := arg.toList.drop 2
  if body.head? = some '-' || body.head? = some '=' then throw ("bad flag syntax: " ++ arg)
  let name := String.ofList (body.takeWhile (· != '='))
  match findFlag? flags name with
  | none => throw ("unknown flag: --" ++ name)
  | some f =>
    match body.dropWhile (· != '='), f.kind, rest with
    | _ :: value, _, _ => return (rest, ← a.set f (String.ofList value))
    | [], .switch, _ => return (rest, ← a.set f "true")
    | [], _, value :: rest => return (rest, ← a.set f value)
    | [], _, [] => throw ("flag needs an argument: --" ++ name)

/-- The first byte of a letter as a character, for messages about unknown letters. -/
def firstByte (c : Char) : Char :=
  match (String.singleton c).toUTF8.toList with
  | b :: _ => Char.ofNat b.toNat
  | [] => c

/-- Take flags that are written with letters; `rest` are the arguments after them. The last letter may
be followed by its value. -/
def takeShort (flags : List Flag) (rest : List String) :
    List Char → Arguments → Except String (List String × Arguments)
  | [], a => .ok (rest, a)
  | c :: cs, a => do
    let all := String.ofList (c :: cs)
    if all.startsWith "test." then return (rest, a)
    match findShort? flags c with
    | none => throw ("unknown shorthand flag: " ++ Text.quotedChar (firstByte c) ++ " in -" ++ all)
    | some f =>
      match cs, f.kind, rest with
      | '=' :: v :: vs, _, _ => return (rest, ← a.set f (String.ofList (v :: vs)))
      | _, .switch, _ => takeShort flags rest cs (← a.set f "true")
      | v :: vs, _, _ => return (rest, ← a.set f (String.ofList (v :: vs)))
      | [], _, value :: rest => return (rest, ← a.set f value)
      | [], _, [] =>
        throw ("flag needs an argument: " ++ Text.quotedChar (firstByte c) ++ " in -" ++ all)

/-- Take arguments apart. Flags and other arguments may be mixed; after `--` there are no more
flags. -/
def takeArguments (flags : List Flag) : Nat → List String → Arguments → Except String Arguments
  | 0, _, a => .ok a
  | _, [], a => .ok a
  | fuel + 1, arg :: rest, a => do
    if arg = "--" then return { a with words := a.words ++ rest }
    else if arg.startsWith "--" then
      let (rest, a) ← takeLong flags arg rest a
      takeArguments flags fuel rest a
    else if arg.startsWith "-" && arg ≠ "-" then
      let (rest, a) ← takeShort flags rest (arg.toList.drop 1) a
      takeArguments flags fuel rest a
    else takeArguments flags fuel rest { a with words := a.words ++ [arg] }

end SysY.Cli

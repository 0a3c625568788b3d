/-! # Numbers and times in configurations

How integers, numbers with a fraction, dates and times are written. -/

namespace SysY.Toml

/-- The value of a digit in a base. -/
def digit? (base : Nat) (c : Char) : Option Nat :=
  let n :=
    if c.isDigit then c.toNat - '0'.toNat
    else if c.isLower then c.toNat - 'a'.toNat + 10
    else if c.isUpper then c.toNat - 'A'.toNat + 10
    else base
  if n < base then some n else none

/-- Read digits. An underscore may stand between two of them. -/
def digits? (base : Nat) (cs : List Char) : Option Nat :=
  let rec /-- Read on after a digit. -/ go (n : Nat) : List Char → Option Nat
    | [] => some n
    | '_' :: c :: rest => (digit? base c).bind fun v => go (n * base + v) rest
    | c :: rest => (digit? base c).bind fun v => go (n * base + v) rest
  match cs with
  | [] => none
  | c :: rest => (digit? base c).bind fun v => go v rest

/-- Read a decimal number without sign and without a needless zero in front. -/
def decimal? (cs : List Char) : Option Nat :=
  match cs with
  | '0' :: _ :: _ => none
  | _ => digits? 10 cs

/-- Split off a sign: whether the number is negative, and the rest. -/
def splitSign : List Char → Bool × List Char
  | '-' :: cs => (true, cs)
  | '+' :: cs => (false, cs)
  | cs => (false, cs)

/-- Read an integer of 64 bits. -/
def integer? (cs : List Char) : Option Int := do
  let (negative, rest) := splitSign cs
  let magnitude ← match cs with
    | '0' :: 'x' :: ds => digits? 16 ds
    | '0' :: 'o' :: ds => digits? 8 ds
    | '0' :: 'b' :: ds => digits? 2 ds
    | _ => decimal? rest
  let n : Int := if negative then -magnitude else magnitude
  if -0x8000000000000000 ≤ n ∧ n < 0x8000000000000000 then some n else none

/-- Split at the first of some characters; the second part starts with it. -/
def splitAtAny (marks : List Char) (cs : List Char) : List Char × List Char :=
  cs.span (!marks.contains ·)

/-- Whether a text is an exponent: nothing, or a mark and an integer. -/
def isExponent : List Char → Bool
  | [] => true
  | _ :: cs => (digits? 10 (splitSign cs).2).isSome

/-- Whether a text is a number with a fraction or an exponent. -/
def isDecimal (cs : List Char) : Bool :=
  let cs := (splitSign cs).2
  cs = "inf".toList || cs = "nan".toList ||
    let (whole, rest) := splitAtAny ['.', 'e', 'E'] cs
    (decimal? whole).isSome &&
      match rest with
      | '.' :: more =>
        let (fraction, exponent) := splitAtAny ['e', 'E'] more
        (digits? 10 fraction).isSome && isExponent exponent
      | [] => false
      | exponent => isExponent exponent

/-- Read exactly `n` digits. -/
def fixed? (n : Nat) (cs : List Char) : Option (Nat × List Char) :=
  let ds := cs.take n
  if ds.length = n ∧ ds.all Char.isDigit then
    some (ds.foldl (fun v c => 10 * v + (c.toNat - '0'.toNat)) 0, cs.drop n)
  else none

/-- Read a character. -/
def mark? (c : Char) : List Char → Option (List Char)
  | x :: cs => if x = c then some cs else none
  | [] => none

/-- The number of days of a month. -/
def daysOf (year month : Nat) : Nat :=
  if month = 2 then
    if year % 4 = 0 ∧ (year % 100 ≠ 0 ∨ year % 400 = 0) then 29 else 28
  else if [4, 6, 9, 11].contains month then 30 else 31

/-- Read a date. -/
def date? (cs : List Char) : Option (List Char) := do
  let (year, cs) ← fixed? 4 cs
  let (month, cs) ← fixed? 2 (← mark? '-' cs)
  let (day, cs) ← fixed? 2 (← mark? '-' cs)
  if 1 ≤ month ∧ month ≤ 12 ∧ 1 ≤ day ∧ day ≤ daysOf year month then some cs else none

/-- Read a time of day. -/
def clock? (cs : List Char) : Option (List Char) := do
  let (hour, cs) ← fixed? 2 cs
  let (minute, cs) ← fixed? 2 (← mark? ':' cs)
  let (second, cs) ← fixed? 2 (← mark? ':' cs)
  if hour < 24 ∧ minute < 60 ∧ second < 60 then
    match cs with
    | '.' :: c :: rest => if c.isDigit then some (rest.dropWhile Char.isDigit) else none
    | '.' :: [] => none
    | _ => some cs
  else none

/-- Whether a text is nothing or an offset from universal time. -/
def isOffset (cs : List Char) : Bool :=
  match cs with
  | [] => true
  | [c] => c = 'Z' || c = 'z'
  | c :: rest =>
    (c = '+' || c = '-') && ((do
      let (hour, rest) ← fixed? 2 rest
      let (minute, rest) ← fixed? 2 (← mark? ':' rest)
      pure (hour < 24 && minute < 60 && rest.isEmpty) : Option Bool)).getD false

/-- Whether a text is a date, a time of day, or both. -/
def isTime (cs : List Char) : Bool :=
  match date? cs with
  | some [] => true
  | some (c :: rest) =>
    (c = 'T' || c = 't' || c = ' ') && ((clock? rest).map isOffset).getD false
  | none => clock? cs = some []

end SysY.Toml

import SysY.Text.Bytes
import SysY.Text.Quoted

/-! # Integer literals

A literal is decimal, octal with a leading `0`, or hexadecimal with a leading `0x`. Its value is at
most 2^31, so that the least 32-bit integer can be written as the negation of a literal. -/

namespace SysY.Literal

/-- The digits `0` to `9`. -/
def isDecimal (b : UInt8) : Bool := 48 ≤ b && b ≤ 57
/-- The digits `0` to `7`. -/
def isOctal (b : UInt8) : Bool := 48 ≤ b && b ≤ 55
/-- The digits `0` to `9` and the letters up to `f`, in either case. -/
def isHexadecimal (b : UInt8) : Bool :=
  isDecimal b || (97 ≤ b && b ≤ 102) || (65 ≤ b && b ≤ 70)

/-- Why a text is not a literal. -/
inductive Error where
  /-- The digits after the mark of the base are no number in that base. -/
  | malformed (digits : Bytes)
  /-- The number does not fit into 32 bits. -/
  | overflow (digits : Bytes)
  /-- A text that starts with `0` contains something else than octal digits. -/
  | notOctal
  /-- The number fits into 32 bits and is greater than 2^31. -/
  | tooLarge
deriving DecidableEq, Repr

/-- The digits of an unreadable number between quotes. -/
def shown (digits : Bytes) : String := Text.quoted (digits.toString?.getD digits.latin)

/-- The error in words. -/
def Error.message : Error → String
  | malformed digits => s!"strconv.ParseUint: parsing {shown digits}: invalid syntax"
  | overflow digits => s!"strconv.ParseUint: parsing {shown digits}: value out of range"
  | notOctal => "invalid syntax"
  | tooLarge => "value out of range"

/-- The value of a digit in a base, if it is one. -/
def digit? (base : Nat) (b : UInt8) : Option Nat :=
  let value :=
    if isDecimal b then b.toNat - 48
    else if 97 ≤ b && b ≤ 122 then b.toNat - 87
    else if 65 ≤ b && b ≤ 90 then b.toNat - 55
    else base
  if value < base then some value else none

/-- Read the rest of a 32-bit number whose first digits denote `acc`. The first bad digit or the
first digit that makes the number too large ends the reading; `digits` is the whole number. -/
def readFrom (base : Nat) (digits : Bytes) (acc : Nat) : Bytes → Except Error Nat
  | [] => .ok acc
  | b :: rest =>
    match digit? base b with
    | none => .error (.malformed digits)
    | some d =>
      if 0x100000000 ≤ acc * base + d then .error (.overflow digits)
      else readFrom base digits (acc * base + d) rest

/-- Read a 32-bit number without sign. -/
def readWord (base : Nat) (digits : Bytes) : Except Error Nat :=
  if digits.isEmpty then .error (.malformed digits) else readFrom base digits 0 digits

/-- Base and digits of a literal. -/
def split : Bytes → Nat × Bytes
  | 48 :: x :: d :: rest =>
    if x = 120 ∨ x = 88 then (16, d :: rest) else (8, x :: d :: rest)
  | [48, d] => (8, [d])
  | digits => (10, digits)

/-- The value of a literal. A value of 2^31 wraps around. -/
def read (text : Bytes) : Except Error Int32 :=
  let (base, digits) := split text
  if base = 8 ∧ !digits.all isOctal then .error .notOctal
  else do
    let n ← readWord base digits
    if 0x80000000 < n then .error .tooLarge else .ok (Int32.ofNat n)

end SysY.Literal

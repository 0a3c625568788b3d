import SysY.Diag.Error
import SysY.Token
import SysY.Token.Literal

/-! # Scanning

What the bytes at the start of a text are: white space and comments, or a token. The scanners
return lengths, so that what a token covers is always a piece of the text it was found in. -/

namespace SysY.Scan

/-- Letters and the underscore, with which names start. -/
def isNameStart (b : UInt8) : Bool :=
  b == 95 || (65 ≤ b && b ≤ 90) || (97 ≤ b && b ≤ 122)

/-- The bytes that continue a name. -/
def isNamePart (b : UInt8) : Bool := isNameStart b || Literal.isDecimal b

/-- Blank, tab, newline, carriage return, vertical tab and form feed. -/
def isSpace (b : UInt8) : Bool := b == 32 || (9 ≤ b && b ≤ 13)

/-- The length of a block comment after its opening `/*`, closing `*/` included. -/
def commentLength? : Bytes → Option Nat
  | 42 :: 47 :: _ => some 2
  | _ :: rest => (commentLength? rest).map (· + 1)
  | [] => none

/-- White space and comments in front of a token. -/
structure Gap where
  length : Nat
  /-- Where a comment starts that is never closed. Such a comment reaches to the end. -/
  unclosed : Option Nat := none
deriving DecidableEq, Repr

/-- Put `n` bytes in front of a gap. -/
def Gap.shift (n : Nat) (g : Gap) : Gap :=
  { length := n + g.length, unclosed := g.unclosed.map (n + ·) }

/-- The longest gap at the start of a text. Block comments do not nest. -/
def gap (bs : Bytes) : Gap :=
  match bs with
  | [] => { length := 0 }
  | b :: rest =>
    if isSpace b then (gap rest).shift 1
    else if b = 47 then
      match rest with
      | 47 :: line =>
        let n := (line.takeWhile (· ≠ 10)).length
        (gap (line.drop n)).shift (2 + n)
      | 42 :: body =>
        match commentLength? body with
        | some n => (gap (body.drop n)).shift (2 + n)
        | none => { length := 2 + body.length, unclosed := some 0 }
      | _ => { length := 0 }
    else { length := 0 }
termination_by bs.length
decreasing_by all_goals (simp only [List.length_drop, List.length_cons]; omega)

/-- A token at the start of a text. -/
structure Lexeme where
  kind : Token.Kind
  /-- The number of bytes after the first one. -/
  more : Nat := 0
  /-- What is wrong with a token that is not valid. -/
  issue : Option (Diag.Code × String) := none

/-- The number of bytes of a lexeme, which is never zero. -/
def Lexeme.length (l : Lexeme) : Nat := l.more + 1

/-- A name or a keyword: all bytes that can continue a name belong to it. -/
def word (b : UInt8) (rest : Bytes) : Lexeme :=
  let part := rest.takeWhile isNamePart
  { kind := .ofWord (Bytes.latin (b :: part)), more := part.length }

/-- The digits that follow the digit `b`: hexadecimal ones behind `0x`, and decimal ones
elsewhere. -/
def digits (b : UInt8) : Bytes → Bytes
  | [] => []
  | x :: rest =>
    if b = 48 ∧ (x = 120 ∨ x = 88) then x :: rest.takeWhile Literal.isHexadecimal
    else (x :: rest).takeWhile Literal.isDecimal

/-- What belongs to a number that begins with the digit `b`: its digits, and all bytes after them
that can continue a name. -/
def numberPart (b : UInt8) (rest : Bytes) : Bytes :=
  let ds := digits b rest
  ds ++ (rest.drop ds.length).takeWhile isNamePart

/-- A number with all that is glued to it. It has to be an integer literal. -/
def number (b : UInt8) (rest : Bytes) : Lexeme :=
  let part := numberPart b rest
  match Literal.read (b :: part) with
  | .ok _ => { kind := .intLit, more := part.length }
  | .error _ =>
    { kind := .invalid, more := part.length,
      issue := some (.badNumber,
        "malformed integer literal " ++ Text.quoted (Bytes.latin (b :: part))) }

/-- The operators of two bytes. -/
def pair? (b c : UInt8) : Option Token.Kind :=
  match b, c with
  | 38, 38 => some .andAnd
  | 124, 124 => some .orOr
  | 61, 61 => some .eqEq
  | 33, 61 => some .bangEq
  | 60, 61 => some .ltEq
  | 62, 61 => some .gtEq
  | _, _ => none

/-- The operators and punctuation signs of one byte. -/
def single? (b : UInt8) : Option Token.Kind :=
  match b with
  | 43 => some .plus
  | 45 => some .minus
  | 42 => some .star
  | 47 => some .slash
  | 37 => some .percent
  | 61 => some .assign
  | 33 => some .bang
  | 60 => some .lt
  | 62 => some .gt
  | 59 => some .semicolon
  | 44 => some .comma
  | 40 => some .lParen
  | 41 => some .rParen
  | 123 => some .lBrace
  | 125 => some .rBrace
  | 91 => some .lBracket
  | 93 => some .rBracket
  | _ => none

/-- An operator or punctuation sign. Two bytes win over one, and any other byte is unknown. -/
def sign (b : UInt8) (rest : Bytes) : Lexeme :=
  match rest.head?.bind (pair? b) with
  | some k => { kind := k, more := 1 }
  | none =>
    match single? b with
    | some k => { kind := k }
    | none =>
      { kind := .invalid,
        issue := some (.unknownCharacter,
          "unknown character " ++ Text.quotedChar (Char.ofNat b.toNat)) }

/-- The token that starts with byte `b`. -/
def lexeme (b : UInt8) (rest : Bytes) : Lexeme :=
  if isNameStart b then word b rest
  else if Literal.isDecimal b then number b rest
  else sign b rest

end SysY.Scan

import SysY.Text.Bytes
import SysY.Source.Span

/-! # Lines and columns

Lines are separated by newline bytes and counted from 1, and so are the bytes of a line. -/

namespace SysY.Source

/-- A line and a column, both counted from 1. -/
structure Position where
  line : Nat
  column : Nat
deriving DecidableEq, Repr

/-- The offsets of the newlines in `content`, which starts at offset `at_`. -/
def newlinesFrom (at_ : Nat) : Bytes → List Nat
  | [] => []
  | b :: rest => if b = 10 then at_ :: newlinesFrom (at_ + 1) rest else newlinesFrom (at_ + 1) rest

/-- The offsets of all newlines, in order. -/
def newlines (content : Bytes) : List Nat := newlinesFrom 0 content

/-- The position of an offset, given the offsets of all newlines. Offset and column are 32-bit
words. -/
def Position.ofOffset (lines : List Nat) (offset : Nat) : Position :=
  let before := lines.takeWhile (· < offset)
  match before.getLast? with
  | none => ⟨1, (offset + 1) % Span.offsetModulus⟩
  | some newline => ⟨before.length + 1, offset - newline⟩

/-- Line number `line` of `content` without its newline; empty when there is no such line. -/
def lineOf (content : Bytes) (line : Nat) : Bytes :=
  match line with
  | 0 => []
  | n + 1 =>
    let lines := newlines content
    let start? := if n = 0 then some 0 else (lines[n - 1]?).map (· + 1)
    match start? with
    | none => []
    | some start => (content.drop start).takeWhile (· ≠ 10)

end SysY.Source

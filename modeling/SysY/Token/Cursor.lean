import SysY.Failure
import SysY.Source.Files

/-! # Byte cursors

A position in a file, for reading it byte by byte. -/

namespace SysY

/-- A byte offset in a file. It may lie beyond the end. -/
structure Cursor where
  file : Source.File
  offset : Nat := 0

namespace Cursor

/-- The start of a file. Offsets are 32-bit words, so that larger files are refused. -/
def ofFile (f : Source.File) : Outcome Cursor :=
  if f.content.length < Source.Span.offsetModulus then .ok { file := f } else .outOfRange

/-- The offset at which the file ends. -/
def limit (c : Cursor) : Nat := c.file.content.length

/-- Whether there is no byte left. -/
def atEnd (c : Cursor) : Bool := c.limit ≤ c.offset

/-- The current byte, 0 at the end. -/
def peek (c : Cursor) : UInt8 := c.file.content.getD c.offset 0

/-- The current byte and the one after it, when both exist. -/
def peekPair? (c : Cursor) : Option (UInt8 × UInt8) :=
  match c.file.content.drop c.offset with
  | b₀ :: b₁ :: _ => some (b₀, b₁)
  | _ => none

/-- Step over the current byte; at the end there is nothing to step over. -/
def bump (c : Cursor) : Cursor := if c.atEnd then c else { c with offset := c.offset + 1 }

/-- Step over the current byte if it is `b`. -/
def eat? (c : Cursor) (b : UInt8) : Option Cursor :=
  if c.file.content[c.offset]? = some b then some c.bump else none

/-- The span from a remembered offset to the current one. -/
def spanFrom (c : Cursor) (mark : Nat) : Source.Span := ⟨c.file.id, mark, c.offset⟩

/-- Go back, or forward, to a remembered offset. -/
def reset (c : Cursor) (mark : Nat) : Cursor := { c with offset := mark }

end Cursor
end SysY

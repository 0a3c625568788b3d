/-! # Spans

A span is a half-open range of byte offsets inside one file. -/

namespace SysY.Source

/-- The bytes from `start` up to, but not including, `stop` of file number `file`. -/
structure Span where
  file : Nat := 0
  start : Nat := 0
  stop : Nat := 0
deriving DecidableEq, Repr, Inhabited

namespace Span

/-- Offsets are 32-bit words, and differences of offsets wrap around. -/
def offsetModulus : Nat := 0x100000000

/-- A span that contains no byte. -/
def isEmpty (s : Span) : Bool := s.start == s.stop

/-- The number of bytes in a span. For a reversed span the difference wraps around. -/
def length (s : Span) : Nat := (s.stop + offsetModulus - s.start) % offsetModulus

/-- The smallest span around both spans. Spans of different files are not merged. -/
def cover (s t : Span) : Span :=
  if s.file ≠ t.file then s
  else { s with start := min s.start t.start, stop := max s.stop t.stop }

/-- The empty span right after `s`. -/
def after (s : Span) : Span := { s with start := s.stop }

/-- `file:start-stop`. -/
def text (s : Span) : String := s!"{s.file}:{s.start}-{s.stop}"

end Span
end SysY.Source

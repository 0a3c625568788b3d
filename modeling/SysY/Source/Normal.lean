import SysY.Text.Canonical

/-! # Normal source text

Before a file is read its text is brought into one form, so that offsets do not depend on the
editor that wrote it: a byte order mark is dropped, `CR LF` line ends become `LF`, and characters
are composed canonically. -/

namespace SysY.Source

/-- What is known about the text of a file: whether it exists only in memory, and which steps of
normalization changed it. Each fact is a bit of a byte. -/
abbrev Flags := UInt8

namespace Flags

def virtual : Flags := 1
def hadByteOrderMark : Flags := 2
def hadCarriageReturns : Flags := 4
def recomposed : Flags := 8

end Flags

/-- Drop a leading byte order mark. -/
def dropByteOrderMark : Bytes → Bytes × Bool
  | 0xEF :: 0xBB :: 0xBF :: rest => (rest, true)
  | content => (content, false)

/-- Replace each `CR LF` by `LF`. A `CR` that stands alone stays. -/
def foldLineEnds : Bytes → Bytes
  | [] => []
  | b :: rest =>
    if b = 13 ∧ rest.head? = some 10 then foldLineEnds rest else b :: foldLineEnds rest

/-- The normal form of a text, and which steps changed it. -/
def normalize (content : Bytes) : Bytes × Flags :=
  let (unmarked, marked) := dropByteOrderMark content
  let folded := foldLineEnds unmarked
  let composed := Text.Canonical.normalize folded
  (composed,
    (if marked then Flags.hadByteOrderMark else 0) |||
    (if folded ≠ unmarked then Flags.hadCarriageReturns else 0) |||
    (if composed ≠ folded then Flags.recomposed else 0))

end SysY.Source

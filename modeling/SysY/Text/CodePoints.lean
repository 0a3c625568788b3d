/-! # Sets of code points

Tables of character classes are written the way the Unicode data files write them: hexadecimal
code points and ranges `first-last`. This module reads such a text into a set of code points. -/

namespace SysY.Text

/-- The value of a hexadecimal digit, and 0 for any other character. -/
def hexValue (c : Char) : Nat :=
  if '0' ≤ c ∧ c ≤ '9' then c.toNat - '0'.toNat
  else if 'A' ≤ c ∧ c ≤ 'F' then c.toNat - 'A'.toNat + 10
  else if 'a' ≤ c ∧ c ≤ 'f' then c.toNat - 'a'.toNat + 10
  else 0

/-- The number that hexadecimal digits denote. -/
def readHex (s : String) : Nat := s.toList.foldl (fun n c => 16 * n + hexValue c) 0

/-- The blank-separated entries of the rows of a table. -/
def entries (rows : List String) : List String := rows.flatMap (·.splitOn " ")

/-- A set of code points, kept as closed ranges. -/
structure CodePoints where
  ranges : Array (Nat × Nat)
deriving Inhabited

namespace CodePoints

/-- Read one entry: a code point, or two of them joined by a hyphen. -/
def readRange (entry : String) : Nat × Nat :=
  match entry.splitOn "-" with
  | [first, last] => (readHex first, readHex last)
  | _ => (readHex entry, readHex entry)

/-- The set that rows of blank-separated entries denote. -/
def ofRows (rows : List String) : CodePoints := ⟨((entries rows).map readRange).toArray⟩

/-- Whether the code point `n` belongs to the set. -/
def contains (t : CodePoints) (n : Nat) : Bool := t.ranges.any fun r => r.1 ≤ n && n ≤ r.2

end CodePoints
end SysY.Text

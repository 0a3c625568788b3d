import SysY.Diag.Diagnostic

/-! # Bags of diagnostics

A bounded collection of diagnostics. -/

namespace SysY.Diag

open Source (Span)

/-- Diagnostics in the order in which they were added, and how many there can be. -/
structure Bag where
  limit : Nat
  items : List Diagnostic := []

namespace Bag

/-- No bag holds more. -/
def maxLimit : Nat := 65535

/-- The limit for a wanted number of diagnostics. -/
def limitFor (n : Int) : Nat := if 0 ≤ n ∧ n ≤ maxLimit then n.toNat else maxLimit

/-- An empty bag. -/
def empty (limit : Int) : Bag := { limit := limitFor limit }

/-- Add a diagnostic if there is room. -/
def add (b : Bag) (d : Diagnostic) : Bool × Bag :=
  if b.items.length < b.limit then (true, { b with items := b.items ++ [d] }) else (false, b)

/-- Add diagnostics as long as there is room. -/
def addAll (b : Bag) (ds : List Diagnostic) : Bag :=
  { b with items := b.items ++ ds.take (b.limit - b.items.length) }

/-- Whether there is a diagnostic that is at least an error. -/
def hasErrors (b : Bag) : Bool := b.items.any (Severity.error.number ≤ ·.severity.number)

/-- Take over the diagnostics of another bag, and raise the limit if needed. -/
def merge (b other : Bag) : Bag :=
  let items := b.items ++ other.items
  let limit := if b.limit < items.length then limitFor items.length else b.limit
  { limit := limit, items := items.take limit }

/-- The order of diagnostics: by file, start and end, the more severe first, then by code. -/
def comesBefore (a b : Diagnostic) : Bool :=
  if a.span.file ≠ b.span.file then a.span.file < b.span.file
  else if a.span.start ≠ b.span.start then a.span.start < b.span.start
  else if a.span.stop ≠ b.span.stop then a.span.stop < b.span.stop
  else if a.severity ≠ b.severity then b.severity.number < a.severity.number
  else a.code.number < b.code.number

/-- Sort the diagnostics. Those that are equal in the order keep theirs. -/
def sort (b : Bag) : Bag := { b with items := b.items.mergeSort fun x y => !comesBefore y x }

/-- Keep only the first diagnostic of each code and place. -/
def dedup (b : Bag) : Bag := { b with items := go [] b.items }
where
  /-- Drop diagnostics whose code and place were seen. -/
  go : List (String × Span) → List Diagnostic → List Diagnostic
    | _, [] => []
    | seen, d :: ds =>
      let key := (d.code.id, d.span)
      if seen.contains key then go seen ds else d :: go (key :: seen) ds

end Bag
end SysY.Diag

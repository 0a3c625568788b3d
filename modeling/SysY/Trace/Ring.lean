import SysY.Failure

/-! # Rings

A ring keeps the most recent entries in a fixed number of slots: each new entry takes the slot after
the last one, and after the last slot comes the first one again. -/

namespace SysY.Trace

/-- A ring. `head` is the slot that the next entry takes, and `full` tells whether all slots are in
use. -/
structure Ring (α : Type) where
  slots : Array (Option α)
  head : Nat := 0
  full : Bool := false

namespace Ring

variable {α : Type}

/-- The number of slots when none is asked for. -/
def defaultCapacity : Nat := 4096

/-- No ring has more slots than this. A slot for an event has 104 bytes, and no more than 2⁴⁸ bytes
can be asked for at once. -/
def maxSlots : Nat := 0x1000000000000 / 104

/-- A ring of free slots. -/
def free (n : Nat) : Ring α := { slots := Array.replicate n none }

/-- A ring without entries. A capacity that is not positive means the default, and one that is too
large is refused. -/
def empty (capacity : Int) : Outcome (Ring α) :=
  let n := if capacity ≤ 0 then defaultCapacity else capacity.toNat
  if n ≤ maxSlots then .ok (free n) else .outOfRange

/-- Store an entry, over the oldest one if there is no free slot. -/
def push (r : Ring α) (a : α) : Ring α :=
  let next := (r.head + 1) % r.slots.size
  { slots := r.slots.setIfInBounds r.head (some a)
    head := next
    full := r.full || next == 0 }

/-- The entries, oldest first. -/
def toList (r : Ring α) : List α :=
  let slots := r.slots.toList
  let used := if r.full then slots.drop r.head ++ slots.take r.head else slots.take r.head
  used.filterMap id

/-- Change each entry in its place. -/
def map (f : α → α) (r : Ring α) : Ring α := { r with slots := r.slots.map (·.map f) }

end Ring
end SysY.Trace

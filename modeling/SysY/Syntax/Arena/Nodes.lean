import SysY.Source.Span

/-! # Numbered nodes

Nodes of one sort are known by their numbers, which count from 1; 0 means no node. A node is stored
in two parts. Its head says of which kind it is and where it stands in the source, and its contents
are an entry of the table for that kind, to which the head refers by number. A node that has
nothing beside its kind has a head only. -/

namespace SysY.Arena

open Source (Span)

/-- The entry with a number; numbers count from 1. -/
def node? {α : Type} (table : Array α) (id : Nat) : Option α :=
  if id = 0 then none else table[id - 1]?

/-- Nodes of a sort whose contents are stored apart from their heads, in one table for each kind. -/
class Kinded (ν : Type) where
  /-- How many kinds there are. -/
  count : Nat
  /-- The kind of a node. -/
  kind : ν → Nat
  /-- Whether a node has nothing beside its kind. -/
  isBare : ν → Bool
  /-- The node that has nothing beside its kind. -/
  bare : Nat → ν
  /-- There is a table for the contents of every node that has some. -/
  kind_lt {x : ν} : isBare x = false → kind x < count
  isBare_bare (k : Nat) : isBare (bare k) = true
  kind_bare (k : Nat) : kind (bare k) = k

/-- What is stored of a node apart from its contents. -/
structure Head where
  kind : Nat
  span : Span
  /-- The number of the contents in the table for the kind, and 0 for a node without any. -/
  contents : Nat
deriving Repr, Inhabited

/-- The nodes of one sort. -/
structure Nodes (ν : Type) [Kinded ν] where
  heads : Array Head := #[]
  /-- The contents, in one table for each kind. -/
  contents : Array (Array ν) := Array.replicate (Kinded.count ν) #[]

namespace Nodes

variable {ν : Type} [Kinded ν]

/-- How many nodes there are. -/
def size (n : Nodes ν) : Nat := n.heads.size

/-- The contents of the nodes of a kind. -/
def table (n : Nodes ν) (kind : Nat) : Array ν := n.contents.getD kind #[]

/-- What a head stands for. A head whose contents are not there stands for a bare node. -/
def ofHead (n : Nodes ν) (h : Head) : Span × ν :=
  (h.span, (node? (n.table h.kind) h.contents).getD (Kinded.bare h.kind))

/-- The node with a number. -/
def find? (n : Nodes ν) (id : Nat) : Option (Span × ν) := (node? n.heads id).map n.ofHead

/-- The nodes in the order of their numbers. -/
def toArray (n : Nodes ν) : Array (Span × ν) := n.heads.map n.ofHead

/-- Make a node: its contents first if it has any, then its head. -/
def add (n : Nodes ν) (s : Span) (x : ν) : Nat × Nodes ν :=
  let kind := Kinded.kind x
  if Kinded.isBare x then (n.size + 1, { n with heads := n.heads.push ⟨kind, s, 0⟩ })
  else (n.size + 1, { heads := n.heads.push ⟨kind, s, (n.table kind).size + 1⟩,
                      contents := n.contents.modify kind (·.push x) })

end Nodes
end SysY.Arena

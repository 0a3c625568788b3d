import SysY.Const.Value
import SysY.Syntax

/-! # Array layout

Where the elements of a brace initializer go. A list in braces starts at the current position and
fills the largest sub-array that begins there; elements without braces are taken one by one. The
positions that no element takes hold zero. -/

namespace SysY.Const

/-- An element and the position at which it is stored. -/
structure Placement where
  position : Int
  value : Expr

/-- The placements of an initializer in source order, and why the layout ends early if it does. -/
structure Layout where
  placements : List Placement := []
  stop : Option Failure := none

namespace Layout

/-- Stop without placing anything. -/
def fail (f : Failure) : Layout := { stop := some f }

/-- Stop because an initializer does not fit. -/
def mismatch (span : Source.Span) (detail : String) : Layout :=
  fail (.error (.typeMismatch span detail))

/-- Continue a layout, unless it has stopped. -/
def andThen (l : Layout) (next : Layout) : Layout :=
  match l.stop with
  | some _ => l
  | none => { placements := l.placements ++ next.placements, stop := next.stop }

/-- The bounds of the largest proper sub-array that begins at a position. -/
def subArray? (position : Int) : (dims : List Int) → Outcome (Option (List Int))
  | [] => return none
  | _ :: ds => go ds
where
  /-- Look at smaller and smaller sub-arrays. -/
  go : List Int → Outcome (Option (List Int))
    | [] => return none
    | d :: ds =>
      if count (d :: ds) = 0 then .outOfRange
      else if position.tmod (count (d :: ds)) = 0 then return some (d :: ds)
      else go ds

mutual

/-- Lay out one element at `base + position` in an array with bounds `dims` that begins at `base`.
Also says how many positions it takes. -/
def ofInit (dims : List Int) (base position : Int) : Init → Layout × Int
  | .expr _ e => ({ placements := [⟨base + position, e⟩] }, 1)
  | .list s elems =>
    match subArray? position dims with
    | .error f => (fail f, 0)
    | .ok none => (mismatch s "braces around scalar initializer", 0)
    | .ok (some sub) => (ofInits sub (base + position) 0 elems, count sub)
  | .missing _ => (fail (.fault none), 0)

/-- Lay out elements from `base + position` on. -/
def ofInits (dims : List Int) (base position : Int) : List Init → Layout
  | [] => {}
  | i :: is =>
    if count dims ≤ position then
      match i with
      | .missing _ => fail (.fault none)
      | _ => mismatch i.span "excess elements in array initializer"
    else
      let (l, taken) := ofInit dims base position i
      l.andThen (ofInits dims base (position + taken) is)

end

/-- No array has more elements than this. -/
def maxCount : Int := 0x400000000000

/-- The layout of an initializer for a whole array, and the number of elements of the array. -/
def ofArray (dims : List Int) : Init → Outcome (Layout × Nat)
  | .list _ elems =>
    if count dims < 0 ∨ maxCount < count dims then .outOfRange
    else return (ofInits dims 0 0 elems, (count dims).toNat)
  | .expr s _ => .raise (.typeMismatch s "array initializer must be a brace list")
  | .missing _ => .outOfRange

/-- Store elements one after the other. -/
def store {m : Type → Type} [Monad m] [MonadExceptOf Failure m] {α : Type} (elem : Expr → m α) :
    List Placement → List α → m (List α)
  | [], out => return out
  | p :: ps, out => do
    let v ← elem p.value
    if 0 ≤ p.position ∧ p.position < out.length then
      store elem ps (out.set p.position.toNat v)
    else throw (.fault none)

/-- Evaluate the elements in source order, and store each at its position among zeros. -/
def fill {m : Type → Type} [Monad m] [MonadExceptOf Failure m] {α : Type} (zero : α)
    (elem : Expr → m α) (l : Layout) (size : Nat) : m (List α) := do
  let out ← store elem l.placements (List.replicate size zero)
  match l.stop with
  | some f => throw f
  | none => return out

end Layout

/-- The elements of an array with a brace initializer, in row-major order. -/
def flatten {m : Type → Type} [Monad m] [MonadExceptOf Failure m] {α : Type} (zero : α)
    (elem : Expr → m α) (dims : List Int) (init : Init) : m (List α) := do
  match Layout.ofArray dims init with
  | .error f => throw f
  | .ok (l, size) => l.fill zero elem size

end SysY.Const

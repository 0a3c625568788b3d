import SysY.Failure
import SysY.Koopa.Ty

/-! # Constants

The values that are known while compiling: integers, and arrays of them in row-major order. -/

namespace SysY.Const

/-- The number of elements of an array with the given bounds. -/
def count (dims : List Int) : Int := dims.foldl (fun n d => wrapCount (n * d)) 1

/-- A constant: an integer when there are no bounds, otherwise an array that holds its elements in
row-major order. -/
structure Value where
  dims : List Int := []
  data : List Int32 := []
deriving DecidableEq, Repr, Inhabited

namespace Value

/-- A constant integer. -/
def scalar (v : Int32) : Value := { data := [v] }

/-- Whether a constant is a single number. -/
def isScalar (v : Value) : Bool := v.dims.isEmpty

/-- The integer that a constant is. Arrays are refused. -/
def item (v : Value) : Outcome Int32 :=
  if v.isScalar then
    match v.data.head? with
    | some n => return n
    | none => .outOfRange
  else
    let dims := String.intercalate " " (v.dims.map toString)
    .refuse s!"consteval: Item on array of dims [{dims}]"

/-- Apply subscripts to an array with the given bounds, of which `stride` elements are left from
offset `offset` on. The result is the bounds, the offset and the number of elements of what is
selected; none when there are too many subscripts or one is not within its bound. -/
def select (offset stride : Int) :
    (dims : List Int) → (indices : List Int32) → Outcome (Option (List Int × Int × Int))
  | dims, [] => return some (dims, offset, stride)
  | [], _ :: _ => return none
  | d :: ds, i :: is =>
    if d = 0 then .outOfRange
    else if i.toInt < 0 ∨ d ≤ i.toInt then return none
    else select (offset + i.toInt * stride.tdiv d) (stride.tdiv d) ds is

/-- Apply subscripts to a constant. Fewer subscripts than bounds select a sub-array. -/
def index (v : Value) (indices : List Int32) : Outcome (Option Value) := do
  if v.dims.length < indices.length then return none
  match ← select 0 v.data.length v.dims indices with
  | none => return none
  | some (dims, offset, stride) =>
    return some { dims := dims, data := (v.data.drop offset.toNat).take stride.toNat }

end Value
end SysY.Const

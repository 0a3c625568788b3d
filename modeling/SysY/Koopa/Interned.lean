import SysY.Koopa.Ty

/-! # Interned types

A table keeps each type once: a type names its parts by their numbers in the table, and it is looked for
by its text. So types are compared by their numbers. -/

namespace SysY.Koopa

/-- The number of a type in a table. -/
abbrev TyId := Nat

/-- A type whose parts stand in a table. -/
inductive TyNode where
  | i32
  | unit
  | array (elem : TyId) (length : Nat)
  | pointer (target : TyId)
  | func (params : List TyId) (ret : TyId)
deriving DecidableEq, Repr

/-- Types with their texts, in the order in which they were first asked for. -/
structure TyTable where
  entries : List (TyNode × String) := [(.i32, "i32"), (.unit, "unit")]

namespace TyTable

/-- The number of the integer type. -/
def i32 : TyId := 0

/-- The number of the unit type. -/
def unit : TyId := 1

/-- The text of a type of the table. -/
def text (t : TyTable) (id : TyId) : String := ((t.entries[id]?).map (·.2)).getD ""

/-- Whether a type of the table is the unit type. -/
def isUnit (t : TyTable) (id : TyId) : Bool := (t.entries[id]?).map (·.1) == some .unit

/-- The text of a type, put together from the texts of its parts. -/
def render (t : TyTable) : TyNode → String
  | .i32 => "i32"
  | .unit => "unit"
  | .array e n => "[" ++ t.text e ++ ", " ++ toString n ++ "]"
  | .pointer p => "*" ++ t.text p
  | .func ps r =>
    "(" ++ String.intercalate ", " (ps.map t.text) ++ ")" ++
      if t.isUnit r then "" else ": " ++ t.text r

/-- The number of a type. A type whose text is new is put at the end of the table. -/
def intern (t : TyTable) (node : TyNode) : TyId × TyTable :=
  let text := t.render node
  match t.entries.findIdx? (·.2 == text) with
  | some id => (id, t)
  | none => (t.entries.length, ⟨t.entries ++ [(node, text)]⟩)

/-- The array type with a length, which has to be positive. -/
def arrayOf (t : TyTable) (elem : TyId) (length : Int) : Outcome (TyId × TyTable) :=
  if length ≤ 0 then .refuse s!"ir: array length must be positive, got {length}"
  else return t.intern (.array elem length.toNat)

/-- The type of pointers to a type. -/
def pointerTo (t : TyTable) (target : TyId) : TyId × TyTable := t.intern (.pointer target)

/-- A function type. Without a return type it is the unit type. -/
def funcType (t : TyTable) (params : List TyId) (ret : Option TyId) : TyId × TyTable :=
  t.intern (.func params (ret.getD unit))

mutual

/-- Build a type from its parts. -/
def build (t : TyTable) : Ty → Outcome (TyId × TyTable)
  | .i32 => return (i32, t)
  | .unit => return (unit, t)
  | .array elem length => do
    let (e, t) ← t.build elem
    t.arrayOf e length
  | .pointer target => do
    let (p, t) ← t.build target
    return t.pointerTo p
  | .func params ret => do
    let (ps, t) ← t.buildAll params
    let (r, t) ← t.build ret
    return t.funcType ps (some r)

/-- Build types in order. -/
def buildAll (t : TyTable) : List Ty → Outcome (List TyId × TyTable)
  | [] => return ([], t)
  | ty :: tys => do
    let (id, t) ← t.build ty
    let (ids, t) ← t.buildAll tys
    return (id :: ids, t)

end

end TyTable
end SysY.Koopa

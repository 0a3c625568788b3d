import SysY.Failure

/-! # Koopa types

The types of intermediate code, their text and their size on a 32-bit target. -/

namespace SysY

/-- Counts of array elements and bytes are signed 64-bit words. -/
def wrapCount (n : Int) : Int := Int.bmod n 0x10000000000000000

end SysY

namespace SysY.Koopa

/-- The types of intermediate code. -/
inductive Ty where
  | i32
  | unit
  | array (elem : Ty) (length : Nat)
  | pointer (target : Ty)
  | func (params : List Ty) (ret : Ty)
deriving Repr, Inhabited

namespace Ty

mutual

/-- Whether two types are the same. -/
def same : Ty → Ty → Bool
  | i32, i32 => true
  | unit, unit => true
  | array e n, array e' n' => same e e' && n == n'
  | pointer t, pointer t' => same t t'
  | func ps r, func ps' r' => sameAll ps ps' && same r r'
  | _, _ => false

/-- Whether two lists of types are the same. -/
def sameAll : List Ty → List Ty → Bool
  | [], [] => true
  | t :: ts, t' :: ts' => same t t' && sameAll ts ts'
  | _, _ => false

end

mutual

/-- The comparison of types decides their equality. -/
theorem same_iff : (a b : Ty) → (same a b = true ↔ a = b)
  | i32, b => by cases b <;> simp [same]
  | unit, b => by cases b <;> simp [same]
  | array e n, b => by cases b <;> simp [same, same_iff e]
  | pointer t, b => by cases b <;> simp [same, same_iff t]
  | func ps r, b => by cases b <;> simp [same, same_iff r, sameAll_iff ps]

/-- The comparison of lists of types decides their equality. -/
theorem sameAll_iff : (a b : List Ty) → (sameAll a b = true ↔ a = b)
  | [], b => by cases b <;> simp [sameAll]
  | t :: ts, b => by cases b <;> simp [sameAll, same_iff t, sameAll_iff ts]

end

instance : DecidableEq Ty := fun a b => decidable_of_iff _ (same_iff a b)

mutual

/-- A type as text. A function that returns nothing shows no return type. -/
def text : Ty → String
  | i32 => "i32"
  | unit => "unit"
  | array e n => "[" ++ text e ++ ", " ++ toString n ++ "]"
  | pointer t => "*" ++ text t
  | func ps unit => "(" ++ String.intercalate ", " (texts ps) ++ ")"
  | func ps r => "(" ++ String.intercalate ", " (texts ps) ++ "): " ++ text r

/-- Types as texts. -/
def texts : List Ty → List String
  | [] => []
  | t :: ts => text t :: texts ts

end

/-- The size of a value in bytes. Functions and the unit value take no space. -/
def size : Ty → Int
  | i32 | pointer _ => 4
  | array e n => wrapCount (n * size e)
  | unit | func .. => 0

/-- The array type with a length, which has to be positive. -/
def arrayOf (elem : Ty) (length : Int) : Outcome Ty :=
  if length ≤ 0 then .refuse s!"ir: array length must be positive, got {length}"
  else return array elem length.toNat

/-- The type of an array of integers with the given bounds, outermost first. -/
def ofBounds : List Int → Outcome Ty
  | [] => return i32
  | d :: ds => do arrayOf (← ofBounds ds) d

end Ty
end SysY.Koopa

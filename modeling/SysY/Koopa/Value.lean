import SysY.Koopa.Ty

/-! # Koopa values

Instructions, constants, parameters and global variables are all values. A value, a block and a
function are referred to by number, counting from 1 over the whole program. -/

namespace SysY.Koopa

/-- The number of a value. -/
abbrev ValueId := Nat
/-- The number of a block. -/
abbrev BlockId := Nat
/-- The number of a function. -/
abbrev FnId := Nat

/-- Binary instructions. The last one is no instruction of the language. -/
inductive Op where
  | ne | eq | gt | lt | ge | le
  | add | sub | mul | div | mod
  | and | or | xor | shl | shr | sar
  | other
deriving DecidableEq, Repr, Inhabited

namespace Op

/-- The name of a binary instruction. -/
def name : Op → String
  | ne => "ne"
  | eq => "eq"
  | gt => "gt"
  | lt => "lt"
  | ge => "ge"
  | le => "le"
  | add => "add"
  | sub => "sub"
  | mul => "mul"
  | div => "div"
  | mod => "mod"
  | and => "and"
  | or => "or"
  | xor => "xor"
  | shl => "shl"
  | shr => "shr"
  | sar => "sar"
  | other => "?"

/-- All binary instructions. -/
def all : List Op :=
  [ne, eq, gt, lt, ge, le, add, sub, mul, div, mod, and, or, xor, shl, shr, sar]

/-- The binary instruction with a name. -/
def ofName (s : String) : Op := (all.find? (·.name = s)).getD other

end Op

/-- What a value is. -/
inductive ValueDef where
  | integer (n : Int32)
  | zeroInit
  | undef
  | aggregate (elems : List ValueId)
  /-- A parameter of the function. -/
  | arg (index : Nat)
  | alloc
  | globalAlloc (init : ValueId)
  | load (src : ValueId)
  | store (value dest : ValueId)
  | getPtr (src index : ValueId)
  | getElemPtr (src index : ValueId)
  | binary (op : Op) (left right : ValueId)
  | branch (cond : ValueId) (ifTrue ifFalse : BlockId)
  | jump (target : BlockId)
  | call (callee : FnId) (args : List ValueId)
  /-- Return with or without a value. -/
  | ret (value : Option ValueId)
deriving DecidableEq, Repr, Inhabited

namespace ValueDef

/-- The name of the kind of a value. -/
def kind : ValueDef → String
  | integer _ => "integer"
  | zeroInit => "zeroinit"
  | undef => "undef"
  | aggregate _ => "aggregate"
  | arg _ => "arg"
  | alloc => "alloc"
  | globalAlloc _ => "global_alloc"
  | load _ => "load"
  | store .. => "store"
  | getPtr .. => "getptr"
  | getElemPtr .. => "getelemptr"
  | binary .. => "binary"
  | branch .. => "branch"
  | jump _ => "jump"
  | call .. => "call"
  | ret _ => "return"

/-- Terminators end a block. -/
def isTerminator : ValueDef → Bool
  | branch .. | jump _ | ret _ => true
  | _ => false

/-- Constants stand in no block. -/
def isConst : ValueDef → Bool
  | integer _ | zeroInit | undef | aggregate _ => true
  | _ => false

/-- What stands in a block: all but constants, parameters and global variables. -/
def isInstruction : ValueDef → Bool
  | integer _ | zeroInit | undef | aggregate _ | arg _ | globalAlloc _ => false
  | _ => true

/-- The values that a value reads, in order. -/
def operands : ValueDef → List ValueId
  | aggregate elems => elems
  | globalAlloc init => [init]
  | load src => [src]
  | store value dest => [value, dest]
  | getPtr src index | getElemPtr src index => [src, index]
  | binary _ left right => [left, right]
  | branch cond _ _ => [cond]
  | call _ args => args
  | ret value => value.toList
  | _ => []

/-- The blocks to which a terminator can transfer control. -/
def targets : ValueDef → List BlockId
  | branch _ ifTrue ifFalse => [ifTrue, ifFalse]
  | jump target => [target]
  | _ => []

end ValueDef

/-- A value with its type and the function it belongs to, if it is not global. -/
structure Value where
  home : Option FnId
  ty : Ty
  defn : ValueDef
  /-- The wanted name, with its `@` or `%`; empty when there is none. -/
  name : String := ""
deriving Repr, Inhabited

/-- A block and the function it belongs to. -/
structure Block where
  home : FnId
  name : String
deriving Repr, Inhabited

end SysY.Koopa

/-! # Configuration tables

The values of a TOML document. -/

namespace SysY.Toml

/-- A value. Points in time and numbers with a fraction only matter by their kind. -/
inductive Value where
  | text (s : String)
  | integer (n : Int)
  | bool (b : Bool)
  | decimal
  | time
  | list (items : List Value)
  | table (fields : List (String × Value))
  /-- A list of tables, each with a header of its own. -/
  | tables (rows : List (List (String × Value)))
deriving Repr

/-- Fields with their values. -/
abbrev Table := List (String × Value)

/-- The names that lead to a value. -/
abbrev Key := List String

/-- A document: its tables, and all keys that are written in it, headers of tables included, in
order. -/
structure Document where
  root : Table := []
  keys : List Key := []

/-- Whether a name can be written without quotes. -/
def isBareChar (c : Char) : Bool := c.isAlphanum || c == '_' || c == '-'

/-- Escape a character between double quotes. -/
def escape (c : Char) : String :=
  match c with
  | '"' => "\\\""
  | '\\' => "\\\\"
  | '\t' => "\\t"
  | '\n' => "\\n"
  | '\r' => "\\r"
  | c =>
    if c.toNat = 8 then "\\b"
    else if c.toNat = 12 then "\\f"
    else if c.toNat < 32 ∨ c.toNat = 127 then
      "\\u00" ++ String.ofList [Nat.digitChar (c.toNat / 16), Nat.digitChar (c.toNat % 16)]
    else String.singleton c

/-- A name of a key as it is written. -/
def nameText (name : String) : String :=
  if name ≠ "" && name.toList.all isBareChar then name
  else "\"" ++ String.join (name.toList.map escape) ++ "\""

/-- A key as it is written. -/
def keyText (key : Key) : String := String.intercalate "." (key.map nameText)

end SysY.Toml

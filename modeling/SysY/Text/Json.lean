import SysY.Text.Quoted

/-! # JSON strings

Strings as they stand in JSON output. Characters that have a meaning in HTML are escaped as well,
so that the output can be embedded in a page. -/

namespace SysY.Text

/-- How a character is written in a JSON string. -/
def jsonChar (c : Char) : String :=
  match c with
  | '"' => "\\\""
  | '\\' => "\\\\"
  | '\n' => "\\n"
  | '\r' => "\\r"
  | '\t' => "\\t"
  | '\x08' => "\\b"
  | '\x0c' => "\\f"
  | c =>
    if c.toNat < 32 ∨ c = '<' ∨ c = '>' ∨ c = '&' ∨ c.toNat = 0x2028 ∨ c.toNat = 0x2029 then
      "\\u" ++ hexDigits 4 c.toNat
    else String.singleton c

/-- A JSON string. -/
def json (s : String) : String := "\"" ++ String.join (s.toList.map jsonChar) ++ "\""

end SysY.Text

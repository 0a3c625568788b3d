import SysY.Text.Bytes

/-! # Text styles

Colours and weights on a terminal. -/

namespace SysY.Diag

/-- What a text is styled as. -/
inductive Style where
  | error | warning | info | code | caret | note | gutter
deriving DecidableEq, Repr

namespace Style

/-- The terminal attributes that switch a style on. -/
def on : Style → String
  | error => "31;1"
  | warning => "33;1"
  | info => "36"
  | code => "1"
  | caret => "32;1"
  | note => "34;1"
  | gutter => "34"

/-- The terminal attributes that switch a style off: a colour is reset, and bold has an off of its
own. -/
def off : Style → String
  | info | gutter => "0"
  | code => "22"
  | _ => "0;22"

/-- A styled text; plain if styles are not wanted. -/
def apply (s : Style) (wanted : Bool) (text : Bytes) : Bytes :=
  if wanted then
    Bytes.ofString ("\x1b[" ++ s.on ++ "m") ++ text ++ Bytes.ofString ("\x1b[" ++ s.off ++ "m")
  else text

end Style
end SysY.Diag

/-! # Option words

Words that are recognized in any case, and padding for columns of text. -/

namespace SysY.Text

/-- A letter in lower case. Beside the ASCII letters, two letters outside ASCII have lower-case forms
inside it: the dotted capital I and the Kelvin sign. -/
def lowerLetter (c : Char) : Char :=
  if c.toNat = 0x130 then 'i' else if c.toNat = 0x212A then 'k' else c.toLower

/-- A word in lower case, for comparing it with an ASCII word. -/
def lowerWord (s : String) : String := String.ofList (s.toList.map lowerLetter)

/-- Fill up with blanks on the right. -/
def padRight (width : Nat) (s : String) : String :=
  s ++ String.ofList (List.replicate (width - s.length) ' ')

/-- Fill up on the left. -/
def padLeft (width : Nat) (fill : Char) (s : String) : String :=
  String.ofList (List.replicate (width - s.length) fill) ++ s

end SysY.Text

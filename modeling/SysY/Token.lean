import SysY.Text.Bytes
import SysY.Source.Span

/-! # Tokens

The smallest units of source text: names, integer literals, keywords, operators and punctuation. -/

namespace SysY

/-- The category of a token. -/
inductive Token.Kind where
  | invalid | eof | ident | intLit
  | kwInt | kwVoid | kwConst | kwIf | kwElse | kwWhile | kwBreak | kwContinue | kwReturn
  | plus | minus | star | slash | percent | assign | eqEq | bang | bangEq
  | lt | ltEq | gt | gtEq | andAnd | orOr | semicolon | comma
  | lParen | rParen | lBrace | rBrace | lBracket | rBracket
deriving DecidableEq, Repr, Inhabited

namespace Token.Kind

/-- All categories in their numerical order. -/
def all : List Kind :=
  [invalid, eof, ident, intLit,
   kwInt, kwVoid, kwConst, kwIf, kwElse, kwWhile, kwBreak, kwContinue, kwReturn,
   plus, minus, star, slash, percent, assign, eqEq, bang, bangEq,
   lt, ltEq, gt, gtEq, andAnd, orOr, semicolon, comma,
   lParen, rParen, lBrace, rBrace, lBracket, rBracket]

/-- The category with a number. -/
def ofNumber? (n : Nat) : Option Kind := all[n]?

/-- How messages call a category: its spelling where it has only one. -/
def name : Kind → String
  | invalid => "invalid"
  | eof => "EOF"
  | ident => "identifier"
  | intLit => "integer literal"
  | kwInt => "int"
  | kwVoid => "void"
  | kwConst => "const"
  | kwIf => "if"
  | kwElse => "else"
  | kwWhile => "while"
  | kwBreak => "break"
  | kwContinue => "continue"
  | kwReturn => "return"
  | plus => "+"
  | minus => "-"
  | star => "*"
  | slash => "/"
  | percent => "%"
  | assign => "="
  | eqEq => "=="
  | bang => "!"
  | bangEq => "!="
  | lt => "<"
  | ltEq => "<="
  | gt => ">"
  | gtEq => ">="
  | andAnd => "&&"
  | orOr => "||"
  | semicolon => ";"
  | comma => ","
  | lParen => "("
  | rParen => ")"
  | lBrace => "\x7b"
  | rBrace => "\x7d"
  | lBracket => "["
  | rBracket => "]"

/-- The keywords of the language. -/
def keywords : List Kind :=
  [kwInt, kwVoid, kwConst, kwIf, kwElse, kwWhile, kwBreak, kwContinue, kwReturn]

/-- Whether a category is a keyword. -/
def isKeyword (k : Kind) : Bool := keywords.contains k

/-- Whether a category is an operator or a punctuation sign. -/
def isPunctuation (k : Kind) : Bool :=
  !k.isKeyword && k != invalid && k != eof && k != ident && k != intLit

/-- The keyword that is spelled `word`; any other word is an identifier. -/
def ofWord (word : String) : Kind := (keywords.find? (·.name = word)).getD ident

end Token.Kind

/-- A token: its category, where it stands, and the bytes that stand there. -/
structure Token where
  kind : Token.Kind
  span : Source.Span
  text : Bytes := []
deriving DecidableEq, Repr, Inhabited

/-- The text of a token as a name. Names consist of ASCII bytes. -/
def Token.name (t : Token) : String := t.text.latin

end SysY

/-! # Diagnostic codes

Every diagnostic has a numeric code. Its thousands tell the phase that raised it. -/

namespace SysY.Diag

/-- The number of a diagnostic. -/
structure Code where
  number : Nat
deriving DecidableEq, Repr, Inhabited

namespace Code

def unknown : Code := ⟨0⟩

def lexInfo : Code := ⟨1000⟩
def unknownCharacter : Code := ⟨1001⟩
def unterminatedComment : Code := ⟨1003⟩
def badNumber : Code := ⟨1004⟩

def unexpectedToken : Code := ⟨2001⟩
def unclosedParen : Code := ⟨2006⟩
def unclosedBrace : Code := ⟨2007⟩
def unclosedBracket : Code := ⟨2008⟩
def expectedSemicolon : Code := ⟨2012⟩
def expectedIdentifier : Code := ⟨2102⟩
def expectedType : Code := ⟨2202⟩
def expectedExpression : Code := ⟨2203⟩

def semanticInfo : Code := ⟨3000⟩
def semanticError : Code := ⟨3001⟩
def redefinition : Code := ⟨3002⟩
def undefinedIdentifier : Code := ⟨3005⟩
def illegalAssignment : Code := ⟨3010⟩
def typeMismatch : Code := ⟨3015⟩
def constantRequired : Code := ⟨3026⟩
def initializerRequired : Code := ⟨3027⟩
def voidVariable : Code := ⟨3028⟩
def invalidControlTransfer : Code := ⟨3029⟩

def loadFailed : Code := ⟨4001⟩
def writeFailed : Code := ⟨4002⟩

def projectInfo : Code := ⟨5000⟩
def badManifest : Code := ⟨5001⟩
def toolchainMismatch : Code := ⟨5002⟩

def internalError : Code := ⟨9001⟩

/-- The letters that stand for the phase of a code. -/
def phase? (c : Code) : Option String :=
  match c.number / 1000 with
  | 1 => some "LEX"
  | 2 => some "SYN"
  | 3 => some "SEM"
  | 4 => some "IO"
  | 5 => some "PRJ"
  | 9 => some "IR"
  | _ => none

/-- The identifier that users see, such as `SEM3005`. -/
def id (c : Code) : String :=
  match c.phase? with
  | some letters => letters ++ toString c.number
  | none => "E0000"

/-- What a code means, in a few words. -/
def title (c : Code) : String :=
  match c.number with
  | 1000 => "Lexical information"
  | 1001 => "Unknown character"
  | 1003 => "Unterminated block comment"
  | 1004 => "Malformed integer literal"
  | 2000 => "Syntax information"
  | 2001 => "Unexpected token"
  | 2006 => "Unclosed parenthesis"
  | 2007 => "Unclosed brace"
  | 2008 => "Unclosed bracket"
  | 2012 => "Expected semicolon"
  | 2102 => "Expected identifier"
  | 2202 => "Expected type"
  | 2203 => "Expected expression"
  | 3000 => "Semantic information"
  | 3001 => "Semantic error"
  | 3002 => "Redefinition"
  | 3005 => "Undefined identifier"
  | 3010 => "Assignment to constant"
  | 3015 => "Type mismatch"
  | 3026 => "Constant expression required"
  | 3027 => "Initializer required"
  | 3028 => "Variable declared void"
  | 3029 => "break/continue outside loop"
  | 4001 => "I/O load file error"
  | 4002 => "I/O write error"
  | 5000 => "Project information"
  | 5001 => "Invalid sysyc.toml"
  | 5002 => "Toolchain version mismatch"
  | 9001 => "Internal compiler error"
  | _ => "Unknown error"

/-- Identifier and title. -/
def text (c : Code) : String := s!"[{c.id}]: {c.title}"

end Code
end SysY.Diag

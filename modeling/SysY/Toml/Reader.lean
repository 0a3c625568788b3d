import SysY.Text.Bytes
import SysY.Toml
import SysY.Toml.Number

/-! # Reading configurations

A reader for TOML documents. -/

namespace SysY.Toml

/-- Why a document cannot be read, and how many characters were left then. -/
structure Problem where
  text : String
  left : Nat
deriving Repr

/-- A step of reading: it takes characters from the text that is left. -/
abbrev Reader := EStateM Problem (List Char)

namespace Reader

/-- Fail where the reader is. -/
def fail {α : Type} (text : String) : Reader α := do throw ⟨text, (← get).length⟩

/-- The next character, which is not taken. -/
def peek? : Reader (Option Char) := do return (← get).head?

/-- Take the next characters that are in a class. -/
def takeWhile (p : Char → Bool) : Reader (List Char) := do
  let cs ← get
  set (cs.dropWhile p)
  return cs.takeWhile p

/-- Take a text if it comes next. -/
def accept (s : String) : Reader Bool := do
  let cs ← get
  if s.toList.isPrefixOf cs then
    set (cs.drop s.length)
    return true
  else return false

/-- Take a text that has to come next. -/
def expect (s : String) : Reader Unit := do
  if !(← accept s) then fail ("expected " ++ s)

/-- Blanks inside of a line. -/
def isBlank (c : Char) : Bool := c == ' ' || c == '\t'

/-- Skip blanks. -/
def blanks : Reader Unit := do let _ ← takeWhile isBlank

/-- Skip blanks and a comment, up to the end of the line. -/
def trailing : Reader Unit := do
  blanks
  if (← peek?) = some '#' then
    let _ ← takeWhile (· != '\n')

/-- Skip blanks, comments and line ends. Each round but the last takes a line end. -/
def space : Nat → Reader Unit
  | 0 => trailing
  | n + 1 => do
    trailing
    if ← accept "\n" then space n

/-- The end of a line, or of the document. -/
def lineEnd : Reader Unit := do
  trailing
  if !(← accept "\n") && !(← get).isEmpty then fail "expected the end of the line"

/-! ## Texts -/

/-- Take a character that is written as its number with `n` hexadecimal digits. -/
def codePoint (n : Nat) : Reader Char := do
  let cs ← get
  match digits? 16 ((cs.take n).filter (· != '_')) with
  | some v =>
    if (cs.take n).all (digit? 16 · |>.isSome) && cs.length ≥ n && v.isValidChar then
      set (cs.drop n)
      return Char.ofNat v
    else fail "invalid escape"
  | none => fail "invalid escape"

/-- Take what comes after a backslash. -/
def escaped : Reader Char := do
  match ← get with
  | c :: rest =>
    set rest
    match c with
    | 'b' => return Char.ofNat 8
    | 't' => return '\t'
    | 'n' => return '\n'
    | 'f' => return Char.ofNat 12
    | 'r' => return '\r'
    | '"' => return '"'
    | '\\' => return '\\'
    | 'u' => codePoint 4
    | 'U' => codePoint 8
    | _ => fail "invalid escape"
  | [] => fail "unterminated string"

/-- The rest of a text on one line, up to the closing quote. -/
def line (quote : Char) : Nat → List Char → Reader String
  | 0, _ => fail "unterminated string"
  | fuel + 1, out => do
    match ← get with
    | [] => fail "unterminated string"
    | '\n' :: _ => fail "strings cannot contain newlines"
    | c :: rest =>
      set rest
      if c = quote then return String.ofList out.reverse
      else if c = '\\' ∧ quote = '"' then line quote fuel ((← escaped) :: out)
      else line quote fuel (c :: out)

/-- The rest of a text on several lines, up to three closing quotes. Up to two quotes right before
those belong to the text. A backslash at the end of a line removes white space up to the next
character. -/
def block (quote : Char) : Nat → List Char → Reader String
  | 0, _ => fail "unterminated string"
  | fuel + 1, out => do
    match ← get with
    | [] => fail "unterminated string"
    | c :: rest =>
      if c = quote then
        let quotes := (← takeWhile (· == quote)).length
        if quotes ≥ 6 then fail "unexpected quotes"
        else if quotes ≥ 3 then
          return String.ofList (out.reverse ++ List.replicate (quotes - 3) quote)
        else block quote fuel (List.replicate quotes quote ++ out)
      else
        set rest
        if c = '\\' ∧ quote = '"' then
          match rest.dropWhile isBlank with
          | '\n' :: more =>
            set (more.dropWhile fun c => isBlank c || c == '\n')
            block quote fuel out
          | _ => block quote fuel ((← escaped) :: out)
        else block quote fuel (c :: out)

/-- A text after its opening quote. -/
def quoted (quote : Char) : Reader String := do
  let q := String.singleton quote
  let fuel := (← get).length + 1
  if ← accept (q ++ q) then
    let _ ← accept "\n"
    block quote fuel []
  else line quote fuel []

/-! ## Keys -/

/-- One name of a key. -/
def name : Reader String := do
  let oneLine (quote : Char) : Reader String := do line quote ((← get).length + 1) []
  if ← accept "\"" then oneLine '"'
  else if ← accept "'" then oneLine '\''
  else
    match ← takeWhile isBareChar with
    | [] => fail "expected a key"
    | cs => return String.ofList cs

/-- The names of a key. -/
def names : Nat → Reader Key
  | 0 => fail "expected a key"
  | fuel + 1 => do
    blanks
    let first ← name
    blanks
    if ← accept "." then return first :: (← names fuel) else return [first]

/-- A key, which may have several parts. -/
def key : Reader Key := do names ((← get).length + 1)

/-! ## Values -/

/-- The characters of numbers, dates and words. -/
def isWordChar (c : Char) : Bool :=
  c.isAlphanum || c == '+' || c == '-' || c == '_' || c == '.' || c == ':'

/-- A number, a date or a word. A date and a time may stand apart. -/
def scalar : Reader Value := do
  let word ← takeWhile isWordChar
  let cs ← get
  let later := (cs.drop 1).takeWhile isWordChar
  if (date? word) = some [] && cs.head? = some ' ' && isTime (word ++ ' ' :: later) then
    set ((cs.drop 1).dropWhile isWordChar)
    return .time
  else if word = "true".toList then return .bool true
  else if word = "false".toList then return .bool false
  else
    match integer? word with
    | some n => return .integer n
    | none =>
      if isTime word then return .time
      else if isDecimal word then return .decimal
      else fail "expected a value"

/-- A value with the keys that are written in it. -/
structure Read (α : Type) where
  value : α
  keys : List Key := []

/-- Add a field to a table, where the names before the last lead to tables. -/
def insert : Table → Key → Value → Option Table
  | _, [], _ => none
  | t, [k], v => if (t.lookup k).isSome then none else some (t ++ [(k, v)])
  | t, k :: rest, v =>
    match t.lookup k with
    | none => (insert [] rest v).map fun inner => t ++ [(k, .table inner)]
    | some (.table inner) => (insert inner rest v).map fun inner =>
      t.map fun (k', v') => if k' = k then (k', .table inner) else (k', v')
    | some _ => none

mutual

/-- A value. -/
def value : Nat → Reader (Read Value)
  | 0 => fail "nested too deeply"
  | fuel + 1 => do
    blanks
    if ← accept "\"" then return ⟨.text (← quoted '"'), []⟩
    else if ← accept "'" then return ⟨.text (← quoted '\''), []⟩
    else if ← accept "[" then
      let r ← items fuel
      return ⟨.list r.value, r.keys⟩
    else if ← accept "\x7b" then
      blanks
      if ← accept "\x7d" then return ⟨.table [], []⟩
      else
        let r ← fields fuel []
        return ⟨.table r.value, r.keys⟩
    else return ⟨← scalar, []⟩

/-- The values of a list, after its opening bracket or a comma. -/
def items : Nat → Reader (Read (List Value))
  | 0 => fail "nested too deeply"
  | fuel + 1 => do
    space (← get).length
    if ← accept "]" then return ⟨[], []⟩
    let first ← value fuel
    space (← get).length
    if ← accept "," then
      let more ← items fuel
      return ⟨first.value :: more.value, first.keys ++ more.keys⟩
    expect "]"
    return ⟨[first.value], first.keys⟩

/-- The fields of a table on one line, after its opening brace or a comma. -/
def fields : Nat → Table → Reader (Read Table)
  | 0, _ => fail "nested too deeply"
  | fuel + 1, t => do
    let k ← key
    expect "="
    let v ← value fuel
    let keys := k :: v.keys.map (k ++ ·)
    match insert t k v.value with
    | none => fail "key has already been defined"
    | some t =>
      blanks
      if ← accept "," then
        let more ← fields fuel t
        return ⟨more.value, keys ++ more.keys⟩
      expect "\x7d"
      return ⟨t, keys⟩

end

end Reader

/-! ## Documents -/

/-- A document that is being read. -/
structure Draft where
  root : Table := []
  /-- Tables that exist only because something below them was defined. -/
  implied : List Key := []
  keys : List Key := []
  /-- The table whose fields are being read. -/
  context : Key := []

namespace Draft

/-- Change the table that a key leads to. In a list of tables that is the last one. -/
def modify (change : Table → Option Table) : Key → Table → Option Table
  | [], t => change t
  | k :: rest, t => do
    let v ← match ← t.lookup k with
      | .table inner => (modify change rest inner).map Value.table
      | .tables rows => do
        let last ← modify change rest (← rows.getLast?)
        pure (Value.tables (rows.dropLast ++ [last]))
      | _ => none
    return t.map fun (k', v') => if k' = k then (k', v) else (k', v')

/-- The table that a key leads to. -/
def find? : Key → Table → Option Table
  | [], t => some t
  | k :: rest, t => do
    match ← t.lookup k with
    | .table inner => find? rest inner
    | .tables rows => find? rest (← rows.getLast?)
    | _ => none

/-- Define a field. A table that was only implied may be defined once, and stays as it is. A list may
be replaced or may replace something. -/
def define (d : Draft) (context : Key) (name : String) (v : Value) : Option Draft := do
  let full := context ++ [name]
  match (← find? context d.root).lookup name with
  | none => return { d with root := ← modify (fun t => some (t ++ [(name, v)])) context d.root }
  | some old =>
    let isList : Value → Bool
      | .list _ => true
      | _ => false
    let without := d.implied.filter (· != full)
    if isList old || isList v then
      let replace := fun (t : Table) =>
        some (t.map fun (k', v') => if k' = name then (k', v) else (k', v'))
      return { d with root := ← modify replace context d.root, implied := without }
    else if d.implied.contains full then return { d with implied := without }
    else none

/-- Imply the tables that lead to a key. -/
def imply (d : Draft) (context : Key) : Key → Option Draft
  | [] => some d
  | k :: rest => do
    let full := context ++ [k]
    match (← find? context d.root).lookup k with
    | none =>
      let root ← modify (fun t => some (t ++ [(k, .table [])])) context d.root
      imply { d with root := root, implied := full :: d.implied } full rest
    | some (.table _) | some (.tables _) => imply d full rest
    | some _ => none

/-- Start a table. -/
def openTable (d : Draft) (key : Key) : Option Draft := do
  let d ← d.imply [] key.dropLast
  let d ← d.define key.dropLast (← key.getLast?) (.table [])
  return { d with context := key, keys := d.keys ++ [key] }

/-- Start the next table of a list of tables. -/
def openRow (d : Draft) (key : Key) : Option Draft := do
  let d ← d.imply [] key.dropLast
  let last ← key.getLast?
  let root ← modify (fun t => match t.lookup last with
    | none => some (t ++ [(last, .tables [[]])])
    | some (.tables rows) =>
      some (t.map fun (k', v') => if k' = last then (k', .tables (rows ++ [[]])) else (k', v'))
    | some _ => none) key.dropLast d.root
  return { d with root := root, context := key, keys := d.keys ++ [key] }

/-- Set a field of the table that is being read. -/
def setField (d : Draft) (key : Key) (v : Reader.Read Value) : Option Draft := do
  let full := d.context ++ key
  let d ← d.imply d.context key.dropLast
  let d ← d.define full.dropLast (← full.getLast?) v.value
  return { d with keys := d.keys ++ full :: v.keys.map (full ++ ·) }

end Draft

namespace Reader

/-- Accept a change of a document unless it defines something twice. -/
def orDefined (d : Option Draft) : Reader Draft :=
  match d with
  | some d => return d
  | none => fail "key has already been defined"

/-- The lines of a document. -/
def lines : Nat → Draft → Reader Draft
  | 0, d => return d
  | fuel + 1, d => do
    space (← get).length
    if (← get).isEmpty then return d
    let d ←
      if ← accept "[[" then do
        let k ← key
        expect "]]"
        orDefined (d.openRow k)
      else if ← accept "[" then do
        let k ← key
        expect "]"
        orDefined (d.openTable k)
      else do
        let k ← key
        expect "="
        let v ← value ((← get).length + 1)
        orDefined (d.setField k v)
    lineEnd
    lines fuel d

end Reader

/-- Whether a character may not stand in a document. -/
def isForbidden (c : Char) : Bool :=
  (c.toNat < 32 && c != '\n' && c != '\t') || c.toNat = 127

/-- Replace each carriage return before a newline by nothing. -/
def joinLineEnds : List Char → List Char
  | '\r' :: '\n' :: cs => '\n' :: joinLineEnds cs
  | c :: cs => c :: joinLineEnds cs
  | [] => []

/-- Read a document. -/
def read (content : Bytes) : Except String Document :=
  match content.toString? with
  | none => .error "toml: invalid UTF-8"
  | some s =>
    let chars := match s.toList with
      | c :: cs => if c.toNat = 0xFEFF then cs else c :: cs
      | [] => []
    let chars := joinLineEnds chars
    let failAt (text : String) (left : Nat) : String :=
      let line := (chars.take (chars.length - left)).count '\n' + 1
      s!"toml: line {line}: {text}"
    match chars.find? isForbidden with
    | some _ => .error (failAt "control characters are not allowed"
        ((chars.dropWhile (!isForbidden ·)).length))
    | none =>
      match Reader.lines (chars.length + 1) {} chars with
      | .ok d _ => .ok { root := d.root, keys := d.keys }
      | .error p _ => .error (failAt p.text p.left)

end SysY.Toml

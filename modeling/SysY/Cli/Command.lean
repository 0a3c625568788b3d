import SysY.Cli.Flag

/-! # Commands

The commands of the compiler, the flags each one takes, and how a command line is matched with
them. -/

namespace SysY.Cli

/-- A command. -/
inductive Command where
  /-- No command at all. -/
  | root
  | build | ir | tokenize | parse | watch
  | cache | cacheClean
  | version
  | help
  | completion
  /-- The script with which a shell completes command lines. -/
  | completionScript (shell : String)
deriving DecidableEq, Repr

namespace Command

/-- The last word of a command. -/
def name : Command → String
  | root => "sysyc"
  | build => "build"
  | ir => "ir"
  | tokenize => "tokenize"
  | parse => "parse"
  | watch => "watch"
  | cache => "cache"
  | cacheClean => "clean"
  | version => "version"
  | help => "help"
  | completion => "completion"
  | completionScript shell => shell

/-- All words of a command. -/
def path : Command → String
  | root => "sysyc"
  | cacheClean => "sysyc cache clean"
  | completionScript shell => "sysyc completion " ++ shell
  | c => "sysyc " ++ c.name

/-- The commands below a command, by their words. -/
def children : Command → List (String × Command)
  | root => [("build", build), ("ir", ir), ("tokenize", tokenize), ("parse", parse),
      ("watch", watch), ("cache", cache), ("version", version), ("help", help),
      ("completion", completion)]
  | cache => [("clean", cacheClean)]
  | completion => ["bash", "zsh", "fish", "powershell"].map fun w => (w, completionScript w)
  | _ => []

/-- Flags of all commands. -/
def commonFlags : List Flag :=
  [⟨"color", .text, none⟩, ⟨"quiet", .switch, none⟩, ⟨"timings", .switch, none⟩,
   ⟨"no-prelude", .switch, none⟩, ⟨"jobs", .integer, none⟩, ⟨"diag-format", .text, none⟩,
   ⟨"trace", .text, none⟩, ⟨"trace-level", .text, none⟩, ⟨"trace-mode", .text, none⟩,
   ⟨"trace-format", .text, none⟩, ⟨"trace-ring-size", .integer, none⟩,
   ⟨"trace-heartbeat", .duration, none⟩, ⟨"cpuprofile", .text, none⟩, ⟨"memprofile", .text, none⟩,
   ⟨"exectrace", .text, none⟩]

/-- Flags of one command. -/
def ownFlags : Command → List Flag
  | build => [⟨"out-dir", .text, some 'o'⟩, ⟨"no-cache", .switch, none⟩, ⟨"ui", .text, none⟩]
  | watch => [⟨"out-dir", .text, some 'o'⟩, ⟨"no-cache", .switch, none⟩, ⟨"debounce", .duration, none⟩]
  | ir => [⟨"output", .text, some 'o'⟩]
  | completionScript _ => [⟨"no-descriptions", .switch, none⟩]
  | _ => []

/-- The flags of a command that count while commands are looked up. -/
def flags (c : Command) : List Flag := c.ownFlags ++ commonFlags

/-- The flag that asks how a command is used. -/
def helpFlag : Flag := ⟨"help", .switch, some 'h'⟩
/-- The flag that asks which compiler it is. -/
def versionFlag : Flag := ⟨"version", .switch, some 'v'⟩

/-- All flags of a command. -/
def allFlags (c : Command) : List Flag :=
  c.flags ++ helpFlag :: if c = root then [versionFlag] else []

/-- Whether a command does anything by itself. -/
def isRunnable : Command → Bool
  | root | cache | completion => false
  | _ => true

/-- Check the number of arguments. -/
def checkWords (c : Command) (words : List String) : Except String Unit :=
  match c with
  | ir | tokenize | parse =>
    if words.length = 1 then .ok ()
    else .error s!"accepts 1 arg(s), received {words.length}"
  | cacheClean | version | completionScript _ =>
    match words with
    | [] => .ok ()
    | w :: _ => .error ("unknown command " ++ Text.quoted w ++ " for " ++ Text.quoted c.path)
  | _ => .ok ()

/-! ## Looking up commands -/

/-- Whether an argument is a flag whose value is the next argument. Unknown flags are taken for such
flags. -/
def takesNext (c : Command) (arg : String) : Bool :=
  let isSwitch (f : Option Flag) : Bool := f.any (·.kind == .switch)
  !arg.contains '=' &&
    ((arg.startsWith "--" &&
        !isSwitch (findFlag? c.flags (String.ofList (arg.toList.drop 2)))) ||
     (arg.startsWith "-" && arg.utf8ByteSize = 2 &&
        !isSwitch ((arg.toList[1]?).bind (findShort? c.flags ·))))

/-- The arguments that are neither flags nor values of flags. -/
def plainWords (c : Command) : List String → List String
  | [] => []
  | arg :: rest =>
    if arg = "--" then []
    else if c.takesNext arg then
      match rest with
      | _ :: next :: more => c.plainWords (next :: more)
      | _ => []
    else if arg ≠ "" ∧ ¬ arg.startsWith "-" then arg :: c.plainWords rest
    else c.plainWords rest

/-- The arguments without the first plain word that is `word`. -/
def dropWord (c : Command) (word : String) : List String → List String
  | [] => []
  | arg :: rest =>
    if arg = "--" then arg :: rest
    else if c.takesNext arg then
      match rest with
      | value :: more => arg :: value :: c.dropWord word more
      | [] => [arg]
    else if !arg.startsWith "-" && arg = word then rest
    else arg :: c.dropWord word rest

/-- Follow the words of a command line down to a command. -/
def descend : Nat → Command → List String → Command × List String
  | 0, c, args => (c, args)
  | depth + 1, c, args =>
    match c.plainWords args with
    | [] => (c, args)
    | word :: _ =>
      match c.children.lookup word with
      | none => (c, args)
      | some child => descend depth child (c.dropWord word args)

/-! ## Suggestions -/

/-- The next row of the table of edit distances, for one more byte of the first text. -/
def distanceRow (c : UInt8) (t : List UInt8) (row : List Nat) : List Nat :=
  match row with
  | [] => []
  | first :: rest => (first + 1) :: go (first + 1) first t rest
where
  /-- The entries after the first; `left` is the one before, `diagonal` the one above that. -/
  go (left diagonal : Nat) : List UInt8 → List Nat → List Nat
    | b :: bs, above :: row =>
      let here := if c = b then diagonal else min (min above left) diagonal + 1
      here :: go here above bs row
    | _, _ => []

/-- How many bytes have to be inserted, removed or replaced to turn one text into the other. -/
def editDistance (s t : String) : Nat :=
  let target := t.toUTF8.toList
  let rows := s.toUTF8.toList.foldl (fun row c => distanceRow c target row)
    (List.range (target.length + 1))
  rows.getLast?.getD 0

/-- A text in lower case. -/
def lower (s : String) : String := String.ofList (s.toList.map Char.toLower)

/-- Commands that may be meant by an unknown word: those that are similar or that it starts. -/
def suggestions (word : String) : List String :=
  ((root.children.map (·.1)).filter (· ≠ "help")).filter fun name =>
    editDistance (lower word) name ≤ 2 || name.startsWith (lower word)

/-- The message about an unknown command. -/
def unknownCommand (word : String) : String :=
  let similar := suggestions word
  "unknown command " ++ Text.quoted word ++ " for " ++ Text.quoted root.path ++
    if similar.isEmpty then ""
    else "\n\nDid you mean this?\n" ++ String.join (similar.map fun s => "\t" ++ s ++ "\n")

/-! ## Command lines -/

/-- What a command line asks for. -/
inductive Call where
  | run (command : Command) (arguments : Arguments)
  | showHelp (command : Command)
  | showVersion

/-- Read a command line. -/
def read (args : List String) : Except String Call := do
  let (c, rest) := descend (args.length + 1) root args
  if c = root then
    if let word :: _ := c.plainWords rest then throw (unknownCommand word)
  let a ← takeArguments c.allFlags (rest.length + 1) rest {}
  if a.isOn "help" then return .showHelp c
  if c = root && a.isOn "version" then return .showVersion
  if !c.isRunnable then return .showHelp c
  c.checkWords a.words
  return .run c a

end Command
end SysY.Cli

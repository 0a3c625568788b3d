import SysY.Path
import SysY.Source.Normal
import SysY.Source.Position

/-! # Source files

The files that spans refer to, numbered in the order in which they were added. -/

namespace SysY.Source

/-- A file whose text is in normal form. -/
structure File where
  id : Nat
  path : String
  content : Bytes
  flags : Flags
deriving DecidableEq, Repr, Inhabited

namespace File

/-- The offsets of the newlines of a file. -/
def newlines (f : File) : List Nat := Source.newlines f.content

/-- The position of an offset of a file. -/
def position (f : File) (offset : Nat) : Position := .ofOffset f.newlines offset

/-- The position of an offset of a file, if the number of its line is a 32-bit word. -/
def position? (f : File) (offset : Nat) : Option Position :=
  let p := f.position offset
  if p.line < Span.offsetModulus then some p else none

/-- A line of a file, without its newline. -/
def line (f : File) (n : Nat) : Bytes := lineOf f.content n

end File

/-- Files in the order in which they were added. -/
structure Files where
  all : List File := []
deriving Repr, Inhabited

namespace Files

/-- The number of files. -/
def size (fs : Files) : Nat := fs.all.length

/-- The file with a number. -/
def get? (fs : Files) (id : Nat) : Option File := fs.all[id]?

/-- Add a file whose content is taken as it is. Every call makes a new file. -/
def add (fs : Files) (path : String) (content : Bytes) (flags : Flags) : Files :=
  ⟨fs.all ++ [{ id := fs.size, path := Path.clean path, content := content, flags := flags }]⟩

/-- Add a file that was read from disk. -/
def addLoaded (fs : Files) (path : String) (content : Bytes) : Files :=
  let (text, flags) := normalize content
  fs.add path text flags

/-- Add a file that exists only in memory. -/
def addVirtual (fs : Files) (name : String) (content : Bytes) : Files :=
  let (text, flags) := normalize content
  fs.add name text (flags ||| Flags.virtual)

/-- The number of the file that was added last under a path. -/
def latest? (fs : Files) (path : String) : Option Nat :=
  (fs.all.reverse.find? (·.path = Path.clean path)).map (·.id)

/-- Start and end of a span as positions; the span's file has to exist. -/
def resolve? (fs : Files) (s : Span) : Option (Position × Position) := do
  let f ← fs.get? s.file
  return (← f.position? s.start, ← f.position? s.stop)

end Files
end SysY.Source

import SysY.Text.Bytes

/-! # Cache entries

What the cache keeps of a compilation, and how it can be written to a file. A cache can use any
format. The one that is used here has texts that each have their length in front. -/

namespace SysY.Build

/-- A cached result. -/
structure Entry where
  /-- The shape of the entry. -/
  schema : Nat := 1
  /-- The compiler that made the result. -/
  toolchain : String
  /-- The file that was compiled. -/
  source : String
  /-- The text of the intermediate code. -/
  ir : String
deriving DecidableEq, Repr

namespace Entry

/-- The shape that entries have now. -/
def currentSchema : Nat := 1

/-- A number of eight bytes, lowest first. -/
def encodeNat (n : Nat) : Bytes := (List.range 8).map fun i => (n >>> (8 * i)).toUInt8

/-- Read a number of eight bytes. -/
def decodeNat? (bs : Bytes) : Option (Nat × Bytes) :=
  let ds := bs.take 8
  if ds.length = 8 then some (ds.foldr (fun b n => 256 * n + b.toNat) 0, bs.drop 8) else none

/-- A text with its length in front. -/
def encodeText (s : String) : Bytes :=
  let bs := Bytes.ofString s
  encodeNat bs.length ++ bs

/-- Read a text with its length in front. -/
def decodeText? (bs : Bytes) : Option (String × Bytes) := do
  let (n, rest) ← decodeNat? bs
  if rest.length < n then none
  else
    let s ← Bytes.toString? (rest.take n)
    return (s, rest.drop n)

/-- The bytes of an entry. -/
def encode (e : Entry) : Bytes :=
  encodeNat e.schema ++ encodeText e.toolchain ++ encodeText e.source ++ encodeText e.ir

/-- Read an entry; `none` if the bytes are not those of an entry. -/
def decode? (bs : Bytes) : Option Entry := do
  let (schema, bs) ← decodeNat? bs
  let (toolchain, bs) ← decodeText? bs
  let (source, bs) ← decodeText? bs
  let (ir, bs) ← decodeText? bs
  if bs.isEmpty then return ⟨schema, toolchain, source, ir⟩ else none

end Entry

/-- A format for entries in files. -/
structure Codec where
  /-- The bytes of an entry. -/
  encode : Entry → Bytes
  /-- Read an entry; `none` if the bytes are not those of an entry. -/
  decode? : Bytes → Option Entry

/-- The format with lengths. -/
def Codec.lengths : Codec := ⟨Entry.encode, Entry.decode?⟩

end SysY.Build

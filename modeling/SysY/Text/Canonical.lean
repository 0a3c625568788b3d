import Std.Data.HashMap
import SysY.Text.Bytes
import SysY.Text.Canonical.Table

/-! # Canonical composition

Two spellings of one character, such as `é` as a single code point and as `e` with a combining
accent, get one form: text is decomposed canonically, its combining marks are put in canonical
order, and what can be composed is composed. Runs of more than thirty marks are broken by a
grapheme joiner, which keeps the work per character bounded. Bytes that are not valid UTF-8 are
kept where they are and combine with nothing. -/

namespace SysY.Text.Canonical

/-- Read one mapping `character=first+second`. -/
def readMapping (entry : String) : Nat × List Nat :=
  match entry.splitOn "=" with
  | [c, parts] => (readHex c, (parts.splitOn "+").map readHex)
  | _ => (0, [])

/-- The one-step decompositions, in code point order. -/
def mappingList : List (Nat × List Nat) := (entries mappings).map readMapping

/-- The one-step decompositions by code point. -/
def mappingTable : Std.HashMap Nat (List Nat) := Std.HashMap.ofList mappingList

/-- Read one entry `range:class`. -/
def readClass (entry : String) : (Nat × Nat) × Nat :=
  match entry.splitOn ":" with
  | [range, k] => (CodePoints.readRange range, k.toList.foldl (fun n c => 10 * n + hexValue c) 0)
  | _ => ((1, 0), 0)

/-- The ranges with a non-zero combining class. -/
def classTable : Array ((Nat × Nat) × Nat) := ((entries classes).map readClass).toArray

/-- The canonical combining class of a code point; a starter has class 0. -/
def combiningClass (n : Nat) : Nat :=
  if n < 0x300 then 0
  else match classTable.find? fun e => e.1.1 ≤ n && n ≤ e.1.2 with
    | some e => e.2
    | none => 0

/-- The characters that composition never produces. -/
def exclusionTable : CodePoints := CodePoints.ofRows exclusions

/-- The pairs that compose, with their composites. -/
def compositeTable : Std.HashMap (Nat × Nat) Nat :=
  Std.HashMap.ofList (mappingList.filterMap fun (c, parts) =>
    match parts with
    | [a, b] =>
      if exclusionTable.contains c || combiningClass c != 0 || combiningClass a != 0 then none
      else some ((a, b), c)
    | _ => none)

/-- The characters that are the second part of some composite. -/
def secondTable : Std.HashMap Nat Unit :=
  Std.HashMap.ofList (compositeTable.toList.map fun e => (e.1.2, ()))

/-- The Hangul syllable of a leading consonant, a vowel and a trailing consonant, or of a syllable
without trailing consonant and one. -/
def composeHangul? (a b : Nat) : Option Nat :=
  if 0x1100 ≤ a ∧ a < 0x1113 ∧ 0x1161 ≤ b ∧ b < 0x1176 then
    some (0xAC00 + ((a - 0x1100) * 21 + (b - 0x1161)) * 28)
  else if 0xAC00 ≤ a ∧ a < 0xD7A4 ∧ (a - 0xAC00) % 28 = 0 ∧ 0x11A7 < b ∧ b < 0x11C3 then
    some (a + (b - 0x11A7))
  else none

/-- The composite of two characters. -/
def compose? (a b : Nat) : Option Nat :=
  match composeHangul? a b with
  | some c => some c
  | none => compositeTable[(a, b)]?

/-- The jamo that a Hangul syllable consists of. -/
def decomposeHangul? (n : Nat) : Option (List Nat) :=
  if 0xAC00 ≤ n ∧ n < 0xD7A4 then
    let s := n - 0xAC00
    let lead := 0x1100 + s / 588
    let vowel := 0x1161 + s % 588 / 28
    let trail := 0x11A7 + s % 28
    some (if s % 28 = 0 then [lead, vowel] else [lead, vowel, trail])
  else none

/-- Canonical decomposition with at most `depth` steps. -/
def decomposeUpTo : Nat → Nat → List Nat
  | 0, n => [n]
  | depth + 1, n =>
    match decomposeHangul? n with
    | some parts => parts
    | none =>
      match mappingTable[n]? with
      | some parts => parts.flatMap (decomposeUpTo depth)
      | none => [n]

/-- The full canonical decomposition. No chain of mappings is longer than four. -/
def decompose (n : Nat) : List Nat := decomposeUpTo 4 n

/-- Whether `n` can end up in the cluster of the character before it. -/
def attaches (n : Nat) : Bool :=
  combiningClass n != 0 || secondTable.contains n ||
    (0x1161 ≤ n && n < 0x1176) || (0x11A7 < n && n < 0x11C3)

/-- An element of decomposed text. -/
inductive Piece where
  | code (n : Nat)
  | stray (b : UInt8)
deriving DecidableEq, Repr

namespace Piece

/-- The combining class of a piece; a stray byte is a starter. -/
def order : Piece → Nat
  | code n => combiningClass n
  | stray _ => 0

/-- The bytes that encode a piece. -/
def bytes : Piece → Bytes
  | code n => Glyph.bytes (.char (Char.ofNat n))
  | stray b => [b]

end Piece

/-- The longest run of marks that is kept together. -/
def maxMarks : Nat := 30

/-- The grapheme joiner, which breaks a run of marks. -/
def joiner : Piece := .code 0x34F

/-- Decompose text, given the number of marks in the run so far. -/
def pieces : Nat → List Glyph → List Piece
  | _, [] => []
  | _, .stray b :: rest => .stray b :: pieces 0 rest
  | run, .char c :: rest =>
    let parts := decompose c.toNat
    let lead := (parts.takeWhile attaches).length
    let trail := (parts.reverse.takeWhile attaches).length
    if lead = 0 then parts.map .code ++ pieces trail rest
    else if maxMarks < run + lead then joiner :: (parts.map .code ++ pieces lead rest)
    else parts.map .code ++ pieces (run + lead) rest

/-- Put a mark into a run that is ordered by class, after the marks of the same class. -/
def insertMark (p : Piece) : List Piece → List Piece
  | [] => [p]
  | q :: rest => if p.order < q.order then p :: q :: rest else q :: insertMark p rest

/-- Canonical order: each run of marks is sorted by class, and the sort is stable. -/
def reorder (run : List Piece) : List Piece → List Piece
  | [] => run
  | p :: rest =>
    if p.order = 0 then run ++ p :: reorder [] rest else reorder (insertMark p run) rest

/-- Composition. `starter` is the last starter, `marks` the marks after it that did not compose
with it, latest first. A mark composes with the starter unless a mark of its class or higher
stands between. -/
def composePieces (starter : Option Nat) (marks : List Piece) : List Piece → List Piece
  | [] => (starter.map Piece.code).toList ++ marks.reverse
  | .stray b :: rest =>
    (starter.map Piece.code).toList ++ marks.reverse ++ .stray b :: composePieces none [] rest
  | .code n :: rest =>
    let free := match marks with
      | [] => true
      | m :: _ => m.order < combiningClass n
    match (if free then starter.bind (compose? · n) else none) with
    | some c => composePieces (some c) marks rest
    | none =>
      if combiningClass n = 0 then
        (starter.map Piece.code).toList ++ marks.reverse ++ composePieces (some n) [] rest
      else composePieces starter (.code n :: marks) rest

/-- The canonically composed form of a text. -/
def normalize (bs : Bytes) : Bytes :=
  if bs.all (· < 0x80) then bs
  else (composePieces none [] (reorder [] (pieces 0 bs.glyphs))).flatMap Piece.bytes

end SysY.Text.Canonical

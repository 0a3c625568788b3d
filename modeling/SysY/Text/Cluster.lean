import SysY.Text.Bytes
import SysY.Text.Cluster.Table

/-! # User-perceived characters

Splits text into extended grapheme clusters: the letter with its accents, the syllable with its
jamo, the flag with its two letters and the emoji with its joiners count as one character each. -/

namespace SysY.Text.Cluster

/-- The class of a character for the purpose of cluster boundaries. -/
inductive Kind where
  | other | cr | lf | control | extend | joiner | flag | before | spacing
  | lead | vowel | trail | syllable | closedSyllable | pictograph
deriving DecidableEq, Repr

def controlTable : CodePoints := CodePoints.ofRows controlRanges
def extendTable : CodePoints := CodePoints.ofRows extendRanges
def spacingTable : CodePoints := CodePoints.ofRows spacingRanges
def prependTable : CodePoints := CodePoints.ofRows prependRanges
def pictographTable : CodePoints := CodePoints.ofRows pictographRanges

/-- The class of a code point. -/
def kindOf (n : Nat) : Kind :=
  if n = 13 then .cr
  else if n = 10 then .lf
  else if n < 32 ∨ n = 127 then .control
  else if n < 127 then .other
  else if 0xAC00 ≤ n ∧ n < 0xD7A4 then
    if (n - 0xAC00) % 28 = 0 then .syllable else .closedSyllable
  else if (0x1100 ≤ n ∧ n ≤ 0x115F) ∨ (0xA960 ≤ n ∧ n ≤ 0xA97C) then .lead
  else if (0x1160 ≤ n ∧ n ≤ 0x11A7) ∨ (0xD7B0 ≤ n ∧ n ≤ 0xD7C6) then .vowel
  else if (0x11A8 ≤ n ∧ n ≤ 0x11FF) ∨ (0xD7CB ≤ n ∧ n ≤ 0xD7FB) then .trail
  else if n = 0x200D then .joiner
  else if 0x1F1E6 ≤ n ∧ n ≤ 0x1F1FF then .flag
  else if controlTable.contains n then .control
  else if extendTable.contains n then .extend
  else if spacingTable.contains n then .spacing
  else if prependTable.contains n then .before
  else if pictographTable.contains n then .pictograph
  else .other

/-- The class of a glyph; a stray byte is an ordinary character. -/
def Kind.ofGlyph : Glyph → Kind
  | .char c => kindOf c.toNat
  | .stray _ => .other

/-- What the boundary rules remember of the current cluster: the class of its last character,
whether it is a pictograph followed by marks and a joiner, and whether it ends in an odd number of
flag letters. -/
structure Tail where
  last : Kind
  chained : Bool
  emoji : Bool
  oddFlags : Bool

/-- The cluster that consists of one character of class `k`. -/
def Tail.start (k : Kind) : Tail :=
  { last := k, chained := false, emoji := k = .pictograph, oddFlags := k = .flag }

/-- The cluster `t` extended by a character of class `k`. -/
def Tail.extend (t : Tail) (k : Kind) : Tail :=
  { last := k
    chained := t.emoji && k = .joiner
    emoji := k = .pictograph || (t.emoji && k = .extend)
    oddFlags := k = .flag && !t.oddFlags }

/-- Whether a character of class `k` continues the cluster `t`. -/
def Tail.continues (t : Tail) (k : Kind) : Bool :=
  match t.last, k with
  | .cr, .lf => true
  | .cr, _ | .lf, _ | .control, _ => false
  | _, .cr | _, .lf | _, .control => false
  | .lead, .lead | .lead, .vowel | .lead, .syllable | .lead, .closedSyllable => true
  | .syllable, .vowel | .syllable, .trail | .vowel, .vowel | .vowel, .trail => true
  | .closedSyllable, .trail | .trail, .trail => true
  | _, .extend | _, .joiner | _, .spacing => true
  | .before, _ => true
  | .joiner, .pictograph => t.chained
  | .flag, .flag => t.oddFlags
  | _, _ => false

/-- Split glyphs into clusters; `current` is the open cluster, latest glyph first. -/
def splitFrom (t : Tail) (current : List Glyph) : List Glyph → List (List Glyph)
  | [] => [current.reverse]
  | g :: rest =>
    let k := Kind.ofGlyph g
    if t.continues k then splitFrom (t.extend k) (g :: current) rest
    else current.reverse :: splitFrom (.start k) [g] rest

/-- The clusters of a text, in order. -/
def split : List Glyph → List (List Glyph)
  | [] => []
  | g :: rest => splitFrom (.start (Kind.ofGlyph g)) [g] rest

end SysY.Text.Cluster

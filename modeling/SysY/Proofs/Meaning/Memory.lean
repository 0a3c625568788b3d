import Mathlib.Data.List.Basic
import SysY.Proofs.Syntax.Whole

/-! # Memory and the outside world

What a unit and its program share when they run: memory made of objects, and functions that are
defined elsewhere. A function from elsewhere answers with a `Reaction`: it may read and write the
arrays that it is given, one cell after the other, and in the end it replies with a number and a
new state of the world. -/

namespace SysY

/-- Memory is a list of objects, and an object is a row of cells. A cell holds nothing before it is
written. -/
abbrev Memory (α : Type) := List (List (Option α))

namespace Memory

variable {α : Type}

/-- What cell number `i` of object `o` holds. -/
def read (m : Memory α) (o : Nat) (i : Int) : Option α :=
  match m[o]? with
  | none => none
  | some cells => if 0 ≤ i ∧ i < cells.length then (cells[i.toNat]?).join else none

/-- Write cell number `i` of object `o`. -/
def write (m : Memory α) (o : Nat) (i : Int) (x : α) : Option (Memory α) :=
  match m[o]? with
  | none => none
  | some cells =>
    if 0 ≤ i ∧ i < cells.length then some (m.set o (cells.set i.toNat (some x))) else none

theorem read_eq_some {m : Memory α} {o : Nat} {i : Int} {x : α} :
    m.read o i = some x ↔ ∃ cells, m[o]? = some cells ∧ 0 ≤ i ∧ cells[i.toNat]? = some (some x) := by
  unfold read
  constructor
  · intro h
    split at h
    · cases h
    · rename_i cells found
      split at h
      · rename_i range
        exact ⟨cells, found, range.1, Option.join_eq_some_iff.mp h⟩
      · cases h
  · rintro ⟨cells, found, positive, here⟩
    have small := (List.getElem?_eq_some_iff.mp here).1
    simp only [found]
    rw [if_pos ⟨positive, by omega⟩, here]
    rfl

theorem write_eq_some {m m' : Memory α} {o : Nat} {i : Int} {x : α} :
    m.write o i x = some m' ↔ ∃ cells, m[o]? = some cells ∧ 0 ≤ i ∧ i < cells.length ∧
      m' = m.set o (cells.set i.toNat (some x)) := by
  unfold write
  constructor
  · intro h
    split at h
    · cases h
    · rename_i cells found
      split at h
      · rename_i range
        exact ⟨cells, found, range.1, range.2, (Option.some.inj h).symm⟩
      · cases h
  · rintro ⟨cells, found, positive, small, rfl⟩
    simp only [found]
    rw [if_pos ⟨positive, small⟩]

end Memory

/-- What a function from elsewhere does once it is called. Arrays are referred to by the number of
the argument, and their cells are counted from the one that the argument points to. -/
inductive Reaction (W : Type) where
  | reply (world : W) (value : Int32)
  | read (arg : Nat) (index : Int) (next : Int32 → Reaction W)
  | write (arg : Nat) (index : Int) (value : Int32) (next : Reaction W)

/-- Let a reaction happen in a state in which the arguments can be read and written. -/
def Reaction.run {W S : Type} (read : S → Nat → Int → Option Int32)
    (write : S → Nat → Int → Int32 → Option S) : Reaction W → S → Option (W × Int32 × S)
  | reply world value, s => some (world, value, s)
  | .read arg index next, s => (read s arg index).bind fun v => (next v).run read write s
  | .write arg index value next, s => (write s arg index value).bind fun s => next.run read write s

/-- The functions from elsewhere. Each is given the state of the world, its own name and the numbers
among its arguments. There is no reaction when the function never returns. -/
abbrev External (W : Type) := W → String → List (Option Int32) → Option (Reaction W)

/-- Reactions are the same in related states. -/
theorem Reaction.run_related {W S T : Type} {R : S → T → Prop}
    {read : S → Nat → Int → Option Int32} {write : S → Nat → Int → Int32 → Option S}
    {read' : T → Nat → Int → Option Int32} {write' : T → Nat → Int → Int32 → Option T}
    (reads : ∀ {s t a i v}, R s t → read s a i = some v → read' t a i = some v)
    (writes : ∀ {s t a i v s'}, R s t → write s a i v = some s' →
      ∃ t', write' t a i v = some t' ∧ R s' t')
    {r : Reaction W} {s s' : S} {t : T} {w : W} {v : Int32} (related : R s t)
    (ran : r.run read write s = some (w, v, s')) :
    ∃ t', r.run read' write' t = some (w, v, t') ∧ R s' t' := by
  induction r generalizing s t with
  | reply world value =>
    cases ran
    exact ⟨t, rfl, related⟩
  | read arg index next ih =>
    obtain ⟨x, found, ran⟩ := Option.bind_eq_some_iff.mp ran
    obtain ⟨t', ran', related'⟩ := ih x related ran
    exact ⟨t', Option.bind_eq_some_iff.mpr ⟨x, reads related found, ran'⟩, related'⟩
  | write arg index value next ih =>
    obtain ⟨s₁, wrote, ran⟩ := Option.bind_eq_some_iff.mp ran
    obtain ⟨t₁, wrote', related₁⟩ := writes related wrote
    obtain ⟨t', ran', related'⟩ := ih related₁ ran
    exact ⟨t', Option.bind_eq_some_iff.mpr ⟨t₁, wrote', ran'⟩, related'⟩

end SysY

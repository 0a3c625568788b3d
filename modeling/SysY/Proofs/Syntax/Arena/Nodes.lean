import SysY.Syntax.Arena.Nodes
import Mathlib.Data.List.Range

/-! # Heads and contents

Making a node keeps heads and contents in step: the heads of one kind refer to the contents of that
kind one after the other, so that no contents are shared and none are left over. What a number
stands for never changes afterwards. -/

namespace SysY.Arena

/-! ## Numbered entries -/

theorem node?_zero {α : Type} (t : Array α) : node? t 0 = none := if_pos rfl

theorem node?_succ {α : Type} (t : Array α) (i : Nat) : node? t (i + 1) = t[i]? :=
  if_neg (Nat.succ_ne_zero i)

theorem node?_eq_none {α : Type} {t : Array α} {id : Nat} (h : t.size < id) :
    node? t id = none := by
  cases id with
  | zero => rfl
  | succ i => rw [node?_succ, Array.getElem?_eq_none (by omega)]

/-- The numbers in use count from 1 up to the number of entries. -/
theorem le_of_node? {α : Type} {t : Array α} {id : Nat} (used : (node? t id).isSome) :
    id ≤ t.size := by
  by_contra more
  rw [node?_eq_none (Nat.lt_of_not_le more)] at used
  cases used

theorem node?_empty {α : Type} (id : Nat) : node? (#[] : Array α) id = none := by
  cases id with
  | zero => rfl
  | succ i => exact node?_succ #[] i

theorem mem_of_node? {α : Type} {t : Array α} {id : Nat} {x : α} (h : node? t id = some x) :
    x ∈ t := by
  cases id with
  | zero => cases h
  | succ i => exact Array.mem_of_getElem? (node?_succ t i ▸ h)

/-- A new entry takes the next number, and the others keep theirs. -/
theorem node?_push {α : Type} (t : Array α) (x : α) (id : Nat) :
    node? (t.push x) id = if id = t.size + 1 then some x else node? t id := by
  cases id with
  | zero => rw [node?_zero, node?_zero, if_neg (by omega)]
  | succ i =>
    rw [node?_succ, node?_succ, Array.getElem?_push]
    simp only [Nat.add_right_cancel_iff]

namespace Nodes

variable {ν : Type} [Kinded ν]

/-- The numbers by which the heads of a kind refer to their contents, in order. -/
def numbers (n : Nodes ν) (kind : Nat) : List Nat :=
  (n.heads.toList.filter fun h => h.kind = kind ∧ h.contents ≠ 0).map (·.contents)

/-- Heads and contents are in step. -/
structure Exact (n : Nodes ν) : Prop where
  tables : n.contents.size = Kinded.count ν
  /-- Each table holds contents of its own kind. -/
  kinds : ∀ k, ∀ x ∈ n.table k, Kinded.kind x = k ∧ Kinded.isBare x = false
  /-- The heads of a kind refer to all contents of the kind, one after the other. -/
  numbers : ∀ k, n.numbers k = List.range' 1 (n.table k).size

theorem exact_start : Exact ({} : Nodes ν) := by
  have nothing (k : Nat) : ({} : Nodes ν).table k = #[] := by
    unfold table
    rw [Array.getD_eq_getD_getElem?, Array.getElem?_replicate]
    split <;> rfl
  refine ⟨Array.size_replicate, fun k x mem => ?_, fun k => ?_⟩
  · rw [nothing] at mem
    cases mem with | mk mem => cases mem
  · rw [nothing]
    rfl

/-- The heads of a kind after one more. -/
theorem numbers_push (n : Nodes ν) (h : Head) (t : Array (Array ν)) (k : Nat) :
    Nodes.numbers ({ heads := n.heads.push h, contents := t } : Nodes ν) k =
      n.numbers k ++ if h.kind = k ∧ h.contents ≠ 0 then [h.contents] else [] := by
  unfold Nodes.numbers
  rw [Array.toList_push, List.filter_append, List.map_append]
  congr 1
  by_cases same : h.kind = k ∧ h.contents ≠ 0
  · rw [if_pos same, List.filter_cons_of_pos (by simpa using same)]
    rfl
  · rw [if_neg same, List.filter_cons_of_neg (by simpa using same)]
    rfl

/-- The contents of a new node go to the end of the table for its kind. -/
theorem table_modify {n : Nodes ν} (tables : n.contents.size = Kinded.count ν) {x : ν}
    (full : Kinded.isBare x = false) (heads : Array Head) (k : Nat) :
    Nodes.table ({ heads, contents := n.contents.modify (Kinded.kind x) (·.push x) } : Nodes ν) k =
      if k = Kinded.kind x then (n.table k).push x else n.table k := by
  have inside : Kinded.kind x < n.contents.size := tables ▸ Kinded.kind_lt full
  unfold table
  rw [Array.getD_eq_getD_getElem?, Array.getD_eq_getD_getElem?, Array.getElem?_modify]
  by_cases same : k = Kinded.kind x
  · subst same
    rw [if_pos rfl, if_pos rfl, Array.getElem?_eq_getElem inside]
    rfl
  · rw [if_neg (Ne.symm same), if_neg same]

theorem add_fst (n : Nodes ν) (s : Source.Span) (x : ν) : (n.add s x).1 = n.size + 1 := by
  unfold add
  split <;> rfl

theorem Exact.add {n : Nodes ν} (exact : n.Exact) (s : Source.Span) (x : ν) :
    (n.add s x).2.Exact := by
  unfold Nodes.add
  cases full : Kinded.isBare x with
  | true =>
    refine ⟨exact.tables, exact.kinds, fun k => ?_⟩
    rw [if_pos rfl, numbers_push, if_neg (by simp), List.append_nil]
    exact exact.numbers k
  | false =>
    rw [if_neg Bool.false_ne_true]
    have tables := table_modify exact.tables full
      (n.heads.push ⟨Kinded.kind x, s, (n.table (Kinded.kind x)).size + 1⟩)
    refine ⟨(Array.size_modify ..).trans exact.tables, fun k y mem => ?_, fun k => ?_⟩
    · rw [tables] at mem
      split at mem
      · rename_i same
        rcases Array.mem_push.mp mem with old | rfl
        · exact exact.kinds k y old
        · exact ⟨same.symm, full⟩
      · exact exact.kinds k y mem
    · rw [numbers_push, tables, exact.numbers]
      by_cases same : k = Kinded.kind x
      · subst same
        rw [if_pos ⟨rfl, Nat.succ_ne_zero _⟩, if_pos rfl, Array.size_push, List.range'_concat,
          Nat.one_mul, Nat.add_comm]
      · rw [if_neg (fun h => same h.1.symm), if_neg same, List.append_nil]

/-- A head that refers to contents refers to some of its kind that are there. -/
theorem Exact.contents_le {n : Nodes ν} (exact : n.Exact) {h : Head} (mem : h ∈ n.heads) :
    h.contents ≤ (n.table h.kind).size := by
  by_cases zero : h.contents = 0
  · omega
  · have here : h.contents ∈ n.numbers h.kind :=
      List.mem_map_of_mem (List.mem_filter.mpr ⟨mem.val, by simpa using zero⟩)
    rw [exact.numbers, List.mem_range'_1] at here
    omega

/-- A head stands for contents of its kind, to which it refers by number, or for a node that has
none, and then it refers to none. -/
theorem Exact.matched {n : Nodes ν} (exact : n.Exact) {id : Nat} {h : Head}
    (found : node? n.heads id = some h) :
    ∃ x, n.find? id = some (h.span, x) ∧ Kinded.kind x = h.kind ∧
      if Kinded.isBare x then h.contents = 0 else node? (n.table h.kind) h.contents = some x := by
  unfold find?
  rw [found]
  have le := exact.contents_le (mem_of_node? found)
  cases contents : node? (n.table h.kind) h.contents with
  | some x =>
    obtain ⟨kind, full⟩ := exact.kinds _ x (mem_of_node? contents)
    refine ⟨x, ?_, kind, ?_⟩
    · show some (n.ofHead h) = _
      rw [ofHead, contents]
      rfl
    · rw [if_neg (by rw [full]; exact Bool.false_ne_true)]
  | none =>
    refine ⟨Kinded.bare h.kind, ?_, Kinded.kind_bare _, ?_⟩
    · show some (n.ofHead h) = _
      rw [ofHead, contents]
      rfl
    · rw [if_pos (Kinded.isBare_bare _)]
      -- A number that is not 0 and leads nowhere would be past the end of the table.
      cases number : h.contents with
      | zero => rfl
      | succ i =>
        rw [number, node?_succ, Array.getElem?_eq_none_iff] at contents
        omega

/-- What a head stands for does not change when a node is made. -/
theorem Exact.ofHead_add {n : Nodes ν} (exact : n.Exact) (s : Source.Span) (x : ν) {h : Head}
    (mem : h ∈ n.heads) : (n.add s x).2.ofHead h = n.ofHead h := by
  unfold Nodes.add
  cases full : Kinded.isBare x with
  | true => rfl
  | false =>
    rw [if_neg Bool.false_ne_true]
    unfold ofHead
    rw [table_modify exact.tables full]
    split
    · have le := exact.contents_le mem
      rw [node?_push, if_neg (by omega)]
    · rfl

/-- A new node is found under its number, and the others under theirs. -/
theorem Exact.find?_add {n : Nodes ν} (exact : n.Exact) (s : Source.Span) {x : ν}
    (stands : Kinded.isBare x = true → Kinded.bare (Kinded.kind x) = x) (id : Nat) :
    (n.add s x).2.find? id = if id = n.size + 1 then some (s, x) else n.find? id := by
  have heads : ∃ h, (n.add s x).2.heads = n.heads.push h ∧ (n.add s x).2.ofHead h = (s, x) := by
    unfold Nodes.add
    cases full : Kinded.isBare x with
    | true => exact ⟨_, rfl, congrArg (s, ·) (stands full)⟩
    | false =>
      refine ⟨_, rfl, ?_⟩
      unfold ofHead
      rw [if_neg Bool.false_ne_true, table_modify exact.tables full, if_pos rfl, node?_push,
        if_pos rfl]
      rfl
  obtain ⟨h, heads, new⟩ := heads
  unfold find? size
  rw [heads, node?_push]
  by_cases same : id = n.heads.size + 1
  · rw [if_pos same, if_pos same, Option.map_some, new]
  · rw [if_neg same, if_neg same]
    cases old : node? n.heads id with
    | none => rfl
    | some h => exact congrArg some (exact.ofHead_add s x (mem_of_node? old))

theorem le_of_find? {n : Nodes ν} {id : Nat} (used : (n.find? id).isSome) : id ≤ n.size := by
  unfold find? at used
  rw [Option.isSome_map] at used
  exact le_of_node? used

end Nodes
end SysY.Arena

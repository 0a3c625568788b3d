import Mathlib.Data.List.Forall2
import SysY.Proofs.Koopa.Growth

/-! # Typing rules

`Program.Typed` gives the typing rule of each kind of value. The operations that make values check
only a part of the rules; where the rules hold these operations succeed, which is what the equations
at the end say. -/

namespace SysY.Koopa.Program

/-- The rule that a value of type `ty` with the given definition obeys in `home`. -/
def Typed (p : Program) (home : Option FnId) (ty : Ty) : ValueDef → Prop
  | .integer _ => ty = .i32
  | .zeroInit | .undef | .arg _ => True
  | .aggregate elems =>
    ∃ t, ty = .array t elems.length ∧ elems ≠ [] ∧ ∀ e ∈ elems, p.Sees home e t
  | .alloc => ∃ t, ty = .pointer t
  | .globalAlloc init => ∃ t, ty = .pointer t ∧ p.Sees none init t
  | .load src => p.Sees home src (.pointer ty)
  | .store value dest => ty = .unit ∧ ∃ t, p.Sees home value t ∧ p.Sees home dest (.pointer t)
  | .getPtr src index =>
    ∃ t, ty = .pointer t ∧ p.Sees home src (.pointer t) ∧ p.Sees home index .i32
  | .getElemPtr src index =>
    ∃ t n, ty = .pointer t ∧ p.Sees home src (.pointer (.array t n)) ∧ p.Sees home index .i32
  | .binary _ left right => ty = .i32 ∧ p.Sees home left .i32 ∧ p.Sees home right .i32
  | .branch cond _ _ => ty = .unit ∧ p.Sees home cond .i32
  | .jump _ => ty = .unit
  | .call callee args =>
    ∃ d, p.fn? callee = some d ∧ ty = d.ret ∧ List.Forall₂ (p.Sees home) args d.paramTys
  | .ret none => ty = .unit ∧ ∃ f d, home = some f ∧ p.fn? f = some d ∧ d.ret = .unit
  | .ret (some v) =>
    ty = .unit ∧ ∃ f d, home = some f ∧ p.fn? f = some d ∧ d.ret ≠ .unit ∧ p.Sees home v d.ret

/-- The rules keep holding while a program grows. -/
theorem Typed.grows {p p' : Program} (grows : p.Grows p') {home : Option FnId} {ty : Ty}
    {x : ValueDef} (typed : p.Typed home ty x) : p'.Typed home ty x := by
  cases x with
  | integer n => exact typed
  | zeroInit => trivial
  | undef => trivial
  | arg i => trivial
  | aggregate elems =>
    obtain ⟨t, hty, nonempty, sees⟩ := typed
    exact ⟨t, hty, nonempty, fun e he => grows.sees (sees e he)⟩
  | alloc => exact typed
  | globalAlloc init =>
    obtain ⟨t, hty, sees⟩ := typed
    exact ⟨t, hty, grows.sees sees⟩
  | load src => exact grows.sees typed
  | store value dest =>
    obtain ⟨hty, t, sees, sees'⟩ := typed
    exact ⟨hty, t, grows.sees sees, grows.sees sees'⟩
  | getPtr src index =>
    obtain ⟨t, hty, sees, sees'⟩ := typed
    exact ⟨t, hty, grows.sees sees, grows.sees sees'⟩
  | getElemPtr src index =>
    obtain ⟨t, n, hty, sees, sees'⟩ := typed
    exact ⟨t, n, hty, grows.sees sees, grows.sees sees'⟩
  | binary op left right =>
    obtain ⟨hty, sees, sees'⟩ := typed
    exact ⟨hty, grows.sees sees, grows.sees sees'⟩
  | branch cond ifTrue ifFalse =>
    obtain ⟨hty, sees⟩ := typed
    exact ⟨hty, grows.sees sees⟩
  | jump target => exact typed
  | call callee args =>
    obtain ⟨d, found, hty, sees⟩ := typed
    obtain ⟨d', found', same⟩ := grows.fns found
    refine ⟨d', found', by rw [same.ret]; exact hty, ?_⟩
    rw [same.paramTys]
    exact sees.imp fun _ _ h => grows.sees h
  | ret value =>
    cases value with
    | none =>
      obtain ⟨hty, f, d, home, found, hret⟩ := typed
      obtain ⟨d', found', same⟩ := grows.fns found
      exact ⟨hty, f, d', home, found', by rw [same.ret]; exact hret⟩
    | some v =>
      obtain ⟨hty, f, d, home, found, hret, sees⟩ := typed
      obtain ⟨d', found', same⟩ := grows.fns found
      exact ⟨hty, f, d', home, found', by rw [same.ret]; exact hret,
        by rw [same.ret]; exact grows.sees sees⟩

/-- What holds of every value of a program that is being built, whether it is placed in a block or
not: it is typed, it reads values that it can see and that are something, control goes only to
blocks that are laid out, a parameter is one of its function, and a global variable belongs to no
function. -/
structure ValueOk (p : Program) (v : ValueId) (home : Option FnId) (ty : Ty) (x : ValueDef) :
    Prop where
  typed : p.Typed home ty x
  operands : ∀ o ∈ x.operands, ∃ t, p.Sees home o t ∧ t ≠ .unit
  targets : ∀ b ∈ x.targets, ∃ f d, home = some f ∧ p.fn? f = some d ∧ b ∈ d.blocks
  arg : ∀ i, x = .arg i → ∃ f d, home = some f ∧ p.fn? f = some d ∧ d.params[i]? = some v
  global : ∀ init, x = .globalAlloc init → home = none

theorem ValueOk.grows {p p' : Program} (grows : p.Grows p') {v : ValueId} {home : Option FnId}
    {ty : Ty} {x : ValueDef} (ok : p.ValueOk v home ty x) : p'.ValueOk v home ty x where
  typed := ok.typed.grows grows
  operands := fun o ho => by
    obtain ⟨t, sees, solid⟩ := ok.operands o ho
    exact ⟨t, grows.sees sees, solid⟩
  targets := fun b hb => by
    obtain ⟨f, d, home, found, laid⟩ := ok.targets b hb
    obtain ⟨d', found', same⟩ := grows.fns found
    exact ⟨f, d', home, found', same.mem_blocks laid⟩
  arg := fun i hi => by
    obtain ⟨f, d, home, found, mem⟩ := ok.arg i hi
    obtain ⟨d', found', same⟩ := grows.fns found
    exact ⟨f, d', home, found', by rw [same.params]; exact mem⟩
  global := ok.global

/-- A value without targets that is neither a parameter nor a global variable only has to be
typed and to read something. -/
theorem ValueOk.of_typed {p : Program} {v : ValueId} {home : Option FnId} {ty : Ty} {x : ValueDef}
    (typed : p.Typed home ty x) (operands : ∀ o ∈ x.operands, ∃ t, p.Sees home o t ∧ t ≠ .unit)
    (plain : x.targets = []) (notArg : ∀ i, x ≠ .arg i)
    (notGlobal : ∀ init, x ≠ .globalAlloc init) : p.ValueOk v home ty x where
  typed := typed
  operands := operands
  targets := by simp [plain]
  arg := fun i hi => absurd hi (notArg i)
  global := fun i hi => absurd hi (notGlobal i)

/-! ## Making typed values -/

variable {p : Program} {f : FnId}

theorem load_eq {src : ValueId} {t : Ty} (sees : p.Sees (some f) src (.pointer t)) :
    p.load f src = .ok (p.inst f t (.load src)) := by
  obtain ⟨x, found, hty, -⟩ := value_eq_ok sees
  simp only [load, found, bind, Except.bind, hty]
  rfl

theorem store_eq {value dest : ValueId} {t : Ty} (sees : p.Sees (some f) dest (.pointer t)) :
    p.store f value dest = .ok (p.inst f .unit (.store value dest)) := by
  obtain ⟨x, found, hty, -⟩ := value_eq_ok sees
  simp only [store, found, bind, Except.bind, hty]
  rfl

theorem getPtr_eq {src index : ValueId} {t : Ty} (sees : p.Sees (some f) src (.pointer t)) :
    p.getPtr f src index = .ok (p.inst f (.pointer t) (.getPtr src index)) := by
  obtain ⟨x, found, hty, -⟩ := value_eq_ok sees
  simp only [getPtr, found, bind, Except.bind, hty]
  rfl

theorem getElemPtr_eq {src index : ValueId} {t : Ty} {n : Nat}
    (sees : p.Sees (some f) src (.pointer (.array t n))) :
    p.getElemPtr f src index = .ok (p.inst f (.pointer t) (.getElemPtr src index)) := by
  obtain ⟨x, found, hty, -⟩ := value_eq_ok sees
  simp only [getElemPtr, found, bind, Except.bind, hty]
  rfl

theorem call_eq {callee : FnId} {d : Fn} {args : List ValueId} (found : p.fn? callee = some d) :
    p.call f callee args = .ok (p.inst f d.ret (.call callee args)) := by
  simp only [call, fn_eq_ok.mpr found, bind, Except.bind]
  rfl

theorem globalAlloc_eq {init : ValueId} {t : Ty} (sees : p.Sees none init t) :
    p.globalAlloc init =
      .ok (p.insert { home := none, ty := .pointer t, defn := .globalAlloc init }) := by
  obtain ⟨x, found, hty, -⟩ := global_eq_ok sees
  simp only [globalAlloc, found, bind, Except.bind, hty]
  rfl

theorem checkElems_eq {t : Ty} {elems : List ValueId} (sees : ∀ e ∈ elems, p.Sees none e t) :
    p.checkElems none t elems = .ok () := by
  induction elems with
  | nil => rfl
  | cons e es ih =>
    obtain ⟨x, found, hty, -⟩ := global_eq_ok (sees e (by simp))
    simp only [checkElems, visible, found, bind, Except.bind, hty, if_true]
    exact ih fun e' he' => sees e' (by simp [he'])

theorem aggregate_eq {t : Ty} {elems : List ValueId} (nonempty : elems ≠ [])
    (sees : ∀ e ∈ elems, p.Sees none e t) :
    p.aggregate none elems =
      .ok (p.insert { home := none, ty := .array t elems.length, defn := .aggregate elems }) := by
  cases elems with
  | nil => exact absurd rfl nonempty
  | cons e es =>
    obtain ⟨x, found, hty, -⟩ := global_eq_ok (sees e (by simp))
    have rest : p.checkElems none t es = .ok () :=
      checkElems_eq fun e' he' => sees e' (by simp [he'])
    simp only [aggregate, visible, found, bind, Except.bind, hty, rest]
    rfl

end SysY.Koopa.Program

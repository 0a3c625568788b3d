import Mathlib.Data.List.Nodup
import SysY.Proofs.Koopa.Growth
import SysY.Proofs.Syntax.Whole

/-! # Ways to make a program larger

Making a value inserts it, whatever the value is, if it succeeds at all. No step of building a
program takes anything away, and only making a function adds one. -/

namespace SysY.Koopa.Program

variable {p p' : Program} {home : Option FnId} {fn : FnId} {r : ValueId × Program}

/-! ## Values are inserted -/

theorem load_inserts {src : ValueId} (made : p.load fn src = .ok r) :
    ∃ h t n, r = p.insert ⟨h, t, .load src, n⟩ := by
  obtain ⟨y, -, made⟩ := Except.bind_eq_ok.mp made
  split at made
  · cases made
    exact ⟨_, _, _, rfl⟩
  · cases made

theorem store_inserts {w dest : ValueId} (made : p.store fn w dest = .ok r) :
    ∃ h t n, r = p.insert ⟨h, t, .store w dest, n⟩ := by
  obtain ⟨y, -, made⟩ := Except.bind_eq_ok.mp made
  split at made
  · cases made
    exact ⟨_, _, _, rfl⟩
  · cases made

theorem getPtr_inserts {src i : ValueId} (made : p.getPtr fn src i = .ok r) :
    ∃ h t n, r = p.insert ⟨h, t, .getPtr src i, n⟩ := by
  obtain ⟨y, -, made⟩ := Except.bind_eq_ok.mp made
  split at made
  · cases made
    exact ⟨_, _, _, rfl⟩
  · cases made

theorem getElemPtr_inserts {src i : ValueId} (made : p.getElemPtr fn src i = .ok r) :
    ∃ h t n, r = p.insert ⟨h, t, .getElemPtr src i, n⟩ := by
  obtain ⟨y, -, made⟩ := Except.bind_eq_ok.mp made
  split at made
  · cases made
    exact ⟨_, _, _, rfl⟩
  · cases made

theorem call_inserts {callee : FnId} {as : List ValueId} (made : p.call fn callee as = .ok r) :
    ∃ h t n, r = p.insert ⟨h, t, .call callee as, n⟩ := by
  obtain ⟨y, -, made⟩ := Except.bind_eq_ok.mp made
  cases made
  exact ⟨_, _, _, rfl⟩

theorem globalAlloc_inserts {init : ValueId} (made : p.globalAlloc init = .ok r) :
    ∃ h t n, r = p.insert ⟨h, t, .globalAlloc init, n⟩ := by
  obtain ⟨y, -, made⟩ := Except.bind_eq_ok.mp made
  cases made
  exact ⟨_, _, _, rfl⟩

theorem aggregate_inserts {elems : List ValueId} (made : p.aggregate home elems = .ok r) :
    ∃ t, r = p.insert ⟨home, t, .aggregate elems, ""⟩ := by
  cases elems with
  | nil => cases made
  | cons u us =>
    rw [aggregate] at made
    obtain ⟨x, -, made⟩ := Except.bind_eq_ok.mp made
    obtain ⟨_, -, made⟩ := Except.bind_eq_ok.mp made
    cases made
    exact ⟨_, rfl⟩

theorem value?_of_value {f : FnId} {v : ValueId} {x : Value}
    (found : p.value f v = .ok x) : p.value? v = some x := by
  unfold value local? global? at found
  cases here : p.value? v with
  | none => simp [here, Outcome.refuse] at found
  | some y =>
    rw [here] at found
    split at found
    · rename_i d either
      cases found
      rcases Option.or_eq_some_iff.mp either with own | ⟨-, global⟩
      · exact (Option.filter_eq_some_iff.mp own).1
      · exact (Option.filter_eq_some_iff.mp global).1
    · cases found

theorem value?_of_global {v : ValueId} {x : Value}
    (found : p.global v = .ok x) : p.value? v = some x := by
  unfold global global? at found
  split at found
  · rename_i d here
    cases found
    exact (Option.filter_eq_some_iff.mp here).1
  · cases found

/-! ## Growth without new functions -/

/-- A function that has blocks keeps them. -/
theorem filled_of_grows {d d' : Fn} (grows : d.Grows d') (filled : d.layout ≠ []) : d'.layout ≠ [] := by
  intro none
  have blocks := grows.blocks
  rw [Fn.blocks, Fn.blocks, none, List.map_nil, List.prefix_nil, List.map_eq_nil_iff] at blocks
  exact filled blocks

/-- A later state of a program that has the same functions. -/
structure Enlarges (p p' : Program) : Prop extends p.Grows p' where
  fns_size : p'.fns.size = p.fns.size

theorem Enlarges.refl (p : Program) : p.Enlarges p := ⟨.refl p, rfl⟩

theorem Enlarges.trans {p'' : Program} (h : p.Enlarges p') (h' : p'.Enlarges p'') :
    p.Enlarges p'' := ⟨h.toGrows.trans h'.toGrows, h'.fns_size.trans h.fns_size⟩

theorem enlarges_insert (p : Program) (x : Value) : p.Enlarges (p.insert x).2 :=
  ⟨grows_insert p x, rfl⟩

theorem enlarges_rename {v : ValueId} {x : Value} (found : p.value? v = some x) (name : String) :
    p.Enlarges (p.rename v name) := ⟨grows_rename found name, rfl⟩

theorem enlarges_setFn {f : FnId} {d e : Fn} (found : p.fn? f = some d) (grows : d.Grows e) :
    p.Enlarges (p.setFn f e) := ⟨grows_setFn found grows, by simp [setFn]⟩

theorem setName_enlarges {v : ValueId} {name : String} (named : p.setName fn v name = .ok p') :
    p.Enlarges p' := by
  obtain ⟨x, found, named⟩ := Except.bind_eq_ok.mp named
  cases named
  exact enlarges_rename (value?_of_value found) name

theorem setGlobalName_enlarges {v : ValueId} {name : String}
    (named : p.setGlobalName v name = .ok p') : p.Enlarges p' := by
  obtain ⟨x, found, named⟩ := Except.bind_eq_ok.mp named
  cases named
  exact enlarges_rename (value?_of_global found) name

theorem pushInst_enlarges {f : FnId} {d e : Fn} {b : BlockId} {v : ValueId}
    (found : p.fn f = .ok d) (pushed : d.pushInst b v = .ok e) : p.Enlarges (p.setFn f e) := by
  unfold Fn.pushInst at pushed
  split at pushed
  · cases pushed
  · cases pushed
    exact enlarges_setFn (fn_eq_ok.mp found) (Fn.grows_append d b v)

theorem pushBlock_enlarges {f : FnId} {d e : Fn} {b : BlockId} (found : p.fn f = .ok d)
    (pushed : d.pushBlock b = .ok e) : p.Enlarges (p.setFn f e) := by
  unfold Fn.pushBlock at pushed
  split at pushed
  · cases pushed
  · rename_i fresh
    cases pushed
    exact enlarges_setFn (fn_eq_ok.mp found) (Fn.grows_extend d b (by simpa using fresh))

/-! ## Closing blocks

To close a block, a return is made, perhaps of a zero that is made before it, and then put at the end
of the block. -/

/-- The program with a return of a value, or of nothing, at the end of a block. -/
def returning (p : Program) (f : FnId) (d : Fn) (b : BlockId) (value : Option ValueId) :
    Outcome Program :=
  let (r, p) := p.ret f value
  match d.pushInst b r with
  | .ok d => return p.setFn f d
  | .error t => .raise (.internal {} s!"function {d.name}: {t}")

/-- The program with a return at the end of a block. -/
def addReturn (p : Program) (f : FnId) (d : Fn) (b : BlockId) : Outcome Program :=
  let (value, p) := if d.ret = .unit then (none, p) else
    let (z, p) := p.integer (some f) 0
    (some z, p)
  let (r, p) := p.ret f value
  match d.pushInst b r with
  | .ok d => return p.setFn f d
  | .error t => .raise (.internal {} s!"function {d.name}: {t}")

theorem addReturn_eq (p : Program) (f : FnId) (d : Fn) (b : BlockId) : p.addReturn f d b =
    if d.ret = .unit then p.returning f d b none else
      (p.integer (some f) 0).2.returning f d b (some (p.integer (some f) 0).1) := by
  unfold addReturn
  by_cases unit : d.ret = .unit
  · rw [if_pos unit, if_pos unit]
    rfl
  · rw [if_neg unit, if_neg unit]
    rfl

theorem closeBlock_eq (p : Program) (f : FnId) (b : BlockId) : p.closeBlock f b = (do
    let d ← p.fn f
    match ((d.insts? b).getD []).getLast? with
    | none => p.addReturn f d b
    | some v => do
      let x ← p.value f v
      if x.defn.isTerminator then return p else p.addReturn f d b) := by
  unfold closeBlock
  refine bind_congr fun d => ?_
  cases ((d.insts? b).getD []).getLast? with
  | none => rfl
  | some v =>
    cases p.value f v with
    | error e => rfl
    | ok x => rfl

/-- What holds between two programs of which the second one is made in such steps. -/
structure Closable (R : Program → Program → Prop) : Prop where
  refl : ∀ p, R p p
  trans : ∀ {p q r}, R p q → R q r → R p r
  integer : ∀ p f n, R p (p.integer (some f) n).2
  ret : ∀ p f v, R p (p.ret f v).2
  push : ∀ {p f d e b v}, p.fn f = .ok d → d.pushInst b v = .ok e → R p (p.setFn f e)

section Closable

variable {R : Program → Program → Prop} (closable : Closable R)

include closable

theorem Closable.returning {f : FnId} {b : BlockId} {d : Fn} {v : Option ValueId}
    (found : p.fn f = .ok d) (closed : p.returning f d b v = .ok p') : R p p' := by
  have made : (p.ret f v).2.fn f = .ok d := found
  unfold Program.returning at closed
  dsimp only at closed
  cases pushed : d.pushInst b (p.ret f v).1 with
  | error t =>
    rw [pushed] at closed
    cases closed
  | ok e =>
    rw [pushed] at closed
    cases closed
    exact closable.trans (closable.ret p f v) (closable.push made pushed)

theorem Closable.addReturn {f : FnId} {b : BlockId} {d : Fn} (found : p.fn f = .ok d)
    (closed : p.addReturn f d b = .ok p') : R p p' := by
  have made : (p.integer (some f) 0).2.fn f = .ok d := found
  rw [addReturn_eq] at closed
  split at closed
  · exact closable.returning found closed
  · exact closable.trans (closable.integer p f 0) (closable.returning made closed)

theorem Closable.closeBlock {f : FnId} {b : BlockId} (closed : p.closeBlock f b = .ok p') :
    R p p' := by
  rw [closeBlock_eq] at closed
  obtain ⟨d, found, closed⟩ := Except.bind_eq_ok.mp closed
  split at closed
  · exact closable.addReturn found closed
  · obtain ⟨x, -, closed⟩ := Except.bind_eq_ok.mp closed
    split at closed
    · cases closed
      exact closable.refl p
    · exact closable.addReturn found closed

theorem Closable.foldlM {α : Type} {step : Program → α → Outcome Program}
    (steps : ∀ {q q' : Program} {a : α}, step q a = .ok q' → R q q') {as : List α}
    (ran : as.foldlM step p = .ok p') : R p p' := by
  induction as generalizing p with
  | nil =>
    cases ran
    exact closable.refl _
  | cons a as ih =>
    rw [List.foldlM_cons] at ran
    obtain ⟨q, first, rest⟩ := Except.bind_eq_ok.mp ran
    exact closable.trans (steps first) (ih rest)

/-- It holds when all blocks were closed. -/
theorem Closable.closeBlocks (closed : p.closeBlocks = .ok p') : R p p' := by
  refine closable.foldlM (fun ran => ?_) closed
  obtain ⟨d, -, ran⟩ := Except.bind_eq_ok.mp ran
  exact closable.foldlM closable.closeBlock ran

end Closable

theorem enlarges_closable : Closable Enlarges where
  refl := .refl
  trans := .trans
  integer := fun p f n => enlarges_insert p { home := some f, ty := .i32, defn := .integer n }
  ret := fun p f v => enlarges_insert p { home := some f, ty := .unit, defn := .ret v }
  push := pushInst_enlarges

theorem closeBlocks_enlarges (closed : p.closeBlocks = .ok p') : p.Enlarges p' :=
  enlarges_closable.closeBlocks closed

/-- The names of the functions stay as they are. -/
theorem Enlarges.names (h : p.Enlarges p') :
    p'.fns.toList.map (·.name) = p.fns.toList.map (·.name) := by
  refine List.ext_getElem (by simp [h.fns_size]) fun i small' small => ?_
  rw [List.length_map, Array.length_toList] at small small'
  have found : p.fn? (i + 1) = some p.fns[i] := by simp [fn?, numbered?, small]
  obtain ⟨d, found', grows⟩ := h.fns found
  have here : p'.fn? (i + 1) = some p'.fns[i] := by simp [fn?, numbered?, small']
  obtain rfl := Option.some.inj (found'.symm.trans here)
  simpa using grows.name

/-! ## New functions -/

theorem grows_insertParams (p : Program) (f : FnId) (index : Nat) (ts : List Ty)
    (names : List String) : p.Enlarges (p.insertParams f index ts names).2 := by
  induction ts generalizing p index names with
  | nil => exact .refl p
  | cons t ts ih => exact (enlarges_insert p _).trans (ih _ _ _)

theorem grows_newFn {name : String} {ty : Ty} {names : List String} {q : FnId × Program}
    (made : p.newFn name ty names = .ok q) : p.Grows q.2 := by
  cases ty with
  | func ps ret =>
    cases made
    have params := grows_insertParams p (p.fns.size + 1) 0 ps names
    refine { params.toGrows with fns := fun {f d} found => ?_ }
    obtain ⟨d', found', grows⟩ := params.fns found
    refine ⟨d', ?_, grows⟩
    have other := Nat.ne_of_lt (Nat.lt_succ_of_le (numbered?_bounds found').2)
    exact (numbered?_push _ _ _).trans ((if_neg other).trans found')
  | i32 | unit | array | pointer => cases made

/-! ## Functions by name -/

/-- The function with a name. -/
def named? (p : Program) (name : String) : Option FnId :=
  (p.fns.toList.findIdx? (·.name == name)).map (· + 1)

theorem named?_eq {f : FnId} {d : Fn} (distinct : (p.fns.toList.map (·.name)).Nodup)
    (found : p.fn? f = some d) : p.named? d.name = some f := by
  change numbered? p.fns f = some d at found
  obtain ⟨positive, -⟩ := numbered?_bounds found
  rw [numbered?, if_neg (by omega), ← Array.getElem?_toList] at found
  obtain ⟨small, eq⟩ := List.getElem?_eq_some_iff.mp found
  have index : p.fns.toList.findIdx? (·.name == d.name) = some (f - 1) := by
    refine List.findIdx?_eq_some_iff_getElem.mpr ⟨small, by simp [eq], fun i less same => ?_⟩
    have inside : i < (p.fns.toList.map (·.name)).length := by
      rw [List.length_map]
      exact Nat.lt_trans less small
    have inside' : f - 1 < (p.fns.toList.map (·.name)).length := by rwa [List.length_map]
    have twice : (p.fns.toList.map (·.name))[i] = (p.fns.toList.map (·.name))[f - 1] := by
      rw [List.getElem_map, List.getElem_map, eq]
      exact eq_of_beq same
    exact Nat.ne_of_lt less (distinct.getElem_inj_iff.mp twice)
  rw [named?, index]
  exact congrArg some (Nat.sub_add_cancel positive)

end SysY.Koopa.Program

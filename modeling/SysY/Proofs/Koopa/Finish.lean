import SysY.Koopa.Validate
import SysY.Proofs.Koopa.Build
import SysY.Proofs.Koopa.Insert

/-! # Finished programs

Closing a block puts a return at its end if it has no terminator yet. A program all of whose blocks
are closed is finished, and a finished program that was built in order is valid. -/

namespace SysY.Koopa.Program

variable {p : Program} {avail : Avail} {f : FnId} {d : Fn} {b : BlockId} {is : List ValueId}

/-! ## Closing a block -/

/-- A list of instructions that does not end with a terminator. -/
def Unfinished (p : Program) (is : List ValueId) : Prop := ∀ v, is.getLast? = some v → ¬ p.IsTerm v

/-- A return that was not written in the source. -/
def Returns (p : Program) (f : FnId) (d : Fn) (r : ValueId) : Prop :=
  (d.ret = .unit ∧ p.Has r (some f) .unit (.ret none)) ∨
    d.ret = .i32 ∧ ∃ z, p.Has r (some f) .unit (.ret (some z)) ∧
      p.Has z (some f) .i32 (.integer 0)

theorem Returns.isTerm {r : ValueId} (returns : p.Returns f d r) : p.IsTerm r := by
  rcases returns with ⟨-, has⟩ | ⟨-, z, has, -⟩
  · exact ⟨_, _, _, has, rfl⟩
  · exact ⟨_, _, _, has, rfl⟩

theorem Returns.grows {p' : Program} (grows : p.Grows p') {r : ValueId}
    (returns : p.Returns f d r) : p'.Returns f d r :=
  returns.imp (fun h => ⟨h.1, grows.values h.2⟩)
    fun ⟨ret, z, has, zero⟩ => ⟨ret, z, grows.values has, grows.values zero⟩

/-- A program in which some blocks that had no terminator were closed, and nothing else changed. -/
structure Returned (p p' : Program) : Prop where
  grows : p.Grows p'
  size : p'.fns.size = p.fns.size
  globals : ∀ {g t init}, p'.Has g none t (.globalAlloc init) → p.Has g none t (.globalAlloc init)
  fns : ∀ {f d}, p.fn? f = some d → ∃ d', p'.fn? f = some d' ∧ d'.blocks = d.blocks ∧
    ∀ {b is}, d.insts? b = some is → d'.insts? b = some is ∨
      p.Unfinished is ∧ ∃ r, d'.insts? b = some (is ++ [r]) ∧ p'.Returns f d' r

theorem Returned.refl (p : Program) : p.Returned p :=
  ⟨.refl p, rfl, id, fun {_ d} found => ⟨d, found, rfl, .inl⟩⟩

theorem Returned.trans {p₁ p₂ p₃ : Program} (h : p₁.Returned p₂) (h' : p₂.Returned p₃)
    (placed : ∀ {f d b is v}, p₁.fn? f = some d → d.insts? b = some is → v ∈ is →
      ∃ h t x, p₁.Has v h t x) : p₁.Returned p₃ where
  grows := h.grows.trans h'.grows
  size := h'.size.trans h.size
  globals := fun has => h.globals (h'.globals has)
  fns := fun {f d} found => by
    obtain ⟨d₂, found₂, blocks₂, insts₂⟩ := h.fns found
    obtain ⟨d₃, found₃, blocks₃, insts₃⟩ := h'.fns found₂
    have ret : d₃.ret = d₂.ret := by
      obtain ⟨e, he, later⟩ := h'.grows.fns found₂
      rw [found₃] at he
      cases he
      exact later.ret
    refine ⟨d₃, found₃, blocks₃.trans blocks₂, fun {b is} here => ?_⟩
    rcases insts₂ here with same | ⟨open₁, r, closed, returns⟩
    · rcases insts₃ same with same' | ⟨open₂, r, closed, returns⟩
      · exact .inl same'
      · refine .inr ⟨fun v last term => open₂ v last ?_, r, closed, returns⟩
        obtain ⟨h₀, t, x, has⟩ := placed found here (List.mem_of_getLast? last)
        exact (isTerm_grows h.grows has).mpr term
    · rcases insts₃ closed with same | ⟨open₂, r', -, -⟩
      · refine .inr ⟨open₁, r, same, ?_⟩
        have later := returns.grows h'.grows
        unfold Returns at later ⊢
        rwa [ret]
      · exact absurd returns.isTerm (open₂ r (by simp))

/-- A block that ends with a terminator. -/
def Closed (p : Program) (f : FnId) (b : BlockId) : Prop :=
  ∃ d is v, p.fn? f = some d ∧ d.insts? b = some (is ++ [v]) ∧ p.IsTerm v

theorem Closed.returned {p' : Program} (h : p.Returned p') (closed : p.Closed f b) :
    p'.Closed f b := by
  obtain ⟨d, is, v, found, here, term⟩ := closed
  obtain ⟨d', found', -, insts⟩ := h.fns found
  obtain ⟨h₀, t, x, has, kind⟩ := term
  rcases insts here with same | ⟨unfinished, -⟩
  · exact ⟨d', is, v, found', same, h₀, t, x, h.grows.values has, kind⟩
  · exact absurd ⟨h₀, t, x, has, kind⟩ (unfinished v (by simp))

/-- The instructions of a block that does not end with a terminator have none. -/
theorem FnOk.plain_of_unfinished (ok : p.FnOk avail f d) (here : d.insts? b = some is)
    (unfinished : p.Unfinished is) : ∀ w ∈ is, ¬ p.IsTerm w := by
  intro w hw
  obtain ⟨xs, ys, rfl⟩ := List.append_of_mem hw
  cases ys with
  | nil => exact unfinished w (by simp)
  | cons y ys => exact ok.early here

/-- Appending a return to a block without a terminator. -/
theorem returning_spec (ok : p.Ok avail) (found : p.fn? f = some d) (here : d.insts? b = some is)
    (unfinished : p.Unfinished is) (value : Option ValueId)
    (typed : p.Typed (some f) .unit (.ret value))
    (free : ∀ v ∈ value, p.Free f v ∧ ∃ t, p.Sees (some f) v t ∧ t ≠ .unit)
    (returns : (d.ret = .unit ∧ value = none) ∨
      d.ret = .i32 ∧ ∃ z, value = some z ∧ p.Has z (some f) .i32 (.integer 0)) :
    ∃ p', p.returning f d b value = .ok p' ∧ p'.Ok avail ∧ p.Returned p' ∧ p'.Closed f b := by
  have has : (p.ret f value).2.Has (p.values.size + 1) (some f) .unit (.ret value) :=
    has_insert p ⟨some f, .unit, .ret value, ""⟩
  have grows : p.Grows (p.ret f value).2 := grows_insert p _
  have fnOk := ok.fns found
  have new : ∀ {c js}, d.insts? c = some js → p.values.size + 1 ∉ js := fun found =>
    fnOk.not_mem_of_large (Nat.lt_succ_self _) found
  have found' : (p.ret f value).2.fn? f = some d := found
  have operand : ∀ {o}, o ∈ (ValueDef.ret value).operands → o ∈ value := by
    intro o ho
    simpa [ValueDef.operands] using ho
  have made : (p.ret f value).2.Ok avail := by
    refine ok.insert (x := ⟨some f, .unit, .ret value, ""⟩) ⟨typed.grows grows, fun o ho => ?_,
      by simp [ValueDef.targets], by simp, by simp⟩ (.inr ⟨rfl, rfl⟩)
    obtain ⟨t, sees, solid⟩ := (free o (operand ho)).2
    exact ⟨t, grows.sees sees, solid⟩
  have longer := grows_setFn found' (Fn.grows_append d b (p.values.size + 1))
  have total := grows.trans longer
  have fnNow : ((p.ret f value).2.setFn f (d.append b (p.values.size + 1))).fn? f =
      some (d.append b (p.values.size + 1)) := (fn?_setFn found' _ f).trans (if_pos rfl)
  have instsNow : (d.append b (p.values.size + 1)).insts? b = some (is ++ [p.values.size + 1]) :=
    (Fn.insts?_append ..).trans ((if_pos rfl).trans (by rw [here]; rfl))
  have implicit : ((p.ret f value).2.setFn f (d.append b (p.values.size + 1))).Returns f
      (d.append b (p.values.size + 1)) (p.values.size + 1) := by
    rcases returns with ⟨unit, rfl⟩ | ⟨int, z, rfl, zero⟩
    · exact .inl ⟨unit, has⟩
    · exact .inr ⟨int, z, has, total.values zero⟩
  have pushed : d.pushInst b (p.ret f value).1 = .ok (d.append b (p.values.size + 1)) :=
    Fn.pushInst_eq here (new here)
  refine ⟨(p.ret f value).2.setFn f (d.append b (p.values.size + 1)), ?_,
    made.setFn found' (Fn.grows_append ..) ((made.fns found').append here has rfl new ?_ ?_ ?_),
    ⟨total, ?_, ?_, ?_⟩, ⟨_, is, _, fnNow, instsNow, implicit.isTerm⟩⟩
  · simp only [returning, pushed]
    rfl
  · intro w hw term
    obtain ⟨t, y, hasW, -⟩ := fnOk.placed here hw
    exact fnOk.plain_of_unfinished here unfinished w hw ((isTerm_grows grows hasW).mp term)
  · intro o ho
    exact .inl ((free o (operand ho)).1.grows grows)
  · intro c hc
    cases hc
  · exact Array.size_setIfInBounds ..
  · intro g t init hasG
    rcases has_insert_iff.mp hasG with old | ⟨-, home, -⟩
    · exact old
    · cases home
  · intro g e foundG
    by_cases same : g = f
    · subst same
      rw [found] at foundG
      cases foundG
      refine ⟨_, fnNow, Fn.blocks_append .., fun {c js} hjs => ?_⟩
      by_cases there : c = b
      · subst there
        rw [here] at hjs
        cases hjs
        exact .inr ⟨unfinished, _, instsNow, implicit⟩
      · exact .inl ((Fn.insts?_append ..).trans ((if_neg there).trans hjs))
    · exact ⟨e, (fn?_setFn found' _ g).trans ((if_neg same).trans foundG), rfl, .inl⟩

/-- A block without a terminator is closed with a return. -/
theorem addReturn_spec (ok : p.Ok avail) (found : p.fn? f = some d) (here : d.insts? b = some is)
    (unfinished : p.Unfinished is) :
    ∃ p', p.addReturn f d b = .ok p' ∧ p'.Ok avail ∧ p.Returned p' ∧ p'.Closed f b := by
  have fnOk := ok.fns found
  rw [addReturn_eq]
  rcases fnOk.ret with unit | int
  · rw [if_pos unit]
    exact returning_spec ok found here unfinished none ⟨rfl, f, d, rfl, found, unit⟩ (by simp)
      (.inl ⟨unit, rfl⟩)
  · -- The zero that is returned is a new value, too.
    have zero : (p.integer (some f) 0).2.Has (p.values.size + 1) (some f) .i32 (.integer 0) :=
      has_insert p ⟨some f, .i32, .integer 0, ""⟩
    have growsZ : p.Grows (p.integer (some f) 0).2 := grows_insert p _
    have okZ : (p.integer (some f) 0).2.Ok avail :=
      ok.insert (x := ⟨some f, .i32, .integer 0, ""⟩) (.of_typed rfl (by simp [ValueDef.operands])
        rfl (by simp) (by simp)) (.inr ⟨rfl, rfl⟩)
    have foundZ : (p.integer (some f) 0).2.fn? f = some d := found
    have unfinishedZ : (p.integer (some f) 0).2.Unfinished is := by
      intro v hv term
      obtain ⟨t, x, has, -⟩ := fnOk.placed here (List.mem_of_getLast? hv)
      exact unfinished v hv ((isTerm_grows growsZ has).mp term)
    have sees : (p.integer (some f) 0).2.Sees (some f) (p.values.size + 1) .i32 :=
      ⟨_, _, zero, .inl rfl⟩
    have operand : ∀ v ∈ some (p.values.size + 1), (p.integer (some f) 0).2.Free f v ∧
        ∃ t, (p.integer (some f) 0).2.Sees (some f) v t ∧ t ≠ .unit := by
      rintro v ⟨⟩
      exact ⟨⟨_, _, _, zero, .inl rfl, rfl⟩, .i32, sees, by simp⟩
    have notUnit : d.ret ≠ .unit := by simp [int]
    have first : p.Returned (p.integer (some f) 0).2 := by
      refine ⟨growsZ, rfl, fun has => ?_, fun {_ e} foundE => ⟨e, foundE, rfl, .inl⟩⟩
      rcases has_insert_iff.mp has with old | ⟨-, home, -⟩
      · exact old
      · cases home
    obtain ⟨p', eq, okNow, returned, closed⟩ := returning_spec okZ foundZ here unfinishedZ
      (some (p.values.size + 1)) ⟨rfl, f, d, rfl, foundZ, notUnit, by rw [int]; exact sees⟩ operand
      (.inr ⟨int, _, rfl, zero⟩)
    rw [if_neg notUnit]
    refine ⟨p', eq, okNow, first.trans returned fun foundE hereE hv => ?_, closed⟩
    obtain ⟨t, x, has, -⟩ := (ok.fns foundE).placed hereE hv
    exact ⟨_, t, x, has⟩

theorem closeBlock_spec (ok : p.Ok avail) (found : p.fn? f = some d) (mem : b ∈ d.blocks) :
    ∃ p', p.closeBlock f b = .ok p' ∧ p'.Ok avail ∧ p.Returned p' ∧ p'.Closed f b := by
  have fnOk := ok.fns found
  obtain ⟨is, here⟩ := Option.isSome_iff_exists.mp (Fn.insts?_isSome.mpr mem)
  rw [closeBlock_eq, fn_eq_ok.mpr found, ok_bind]
  simp only [here, Option.getD_some]
  cases last : is.getLast? with
  | none => exact addReturn_spec ok found here fun v hv => by rw [last] at hv; cases hv
  | some v =>
    obtain ⟨t, x, has, -⟩ := fnOk.placed here (List.mem_of_getLast? last)
    obtain ⟨y, hy, -, value⟩ := value_eq_ok ⟨_, _, has, .inl rfl⟩
    dsimp only
    rw [hy, ok_bind]
    split
    · rename_i kind
      obtain ⟨ys, rfl⟩ := List.getLast?_eq_some_iff.mp last
      exact ⟨p, rfl, ok, .refl p, d, ys, v, found, here, _, _, _, has_of_value? value, kind⟩
    · rename_i kind
      refine addReturn_spec ok found here fun w hw term => ?_
      rw [last] at hw
      cases hw
      obtain ⟨h', t', x', has', isTerm⟩ := term
      obtain ⟨-, -, rfl⟩ := has'.unique (has_of_value? value)
      exact kind isTerm

/-! ## Closing all blocks -/

/-- Every block of every function ends with a terminator. -/
def Finished (p : Program) : Prop := ∀ {f d b}, p.fn? f = some d → b ∈ d.blocks → p.Closed f b

theorem closeFn_spec (ok : p.Ok avail) (found : p.fn? f = some d) (bs : List BlockId)
    (mem : ∀ b ∈ bs, b ∈ d.blocks) :
    ∃ p', bs.foldlM (fun p b => p.closeBlock f b) p = .ok p' ∧ p'.Ok avail ∧ p.Returned p' ∧
      ∀ b ∈ bs, p'.Closed f b := by
  induction bs generalizing p d with
  | nil => exact ⟨p, rfl, ok, .refl p, by simp⟩
  | cons b bs ih =>
    obtain ⟨p₁, eq₁, ok₁, returned₁, closed₁⟩ := closeBlock_spec ok found (mem b (by simp))
    obtain ⟨d₁, found₁, blocks₁, -⟩ := returned₁.fns found
    obtain ⟨p₂, eq₂, ok₂, returned₂, closed₂⟩ := ih ok₁ found₁ fun c hc => by
      rw [blocks₁]
      exact mem c (by simp [hc])
    refine ⟨p₂, ?_, ok₂, returned₁.trans returned₂ fun foundE hereE hv => ?_, ?_⟩
    · rw [List.foldlM_cons, eq₁]
      exact eq₂
    · obtain ⟨t, x, has, -⟩ := (ok.fns foundE).placed hereE hv
      exact ⟨_, t, x, has⟩
    · intro c hc
      rcases List.mem_cons.mp hc with rfl | hc
      · exact closed₁.returned returned₂
      · exact closed₂ c hc

theorem closeFns_spec (ok : p.Ok avail) (fs : List FnId) (exist : ∀ f ∈ fs, ∃ d, p.fn? f = some d) :
    ∃ p', fs.foldlM (fun p f => do
        (← p.fn f).blocks.foldlM (fun p b => p.closeBlock f b) p) p = .ok p' ∧
      p'.Ok avail ∧ p.Returned p' ∧
      ∀ f ∈ fs, ∀ {d b}, p'.fn? f = some d → b ∈ d.blocks → p'.Closed f b := by
  induction fs generalizing p with
  | nil => exact ⟨p, rfl, ok, .refl p, by simp⟩
  | cons f fs ih =>
    obtain ⟨d, found⟩ := exist f (by simp)
    obtain ⟨p₁, eq₁, ok₁, returned₁, closed₁⟩ := closeFn_spec ok found d.blocks fun _ h => h
    obtain ⟨p₂, eq₂, ok₂, returned₂, closed₂⟩ := ih ok₁ fun g hg => by
      obtain ⟨e, foundE⟩ := exist g (by simp [hg])
      obtain ⟨e', foundE', -⟩ := returned₁.fns foundE
      exact ⟨e', foundE'⟩
    refine ⟨p₂, ?_, ok₂, returned₁.trans returned₂ fun foundE hereE hv => ?_, ?_⟩
    · rw [List.foldlM_cons, fn_eq_ok.mpr found]
      change (d.blocks.foldlM (fun p b => p.closeBlock f b) p >>= _) = _
      rw [eq₁]
      exact eq₂
    · obtain ⟨t, x, has, -⟩ := (ok.fns foundE).placed hereE hv
      exact ⟨_, t, x, has⟩
    · intro g hg e b foundE mem
      rcases List.mem_cons.mp hg with rfl | hg
      · obtain ⟨d₁, found₁, blocks₁, -⟩ := returned₁.fns found
        obtain ⟨d₂, found₂, blocks₂, -⟩ := returned₂.fns found₁
        rw [foundE] at found₂
        cases found₂
        rw [blocks₂, blocks₁] at mem
        exact (closed₁ b mem).returned returned₂
      · exact closed₂ g hg foundE mem

theorem mem_fnIds {f : FnId} : f ∈ p.fnIds ↔ ∃ d, p.fn? f = some d := by
  simp only [fnIds, List.mem_map, List.mem_range]
  constructor
  · rintro ⟨i, small, rfl⟩
    refine ⟨p.fns[i], ?_⟩
    simp [fn?, numbered?, small]
  · rintro ⟨d, found⟩
    obtain ⟨positive, small⟩ := numbered?_bounds found
    exact ⟨f - 1, Nat.lt_of_lt_of_le (Nat.sub_lt positive Nat.one_pos) small,
      Nat.sub_add_cancel positive⟩

/-- Closing all blocks succeeds, and the program is finished. -/
theorem closeBlocks_spec (ok : p.Ok avail) :
    ∃ p', p.closeBlocks = .ok p' ∧ p'.Ok avail ∧ p.Returned p' ∧ p'.Finished := by
  obtain ⟨p', eq, ok', returned, closed⟩ := closeFns_spec ok p.fnIds fun f hf => mem_fnIds.mp hf
  refine ⟨p', eq, ok', returned, fun {f d b} found mem => closed f ?_ found mem⟩
  have small := numbered?_bounds found
  rw [returned.size] at small
  rw [fnIds, List.mem_map]
  exact ⟨f - 1, List.mem_range.mpr (Nat.lt_of_lt_of_le (Nat.sub_lt small.1 Nat.one_pos) small.2),
    Nat.sub_add_cancel small.1⟩

/-! ## Finished programs are valid -/

/-- An entry of the layout is what looking up its block finds. -/
theorem insts?_of_mem (distinct : d.blocks.Nodup) (mem : (b, is) ∈ d.layout) :
    d.insts? b = some is := by
  unfold Fn.insts?
  unfold Fn.blocks at distinct
  generalize d.layout = entries at distinct mem
  induction entries with
  | nil => cases mem
  | cons e es ih =>
    obtain ⟨c, js⟩ := e
    rw [List.map_cons, List.nodup_cons] at distinct
    rcases List.mem_cons.mp mem with same | later
    · cases same
      simp
    · have other : b ≠ c := by
        rintro rfl
        exact distinct.1 (List.mem_map.mpr ⟨_, later, rfl⟩)
      rw [List.lookup_cons]
      have : (b == c) = false := by simpa using other
      rw [this]
      exact ih distinct.2 later

/-- What a value reads is there. -/
theorem sees_isSome {o : ValueId} {t : Ty} (sees : p.Sees (some f) o t) :
    ((p.local? f o).isNone && (p.global? o).isNone) = false := by
  obtain ⟨h, x, ⟨n, found⟩, rfl | rfl⟩ := sees
  · simp [local?, found, Option.filter]
  · simp [global?, found, Option.filter]

/-- A return fits its function. -/
theorem returnIssue?_eq {value : Option ValueId} (found : p.fn? f = some d)
    (typed : p.Typed (some f) .unit (.ret value)) : p.returnIssue? f d value = .ok none := by
  cases value with
  | none =>
    obtain ⟨-, g, e, ⟨⟩, found', ret⟩ := typed
    rw [found] at found'
    cases found'
    simp only [returnIssue?, ret, if_true]
    rfl
  | some v =>
    obtain ⟨-, g, e, ⟨⟩, found', ret, sees⟩ := typed
    rw [found] at found'
    cases found'
    obtain ⟨x, hx, type, -⟩ := value_eq_ok sees
    simp only [returnIssue?, ret, if_false, hx, bind, Except.bind, type, if_true]
    rfl

theorem instIssues_eq (ok : p.Ok avail) (found : p.fn? f = some d) {xs ys : List ValueId}
    {v : ValueId} (here : d.insts? b = some (xs ++ v :: ys))
    (last : ys = [] → p.IsTerm v) : p.instIssues f d v ys.isEmpty = .ok [] := by
  have fnOk := ok.fns found
  obtain ⟨t, x, has, kind⟩ := fnOk.placed (v := v) here (by simp)
  have valueOk := ok.values has
  obtain ⟨n, value⟩ := has
  have isLocal : p.local? f v = some ⟨some f, t, x, n⟩ := by
    simp [local?, value, Option.filter]
  have term : x.isTerminator = ys.isEmpty := by
    cases ys with
    | nil =>
      obtain ⟨h', t', x', has', isTerm⟩ := last rfl
      obtain ⟨-, -, rfl⟩ := has'.unique ⟨n, value⟩
      exact isTerm
    | cons w ys =>
      cases isTerm : x.isTerminator with
      | false => rfl
      | true => exact absurd ⟨_, _, _, ⟨n, value⟩, isTerm⟩ (fnOk.early here)
  have operands : x.operands.filter (fun o => (p.local? f o).isNone && (p.global? o).isNone) = [] := by
    rw [List.filter_eq_nil_iff]
    intro o ho
    obtain ⟨t', sees, -⟩ := valueOk.operands o ho
    simp [sees_isSome sees]
  have targets : x.targets.filter (fun c => (d.insts? c).isNone) = [] := by
    rw [List.filter_eq_nil_iff]
    intro c hc
    obtain ⟨g, e, ⟨⟩, found', laid⟩ := valueOk.targets c hc
    rw [found] at found'
    cases found'
    have := Fn.insts?_isSome.mpr laid
    simp [Option.isNone_iff_eq_none, Option.isSome_iff_ne_none.mp this]
  simp only [instIssues, isLocal, kind, if_true, term, operands, targets, List.map_nil]
  have notBoth : (ys.isEmpty && !ys.isEmpty) = false := by cases ys.isEmpty <;> rfl
  simp only [notBoth, Bool.false_eq_true, if_false]
  split
  · rename_i value'
    have unit : t = .unit := by
      cases value' with
      | none => exact valueOk.typed.1
      | some w => exact valueOk.typed.1
    rw [returnIssue?_eq found (unit ▸ valueOk.typed)]
    rfl
  · rfl

/-- Values that were placed before: in earlier blocks, or earlier in the block at hand. -/
def PlacedIn (pre : List (BlockId × List ValueId)) (b : BlockId) (xs : List ValueId)
    (placed : List (ValueId × BlockId)) : Prop :=
  ∀ v c, (v, c) ∈ placed → (∃ js, (c, js) ∈ pre ∧ v ∈ js) ∨ (c = b ∧ v ∈ xs)

theorem instsIssues_eq (ok : p.Ok avail) (found : p.fn? f = some d)
    {pre rest : List (BlockId × List ValueId)} {xs vs : List ValueId}
    (layout : d.layout = pre ++ (b, xs ++ vs) :: rest)
    (last : ∀ v, (xs ++ vs).getLast? = some v → p.IsTerm v)
    {placed : List (ValueId × BlockId)} (seen : PlacedIn pre b xs placed) :
    ∃ placed', p.instsIssues f d b placed vs = .ok ([], placed') ∧
      PlacedIn pre b (xs ++ vs) placed' := by
  have fnOk := ok.fns found
  have here : d.insts? b = some (xs ++ vs) := insts?_of_mem fnOk.distinct (by simp [layout])
  induction vs generalizing xs placed with
  | nil => exact ⟨placed, rfl, by simpa using seen⟩
  | cons v vs ih =>
    have fresh : placed.lookup v = none := by
      cases hlookup : placed.lookup v with
      | none => rfl
      | some c =>
        obtain ⟨l₁, l₂, eq, -⟩ := List.lookup_eq_some_iff.mp hlookup
        rcases seen v c (by rw [eq]; simp) with ⟨js, mem, inside⟩ | ⟨-, inside⟩
        · have there : d.insts? c = some js := insts?_of_mem fnOk.distinct (by simp [layout, mem])
          obtain rfl := fnOk.once there here inside (by simp)
          have twice := fnOk.distinct
          rw [Fn.blocks, layout, List.map_append, List.map_cons, List.nodup_append] at twice
          exact absurd rfl (twice.2.2 c (List.mem_map.mpr ⟨_, mem, rfl⟩) c (by simp))
        · have nodup := fnOk.nodup here
          rw [List.nodup_append] at nodup
          exact absurd rfl (nodup.2.2 v inside v (by simp))
    have shift : xs ++ v :: vs = (xs ++ [v]) ++ vs := by simp
    have one := instIssues_eq ok found here fun empty => by
      subst empty
      exact last v (by simp)
    have seen₁ : PlacedIn pre b (xs ++ [v]) ((v, b) :: placed) := by
      intro w c mem
      rcases List.mem_cons.mp mem with new | old
      · cases new
        exact .inr ⟨rfl, by simp⟩
      · exact (seen w c old).imp_right fun h => ⟨h.1, by simp [h.2]⟩
    rw [shift] at layout last here
    obtain ⟨placed', eq, seen'⟩ := ih layout last seen₁ here
    refine ⟨placed', ?_, by rw [shift]; exact seen'⟩
    simp only [instsIssues, fresh, one, eq, bind, Except.bind]
    rfl

theorem blocksIssues_eq (ok : p.Ok avail) (finished : p.Finished) (found : p.fn? f = some d)
    {pre rest : List (BlockId × List ValueId)} (layout : d.layout = pre ++ rest)
    {placed : List (ValueId × BlockId)}
    (seen : ∀ v c, (v, c) ∈ placed → ∃ js, (c, js) ∈ pre ∧ v ∈ js) :
    p.blocksIssues f d placed rest = .ok [] := by
  have fnOk := ok.fns found
  induction rest generalizing pre placed with
  | nil => rfl
  | cons entry rest ih =>
    obtain ⟨b, is⟩ := entry
    have here : d.insts? b = some is := insts?_of_mem fnOk.distinct (by simp [layout])
    obtain ⟨blk, hblk⟩ := Option.isSome_iff_exists.mp (fnOk.homes (Fn.mem_blocks_of_insts? here))
    have block : p.block f b = .ok blk := by
      simp only [Program.block, hblk]
      rfl
    obtain ⟨e, js, last, found', here', term⟩ := finished found (Fn.mem_blocks_of_insts? here)
    rw [found] at found'
    cases found'
    rw [here] at here'
    cases here'
    have start : d.layout = pre ++ (b, [] ++ (js ++ [last])) :: rest := layout
    have seen₀ : PlacedIn pre b [] placed := fun v c mem => .inl (seen v c mem)
    obtain ⟨placed', eq, seen'⟩ := instsIssues_eq ok found start (by
      intro v hv
      obtain rfl : last = v := by simpa using hv
      exact term) seen₀
    have next : d.layout = (pre ++ [(b, js ++ [last])]) ++ rest := by simp [layout]
    have seen₁ : ∀ v c, (v, c) ∈ placed' →
        ∃ ks, (c, ks) ∈ pre ++ [(b, js ++ [last])] ∧ v ∈ ks := by
      intro v c mem
      rcases seen' v c mem with ⟨ks, inside, hv⟩ | ⟨rfl, hv⟩
      · exact ⟨ks, by simp [inside], hv⟩
      · exact ⟨_, by simp, hv⟩
    have rest_eq := ih next seen₁
    have nonempty : (js ++ [last]).isEmpty = false := by simp
    simp only [blocksIssues, block, nonempty, Bool.false_eq_true, if_false, eq, rest_eq, bind,
      Except.bind, List.map_nil]
    rfl

/-- No function of a finished program has issues. -/
theorem issues_eq (ok : p.Ok avail) (finished : p.Finished) : p.issues = .ok [] := by
  have all : ∀ fs : List FnId, (∀ f ∈ fs, f ∈ p.fnIds) → ∃ rs, fs.mapM (fun f => do
      let d ← p.fn f
      return (d.name, ← p.fnIssues f d) : FnId → Outcome (String × List (String × Issue))) =
        .ok rs ∧ ∀ r ∈ rs, r.2 = [] := by
    intro fs
    induction fs with
    | nil => exact fun _ => ⟨[], rfl, by simp⟩
    | cons f fs ih =>
      intro sub
      obtain ⟨d, found⟩ := mem_fnIds.mp (sub f (by simp))
      have start : d.layout = [] ++ d.layout := rfl
      have fine : p.fnIssues f d = .ok [] := blocksIssues_eq ok finished found start (by simp)
      obtain ⟨rs, eq, empty⟩ := ih fun g hg => sub g (by simp [hg])
      refine ⟨(d.name, []) :: rs, ?_, ?_⟩
      · rw [List.mapM_cons, fn_eq_ok.mpr found, ok_bind, fine, ok_bind, eq]
        rfl
      · intro r hr
        rcases List.mem_cons.mp hr with rfl | hr
        · rfl
        · exact empty r hr
  obtain ⟨rs, eq, empty⟩ := all p.fnIds fun _ h => h
  have none : rs.filter (!·.2.isEmpty) = [] := by
    rw [List.filter_eq_nil_iff]
    intro r hr
    simp [empty r hr]
  rw [issues, eq, ok_bind, none]
  rfl

/-- Nothing is wrong with a finished program. -/
theorem validate_eq (ok : p.Ok avail) (finished : p.Finished) : p.validate = .ok none := by
  rw [validate, issues_eq ok finished]
  rfl

theorem repeatedNames_eq {seen names : List String} (distinct : names.Nodup)
    (fresh : ∀ n ∈ names, n ∉ seen) : repeatedNames seen names = [] := by
  induction names generalizing seen with
  | nil => rfl
  | cons n ns ih =>
    rw [List.nodup_cons] at distinct
    have new : seen.contains n = false := by simpa using fresh n (by simp)
    rw [repeatedNames, new]
    refine ih distinct.2 fun m hm mem => ?_
    rcases List.mem_cons.mp mem with rfl | mem
    · exact distinct.1 hm
    · exact fresh m (by simp [hm]) mem

theorem unnamedGlobals_eq (ok : p.Ok avail) : p.unnamedGlobals = [] := by
  rw [unnamedGlobals, List.filterMap_eq_nil_iff]
  intro g hg
  have isGlobal := (List.mem_filter.mp hg).2
  rw [Option.any_eq_true] at isGlobal
  obtain ⟨x, found, kind⟩ := isGlobal
  have named : x.name.startsWith "@" = true := by
    rcases ok.names found with named | ⟨-, other⟩
    · rw [String.startsWith_string_iff]
      obtain ⟨cs, eq⟩ := List.head?_eq_some_iff.mp named
      exact ⟨cs, by rw [eq]; rfl⟩
    · rw [kind] at other
      cases other
  have isGlobal : p.global? g = some x := by
    obtain ⟨home, ty, defn, name⟩ := x
    cases home with
    | none => simp [global?, found]
    | some f => cases kind
  simp [isGlobal, named]

/-- Nor is anything wrong with the names of a finished program. -/
theorem check_eq (ok : p.Ok avail) (finished : p.Finished) : p.check = .ok none := by
  rw [check, validate_eq ok finished, ok_bind, repeatedNames_eq ok.distinct (by simp),
    unnamedGlobals_eq ok]
  rfl

/-! ## What validity comes to -/

/-- The structure of a finished program.

* `ends`: a block has one terminator, and it is the last instruction.
* `once`: no instruction is placed twice.
* `targets`, `operands`: where control goes is laid out, and what is read is there.
* `bare`, `returns`: a return fits its function.
* `distinct`, `named`: functions have different names, and global variables have proper ones. -/
structure WellFormed (p : Program) : Prop where
  ends : ∀ {f d b is}, p.fn? f = some d → d.insts? b = some is →
    ∃ init last, is = init ++ [last] ∧ p.IsTerm last ∧ ∀ v ∈ init, ¬ p.IsTerm v
  once : ∀ {f d}, p.fn? f = some d → (d.layout.flatMap (·.2)).Nodup
  targets : ∀ {f d b is v h t x c}, p.fn? f = some d → d.insts? b = some is → v ∈ is →
    p.Has v h t x → c ∈ x.targets → c ∈ d.blocks
  operands : ∀ {f d b is v h t x o}, p.fn? f = some d → d.insts? b = some is → v ∈ is →
    p.Has v h t x → o ∈ x.operands → ∃ t', p.Sees (some f) o t'
  bare : ∀ {f d b is v h t}, p.fn? f = some d → d.insts? b = some is → v ∈ is →
    p.Has v h t (.ret none) → d.ret = .unit
  returns : ∀ {f d b is v h t w}, p.fn? f = some d → d.insts? b = some is → v ∈ is →
    p.Has v h t (.ret (some w)) → d.ret ≠ .unit ∧ p.Sees (some f) w d.ret
  distinct : (p.fns.toList.map (·.name)).Nodup
  named : ∀ {v x}, p.value? v = some x → isGlobalVariable x = true →
    x.name.toList.head? = some '@'

/-- No instruction of a function is placed twice. -/
theorem FnOk.flat_nodup (ok : p.FnOk avail f d) : (d.layout.flatMap (·.2)).Nodup := by
  have blocks : d.layout.Pairwise fun e e' => e.1 ≠ e'.1 := List.pairwise_map.mp ok.distinct
  refine List.nodup_flatMap.mpr ⟨fun e he => ok.nodup (insts?_of_mem ok.distinct he), ?_⟩
  refine blocks.imp_of_mem fun {e e'} he he' different v mem mem' => different ?_
  exact ok.once (insts?_of_mem ok.distinct he) (insts?_of_mem ok.distinct he') mem mem'

theorem Ok.wellFormed (ok : p.Ok avail) (finished : p.Finished) : p.WellFormed where
  ends := fun {f d b is} found here => by
    obtain ⟨d', init, last, found', here', term⟩ := finished found (Fn.mem_blocks_of_insts? here)
    obtain rfl := Option.some.inj (found.symm.trans found')
    obtain rfl := Option.some.inj (here.symm.trans here')
    refine ⟨init, last, rfl, term, fun v hv => ?_⟩
    obtain ⟨xs, ys, rfl⟩ := List.append_of_mem hv
    cases ys with
    | nil =>
      have split : d.insts? b = some (xs ++ v :: last :: []) := by simpa using here
      exact (ok.fns found).early split
    | cons y ys =>
      have split : d.insts? b = some (xs ++ v :: y :: (ys ++ [last])) := by simpa using here
      exact (ok.fns found).early split
  once := fun found => (ok.fns found).flat_nodup
  targets := fun found here mem has target => by
    obtain ⟨t', x', has', -⟩ := (ok.fns found).placed here mem
    obtain ⟨rfl, rfl, rfl⟩ := has.unique has'
    obtain ⟨g, e, home, found', laid⟩ := (ok.values has).targets _ target
    cases home
    obtain rfl := Option.some.inj (found.symm.trans found')
    exact laid
  operands := fun found here mem has operand => by
    obtain ⟨t', x', has', -⟩ := (ok.fns found).placed here mem
    obtain ⟨rfl, rfl, rfl⟩ := has.unique has'
    obtain ⟨t', sees, -⟩ := (ok.values has).operands _ operand
    exact ⟨t', sees⟩
  bare := fun found here mem has => by
    obtain ⟨t', x', has', -⟩ := (ok.fns found).placed here mem
    obtain ⟨rfl, rfl, rfl⟩ := has.unique has'
    obtain ⟨-, g, e, home, found', ret⟩ := (ok.values has).typed
    cases home
    obtain rfl := Option.some.inj (found.symm.trans found')
    exact ret
  returns := fun found here mem has => by
    obtain ⟨t', x', has', -⟩ := (ok.fns found).placed here mem
    obtain ⟨rfl, rfl, rfl⟩ := has.unique has'
    obtain ⟨-, g, e, home, found', ret, sees⟩ := (ok.values has).typed
    cases home
    obtain rfl := Option.some.inj (found.symm.trans found')
    exact ⟨ret, sees⟩
  distinct := ok.distinct
  named := fun found kind => by
    rcases ok.names found with named | ⟨-, other⟩
    · exact named
    · rw [kind] at other
      cases other

end SysY.Koopa.Program

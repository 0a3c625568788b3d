import SysY.Proofs.Koopa.Finish
import SysY.Proofs.Koopa.Insert

/-! # Assembled programs

A program is assembled by a list of edits that make functions, blocks and values and put them in
order. Edits refer to parts by number and say little about them: a block may be laid out in a
function that it does not belong to, and an instruction may read what belongs to another function.
What every assembled program has in common is `Arranged`. -/

namespace SysY.Koopa

/-- An operation on a program. `home` is the function that a constant belongs to, if any. -/
inductive Edit where
  | newFn (name : String) (ty : Ty) (paramNames : List String)
  | newBlock (f : FnId) (name : String)
  | pushBlock (f : FnId) (b : BlockId)
  | pushInst (f : FnId) (b : BlockId) (v : ValueId)
  | setName (f : FnId) (v : ValueId) (name : String)
  | setGlobalName (v : ValueId) (name : String)
  | integer (home : Option FnId) (n : Int32)
  | zeroInit (home : Option FnId) (ty : Ty)
  | undef (home : Option FnId) (ty : Ty)
  | aggregate (home : Option FnId) (elems : List ValueId)
  | globalAlloc (init : ValueId)
  | alloc (f : FnId) (ty : Ty)
  | load (f : FnId) (src : ValueId)
  | store (f : FnId) (value dest : ValueId)
  | getPtr (f : FnId) (src index : ValueId)
  | getElemPtr (f : FnId) (src index : ValueId)
  | binary (f : FnId) (op : Op) (left right : ValueId)
  | branch (f : FnId) (cond : ValueId) (ifTrue ifFalse : BlockId)
  | jump (f : FnId) (target : BlockId)
  | call (f : FnId) (callee : FnId) (args : List ValueId)
  /-- Return a value, or nothing for the number 0. -/
  | ret (f : FnId) (value : ValueId)
deriving Repr

namespace Edit

/-- Do something in a function, which has to exist. -/
def inFn (p : Program) (f : FnId) (made : Outcome (ValueId × Program)) : Outcome Program := do
  let _ ← p.fn f
  return (← made).2

/-- Make a constant of a function that exists, or a global one. -/
def inHome (p : Program) (home : Option FnId) (made : Outcome (ValueId × Program)) :
    Outcome Program :=
  match home with
  | some f => inFn p f made
  | none => do return (← made).2

/-- Change the layout of a function. What is already laid out is not laid out again. -/
def arrange (p : Program) (f : FnId) (laid : Except String Fn) : Program :=
  match laid with
  | .ok d => p.setFn f d
  | .error _ => p

/-- The program after an edit. -/
def apply (p : Program) : Edit → Outcome Program
  | newFn name ty paramNames => do return (← p.newFn name ty paramNames).2
  | newBlock f name => inFn p f (.ok (p.newBlock f name))
  | pushBlock f b => do return arrange p f ((← p.fn f).pushBlock b)
  | pushInst f b v => do
    let d ← p.fn f
    if (d.insts? b).isNone then .outOfRange else return arrange p f (d.pushInst b v)
  | setName f v name => do
    let _ ← p.fn f
    p.setName f v name
  | setGlobalName v name => p.setGlobalName v name
  | integer home n => inHome p home (.ok (p.integer home n))
  | zeroInit home ty => inHome p home (.ok (p.zeroInit home ty))
  | undef home ty => inHome p home (.ok (p.undef home ty))
  | aggregate home elems => inHome p home (p.aggregate home elems)
  | globalAlloc init => inHome p none (p.globalAlloc init)
  | alloc f ty => inFn p f (.ok (p.alloc f ty))
  | load f src => inFn p f (p.load f src)
  | store f value dest => inFn p f (p.store f value dest)
  | getPtr f src index => inFn p f (p.getPtr f src index)
  | getElemPtr f src index => inFn p f (p.getElemPtr f src index)
  | binary f op left right => inFn p f (.ok (p.binary f op left right))
  | branch f cond ifTrue ifFalse => inFn p f (.ok (p.branch f cond ifTrue ifFalse))
  | jump f target => inFn p f (.ok (p.jump f target))
  | call f callee args => inFn p f (p.call f callee args)
  | ret f value => inFn p f (.ok (p.ret f (if value = 0 then none else some value)))

/-- The program that a list of edits makes of the empty program. -/
def run (es : List Edit) : Outcome Program := es.foldlM apply {}

end Edit

namespace Program

/-- A program that some edits lead to. -/
def Assembled (p : Program) : Prop := ∃ es, Edit.run es = .ok p

/-- What an edit can do. -/
inductive Edited (p : Program) : Program → Prop
  | same : Edited p p
  | value (x : Value) : Edited p (p.insert x).2
  | named {v : ValueId} {x : Value} (name : String) :
      p.value? v = some x → Edited p (p.rename v name)
  | block (f : FnId) (name : String) : Edited p (p.newBlock f name).2
  | fn {name : String} {ps : List Ty} {r : Ty} {names : List String} {q : FnId × Program} :
      p.newFn name (.func ps r) names = .ok q → Edited p q.2
  | extended {f : FnId} {d : Fn} {b : BlockId} :
      p.fn? f = some d → d.insts? b = none → Edited p (p.setFn f (d.extend b))
  | appended {f : FnId} {d : Fn} {b : BlockId} {is : List ValueId} {v : ValueId} :
      p.fn? f = some d → d.insts? b = some is → v ∉ is → Edited p (p.setFn f (d.append b v))

end Program

namespace Edit

open Program

variable {p p' : Program} {f : FnId} {r : ValueId × Program}

theorem inFn_eq_ok {made : Outcome (ValueId × Program)} (ran : inFn p f made = .ok p') :
    ∃ r, made = .ok r ∧ p' = r.2 := by
  obtain ⟨d, -, ran⟩ := Except.bind_eq_ok.mp ran
  obtain ⟨r, made, ran⟩ := Except.bind_eq_ok.mp ran
  cases ran
  exact ⟨r, made, rfl⟩

theorem inHome_eq_ok {home : Option FnId} {made : Outcome (ValueId × Program)}
    (ran : inHome p home made = .ok p') : ∃ r, made = .ok r ∧ p' = r.2 := by
  cases home with
  | some f => exact inFn_eq_ok ran
  | none =>
    obtain ⟨r, made, ran⟩ := Except.bind_eq_ok.mp ran
    cases ran
    exact ⟨r, made, rfl⟩

/-- A value that is made is inserted. -/
theorem edited_of_inFn {made : Outcome (ValueId × Program)} {d : ValueDef}
    (ran : inFn p f made = .ok p')
    (inserts : ∀ {r}, made = .ok r → ∃ h t n, r = p.insert ⟨h, t, d, n⟩) : p.Edited p' := by
  obtain ⟨r, made, rfl⟩ := inFn_eq_ok ran
  obtain ⟨h, t, n, rfl⟩ := inserts made
  exact .value _

theorem edited_of_inHome {home : Option FnId} {made : Outcome (ValueId × Program)} {d : ValueDef}
    (ran : inHome p home made = .ok p')
    (inserts : ∀ {r}, made = .ok r → ∃ h t n, r = p.insert ⟨h, t, d, n⟩) : p.Edited p' := by
  obtain ⟨r, made, rfl⟩ := inHome_eq_ok ran
  obtain ⟨h, t, n, rfl⟩ := inserts made
  exact .value _

/-- A value that can always be made. -/
theorem inserts_of_eq {x : Value} (made : (.ok (p.insert x) : Outcome _) = .ok r) :
    ∃ h t n, r = p.insert ⟨h, t, x.defn, n⟩ := by
  cases made
  exact ⟨x.home, x.ty, x.name, rfl⟩

theorem edited_of_pushBlock {d : Fn} {b : BlockId} (found : p.fn? f = some d) :
    p.Edited (arrange p f (d.pushBlock b)) := by
  by_cases fresh : d.insts? b = none
  · rw [Fn.pushBlock_eq fresh]
    exact .extended found fresh
  · have taken : d.pushBlock b = .error s!"ir: duplicate key: block {b}" := by
      rw [Fn.pushBlock, if_pos (Option.isSome_iff_ne_none.mpr fresh)]
    rw [taken]
    exact .same

theorem edited_of_pushInst {d : Fn} {b : BlockId} {is : List ValueId} {v : ValueId}
    (found : p.fn? f = some d) (here : d.insts? b = some is) :
    p.Edited (arrange p f (d.pushInst b v)) := by
  by_cases placed : v ∈ is
  · have taken : d.pushInst b v = .error s!"ir: duplicate key: value {v}" := by
      rw [Fn.pushInst, here, if_pos (by simpa using placed)]
    rw [taken]
    exact .same
  · rw [Fn.pushInst_eq here placed]
    exact .appended found here placed

/-- What an edit does if it succeeds. -/
theorem apply_eq_ok {e : Edit} (ran : e.apply p = .ok p') : p.Edited p' := by
  cases e with
  | newFn name ty paramNames =>
    obtain ⟨q, made, ran⟩ := Except.bind_eq_ok.mp ran
    cases ran
    cases ty with
    | func ps ret => exact .fn made
    | i32 | unit | array | pointer => cases made
  | newBlock f name =>
    obtain ⟨r, made, rfl⟩ := inFn_eq_ok ran
    cases made
    exact .block f name
  | pushBlock f b =>
    obtain ⟨d, found, ran⟩ := Except.bind_eq_ok.mp ran
    cases ran
    exact edited_of_pushBlock (fn_eq_ok.mp found)
  | pushInst f b v =>
    obtain ⟨d, found, ran⟩ := Except.bind_eq_ok.mp ran
    cases here : d.insts? b with
    | none =>
      rw [here] at ran
      cases ran
    | some is =>
      rw [here] at ran
      cases ran
      exact edited_of_pushInst (fn_eq_ok.mp found) here
  | setName f v name =>
    obtain ⟨d, -, ran⟩ := Except.bind_eq_ok.mp ran
    obtain ⟨x, found, ran⟩ := Except.bind_eq_ok.mp ran
    cases ran
    exact .named name (value?_of_value found)
  | setGlobalName v name =>
    obtain ⟨x, found, ran⟩ := Except.bind_eq_ok.mp ran
    cases ran
    exact .named name (value?_of_global found)
  | integer | zeroInit | undef => exact edited_of_inHome ran inserts_of_eq
  | aggregate home elems =>
    refine edited_of_inHome (d := .aggregate elems) ran fun made => ?_
    obtain ⟨t, rfl⟩ := aggregate_inserts made
    exact ⟨home, t, "", rfl⟩
  | globalAlloc init =>
    have ran : inHome p none (p.globalAlloc init) = .ok p' := ran
    exact edited_of_inHome ran globalAlloc_inserts
  | load => exact edited_of_inFn ran load_inserts
  | store => exact edited_of_inFn ran store_inserts
  | getPtr => exact edited_of_inFn ran getPtr_inserts
  | getElemPtr => exact edited_of_inFn ran getElemPtr_inserts
  | call => exact edited_of_inFn ran call_inserts
  | alloc | binary | branch | jump | ret => exact edited_of_inFn ran inserts_of_eq

end Edit

namespace Program

/-- What all assembled programs have in common: no function has a block or a parameter twice, no
block has an instruction twice, and parameters belong to their function. -/
structure Arranged (p : Program) : Prop where
  blocks : ∀ {f d}, p.fn? f = some d → d.blocks.Nodup
  insts : ∀ {f d b is}, p.fn? f = some d → d.insts? b = some is → is.Nodup
  distinct : ∀ {f d}, p.fn? f = some d → d.params.Nodup
  params : ∀ {f d v}, p.fn? f = some d → v ∈ d.params → ∃ t x, p.Has v (some f) t x

variable {p p' : Program} {f : FnId} {d : Fn}

theorem arranged_empty : Arranged {} := by
  have none : ∀ {f d}, ({} : Program).fn? f ≠ some d := by
    intro f d found
    have bounds := numbered?_bounds found
    simp at bounds
    omega
  exact ⟨fun found => absurd found none, fun found => absurd found none,
    fun found => absurd found none, fun found => absurd found none⟩

/-- The functions stay as they are. -/
theorem Arranged.grows (arranged : p.Arranged) (grows : p.Grows p')
    (same : ∀ f, p'.fn? f = p.fn? f) : p'.Arranged where
  blocks := fun found => arranged.blocks (by rwa [same] at found)
  insts := fun found => arranged.insts (by rwa [same] at found)
  distinct := fun found => arranged.distinct (by rwa [same] at found)
  params := by
    intro f d v found mem
    rw [same] at found
    obtain ⟨t, x, has⟩ := arranged.params found mem
    exact ⟨t, x, grows.values has⟩

/-- One function is arranged in another way. -/
theorem Arranged.setFn (arranged : p.Arranged) (found : p.fn? f = some d) {e : Fn}
    (params : e.params = d.params) (blocks : e.blocks.Nodup)
    (insts : ∀ {b is}, e.insts? b = some is → is.Nodup) : (p.setFn f e).Arranged := by
  have either : ∀ {g d'}, (p.setFn f e).fn? g = some d' →
      g = f ∧ d' = e ∨ p.fn? g = some d' := by
    intro g d' found'
    rw [fn?_setFn found] at found'
    by_cases same : g = f
    · rw [if_pos same] at found'
      exact .inl ⟨same, (Option.some.inj found').symm⟩
    · rw [if_neg same] at found'
      exact .inr found'
  constructor
  · intro g d' found'
    rcases either found' with ⟨-, rfl⟩ | old
    · exact blocks
    · exact arranged.blocks old
  · intro g d' b is found' here
    rcases either found' with ⟨-, rfl⟩ | old
    · exact insts here
    · exact arranged.insts old here
  · intro g d' found'
    rcases either found' with ⟨-, rfl⟩ | old
    · rw [params]
      exact arranged.distinct found
    · exact arranged.distinct old
  · intro g d' v found' mem
    rcases either found' with ⟨rfl, rfl⟩ | old
    · rw [params] at mem
      exact arranged.params found mem
    · exact arranged.params old mem

theorem Arranged.extend (arranged : p.Arranged) (found : p.fn? f = some d) {b : BlockId}
    (fresh : d.insts? b = none) : (p.setFn f (d.extend b)).Arranged := by
  refine arranged.setFn found rfl ?_ ?_
  · have new : b ∉ d.blocks := by
      intro mem
      rw [← Fn.insts?_isSome, fresh] at mem
      cases mem
    rw [Fn.blocks_extend, List.nodup_append]
    refine ⟨arranged.blocks found, by simp, ?_⟩
    intro c hc e he same
    obtain rfl := List.mem_singleton.mp he
    exact new (same ▸ hc)
  · intro c is here
    rcases Fn.insts?_extend_cases fresh here with ⟨-, rfl⟩ | old
    · exact List.nodup_nil
    · exact arranged.insts found old

theorem Arranged.append (arranged : p.Arranged) (found : p.fn? f = some d) {b : BlockId}
    {is : List ValueId} {v : ValueId} (here : d.insts? b = some is) (fresh : v ∉ is) :
    (p.setFn f (d.append b v)).Arranged := by
  refine arranged.setFn found rfl ?_ ?_
  · rw [Fn.blocks_append]
    exact arranged.blocks found
  · intro c js laid
    rw [Fn.insts?_append] at laid
    by_cases same : c = b
    · rw [if_pos same, here] at laid
      cases laid
      rw [List.nodup_append]
      refine ⟨arranged.insts found here, by simp, ?_⟩
      intro w hw u hu same
      obtain rfl := List.mem_singleton.mp hu
      exact fresh (same ▸ hw)
    · rw [if_neg same] at laid
      exact arranged.insts found laid

/-- The parameters of a function get the next free numbers. -/
theorem insertParams_fst (p : Program) (f : FnId) (index : Nat) (ts : List Ty)
    (names : List String) :
    (p.insertParams f index ts names).1 = List.range' (p.values.size + 1) ts.length := by
  induction ts generalizing p index names with
  | nil => rfl
  | cons t ts ih =>
    rw [insertParams]
    simp [ih, insert, List.range'_succ]

theorem has_insertParams (p : Program) (f : FnId) (index : Nat) (ts : List Ty)
    (names : List String) {v : ValueId} (mem : v ∈ (p.insertParams f index ts names).1) :
    ∃ t x, (p.insertParams f index ts names).2.Has v (some f) t x := by
  induction ts generalizing p index names with
  | nil => cases mem
  | cons t ts ih =>
    rcases List.mem_cons.mp mem with rfl | later
    · exact ⟨_, _, (grows_insertParams _ f (index + 1) ts names.tail).values (has_insert p _)⟩
    · exact ih _ _ _ later

theorem insertParams_fns (p : Program) (f : FnId) (index : Nat) (ts : List Ty)
    (names : List String) : (p.insertParams f index ts names).2.fns = p.fns := by
  induction ts generalizing p index names with
  | nil => rfl
  | cons t ts ih => exact ih _ _ _

theorem Arranged.newFn (arranged : p.Arranged) {name : String} {ps : List Ty} {r : Ty}
    {names : List String} {q : FnId × Program} (made : p.newFn name (.func ps r) names = .ok q) :
    q.2.Arranged := by
  have grows := grows_newFn made
  cases made
  have fns := insertParams_fns p (p.fns.size + 1) 0 ps names
  have numbers := insertParams_fst p (p.fns.size + 1) 0 ps names
  have belong {v} := has_insertParams p (p.fns.size + 1) 0 ps names (v := v)
  generalize p.insertParams (p.fns.size + 1) 0 ps names = added at *
  obtain ⟨vs, p₁⟩ := added
  dsimp only at fns numbers belong grows ⊢
  -- A function is the new one, which has no blocks, or an old one.
  have either : ∀ {g e}, ({ p₁ with fns := p₁.fns.push ⟨name, ps, r, vs, []⟩ } : Program).fn? g =
      some e → g = p.fns.size + 1 ∧ e = ⟨name, ps, r, vs, []⟩ ∨ p.fn? g = some e := by
    intro g e found
    rw [fn?, numbered?_push, fns] at found
    by_cases new : g = p.fns.size + 1
    · rw [if_pos new] at found
      exact .inl ⟨new, (Option.some.inj found).symm⟩
    · rw [if_neg new] at found
      exact .inr found
  constructor
  · intro g e found
    rcases either found with ⟨-, rfl⟩ | old
    · exact List.nodup_nil
    · exact arranged.blocks old
  · intro g e b is found here
    rcases either found with ⟨-, rfl⟩ | old
    · cases here
    · exact arranged.insts old here
  · intro g e found
    rcases either found with ⟨-, rfl⟩ | old
    · rw [numbers]
      exact List.nodup_range'
    · exact arranged.distinct old
  · intro g e v found mem
    rcases either found with ⟨rfl, rfl⟩ | old
    · exact belong mem
    · obtain ⟨t, x, has⟩ := arranged.params old mem
      exact ⟨t, x, grows.values has⟩

/-- An edit leaves a program arranged. -/
theorem Edited.arranged (edited : p.Edited p') (arranged : p.Arranged) : p'.Arranged := by
  cases edited with
  | same => exact arranged
  | value x => exact arranged.grows (grows_insert p x) fun _ => rfl
  | named name found => exact arranged.grows (grows_rename found name) fun _ => rfl
  | block f name => exact arranged.grows (grows_newBlock p f name) fun _ => rfl
  | fn made => exact arranged.newFn made
  | extended found fresh => exact arranged.extend found fresh
  | appended found here fresh => exact arranged.append found here fresh

theorem Assembled.arranged (assembled : p.Assembled) : p.Arranged := by
  obtain ⟨es, ran⟩ := assembled
  have all : ∀ (es : List Edit) {q : Program}, q.Arranged → es.foldlM Edit.apply q = .ok p →
      p.Arranged := by
    intro es
    induction es with
    | nil =>
      intro q arranged ran
      cases ran
      exact arranged
    | cons e es ih =>
      intro q arranged ran
      rw [List.foldlM_cons] at ran
      obtain ⟨q', first, rest⟩ := Except.bind_eq_ok.mp ran
      exact ih ((Edit.apply_eq_ok first).arranged arranged) rest
  exact all es arranged_empty ran

end Program

end SysY.Koopa

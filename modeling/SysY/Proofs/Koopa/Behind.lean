import SysY.Proofs.Const.Expected
import SysY.Proofs.Koopa.Finish
import SysY.Proofs.Koopa.Insert

/-! # A program behind another one

`p.behind base` is `p` with the values and functions of `base` in front of its own. Their numbers
get larger by as many as stand in front, and nothing else changes. So every operation does behind
`base` what it does alone, as long as what it is given has these numbers. Where it fails alone it
fails behind `base`, for the same reason or for internal reasons, which may name numbers. -/

namespace SysY

/-- Failures that are the same, or both are internal. -/
def Failure.Alike (e f : Failure) : Prop := e = f ∨ ¬ e.Expected ∧ ¬ f.Expected

namespace Outcome

variable {α β γ δ : Type} {g : α → β} {h : γ → δ} {o : Outcome α} {o' : Outcome β}

/-- An outcome that follows another one: both are failures, or `g` turns the first result into the
second one. -/
inductive Follows (g : α → β) : Outcome α → Outcome β → Prop
  | ok (a : α) : Follows g (.ok a) (.ok (g a))
  | error {e f : Failure} (alike : e.Alike f) : Follows g (.error e) (.error f)

theorem follows_same (f : Failure) : Follows g (.error f) (.error f) := .error (.inl rfl)

theorem follows_refuse (text text' : String) : Follows g (.refuse text) (.refuse text') :=
  .error (.inr ⟨nofun, nofun⟩)

theorem Follows.bind {k : α → Outcome γ} {k' : β → Outcome δ} (first : Follows g o o')
    (next : ∀ a, o = .ok a → Follows h (k a) (k' (g a))) : Follows h (o >>= k) (o' >>= k') := by
  cases first with
  | ok a => exact next a rfl
  | error alike => exact .error alike

theorem Follows.refl (o : Outcome α) : Follows id o o := by
  cases o with
  | ok a => exact .ok a
  | error f => exact follows_same f

/-- An operation that is repeated over a list. -/
theorem Follows.foldlM {k : α → γ → Outcome α} {k' : β → δ → Outcome β}
    (each : ∀ a c, Follows g (k a c) (k' (g a) (h c))) (cs : List γ) (a : α) :
    Follows g (cs.foldlM k a) ((cs.map h).foldlM k' (g a)) := by
  induction cs generalizing a with
  | nil => exact .ok a
  | cons c cs ih => exact (each a c).bind fun a _ => ih a

end Outcome

namespace Koopa

open Outcome

/-! ## Numbers -/

/-- The number of an entry once `n` others stand in front of it. No entry has number 0. -/
def past (n id : Nat) : Nat := if id = 0 then 0 else id + n

theorem past_succ (n id : Nat) : past n (id + 1) = n + id + 1 := by
  rw [past, if_neg (Nat.succ_ne_zero id)]
  omega

theorem past_injective (n : Nat) : Function.Injective (past n) := by
  intro i j same
  cases i with
  | zero =>
    cases j with
    | zero => rfl
    | succ j =>
      rw [past_succ] at same
      cases same
  | succ i =>
    cases j with
    | zero =>
      rw [past_succ] at same
      cases same
    | succ j =>
      rw [past_succ, past_succ] at same
      omega

namespace Program

theorem numbered?_mem {α : Type} {table : Array α} {id : Nat} {x : α}
    (found : numbered? table id = some x) : x ∈ table := by
  unfold numbered? at found
  split at found
  · cases found
  · exact Array.mem_of_getElem? found

theorem numbered?_front {α : Type} {front : Array α} (back : Array α) {id : Nat} {x : α}
    (found : numbered? front id = some x) : numbered? (front ++ back) id = some x := by
  have inside := (numbered?_bounds found).2
  unfold numbered? at *
  split at found
  · cases found
  · rename_i positive
    rw [if_neg positive, Array.getElem?_append_left (by omega)]
    exact found

theorem numbered?_past {α β : Type} (front : Array α) (back : Array β) (g : β → α) (id : Nat) :
    numbered? (front ++ back.map g) (past front.size id) = (numbered? back id).map g := by
  cases id with
  | zero => rfl
  | succ id =>
    rw [past_succ, numbered?, numbered?, if_neg (Nat.succ_ne_zero _), if_neg (Nat.succ_ne_zero _),
      Nat.add_sub_cancel, Nat.add_sub_cancel, Array.getElem?_append_right (Nat.le_add_right _ _),
      Nat.add_sub_cancel_left, Array.getElem?_map]

/-- The number of a value behind the values of `base`. -/
abbrev pastValue (base : Program) : ValueId → ValueId := past base.values.size

/-- The number of a function behind the functions of `base`. -/
abbrev pastFn (base : Program) : FnId → FnId := past base.fns.size

end Program

/-! ## Tables behind tables -/

/-- What a value is, behind another program. -/
def ValueDef.behind (base : Program) : ValueDef → ValueDef
  | integer n => integer n
  | zeroInit => zeroInit
  | undef => undef
  | aggregate elems => aggregate (elems.map base.pastValue)
  | arg index => arg index
  | alloc => alloc
  | globalAlloc init => globalAlloc (base.pastValue init)
  | load src => load (base.pastValue src)
  | store value dest => store (base.pastValue value) (base.pastValue dest)
  | getPtr src index => getPtr (base.pastValue src) (base.pastValue index)
  | getElemPtr src index => getElemPtr (base.pastValue src) (base.pastValue index)
  | binary op left right => binary op (base.pastValue left) (base.pastValue right)
  | branch cond ifTrue ifFalse => branch (base.pastValue cond) ifTrue ifFalse
  | jump target => jump target
  | call callee args => call (base.pastFn callee) (args.map base.pastValue)
  | ret value => ret (value.map base.pastValue)

theorem ValueDef.isTerminator_behind (base : Program) (x : ValueDef) :
    (x.behind base).isTerminator = x.isTerminator := by
  cases x <;> rfl

/-- A value behind another program. -/
def Value.behind (base : Program) (x : Value) : Value :=
  { home := x.home.map base.pastFn, ty := x.ty, defn := x.defn.behind base, name := x.name }

/-- A block behind another program. -/
def Block.behind (base : Program) (b : Block) : Block := { b with home := base.pastFn b.home }

/-- A function behind another program. -/
def Fn.behind (base : Program) (d : Fn) : Fn :=
  { d with
    params := d.params.map base.pastValue
    layout := d.layout.map fun (b, is) => (b, is.map base.pastValue) }

namespace Fn

variable (base : Program) (d : Fn)

theorem blocks_behind : (d.behind base).blocks = d.blocks := by
  simp [blocks, behind]

theorem insts?_behind (b : BlockId) :
    (d.behind base).insts? b = (d.insts? b).map (·.map base.pastValue) := by
  unfold insts? behind
  induction d.layout with
  | nil => rfl
  | cons entry rest ih =>
    rw [List.map_cons, List.lookup_cons, List.lookup_cons]
    cases b == entry.1 with
    | true => rfl
    | false => exact ih

theorem pushBlock_behind (b : BlockId) :
    (d.behind base).pushBlock b = (d.pushBlock b).map (·.behind base) := by
  unfold pushBlock
  rw [insts?_behind, Option.isSome_map]
  split
  · rfl
  · simp [behind, pure, Except.pure, Except.map]

/-- An instruction is appended behind another program when it is appended alone. -/
theorem pushInst_behind (b : BlockId) (v : ValueId) :
    (∃ e, d.pushInst b v = .ok e ∧
      (d.behind base).pushInst b (base.pastValue v) = .ok (e.behind base)) ∨
    ∃ t t', d.pushInst b v = .error t ∧
      (d.behind base).pushInst b (base.pastValue v) = .error t' := by
  have same : (((d.behind base).insts? b).getD []).contains (base.pastValue v) =
      ((d.insts? b).getD []).contains v := by
    rw [insts?_behind, Bool.eq_iff_iff, List.contains_iff_mem, List.contains_iff_mem]
    cases d.insts? b with
    | none => simp
    | some is => exact List.mem_map_of_injective (past_injective _)
  unfold pushInst
  rw [same]
  split
  · exact .inr ⟨_, _, rfl, rfl⟩
  · refine .inl ⟨_, rfl, congrArg Except.ok ?_⟩
    simp only [behind, Fn.mk.injEq, List.map_map, List.map_inj_left, Function.comp_apply]
    refine ⟨trivial, trivial, trivial, trivial, fun entry _ => ?_⟩
    by_cases here : entry.1 = b <;> simp [here]

end Fn

namespace Program

/-- The names of the functions of a program. -/
def fnNames (p : Program) : List String := p.fns.toList.map (·.name)

/-- A program that holds nothing but declarations of functions. -/
structure Declares (p : Program) : Prop where
  bodiless : ∀ d ∈ p.fns, d.layout = []
  inner : ∀ x ∈ p.values, x.home.isSome
  heads : ∀ name ∈ p.fnNames, name.toList.head? = some '@'
  plain : ∀ name ∈ p.fnNames, '_' ∉ name.toList

/-- All names of functions start with an at sign. -/
theorem Declares.fresh_of_head {p : Program} (declares : p.Declares) {name : String}
    (other : name.toList.head? ≠ some '@') : name ∉ p.fnNames :=
  fun mem => other (declares.heads name mem)

theorem Declares.nameless {p : Program} (declares : p.Declares) : "" ∉ p.fnNames :=
  declares.fresh_of_head nofun

/-- A program with the values and functions of another one in front. -/
def behind (p base : Program) : Program where
  values := base.values ++ p.values.map (·.behind base)
  blocks := p.blocks.map (·.behind base)
  fns := base.fns ++ p.fns.map (·.behind base)

variable (p base : Program) (f : FnId) (v : ValueId) (b : BlockId)

/-! ## Looking up -/

theorem value?_behind :
    (p.behind base).value? (base.pastValue v) = (p.value? v).map (·.behind base) :=
  numbered?_past base.values p.values (·.behind base) v

theorem fn?_behind : (p.behind base).fn? (base.pastFn f) = (p.fn? f).map (·.behind base) :=
  numbered?_past base.fns p.fns (·.behind base) f

/-- The functions in front keep their numbers. -/
theorem fn?_front {f : FnId} {d : Fn} (found : base.fn? f = some d) :
    (p.behind base).fn? f = some d := numbered?_front _ found

theorem global?_behind :
    (p.behind base).global? (base.pastValue v) = (p.global? v).map (·.behind base) := by
  rw [global?, global?, value?_behind, Option.filter_map]
  congr 2
  exact funext fun x => Option.isNone_map ..

theorem local?_behind :
    (p.behind base).local? (base.pastFn f) (base.pastValue v) =
      (p.local? f v).map (·.behind base) := by
  rw [local?, local?, value?_behind, Option.filter_map]
  congr 2
  funext x
  cases home : x.home with
  | none => simp [Value.behind, home]
  | some g => simp [Value.behind, home, (past_injective _).eq_iff]

theorem block?_behind :
    (p.behind base).block? (base.pastFn f) b = (p.block? f b).map (·.behind base) := by
  have entry : numbered? (p.behind base).blocks b = (numbered? p.blocks b).map (·.behind base) := by
    unfold numbered? behind
    split
    · rfl
    · exact Array.getElem?_map ..
  rw [block?, block?, entry, Option.filter_map]
  congr 2
  funext x
  simp [Block.behind, (past_injective _).eq_iff]

theorem fn_follows : Follows (·.behind base) (p.fn f) ((p.behind base).fn (base.pastFn f)) := by
  have found := fn?_behind p base f
  unfold fn? at found
  rw [fn, fn, found]
  cases numbered? p.fns f with
  | none => exact follows_refuse _ _
  | some d => exact .ok d

theorem global_follows :
    Follows (·.behind base) (p.global v) ((p.behind base).global (base.pastValue v)) := by
  rw [global, global, global?_behind]
  cases p.global? v with
  | none => exact follows_refuse _ _
  | some x => exact .ok x

theorem value_follows : Follows (·.behind base) (p.value f v)
    ((p.behind base).value (base.pastFn f) (base.pastValue v)) := by
  rw [value, value, global?_behind, local?_behind, ← Option.map_or]
  cases (p.local? f v).or (p.global? v) with
  | none => exact follows_refuse _ _
  | some x => exact .ok x

theorem block_follows :
    Follows (·.behind base) (p.block f b) ((p.behind base).block (base.pastFn f) b) := by
  rw [block, block, block?_behind]
  cases p.block? f b with
  | none => exact follows_refuse _ _
  | some x => exact .ok x

theorem visible_follows (home : Option FnId) : Follows (·.behind base) (p.visible home v)
    ((p.behind base).visible (home.map base.pastFn) (base.pastValue v)) := by
  cases home with
  | none => exact global_follows p base v
  | some f => exact value_follows p base f v

theorem isGlobalVariable_behind (x : Value) :
    isGlobalVariable (x.behind base) = isGlobalVariable x := by
  unfold isGlobalVariable Value.behind
  cases x.home with
  | some f => rfl
  | none => cases x.defn <;> rfl

/-- Declarations make no global variables. -/
theorem globals_behind (declares : base.Declares) :
    (p.behind base).globals = p.globals.map base.pastValue := by
  have front : ((List.range base.values.size).map (· + 1)).filter
      (fun v => ((p.behind base).value? v).any isGlobalVariable) = [] := by
    refine List.filter_eq_nil_iff.mpr fun v mem => ?_
    obtain ⟨i, small, rfl⟩ := List.mem_map.mp mem
    have inside := List.mem_range.mp small
    have found : numbered? base.values (i + 1) = some base.values[i] := by
      simp [numbered?, inside]
    obtain ⟨f, home⟩ := Option.isSome_iff_exists.mp
      (declares.inner base.values[i] (Array.getElem_mem inside))
    rw [value?, show numbered? (p.behind base).values (i + 1) = some base.values[i] from
      numbered?_front _ found]
    simp [isGlobalVariable, home]
  have back : (List.range p.values.size).map ((· + 1) ∘ (base.values.size + ·)) =
      ((List.range p.values.size).map (· + 1)).map base.pastValue := by
    rw [List.map_map]
    exact List.map_congr_left fun v _ => (past_succ ..).symm
  have size : (p.behind base).values.size = base.values.size + p.values.size := by
    simp [behind]
  rw [globals, size, List.range_add, List.map_append, List.filter_append, front, List.nil_append,
    List.map_map, back, List.filter_map, globals]
  refine congrArg _ (List.filter_congr fun v _ => ?_)
  rw [Function.comp_apply, value?_behind, Option.any_map]
  exact congrArg (Option.any · (p.value? v)) (funext (isGlobalVariable_behind base))

theorem fnIds_behind : (p.behind base).fnIds = base.fnIds ++ p.fnIds.map base.pastFn := by
  simp only [fnIds, behind, Array.size_append, Array.size_map, List.range_add, List.map_append,
    List.map_map]
  congr 1
  exact List.map_congr_left fun f _ => (past_succ ..).symm

/-! ## Making values -/

/-- A value without a name is made, and the same value is made behind `base`. -/
inductive Mirrors : Outcome (ValueId × Program) → Outcome (ValueId × Program) → Prop
  | ok (x : Value) (nameless : x.name = "") :
    Mirrors (.ok (p.insert x)) (.ok ((p.behind base).insert (x.behind base)))
  | error {e f : Failure} (alike : e.Alike f) : Mirrors (.error e) (.error f)

theorem Mirrors.of_bind {p base : Program} {α β : Type} {g : α → β} {o : Outcome α} {o' : Outcome β}
    {k : α → Outcome (ValueId × Program)} {k' : β → Outcome (ValueId × Program)}
    (first : Follows g o o') (next : ∀ a, p.Mirrors base (k a) (k' (g a))) :
    p.Mirrors base (o >>= k) (o' >>= k') := by
  cases first with
  | ok a => exact next a
  | error alike => exact .error alike

theorem Mirrors.refuse {p base : Program} (text text' : String) :
    p.Mirrors base (.refuse text) (.refuse text') := .error (.inr ⟨nofun, nofun⟩)

theorem load_mirrors :
    p.Mirrors base (p.load f v) ((p.behind base).load (base.pastFn f) (base.pastValue v)) :=
  .of_bind (value_follows p base f v) fun x => by
    rw [Value.behind]
    cases x.ty with
    | pointer t => exact .ok ⟨some f, t, .load v, ""⟩ rfl
    | _ => exact .refuse _ _

theorem store_mirrors (dest : ValueId) : p.Mirrors base (p.store f v dest)
    ((p.behind base).store (base.pastFn f) (base.pastValue v) (base.pastValue dest)) :=
  .of_bind (value_follows p base f dest) fun x => by
    rw [Value.behind]
    cases x.ty with
    | pointer t => exact .ok ⟨some f, .unit, .store v dest, ""⟩ rfl
    | _ => exact .refuse _ _

theorem getPtr_mirrors (index : ValueId) : p.Mirrors base (p.getPtr f v index)
    ((p.behind base).getPtr (base.pastFn f) (base.pastValue v) (base.pastValue index)) :=
  .of_bind (value_follows p base f v) fun x => by
    rw [Value.behind]
    cases x.ty with
    | pointer t => exact .ok ⟨some f, .pointer t, .getPtr v index, ""⟩ rfl
    | _ => exact .refuse _ _

theorem getElemPtr_mirrors (index : ValueId) : p.Mirrors base (p.getElemPtr f v index)
    ((p.behind base).getElemPtr (base.pastFn f) (base.pastValue v) (base.pastValue index)) :=
  .of_bind (value_follows p base f v) fun x => by
    rw [Value.behind]
    cases x.ty with
    | pointer t =>
      cases t with
      | array t n => exact .ok ⟨some f, .pointer t, .getElemPtr v index, ""⟩ rfl
      | _ => exact .refuse _ _
    | _ => exact .refuse _ _

theorem call_mirrors (callee : FnId) (args : List ValueId) : p.Mirrors base (p.call f callee args)
    ((p.behind base).call (base.pastFn f) (base.pastFn callee) (args.map base.pastValue)) :=
  .of_bind (fn_follows p base callee) fun d => .ok ⟨some f, d.ret, .call callee args, ""⟩ rfl

theorem globalAlloc_mirrors (init : ValueId) :
    p.Mirrors base (p.globalAlloc init) ((p.behind base).globalAlloc (base.pastValue init)) :=
  .of_bind (global_follows p base init) fun x =>
    .ok ⟨none, .pointer x.ty, .globalAlloc init, ""⟩ rfl

theorem checkElems_follows (home : Option FnId) (t : Ty) (vs : List ValueId) :
    Follows id (p.checkElems home t vs)
      ((p.behind base).checkElems (home.map base.pastFn) t (vs.map base.pastValue)) := by
  induction vs with
  | nil => exact .ok ()
  | cons v vs ih =>
    refine (visible_follows p base v home).bind fun x _ => ?_
    rw [show (x.behind base).ty = x.ty from rfl]
    split
    · exact ih
    · exact follows_refuse _ _

theorem aggregate_mirrors (home : Option FnId) (elems : List ValueId) :
    p.Mirrors base (p.aggregate home elems)
      ((p.behind base).aggregate (home.map base.pastFn) (elems.map base.pastValue)) := by
  cases elems with
  | nil => exact .refuse _ _
  | cons v vs =>
    refine .of_bind (visible_follows p base v home) fun x => ?_
    refine .of_bind (checkElems_follows p base home x.ty vs) fun _ => ?_
    rw [List.length_map]
    exact .ok ⟨home, .array x.ty (v :: vs).length, .aggregate (v :: vs), ""⟩ rfl

/-! ## Changing -/

theorem insert_behind (x : Value) : (p.behind base).insert (x.behind base) =
    (base.pastValue (p.insert x).1, (p.insert x).2.behind base) := by
  simp only [insert, behind, Array.size_append, Array.size_map, past_succ, Array.map_push,
    Array.push_append]

theorem newBlock_behind (name : String) : (p.behind base).newBlock (base.pastFn f) name =
    ((p.newBlock f name).1, (p.newBlock f name).2.behind base) := by
  simp only [newBlock, behind, Array.size_map, Array.map_push, Block.behind]

theorem setFn_behind {p base : Program} {f : FnId} {d : Fn} (found : p.fn? f = some d) (e : Fn) :
    (p.behind base).setFn (base.pastFn f) (e.behind base) = (p.setFn f e).behind base := by
  obtain ⟨i, rfl⟩ := Nat.exists_eq_succ_of_ne_zero (numbered?_bounds found).1.ne'
  simp only [setFn, behind, past_succ, Nat.add_sub_cancel, Array.map_setIfInBounds,
    Array.setIfInBounds_append_right (Nat.le_add_right _ _), Nat.add_sub_cancel_left,
    Nat.succ_eq_add_one]

theorem rename_behind {p base : Program} {v : ValueId} {x : Value} (found : p.value? v = some x)
    (name : String) :
    (p.behind base).rename (base.pastValue v) name = (p.rename v name).behind base := by
  obtain ⟨i, rfl⟩ := Nat.exists_eq_succ_of_ne_zero (numbered?_bounds found).1.ne'
  simp only [rename, behind, past_succ, Nat.add_sub_cancel, Nat.succ_eq_add_one]
  congr 1
  apply Array.ext_getElem?
  intro j
  rw [Array.getElem?_modify]
  by_cases front : j < base.values.size
  · rw [if_neg (by omega), Array.getElem?_append_left front, Array.getElem?_append_left front]
  · obtain ⟨k, rfl⟩ := Nat.exists_eq_add_of_le (Nat.not_lt.mp front)
    rw [Array.getElem?_append_right (Nat.le_add_right _ _),
      Array.getElem?_append_right (Nat.le_add_right _ _), Nat.add_sub_cancel_left,
      Array.getElem?_map, Array.getElem?_map, Array.getElem?_modify]
    by_cases here : i = k
    · rw [if_pos (congrArg _ here), if_pos here, Option.map_map, Option.map_map]
      rfl
    · rw [if_neg (by omega), if_neg here]

theorem setName_follows (name : String) : Follows (·.behind base) (p.setName f v name)
    ((p.behind base).setName (base.pastFn f) (base.pastValue v) name) :=
  (value_follows p base f v).bind fun x found => by
    rw [rename_behind (value?_of_value found)]
    exact .ok (p.rename v name)

theorem setGlobalName_follows (name : String) : Follows (·.behind base) (p.setGlobalName v name)
    ((p.behind base).setGlobalName (base.pastValue v) name) :=
  (global_follows p base v).bind fun x found => by
    rw [rename_behind (value?_of_global found)]
    exact .ok (p.rename v name)

theorem insertParams_behind (index : Nat) (ts : List Ty) (names : List String) :
    (p.behind base).insertParams (base.pastFn f) index ts names =
      ((p.insertParams f index ts names).1.map base.pastValue,
        (p.insertParams f index ts names).2.behind base) := by
  induction ts generalizing p index names with
  | nil => rfl
  | cons t ts ih =>
    let x : Value := ⟨some f, t, .arg index, names.head?.getD ""⟩
    rw [insertParams, insertParams, show (Value.mk (some (base.pastFn f)) t (.arg index)
      (names.head?.getD "")) = x.behind base from rfl, insert_behind p base x]
    dsimp only
    rw [ih (p.insert x).2]
    rfl

theorem newFn_follows (name : String) (ty : Ty) (names : List String) :
    Follows (fun r => (base.pastFn r.1, r.2.behind base)) (p.newFn name ty names)
      ((p.behind base).newFn name ty names) := by
  cases ty with
  | func ps r =>
    have size : (p.behind base).fns.size + 1 = base.pastFn (p.fns.size + 1) := by
      simp [behind, past_succ]
    have made := insertParams_behind p base (p.fns.size + 1) 0 ps names
    rw [newFn, newFn, size, made]
    have pushed : (((p.insertParams (p.fns.size + 1) 0 ps names).2.behind base).fns.push
        { name := name, paramTys := ps, ret := r,
          params := (p.insertParams (p.fns.size + 1) 0 ps names).1.map base.pastValue }) =
        base.fns ++ ((p.insertParams (p.fns.size + 1) 0 ps names).2.fns.push
          { name := name, paramTys := ps, ret := r,
            params := (p.insertParams (p.fns.size + 1) 0 ps names).1 }).map (·.behind base) := by
      simp [behind, Fn.behind]
    dsimp only
    rw [pushed]
    exact .ok (p.fns.size + 1, _)
  | _ => exact follows_refuse _ _

/-! ## Missing returns -/

theorem returning_follows {p base : Program} {f : FnId} {d : Fn} (found : p.fn? f = some d)
    (b : BlockId) (value : Option ValueId) : Follows (·.behind base) (p.returning f d b value)
      ((p.behind base).returning (base.pastFn f) (d.behind base) b
        (value.map base.pastValue)) := by
  have made : (p.behind base).ret (base.pastFn f) (value.map base.pastValue) =
      (base.pastValue (p.ret f value).1, (p.ret f value).2.behind base) :=
    insert_behind p base ⟨some f, .unit, .ret value, ""⟩
  have found : (p.ret f value).2.fn? f = some d := found
  rw [returning, returning, made]
  dsimp only
  rcases d.pushInst_behind base b (p.ret f value).1 with ⟨e, pushed, pushed'⟩ | ⟨t, t', no, no'⟩
  · rw [pushed, pushed']
    dsimp only
    rw [setFn_behind found]
    exact .ok _
  · rw [no, no']
    exact .error (.inr ⟨fun expected => expected rfl, fun expected => expected rfl⟩)

theorem addReturn_follows {p base : Program} {f : FnId} {d : Fn} (found : p.fn? f = some d)
    (b : BlockId) : Follows (·.behind base) (p.addReturn f d b)
      ((p.behind base).addReturn (base.pastFn f) (d.behind base) b) := by
  rw [addReturn_eq, addReturn_eq, show (d.behind base).ret = d.ret from rfl]
  by_cases unit : d.ret = .unit
  · rw [if_pos unit, if_pos unit]
    exact returning_follows found b none
  · rw [if_neg unit, if_neg unit]
    -- The zero that is returned is a new value, too.
    have made : (p.behind base).integer (some (base.pastFn f)) 0 =
        (base.pastValue (p.integer (some f) 0).1, (p.integer (some f) 0).2.behind base) :=
      insert_behind p base ⟨some f, .i32, .integer 0, ""⟩
    have found : (p.integer (some f) 0).2.fn? f = some d := found
    rw [made]
    exact returning_follows found b (some (p.integer (some f) 0).1)

theorem closeBlock_follows : Follows (·.behind base) (p.closeBlock f b)
    ((p.behind base).closeBlock (base.pastFn f) b) := by
  rw [closeBlock_eq, closeBlock_eq]
  refine (fn_follows p base f).bind fun d found => ?_
  have returned : Follows (·.behind base) (p.addReturn f d b) _ :=
    addReturn_follows (fn_eq_ok.mp found) b
  rw [Fn.insts?_behind, show ((d.insts? b).map (·.map base.pastValue)).getD [] =
    ((d.insts? b).getD []).map base.pastValue by cases d.insts? b <;> rfl, List.getLast?_map]
  cases ((d.insts? b).getD []).getLast? with
  | none => exact returned
  | some v =>
    refine (value_follows p base f v).bind fun x _ => ?_
    rw [Value.behind, ValueDef.isTerminator_behind]
    split
    · exact .ok p
    · exact returned

/-- A program of declarations has no blocks to close. -/
theorem closeBlocks_follows (declares : base.Declares) :
    Follows (·.behind base) p.closeBlocks (p.behind base).closeBlocks := by
  have close (q : Program) (f : FnId) : Follows (·.behind base)
      (do (← q.fn f).blocks.foldlM (fun q b => q.closeBlock f b) q)
      (do ((← (q.behind base).fn (base.pastFn f)).blocks.foldlM
        (fun q b => q.closeBlock (base.pastFn f) b) (q.behind base))) :=
    (fn_follows q base f).bind fun d _ => by
      have closed : Follows (·.behind base) (d.blocks.foldlM (fun q b => q.closeBlock f b) q)
          ((d.blocks.map id).foldlM (fun q b => q.closeBlock (base.pastFn f) b) (q.behind base)) :=
        .foldlM (fun q b => closeBlock_follows q base f b) d.blocks q
      rw [Fn.blocks_behind]
      rwa [List.map_id] at closed
  have bodiless {f : FnId} {d : Fn} (found : base.fn? f = some d) : d.layout = [] :=
    declares.bodiless d (numbered?_mem found)
  have front (fs : List FnId) (known : ∀ f ∈ fs, ∃ d, base.fn? f = some d) :
      fs.foldlM (fun q f => do (← q.fn f).blocks.foldlM (fun q b => q.closeBlock f b) q)
        (p.behind base) = .ok (p.behind base) := by
    induction fs with
    | nil => rfl
    | cons f fs ih =>
      obtain ⟨⟨d, found⟩, more⟩ := List.forall_mem_cons.mp known
      rw [List.foldlM_cons, fn_eq_ok.mpr (fn?_front p base found), ok_bind, Fn.blocks,
        bodiless found]
      exact ih more
  unfold closeBlocks
  rw [fnIds_behind, List.foldlM_append, front base.fnIds fun _ => mem_fnIds.mp, ok_bind]
  exact .foldlM close p.fnIds p

/-! ## Names that do not occur -/

/-- A program in which no value or block wants one of some names. -/
structure Avoids (names : List String) (p : Program) : Prop where
  values : ∀ x ∈ p.values, x.name ∉ names
  blocks : ∀ b ∈ p.blocks, b.name ∉ names

variable {names : List String} {p : Program}

theorem Avoids.insert (avoids : p.Avoids names) {x : Value} (fresh : x.name ∉ names) :
    (p.insert x).2.Avoids names where
  values := fun y mem => by
    rcases Array.mem_push.mp mem with old | rfl
    · exact avoids.values y old
    · exact fresh
  blocks := avoids.blocks

theorem Avoids.rename (avoids : p.Avoids names) (v : ValueId) {name : String}
    (fresh : name ∉ names) : (p.rename v name).Avoids names where
  values := fun y mem => by
    obtain ⟨i, inside, rfl⟩ := Array.getElem_of_mem mem
    simp only [Program.rename, Array.getElem_modify]
    split
    · exact fresh
    · exact avoids.values _ (Array.getElem_mem _)
  blocks := avoids.blocks

theorem Avoids.setFn (avoids : p.Avoids names) (f : FnId) (d : Fn) : (p.setFn f d).Avoids names :=
  ⟨avoids.values, avoids.blocks⟩

theorem Avoids.newBlock (avoids : p.Avoids names) (f : FnId) {name : String}
    (fresh : name ∉ names) : (p.newBlock f name).2.Avoids names where
  values := avoids.values
  blocks := fun b mem => by
    rcases Array.mem_push.mp mem with old | rfl
    · exact avoids.blocks b old
    · exact fresh

theorem Avoids.insertParams (avoids : p.Avoids names) (nameless : "" ∉ names) (f : FnId)
    (index : Nat) (ts : List Ty) {ns : List String} (fresh : ∀ n ∈ ns, n ∉ names) :
    (p.insertParams f index ts ns).2.Avoids names := by
  induction ts generalizing p index ns with
  | nil => exact avoids
  | cons t ts ih =>
    refine ih (avoids.insert ?_) _ fun n mem => fresh n (List.mem_of_mem_tail mem)
    cases ns with
    | nil => exact nameless
    | cons n ns => exact fresh n List.mem_cons_self

theorem avoids_closable (nameless : "" ∉ names) :
    Closable fun p q => p.Avoids names → q.Avoids names where
  refl := fun _ => id
  trans := fun first rest avoids => rest (first avoids)
  integer := fun _ _ _ avoids => avoids.insert nameless
  ret := fun _ _ _ avoids => avoids.insert nameless
  push := fun _ _ avoids => avoids.setFn _ _

end Program
end Koopa
end SysY

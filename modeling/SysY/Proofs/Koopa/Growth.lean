import SysY.Koopa.Program

/-! # Growing programs

Building a program only adds to it: values, blocks and functions keep their numbers, a block keeps
the instructions it has and gets new ones at its end, and only the names of values are ever
replaced. `Program.Grows` says so, and `Program.Has` is what is known of a value for good: where it
belongs, its type and its definition, but not its name. -/

namespace SysY.Koopa

/-! ## The layout of a function -/

namespace Fn

/-- A function with an instruction at the end of a block. -/
def append (d : Fn) (b : BlockId) (v : ValueId) : Fn :=
  { d with layout := d.layout.map fun (c, is) => if c = b then (c, is ++ [v]) else (c, is) }

/-- A function with a new block at its end. -/
def extend (d : Fn) (b : BlockId) : Fn := { d with layout := d.layout ++ [(b, [])] }

theorem pushInst_eq {d : Fn} {b : BlockId} {is : List ValueId} {v : ValueId}
    (found : d.insts? b = some is) (fresh : v ∉ is) : d.pushInst b v = .ok (d.append b v) := by
  simp [pushInst, found, fresh, append, pure, Except.pure]

theorem pushBlock_eq {d : Fn} {b : BlockId} (fresh : d.insts? b = none) :
    d.pushBlock b = .ok (d.extend b) := by
  simp [pushBlock, fresh, extend, pure, Except.pure]

/-- The number of a block is laid out exactly when the block has a list of instructions. -/
theorem insts?_isSome {d : Fn} {b : BlockId} : (d.insts? b).isSome ↔ b ∈ d.blocks := by
  simp [insts?, blocks, List.lookup_isSome_iff]

theorem mem_blocks_of_insts? {d : Fn} {b : BlockId} {is : List ValueId}
    (found : d.insts? b = some is) : b ∈ d.blocks := by
  rw [← insts?_isSome, found]
  rfl

theorem insts?_append (d : Fn) (b c : BlockId) (v : ValueId) :
    (d.append b v).insts? c = if c = b then (d.insts? b).map (· ++ [v]) else d.insts? c := by
  simp only [insts?, append]
  induction d.layout with
  | nil => simp
  | cons entry rest ih =>
    obtain ⟨e, is⟩ := entry
    have key : (if e = b then (e, is ++ [v]) else (e, is)) = (e, if e = b then is ++ [v] else is) := by
      split <;> rfl
    simp only [List.map_cons, key, List.lookup_cons]
    cases hce : c == e with
    | false =>
      cases hbe : b == e with
      | false => simpa using ih
      | true =>
        have other : c ≠ b := by
          rintro rfl
          rw [hce] at hbe
          cases hbe
        simpa [other] using ih
    | true =>
      obtain rfl := eq_of_beq hce
      by_cases hcb : c = b
      · subst hcb; simp
      · simp [hcb]

theorem blocks_append (d : Fn) (b : BlockId) (v : ValueId) : (d.append b v).blocks = d.blocks := by
  simp only [blocks, append, List.map_map]
  apply List.map_congr_left
  rintro ⟨c, is⟩ _
  by_cases h : c = b <;> simp [h]

theorem insts?_extend (d : Fn) (b c : BlockId) (fresh : d.insts? b = none) :
    (d.extend b).insts? c = if c = b then some [] else d.insts? c := by
  simp only [insts?, extend, List.lookup_append] at fresh ⊢
  by_cases h : c = b
  · subst h; simp [fresh]
  · have other : (c == b) = false := by simpa using h
    simp [h, List.lookup_cons, other]

/-- A new block is empty. -/
theorem insts?_extend_self (d : Fn) {b : BlockId} (fresh : d.insts? b = none) :
    (d.extend b).insts? b = some [] :=
  (insts?_extend d b b fresh).trans (if_pos rfl)

/-- The blocks that were there stay as they were. -/
theorem insts?_extend_old {d : Fn} {b c : BlockId} {is : List ValueId} (fresh : d.insts? b = none)
    (here : d.insts? c = some is) : (d.extend b).insts? c = some is := by
  rw [insts?_extend d b c fresh, if_neg]
  · exact here
  · rintro rfl
    rw [fresh] at here
    cases here

/-- A block of a function that got a block is the new one or was there. -/
theorem insts?_extend_cases {d : Fn} {b c : BlockId} {is : List ValueId} (fresh : d.insts? b = none)
    (here : (d.extend b).insts? c = some is) : (c = b ∧ is = []) ∨ d.insts? c = some is := by
  rw [insts?_extend d b c fresh] at here
  split at here
  · cases here
    exact .inl ⟨‹_›, rfl⟩
  · exact .inr here

theorem blocks_extend (d : Fn) (b : BlockId) : (d.extend b).blocks = d.blocks ++ [b] := by
  simp [blocks, extend]

/-- A later state of a function: its head is the same, and blocks and their instructions were only
added at the ends. -/
structure Grows (d d' : Fn) : Prop where
  name : d'.name = d.name
  paramTys : d'.paramTys = d.paramTys
  ret : d'.ret = d.ret
  params : d'.params = d.params
  blocks : d.blocks <+: d'.blocks
  insts : ∀ {b is}, d.insts? b = some is → ∃ more, d'.insts? b = some (is ++ more)

theorem Grows.refl (d : Fn) : d.Grows d :=
  ⟨rfl, rfl, rfl, rfl, List.prefix_rfl, fun {_ is} h => ⟨[], by simpa using h⟩⟩

theorem Grows.trans {d₁ d₂ d₃ : Fn} (h : d₁.Grows d₂) (h' : d₂.Grows d₃) : d₁.Grows d₃ where
  name := h'.name.trans h.name
  paramTys := h'.paramTys.trans h.paramTys
  ret := h'.ret.trans h.ret
  params := h'.params.trans h.params
  blocks := h.blocks.trans h'.blocks
  insts := fun found => by
    obtain ⟨more, found⟩ := h.insts found
    obtain ⟨rest, found⟩ := h'.insts found
    exact ⟨more ++ rest, by simpa using found⟩

theorem grows_append (d : Fn) (b : BlockId) (v : ValueId) : d.Grows (d.append b v) := by
  refine ⟨rfl, rfl, rfl, rfl, (blocks_append d b v).symm ▸ List.prefix_rfl, ?_⟩
  intro c is found
  rw [insts?_append]
  by_cases h : c = b
  · subst h; exact ⟨[v], by simp [found]⟩
  · exact ⟨[], by simpa [h] using found⟩

theorem grows_extend (d : Fn) (b : BlockId) (fresh : d.insts? b = none) :
    d.Grows (d.extend b) := by
  refine ⟨rfl, rfl, rfl, rfl, by rw [blocks_extend]; exact List.prefix_append _ _, ?_⟩
  intro c is found
  exact ⟨[], by simpa using insts?_extend_old fresh found⟩

theorem Grows.mem_blocks {d d' : Fn} (h : d.Grows d') {b : BlockId} (mem : b ∈ d.blocks) :
    b ∈ d'.blocks := h.blocks.subset mem

/-- The entry block of a function stays its entry block. -/
theorem Grows.entry {d d' : Fn} (h : d.Grows d') {b : BlockId} (entry : d.blocks.head? = some b) :
    d'.blocks.head? = some b := by
  obtain ⟨more, hmore⟩ := h.blocks
  rw [← hmore, List.head?_append, entry]
  rfl

end Fn

namespace Program

/-! ## Entries of tables -/

theorem numbered?_push {α : Type} (table : Array α) (x : α) (id : Nat) :
    numbered? (table.push x) id = if id = table.size + 1 then some x else numbered? table id := by
  unfold numbered?
  by_cases zero : id = 0
  · subst zero; simp
  · rw [if_neg zero, if_neg zero, Array.getElem?_push]
    by_cases last : id = table.size + 1
    · subst last; simp
    · rw [if_neg last, if_neg (by omega)]

theorem numbered?_bounds {α : Type} {table : Array α} {id : Nat} {x : α}
    (found : numbered? table id = some x) : 0 < id ∧ id ≤ table.size := by
  unfold numbered? at found
  split at found
  · cases found
  · have := (Array.getElem?_eq_some_iff.mp found).1
    omega

/-- The function with a number, if it exists. -/
def fn? (p : Program) (f : FnId) : Option Fn := numbered? p.fns f

theorem fn_eq_ok {p : Program} {f : FnId} {d : Fn} : p.fn f = .ok d ↔ p.fn? f = some d := by
  unfold fn fn?
  cases numbered? p.fns f with
  | none => simp [Outcome.refuse]
  | some e => simp [pure, Except.pure]

/-- What stays known of a value. -/
def Has (p : Program) (v : ValueId) (home : Option FnId) (ty : Ty) (d : ValueDef) : Prop :=
  ∃ name, p.value? v = some { home := home, ty := ty, defn := d, name := name }

theorem has_of_value? {p : Program} {v : ValueId} {x : Value} (found : p.value? v = some x) :
    p.Has v x.home x.ty x.defn := ⟨x.name, found⟩

/-- A value has one home, one type and one definition. -/
theorem Has.unique {p : Program} {v : ValueId} {h h' : Option FnId} {t t' : Ty}
    {d d' : ValueDef} (has : p.Has v h t d) (has' : p.Has v h' t' d') :
    h = h' ∧ t = t' ∧ d = d' := by
  obtain ⟨n, found⟩ := has
  obtain ⟨n', found'⟩ := has'
  rw [found] at found'
  cases found'
  exact ⟨rfl, rfl, rfl⟩

theorem Has.le_size {p : Program} {v : ValueId} {h : Option FnId} {t : Ty} {d : ValueDef}
    (has : p.Has v h t d) : 0 < v ∧ v ≤ p.values.size := by
  obtain ⟨n, found⟩ := has
  exact numbered?_bounds found

/-- A value that `home` can see: one of its own, or a global one. -/
def Sees (p : Program) (home : Option FnId) (v : ValueId) (ty : Ty) : Prop :=
  ∃ h d, p.Has v h ty d ∧ (h = home ∨ h = none)

theorem Sees.unique {p : Program} {home : Option FnId} {v : ValueId} {t t' : Ty}
    (sees : p.Sees home v t) (sees' : p.Sees home v t') : t = t' := by
  obtain ⟨h, d, has, _⟩ := sees
  obtain ⟨h', d', has', _⟩ := sees'
  exact (has.unique has').2.1

/-- Looking up a value that a function can see succeeds. -/
theorem value_eq_ok {p : Program} {f : FnId} {v : ValueId} {ty : Ty}
    (sees : p.Sees (some f) v ty) : ∃ x, p.value f v = .ok x ∧ x.ty = ty ∧ p.value? v = some x := by
  obtain ⟨h, d, ⟨n, found⟩, home | home⟩ := sees
  · subst home
    refine ⟨_, ?_, rfl, found⟩
    simp [value, local?, found, Option.filter, pure, Except.pure]
  · subst home
    refine ⟨_, ?_, rfl, found⟩
    simp [value, local?, global?, found, Option.filter, pure, Except.pure]

/-- Looking up a global value succeeds. -/
theorem global_eq_ok {p : Program} {v : ValueId} {ty : Ty} (sees : p.Sees none v ty) :
    ∃ x, p.global v = .ok x ∧ x.ty = ty ∧ p.value? v = some x := by
  obtain ⟨h, d, ⟨n, found⟩, home⟩ := sees
  obtain rfl : h = none := by simpa using home
  refine ⟨_, ?_, rfl, found⟩
  simp [global, global?, found, Option.filter, pure, Except.pure]

/-! ## Growth -/

/-- A later state of a program. -/
structure Grows (p p' : Program) : Prop where
  values : ∀ {v h t d}, p.Has v h t d → p'.Has v h t d
  fns : ∀ {f d}, p.fn? f = some d → ∃ d', p'.fn? f = some d' ∧ d.Grows d'
  blocks : ∀ {f b}, (p.block? f b).isSome → (p'.block? f b).isSome
  values_size : p.values.size ≤ p'.values.size
  blocks_size : p.blocks.size ≤ p'.blocks.size

theorem Grows.refl (p : Program) : p.Grows p :=
  ⟨id, fun {_ d} h => ⟨d, h, .refl d⟩, id, Nat.le_refl _, Nat.le_refl _⟩

theorem Grows.trans {p₁ p₂ p₃ : Program} (h : p₁.Grows p₂) (h' : p₂.Grows p₃) : p₁.Grows p₃ where
  values := fun has => h'.values (h.values has)
  fns := fun found => by
    obtain ⟨d₂, found₂, grows₂⟩ := h.fns found
    obtain ⟨d₃, found₃, grows₃⟩ := h'.fns found₂
    exact ⟨d₃, found₃, grows₂.trans grows₃⟩
  blocks := fun found => h'.blocks (h.blocks found)
  values_size := Nat.le_trans h.values_size h'.values_size
  blocks_size := Nat.le_trans h.blocks_size h'.blocks_size

theorem Grows.sees {p p' : Program} (h : p.Grows p') {home : Option FnId} {v : ValueId} {t : Ty}
    (sees : p.Sees home v t) : p'.Sees home v t := by
  obtain ⟨g, d, has, home⟩ := sees
  exact ⟨g, d, h.values has, home⟩

/-! ### Adding a value -/

theorem value?_insert (p : Program) (x : Value) (v : ValueId) :
    (p.insert x).2.value? v = if v = p.values.size + 1 then some x else p.value? v :=
  numbered?_push _ _ _

theorem has_insert (p : Program) (x : Value) :
    (p.insert x).2.Has (p.values.size + 1) x.home x.ty x.defn :=
  ⟨x.name, by simp [value?_insert]⟩

theorem has_insert_iff {p : Program} {x : Value} {v : ValueId} {h : Option FnId} {t : Ty}
    {d : ValueDef} : (p.insert x).2.Has v h t d ↔
      p.Has v h t d ∨ v = p.values.size + 1 ∧ h = x.home ∧ t = x.ty ∧ d = x.defn := by
  constructor
  · rintro ⟨n, found⟩
    rw [value?_insert] at found
    split at found
    · cases found
      exact .inr ⟨‹_›, rfl, rfl, rfl⟩
    · exact .inl ⟨n, found⟩
  · rintro (has | ⟨rfl, rfl, rfl, rfl⟩)
    · obtain ⟨n, found⟩ := has
      have other : v ≠ p.values.size + 1 := Nat.ne_of_lt (Nat.lt_succ_of_le (numbered?_bounds found).2)
      exact ⟨n, by rw [value?_insert, if_neg other]; exact found⟩
    · exact has_insert p x

theorem grows_insert (p : Program) (x : Value) : p.Grows (p.insert x).2 where
  values := fun has => has_insert_iff.mpr (.inl has)
  fns := fun {_ d} found => ⟨d, found, .refl d⟩
  blocks := id
  values_size := by simp [insert]
  blocks_size := Nat.le_refl _

/-! ### Naming a value -/

theorem value?_rename {p : Program} {v : ValueId} {x : Value} (found : p.value? v = some x)
    (name : String) (w : ValueId) :
    (p.rename v name).value? w = if w = v then some { x with name := name } else p.value? w := by
  have positive := (numbered?_bounds found).1
  unfold value? numbered? at found
  unfold rename value? numbered?
  by_cases zero : w = 0
  · subst zero
    rw [if_pos rfl, if_neg (Nat.ne_of_lt positive), if_pos rfl]
  · rw [if_neg zero, Array.getElem?_modify]
    by_cases same : w = v
    · subst same
      rw [if_neg zero] at found
      simp [found]
    · have apart : v - 1 ≠ w - 1 := by
        intro h
        exact same (Nat.pred_inj (Nat.pos_of_ne_zero zero) positive h.symm)
      rw [if_neg apart, if_neg same, if_neg zero]

theorem has_rename_iff {p : Program} {v : ValueId} {x : Value} (found : p.value? v = some x)
    {name : String} {w : ValueId} {h : Option FnId} {t : Ty} {d : ValueDef} :
    (p.rename v name).Has w h t d ↔ p.Has w h t d := by
  unfold Has
  rw [value?_rename found]
  by_cases same : w = v
  · subst same
    rw [if_pos rfl, found]
    constructor
    · rintro ⟨n, e⟩
      cases e
      exact ⟨x.name, rfl⟩
    · rintro ⟨n, e⟩
      cases e
      exact ⟨name, rfl⟩
  · rw [if_neg same]

theorem grows_rename {p : Program} {v : ValueId} {x : Value} (found : p.value? v = some x)
    (name : String) : p.Grows (p.rename v name) where
  values := fun has => (has_rename_iff found).mpr has
  fns := fun {_ d} found => ⟨d, found, .refl d⟩
  blocks := id
  values_size := by simp [rename]
  blocks_size := Nat.le_refl _

/-! ### Adding a block -/

theorem block?_newBlock (p : Program) (f g : FnId) (name : String) (b : BlockId) :
    (p.newBlock f name).2.block? g b =
      if b = p.blocks.size + 1 then (if f = g then some ⟨f, name⟩ else none) else p.block? g b := by
  simp only [newBlock, block?, numbered?_push]
  by_cases last : b = p.blocks.size + 1
  · by_cases home : f = g
    · subst home; simp [last, Option.filter]
    · simp [last, home, Option.filter]
  · simp [last]

theorem block?_le_size {p : Program} {f : FnId} {b : BlockId} (found : (p.block? f b).isSome) :
    b ≤ p.blocks.size := by
  obtain ⟨x, found⟩ := Option.isSome_iff_exists.mp found
  exact (numbered?_bounds (Option.filter_eq_some_iff.mp found).1).2

theorem grows_newBlock (p : Program) (f : FnId) (name : String) :
    p.Grows (p.newBlock f name).2 where
  values := id
  fns := fun {_ d} found => ⟨d, found, .refl d⟩
  blocks := fun {g b} found => by
    have := Nat.ne_of_lt (Nat.lt_succ_of_le (block?_le_size found))
    rw [block?_newBlock, if_neg this]
    exact found
  values_size := Nat.le_refl _
  blocks_size := by simp [newBlock]

/-! ### Changing a function -/

theorem fn?_setFn {p : Program} {f : FnId} {d : Fn} (found : p.fn? f = some d) (e : Fn)
    (g : FnId) : (p.setFn f e).fn? g = if g = f then some e else p.fn? g := by
  have bounds := numbered?_bounds found
  unfold setFn fn? numbered?
  by_cases zero : g = 0
  · subst zero
    rw [if_pos rfl, if_neg (Nat.ne_of_lt bounds.1), if_pos rfl]
  · rw [if_neg zero, Array.getElem?_setIfInBounds]
    by_cases same : g = f
    · subst same
      rw [if_pos rfl, if_pos rfl, if_pos (by have := bounds.2; omega)]
    · have apart : f - 1 ≠ g - 1 := by
        intro h
        exact same (Nat.pred_inj (Nat.pos_of_ne_zero zero) bounds.1 h.symm)
      rw [if_neg apart, if_neg same, if_neg zero]

theorem grows_setFn {p : Program} {f : FnId} {d e : Fn} (found : p.fn? f = some d)
    (grows : d.Grows e) : p.Grows (p.setFn f e) where
  values := id
  fns := fun {g d'} found' => by
    rw [fn?_setFn found]
    by_cases same : g = f
    · subst same
      rw [found] at found'
      cases found'
      exact ⟨e, by simp, grows⟩
    · exact ⟨d', by simpa [same] using found', .refl d'⟩
  blocks := id
  values_size := Nat.le_refl _
  blocks_size := Nat.le_refl _

end Program
end SysY.Koopa

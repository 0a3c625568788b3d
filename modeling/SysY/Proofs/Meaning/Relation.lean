import SysY.Proofs.Lower.Unit
import SysY.Proofs.Meaning.Constant
import SysY.Proofs.Meaning.Machine

/-! # Units and programs side by side

What it means that a program, at some point of running it, is where the unit is. Object `i` of the
unit is object `j[i]` of the program (`Holds`), and a name stands for the same thing in both
(`Bound`). The program has objects of its own: constant arrays, the slots of array parameters, and
the slots of logical operators. The unit does not know them, so they keep what they hold while the
unit does something else (`Later`). -/

namespace SysY.Meaning

open Koopa (Val Activation Config ValueId BlockId FnId Program)

/-! ## Memory -/

/-- Cells as a program has them. -/
def cellsOf (cells : List (Option Int32)) : List (Option Val) := cells.map (Option.map .int)

/-- The memory of the unit is part of the memory of the program. -/
structure Holds (j : List Nat) (m : Memory Int32) (M : Memory Val) : Prop where
  length : j.length = m.length
  nodup : j.Nodup
  same : ∀ {i o : Nat} {cells}, j[i]? = some o → m[i]? = some cells → M[o]? = some (cellsOf cells)

section Holds

variable {j : List Nat} {m : Memory Int32} {M M' : Memory Val} {i o : Nat} {x : Int} {v : Int32}

theorem Holds.read (holds : Holds j m M) (found : j[i]? = some o) (read : m.read i x = some v) :
    M.read o x = some (.int v) := by
  obtain ⟨cells, here, positive, cell⟩ := Memory.read_eq_some.mp read
  refine Memory.read_eq_some.mpr ⟨cellsOf cells, holds.same found here, positive, ?_⟩
  rw [cellsOf, List.getElem?_map, cell]
  rfl

theorem Holds.write (holds : Holds j m M) (found : j[i]? = some o) {m' : Memory Int32}
    (write : m.write i x v = some m') : ∃ M', M.write o x (.int v) = some M' ∧ Holds j m' M' := by
  obtain ⟨cells, here, positive, small, rfl⟩ := Memory.write_eq_some.mp write
  have image := holds.same found here
  refine ⟨M.set o ((cellsOf cells).set x.toNat (some (.int v))), Memory.write_eq_some.mpr
    ⟨cellsOf cells, image, positive, by rwa [cellsOf, List.length_map], rfl⟩, ?_⟩
  refine ⟨by rw [holds.length, List.length_set], holds.nodup, ?_⟩
  intro i' o' cells' found' here'
  by_cases same : i' = i
  · subst same
    obtain rfl := Option.some.inj (found.symm.trans found')
    have inside := (List.getElem?_eq_some_iff.mp image).1
    rw [List.getElem?_set_self (List.getElem?_eq_some_iff.mp here).1] at here'
    cases here'
    rw [List.getElem?_set_self inside, cellsOf, cellsOf, List.map_set]
    rfl
  · have apart : o ≠ o' := by
      rintro rfl
      obtain ⟨small, eq⟩ := List.getElem?_eq_some_iff.mp found
      obtain ⟨small', eq'⟩ := List.getElem?_eq_some_iff.mp found'
      exact same ((holds.nodup.getElem_inj_iff).mp (eq'.trans eq.symm))
    rw [List.getElem?_set_ne (Ne.symm same)] at here'
    rw [List.getElem?_set_ne apart]
    exact holds.same found' here'

/-- A new object of the unit is an object that the program made. -/
theorem Holds.create (holds : Holds j m M) (fresh : o ∉ j) {cells : List (Option Int32)}
    (image : M[o]? = some (cellsOf cells)) : Holds (j ++ [o]) (m ++ [cells]) M where
  length := by simp [holds.length]
  nodup := by
    rw [List.nodup_append]
    refine ⟨holds.nodup, by simp, ?_⟩
    rintro a mem b hb rfl
    rw [List.mem_singleton] at hb
    exact fresh (hb ▸ mem)
  same := fun {i' o' cells'} found here => by
    by_cases last : i' < j.length
    · rw [List.getElem?_append_left last] at found
      rw [List.getElem?_append_left (holds.length ▸ last)] at here
      exact holds.same found here
    · obtain rfl : i' = j.length := by
        have := (List.getElem?_eq_some_iff.mp found).1
        simp at this
        omega
      rw [List.getElem?_append_right (Nat.le_refl _), Nat.sub_self] at found
      rw [holds.length, List.getElem?_append_right (Nat.le_refl _), Nat.sub_self] at here
      cases found
      cases here
      exact image

/-- The objects that the unit knows are there. -/
theorem Holds.inside (holds : Holds j m M) (mem : o ∈ j) : o < M.length := by
  obtain ⟨i, small, rfl⟩ := List.getElem_of_mem mem
  have small' : i < m.length := holds.length ▸ small
  have here : m[i]? = some m[i] := List.getElem?_eq_getElem small'
  exact (List.getElem?_eq_some_iff.mp (holds.same (List.getElem?_eq_getElem small) here)).1

/-- Objects that the unit does not know do not matter. -/
theorem Holds.congr (holds : Holds j m M) (same : ∀ o ∈ j, M'[o]? = M[o]?) : Holds j m M' where
  length := holds.length
  nodup := holds.nodup
  same := fun found here => by
    rw [same _ (List.mem_of_getElem? found)]
    exact holds.same found here

end Holds

/-- A later moment of running a program. Objects below `limit` that the unit does not know are as
they were, and objects that the unit knows since then were made after `limit`. -/
structure Later (limit : Nat) (j : List Nat) (M : Memory Val) (j' : List Nat) (M' : Memory Val) :
    Prop where
  more : ∃ new, j' = j ++ new ∧ ∀ o ∈ new, limit ≤ o
  grows : M.length ≤ M'.length
  kept : ∀ {o : Nat}, o < limit → o ∉ j → M'[o]? = M[o]?

section Later

variable {limit : Nat} {j j' j'' : List Nat} {M M' M'' : Memory Val}

theorem Later.refl (limit : Nat) (j : List Nat) (M : Memory Val) : Later limit j M j M :=
  ⟨⟨[], by simp, by simp⟩, Nat.le_refl _, fun _ _ => rfl⟩

theorem Later.not_mem (later : Later limit j M j' M') {o : Nat} (small : o < limit)
    (unknown : o ∉ j) : o ∉ j' := by
  obtain ⟨new, rfl, large⟩ := later.more
  intro mem
  rcases List.mem_append.mp mem with old | new
  · exact unknown old
  · exact absurd (large o new) (Nat.not_le_of_lt small)

theorem Later.trans (h : Later limit j M j' M') (h' : Later limit j' M' j'' M'') :
    Later limit j M j'' M'' where
  more := by
    obtain ⟨new, rfl, large⟩ := h.more
    obtain ⟨new', rfl, large'⟩ := h'.more
    refine ⟨new ++ new', by simp, fun o ho => ?_⟩
    rcases List.mem_append.mp ho with first | second
    · exact large o first
    · exact large' o second
  grows := Nat.le_trans h.grows h'.grows
  kept := fun small unknown => (h'.kept small (h.not_mem small unknown)).trans (h.kept small unknown)

theorem Later.mono {low : Nat} (h : Later limit j M j' M') (le : low ≤ limit) :
    Later low j M j' M' where
  more := by
    obtain ⟨new, rfl, large⟩ := h.more
    exact ⟨new, rfl, fun o ho => Nat.le_trans le (large o ho)⟩
  grows := h.grows
  kept := fun small unknown => h.kept (Nat.lt_of_lt_of_le small le) unknown

theorem Later.known (later : Later limit j M j' M') {i o : Nat} (found : j[i]? = some o) :
    j'[i]? = some o := by
  obtain ⟨new, rfl, -⟩ := later.more
  rw [List.getElem?_append_left (List.getElem?_eq_some_iff.mp found).1]
  exact found

/-- What an object holds that the unit does not know. -/
theorem Later.object (later : Later M.length j M j' M') {o : Nat} {cells : List (Option Val)}
    (unknown : o ∉ j) (found : M[o]? = some cells) : o ∉ j' ∧ M'[o]? = some cells := by
  have small := (List.getElem?_eq_some_iff.mp found).1
  exact ⟨later.not_mem small unknown, (later.kept small unknown).trans found⟩

/-- Writing to an object that the unit knows, or that was made after the limit. -/
theorem Later.write {o : Nat} {x : Int} {v : Val} (wrote : M.write o x v = some M')
    (free : o ∈ j ∨ limit ≤ o) : Later limit j M j M' := by
  obtain ⟨cells, -, -, -, rfl⟩ := Memory.write_eq_some.mp wrote
  refine ⟨⟨[], by simp, by simp⟩, by simp, fun {o'} small unknown => ?_⟩
  rw [List.getElem?_set_ne]
  rintro rfl
  rcases free with known | large
  · exact unknown known
  · exact absurd large (Nat.not_le_of_lt small)

theorem Later.alloc (cells : List (Option Val)) (le : limit ≤ M.length) :
    Later limit j M j (M ++ [cells]) :=
  ⟨⟨[], by simp, by simp⟩, by simp, fun small _ =>
    List.getElem?_append_left (Nat.lt_of_lt_of_le small le)⟩

end Later

/-! ## Pointers -/

/-- A pointer of the unit, and what it is in the program. -/
inductive Points (j : List Nat) (M : Memory Val) : Pointer → Val → Prop
  | object {id o : Nat} {offset : Int} : j[id]? = some o →
      Points j M ⟨.object id, offset⟩ (.ptr o offset)
  | table {data : List Int32} {o : Nat} {offset : Int} : o ∉ j →
      M[o]? = some (cellsOf (data.map some)) → Points j M ⟨.table data, offset⟩ (.ptr o offset)

/-- An argument, and what it is in the program. -/
inductive Passes (j : List Nat) (M : Memory Val) : Arg → Val → Prop
  | int (v : Int32) : Passes j M (.int v) (.int v)
  | array {a : Pointer} {x : Val} : Points j M a x → Passes j M (.array a) x

section Points

variable {j j' : List Nat} {m m' : Memory Int32} {M M' : Memory Val} {a : Pointer} {x : Val}

theorem Points.later (points : Points j M a x) (later : Later M.length j M j' M') :
    Points j' M' a x := by
  cases points with
  | object found => exact .object (later.known found)
  | table unknown here =>
    obtain ⟨unknown', here'⟩ := later.object unknown here
    exact .table unknown' here'

theorem Passes.later {a : Arg} (passes : Passes j M a x) (later : Later M.length j M j' M') :
    Passes j' M' a x := by
  cases passes with
  | int v => exact .int v
  | array points => exact .array (points.later later)

/-- Moving a pointer on. -/
theorem Points.move {o : Nat} {offset : Int} (points : Points j M a (.ptr o offset)) (i : Int) :
    Points j M { a with offset := a.offset + i } (.ptr o (offset + i)) := by
  cases points with
  | object found => exact .object found
  | table unknown here => exact .table unknown here

theorem Points.ptr (points : Points j M a x) : ∃ o, x = .ptr o a.offset := by
  cases points <;> exact ⟨_, rfl⟩

theorem Points.read {o : Nat} {offset : Int} (points : Points j M a (.ptr o offset))
    (holds : Holds j m M) {i : Int} {v : Int32} (read : a.read m i = some v) :
    M.read o (offset + i) = some (.int v) := by
  cases points with
  | object found => exact holds.read found read
  | table unknown here =>
    rename_i data
    change (if offset + i < 0 then none else data[(offset + i).toNat]?) = some v at read
    split at read
    · cases read
    · refine Memory.read_eq_some.mpr ⟨_, here, by omega, ?_⟩
      simp [cellsOf, read]

theorem Points.write {o : Nat} {offset : Int} (points : Points j M a (.ptr o offset))
    (holds : Holds j m M) {i : Int} {v : Int32} (write : a.write m i v = some m') :
    o ∈ j ∧ ∃ M', M.write o (offset + i) (.int v) = some M' ∧ Holds j m' M' := by
  cases points with
  | object found => exact ⟨List.mem_of_getElem? found, holds.write found write⟩
  | table unknown here => cases write

end Points

/-! ## Names -/

/-- A program that is ready to run: with the functions from elsewhere, the global symbols of the
unit, and the slots of its global variables in the order in which they are defined. -/
structure Loaded (W : Type) where
  program : Program
  external : External W
  symbols : SymbolTable
  slots : List ValueId

variable {W : Type} {l : Loaded W}

/-- A function of the unit. -/
def Loaded.Has (l : Loaded W) (name : String) (id : FnId) (params : List Ty) (ret : Ty) : Prop :=
  ∃ s defined, l.symbols.findGlobal? name = some s ∧ s.meaning = .function id params defined ∧
    s.type = ret

/-- The global variables of the program: those of the unit, and tables that hold the constant
arrays. -/
structure Image (l : Loaded W) (j : List Nat) (M : Memory Val) : Prop where
  vars : ∀ {i : Nat} {g}, l.slots[i]? = some g → j[i]? = some (l.program.place g)
  tables : ∀ {g t init data}, l.program.Has g none (.pointer t) (.globalAlloc init) →
    l.program.payload t init = some data → g ∉ l.slots →
    l.program.place g ∉ j ∧ M[l.program.place g]? = some (cellsOf (data.map some))

theorem Image.later {j j' : List Nat} {M M' : Memory Val} (image : Image l j M)
    (later : Later M.length j M j' M') : Image l j' M' where
  vars := fun found => later.known (image.vars found)
  tables := fun has payload other => by
    obtain ⟨unknown, here⟩ := image.tables has payload other
    exact later.object unknown here

/-- What a name stands for in the program and in the unit. -/
inductive Bound (l : Loaded W) (j : List Nat) (M : Memory Val) (regs : ValueId → Option Val)
    (name : String) (s : Symbol) : Binding → Prop
  | constant {v : Const.Value} {slot : Option ValueId} : s.meaning = .constant v slot →
      Bounds v.dims → (v.data.length : Int) = v.dims.prod →
      (∀ g, slot = some g → ∃ x, l.program.operand regs g = some x ∧
        Points j M ⟨.table v.data, 0⟩ x) →
      Bound l j M regs name s (.constant v.dims v.data)
  | object {slot : ValueId} {id o : Nat} : s.meaning = .variable slot → s.type.IsObject →
      l.program.operand regs slot = some (.ptr o 0) → j[id]? = some o →
      Bound l j M regs name s (.object s.type.dims id)
  | array {slot : ValueId} {o : Nat} {dims : List Int} {a : Pointer} {x : Val} :
      s.meaning = .variable slot → s.type = .pointer dims →
      l.program.operand regs slot = some (.ptr o 0) → o ∉ j → M[o]? = some [some x] →
      Points j M a x → Bound l j M regs name s (.array dims a)
  | function {id : FnId} {params : List Ty} {defined : Bool} :
      s.meaning = .function id params defined → l.Has name id params s.type →
      Bound l j M regs name s (.function params s.type)

/-- The registers of values with small numbers are the same. -/
def Keeps (n : Nat) (regs regs' : ValueId → Option Val) : Prop := ∀ v ≤ n, regs' v = regs v

theorem operand_keeps {p : Program} {n : Nat} {regs regs' : ValueId → Option Val}
    (keeps : Keeps n regs regs') {v : ValueId} (small : v ≤ n) :
    p.operand regs' v = p.operand regs v := by
  unfold Program.operand
  rw [keeps v small]

section Bound

variable {j j' : List Nat} {M M' : Memory Val} {regs regs' : ValueId → Option Val} {n : Nat}
  {name : String} {s : Symbol} {b : Binding}

/-- A name keeps its meaning as long as its slot does. -/
theorem Bound.later (bound : Bound l j M regs name s b) (later : Later M.length j M j' M')
    (keeps : Keeps n regs regs') (small : ∀ g, s.slot? = some g → g ≤ n) :
    Bound l j' M' regs' name s b := by
  cases bound with
  | constant meaning bounds length table =>
    refine .constant meaning bounds length fun g hg => ?_
    obtain ⟨x, value, points⟩ := table g hg
    refine ⟨x, ?_, points.later later⟩
    rw [operand_keeps keeps (small g (by rw [Symbol.slot?, meaning]; exact hg))]
    exact value
  | object meaning isObject value found =>
    refine .object meaning isObject ?_ (later.known found)
    rw [operand_keeps keeps (small _ (by rw [Symbol.slot?, meaning]))]
    exact value
  | array meaning type value unknown here points =>
    obtain ⟨unknown', here'⟩ := later.object unknown here
    refine .array meaning type ?_ unknown' here' (points.later later)
    rw [operand_keeps keeps (small _ (by rw [Symbol.slot?, meaning]))]
    exact value
  | function meaning has => exact .function meaning has

end Bound

/-- Every name that lowering can see stands for the same thing in the unit. -/
def Sees (l : Loaded W) (j : List Nat) (M : Memory Val) (regs : ValueId → Option Val)
    (t : SymbolTable) (env : Env) : Prop :=
  ∀ ⦃name s⦄, t.find? name = some s → ∃ b, env.lookup name = some b ∧ Bound l j M regs name s b

/-- The constants that lowering knows are those of the unit. -/
theorem Sees.knows {j : List Nat} {M : Memory Val} {regs : ValueId → Option Val} {t : SymbolTable}
    {env : Env} (sees : Sees l j M regs t env) : Knows t.env env where
  constant := fun {name v} h => by
    unfold SymbolTable.env at h
    split at h
    · cases h
    · rename_i s found
      obtain ⟨b, here, bound⟩ := sees found
      cases bound with
      | constant meaning bounds length table =>
        rw [Symbol.binding, meaning] at h
        cases h
        exact ⟨here, bounds, length⟩
      | object meaning | array meaning | function meaning =>
        rw [Symbol.binding, meaning] at h
        cases h

/-! ## Points of a run -/

/-- A point of running a function of a program, with the objects that the unit knows. -/
structure Point (W : Type) where
  known : List Nat
  memory : Memory Val
  here : Activation
  world : W

/-- The machine at a point. -/
def Point.config (a : Point W) (callers : List (ValueId × Activation)) : Config W :=
  .run a.here callers a.memory a.world

/-- The value of an operand at a point. -/
def Point.operand (l : Loaded W) (a : Point W) (v : ValueId) : Option Val :=
  l.program.operand a.here.regs v

/-- The machine gets from one point to another one of the same function call. The registers of
values up to `n` are as they were. If `q` holds, nothing is called on the way, and nothing is stored
below object number `limit`. -/
structure Goes (l : Loaded W) (q : Prop) (callers : List (ValueId × Activation)) (n limit : Nat)
    (a b : Point W) : Prop where
  steps : l.program.StepsIf l.external (fun c => q → l.program.Quiet limit c) (a.config callers)
    (b.config callers)
  later : Later limit a.known a.memory b.known b.memory
  fn : b.here.fn = a.here.fn
  keeps : Keeps n a.here.regs b.here.regs
  world : q → b.world = a.world

section Goes

variable {q : Prop} {callers : List (ValueId × Activation)} {n m limit low : Nat} {a b c : Point W}

theorem Goes.refl (l : Loaded W) (q : Prop) (callers : List (ValueId × Activation)) (n limit : Nat)
    (a : Point W) : Goes l q callers n limit a a :=
  ⟨.refl, .refl .., rfl, fun _ _ => rfl, fun _ => rfl⟩

theorem Goes.trans (h : Goes l q callers n limit a b) (h' : Goes l q callers n limit b c) :
    Goes l q callers n limit a c where
  steps := Relation.ReflTransGen.trans h.steps h'.steps
  later := h.later.trans h'.later
  fn := h'.fn.trans h.fn
  keeps := fun v small => (h'.keeps v small).trans (h.keeps v small)
  world := fun hq => (h'.world hq).trans (h.world hq)

theorem Goes.mono (h : Goes l q callers n limit a b) (le : m ≤ n) (le' : low ≤ limit) :
    Goes l q callers m low a b where
  steps := h.steps.mono fun quiet hq => (quiet hq).mono le'
  later := h.later.mono le'
  fn := h.fn
  keeps := fun v small => h.keeps v (Nat.le_trans small le)
  world := h.world

theorem Goes.operand (h : Goes l q callers n limit a b) {v : ValueId} (small : v ≤ n) :
    b.operand l v = a.operand l v := operand_keeps h.keeps small

end Goes

/-- The machine is where lowering is: in the same block, with the instructions ahead that are still
to be made. -/
structure Stands (p : Program) (σ : Lower.State) (here : Activation) : Prop where
  fn : here.fn = σ.frame.fn
  rest : ∃ d, p.fn? σ.frame.fn = some d ∧ d.insts? σ.frame.block = some (σ.insts ++ here.rest)

/-- The machine is at the start of a block. -/
structure Starts (p : Program) (f : FnId) (b : BlockId) (here : Activation) : Prop where
  fn : here.fn = f
  rest : ∃ d, p.fn? f = some d ∧ d.insts? b = some here.rest

/-- The number of values that have been made. -/
def size (σ : Lower.State) : Nat := σ.program.values.size

/-- The machine gets on as far as lowering does, with `Q`. -/
def Reaches (l : Loaded W) (q : Prop) (callers : List (ValueId × Activation)) (σ : Lower.State)
    (a : Point W) (σ' : Lower.State) (Q : Point W → Prop) : Prop :=
  ∃ b, Goes l q callers (size σ) a.memory.length a b ∧ Stands l.program σ' b.here ∧ Q b

section Reaches

variable {q : Prop} {callers : List (ValueId × Activation)} {σ σ₁ σ' : Lower.State} {a : Point W}
  {Q R : Point W → Prop}

theorem Reaches.refl (stands : Stands l.program σ a.here) (hq : Q a) :
    Reaches l q callers σ a σ Q := ⟨a, .refl .., stands, hq⟩

theorem Reaches.bind (h : Reaches l q callers σ a σ₁ Q) (grows : size σ ≤ size σ₁)
    (next : ∀ b, Goes l q callers (size σ) a.memory.length a b → Stands l.program σ₁ b.here → Q b →
      Reaches l q callers σ₁ b σ' R) : Reaches l q callers σ a σ' R := by
  obtain ⟨b, goes, stands, hq⟩ := h
  obtain ⟨c, goes', stands', hr⟩ := next b goes stands hq
  exact ⟨c, goes.trans (goes'.mono grows goes.later.grows), stands', hr⟩

/-- Values that are made before the machine moves do not matter. -/
theorem Reaches.since (h : Reaches l q callers σ₁ a σ' Q) (grows : size σ ≤ size σ₁) :
    Reaches l q callers σ a σ' Q := by
  obtain ⟨b, goes, stands, hq⟩ := h
  exact ⟨b, goes.mono grows (Nat.le_refl _), stands, hq⟩

theorem Reaches.mono (h : Reaches l q callers σ a σ' Q) (weaker : ∀ b, Q b → R b) :
    Reaches l q callers σ a σ' R := by
  obtain ⟨b, goes, stands, hq⟩ := h
  exact ⟨b, goes, stands, weaker b hq⟩

end Reaches

/-- The slots of names that lowering can see have been made. -/
theorem slot_le_size {c : Lower.Site} {avail : Koopa.Avail} {σ : Lower.State}
    (inv : Lower.Inv c avail σ) {name : String} {s : Symbol} (found : σ.symbols.find? name = some s)
    {g : ValueId} (slot : s.slot? = some g) : g ≤ size σ := by
  have ok := inv.symbol found
  unfold Symbol.Ok at ok
  unfold Symbol.slot? at slot
  split at slot
  · rename_i v slot' meaning
    rw [meaning] at ok
    obtain ⟨solid, object, dims, -, number, table⟩ := ok
    by_cases int : s.type = .int
    · rw [number int] at slot
      cases slot
    · obtain ⟨g', hg, slotOk⟩ := table int
      rw [slot] at hg
      cases hg
      obtain ⟨h, d, has, -⟩ := slotOk.sees
      exact has.le_size.2
  · rename_i slot' meaning
    rw [meaning] at ok
    cases slot
    obtain ⟨h, d, has, -⟩ := ok.2.sees
    exact has.le_size.2
  · cases slot

/-! ## Views -/

/-- What is said of a point of a run while an expression is computed there: with the symbols that
lowering can see, and with what the point is compared to. It only depends on objects that the unit
knows, on objects that were there when the expression began, and on values that had been made by
then. -/
structure View (l : Loaded W) (q : Prop) (S : Type) where
  Fits : SymbolTable → S → Point W → Prop
  memory : S → Memory Int32
  holds : ∀ {t s a}, Fits t s a → Holds a.known (memory s) a.memory
  rebase : ∀ {c avail σ callers s₀ s a b d}, Lower.Inv c avail σ → Fits σ.symbols s₀ a →
    Goes l q callers (size σ) a.memory.length a d → Fits σ.symbols s b → d.known = b.known →
    (∀ o ∈ b.known, d.memory[o]? = b.memory[o]?) → d.world = b.world → Fits σ.symbols s d

/-- Memory and the world are the same at a point and in the unit. -/
structure Agrees (l : Loaded W) (s : State W) (a : Point W) : Prop where
  holds : Holds a.known s.memory a.memory
  world : a.world = s.world
  image : Image l a.known a.memory

/-- Everything is as in the unit. -/
structure Matches (l : Loaded W) (t : SymbolTable) (env : Env) (s : State W) (a : Point W) : Prop
    extends Agrees l s a where
  sees : Sees l a.known a.memory a.here.regs t env

/-- Names keep their meaning while a function runs. -/
theorem Sees.goes {q : Prop} {c : Lower.Site} {avail : Koopa.Avail} {σ : Lower.State}
    {t : SymbolTable} {env : Env} {callers : List (ValueId × Activation)} {n : Nat} {a b : Point W}
    (sees : Sees l a.known a.memory a.here.regs σ.symbols env) (inv : Lower.Inv c avail σ)
    (goes : Goes l q callers n a.memory.length a b) (le : size σ ≤ n)
    (same : ∀ name, t.find? name = σ.symbols.find? name) :
    Sees l b.known b.memory b.here.regs t env := by
  intro name s found
  rw [same] at found
  obtain ⟨x, here, bound⟩ := sees found
  exact ⟨x, here, bound.later goes.later goes.keeps fun g slot =>
    Nat.le_trans (slot_le_size inv found slot) le⟩

/-- The view of a run that compares it with a run of the unit. -/
def unitView (l : Loaded W) (q : Prop) (env : Env) : View l q (State W) where
  Fits := fun t s a => Matches l t env s a
  memory := State.memory
  holds := fun fits => fits.holds
  rebase := fun inv first goes last known same world => {
    holds := by
      rw [known]
      exact last.holds.congr same
    world := world.trans last.world
    image := first.image.later goes.later
    sees := first.sees.goes inv goes (Nat.le_refl _) fun _ => rfl }

end SysY.Meaning

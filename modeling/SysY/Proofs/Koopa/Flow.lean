import Mathlib.Data.Set.Basic
import SysY.Proofs.Koopa.Typing

/-! # Control flow

Edges, paths and dominance in the layout of a function, and what has to hold of a function while it
is being built. That definitions dominate uses is kept as a certificate: `avail b` is a set of
instructions that have been executed whenever control enters block `b`. The certificate is local,
it only compares a block with its successors, and `FnOk.dominates` turns it into dominance. -/

namespace SysY.Koopa

namespace Fn

/-- Control can go from `b` to `c`. -/
def Edge (p : Program) (d : Fn) (b c : BlockId) : Prop :=
  ∃ is v h t x, d.insts? b = some is ∧ v ∈ is ∧ p.Has v h t x ∧ c ∈ x.targets

/-- The blocks that control passes on a way from the entry block to `b`, in order. -/
inductive Path (p : Program) (d : Fn) : List BlockId → BlockId → Prop
  | entry {b : BlockId} : d.blocks.head? = some b → Path p d [b] b
  | step {visited : List BlockId} {b c : BlockId} :
      Path p d visited b → d.Edge p b c → Path p d (visited ++ [c]) c

/-- Control can reach `b` from the entry block. -/
def Reaches (p : Program) (d : Fn) (b : BlockId) : Prop := ∃ visited, d.Path p visited b

/-- Every path from the entry block to `b` passes through `a`. -/
def Dominates (p : Program) (d : Fn) (a b : BlockId) : Prop :=
  ∀ visited, d.Path p visited b → a ∈ visited

theorem Edge.grows {p p' : Program} {d d' : Fn} (grows : p.Grows p') (later : d.Grows d')
    {b c : BlockId} (edge : d.Edge p b c) : d'.Edge p' b c := by
  obtain ⟨is, v, h, t, x, found, mem, has, target⟩ := edge
  obtain ⟨more, found'⟩ := later.insts found
  exact ⟨is ++ more, v, h, t, x, found', by simp [mem], grows.values has, target⟩

theorem Path.grows {p p' : Program} {d d' : Fn} (grows : p.Grows p') (later : d.Grows d')
    {visited : List BlockId} {b : BlockId} (path : d.Path p visited b) :
    d'.Path p' visited b := by
  induction path with
  | entry first => exact .entry (later.entry first)
  | step _ edge ih => exact .step ih (edge.grows grows later)

theorem Reaches.grows {p p' : Program} {d d' : Fn} (grows : p.Grows p') (later : d.Grows d')
    {b : BlockId} (reaches : d.Reaches p b) : d'.Reaches p' b := by
  obtain ⟨visited, path⟩ := reaches
  exact ⟨visited, path.grows grows later⟩

theorem Reaches.step {p : Program} {d : Fn} {b c : BlockId} (reaches : d.Reaches p b)
    (edge : d.Edge p b c) : d.Reaches p c := by
  obtain ⟨visited, path⟩ := reaches
  exact ⟨_, path.step edge⟩

end Fn

/-- For each block, instructions that have been executed whenever control enters the block. -/
abbrev Avail := BlockId → Set ValueId

namespace Program

/-- A terminator. -/
def IsTerm (p : Program) (v : ValueId) : Prop :=
  ∃ h t x, p.Has v h t x ∧ x.isTerminator = true

/-- A value that function `f` can use anywhere: a constant, a parameter or a global variable. -/
def Free (p : Program) (f : FnId) (v : ValueId) : Prop :=
  ∃ h t x, p.Has v h t x ∧ (h = some f ∨ h = none) ∧ x.isInstruction = false

theorem Free.grows {p p' : Program} (grows : p.Grows p') {f : FnId} {v : ValueId}
    (free : p.Free f v) : p'.Free f v := by
  obtain ⟨h, t, x, has, home, kind⟩ := free
  exact ⟨h, t, x, grows.values has, home, kind⟩

/-- A value stays a terminator, and no other value becomes one. -/
theorem isTerm_grows {p p' : Program} (grows : p.Grows p') {v : ValueId} {h : Option FnId} {t : Ty}
    {x : ValueDef} (has : p.Has v h t x) : p'.IsTerm v ↔ p.IsTerm v := by
  constructor
  · rintro ⟨h', t', x', has', kind⟩
    obtain ⟨rfl, rfl, rfl⟩ := (grows.values has).unique has'
    exact ⟨_, _, _, has, kind⟩
  · rintro ⟨h', t', x', has', kind⟩
    exact ⟨h', t', x', grows.values has', kind⟩

/-- What holds of a function while the program is being built.

* `placed`, `nodup`, `once`: what stands in a block is an instruction of the function, and it stands
  nowhere else.
* `early`: only the last instruction of a block is a terminator.
* `uses`, `edges`, `entry`, `laid`: the certificate for dominance. -/
structure FnOk (p : Program) (avail : Avail) (f : FnId) (d : Fn) : Prop where
  ret : d.ret = .unit ∨ d.ret = .i32
  distinct : d.blocks.Nodup
  homes : ∀ {b}, b ∈ d.blocks → (p.block? f b).isSome
  arity : d.params.length = d.paramTys.length
  params : ∀ {i v t}, d.params[i]? = some v → d.paramTys[i]? = some t →
    p.Has v (some f) t (.arg i)
  placed : ∀ {b is v}, d.insts? b = some is → v ∈ is →
    ∃ t x, p.Has v (some f) t x ∧ x.isInstruction = true
  nodup : ∀ {b is}, d.insts? b = some is → is.Nodup
  once : ∀ {b c is js v}, d.insts? b = some is → d.insts? c = some js → v ∈ is → v ∈ js → b = c
  early : ∀ {b xs v w ys}, d.insts? b = some (xs ++ v :: w :: ys) → ¬ p.IsTerm v
  uses : ∀ {b xs v ys h t x o}, d.insts? b = some (xs ++ v :: ys) → p.Has v h t x →
    o ∈ x.operands → p.Free f o ∨ o ∈ avail b ∨ o ∈ xs
  edges : ∀ {b is v h t x c o}, d.insts? b = some is → v ∈ is → p.Has v h t x → c ∈ x.targets →
    o ∈ avail c → o ∈ avail b ∨ o ∈ is
  entry : ∀ {b}, d.blocks.head? = some b → avail b = ∅
  laid : ∀ {b o}, b ∈ d.blocks → o ∈ avail b → ∃ c is, d.insts? c = some is ∧ o ∈ is

/-- An instruction that is available in a block was executed on every path to that block. -/
theorem FnOk.available_on_path {p : Program} {avail : Avail} {f : FnId} {d : Fn}
    (ok : p.FnOk avail f d) {visited : List BlockId} {b : BlockId} (path : d.Path p visited b)
    {o : ValueId} (mem : o ∈ avail b) : ∃ c ∈ visited, ∃ is, d.insts? c = some is ∧ o ∈ is := by
  induction path with
  | entry first =>
    rw [ok.entry first] at mem
    cases mem
  | step path edge ih =>
    rename_i visited b c
    obtain ⟨is, v, h, t, x, found, placed, has, target⟩ := edge
    rcases ok.edges found placed has target mem with before | here
    · obtain ⟨e, passed, js, found', mem'⟩ := ih before
      exact ⟨e, by simp [passed], js, found', mem'⟩
    · have passed : b ∈ visited := by
        cases path with
        | entry _ => simp
        | step _ _ => simp
      exact ⟨b, by simp [passed], is, found, here⟩

/-- The block in which an available instruction stands dominates. -/
theorem FnOk.dominates {p : Program} {avail : Avail} {f : FnId} {d : Fn} (ok : p.FnOk avail f d)
    {b c : BlockId} {o : ValueId} {is : List ValueId} (mem : o ∈ avail b)
    (found : d.insts? c = some is) (here : o ∈ is) : d.Dominates p c b := by
  intro visited path
  obtain ⟨e, passed, js, found', mem'⟩ := ok.available_on_path path mem
  obtain rfl := ok.once found found' here mem'
  exact passed

/-- A function is not affected by what is added to the rest of the program. -/
theorem FnOk.grows {p p' : Program} {avail avail' : Avail} {f : FnId} {d : Fn}
    (grows : p.Grows p') (values : ∀ {v h t x}, p.Has v h t x → p.ValueOk v h t x)
    (found : p.fn? f = some d) (same : ∀ b ∈ d.blocks, avail' b = avail b)
    (ok : p.FnOk avail f d) : p'.FnOk avail' f d where
  ret := ok.ret
  distinct := ok.distinct
  homes := fun mem => grows.blocks (ok.homes mem)
  arity := ok.arity
  params := fun hv ht => grows.values (ok.params hv ht)
  placed := fun found mem => by
    obtain ⟨t, x, has, kind⟩ := ok.placed found mem
    exact ⟨t, x, grows.values has, kind⟩
  nodup := ok.nodup
  once := ok.once
  early := fun {_ _ v _ _} found term => by
    obtain ⟨t, x, has, -⟩ := ok.placed (v := v) found (by simp)
    exact ok.early found ((isTerm_grows grows has).mp term)
  uses := fun {_ _ v _ _ _ _ _} found has' mem => by
    obtain ⟨t, x, has, -⟩ := ok.placed (v := v) found (by simp)
    obtain ⟨rfl, rfl, rfl⟩ := (grows.values has).unique has'
    rw [same _ (Fn.mem_blocks_of_insts? found)]
    exact (ok.uses found has mem).imp_left (·.grows grows)
  edges := fun found' mem has' target here => by
    obtain ⟨t, x, has, -⟩ := ok.placed found' mem
    obtain ⟨rfl, rfl, rfl⟩ := (grows.values has).unique has'
    obtain ⟨g, e, home, foundFn, laid⟩ := (values has).targets _ target
    cases home
    rw [found] at foundFn
    cases foundFn
    rw [same _ laid] at here
    rw [same _ (Fn.mem_blocks_of_insts? found')]
    exact ok.edges found' mem has target here
  entry := fun first => by
    rw [same _ (List.mem_of_mem_head? first)]
    exact ok.entry first
  laid := fun mem here => by
    rw [same _ mem] at here
    exact ok.laid mem here

end Program
end SysY.Koopa

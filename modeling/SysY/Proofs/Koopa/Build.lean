import Mathlib.Data.List.Nodup
import Mathlib.Logic.Function.Basic
import SysY.Proofs.Koopa.Flow

/-! # Building programs

`Program.Ok` is what holds of a program at every moment while it is built, and the lemmas here say
that each way of adding to a program keeps it: a value, a name, an instruction at the end of a
block, a block, a function. What is laid out in unreachable blocks is a matter of its own
(`Program.Tidy`), because a finished program closes those blocks too. -/

namespace SysY.Koopa

namespace Program

/-- The name that a value wants has an `@`. A value that is no global variable can want none. -/
def NameOk (x : Value) : Prop :=
  x.name.toList.head? = some '@' ∨ x.name = "" ∧ isGlobalVariable x = false

/-- What holds of a program while it is being built. -/
structure Ok (p : Program) (avail : Avail) : Prop where
  values : ∀ {v h t x}, p.Has v h t x → p.ValueOk v h t x
  fns : ∀ {f d}, p.fn? f = some d → p.FnOk avail f d
  names : ∀ {v x}, p.value? v = some x → NameOk x
  distinct : (p.fns.toList.map (·.name)).Nodup

/-- Only blocks that control can reach have instructions. -/
structure Tidy (p : Program) : Prop where
  reach : ∀ {f d b is}, p.fn? f = some d → d.insts? b = some is → is ≠ [] → d.Reaches p b

variable {p : Program} {avail : Avail} {f : FnId} {d : Fn} {b : BlockId} {is : List ValueId}

/-- A value that is not made yet is not laid out. -/
theorem FnOk.not_mem_of_large (ok : p.FnOk avail f d) {v : ValueId} (large : p.values.size < v)
    (found : d.insts? b = some is) : v ∉ is := by
  intro mem
  obtain ⟨t, x, has, -⟩ := ok.placed found mem
  exact absurd has.le_size.2 (Nat.not_le_of_lt large)

/-! ## Adding a value -/

theorem Ok.insert (ok : p.Ok avail) {x : Value}
    (new : (p.insert x).2.ValueOk (p.values.size + 1) x.home x.ty x.defn) (name : NameOk x) :
    (p.insert x).2.Ok avail where
  values := fun has => by
    rcases has_insert_iff.mp has with old | ⟨rfl, rfl, rfl, rfl⟩
    · exact (ok.values old).grows (grows_insert p x)
    · exact new
  fns := fun found => (ok.fns found).grows (grows_insert p x) ok.values found fun _ _ => rfl
  names := fun {v y} found => by
    rw [value?_insert] at found
    split at found
    · cases found
      exact name
    · exact ok.names found
  distinct := ok.distinct

/-- Functions do not change when a value is added or named. -/
theorem Tidy.grows {p' : Program} (tidy : p.Tidy) (grows : p.Grows p') (same : p'.fns = p.fns) :
    p'.Tidy := by
  constructor
  intro f d b is found here nonempty
  have found' : p.fn? f = some d := by
    unfold fn? at found ⊢
    rwa [same] at found
  exact (tidy.reach found' here nonempty).grows grows (.refl d)

/-! ## Naming a value -/

theorem Ok.rename (ok : p.Ok avail) {v : ValueId} {x : Value} (found : p.value? v = some x)
    {name : String} (nameOk : name.toList.head? = some '@') : (p.rename v name).Ok avail where
  values := fun has =>
    (ok.values ((has_rename_iff found).mp has)).grows (grows_rename found name)
  fns := fun here => (ok.fns here).grows (grows_rename found name) ok.values here fun _ _ => rfl
  names := fun {w y} here => by
    rw [value?_rename found] at here
    split at here
    · cases here
      exact .inl nameOk
    · exact ok.names here
  distinct := ok.distinct

/-- Naming the value that was added last is adding it with that name. -/
theorem insert_rename (p : Program) (x : Value) (name : String) :
    (p.insert x).2.rename (p.values.size + 1) name = (p.insert { x with name := name }).2 := by
  have same : (p.values.push x).modify p.values.size ({ · with name := name }) =
      p.values.push { x with name := name } := by
    apply Array.ext
    · simp
    · intro i h₁ h₂
      rw [Array.getElem_modify]
      by_cases last : p.values.size = i
      · subst last; simp
      · have inside : i < p.values.size := by
          simp only [Array.size_push] at h₂
          omega
        simp [last, Array.getElem_push_lt inside]
  simp only [Program.insert, rename, Nat.add_sub_cancel, same]

theorem setGlobalName_insert (p : Program) {x : Value} (home : x.home = none) (name : String) :
    (p.insert x).2.setGlobalName (p.values.size + 1) name =
      .ok (p.insert { x with name := name }).2 := by
  have has := has_insert p x
  rw [home] at has
  obtain ⟨y, found, -⟩ := global_eq_ok ⟨_, _, has, .inl rfl⟩
  simp only [setGlobalName, found, insert_rename p x name, bind, Except.bind]
  rfl

/-! ## Appending an instruction -/

/-- A value in the middle of a list was there before something was put at the end. -/
theorem mem_of_append_eq {xs ys : List ValueId} {v w u : ValueId}
    (eq : is ++ [v] = xs ++ w :: u :: ys) : w ∈ is := by
  have last : (is ++ [v]).dropLast = is := List.dropLast_concat
  have inner : (xs ++ w :: u :: ys).dropLast = xs ++ w :: (u :: ys).dropLast := by
    rw [List.dropLast_append_of_ne_nil (by simp)]
    rfl
  rw [← last, eq, inner]
  simp

/-- The parts of a list to whose end something was put. -/
theorem append_eq_cases {xs ys : List ValueId} {v w : ValueId}
    (eq : is ++ [v] = xs ++ w :: ys) :
    (ys = [] ∧ w = v ∧ xs = is) ∨ ∃ zs, is = xs ++ w :: zs := by
  rcases List.eq_nil_or_concat ys with rfl | ⟨zs, u, rfl⟩
  · obtain ⟨rfl, last⟩ := List.append_inj' eq rfl
    cases last
    exact .inl ⟨rfl, rfl, rfl⟩
  · right
    have shape : xs ++ w :: (zs ++ [u]) = (xs ++ w :: zs) ++ [u] := by simp
    rw [List.concat_eq_append, shape] at eq
    exact ⟨zs, (List.append_inj' eq rfl).1⟩

theorem FnOk.append (ok : p.FnOk avail f d)
    (here : d.insts? b = some is) {v : ValueId} {t : Ty} {x : ValueDef}
    (has : p.Has v (some f) t x) (kind : x.isInstruction = true)
    (fresh : ∀ {c js}, d.insts? c = some js → v ∉ js)
    (plain : ∀ w ∈ is, ¬ p.IsTerm w)
    (uses : ∀ o ∈ x.operands, p.Free f o ∨ o ∈ avail b ∨ o ∈ is)
    (edges : ∀ c ∈ x.targets, ∀ o ∈ avail c, o ∈ avail b ∨ o ∈ is) :
    (p.setFn f (d.append b v)).FnOk avail f (d.append b v) := by
  -- A block of the longer function is either the block at hand with one more instruction, or as it
  -- was; every field below is split that way.
  have block {c js} (h : (d.append b v).insts? c = some js) :
      (c = b ∧ js = is ++ [v]) ∨ (c ≠ b ∧ d.insts? c = some js) := by
    rw [Fn.insts?_append] at h
    split at h
    · rename_i same
      rw [here] at h
      cases h
      exact .inl ⟨same, rfl⟩
    · exact .inr ⟨‹_›, h⟩
  have ghosts {c js} (h : d.insts? c = some js) :
      ∃ ks, (d.append b v).insts? c = some ks ∧ ∀ o ∈ js, o ∈ ks := by
    obtain ⟨more, grown⟩ := (Fn.grows_append d b v).insts h
    exact ⟨js ++ more, grown, fun o ho => by simp [ho]⟩
  exact {
    ret := ok.ret
    distinct := by rw [Fn.blocks_append]; exact ok.distinct
    homes := fun mem => by
      rw [Fn.blocks_append] at mem
      exact ok.homes mem
    arity := ok.arity
    params := ok.params
    placed := fun h mem => by
      rcases block h with ⟨rfl, rfl⟩ | ⟨-, h⟩
      · rcases List.mem_append.mp mem with old | new
        · exact ok.placed here old
        · obtain rfl := List.mem_singleton.mp new
          exact ⟨t, x, has, kind⟩
      · exact ok.placed h mem
    nodup := fun h => by
      rcases block h with ⟨rfl, rfl⟩ | ⟨-, h⟩
      · rw [List.nodup_append]
        refine ⟨ok.nodup here, by simp, ?_⟩
        rintro o ho w hw rfl
        obtain rfl := List.mem_singleton.mp hw
        exact fresh here ho
      · exact ok.nodup h
    once := fun {c e js ks w} h h' mem mem' => by
      rcases block h with ⟨rfl, rfl⟩ | ⟨-, g⟩ <;> rcases block h' with ⟨rfl, rfl⟩ | ⟨-, g'⟩
      · rfl
      · rcases List.mem_append.mp mem with old | new
        · exact ok.once here g' old mem'
        · obtain rfl := List.mem_singleton.mp new
          exact absurd mem' (fresh g')
      · rcases List.mem_append.mp mem' with old | new
        · exact ok.once g here mem old
        · obtain rfl := List.mem_singleton.mp new
          exact absurd mem (fresh g)
      · exact ok.once g g' mem mem'
    early := fun h => by
      rcases block h with ⟨rfl, same⟩ | ⟨-, h⟩
      · exact plain _ (mem_of_append_eq same.symm)
      · exact ok.early h
    uses := fun {c xs w ys h' t' y o} h has' mem => by
      rcases block h with ⟨rfl, same⟩ | ⟨-, h⟩
      · rcases append_eq_cases same.symm with ⟨rfl, rfl, rfl⟩ | ⟨zs, rfl⟩
        · obtain ⟨rfl, rfl, rfl⟩ := has.unique has'
          exact uses o mem
        · exact ok.uses here has' mem
      · exact ok.uses h has' mem
    edges := fun {c js w h' t' y e o} h mem has' target inside => by
      rcases block h with ⟨rfl, rfl⟩ | ⟨-, h⟩
      · rcases List.mem_append.mp mem with old | new
        · exact (ok.edges here old has' target inside).imp_right (List.mem_append_left _)
        · obtain rfl := List.mem_singleton.mp new
          obtain ⟨rfl, rfl, rfl⟩ := has.unique has'
          exact (edges e target o inside).imp_right (List.mem_append_left _)
      · exact ok.edges h mem has' target inside
    entry := fun first => by
      rw [Fn.blocks_append] at first
      exact ok.entry first
    laid := fun mem inside => by
      rw [Fn.blocks_append] at mem
      obtain ⟨c, js, h, placed⟩ := ok.laid mem inside
      obtain ⟨ks, h', sub⟩ := ghosts h
      exact ⟨c, ks, h', sub _ placed⟩ }

/-- Names of functions stay the same when the rest of a function changes. -/
theorem names_setFn {e : Fn} (found : p.fn? f = some d) (same : e.name = d.name) :
    (p.setFn f e).fns.toList.map (·.name) = p.fns.toList.map (·.name) := by
  have bounds := numbered?_bounds found
  have at_d : p.fns[f - 1]? = some d := by
    unfold fn? numbered? at found
    rwa [if_neg (Nat.ne_of_gt bounds.1)] at found
  apply List.ext_getElem?
  intro i
  simp only [setFn, List.getElem?_map, Array.getElem?_toList, Array.getElem?_setIfInBounds]
  by_cases h : f - 1 = i
  · subst h
    rw [if_pos rfl, if_pos (Array.getElem?_eq_some_iff.mp at_d).1, at_d]
    simp [same]
  · rw [if_neg h]

/-- Changing one function keeps the program in order when the new function is. -/
theorem Ok.setFn (ok : p.Ok avail) (found : p.fn? f = some d) {e : Fn} (grows : d.Grows e)
    (fnOk : (p.setFn f e).FnOk avail f e) : (p.setFn f e).Ok avail where
  values := fun {v h t x} has => by
    have old : p.Has v h t x := has
    exact (ok.values old).grows (grows_setFn found grows)
  fns := fun {g d'} here => by
    rw [fn?_setFn found] at here
    split at here
    · rename_i same
      subst same
      cases here
      exact fnOk
    · exact (ok.fns here).grows (grows_setFn found grows) ok.values here fun _ _ => rfl
  names := ok.names
  distinct := by
    rw [names_setFn found grows.name]
    exact ok.distinct

theorem Tidy.append (tidy : p.Tidy) (found : p.fn? f = some d) {v : ValueId}
    (reaches : d.Reaches p b) : (p.setFn f (d.append b v)).Tidy := by
  have grows := grows_setFn found (Fn.grows_append d b v)
  constructor
  intro g e c js here insts nonempty
  rw [fn?_setFn found] at here
  split at here
  · cases here
    rw [Fn.insts?_append] at insts
    split at insts
    · rename_i same
      subst same
      exact reaches.grows grows (Fn.grows_append d c v)
    · exact (tidy.reach found insts nonempty).grows grows (Fn.grows_append d b v)
  · exact (tidy.reach here insts nonempty).grows grows (.refl e)

/-! ## Adding a block -/

/-- A program with a new block at the end of a function. -/
def withBlock (p : Program) (f : FnId) (d : Fn) (name : String) : Program :=
  (p.newBlock f name).2.setFn f (d.extend (p.blocks.size + 1))

theorem FnOk.fresh_block (ok : p.FnOk avail f d) : d.insts? (p.blocks.size + 1) = none := by
  cases h : d.insts? (p.blocks.size + 1) with
  | none => rfl
  | some is =>
    exact absurd (block?_le_size (ok.homes (Fn.mem_blocks_of_insts? h))) (Nat.not_succ_le_self _)

theorem grows_withBlock (found : p.fn? f = some d) (fresh : d.insts? (p.blocks.size + 1) = none)
    (name : String) : p.Grows (p.withBlock f d name) :=
  have found' : (p.newBlock f name).2.fn? f = some d := found
  (grows_newBlock p f name).trans (grows_setFn found' (Fn.grows_extend d _ fresh))

theorem fn?_withBlock (found : p.fn? f = some d) (name : String) (g : FnId) :
    (p.withBlock f d name).fn? g =
      if g = f then some (d.extend (p.blocks.size + 1)) else p.fn? g :=
  have found' : (p.newBlock f name).2.fn? f = some d := found
  fn?_setFn found' _ g

/-- The function that got a block. -/
theorem fn?_withBlock_self (found : p.fn? f = some d) (name : String) :
    (p.withBlock f d name).fn? f = some (d.extend (p.blocks.size + 1)) :=
  (fn?_withBlock found name f).trans (if_pos rfl)

theorem names_withBlock (found : p.fn? f = some d) (name : String) :
    (p.withBlock f d name).fns.toList.map (·.name) = p.fns.toList.map (·.name) :=
  have found' : (p.newBlock f name).2.fn? f = some d := found
  names_setFn found' rfl

/-- What is available in the old blocks does not change when a block is made. -/
theorem update_small (avail : Avail) (inside : Set ValueId) {n c : BlockId} (small : c ≤ n) :
    Function.update avail (n + 1) inside c = avail c :=
  Function.update_of_ne (Nat.ne_of_lt (Nat.lt_succ_of_le small)) ..

theorem FnOk.withBlock (ok : p.Ok avail) (found : p.fn? f = some d) (name : String)
    {inside : Set ValueId} (first : d.blocks = [] → inside = ∅)
    (laid : ∀ o ∈ inside, ∃ c js, d.insts? c = some js ∧ o ∈ js) :
    (p.withBlock f d name).FnOk (Function.update avail (p.blocks.size + 1) inside) f
      (d.extend (p.blocks.size + 1)) := by
  have fnOk := ok.fns found
  have fresh := fnOk.fresh_block
  have grows := grows_withBlock found fresh name
  have same {c} (mem : c ∈ d.blocks) :
      Function.update avail (p.blocks.size + 1) inside c = avail c :=
    update_small avail inside (block?_le_size (fnOk.homes mem))
  -- A block of the longer function is the new one, which is empty, or as it was.
  have block {c js} (h : (d.extend (p.blocks.size + 1)).insts? c = some js) :
      (c = p.blocks.size + 1 ∧ js = []) ∨ (c ∈ d.blocks ∧ d.insts? c = some js) :=
    (Fn.insts?_extend_cases fresh h).imp_right fun old => ⟨Fn.mem_blocks_of_insts? old, old⟩
  exact {
    ret := fnOk.ret
    distinct := by
      rw [Fn.blocks_extend, List.nodup_append]
      refine ⟨fnOk.distinct, by simp, ?_⟩
      rintro c hc e he rfl
      obtain rfl := List.mem_singleton.mp he
      rw [← Fn.insts?_isSome, fresh] at hc
      cases hc
    homes := fun {c} mem => by
      rw [Fn.blocks_extend] at mem
      rcases List.mem_append.mp mem with old | new
      · exact grows.blocks (fnOk.homes old)
      · obtain rfl := List.mem_singleton.mp new
        change ((p.newBlock f name).2.block? f _).isSome
        simp [block?_newBlock]
    arity := fnOk.arity
    params := fnOk.params
    placed := fun h mem => by
      rcases block h with ⟨rfl, rfl⟩ | ⟨-, h⟩
      · cases mem
      · exact fnOk.placed h mem
    nodup := fun h => by
      rcases block h with ⟨rfl, rfl⟩ | ⟨-, h⟩
      · exact List.nodup_nil
      · exact fnOk.nodup h
    once := fun h h' mem mem' => by
      rcases block h with ⟨rfl, rfl⟩ | ⟨-, h⟩
      · cases mem
      · rcases block h' with ⟨rfl, rfl⟩ | ⟨-, h'⟩
        · cases mem'
        · exact fnOk.once h h' mem mem'
    early := fun h => by
      rcases block h with ⟨-, empty⟩ | ⟨-, h⟩
      · exact absurd empty (by simp)
      · exact fnOk.early h
    uses := fun h has mem => by
      rcases block h with ⟨-, empty⟩ | ⟨old, h⟩
      · exact absurd empty (by simp)
      · rw [same old]
        exact fnOk.uses h has mem
    edges := fun {c js v h' t x e o} h mem has target here => by
      rcases block h with ⟨rfl, rfl⟩ | ⟨old, h⟩
      · cases mem
      · obtain ⟨t', x', has', -⟩ := fnOk.placed h mem
        obtain ⟨rfl, rfl, rfl⟩ := has'.unique has
        obtain ⟨g, d', home, found', laid'⟩ := (ok.values has').targets _ target
        cases home
        rw [found] at found'
        cases found'
        rw [same old]
        rw [same laid'] at here
        exact fnOk.edges h mem has target here
    entry := fun {c} head => by
      rw [Fn.blocks_extend] at head
      cases hb : d.blocks with
      | nil =>
        rw [hb] at head
        cases head
        simp [first hb]
      | cons e es =>
        rw [hb] at head
        cases head
        have mem : c ∈ d.blocks := by simp [hb]
        rw [same mem]
        exact fnOk.entry (by simp [hb])
    laid := fun {c o} mem here => by
      rw [Fn.blocks_extend] at mem
      rcases List.mem_append.mp mem with old | new
      · rw [same old] at here
        obtain ⟨e, js, h, placed⟩ := fnOk.laid old here
        exact ⟨e, js, Fn.insts?_extend_old fresh h, placed⟩
      · obtain rfl := List.mem_singleton.mp new
        rw [Function.update_self] at here
        obtain ⟨e, js, h, placed⟩ := laid o here
        exact ⟨e, js, Fn.insts?_extend_old fresh h, placed⟩ }

theorem Ok.withBlock (ok : p.Ok avail) (found : p.fn? f = some d) (name : String)
    {inside : Set ValueId} (first : d.blocks = [] → inside = ∅)
    (laid : ∀ o ∈ inside, ∃ c js, d.insts? c = some js ∧ o ∈ js) :
    (p.withBlock f d name).Ok (Function.update avail (p.blocks.size + 1) inside) := by
  have grows := grows_withBlock found (ok.fns found).fresh_block name
  exact {
    values := fun {v h t x} has => by
      have old : p.Has v h t x := has
      exact (ok.values old).grows grows
    fns := fun {g e} here => by
      rw [fn?_withBlock found] at here
      split at here
      · rename_i home
        subst home
        cases here
        exact FnOk.withBlock ok found name first laid
      · refine (ok.fns here).grows grows ok.values here fun c mem => ?_
        exact update_small avail inside (block?_le_size ((ok.fns here).homes mem))
    names := ok.names
    distinct := by
      rw [names_withBlock found]
      exact ok.distinct }

theorem Tidy.withBlock (tidy : p.Tidy) (found : p.fn? f = some d)
    (fresh : d.insts? (p.blocks.size + 1) = none) (name : String) :
    (p.withBlock f d name).Tidy := by
  have grows := grows_withBlock found fresh name
  constructor
  intro g e c js here insts nonempty
  rw [fn?_withBlock found] at here
  split at here
  · cases here
    rcases Fn.insts?_extend_cases fresh insts with ⟨-, empty⟩ | old
    · exact absurd empty nonempty
    · exact (tidy.reach found old nonempty).grows grows (Fn.grows_extend d _ fresh)
  · exact (tidy.reach here insts nonempty).grows grows (.refl e)

/-! ## Adding a function -/

/-- The parameters of a function are new values, one for each type. -/
structure AddsParams (p : Program) (f : FnId) (index : Nat) (ts : List Ty) (vs : List ValueId)
    (p' : Program) : Prop where
  values : ∀ {v h t x}, p.Has v h t x → p'.Has v h t x
  fns : p'.fns = p.fns
  blocks : p'.blocks = p.blocks
  values_size : p.values.size ≤ p'.values.size
  length : vs.length = ts.length
  params : ∀ {i v t}, vs[i]? = some v → ts[i]? = some t → p'.Has v (some f) t (.arg (index + i))
  only : ∀ {v h t x}, p'.Has v h t x →
    p.Has v h t x ∨ ∃ i, h = some f ∧ x = .arg (index + i) ∧ vs[i]? = some v
  names : (∀ {v x}, p.value? v = some x → NameOk x) → ∀ {v x}, p'.value? v = some x → NameOk x

theorem addsParams (p : Program) (f : FnId) (index : Nat) (ts : List Ty) (names : List String)
    (isName : ∀ n ∈ names, n.toList.head? = some '@') :
    p.AddsParams f index ts (p.insertParams f index ts names).1
      (p.insertParams f index ts names).2 := by
  induction ts generalizing p index names with
  | nil =>
    exact ⟨id, rfl, rfl, Nat.le_refl _, rfl, by simp, .inl, id⟩
  | cons t ts ih =>
    let x : Value := { home := some f, ty := t, defn := .arg index, name := names.head?.getD "" }
    have rest := ih (p.insert x).2 (index + 1) names.tail
      fun n hn => isName n (List.mem_of_mem_tail hn)
    have grows := grows_insert p x
    have nameOk : NameOk x := by
      cases names with
      | nil => exact .inr ⟨rfl, rfl⟩
      | cons n ns => exact .inl (isName n (by simp))
    exact {
      values := fun has => rest.values (grows.values has)
      fns := rest.fns
      blocks := rest.blocks
      values_size := Nat.le_trans grows.values_size rest.values_size
      length := congrArg (· + 1) rest.length
      params := fun {i v t'} hv ht => by
        cases i with
        | zero =>
          cases hv
          cases ht
          exact rest.values (has_insert p x)
        | succ i =>
          have := rest.params hv ht
          rwa [Nat.add_right_comm, Nat.add_assoc] at this
      only := fun has => by
        rcases rest.only has with old | ⟨i, home, arg, found⟩
        · rcases has_insert_iff.mp old with old | ⟨rfl, rfl, rfl, rfl⟩
          · exact .inl old
          · exact .inr ⟨0, rfl, rfl, rfl⟩
        · refine .inr ⟨i + 1, home, ?_, found⟩
          rw [arg, Nat.add_right_comm, Nat.add_assoc]
      names := fun old => rest.names fun {v y} found => by
        rw [value?_insert] at found
        split at found
        · cases found
          exact nameOk
        · exact old found }

/-- A program with one more function. -/
def withFn (p : Program) (d : Fn) : Program := { p with fns := p.fns.push d }

theorem fn?_withFn (p : Program) (d : Fn) (g : FnId) :
    (p.withFn d).fn? g = if g = p.fns.size + 1 then some d else p.fn? g :=
  numbered?_push p.fns d g

theorem names_withFn (p : Program) (d : Fn) :
    (p.withFn d).fns.toList.map (·.name) = p.fns.toList.map (·.name) ++ [d.name] := by
  simp [withFn]

/-- A function that is there is not the next one. -/
theorem ne_of_fn? {g : FnId} (found : p.fn? g = some d) : g ≠ p.fns.size + 1 :=
  Nat.ne_of_lt (Nat.lt_succ_of_le (numbered?_bounds found).2)

section AddsParams

variable {ts : List Ty} {vs : List ValueId} {p₁ : Program}

/-- A function is added after its parameters. -/
theorem AddsParams.fn? (adds : p.AddsParams f 0 ts vs p₁) (d : Fn) (g : FnId) :
    (p₁.withFn d).fn? g = if g = p.fns.size + 1 then some d else p.fn? g := by
  rw [fn?_withFn, Program.fn?, Program.fn?, adds.fns]

theorem AddsParams.grows (adds : p.AddsParams f 0 ts vs p₁) (d : Fn) :
    p.Grows (p₁.withFn d) where
  values := adds.values
  fns := fun {g e} found =>
    ⟨e, (adds.fn? d g).trans ((if_neg (ne_of_fn? found)).trans found), .refl e⟩
  blocks := fun {g b} found => by
    have same : (p₁.withFn d).block? g b = p.block? g b := by
      change (numbered? p₁.blocks b).filter _ = (numbered? p.blocks b).filter _
      rw [adds.blocks]
    rw [same]
    exact found
  values_size := adds.values_size
  blocks_size := by
    change p.blocks.size ≤ p₁.blocks.size
    rw [adds.blocks]

/-- A function without blocks is in order when its parameters are. -/
theorem AddsParams.fnOk {q : Program} (adds : p.AddsParams f 0 ts vs p₁)
    (has : ∀ {v h t x}, p₁.Has v h t x → q.Has v h t x) {name : String} {r : Ty}
    (ret : r = .unit ∨ r = .i32) :
    q.FnOk avail f { name := name, paramTys := ts, ret := r, params := vs } := by
  have noBlocks : ∀ {b is},
      ({ name := name, paramTys := ts, ret := r, params := vs } : Fn).insts? b ≠ some is := by
    intro b is found
    cases found
  exact {
    ret := ret
    distinct := List.nodup_nil
    homes := nofun
    arity := adds.length
    params := fun {i v t} hv ht => by
      have param := has (adds.params hv ht)
      rwa [Nat.zero_add] at param
    placed := fun found => absurd found noBlocks
    nodup := fun found => absurd found noBlocks
    once := fun found => absurd found noBlocks
    early := fun found => absurd found noBlocks
    uses := fun found => absurd found noBlocks
    edges := fun found => absurd found noBlocks
    entry := nofun
    laid := nofun }

/-- A function that is added after its parameters keeps the program in order. -/
theorem AddsParams.ok (adds : p.AddsParams (p.fns.size + 1) 0 ts vs p₁) (ok : p.Ok avail)
    {name : String} {r : Ty} (ret : r = .unit ∨ r = .i32)
    (fresh : name ∉ p.fns.toList.map (·.name)) :
    (p₁.withFn { name := name, paramTys := ts, ret := r, params := vs }).Ok avail where
  values := fun has => by
    rcases adds.only has with old | ⟨i, rfl, rfl, found⟩
    · exact (ok.values old).grows (adds.grows _)
    · refine ⟨trivial, by simp [ValueDef.operands], by simp [ValueDef.targets], ?_, by simp⟩
      rintro j h
      obtain rfl : i = j := by simpa using h
      exact ⟨_, _, rfl, (adds.fn? _ _).trans (if_pos rfl), found⟩
  fns := fun {g e} found => by
    rw [adds.fn?] at found
    split at found
    · rename_i same
      subst same
      cases found
      exact adds.fnOk (q := p₁.withFn _) id ret
    · exact (ok.fns found).grows (adds.grows _) ok.values found fun _ _ => rfl
  names := adds.names ok.names
  distinct := by
    rw [names_withFn, adds.fns, List.nodup_append]
    refine ⟨ok.distinct, by simp, ?_⟩
    rintro n old m last rfl
    obtain rfl := List.mem_singleton.mp last
    exact fresh old

theorem AddsParams.tidy (adds : p.AddsParams f 0 ts vs p₁) (tidy : p.Tidy) {d : Fn}
    (empty : d.layout = []) : (p₁.withFn d).Tidy := by
  constructor
  intro g e b is found insts nonempty
  rw [adds.fn?] at found
  split at found
  · cases found
    rw [Fn.insts?, empty] at insts
    cases insts
  · exact (tidy.reach found insts nonempty).grows (adds.grows d) (.refl e)

end AddsParams

/-- What holds after a function without blocks was added. -/
structure NewFn (avail : Avail) (p : Program) (name : String) (ps : List Ty) (r : Ty) (f : FnId)
    (p' : Program) : Prop where
  grows : p.Grows p'
  ok : p'.Ok avail
  tidy : p.Tidy → p'.Tidy
  names : p'.fns.toList.map (·.name) = p.fns.toList.map (·.name) ++ [name]
  fresh : p.fn? f = none
  others : ∀ {g}, g ≠ f → p'.fn? g = p.fn? g
  globals : ∀ {g t init}, p'.Has g none t (.globalAlloc init) → p.Has g none t (.globalAlloc init)
  fn : ∃ d, p'.fn? f = some d ∧ d.name = name ∧ d.paramTys = ps ∧ d.ret = r ∧ d.layout = []

theorem newFn_spec (ok : p.Ok avail) {name : String} (ps : List Ty) {r : Ty} {names : List String}
    (ret : r = .unit ∨ r = .i32) (fresh : name ∉ p.fns.toList.map (·.name))
    (isName : ∀ n ∈ names, n.toList.head? = some '@') :
    ∃ f p', p.newFn name (.func ps r) names = .ok (f, p') ∧ NewFn avail p name ps r f p' := by
  have adds := p.addsParams (p.fns.size + 1) 0 ps names isName
  refine ⟨_, _, rfl, {
    grows := adds.grows _
    ok := adds.ok ok ret fresh
    tidy := fun tidy => adds.tidy tidy rfl
    names := (names_withFn _ _).trans (by rw [adds.fns])
    fresh := by
      cases found : p.fn? (p.fns.size + 1) with
      | none => rfl
      | some d => exact absurd rfl (ne_of_fn? found)
    others := fun other => (adds.fn? _ _).trans (if_neg other)
    globals := fun has => ?_
    fn := ⟨_, (adds.fn? _ _).trans (if_pos rfl), rfl, rfl, rfl, rfl⟩ }⟩
  rcases adds.only has with old | ⟨i, home, -⟩
  · exact old
  · cases home

end Program
end SysY.Koopa

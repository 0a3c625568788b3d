import Mathlib.Data.List.Nodup
import Mathlib.Data.List.Perm.Subperm
import SysY.Proofs.Koopa.Assembled
import SysY.Proofs.Koopa.Naming

/-! # Names do not clash

A name is looked for among numbered candidates, and because these are pairwise different one of them
is free. Names are given one after the other and each is free when it is given, so that all names
of a function body are different from each other and from those of functions and global variables,
whatever the values and blocks of the program want to be called. -/

namespace SysY.Koopa

/-! ## Looking for a free name -/

/-- The names that are tried for a wanted name. -/
def suffixed (name : String) (i : Nat) : String := if i = 0 then name else s!"{name}_{i}"

/-- The names that are tried for a result without a wanted name. -/
def numbered (i : Nat) : String := s!"%{i}"

/-- The first candidate from `start` on that is free. -/
structure FirstFree (used : List String) (candidate : Nat → String) (start i : Nat) : Prop where
  from_start : start ≤ i
  free : candidate i ∉ used
  taken : ∀ j, start ≤ j → j < i → candidate j ∈ used

theorem toString_nat_inj {n m : Nat} (same : toString n = toString m) : n = m := by
  have digits := congrArg (fun s => Nat.ofDigitChars 10 s.toList 0) same
  simpa [Nat.toString_eq_ofList_toDigits] using digits

theorem numbered_injective : Function.Injective numbered := by
  intro i j same
  exact toString_nat_inj ((String.append_right_inj "%").mp (by simpa [numbered] using same))

theorem suffixed_injective (name : String) : Function.Injective (suffixed name) := by
  have longer : ∀ i : Nat, name ≠ s!"{name}_{i}" := by
    intro i same
    change name = name ++ "_" ++ toString i at same
    have lengths := congrArg String.length same
    rw [String.length_append, String.length_append, show "_".length = 1 by decide] at lengths
    omega
  intro i j same
  unfold suffixed at same
  by_cases first : i = 0
  · by_cases second : j = 0
    · rw [first, second]
    · rw [if_pos first, if_neg second] at same
      exact absurd same (longer j)
  · by_cases second : j = 0
    · rw [if_neg first, if_pos second] at same
      exact absurd same.symm (longer i)
    · rw [if_neg first, if_neg second] at same
      apply toString_nat_inj
      simpa using same

/-- Among more candidates than there are names, one is free. -/
theorem exists_free {used : List String} {candidate : Nat → String}
    (injective : Function.Injective candidate) (start : Nat) :
    ∃ i ≤ used.length, candidate (start + i) ∉ used := by
  by_contra none
  simp only [not_exists, not_and, not_not] at none
  have nodup : ((List.range (used.length + 1)).map fun i => candidate (start + i)).Nodup := by
    apply List.Nodup.map _ List.nodup_range
    intro i j same
    have := injective same
    omega
  have sub : ((List.range (used.length + 1)).map fun i => candidate (start + i)) ⊆ used := by
    intro s mem
    obtain ⟨i, small, rfl⟩ := List.mem_map.mp mem
    exact none i (Nat.le_of_lt_succ (List.mem_range.mp small))
  have fits := (nodup.subperm sub).length_le
  rw [List.length_map, List.length_range] at fits
  omega

/-- The search ends at the first free candidate when there is one among those that it tries. -/
theorem freshFrom_firstFree {used : List String} {candidate : Nat → String} {fuel start : Nat}
    (free : ∃ i ≤ fuel, candidate (start + i) ∉ used) :
    FirstFree used candidate start (freshFrom used candidate fuel start) := by
  induction fuel generalizing start with
  | zero =>
    obtain ⟨i, small, free⟩ := free
    obtain rfl : i = 0 := by omega
    exact ⟨Nat.le_refl _, free, fun j le lt => absurd lt (Nat.not_lt.mpr le)⟩
  | succ fuel ih =>
    rw [freshFrom]
    by_cases taken : candidate start ∈ used
    · rw [if_pos (by simpa using taken)]
      obtain ⟨i, small, free⟩ := free
      have later : i ≠ 0 := by
        rintro rfl
        exact free taken
      have next : candidate (start + 1 + (i - 1)) ∉ used := by
        rwa [show start + 1 + (i - 1) = start + i by omega]
      have rest := ih ⟨i - 1, by omega, next⟩
      refine ⟨by have := rest.from_start; omega, rest.free, fun j le lt => ?_⟩
      by_cases same : j = start
      · rw [same]
        exact taken
      · exact rest.taken j (by omega) lt
    · rw [if_neg (by simpa using taken)]
      exact ⟨Nat.le_refl _, taken, fun j le lt => absurd lt (Nat.not_lt.mpr le)⟩

theorem numbered_firstFree (used : List String) (next : Nat) :
    FirstFree used numbered next (freshFrom used numbered used.length next) :=
  freshFrom_firstFree (exists_free numbered_injective next)

theorem uniqueName_firstFree (used : List String) (name : String) :
    ∃ i, uniqueName used name = suffixed name i ∧ FirstFree used (suffixed name) 0 i :=
  ⟨_, rfl, freshFrom_firstFree (exists_free (suffixed_injective name) 0)⟩

theorem uniqueName_not_mem (used : List String) (name : String) : uniqueName used name ∉ used := by
  obtain ⟨i, eq, first⟩ := uniqueName_firstFree used name
  rw [eq]
  exact first.free

/-! ## Giving names -/

namespace Naming

/-- The name of a value. -/
def value (n : Naming) (v : ValueId) : String := (n.values.lookup v).getD default

/-- The name of a block. -/
def block (n : Naming) (b : BlockId) : String := (n.blocks.lookup b).getD ""

/-- Values and blocks were given names that were free. -/
structure Adds (n n' : Naming) (values : List (ValueId × String)) (blocks : List (BlockId × String))
    (names : List String) : Prop where
  values : n'.values = values.reverse ++ n.values
  blocks : n'.blocks = blocks.reverse ++ n.blocks
  used : n'.used = names.reverse ++ n.used
  fresh : n.used.Nodup → n'.used.Nodup

theorem Adds.refl (n : Naming) : n.Adds n [] [] [] := ⟨rfl, rfl, rfl, id⟩

theorem Adds.trans {n₁ n₂ n₃ : Naming} {vs vs' : List (ValueId × String)}
    {bs bs' : List (BlockId × String)} {ss ss' : List String} (h : n₁.Adds n₂ vs bs ss)
    (h' : n₂.Adds n₃ vs' bs' ss') : n₁.Adds n₃ (vs ++ vs') (bs ++ bs') (ss ++ ss') where
  values := by rw [h'.values, h.values, List.reverse_append, List.append_assoc]
  blocks := by rw [h'.blocks, h.blocks, List.reverse_append, List.append_assoc]
  used := by rw [h'.used, h.used, List.reverse_append, List.append_assoc]
  fresh := fun nodup => h'.fresh (h.fresh nodup)

/-- New names differ from each other and from those that were taken before. -/
theorem Adds.nodup {n n' : Naming} {vs : List (ValueId × String)} {bs : List (BlockId × String)}
    {ss before : List String} (h : n.Adds n' vs bs ss) (perm : before.Perm n.used)
    (nodup : before.Nodup) : (before ++ ss).Nodup ∧ (before ++ ss).Perm n'.used := by
  have same : (before ++ ss).Perm n'.used := by
    rw [h.used]
    exact List.perm_append_comm.trans ((List.reverse_perm ss).symm.append perm)
  exact ⟨same.nodup_iff.mpr (h.fresh (perm.nodup_iff.mp nodup)), same⟩

theorem adds_nameValue (n : Naming) (v : ValueId) (wanted fallback : String) :
    ∃ s, n.Adds (n.nameValue v wanted fallback) [(v, s)] [] [s] :=
  ⟨_, rfl, rfl, rfl, fun nodup => List.nodup_cons.mpr ⟨uniqueName_not_mem _ _, nodup⟩⟩

theorem adds_nameBlock (n : Naming) (b : BlockId) (wanted fallback : String) :
    ∃ s, n.Adds (n.nameBlock b wanted fallback) [] [(b, s)] [s] :=
  ⟨_, rfl, rfl, rfl, fun nodup => List.nodup_cons.mpr ⟨uniqueName_not_mem _ _, nodup⟩⟩

end Naming

/-- Looking up keys that were put in front of a list one after the other. -/
theorem map_lookup_zip {keys : List Nat} {ss : List String} (distinct : keys.Nodup)
    (same : ss.length = keys.length) (rest : List (Nat × String)) (other : String) :
    keys.map (fun k => (((keys.zip ss).reverse ++ rest).lookup k).getD other) = ss := by
  induction keys generalizing ss rest with
  | nil => exact (List.length_eq_zero_iff.mp same).symm
  | cons k ks ih =>
    cases ss with
    | nil => cases same
    | cons s ss =>
      rw [List.nodup_cons] at distinct
      have shift : ((k :: ks).zip (s :: ss)).reverse ++ rest =
          (ks.zip ss).reverse ++ ((k, s) :: rest) := by simp
      have first : ((ks.zip ss).reverse).lookup k = none := by
        rw [List.lookup_eq_none_iff]
        intro entry mem
        have inside := (List.of_mem_zip (List.mem_reverse.mp mem)).1
        rw [bne_iff_ne]
        rintro rfl
        exact distinct.1 inside
      rw [shift, List.map_cons, ih distinct.2 (by simpa using same), List.lookup_append, first]
      simp

namespace Program

variable {p : Program} {f : FnId} {d : Fn}

theorem nameParams_eq_ok {n n' : Naming} {index : Nat} {vs : List ValueId}
    (named : p.nameParams f n index vs = .ok n') :
    ∃ ss, ss.length = vs.length ∧ n.Adds n' (vs.zip ss) [] ss := by
  induction vs generalizing n index with
  | nil =>
    cases named
    exact ⟨[], rfl, .refl _⟩
  | cons v vs ih =>
    rw [nameParams] at named
    obtain ⟨x, -, named⟩ := Except.bind_eq_ok.mp named
    obtain ⟨s, first⟩ := n.adds_nameValue v x.name s!"%arg{index}"
    obtain ⟨ss, same, rest⟩ := ih named
    exact ⟨s :: ss, by simp [same], first.trans rest⟩

theorem nameBlocks_eq_ok {n n' : Naming} {index : Nat} {bs : List BlockId}
    (named : p.nameBlocks f n index bs = .ok n') :
    ∃ ss, ss.length = bs.length ∧ n.Adds n' [] (bs.zip ss) ss := by
  induction bs generalizing n index with
  | nil =>
    cases named
    exact ⟨[], rfl, .refl _⟩
  | cons b bs ih =>
    rw [nameBlocks] at named
    obtain ⟨x, -, named⟩ := Except.bind_eq_ok.mp named
    obtain ⟨s, first⟩ := n.adds_nameBlock b x.name s!"%bb_{index}"
    obtain ⟨ss, same, rest⟩ := ih named
    exact ⟨s :: ss, by simp [same], first.trans rest⟩

/-- Whether a value of a function has a result. -/
def hasResult (p : Program) (f : FnId) (v : ValueId) : Bool :=
  (p.local? f v).any (·.ty ≠ .unit)

theorem nameInsts_eq_ok {n n' : Naming} {next : Nat} {vs : List ValueId}
    (named : p.nameInsts f n next vs = .ok n') :
    ∃ ss, ss.length = (vs.filter (p.hasResult f)).length ∧
      n.Adds n' ((vs.filter (p.hasResult f)).zip ss) [] ss := by
  induction vs generalizing n next with
  | nil =>
    cases named
    exact ⟨[], rfl, .refl _⟩
  | cons v vs ih =>
    rw [nameInsts] at named
    obtain ⟨x, found, named⟩ := Except.bind_eq_ok.mp named
    have here : p.local? f v = some x := by
      cases known : p.local? f v with
      | none =>
        rw [known] at found
        cases found
      | some y =>
        rw [known] at found
        cases found
        rfl
    by_cases unit : x.ty = .unit
    · rw [if_pos unit] at named
      rw [List.filter_cons_of_neg (by simp [hasResult, here, unit])]
      exact ih named
    · rw [if_neg unit] at named
      rw [List.filter_cons_of_pos (by simp [hasResult, here, unit])]
      -- Whatever the first result is named, the rest goes on with one more name.
      have goOn : ∀ {wanted : String} {next' : Nat},
          p.nameInsts f (n.nameValue v wanted "") next' vs = .ok n' →
            ∃ ss, ss.length = (v :: vs.filter (p.hasResult f)).length ∧
              n.Adds n' ((v :: vs.filter (p.hasResult f)).zip ss) [] ss := by
        intro wanted next' named
        obtain ⟨s, first⟩ := n.adds_nameValue v wanted ""
        obtain ⟨ss, same, rest⟩ := ih named
        exact ⟨s :: ss, by simp [same], first.trans rest⟩
      by_cases wanted : x.name ≠ ""
      · rw [if_pos wanted] at named
        exact goOn named
      · rw [if_neg wanted] at named
        exact goOn named

/-! ## What can be named

Naming fails on a parameter, block or instruction that does not belong to the function, and on
nothing else. -/

theorem known_bind_isOk {α β : Type} {a : Option α} {next : α → Outcome β}
    {rest : Prop} (go : ∀ x, a = some x → ((∃ b, next x = .ok b) ↔ rest)) :
    (∃ b, (known a >>= next) = .ok b) ↔ a.isSome ∧ rest := by
  cases a with
  | none => simp [known, Outcome.outOfRange, bind, Except.bind]
  | some x => exact (go x rfl).trans (and_iff_right rfl).symm

theorem nameParams_isOk {n : Naming} {index : Nat} {vs : List ValueId} :
    (∃ n', p.nameParams f n index vs = .ok n') ↔ ∀ v ∈ vs, (p.local? f v).isSome := by
  induction vs generalizing n index with
  | nil => exact ⟨fun _ v mem => (by cases mem), fun _ => ⟨n, rfl⟩⟩
  | cons v vs ih =>
    rw [List.forall_mem_cons, nameParams]
    exact known_bind_isOk fun x _ => ih

theorem nameBlocks_isOk {n : Naming} {index : Nat} {bs : List BlockId} :
    (∃ n', p.nameBlocks f n index bs = .ok n') ↔ ∀ b ∈ bs, (p.block? f b).isSome := by
  induction bs generalizing n index with
  | nil => exact ⟨fun _ b mem => (by cases mem), fun _ => ⟨n, rfl⟩⟩
  | cons b bs ih =>
    rw [List.forall_mem_cons, nameBlocks]
    exact known_bind_isOk fun x _ => ih

theorem nameInsts_isOk {n : Naming} {next : Nat} {vs : List ValueId} :
    (∃ n', p.nameInsts f n next vs = .ok n') ↔ ∀ v ∈ vs, (p.local? f v).isSome := by
  induction vs generalizing n next with
  | nil => exact ⟨fun _ v mem => (by cases mem), fun _ => ⟨n, rfl⟩⟩
  | cons v vs ih =>
    rw [List.forall_mem_cons, nameInsts]
    refine known_bind_isOk fun x _ => ?_
    by_cases unit : x.ty = .unit
    · rw [if_pos unit]
      exact ih
    · rw [if_neg unit]
      by_cases wanted : x.name ≠ ""
      · rw [if_pos wanted]
        exact ih
      · rw [if_neg wanted]
        exact ih

theorem Arranged.params_known (arranged : p.Arranged) (found : p.fn? f = some d) :
    ∀ v ∈ d.params, (p.local? f v).isSome := by
  intro v mem
  obtain ⟨t, x, has⟩ := arranged.params found mem
  obtain ⟨y, here, -⟩ := local?_of_has has
  rw [here]
  rfl

/-- The names inside a function are given when its layout holds only blocks and instructions of its
own. -/
theorem Arranged.fnNaming_isOk (arranged : p.Arranged) (found : p.fn? f = some d) :
    (∃ names, p.fnNaming f d = .ok names) ↔ (∀ b ∈ d.blocks, (p.block? f b).isSome) ∧
      ∀ v ∈ d.layout.flatMap (·.2), (p.local? f v).isSome := by
  obtain ⟨given, params⟩ : ∃ given, p.paramNaming f d = .ok given :=
    nameParams_isOk.mpr (arranged.params_known found)
  have blocks : (∃ n, p.nameBlocks f given 0 d.blocks = .ok n) ↔
      ∀ b ∈ d.blocks, (p.block? f b).isSome := nameBlocks_isOk
  rw [fnNaming, params, ok_bind, ← blocks]
  constructor
  · rintro ⟨names, named⟩
    obtain ⟨n, blocks, insts⟩ := Except.bind_eq_ok.mp named
    exact ⟨⟨n, blocks⟩, nameInsts_isOk.mp ⟨names, insts⟩⟩
  · rintro ⟨⟨n, blocks⟩, insts⟩
    rw [blocks, ok_bind]
    exact nameInsts_isOk.mpr insts

/-! ## Names in scope -/

/-- The values of a function that are laid out and have a result, in order. -/
def results (p : Program) (f : FnId) (d : Fn) : List ValueId :=
  (d.layout.flatMap (·.2)).filter (p.hasResult f)

/-- The names of functions and global variables. -/
def outerNames (p : Program) : List String :=
  p.fns.toList.map (·.name) ++ p.globals.map p.globalNaming.value

/-- The names of the parameters of a function, which are printed in its head, and of its blocks and
results. -/
def innerNames (p : Program) (f : FnId) (d : Fn) (given names : Naming) : List String :=
  d.params.map given.value ++ (d.blocks.map names.block ++ (p.results f d).map names.value)

theorem globals_nodup (p : Program) : p.globals.Nodup := by
  apply List.Nodup.filter
  apply List.Nodup.map _ List.nodup_range
  intro i j same
  exact Nat.succ.inj same

/-- Global variables are given names that are free. -/
theorem globalNaming_adds (p : Program) : ∃ ss, ss.length = p.globals.length ∧
    Naming.Adds { used := p.fns.toList.map (·.name) } p.globalNaming (p.globals.zip ss) [] ss := by
  unfold globalNaming
  generalize ({ used := p.fns.toList.map (·.name) } : Naming) = n
  generalize p.globals = gs
  induction gs generalizing n with
  | nil => exact ⟨[], rfl, .refl _⟩
  | cons g gs ih =>
    obtain ⟨s, first⟩ := n.adds_nameValue g (((p.global? g).map (·.name)).getD "") "@g"
    obtain ⟨ss, same, rest⟩ := ih (n.nameValue g (((p.global? g).map (·.name)).getD "") "@g")
    exact ⟨s :: ss, by simp [same], first.trans rest⟩

theorem outerNames_nodup (p : Program) (distinct : (p.fns.toList.map (·.name)).Nodup) :
    p.outerNames.Nodup ∧ p.outerNames.Perm p.globalNaming.used := by
  obtain ⟨ss, same, adds⟩ := p.globalNaming_adds
  have values : p.globals.map p.globalNaming.value = ss := by
    unfold Naming.value
    rw [adds.values]
    exact map_lookup_zip p.globals_nodup same [] default
  rw [outerNames, values]
  exact adds.nodup (.refl _) distinct

/-- What the names inside an arranged function are, and that nothing else is named there. -/
theorem Arranged.innerNames_eq (arranged : p.Arranged) (found : p.fn? f = some d)
    (once : (d.layout.flatMap (·.2)).Nodup) {given names : Naming}
    (params : p.paramNaming f d = .ok given) (all : p.fnNaming f d = .ok names) :
    ∃ vs bs, ({ used := p.globalNaming.used } : Naming).Adds names vs bs
        (p.innerNames f d given names) ∧
      (∀ entry ∈ vs, entry.2 ∈ p.innerNames f d given names) ∧
      ∀ entry ∈ bs, entry.2 ∈ p.innerNames f d given names := by
  rw [fnNaming, params, ok_bind] at all
  obtain ⟨n, blocks, insts⟩ := Except.bind_eq_ok.mp all
  obtain ⟨ss₁, same₁, adds₁⟩ := nameParams_eq_ok params
  obtain ⟨ss₂, same₂, adds₂⟩ := nameBlocks_eq_ok blocks
  obtain ⟨ss₃, same₃, adds₃⟩ := nameInsts_eq_ok insts
  have first : d.params.map given.value = ss₁ := by
    unfold Naming.value
    rw [adds₁.values]
    exact map_lookup_zip (arranged.distinct found) same₁ [] default
  have second : d.blocks.map names.block = ss₂ := by
    unfold Naming.block
    rw [adds₃.blocks, adds₂.blocks]
    exact map_lookup_zip (arranged.blocks found) same₂ given.blocks ""
  have third : (p.results f d).map names.value = ss₃ := by
    unfold Naming.value
    rw [adds₃.values]
    exact map_lookup_zip (once.filter _) same₃ n.values default
  rw [innerNames, first, second, third]
  refine ⟨_, _, adds₁.trans (adds₂.trans adds₃), ?_, ?_⟩
  · intro entry mem
    rcases List.mem_append.mp mem with param | result
    · exact List.mem_append_left _ (List.of_mem_zip param).2
    · exact List.mem_append_right _ (List.mem_append_right _ (List.of_mem_zip result).2)
  · intro entry mem
    rw [List.nil_append, List.append_nil] at mem
    exact List.mem_append_right _ (List.mem_append_left _ (List.of_mem_zip mem).2)

/-- In an assembled program in which functions have different names and no function places an
instruction twice, the names of functions and global variables are pairwise different, and so are
all names in the body of a function together with them: every name that is given there is defined
once. Giving them fails only if the layout holds parts of other functions, and every search for a
name ends at the first candidate that is free. -/
theorem printed_names_distinct (assembled : p.Assembled)
    (distinct : (p.fns.toList.map (·.name)).Nodup)
    (once : ∀ {f d}, p.fn? f = some d → (d.layout.flatMap (·.2)).Nodup) :
    p.outerNames.Nodup ∧
    (∀ {f d}, p.fn? f = some d →
      ((∃ names, p.fnNaming f d = .ok names) ↔ (∀ b ∈ d.blocks, (p.block? f b).isSome) ∧
        ∀ v ∈ d.layout.flatMap (·.2), (p.local? f v).isSome) ∧
      ∀ {given names}, p.paramNaming f d = .ok given → p.fnNaming f d = .ok names →
        let scope := p.outerNames ++ p.innerNames f d given names
        scope.Nodup ∧ (∀ v s, (v, s) ∈ names.values → scope.count s = 1) ∧
          ∀ b s, (b, s) ∈ names.blocks → scope.count s = 1) ∧
    (∀ used name, ∃ i, uniqueName used name = suffixed name i ∧
      FirstFree used (suffixed name) 0 i) ∧
    ∀ used next, FirstFree used numbered next (freshFrom used numbered used.length next) := by
  obtain ⟨outer, same⟩ := p.outerNames_nodup distinct
  refine ⟨outer, ?_, uniqueName_firstFree, numbered_firstFree⟩
  intro f d found
  refine ⟨assembled.arranged.fnNaming_isOk found, ?_⟩
  intro given names params all scope
  obtain ⟨vs, bs, adds, values, blocks⟩ :=
    assembled.arranged.innerNames_eq found (once found) params all
  have nodup := (adds.nodup same outer).1
  refine ⟨nodup, ?_, ?_⟩
  · intro v s mem
    rw [adds.values, List.append_nil, List.mem_reverse] at mem
    exact List.count_eq_one_of_mem nodup (List.mem_append_right _ (values _ mem))
  · intro b s mem
    rw [adds.blocks, List.append_nil, List.mem_reverse] at mem
    exact List.count_eq_one_of_mem nodup (List.mem_append_right _ (blocks _ mem))

/-- The edits that make `clashing`. -/
def clashingEdits : List Edit :=
  [.newFn "@x" (.func [.i32, .i32] .i32) ["@x", ""],
   .integer none 1, .globalAlloc 3, .setGlobalName 4 "@x", .globalAlloc 3, .setGlobalName 5 "@x_1",
   .newBlock 1 "", .newBlock 1 "%0", .pushBlock 1 1, .pushBlock 1 2,
   .load 1 4, .setName 1 6 "%bb_0", .pushInst 1 1 6, .load 1 5, .pushInst 1 1 7,
   .jump 1 2, .pushInst 1 1 8, .ret 1 7, .pushInst 1 2 9]

/-- A program in which a function, two global variables, a parameter, a block and a result want to
be called what others are called. -/
def clashing : Program := (Edit.run clashingEdits).toOption.getD {}

theorem clashing_assembled : clashing.Assembled := ⟨clashingEdits, by rfl⟩

/-- The only function of `clashing`. -/
theorem clashing_fn? {f : FnId} {d : Fn} (found : clashing.fn? f = some d) :
    f = 1 ∧ d.layout = [(1, [6, 7, 8]), (2, [9])] := by
  have bounds := numbered?_bounds found
  have size : clashing.fns.size = 1 := by rfl
  obtain rfl : f = 1 := Nat.le_antisymm (size ▸ bounds.2) bounds.1
  cases found
  exact ⟨rfl, rfl⟩

theorem clashing_names_distinct : ∃ d given names, clashing.fn? 1 = some d ∧
    clashing.paramNaming 1 d = .ok given ∧ clashing.fnNaming 1 d = .ok names ∧
    clashing.outerNames ++ clashing.innerNames 1 d given names =
      ["@x", "@x_1", "@x_1_1", "@x_2", "%arg1", "%bb_0", "%0", "%bb_0_1", "%1"] ∧
    (clashing.outerNames ++ clashing.innerNames 1 d given names).Nodup := by
  have once : ∀ {f d}, clashing.fn? f = some d → (d.layout.flatMap (·.2)).Nodup := by
    intro f d found
    rw [(clashing_fn? found).2]
    decide
  have all := printed_names_distinct clashing_assembled (by decide) once
  have named := (all.2.1 (f := 1) rfl).2 rfl rfl
  exact ⟨_, _, _, rfl, rfl, rfl, rfl, named.1⟩

end Program

end SysY.Koopa

import SysY.Koopa.Text
import SysY.Proofs.Koopa.Finish

/-! # Names in the text of a program

Global variables, parameters and results of instructions have a name in the text of a program, so an
operand is printed as a name or as a constant. The placeholder that starts with a question mark is
for operands that are neither, and a program that was built in order has none. -/

namespace SysY.Koopa

/-- The first character tells a name from other text. -/
def IsName (s : String) : Prop := s.toList.head? = some '@' ∨ s.toList.head? = some '%'

theorem IsName.append {s : String} (h : IsName s) (t : String) : IsName (s ++ t) := by
  unfold IsName at h ⊢
  rw [String.toList_append, List.head?_append]
  rcases h with h | h <;> simp [h]

theorem IsName.ne_empty {s : String} (h : IsName s) : s ≠ "" := by
  rintro rfl
  rcases h with h | h <;> cases h

theorem isName_uniqueName (used : List String) {name : String} (h : IsName name) :
    IsName (uniqueName used name) := by
  simp only [uniqueName]
  split
  · exact h
  · exact (h.append _).append _

namespace Naming

/-- Only names are given. -/
def Good (n : Naming) : Prop := ∀ {v s}, (v, s) ∈ n.values → IsName s

/-- A value has a name. -/
def Names (n : Naming) (v : ValueId) : Prop := ∃ s, (v, s) ∈ n.values

/-- Names are kept, and only names are added. -/
structure Later (n n' : Naming) : Prop where
  good : n.Good → n'.Good
  kept : ∀ {v}, n.Names v → n'.Names v

theorem Later.refl (n : Naming) : n.Later n := ⟨id, id⟩

theorem Later.trans {n₁ n₂ n₃ : Naming} (h : n₁.Later n₂) (h' : n₂.Later n₃) : n₁.Later n₃ :=
  ⟨fun good => h'.good (h.good good), fun names => h'.kept (h.kept names)⟩

theorem later_nameValue {n : Naming} {v : ValueId} {wanted fallback : String}
    (isName : IsName (if wanted = "" then fallback else wanted)) :
    n.Later (n.nameValue v wanted fallback) where
  good := fun good {w s} mem => by
    rcases List.mem_cons.mp mem with new | old
    · cases new
      exact isName_uniqueName n.used isName
    · exact good old
  kept := fun ⟨s, mem⟩ => ⟨s, List.mem_cons_of_mem _ mem⟩

theorem names_nameValue (n : Naming) (v : ValueId) (wanted fallback : String) :
    (n.nameValue v wanted fallback).Names v := ⟨_, List.mem_cons_self⟩

/-- What is found for a value is a name, and something is found for a value that has one. -/
theorem Good.lookup {n : Naming} (good : n.Good) {v : ValueId} {s : String}
    (found : n.values.lookup v = some s) : IsName s := by
  obtain ⟨l₁, l₂, eq, -⟩ := List.lookup_eq_some_iff.mp found
  exact good (v := v) (by rw [eq]; simp)

theorem Names.lookup {n : Naming} {v : ValueId} (names : n.Names v) :
    n.values.lookup v ≠ none := by
  obtain ⟨s, mem⟩ := names
  intro missing
  simpa using List.lookup_eq_none_iff.mp missing _ mem

end Naming

namespace Program

variable {p : Program} {avail : Avail} {f : FnId} {d : Fn}

theorem isName_of_ne_empty {x : Value} (ok : NameOk x) (wanted : x.name ≠ "") : IsName x.name := by
  rcases ok with named | ⟨empty, -⟩
  · exact .inl named
  · exact absurd empty wanted

/-- The name that a value gets, if there is a fallback. -/
theorem isName_or {x : Value} (ok : NameOk x) {fallback : String} (isName : IsName fallback) :
    IsName (if x.name = "" then fallback else x.name) := by
  split
  · exact isName
  · exact isName_of_ne_empty ok ‹_›

theorem nameParams_spec {vs : List ValueId} (n : Naming) (index : Nat)
    (known : ∀ v ∈ vs, ∃ x, p.local? f v = some x ∧ NameOk x) :
    ∃ n', p.nameParams f n index vs = .ok n' ∧ n.Later n' ∧ ∀ v ∈ vs, n'.Names v := by
  induction vs generalizing n index with
  | nil => exact ⟨n, rfl, .refl n, by simp⟩
  | cons v vs ih =>
    obtain ⟨x, found, nameOk⟩ := known v (by simp)
    have arg : IsName s!"%arg{index}" := .append (.inr rfl) _
    have later := Naming.later_nameValue (n := n) (v := v) (isName_or nameOk arg)
    obtain ⟨n', eq, later', names⟩ := ih (n.nameValue v x.name s!"%arg{index}") (index + 1)
      fun w hw => known w (by simp [hw])
    refine ⟨n', ?_, later.trans later', ?_⟩
    · rw [nameParams, found]
      exact eq
    · intro w hw
      rcases List.mem_cons.mp hw with rfl | hw
      · exact later'.kept (n.names_nameValue ..)
      · exact names w hw

theorem nameBlocks_spec {bs : List BlockId} (n : Naming) (index : Nat)
    (known : ∀ b ∈ bs, (p.block? f b).isSome) :
    ∃ n', p.nameBlocks f n index bs = .ok n' ∧ n'.values = n.values := by
  induction bs generalizing n index with
  | nil => exact ⟨n, rfl, rfl⟩
  | cons b bs ih =>
    obtain ⟨x, found⟩ := Option.isSome_iff_exists.mp (known b (by simp))
    obtain ⟨n', eq, same⟩ := ih (n.nameBlock b x.name s!"%bb_{index}") (index + 1)
      fun c hc => known c (by simp [hc])
    refine ⟨n', ?_, same⟩
    rw [nameBlocks, found]
    exact eq

theorem nameInsts_spec {vs : List ValueId} (n : Naming) (next : Nat)
    (known : ∀ v ∈ vs, ∃ x, p.local? f v = some x ∧ NameOk x) :
    ∃ n', p.nameInsts f n next vs = .ok n' ∧ n.Later n' ∧
      ∀ v ∈ vs, ∀ x, p.local? f v = some x → x.ty ≠ .unit → n'.Names v := by
  induction vs generalizing n next with
  | nil => exact ⟨n, rfl, .refl n, by simp⟩
  | cons v vs ih =>
    obtain ⟨x, found, nameOk⟩ := known v (by simp)
    have known' : ∀ w ∈ vs, ∃ x, p.local? f w = some x ∧ NameOk x := fun w hw =>
      known w (by simp [hw])
    -- Whatever the first value is named, the rest goes on with one more name.
    have step : ∀ {wanted : String} (next' : Nat), IsName wanted →
        p.nameInsts f n next (v :: vs) =
          p.nameInsts f (n.nameValue v wanted "") next' vs →
        ∃ n', p.nameInsts f n next (v :: vs) = .ok n' ∧ n.Later n' ∧
          ∀ w ∈ v :: vs, ∀ x, p.local? f w = some x → x.ty ≠ .unit → n'.Names w := by
      intro wanted next' isName eq
      have given : IsName (if wanted = "" then "" else wanted) := by
        rw [if_neg isName.ne_empty]
        exact isName
      have later := Naming.later_nameValue (n := n) (v := v) given
      obtain ⟨n', eq', later', names⟩ := ih (n.nameValue v wanted "") next' known'
      refine ⟨n', eq.trans eq', later.trans later', fun w hw => ?_⟩
      rcases List.mem_cons.mp hw with rfl | hw
      · exact fun _ _ _ => later'.kept (n.names_nameValue ..)
      · exact names w hw
    by_cases unit : x.ty = .unit
    · obtain ⟨n', eq, later, names⟩ := ih n next known'
      refine ⟨n', ?_, later, fun w hw y here solid => ?_⟩
      · rw [nameInsts, found, Program.known]
        change (if x.ty = .unit then _ else _) = _
        rw [if_pos unit]
        exact eq
      · rcases List.mem_cons.mp hw with rfl | hw
        · rw [found] at here
          cases here
          exact absurd unit solid
        · exact names w hw y here solid
    · by_cases wanted : x.name ≠ ""
      · refine step next (isName_of_ne_empty nameOk wanted) ?_
        rw [nameInsts, found, Program.known]
        change (if x.ty = .unit then _ else if x.name ≠ "" then _ else _) = _
        rw [if_neg unit, if_pos wanted]
      · let number := freshFrom n.used (fun i => s!"%{i}") n.used.length next
        have isName : IsName s!"%{number}" := .append (.inr rfl) _
        refine step (number + 1) isName ?_
        rw [nameInsts, found, Program.known]
        change (if x.ty = .unit then _ else if x.name ≠ "" then _ else _) = _
        rw [if_neg unit, if_neg wanted]

/-- A value of a function is found there. -/
theorem local?_of_has {v : ValueId} {t : Ty} {x : ValueDef} (has : p.Has v (some f) t x) :
    ∃ y, p.local? f v = some y ∧ p.value? v = some y ∧ y.ty = t := by
  obtain ⟨n, found⟩ := has
  refine ⟨⟨some f, t, x, n⟩, ?_, found, rfl⟩
  simp [Program.local?, found, Option.filter]

theorem Ok.known_local (ok : p.Ok avail) {v : ValueId} {t : Ty} {x : ValueDef}
    (has : p.Has v (some f) t x) : ∃ y, p.local? f v = some y ∧ NameOk y := by
  obtain ⟨y, isLocal, found, -⟩ := local?_of_has has
  exact ⟨y, isLocal, ok.names found⟩

theorem Ok.params_known (ok : p.Ok avail) (found : p.fn? f = some d) :
    ∀ v ∈ d.params, ∃ x, p.local? f v = some x ∧ NameOk x := by
  intro v hv
  obtain ⟨i, hi⟩ := List.mem_iff_getElem?.mp hv
  have inside : i < d.paramTys.length := by
    rw [← (ok.fns found).arity]
    exact (List.getElem?_eq_some_iff.mp hi).1
  exact ok.known_local ((ok.fns found).params hi (List.getElem?_eq_getElem inside))

theorem Ok.insts_known (ok : p.Ok avail) (found : p.fn? f = some d) :
    ∀ v ∈ d.layout.flatMap (·.2), ∃ x, p.local? f v = some x ∧ NameOk x := by
  intro v hv
  obtain ⟨⟨b, is⟩, mem, inside⟩ := List.mem_flatMap.mp hv
  have fnOk := ok.fns found
  obtain ⟨t, x, has, -⟩ := fnOk.placed (insts?_of_mem fnOk.distinct mem) inside
  exact ok.known_local has

/-- Inside a function, its parameters and the results of its instructions have names. -/
theorem fnNaming_spec (ok : p.Ok avail) (found : p.fn? f = some d) :
    ∃ n, p.fnNaming f d = .ok n ∧ n.Good ∧ (∀ v ∈ d.params, n.Names v) ∧
      ∀ {b is v t x}, d.insts? b = some is → v ∈ is → p.Has v (some f) t x → t ≠ .unit →
        n.Names v := by
  have fnOk := ok.fns found
  have params := ok.params_known found
  have insts := ok.insts_known found
  obtain ⟨n₁, eq₁, later₁, names₁⟩ :=
    nameParams_spec { used := p.globalNaming.used } 0 params
  obtain ⟨n₂, eq₂, same⟩ := nameBlocks_spec n₁ 0 fun b hb => fnOk.homes hb
  obtain ⟨n₃, eq₃, later₃, names₃⟩ := nameInsts_spec n₂ 0 insts
  have later : n₁.Later n₃ := by
    refine ⟨fun good => later₃.good ?_, fun ⟨s, mem⟩ => later₃.kept ⟨s, ?_⟩⟩
    · intro v s mem
      exact good (by rwa [same] at mem)
    · rw [same]
      exact mem
  refine ⟨n₃, ?_, later.good (later₁.good (fun mem => (by cases mem))),
    fun v hv => later.kept (names₁ v hv), fun {b is v t x} here mem has solid => ?_⟩
  · rw [fnNaming, paramNaming, eq₁, ok_bind, eq₂, ok_bind, eq₃]
  · obtain ⟨y, isLocal, -, type⟩ := local?_of_has has
    have placed : v ∈ d.layout.flatMap (·.2) := by
      obtain ⟨l₁, l₂, eq, -⟩ := List.lookup_eq_some_iff.mp here
      rw [eq]
      simp [mem]
    exact names₃ v placed y isLocal (by rw [type]; exact solid)

/-- Global variables have names. -/
theorem globalNaming_spec (ok : p.Ok avail) :
    p.globalNaming.Good ∧ ∀ {g t init}, p.Has g none t (.globalAlloc init) →
      p.globalNaming.Names g := by
  have fold : ∀ (gs : List ValueId) (n : Naming), (∀ g ∈ gs, g ∈ p.globals) → n.Good →
      let n' := gs.foldl
        (fun n g => n.nameValue g (((p.global? g).map (·.name)).getD "") "@g") n
      n.Later n' ∧ ∀ g ∈ gs, n'.Names g := by
    intro gs
    induction gs with
    | nil => exact fun n _ _ => ⟨.refl n, by simp⟩
    | cons g gs ih =>
      intro n sub good
      have isName : IsName (if ((p.global? g).map (·.name)).getD "" = "" then "@g"
          else ((p.global? g).map (·.name)).getD "") := by
        cases here : p.global? g with
        | none => exact .inl rfl
        | some x =>
          obtain ⟨found, -⟩ := Option.filter_eq_some_iff.mp here
          exact isName_or (ok.names found) (.inl rfl)
      have later := Naming.later_nameValue (n := n) (v := g) isName
      obtain ⟨later', names⟩ := ih _ (fun h hh => sub h (by simp [hh])) (later.good good)
      refine ⟨later.trans later', fun h hh => ?_⟩
      rcases List.mem_cons.mp hh with rfl | hh
      · exact later'.kept (n.names_nameValue ..)
      · exact names h hh
  have start : ({ used := p.fns.toList.map (·.name) } : Naming).Good := fun mem => (by cases mem)
  obtain ⟨later, names⟩ := fold p.globals { used := p.fns.toList.map (·.name) } (fun _ h => h) start
  refine ⟨later.good start, fun {g t init} has => names g ?_⟩
  obtain ⟨n, found⟩ := has
  have bounds := numbered?_bounds found
  rw [globals, List.mem_filter, List.mem_map]
  refine ⟨⟨g - 1, List.mem_range.mpr
    (Nat.lt_of_lt_of_le (Nat.sub_lt bounds.1 Nat.one_pos) bounds.2),
    Nat.sub_add_cancel bounds.1⟩, ?_⟩
  rw [found]
  rfl

/-! ## Operands -/

theorem head_toString_ne (n : Int) : (toString n).toList.head? ≠ some '?' := by
  have digits : ∀ m : Nat, (Nat.repr m).toList.head? ≠ some '?' := by
    intro m first
    rw [Nat.repr_eq_ofList_toDigits, String.toList_ofList] at first
    have := Nat.isDigit_of_mem_toDigits (by decide) (by decide) (List.mem_of_mem_head? first)
    cases this
  cases n with
  | ofNat m => exact digits m
  | negSucc m =>
    change ("-" ++ _ : String).toList.head? ≠ _
    rw [String.toList_append]
    simp

/-- What a function can see, it can see all the way down. -/
theorem Ok.sees_operands (ok : p.Ok avail) {v o : ValueId} {x : Value}
    (found : p.value? v = some x) (home : x.home = some f ∨ x.home = none)
    (mem : o ∈ x.defn.operands) : ∃ t, p.Sees (some f) o t := by
  obtain ⟨t, ⟨h, y, has, same⟩, -⟩ := (ok.values ⟨x.name, found⟩).operands o mem
  refine ⟨t, h, y, has, ?_⟩
  rcases same with rfl | rfl
  · exact home
  · exact .inr rfl

theorem constText_succ (lookup : ValueId → Outcome Value) (fuel : Nat) (x : Value) :
    constText lookup (fuel + 1) x = match x.defn with
      | .integer n => return toString n.toInt
      | .zeroInit => return "zeroinit"
      | .undef => return "undef"
      | .aggregate elems => do
        let parts ← elems.mapM fun v => do constText lookup fuel (← lookup v)
        return "\x7b" ++ String.intercalate ", " parts ++ "\x7d"
      | _ => return "?" := rfl

theorem constText_ok (ok : p.Ok avail) (fuel : Nat) {v : ValueId} {x : Value}
    (found : p.value? v = some x) (home : x.home = some f ∨ x.home = none) :
    ∃ s, constText (p.value f) fuel x = .ok s := by
  induction fuel generalizing v x with
  | zero => exact ⟨_, rfl⟩
  | succ fuel ih =>
    rw [constText_succ]
    cases isAggregate : x.defn with
    | aggregate elems =>
      have each : ∀ es : List ValueId, (∀ e ∈ es, e ∈ elems) → ∃ parts,
          es.mapM (fun v => do constText (p.value f) fuel (← p.value f v)) = .ok parts := by
        intro es
        induction es with
        | nil => exact fun _ => ⟨[], rfl⟩
        | cons e es ihs =>
          intro sub
          obtain ⟨t, sees⟩ := ok.sees_operands (o := e) found home (by
            rw [isAggregate]
            exact sub e (by simp))
          obtain ⟨y, here, -, found'⟩ := value_eq_ok sees
          have home' : y.home = some f ∨ y.home = none := by
            obtain ⟨h, z, ⟨n, foundZ⟩, visible⟩ := sees
            rw [found'] at foundZ
            cases foundZ
            exact visible
          obtain ⟨s, eq⟩ := ih found' home'
          obtain ⟨parts, eqs⟩ := ihs fun e' he' => sub e' (by simp [he'])
          refine ⟨s :: parts, ?_⟩
          rw [List.mapM_cons, here, ok_bind, eq, ok_bind, eqs]
          rfl
      obtain ⟨parts, eq⟩ := each elems fun _ h => h
      dsimp only
      rw [eq]
      exact ⟨_, rfl⟩
    | _ => exact ⟨_, rfl⟩

theorem constText_head {lookup : ValueId → Outcome Value} {fuel : Nat} {x : Value} {s : String}
    (isConst : x.defn.isConst = true) (eq : constText lookup (fuel + 1) x = .ok s) :
    s.toList.head? ≠ some '?' := by
  rw [constText_succ] at eq
  cases kind : x.defn with
  | integer n =>
    rw [kind] at eq
    cases eq
    exact head_toString_ne _
  | zeroInit | undef =>
    rw [kind] at eq
    cases eq
    decide
  | aggregate elems =>
    rw [kind] at eq
    simp only [bind, Except.bind] at eq
    split at eq
    · cases eq
    · cases eq
      rw [String.toList_append, String.toList_append]
      simp
  | _ =>
    rw [kind] at isConst
    cases isConst

/-- Where an operand of an instruction of block `b` comes from: it can be used anywhere in the
function, or it is an earlier instruction of the block, or it is an instruction of a block through
which every way to `b` leads. -/
inductive Origin (p : Program) (f : FnId) (d : Fn) (b : BlockId) (before : List ValueId)
    (o : ValueId) : Prop
  | constant {h : Option FnId} {t : Ty} {x : ValueDef} :
      p.Has o h t x → h = some f ∨ h = none → x.isConst = true → Origin p f d b before o
  | global {t : Ty} {init : ValueId} : p.Has o none t (.globalAlloc init) → Origin p f d b before o
  | param : o ∈ d.params → Origin p f d b before o
  | earlier : o ∈ before → Origin p f d b before o
  | dominating {c : BlockId} {is : List ValueId} : d.insts? c = some is → o ∈ is →
      d.Dominates p c b → Origin p f d b before o

/-- Definitions dominate uses. -/
theorem Ok.origin (ok : p.Ok avail) (found : p.fn? f = some d) {b : BlockId} {xs ys : List ValueId}
    {v o : ValueId} {h : Option FnId} {t : Ty} {x : ValueDef}
    (here : d.insts? b = some (xs ++ v :: ys)) (has : p.Has v h t x) (mem : o ∈ x.operands) :
    p.Origin f d b xs o := by
  have fnOk := ok.fns found
  rcases fnOk.uses here has mem with ⟨h', t', y, hasO, home, plain⟩ | outer | earlier
  · have valueOk := ok.values hasO
    cases y with
    | integer | zeroInit | undef | aggregate => exact .constant hasO home rfl
    | arg i =>
      obtain ⟨g, e, rfl, found', isParam⟩ := valueOk.arg i rfl
      obtain rfl : g = f := by simpa using home
      obtain rfl := Option.some.inj (found.symm.trans found')
      exact .param (List.mem_of_getElem? isParam)
    | globalAlloc init =>
      obtain rfl := valueOk.global init rfl
      exact .global hasO
    | _ => cases plain
  · obtain ⟨c, is, laid, inside⟩ := fnOk.laid (Fn.mem_blocks_of_insts? here) outer
    exact .dominating laid inside (fnOk.dominates outer laid inside)
  · exact .earlier earlier

/-- An operand is printed as a name or as a constant. -/
theorem operandText_spec (ok : p.Ok avail) (found : p.fn? f = some d) :
    ∃ names, p.fnNaming f d = .ok names ∧ ∀ {b is v h t x o}, d.insts? b = some is → v ∈ is →
      p.Has v h t x → o ∈ x.operands → ∃ s, p.operandText f p.globalNaming names o = .ok s ∧
        s.toList.head? ≠ some '?' := by
  obtain ⟨names, eq, good, params, insts⟩ := fnNaming_spec ok found
  obtain ⟨globalGood, globals⟩ := globalNaming_spec ok
  refine ⟨names, eq, fun {b is v h t x o} laid mem has operand => ?_⟩
  obtain ⟨xs, ys, rfl⟩ := List.append_of_mem mem
  obtain ⟨tv, y, hasV, -⟩ := (ok.fns found).placed laid mem
  obtain ⟨rfl, rfl, rfl⟩ := has.unique hasV
  obtain ⟨tₒ, sees, solid⟩ := (ok.values has).operands o operand
  cases given : (names.values.lookup o).or (p.globalNaming.values.lookup o) with
  | some s =>
    refine ⟨s, by rw [operandText, given]; rfl, ?_⟩
    have isName : IsName s := by
      rcases Option.or_eq_some_iff.mp given with here | ⟨-, here⟩
      · exact good.lookup here
      · exact globalGood.lookup here
    rcases isName with first | first <;> simp [first]
  | none =>
    obtain ⟨noName, noGlobal⟩ := Option.or_eq_none_iff.mp given
    obtain ⟨x, here, type, value⟩ := value_eq_ok sees
    have home : x.home = some f ∨ x.home = none := by
      obtain ⟨h, y, ⟨n, foundY⟩, visible⟩ := sees
      rw [value] at foundY
      cases foundY
      exact visible
    -- An operand that is an instruction has a result, so it has a name.
    have named : ∀ {c is}, d.insts? c = some is → o ∈ is → False := by
      intro c is laid' inside
      obtain ⟨t', y, hasO, -⟩ := (ok.fns found).placed laid' inside
      obtain ⟨-, rfl, -⟩ := hasO.unique ⟨x.name, value⟩
      exact (insts laid' inside hasO (by rw [type]; exact solid)).lookup noName
    have isConst : x.defn.isConst = true := by
      cases ok.origin found laid has operand with
      | constant hasO _ isConst =>
        obtain ⟨n, foundY⟩ := hasO
        rw [value] at foundY
        cases foundY
        exact isConst
      | global hasO => exact absurd noGlobal (globals hasO).lookup
      | param isParam => exact absurd noName (params o isParam).lookup
      | earlier inside => exact (named laid (List.mem_append_left _ inside)).elim
      | dominating laid' inside _ => exact (named laid' inside).elim
    obtain ⟨s, text⟩ := constText_ok ok (p.values.size + 1) value home
    refine ⟨s, ?_, constText_head isConst text⟩
    rw [operandText, given]
    change (do
      let d ← p.value f o
      if d.defn.isConst then constText (p.value f) (p.values.size + 1) d
      else return s!"?{o}") = _
    rw [here, ok_bind, if_pos isConst]
    exact text

end Program
end SysY.Koopa

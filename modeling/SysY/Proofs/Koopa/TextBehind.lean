import Mathlib.Data.List.Count
import SysY.Proofs.Koopa.Behind
import SysY.Proofs.Koopa.Distinct

/-! # The text of a program behind another one

A program of declarations that stands in front of another one is printed as one line for each
function. What stands behind it is printed as it is printed alone: its values and functions have
other numbers, and more names are taken, but none of these names is ever tried. -/

namespace SysY

namespace Outcome

variable {α β γ δ : Type} {R : α → β → Prop} {S : γ → δ → Prop} {o : Outcome α} {o' : Outcome β}

/-- Two outcomes that are both results, which `R` relates. -/
def Meet (R : α → β → Prop) (o : Outcome α) (o' : Outcome β) : Prop :=
  ∃ a b, o = .ok a ∧ o' = .ok b ∧ R a b

theorem meet_ok {a : α} {b : β} (related : R a b) : Meet R (.ok a) (.ok b) :=
  ⟨a, b, rfl, rfl, related⟩

theorem Meet.bind {k : α → Outcome γ} {k' : β → Outcome δ} (first : Meet R o o')
    (next : ∀ a b, R a b → Meet S (k a) (k' b)) : Meet S (o >>= k) (o' >>= k') := by
  obtain ⟨a, b, rfl, rfl, related⟩ := first
  exact next a b related

/-- Two outcomes with the same result, one after another. -/
theorem Meet.next {o o' : Outcome α} {k : α → Outcome γ} {k' : α → Outcome δ}
    (first : Meet Eq o o') (rest : ∀ a, Meet S (k a) (k' a)) : Meet S (o >>= k) (o' >>= k') :=
  first.bind fun a _ same => same ▸ rest a

theorem meet_mapM {f : α → Outcome γ} {f' : β → Outcome γ} {g : α → β} (as : List α)
    (each : ∀ a ∈ as, Meet Eq (f a) (f' (g a))) : Meet Eq (as.mapM f) ((as.map g).mapM f') := by
  induction as with
  | nil => exact meet_ok rfl
  | cons a as ih =>
    obtain ⟨first, rest⟩ := List.forall_mem_cons.mp each
    rw [List.map_cons, List.mapM_cons, List.mapM_cons]
    exact first.next fun c => (ih rest).next fun cs => meet_ok rfl

end Outcome

namespace Koopa

open Outcome

/-! ## Looking for a free name -/

theorem FirstFree.unique {used : List String} {candidate : Nat → String} {start i j : Nat}
    (first : FirstFree used candidate start i) (other : FirstFree used candidate start j) :
    i = j := by
  rcases Nat.lt_trichotomy i j with less | same | more
  · exact absurd (other.taken i first.from_start less) first.free
  · exact same
  · exact absurd (first.taken j other.from_start more) other.free

/-- Names that agree with others except for the names of some functions in front. -/
def Beyond (base : Program) (used used' : List String) : Prop :=
  ∀ s, s ∉ base.fnNames → (s ∈ used' ↔ s ∈ used)

namespace Beyond

variable {base : Program} {used used' : List String} (beyond : Beyond base used used')

include beyond

theorem cons (name : String) : Beyond base (name :: used) (name :: used') := fun s fresh => by
  rw [List.mem_cons, List.mem_cons, beyond s fresh]

theorem firstFree {candidate : Nat → String} (fresh : ∀ i, candidate i ∉ base.fnNames)
    {start i : Nat} (first : FirstFree used candidate start i) :
    FirstFree used' candidate start i where
  from_start := first.from_start
  free := (beyond _ (fresh i)).not.mpr first.free
  taken := fun j le lt => (beyond _ (fresh j)).mpr (first.taken j le lt)

/-- No suffix makes a name that has no underscore. -/
theorem uniqueName (declares : base.Declares) {name : String} (fresh : name ∉ base.fnNames) :
    uniqueName used' name = uniqueName used name := by
  have untried : ∀ i, suffixed name i ∉ base.fnNames := fun i mem => by
    unfold suffixed at mem
    split at mem
    · exact fresh mem
    · refine declares.plain _ mem ?_
      change '_' ∈ (name ++ "_" ++ toString i).toList
      simp
  obtain ⟨i, eq, first⟩ := uniqueName_firstFree used name
  obtain ⟨j, eq', first'⟩ := uniqueName_firstFree used' name
  rw [eq, eq', first'.unique (beyond.firstFree untried first)]

theorem number (declares : base.Declares) (next : Nat) :
    freshFrom used' numbered used'.length next = freshFrom used numbered used.length next :=
  (numbered_firstFree used' next).unique <| beyond.firstFree
    (fun i => declares.fresh_of_head (by simp [numbered, toString, String.toList_append]))
    (numbered_firstFree used next)

end Beyond

/-! ## Giving names -/

/-- Names that were given behind `base`: the same ones to the same values and blocks. -/
structure Naming.Behind (base : Program) (n n' : Naming) : Prop where
  used : Beyond base n.used n'.used
  values : n'.values = n.values.map fun (v, s) => (base.pastValue v, s)
  blocks : n'.blocks = n.blocks

namespace Naming

variable {base : Program} {n n' : Naming} (behind : n.Behind base n')

include behind

theorem Behind.lookup (v : ValueId) : n'.values.lookup (base.pastValue v) = n.values.lookup v := by
  rw [behind.values]
  induction n.values with
  | nil => rfl
  | cons entry rest ih =>
    rw [List.map_cons, List.lookup_cons, List.lookup_cons, ih]
    have same : (base.pastValue v == base.pastValue entry.1) = (v == entry.1) := by
      rw [Bool.eq_iff_iff, beq_iff_eq, beq_iff_eq]
      exact (past_injective _).eq_iff
    rw [same]

theorem Behind.nameValue (declares : base.Declares) (v : ValueId) {wanted fallback : String}
    (fresh : (if wanted = "" then fallback else wanted) ∉ base.fnNames) :
    (n.nameValue v wanted fallback).Behind base
      (n'.nameValue (base.pastValue v) wanted fallback) := by
  unfold Naming.nameValue
  rw [behind.used.uniqueName declares fresh, behind.values]
  exact ⟨behind.used.cons _, rfl, behind.blocks⟩

theorem Behind.nameBlock (declares : base.Declares) (b : BlockId) {wanted fallback : String}
    (fresh : (if wanted = "" then fallback else wanted) ∉ base.fnNames) :
    (n.nameBlock b wanted fallback).Behind base (n'.nameBlock b wanted fallback) := by
  unfold Naming.nameBlock
  rw [behind.used.uniqueName declares fresh, behind.blocks]
  exact ⟨behind.used.cons _, behind.values, rfl⟩

end Naming

namespace Program

/-! ## The names in a program behind another one -/

section Names

variable {base p : Program} {f : FnId} (declares : base.Declares) (avoids : p.Avoids base.fnNames)

/-- What a value or block is named after when the name that it wants is not that of a function. -/
theorem Declares.fresh_or (declares : base.Declares) {wanted fallback : String}
    (fresh : wanted ∉ base.fnNames) (other : fallback.toList.head? ≠ some '@') :
    (if wanted = "" then fallback else wanted) ∉ base.fnNames := by
  split
  · exact declares.fresh_of_head other
  · exact fresh

theorem mem_of_local? {v : ValueId} {x : Value} (found : p.local? f v = some x) : x ∈ p.values :=
  numbered?_mem (Option.filter_eq_some_iff.mp found).1

theorem global?_of_mem {g : ValueId} (mem : g ∈ p.globals) :
    ∃ x, p.global? g = some x ∧ isGlobalVariable x = true := by
  obtain ⟨x, found, isGlobal⟩ := Option.any_eq_true _ _ |>.mp (List.mem_filter.mp mem).2
  refine ⟨x, Option.filter_eq_some_iff.mpr ⟨found, ?_⟩, isGlobal⟩
  unfold isGlobalVariable at isGlobal
  cases home : x.home with
  | none => rfl
  | some f => simp [home] at isGlobal

theorem Ok.wanted {avail : Avail} (ok : p.Ok avail) {v : ValueId} {x : Value}
    (found : p.value? v = some x) (isGlobal : isGlobalVariable x = true) : x.name ≠ "" := by
  intro empty
  rcases ok.names found with named | ⟨-, inner⟩
  · rw [empty] at named
    cases named
  · rw [isGlobal] at inner
    cases inner

include declares avoids

theorem nameParams_behind {n n' : Naming} (behind : n.Behind base n') (index : Nat)
    {vs : List ValueId} (known : ∀ v ∈ vs, (p.local? f v).isSome) :
    Meet (Naming.Behind base) (p.nameParams f n index vs)
      ((p.behind base).nameParams (base.pastFn f) n' index (vs.map base.pastValue)) := by
  induction vs generalizing n n' index with
  | nil => exact meet_ok behind
  | cons v vs ih =>
    obtain ⟨here, rest⟩ := List.forall_mem_cons.mp known
    obtain ⟨x, found⟩ := Option.isSome_iff_exists.mp here
    rw [List.map_cons, nameParams, nameParams, local?_behind, found]
    refine ih (behind.nameValue declares v ?_) (index + 1) rest
    exact declares.fresh_or (avoids.values x (mem_of_local? found))
      (by simp [toString, String.toList_append])

theorem nameBlocks_behind {n n' : Naming} (behind : n.Behind base n') (index : Nat)
    {bs : List BlockId} (known : ∀ b ∈ bs, (p.block? f b).isSome) :
    Meet (Naming.Behind base) (p.nameBlocks f n index bs)
      ((p.behind base).nameBlocks (base.pastFn f) n' index bs) := by
  induction bs generalizing n n' index with
  | nil => exact meet_ok behind
  | cons b bs ih =>
    obtain ⟨here, rest⟩ := List.forall_mem_cons.mp known
    obtain ⟨x, found⟩ := Option.isSome_iff_exists.mp here
    rw [nameBlocks, nameBlocks, block?_behind, found]
    refine ih (behind.nameBlock declares b ?_) (index + 1) rest
    exact declares.fresh_or (avoids.blocks x (numbered?_mem (Option.filter_eq_some_iff.mp found).1))
      (by simp [toString, String.toList_append])

theorem nameInsts_behind {n n' : Naming} (behind : n.Behind base n') (next : Nat)
    {vs : List ValueId} (known : ∀ v ∈ vs, (p.local? f v).isSome) :
    Meet (Naming.Behind base) (p.nameInsts f n next vs)
      ((p.behind base).nameInsts (base.pastFn f) n' next (vs.map base.pastValue)) := by
  induction vs generalizing n n' next with
  | nil => exact meet_ok behind
  | cons v vs ih =>
    obtain ⟨here, rest⟩ := List.forall_mem_cons.mp known
    obtain ⟨x, found⟩ := Option.isSome_iff_exists.mp here
    rw [List.map_cons, nameInsts, nameInsts, local?_behind, found]
    change Meet _ (if x.ty = .unit then _ else _) (if x.ty = .unit then _ else _)
    by_cases unit : x.ty = .unit
    · rw [if_pos unit, if_pos unit]
      exact ih behind next rest
    rw [if_neg unit, if_neg unit]
    change Meet _ (if x.name ≠ "" then _ else _) (if x.name ≠ "" then _ else _)
    by_cases wanted : x.name ≠ ""
    · rw [if_pos wanted, if_pos wanted]
      refine ih (behind.nameValue declares v ?_) next rest
      rw [if_neg wanted]
      exact avoids.values x (mem_of_local? found)
    · rw [if_neg wanted, if_neg wanted]
      have number := behind.used.number declares next
      unfold numbered at number
      rw [number]
      refine ih (behind.nameValue declares v ?_) _ rest
      rw [if_neg (by simp [← String.toList_inj, toString])]
      exact declares.fresh_of_head (by simp [toString, String.toList_append])

theorem globalNaming_behind {avail : Avail} (ok : p.Ok avail) :
    p.globalNaming.Behind base (p.behind base).globalNaming := by
  have each (gs : List ValueId) (known : ∀ g ∈ gs, g ∈ p.globals) {n n' : Naming}
      (behind : n.Behind base n') : Naming.Behind base
        (gs.foldl (fun n g => n.nameValue g (((p.global? g).map (·.name)).getD "") "@g") n)
        ((gs.map base.pastValue).foldl
          (fun n g => n.nameValue g ((((p.behind base).global? g).map (·.name)).getD "") "@g")
          n') := by
    induction gs generalizing n n' with
    | nil => exact behind
    | cons g gs ih =>
      obtain ⟨here, rest⟩ := List.forall_mem_cons.mp known
      obtain ⟨x, found, isGlobal⟩ := global?_of_mem here
      have here := (Option.filter_eq_some_iff.mp found).1
      have wanted := ok.wanted here isGlobal
      rw [List.map_cons, List.foldl_cons, List.foldl_cons, global?_behind, found]
      refine ih rest (behind.nameValue declares g ?_)
      change (if x.name = "" then "@g" else x.name) ∉ base.fnNames
      rw [if_neg wanted]
      exact avoids.values x (numbered?_mem here)
  have start : Naming.Behind base { used := p.fnNames } { used := (p.behind base).fnNames } := by
    refine ⟨fun s fresh => ?_, rfl, rfl⟩
    have names : (p.behind base).fnNames = base.fnNames ++ p.fnNames := by
      simp [fnNames, behind, Fn.behind, Function.comp_def]
    change s ∈ (p.behind base).fnNames ↔ s ∈ p.fnNames
    rw [names, List.mem_append]
    exact or_iff_right fresh
  have names := each p.globals (fun _ mem => mem) start
  rw [← globals_behind p base declares] at names
  exact names

end Names

/-! ## Constants

An array is printed with its elements, which have a smaller type. So there are enough values in a
program to bound how deep its constants are nested, and it does not matter by how many others. -/

end Program

/-- How deep arrays are nested. -/
def Ty.rank : Ty → Nat
  | array t _ => t.rank + 1
  | _ => 0

namespace Program

section Constants

variable {base p : Program} {avail : Avail}

/-- How many values have a type in which arrays are nested less deep. -/
def below (p : Program) (t : Ty) : Nat := p.values.toList.countP (·.ty.rank < t.rank)

theorem below_le (t : Ty) : p.below t ≤ p.values.size := List.countP_le_length

/-- An element of an array counts for the array and not for itself. -/
theorem below_lt {x : Value} (mem : x ∈ p.values) (n : Nat) :
    p.below x.ty < p.below (.array x.ty n) := by
  have less : p.below x.ty = (p.values.toList.filter (·.ty.rank < x.ty.rank + 1)).countP
      (·.ty.rank < x.ty.rank) := by
    rw [List.countP_filter]
    refine List.countP_congr fun y _ => ?_
    simp
    omega
  rw [less, below, List.countP_eq_length_filter (l := p.values.toList)]
  exact List.countP_lt_length_iff.mpr ⟨x, by simp [mem], by simp⟩

theorem Sees.widen {home home' : Option FnId} {v : ValueId} {t : Ty} (sees : p.Sees home v t)
    (inside : home = home' ∨ home = none) : p.Sees home' v t := by
  obtain ⟨h, x, has, rfl | rfl⟩ := sees
  · exact ⟨h, x, has, inside⟩
  · exact ⟨none, x, has, .inr rfl⟩

theorem Sees.visible {home : Option FnId} {v : ValueId} {t : Ty} (sees : p.Sees home v t)
    {x : Value} (found : p.value? v = some x) : x.home = home ∨ x.home = none := by
  obtain ⟨h, y, ⟨n, foundY⟩, visible⟩ := sees
  rw [found] at foundY
  cases foundY
  exact visible

/-- A way to look up what `home` can see, alone and behind `base`. -/
def Lookups (p base : Program) (home : Option FnId) (look look' : ValueId → Outcome Value) : Prop :=
  ∀ {v t}, p.Sees home v t → ∃ x, look v = .ok x ∧ look' (base.pastValue v) = .ok (x.behind base) ∧
    p.value? v = some x ∧ x.ty = t

theorem value_lookups (p base : Program) (f : FnId) :
    p.Lookups base (some f) (p.value f) ((p.behind base).value (base.pastFn f)) := by
  intro v t sees
  obtain ⟨x, here, type, found⟩ := value_eq_ok sees
  refine ⟨x, here, ?_, found, type⟩
  have follows := p.value_follows base f v
  rw [here] at follows
  generalize (p.behind base).value (base.pastFn f) (base.pastValue v) = o at follows
  cases follows
  rfl

theorem global_lookups (p base : Program) : p.Lookups base none (fun v => known (p.global? v))
    fun v => known ((p.behind base).global? v) := by
  rintro v t ⟨h, x, ⟨n, found⟩, home⟩
  obtain rfl : h = none := by simpa using home
  have here : p.global? v = some ⟨none, t, x, n⟩ := Option.filter_eq_some_iff.mpr ⟨found, rfl⟩
  exact ⟨_, congrArg known here,
    congrArg known ((global?_behind p base v).trans (congrArg _ here)), found, rfl⟩

theorem constText_behind (ok : p.Ok avail) {home : Option FnId}
    {look look' : ValueId → Outcome Value} (lookups : p.Lookups base home look look')
    {fuel fuel' : Nat} {v : ValueId} {x : Value} (found : p.value? v = some x)
    (visible : x.home = home ∨ x.home = none) (enough : p.below x.ty < fuel)
    (enough' : p.below x.ty < fuel') :
    Meet Eq (constText look fuel x) (constText look' fuel' (x.behind base)) := by
  induction fuel generalizing fuel' v x with
  | zero => exact absurd enough (Nat.not_lt_zero _)
  | succ fuel ih =>
    obtain ⟨fuel', rfl⟩ := Nat.exists_eq_succ_of_ne_zero (Nat.ne_zero_of_lt enough')
    rw [constText_succ, constText_succ, show (x.behind base).defn = x.defn.behind base from rfl]
    have typed := (ok.values (has_of_value? found)).typed
    cases kind : x.defn with
    | aggregate elems =>
      rw [kind] at typed
      obtain ⟨t, type, -, sees⟩ := typed
      refine (meet_mapM elems fun e mem => ?_).next fun parts => meet_ok rfl
      have seen := (sees e mem).widen visible
      obtain ⟨y, here, here', foundY, rfl⟩ := lookups seen
      have fewer := below_lt (numbered?_mem foundY) elems.length
      rw [← type] at fewer
      rw [here, here', ok_bind, ok_bind]
      exact ih foundY (seen.visible foundY) (by omega) (by omega)
    | _ => exact meet_ok rfl

/-- There is room for all constants, with or without other values in front. -/
theorem below_lt_size (p base : Program) (t : Ty) : p.below t < p.values.size + 1 ∧
    p.below t < (p.behind base).values.size + 1 := by
  have := p.below_le t
  simp only [behind, Array.size_append, Array.size_map]
  omega

end Constants

/-! ## Lines -/

section Lines

variable {base p : Program} {avail : Avail} {f : FnId} {d : Fn} {globals globals' : Naming}

theorem known_some {α : Type} (a : α) : known (some a) = .ok a := rfl

theorem globalText_behind (ok : p.Ok avail) (outer : globals.Behind base globals') {g : ValueId}
    (mem : g ∈ p.globals) :
    Meet Eq (p.globalText globals g) ((p.behind base).globalText globals' (base.pastValue g)) := by
  obtain ⟨x, found, isGlobal⟩ := global?_of_mem mem
  have typed := (ok.values (has_of_value? (Option.filter_eq_some_iff.mp found).1)).typed
  obtain ⟨home, ty, kind, name⟩ := x
  cases home with
  | some f => cases isGlobal
  | none =>
    cases kind with
    | globalAlloc init =>
      obtain ⟨t, rfl, sees⟩ := typed
      obtain ⟨y, here, here', foundY, rfl⟩ := p.global_lookups base sees
      rw [globalText, globalText, global?_behind, found, Option.map_some, known_some, known_some,
        ok_bind, ok_bind]
      change Meet Eq (known (p.global? init) >>= fun y => _)
        (known ((p.behind base).global? (base.pastValue init)) >>= fun y => _)
      dsimp only at here here'
      rw [here, here', ok_bind, ok_bind, outer.lookup]
      refine Meet.next ?_ fun text => meet_ok rfl
      exact constText_behind ok (p.global_lookups base) foundY (sees.visible foundY)
        (below_lt_size p base y.ty).1 (below_lt_size p base y.ty).2
    | _ => cases isGlobal

theorem isConst_behind (x : ValueDef) : (x.behind base).isConst = x.isConst := by
  cases x <;> rfl

/-- An operand that is not printed as a placeholder is printed in the same way. -/
theorem operandText_behind (ok : p.Ok avail) (outer : globals.Behind base globals')
    {names names' : Naming} (inner : names.Behind base names') {o : ValueId} {t : Ty}
    (sees : p.Sees (some f) o t) {s : String} (text : p.operandText f globals names o = .ok s)
    (head : s.toList.head? ≠ some '?') :
    (p.behind base).operandText (base.pastFn f) globals' names' (base.pastValue o) = .ok s := by
  unfold operandText at text ⊢
  rw [inner.lookup, outer.lookup]
  cases given : (names.values.lookup o).or (globals.values.lookup o) with
  | some name =>
    rw [given] at text
    exact text
  | none =>
    rw [given] at text
    obtain ⟨x, here, here', found, rfl⟩ := p.value_lookups base f sees
    dsimp only at text ⊢
    rw [here, ok_bind] at text
    rw [here', ok_bind, show (x.behind base).defn = x.defn.behind base from rfl, isConst_behind]
    by_cases isConst : x.defn.isConst = true
    · rw [if_pos isConst] at text ⊢
      obtain ⟨a, b, one, other, rfl⟩ := constText_behind ok (p.value_lookups base f) found
        (sees.visible found) (below_lt_size p base x.ty).1 (below_lt_size p base x.ty).2
      rw [other, ← text, one]
    · rw [if_neg isConst] at text
      cases text
      exact absurd (by simp [toString, String.toList_append]) head

theorem instText_behind (ok : p.Ok avail) {names names' : Naming}
    (inner : names.Behind base names') {v : ValueId} {t : Ty} {x : ValueDef}
    (has : p.Has v (some f) t x)
    (operands : ∀ o ∈ x.operands, Meet Eq (p.operandText f globals names o)
      ((p.behind base).operandText (base.pastFn f) globals' names' (base.pastValue o))) :
    Meet Eq (p.instText f globals names v)
      ((p.behind base).instText (base.pastFn f) globals' names' (base.pastValue v)) := by
  have typed := (ok.values has).typed
  obtain ⟨n, found⟩ := has
  have here : p.local? f v = some ⟨some f, t, x, n⟩ :=
    Option.filter_eq_some_iff.mpr ⟨found, by simp⟩
  unfold instText
  rw [local?_behind, here, Option.map_some, known_some, known_some, ok_bind, ok_bind,
    inner.lookup, inner.blocks]
  simp only [Value.behind]
  have two {o o' : ValueId} (reads : o ∈ x.operands ∧ o' ∈ x.operands)
      {k : String → String → Outcome String} (texts : ∀ s s', ∃ r, k s s' = .ok r) :
      Meet Eq (p.operandText f globals names o >>= fun s =>
        p.operandText f globals names o' >>= fun s' => k s s')
        ((p.behind base).operandText (base.pastFn f) globals' names' (base.pastValue o) >>= fun s =>
          (p.behind base).operandText (base.pastFn f) globals' names' (base.pastValue o') >>=
            fun s' => k s s') :=
    (operands o reads.1).next fun s => (operands o' reads.2).next fun s' => by
      obtain ⟨r, text⟩ := texts s s'
      rw [text]
      exact meet_ok rfl
  cases x with
  | alloc =>
    obtain ⟨t, rfl⟩ := typed
    exact meet_ok rfl
  | load src => exact (operands src (by simp [ValueDef.operands])).next fun s => meet_ok rfl
  | store | getPtr | getElemPtr | binary =>
    exact two (by simp [ValueDef.operands]) fun s s' => ⟨_, rfl⟩
  | branch c t e => exact (operands c (by simp [ValueDef.operands])).next fun s => meet_ok rfl
  | call callee args =>
    obtain ⟨d, fnFound, -⟩ := typed
    refine (meet_mapM args operands).next fun texts => ?_
    rw [fn_eq_ok.mpr fnFound, fn_eq_ok.mpr ((fn?_behind p base callee).trans (congrArg _ fnFound))]
    exact meet_ok rfl
  | ret value =>
    cases value with
    | none => exact meet_ok rfl
    | some r => exact (operands r (by simp [ValueDef.operands])).next fun s => meet_ok rfl
  | _ => exact meet_ok rfl

end Lines

/-! ## Functions -/

section Functions

variable {base p : Program} {avail : Avail} {f : FnId} {d : Fn} (declares : base.Declares)
  (avoids : p.Avoids base.fnNames) (ok : p.Ok avail) (found : p.fn? f = some d)

include declares avoids ok found

theorem paramNaming_behind : Meet (Naming.Behind base) (p.paramNaming f d)
    ((p.behind base).paramNaming (base.pastFn f) (d.behind base)) := by
  have outer := globalNaming_behind declares avoids ok
  have start : Naming.Behind base { used := p.globalNaming.used }
      { used := (p.behind base).globalNaming.used } := ⟨outer.used, rfl, rfl⟩
  refine nameParams_behind declares avoids start 0 fun v mem => ?_
  obtain ⟨x, here, -⟩ := ok.params_known found v mem
  exact Option.isSome_iff_exists.mpr ⟨x, here⟩

theorem fnNaming_behind : Meet (Naming.Behind base) (p.fnNaming f d)
    ((p.behind base).fnNaming (base.pastFn f) (d.behind base)) := by
  refine (paramNaming_behind declares avoids ok found).bind fun n n' given => ?_
  rw [Fn.blocks_behind]
  refine (nameBlocks_behind declares avoids given 0 fun b mem => (ok.fns found).homes mem).bind
    fun n n' blocks => ?_
  have insts : (d.behind base).layout.flatMap (·.2) =
      (d.layout.flatMap (·.2)).map base.pastValue := by
    simp [Fn.behind, List.flatMap_map, List.map_flatMap]
  rw [insts]
  refine nameInsts_behind declares avoids blocks 0 fun v mem => ?_
  obtain ⟨x, here, -⟩ := ok.insts_known found v mem
  exact Option.isSome_iff_exists.mpr ⟨x, here⟩

theorem fnLines_behind : Meet Eq (p.fnLines p.globalNaming f d)
    ((p.behind base).fnLines (p.behind base).globalNaming (base.pastFn f) (d.behind base)) := by
  have outer := globalNaming_behind declares avoids ok
  obtain ⟨names, named, texts⟩ := operandText_spec ok found
  unfold fnLines
  rw [show (d.behind base).isDecl = d.isDecl from List.isEmpty_map]
  dsimp only
  by_cases decl : d.isDecl = true
  · rw [if_pos decl, if_pos decl]
    exact meet_ok rfl
  rw [if_neg decl, if_neg decl]
  refine (paramNaming_behind declares avoids ok found).bind fun given given' params => ?_
  refine (meet_mapM d.params fun v mem => ?_).next fun heads => ?_
  · obtain ⟨x, here, -⟩ := ok.params_known found v mem
    rw [params.lookup, local?_behind, here]
    exact meet_ok rfl
  obtain ⟨names₁, names', eq, eq', inner⟩ := fnNaming_behind declares avoids ok found
  obtain rfl := Except.ok.inj (named.symm.trans eq)
  rw [eq, eq', ok_bind, ok_bind]
  refine (meet_mapM d.layout fun ⟨b, is⟩ mem => ?_).next fun body => meet_ok rfl
  have here := insts?_of_mem (ok.fns found).distinct mem
  dsimp only
  rw [inner.blocks]
  refine (meet_mapM is fun v inside => ?_).next fun lines => meet_ok rfl
  obtain ⟨t, x, has, -⟩ := (ok.fns found).placed here inside
  refine (instText_behind ok inner has fun o operand => ?_).next fun text => meet_ok rfl
  obtain ⟨s, text, head⟩ := texts here inside has operand
  obtain ⟨tₒ, sees, -⟩ := (ok.values has).operands o operand
  rw [text, operandText_behind ok outer inner sees text head]
  exact meet_ok rfl

end Functions

/-! ## Programs -/

end Program

/-- The line of a function without a body. -/
def Fn.declLine (d : Fn) : String :=
  s!"decl {d.name}(" ++ String.intercalate ", " (d.paramTys.map (·.text)) ++ ")" ++
    if d.ret = .unit then "" else s!": {d.ret.text}"

namespace Program

/-- The parts of a text: the lines of all global variables, and those of each function. -/
def parts (p : Program) : Outcome (List String × List (List String)) := do
  let globals ← p.globals.mapM (p.globalText p.globalNaming)
  let fns ← p.fnIds.mapM fun f => do p.fnLines p.globalNaming f (← p.fn f)
  return (globals, fns)

/-- Paragraphs of lines as text, with an empty line between them. -/
def paragraphs (ps : List (List String)) : String :=
  String.join (([""].intercalate ps).map (· ++ "\n"))

/-- All parts of a text, each a paragraph. There is none for global variables if there are none. -/
def pages (globals : List String) (fns : List (List String)) : String :=
  paragraphs (if globals.isEmpty then fns else globals :: fns)

theorem intercalate_cons (ps : List (List String)) (l : List String) :
    [""].intercalate (l :: ps) = l ++ (ps.map ("" :: ·)).flatten := by
  induction ps generalizing l with
  | nil => simp [List.intercalate]
  | cons m ps ih => rw [List.intercalate_cons_cons, ih]; simp

/-- The text of a program is made of its parts. -/
theorem text_eq_pages (p : Program) : p.text = do
    let (globals, fns) ← p.parts
    return pages globals fns := by
  unfold text parts fnsLines
  dsimp only
  cases lines : p.globals.mapM (p.globalText p.globalNaming) with
  | error e => rfl
  | ok globals =>
    have empty : p.globals.isEmpty = globals.isEmpty := by
      cases gs : p.globals with
      | nil =>
        rw [gs] at lines
        cases lines
        rfl
      | cons g rest =>
        rw [gs, List.mapM_cons] at lines
        obtain ⟨l, -, lines⟩ := Except.bind_eq_ok.mp lines
        obtain ⟨ls, -, lines⟩ := Except.bind_eq_ok.mp lines
        cases lines
        rfl
    rw [ok_bind, ok_bind, empty]
    cases p.fnIds.mapM fun f => do p.fnLines p.globalNaming f (← p.fn f) with
    | error e => rfl
    | ok fns =>
      refine congrArg Except.ok ?_
      unfold pages paragraphs
      cases fns with
      | nil => cases globals <;> simp
      | cons l ls => cases globals <;> simp [intercalate_cons]

theorem fnIds_fns (p : Program) :
    List.Forall₂ (fun f d => p.fn? f = some d) p.fnIds p.fns.toList := by
  refine List.forall₂_iff_get.mpr ⟨by simp [fnIds], fun i _ small => ?_⟩
  have inside : i < p.fns.size := by simpa using small
  simp [fnIds, fn?, numbered?, inside]

/-- The declarations in front are printed as lines of their own, and what stands behind them is
printed as it is alone. -/
theorem parts_behind {base p : Program} {avail : Avail} (declares : base.Declares)
    (avoids : p.Avoids base.fnNames) (ok : p.Ok avail) :
    ∃ globals fns, p.parts = .ok (globals, fns) ∧ (p.behind base).parts =
      .ok (globals, base.fns.toList.map (fun d => [d.declLine]) ++ fns) := by
  have outer := globalNaming_behind declares avoids ok
  obtain ⟨globals, _, lines, lines', rfl⟩ :=
    meet_mapM p.globals fun g mem => globalText_behind ok outer mem
  have decls {fs : List FnId} {ds : List Fn}
      (listed : List.Forall₂ (fun f d => base.fn? f = some d) fs ds) (n : Naming) :
      fs.mapM (fun f => do (p.behind base).fnLines n f (← (p.behind base).fn f)) =
        .ok (ds.map fun d => [d.declLine]) := by
    induction listed with
    | nil => rfl
    | cons found _ ih =>
      have bodiless := declares.bodiless _ (numbered?_mem found)
      rw [List.mapM_cons, fn_eq_ok.mpr (fn?_front p base found), ok_bind, ih, fnLines, Fn.isDecl,
        bodiless]
      rfl
  obtain ⟨fns, _, groups, groups', rfl⟩ : Meet Eq
      (p.fnIds.mapM fun f => do p.fnLines p.globalNaming f (← p.fn f))
      ((p.fnIds.map base.pastFn).mapM fun f => do
        (p.behind base).fnLines (p.behind base).globalNaming f (← (p.behind base).fn f)) := by
    refine meet_mapM p.fnIds fun f mem => ?_
    obtain ⟨d, found⟩ := mem_fnIds.mp mem
    rw [fn_eq_ok.mpr found, fn_eq_ok.mpr ((fn?_behind p base f).trans (congrArg _ found))]
    exact fnLines_behind declares avoids ok found
  refine ⟨globals, fns, ?_, ?_⟩
  · rw [parts, lines, ok_bind, groups]
    rfl
  · rw [parts, globals_behind p base declares, lines', ok_bind, fnIds_behind, List.mapM_append,
      decls base.fnIds_fns, ok_bind, groups']
    rfl

end Program
end Koopa
end SysY

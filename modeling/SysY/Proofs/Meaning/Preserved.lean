import SysY.Proofs.Meaning.Total

/-! # Lowering preserves meaning

A function of a unit does in the program what it does in the unit: called with the same arguments,
in a memory that holds the same, and with the same functions from elsewhere, it returns the same
value and leaves the same behind. -/

namespace SysY.Koopa.Program

/-- Start the function with a name. -/
def start? (p : Program) (name : String) (args : List Val) : Option Activation :=
  (p.named? name).bind (p.begin? · args)

end SysY.Koopa.Program

namespace SysY.Meaning

open Koopa (Val Activation ValueId FnId Program)

variable {W : Type}

/-- Call a function of a unit by its name. -/
def start (k : Context W) (n : Nat) (name : String) (args : List Arg) : Run W (Option Int32) :=
  match k.globals.lookup name with
  | some (.function params ret) => invoke k n name params ret args
  | _ => stuck

/-- Memory of a program holds what memory of the unit holds: object `i` of the unit is object `j[i]`
of the program. The global variables of the unit are those of the program, and constant arrays are
there. -/
structure Represents (l : Loaded W) (j : List Nat) (m : Memory Int32) (M : Memory Val) : Prop where
  holds : Holds j m M
  image : Image l j M

/-! ## Every content of the global variables -/

section Boot

variable {l : Loaded W} {m : Memory Int32}

theorem mem_globals {p : Program} {g init : ValueId} {t : Koopa.Ty}
    (has : p.Has g none t (.globalAlloc init)) : g ∈ p.globals := by
  obtain ⟨positive, le⟩ := has.le_size
  obtain ⟨name, found⟩ := has
  refine List.mem_filter.mpr ⟨List.mem_map.mpr ⟨g - 1, ?_, Nat.sub_add_cancel positive⟩, ?_⟩
  · exact List.mem_range.mpr (Nat.lt_of_lt_of_le (Nat.sub_lt positive Nat.one_pos) le)
  · rw [found]
    rfl

/-- What a global variable of the program starts with. -/
def initial? (p : Program) (g : ValueId) : Option (List Int32) :=
  match p.value? g with
  | some ⟨_, .pointer t, .globalAlloc init, _⟩ => p.payload t init
  | _ => none

/-- What a global variable of the program holds when memory of the unit is `m`. -/
def contents (l : Loaded W) (m : Memory Int32) (g : ValueId) : List (Option Int32) :=
  if g ∈ l.slots then (m[l.slots.idxOf g]?).getD []
  else ((initial? l.program g).getD []).map some

/-- Memory of the program when memory of the unit is `m`: the global variables, and behind them the
other objects. -/
def boot (l : Loaded W) (m : Memory Int32) : Memory Val :=
  l.program.globals.map (fun g => cellsOf (contents l m g)) ++ (m.drop l.slots.length).map cellsOf

/-- The objects of the unit in that memory. -/
def booted (l : Loaded W) (m : Memory Int32) : List Nat :=
  l.slots.map l.program.place ++
    List.range' l.program.globals.length (m.length - l.slots.length)

theorem boot_place {g : ValueId} (mem : g ∈ l.program.globals) :
    (boot l m)[l.program.place g]? = some (cellsOf (contents l m g)) := by
  have small : l.program.place g < l.program.globals.length := List.idxOf_lt_length_of_mem mem
  rw [boot, List.getElem?_append_left (by rwa [List.length_map]), List.getElem?_map,
    Program.place, List.getElem?_idxOf mem]
  rfl

theorem place_inj {p : Program} {g g' : ValueId} (mem : g ∈ p.globals)
    (same : p.place g = p.place g') : g = g' := (List.idxOf_inj mem).mp same

/-- The objects behind the global variables. -/
theorem booted_rest {i : Nat} (large : l.slots.length ≤ i) (small : i < m.length) :
    (booted l m)[i]? = some (l.program.globals.length + (i - l.slots.length)) ∧
      (boot l m)[l.program.globals.length + (i - l.slots.length)]? = (m[i]?).map cellsOf := by
  constructor
  · rw [booted, List.getElem?_append_right (by rwa [List.length_map]), List.length_map,
      List.getElem?_range' (by omega), Nat.one_mul]
  · rw [boot, List.getElem?_append_right (by simp), List.length_map, Nat.add_sub_cancel_left,
      List.getElem?_map, List.getElem?_drop, Nat.add_sub_cancel' large]

theorem booted_slot {i : Nat} {g : ValueId} (found : l.slots[i]? = some g) :
    (booted l m)[i]? = some (l.program.place g) := by
  have small := (List.getElem?_eq_some_iff.mp found).1
  rw [booted, List.getElem?_append_left (by rwa [List.length_map]), List.getElem?_map, found]
  rfl

/-- Only the slots of variables are known among the global variables. -/
theorem place_not_mem_booted {g : ValueId} (slots : ∀ g ∈ l.slots, g ∈ l.program.globals)
    (mem : g ∈ l.program.globals) (other : g ∉ l.slots) : l.program.place g ∉ booted l m := by
  intro known
  rcases List.mem_append.mp known with isSlot | behind
  · obtain ⟨g', mem', same⟩ := List.mem_map.mp isSlot
    exact other (place_inj (slots g' mem') same ▸ mem')
  · have small : l.program.place g < l.program.globals.length := List.idxOf_lt_length_of_mem mem
    exact absurd (List.mem_range'_1.mp behind).1 (Nat.not_le_of_lt small)

/-- Every content of the variables of the unit can be there when a function is called, with any
objects besides. -/
theorem boot_represents (distinct : l.slots.Nodup) (slots : ∀ g ∈ l.slots, g ∈ l.program.globals)
    (enough : l.slots.length ≤ m.length) : Represents l (booted l m) m (boot l m) where
  holds := {
    length := by simp [booted, Nat.add_sub_cancel' enough]
    nodup := by
      refine List.nodup_append.mpr ⟨?_, List.nodup_range', ?_⟩
      · refine List.Nodup.map_on (fun g mem g' _ same => place_inj (slots g mem) same) distinct
      · rintro o isSlot _ behind rfl
        obtain ⟨g, mem, rfl⟩ := List.mem_map.mp isSlot
        have small : l.program.place g < l.program.globals.length :=
          List.idxOf_lt_length_of_mem (slots g mem)
        exact absurd (List.mem_range'_1.mp behind).1 (Nat.not_le_of_lt small)
    same := fun {i o cells} found here => by
      have small := (List.getElem?_eq_some_iff.mp here).1
      by_cases first : i < l.slots.length
      · have isSlot : l.slots[i]? = some l.slots[i] := List.getElem?_eq_getElem first
        have mem : l.slots[i] ∈ l.slots := List.getElem_mem first
        obtain rfl := Option.some.inj (found.symm.trans (booted_slot isSlot))
        rw [boot_place (slots _ mem), contents, if_pos mem, distinct.idxOf_getElem, here]
        rfl
      · obtain ⟨known, held⟩ := booted_rest (Nat.le_of_not_lt first) small
        obtain rfl := Option.some.inj (found.symm.trans known)
        rw [held, here]
        rfl }
  image := {
    vars := booted_slot
    tables := fun {g t init data} has payload other => by
      have mem := mem_globals has
      refine ⟨place_not_mem_booted slots mem other, ?_⟩
      obtain ⟨name, found⟩ := has
      rw [boot_place mem, contents, if_neg other, initial?, found]
      simp only [payload]
      rfl }

end Boot

/-! ## Calls from outside -/

section Linked

open Koopa (Avail)

variable {u : CompUnit} {globals : Env} {m : Memory Int32} {avail : Avail} {σ σ₁ : Lower.State}

/-- Memory can hold anything in the global variables. -/
theorem Linked.represents (linked : Linked u globals m avail σ₁ σ) (ext : External W)
    {m' : Memory Int32} (enough : m.length ≤ m'.length) :
    ∃ j M, Represents (Loaded.ofState σ globals ext) j m' M := by
  have vars : (Loaded.ofState σ globals ext).slots = globalSlots σ₁.symbols globals :=
    congrArg (globalSlots · globals) linked.symbols
  refine ⟨_, _, boot_represents ?_ (fun g mem => ?_) ?_⟩
  · rw [vars]
    exact linked.loads.distinct
  · rw [vars] at mem
    obtain ⟨i, small, rfl⟩ := List.getElem_of_mem mem
    obtain ⟨data, initial, -⟩ :=
      linked.loads.vars.get small (linked.loads.vars.length_eq ▸ small)
    obtain ⟨t, init, has, -⟩ := initial.grows linked.returned.grows
    exact mem_globals has
  · rw [vars, linked.loads.vars.length_eq]
    exact enough

/-- A function with a body is called from outside. -/
theorem Linked.returns (linked : Linked u globals m avail σ₁ σ) (ext : External W) {f : Fn}
    (mem : f ∈ bodies u) {n : Nat} {as : List Arg} {s s' : State W} {r : Option Int32}
    (ran : start ⟨ext, bodies u, globals⟩ n f.name as s = some (r, s')) {j : List Nat}
    {M : Memory Val} (represents : Represents (Loaded.ofState σ globals ext) j s.memory M)
    {xs : List Val} (passes : List.Forall₂ (Passes j M) as xs) :
    ∃ here new M', σ.program.start? ("@" ++ f.name) xs = some here ∧
      σ.program.Steps ext (.run here [] M s.world) (.done (r.map .int) M' s'.world) ∧
      Represents (Loaded.ofState σ globals ext) (j ++ new) s'.memory M' := by
  have prepared := linked.prepared ext
  -- The name stands for a function, in the unit and in the program.
  obtain @⟨id, params, _, _, _, _, _, _, _, _, _, _, _, _, bound, meaning, _, before, _⟩ :=
    linked.compiled f mem
  obtain ⟨s₁, _, found, meaning, -⟩ := before.functions bound meaning
  obtain ⟨b, here, standsFor⟩ := linked.loads.bound found
  have has : (Loaded.ofState σ globals ext).Has f.name id params s₁.type := by
    refine ⟨s₁, _, ?_, meaning, rfl⟩
    change σ.symbols.findGlobal? f.name = some s₁
    rw [linked.symbols]
    exact found
  have isFunction : globals.lookup f.name = some (.function params s₁.type) := by
    cases standsFor with
    | constant m₁ | «variable» m₁ => cases meaning.symm.trans m₁
    | function m₁ =>
      cases meaning.symm.trans m₁
      exact here
  obtain ⟨f', isOwn⟩ : ∃ f', (bodies u).find? (·.name == f.name) = some f' := by
    rw [← Option.isSome_iff_exists, List.find?_isSome]
    exact ⟨f, mem, beq_self_eq_true _⟩
  simp only [start, isFunction] at ran
  obtain ⟨here, begins, b, steps, later, agrees⟩ := prepared.returns has isOwn ran
    (a := ⟨j, M, ⟨0, [], fun _ => none⟩, s.world⟩) ⟨represents.holds, rfl, represents.image⟩ passes
  obtain ⟨new, eq, -⟩ := later.more
  obtain ⟨_, _, _, d, _, _, built⟩ := prepared.own has isOwn
  obtain ⟨e, _, _, foundFn, -, -, name⟩ := built.entry
  have isName : f'.name = f.name := by simpa using List.find?_some isOwn
  refine ⟨here, new, b.memory, ?_, ?_, ?_⟩
  · have named := Program.named?_eq linked.ok.distinct foundFn
    rw [name, isName] at named
    rw [Program.start?, named]
    exact begins
  · rw [agrees.world] at steps
    exact steps
  · rw [← eq]
    exact ⟨agrees.holds, agrees.image⟩

end Linked

/-- Lowering preserves meaning. A unit that parses and that is lowered can be loaded, unless an array
is too large. Its global variables can hold anything when one of its functions is called; and if the
function returns in the unit, the program returns the same value, after the same calls of functions
from elsewhere, and leaves the same in memory. -/
theorem lowering_preserves_meaning {file : Source.File} {stop : Bool} {u : CompUnit}
    (parsed : (Parsed.ofLexed (.ofFile file) stop).result = .ok u) {withLibrary : Bool}
    {σ : Lower.State} (accepted : Lower.unit withLibrary false u {} = .ok () σ) (sized : Sized σ)
    (ext : External W) :
    ∃ globals m least, (∀ n ≥ least, load withLibrary n u = some (globals, m)) ∧
      (∀ m', m.length ≤ m'.length →
        ∃ j M, Represents (Loaded.ofState σ globals ext) j m' M) ∧
      ∀ f ∈ bodies u, ∀ {n as s r s' j M xs},
        start ⟨ext, bodies u, globals⟩ n f.name as s = some (r, s') →
        Represents (Loaded.ofState σ globals ext) j s.memory M →
        List.Forall₂ (Passes j M) as xs →
        ∃ here new M', σ.program.start? ("@" ++ f.name) xs = some here ∧
          σ.program.Steps ext (.run here [] M s.world) (.done (r.map .int) M' s'.world) ∧
          Represents (Loaded.ofState σ globals ext) (j ++ new) s'.memory M' := by
  have whole := Parsed.whole parsed
  obtain ⟨globals, m, least, loaded⟩ := load_defined whole accepted sized
  obtain ⟨avail, σ₁, linked⟩ := unit_links whole accepted (loaded least (Nat.le_refl _))
  exact ⟨globals, m, least, loaded, fun m' enough => linked.represents ext enough,
    fun f mem {_ _ _ _ _ _ _ _} ran represents passes => linked.returns ext mem ran represents passes⟩

/-- A file with a loop, a short-circuit condition and a call. -/
def summing : Source.File :=
  { id := 0
    path := "summing.c"
    content := Bytes.ofString ("int sum(int n) \x7b int s = 0; while (n > 0 && s < 100) " ++
      "\x7b s = s + n; n = n - 1; \x7d return s; \x7d int main() \x7b return sum(4) / 2; \x7d")
    flags := default }

/-- Its unit. -/
def summingUnit : CompUnit :=
  (Parsed.ofLexed (.ofFile summing) false).result.toOption.getD default

/-- The names of its functions. -/
def summingNames : Env := [("main", .function [] .int), ("sum", .function [.int] .int)]

/-- No function comes from elsewhere. -/
def nowhere : External Unit := fun _ _ _ => none

theorem ownFn?_eq_some {i : Item} {f : Fn} (own : ownFn? i = some f) : ∃ span, i = .fn span f := by
  cases i with
  | fn span g =>
    rw [ownFn?] at own
    split at own
    · cases own
    · cases own
      exact ⟨span, rfl⟩
  | decl | missing | bare => cases own

theorem summing_items : ∃ s f s' f' p, summingUnit.items = [.fn s f, .fn s' f'] ∧ f.name = "sum" ∧
    f'.name = "main" ∧ f.params = [p] ∧ p.isArray = false ∧ p.dims = [] ∧ f'.params = [] ∧
    f.returnType = .int ∧ f'.returnType = .int := by
  have check : summingUnit.items.map (fun i => (ownFn? i).map fun f =>
      (f.name, f.params.map fun p => (p.isArray, p.dims.isEmpty), f.returnType)) =
      [some ("sum", [(false, true)], .int), some ("main", [], .int)] := by decide +kernel
  obtain ⟨i, rest, items, first, rest₁⟩ := List.map_eq_cons_iff.mp check
  obtain ⟨i', rest', rfl, second, rest₂⟩ := List.map_eq_cons_iff.mp rest₁
  obtain rfl := List.map_eq_nil_iff.mp rest₂
  obtain ⟨f, own, looks⟩ := Option.map_eq_some_iff.mp first
  obtain ⟨f', own', looks'⟩ := Option.map_eq_some_iff.mp second
  obtain ⟨s, rfl⟩ := ownFn?_eq_some own
  obtain ⟨s', rfl⟩ := ownFn?_eq_some own'
  simp only [Prod.mk.injEq, List.map_eq_nil_iff] at looks looks'
  obtain ⟨p, params, param, bound, none⟩ := List.map_eq_cons_iff.mp looks.2.1
  simp only [Prod.mk.injEq, List.isEmpty_iff] at bound
  obtain rfl := List.map_eq_nil_iff.mp none
  exact ⟨s, f, s', f', p, items, looks.1, looks'.1, param, bound.1, bound.2, looks'.2.1,
    looks.2.2, looks'.2.2⟩

theorem summing_loaded (n : Nat) :
    load false (n + 1) summingUnit = some (summingNames, []) := by
  obtain ⟨s, f, s', f', p, items, name, name', params, single, dims, params', ret, ret'⟩ :=
    summing_items
  have main : List.lookup "main" [("sum", Binding.function [.int] .int)] = none := by decide
  have sum : List.lookup "sum" ([] : Env) = none := rfl
  simp only [load, items, loadItems, loadItem, name, name', params, single, dims, params', paramTys,
    bounds, returnTy, ret, ret', Bool.false_eq_true, if_false, sum, main, pure_bind]
  rfl

theorem summing_lowered : ∃ σ, Lower.unit false false summingUnit {} = .ok () σ ∧ Sized σ :=
  Lower.unit_ok_of_check (P := Sized) (by decide +kernel)

/-- Its function `main` returns 5 in the program, as it does in the unit. -/
theorem summing_preserved : ∃ σ here M M', Lower.unit false false summingUnit {} = .ok () σ ∧
    start ⟨nowhere, bodies summingUnit, summingNames⟩ 60 "main" [] (⟨[], ()⟩ : State Unit) =
      some (some 5, ⟨[[some 0], [some 10]], ()⟩) ∧
    σ.program.start? "@main" [] = some here ∧
    σ.program.Steps nowhere (.run here [] M ()) (.done (some (.int 5)) M' ()) := by
  have parsed : (Parsed.ofLexed (.ofFile summing) false).result = .ok summingUnit :=
    eq_ok_of_isSome (by decide +kernel)
  obtain ⟨σ, lowered, sized⟩ := summing_lowered
  have ran : start ⟨nowhere, bodies summingUnit, summingNames⟩ 60 "main" [] (⟨[], ()⟩ : State Unit) =
      some (some 5, ⟨[[some 0], [some 10]], ()⟩) := by decide +kernel
  obtain ⟨globals, m, least, loaded, represents, runs⟩ :=
    lowering_preserves_meaning parsed lowered sized nowhere
  obtain ⟨rfl, rfl⟩ : summingNames = globals ∧ [] = m :=
    Prod.mk.inj (Option.some.inj ((summing_loaded least).symm.trans (loaded _ (Nat.le_succ _))))
  obtain ⟨f, own⟩ : ∃ f, (bodies summingUnit).find? (·.name == "main") = some f :=
    Option.isSome_iff_exists.mp (by decide +kernel)
  have name : f.name = "main" := by simpa using List.find?_some own
  obtain ⟨j, M, holds⟩ := represents [] (Nat.le_refl _)
  rw [← name] at ran
  obtain ⟨here, new, M', begins, steps, -⟩ := runs f (List.mem_of_find?_eq_some own) ran holds .nil
  rw [name] at begins ran
  exact ⟨σ, here, M, M', lowered, ran, begins, steps⟩
end SysY.Meaning

import SysY.Proofs.Koopa.Naming
import SysY.Proofs.Lower.Unit

/-! # What lowering yields

For every source that parses: lowering fails only in expected ways, and a program that it yields is
valid, definitions dominate uses in it, and it is well typed. -/

namespace SysY

open Koopa (Avail)

/-! ## Results of lowering -/

theorem Lowered.ofUnit_ok {u : CompUnit} {withLibrary canceled : Bool} {p : Koopa.Program}
    (h : (Lowered.ofUnit u withLibrary canceled).result = .ok p) :
    ∃ σ, Lower.unit withLibrary canceled u {} = .ok () σ ∧ σ.program = p := by
  unfold Lowered.ofUnit at h
  split at h
  · rename_i σ eq
    exact ⟨σ, eq, by simpa using h⟩
  · cases h

/-- What is known of a program that was lowered from a source, together with the symbols. -/
structure Lowered.Made (avail : Avail) (σ : Lower.State) : Prop where
  ok : σ.program.Ok avail
  finished : σ.program.Finished
  slots : ∀ {g t init}, σ.program.Has g none t (.globalAlloc init) → ∃ id s,
    σ.symbols.get? id = some s ∧ s.slot? = some g ∧ s.type.Solid ∧ t = .pointer s.type.koopa

theorem Lowered.made {u : CompUnit} {withLibrary canceled : Bool} {σ : Lower.State}
    (whole : u.Whole) (h : Lower.unit withLibrary canceled u {} = .ok () σ) :
    ∃ avail, Made avail σ := by
  obtain ⟨avail, σ₁, top, p, -, rfl, ok, returned, finished⟩ :=
    (Lower.unit_safe whole withLibrary canceled).ok h
  exact ⟨avail, ok, finished, fun has => top.slots (returned.globals has)⟩

/-- Lowering a source fails only in expected ways. -/
theorem Lowered.expected {u : CompUnit} {withLibrary canceled : Bool} {e : Failure}
    (whole : u.Whole) (h : (Lowered.ofUnit u withLibrary canceled).result = .error e) :
    e.Expected := by
  unfold Lowered.ofUnit at h
  split at h
  · cases h
  · rename_i e' σ eq
    cases h
    exact ((Lower.unit_safe whole withLibrary canceled).error eq).1

/-! ## Sources -/

/-- A small source with a constant array, a loop and a condition that is evaluated in part. -/
def sample : Source.File :=
  { id := 0
    path := "sample.c"
    content := Bytes.ofString ("const int a[2] = \x7b1, 2\x7d; int main() \x7b int i = 0; " ++
      "while (i < 2 && a[i] != 2) i = i + 1; return i; \x7d")
    flags := default }

/-- The unit of the sample. -/
def sampleUnit : CompUnit := (Parsed.ofLexed (.ofFile sample) false).result.toOption.getD default

/-- The program of the sample. -/
def sampleProgram : Koopa.Program :=
  (Lowered.ofUnit sampleUnit true false).result.toOption.getD default

theorem eq_ok_of_isSome {α : Type} [Inhabited α] {o : Outcome α} (h : o.toOption.isSome = true) :
    o = .ok (o.toOption.getD default) := by
  cases o with
  | ok a => rfl
  | error f => cases h

theorem sample_parsed : (Parsed.ofLexed (.ofFile sample) false).result = .ok sampleUnit :=
  eq_ok_of_isSome (by decide +kernel)

theorem sample_accepted : (Lowered.ofUnit sampleUnit true false).result = .ok sampleProgram :=
  eq_ok_of_isSome (by decide +kernel)

section Source

variable {file : Source.File} {stop : Bool} {u : CompUnit}

/-- Lowering a source never ends with an internal error, and what it yields passes both checks. -/
theorem lowered_valid (parsed : (Parsed.ofLexed (.ofFile file) stop).result = .ok u)
    (withLibrary canceled : Bool) :
    (∀ e, (Lowered.ofUnit u withLibrary canceled).result = .error e → e.code ≠ .internalError) ∧
      ∀ p, (Lowered.ofUnit u withLibrary canceled).result = .ok p →
        p.validate = .ok none ∧ p.check = .ok none ∧ p.WellFormed := by
  have whole := Parsed.whole parsed
  refine ⟨fun e failed => ?_, fun p accepted => ?_⟩
  · have expected := Lowered.expected whole failed
    have unknown : Diag.Code.unknown ≠ .internalError := by decide
    cases e with
    | error d => exact expected
    | notConstant | canceled | other | fault => exact unknown
  · obtain ⟨σ, eq, rfl⟩ := Lowered.ofUnit_ok accepted
    obtain ⟨avail, made⟩ := Lowered.made whole eq
    exact ⟨Koopa.Program.validate_eq made.ok made.finished,
      Koopa.Program.check_eq made.ok made.finished, made.ok.wellFormed made.finished⟩

/-- The program of the sample is valid. -/
theorem sample_valid : sampleProgram.validate = .ok none ∧ sampleProgram.check = .ok none ∧
    sampleProgram.WellFormed :=
  (lowered_valid sample_parsed true false).2 sampleProgram sample_accepted

/-- In what lowering yields, definitions dominate uses, and every operand is printed as a name or a
constant. -/
theorem lowered_dominated (parsed : (Parsed.ofLexed (.ofFile file) stop).result = .ok u)
    {withLibrary canceled : Bool} {p : Koopa.Program}
    (accepted : (Lowered.ofUnit u withLibrary canceled).result = .ok p) {f : Koopa.FnId}
    {d : Koopa.Fn} (found : p.fn? f = some d) :
    (∀ {b xs v ys h t x o}, d.insts? b = some (xs ++ v :: ys) → p.Has v h t x → o ∈ x.operands →
      p.Origin f d b xs o) ∧
    ∃ names, p.fnNaming f d = .ok names ∧ ∀ {b is v h t x o}, d.insts? b = some is → v ∈ is →
      p.Has v h t x → o ∈ x.operands →
        ∃ s, p.operandText f p.globalNaming names o = .ok s ∧ s.toList.head? ≠ some '?' := by
  obtain ⟨σ, eq, rfl⟩ := Lowered.ofUnit_ok accepted
  obtain ⟨avail, made⟩ := Lowered.made (Parsed.whole parsed) eq
  exact ⟨fun here has mem => made.ok.origin found here has mem,
    Koopa.Program.operandText_spec made.ok found⟩

/-- Its function `main` comes after the eight functions of the library. The first block has the
variable, which the fifth one loads to subscript the array. -/
theorem sample_parts :
    (sampleProgram.fn? 9).map (fun d => (d.name, d.params, d.layout)) = some ("@main", [],
      [(1, [10, 12, 13]), (2, [14, 16, 17, 19, 21, 22]), (3, [34, 36, 37, 38]),
        (4, [39, 40]), (5, [23, 24, 25, 27, 29, 30, 31]), (6, [32, 33])]) ∧
    [9, 10, 23, 24].map (fun v => (sampleProgram.value? v).map fun x => (x.home, x.ty, x.defn)) =
      [some (none, .pointer (.array .i32 2), .globalAlloc 8), some (some 9, .pointer .i32, .alloc),
        some (some 9, .i32, .load 10), some (some 9, .pointer .i32, .getElemPtr 9 23)] := by
  decide +kernel

theorem sample_main : ∃ d, sampleProgram.fn? 9 = some d ∧ d.name = "@main" ∧ d.params = [] ∧
    d.layout = [(1, [10, 12, 13]), (2, [14, 16, 17, 19, 21, 22]), (3, [34, 36, 37, 38]),
      (4, [39, 40]), (5, [23, 24, 25, 27, 29, 30, 31]), (6, [32, 33])] := by
  obtain ⟨d, found, eq⟩ := Option.map_eq_some_iff.mp sample_parts.1
  obtain ⟨name, rest⟩ := Prod.mk.inj eq
  obtain ⟨params, layout⟩ := Prod.mk.inj rest
  exact ⟨d, found, name, params, layout⟩

theorem sample_has {v : Koopa.ValueId} {h : Option Koopa.FnId} {t : Koopa.Ty} {x : Koopa.ValueDef}
    (same : (sampleProgram.value? v).map (fun y => (y.home, y.ty, y.defn)) = some (h, t, x)) :
    sampleProgram.Has v h t x := by
  obtain ⟨y, found, eq⟩ := Option.map_eq_some_iff.mp same
  obtain ⟨rfl, rest⟩ := Prod.mk.inj eq
  obtain ⟨rfl, rfl⟩ := Prod.mk.inj rest
  exact Koopa.Program.has_of_value? found

theorem sample_values :
    sampleProgram.Has 9 none (.pointer (.array .i32 2)) (.globalAlloc 8) ∧
    sampleProgram.Has 10 (some 9) (.pointer .i32) .alloc ∧
    sampleProgram.Has 23 (some 9) .i32 (.load 10) ∧
    sampleProgram.Has 24 (some 9) (.pointer .i32) (.getElemPtr 9 23) := by
  have values := sample_parts.2
  simp only [List.map_cons, List.map_nil, List.cons.injEq, and_true] at values
  obtain ⟨global, alloc, load, element⟩ := values
  exact ⟨sample_has global, sample_has alloc, sample_has load, sample_has element⟩

/-- The variable that is loaded comes from the first block, which dominates the fifth one. -/
theorem sample_dominated : ∃ d, sampleProgram.fn? 9 = some d ∧ d.name = "@main" ∧
    d.insts? 5 = some ([] ++ 23 :: [24, 25, 27, 29, 30, 31]) ∧
    sampleProgram.Has 23 (some 9) .i32 (.load 10) ∧ sampleProgram.Origin 9 d 5 [] 10 ∧
    d.Dominates sampleProgram 1 5 ∧
    ∃ names s, sampleProgram.fnNaming 9 d = .ok names ∧
      sampleProgram.operandText 9 sampleProgram.globalNaming names 10 = .ok s ∧
        s.toList.head? ≠ some '?' := by
  obtain ⟨d, found, name, params, layout⟩ := sample_main
  have here : d.insts? 5 = some ([] ++ 23 :: [24, 25, 27, 29, 30, 31]) := by
    rw [Koopa.Fn.insts?, layout]
    rfl
  obtain ⟨-, alloc, load, -⟩ := sample_values
  have reads : 10 ∈ (Koopa.ValueDef.load 10).operands := List.mem_cons_self
  obtain ⟨origins, names, named, texts⟩ := lowered_dominated sample_parsed sample_accepted found
  have origin := origins here load reads
  obtain ⟨s, text, known⟩ := texts here List.mem_cons_self load reads
  refine ⟨d, found, name, here, load, origin, ?_, names, s, named, text, known⟩
  cases origin with
  | constant has _ isConst =>
    obtain ⟨-, -, rfl⟩ := alloc.unique has
    cases isConst
  | global has =>
    obtain ⟨home, -⟩ := alloc.unique has
    cases home
  | param isParam =>
    rw [params] at isParam
    cases isParam
  | earlier before => cases before
  | @dominating c is laid inside dominates =>
    have first : ∀ e ∈ d.layout, 10 ∈ e.2 → e.1 = 1 := by
      rw [layout]
      decide
    obtain ⟨before, after, split, -⟩ := List.lookup_eq_some_iff.mp laid
    obtain rfl : c = 1 := first (c, is) (by simp [split]) inside
    exact dominates

/-- What lowering yields obeys the typing rules, and global variables have their declared types. No
operation on programs is ever refused. -/
theorem lowered_typed (parsed : (Parsed.ofLexed (.ofFile file) stop).result = .ok u)
    (withLibrary canceled : Bool) :
    (∀ text, (Lowered.ofUnit u withLibrary canceled).result ≠ .error (.fault (some text))) ∧
      ∀ p, (Lowered.ofUnit u withLibrary canceled).result = .ok p →
        (∀ {f d b is v}, p.fn? f = some d → d.insts? b = some is → v ∈ is →
          ∃ t x, p.Has v (some f) t x ∧ p.Typed (some f) t x) ∧
        ∃ σ, Lower.unit withLibrary canceled u {} = .ok () σ ∧ σ.program = p ∧
          ∀ {g h t init}, p.Has g h t (.globalAlloc init) → ∃ id s k,
            σ.symbols.get? id = some s ∧ s.slot? = some g ∧ s.type.toKoopa = .ok k ∧
              t = .pointer k ∧ p.Sees none init k := by
  have whole := Parsed.whole parsed
  refine ⟨fun text failed => ?_, fun p accepted => ?_⟩
  · cases Lowered.expected whole failed
  · obtain ⟨σ, eq, rfl⟩ := Lowered.ofUnit_ok accepted
    obtain ⟨avail, made⟩ := Lowered.made whole eq
    refine ⟨fun found here mem => ?_, σ, eq, rfl, fun {g h t init} has => ?_⟩
    · obtain ⟨t, x, has, -⟩ := (made.ok.fns found).placed here mem
      exact ⟨t, x, has, (made.ok.values has).typed⟩
    · have valueOk := made.ok.values has
      obtain rfl := valueOk.global init rfl
      obtain ⟨id, s, here, slot, solid, type⟩ := made.slots has
      obtain ⟨t', type', sees⟩ := valueOk.typed
      obtain rfl : t' = s.type.koopa := by
        rw [type] at type'
        exact (Koopa.Ty.pointer.inj type').symm
      exact ⟨id, s, _, here, slot, Ty.toKoopa_eq solid, type, sees⟩

/-- The fifth block subscripts the array, a global variable whose type is that of its symbol. -/
theorem sample_typed : ∃ d, sampleProgram.fn? 9 = some d ∧ d.name = "@main" ∧
    (∃ is, d.insts? 5 = some is ∧ 24 ∈ is) ∧
    sampleProgram.Has 24 (some 9) (.pointer .i32) (.getElemPtr 9 23) ∧
    sampleProgram.Sees (some 9) 9 (.pointer (.array .i32 2)) ∧
    sampleProgram.Sees (some 9) 23 .i32 ∧
    ∃ σ id s, Lower.unit true false sampleUnit {} = .ok () σ ∧ σ.program = sampleProgram ∧
      σ.symbols.get? id = some s ∧ s.slot? = some 9 ∧ s.type.toKoopa = .ok (.array .i32 2) := by
  obtain ⟨d, found, name, -, layout⟩ := sample_main
  have here : d.insts? 5 = some [23, 24, 25, 27, 29, 30, 31] := by
    rw [Koopa.Fn.insts?, layout]
    rfl
  obtain ⟨global, -, -, element⟩ := sample_values
  obtain ⟨insts, σ, lowered, program, globals⟩ :=
    (lowered_typed sample_parsed true false).2 sampleProgram sample_accepted
  have inside : 24 ∈ [23, 24, 25, 27, 29, 30, 31] := by decide
  obtain ⟨t, x, has, typed⟩ := insts found here inside
  obtain ⟨-, rfl, rfl⟩ := element.unique has
  obtain ⟨t, n, -, array, subscript⟩ := typed
  obtain ⟨id, s, k, known, slot, type, same, -⟩ := globals global
  obtain rfl := Koopa.Ty.pointer.inj same
  exact ⟨d, found, name, ⟨_, here, inside⟩, element, ⟨_, _, global, .inr rfl⟩, subscript,
    σ, id, s, lowered, program, known, slot, type⟩

end Source

end SysY

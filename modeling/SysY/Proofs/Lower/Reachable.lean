import SysY.Proofs.Lower.Moments
import SysY.Proofs.Lower.Output

/-! # Unreachable code

Instructions are only appended to blocks that control can reach. A block that it cannot reach stays
empty until all blocks are closed, and then it gets a return. -/

namespace SysY

open Koopa (FnId BlockId)

/-- Closing the blocks of a program in which only blocks that control can reach have instructions
gives the other ones a return, and nothing else. -/
theorem Koopa.Program.Returned.unreached {p p' : Koopa.Program} (returned : p.Returned p')
    (tidy : p.Tidy) (finished : p'.Finished) {f : FnId} {d : Koopa.Fn} {b : BlockId}
    (found : p'.fn? f = some d) (mem : b ∈ d.blocks) (unreached : ¬ d.Reaches p' b) :
    ∃ r value, d.insts? b = some [r] ∧ p'.Has r (some f) .unit (.ret value) := by
  obtain ⟨d₀, found₀⟩ : ∃ d₀, p.fn? f = some d₀ := by
    have sameIds : p'.fnIds = p.fnIds := by rw [fnIds, fnIds, returned.size]
    rw [← mem_fnIds, ← sameIds, mem_fnIds]
    exact ⟨d, found⟩
  obtain ⟨_, found', blocks, insts⟩ := returned.fns found₀
  obtain rfl := Option.some.inj (found.symm.trans found')
  obtain ⟨_, later, grown⟩ := returned.grows.fns found₀
  obtain rfl := Option.some.inj (found.symm.trans later)
  obtain ⟨_, is, v, found'', closed, -⟩ := finished found mem
  obtain rfl := Option.some.inj (found.symm.trans found'')
  rw [blocks] at mem
  obtain ⟨js, here⟩ : ∃ js, d₀.insts? b = some js := by
    refine Option.ne_none_iff_exists'.mp fun missing => ?_
    obtain ⟨e, he, rfl⟩ := List.mem_map.mp mem
    simpa using List.lookup_eq_none_iff.mp missing e he
  obtain rfl : js = [] := by
    by_contra nonempty
    exact unreached ((tidy.reach found₀ here nonempty).grows returned.grows grown)
  rcases insts here with same | ⟨-, r, laid, returns⟩
  · rw [closed] at same
    simp at same
  · rcases returns with ⟨-, has⟩ | ⟨-, z, has, -⟩
    · exact ⟨r, none, laid, has⟩
    · exact ⟨r, some z, laid, has⟩

/-- The current block is laid out, it has no terminator yet, and control can reach it along the
branches so far. -/
def Lower.State.OnPath (σ : Lower.State) : Prop :=
  ∃ d is, σ.program.fn? σ.frame.fn = some d ∧ d.insts? σ.frame.block = some is ∧
    (∀ w ∈ is, ¬ σ.program.IsTerm w) ∧ d.Reaches σ.program σ.frame.block

/-- At every moment of lowering an open block is one that control can reach, and in the finished
program a block that control cannot reach has one instruction, a return. -/
theorem lowered_reachable {file : Source.File} {stop : Bool} {u : CompUnit}
    (parsed : (Parsed.ofLexed (.ofFile file) stop).result = .ok u) {withLibrary : Bool}
    {p : Koopa.Program} (accepted : (Lowered.ofUnit u withLibrary false).result = .ok p) :
    (∀ {σ}, Lower.Moment withLibrary u σ → σ.frame.isOpen = true → σ.OnPath) ∧
      ∀ {f d b}, p.fn? f = some d → b ∈ d.blocks → ¬ d.Reaches p b →
        ∃ r value, d.insts? b = some [r] ∧ p.Has r (some f) .unit (.ret value) := by
  have whole := Parsed.whole parsed
  refine ⟨fun moment isOpen => ?_, fun found mem unreached => ?_⟩
  · obtain ⟨c, avail, inv⟩ := moment.inv whole
    exact inv.block isOpen
  · obtain ⟨σ, eq, rfl⟩ := Lowered.ofUnit_ok accepted
    obtain ⟨avail, σ₁, top, p, -, rfl, -, returned, finished⟩ :=
      (Lower.unit_safe whole withLibrary false).ok eq
    exact returned.unreached top.tidy finished found mem unreached

/-- A source with a loop after a return. -/
def afterReturn : Source.File :=
  { id := 0
    path := "after.c"
    content := Bytes.ofString "int f(int x) \x7b return x; while (x) x = 0; \x7d"
    flags := default }

/-- Its unit. -/
def afterReturnUnit : CompUnit :=
  (Parsed.ofLexed (.ofFile afterReturn) false).result.toOption.getD default

/-- Its program. -/
def afterReturnProgram : Koopa.Program :=
  (Lowered.ofUnit afterReturnUnit false false).result.toOption.getD default

/-- Where control never leaves the entry block it reaches no other block. -/
theorem Koopa.Fn.Reaches.eq_entry {p : Koopa.Program} {d : Koopa.Fn} {entry b : BlockId}
    (first : d.blocks.head? = some entry)
    (ends : ((d.insts? entry).getD []).all
      (fun v => ((p.value? v).map (·.defn.targets.isEmpty)).getD true) = true)
    (reaches : d.Reaches p b) : b = entry := by
  obtain ⟨visited, path⟩ := reaches
  induction path with
  | entry first' => exact Option.some.inj (first'.symm.trans first)
  | step _ edge ih =>
    obtain ⟨is, v, h, t, x, here, mem, ⟨name, found⟩, target⟩ := edge
    rw [ih] at here
    rw [here, Option.getD_some, List.all_eq_true] at ends
    have none : x.targets = [] := by simpa [found] using ends v mem
    rw [none] at target
    cases target

/-- The start of the body of a function is a moment of lowering. -/
theorem Lower.Moment.ofBody {u : CompUnit} (check : (match u.items with
    | .fn _ f :: _ =>
      match f.body, Lower.opening f {} with
      | some (.block ..), .ok _ σ => σ.frame.isOpen
      | _, _ => false
    | _ => false) = true) : ∃ σ, Lower.Moment false u σ ∧ σ.frame.isOpen = true := by
  split at check
  · rename_i span f is items
    split at check
    · rename_i isBody opened
      have start : Lower.Reached false u (.items u.items) {} := .start rfl
      rw [items] at start
      exact ⟨_, .begins (.step start (.body isBody opened)) trivial, check⟩
    · cases check
  · cases check

/-- In the example lowering comes to an open block, and the blocks of the loop are never reached. -/
theorem afterReturn_reachable : (∃ σ, Lower.Moment false afterReturnUnit σ ∧
      σ.frame.isOpen = true ∧ σ.OnPath) ∧
    ∃ d, afterReturnProgram.fn? 1 = some d ∧ 3 ∈ d.blocks ∧ ¬ d.Reaches afterReturnProgram 3 ∧
      ∃ r value, d.insts? 3 = some [r] ∧
        afterReturnProgram.Has r (some 1) .unit (.ret value) := by
  have parsed : (Parsed.ofLexed (.ofFile afterReturn) false).result = .ok afterReturnUnit :=
    eq_ok_of_isSome (by decide +kernel)
  have accepted : (Lowered.ofUnit afterReturnUnit false false).result = .ok afterReturnProgram :=
    eq_ok_of_isSome (by decide +kernel)
  have reachable := lowered_reachable parsed accepted
  obtain ⟨σ, moment, isOpen⟩ := Lower.Moment.ofBody (u := afterReturnUnit) (by decide +kernel)
  obtain ⟨d, found⟩ : ∃ d, afterReturnProgram.fn? 1 = some d :=
    Option.isSome_iff_exists.mp (by decide +kernel)
  have laid : ∀ {q : Koopa.Fn → Bool}, (afterReturnProgram.fn? 1).all q = true → q d = true := by
    intro q h
    rwa [found] at h
  have mem : 3 ∈ d.blocks := by simpa using laid (q := fun d => d.blocks.contains 3) (by decide +kernel)
  have unreached : ¬ d.Reaches afterReturnProgram 3 := by
    intro reaches
    have same := reaches.eq_entry
      (by simpa using laid (q := fun d => d.blocks.head? == some 1) (by decide +kernel))
      (laid (q := fun d => ((d.insts? 1).getD []).all fun v =>
        ((afterReturnProgram.value? v).map (·.defn.targets.isEmpty)).getD true) (by decide +kernel))
    cases same
  exact ⟨⟨σ, moment, isOpen, reachable.1 moment isOpen⟩, d, found, mem, unreached,
    reachable.2 found mem unreached⟩

end SysY

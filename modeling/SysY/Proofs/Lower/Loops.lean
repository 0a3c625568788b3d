import SysY.Proofs.Lower.Endings
import SysY.Proofs.Lower.Output

/-! # Scopes and loops of a source

For every source, wherever lowering ends: all scopes are closed, no loop is open, and no assertion
about either failed. While it runs, the open loops are those around the current statement in its
function, which is where `break` and `continue` look. -/

namespace SysY

namespace Lower

open Koopa (ValueId BlockId FnId Avail)
open Source (Span)

/-! ## The loops around a part -/

/-- One part is the body of the loop that the other one is. -/
def Part.Repeats (part part' : Part) : Prop :=
  ∃ span cond body, part = .stmt (.while span cond body) ∧ part' = .stmt body

/-- Lowering a unit gets to a part in a state, and these are the loops of the same function that
enclose the part, innermost first: for each the block of its condition and the block after it. -/
inductive Within (withLibrary : Bool) (u : CompUnit) : Part → State → List LoopTargets → Prop
  | start {σ} : (if withLibrary then declareLibrary library else pure ()) {} = .ok () σ →
      Within withLibrary u (.items u.items) σ []
  | item {is part' σ σ'} : Within withLibrary u (.items is) σ [] →
      Leads (.items is) σ part' σ' → Within withLibrary u part' σ' []
  | loopBody {span cond body condBlock bodyBlock done σ σ₁ σ' ts} :
      Within withLibrary u (.stmt (.while span cond body)) σ ts →
      looping σ = .ok (condBlock, bodyBlock, done) σ₁ → repeating cond σ = .ok () σ' →
      Within withLibrary u (.stmt body) σ' (⟨condBlock, done⟩ :: ts)
  | inside {part part' σ σ' ts} : Within withLibrary u part σ ts → part.InBody →
      Leads part σ part' σ' → ¬ part.Repeats part' → Within withLibrary u part' σ' ts

variable {α : Type} {σ σ' : State} {part part' : Part} {ts : List LoopTargets}

/-! ### What comes before a part -/

theorem repeating_loops {cond : Expr} (ran : repeating cond σ = .ok () σ') :
    ∃ condBlock bodyBlock done σ₁, looping σ = .ok (condBlock, bodyBlock, done) σ₁ ∧
      σ'.frame.loops = ⟨condBlock, done⟩ :: σ.frame.loops := by
  obtain ⟨condBlock, bodyBlock, done, σ₁, σ₂, made, stays, rfl⟩ := repeating_enters ran
  exact ⟨condBlock, bodyBlock, done, σ₁, made, congrArg (_ :: ·) stays.loops⟩

/-- A function starts outside of all loops. -/
theorem opening_loops {f : Fn} (ran : opening f σ = .ok () σ') : σ'.frame.loops = [] := by
  obtain ⟨s, σ₀, asked, ran⟩ := bind_eq_ok.mp ran
  obtain ⟨params, σ₁, resolved, ran⟩ := bind_eq_ok.mp ran
  obtain ⟨id, σ₂, headed, ran⟩ := bind_eq_ok.mp ran
  obtain ⟨_, σ₃, bound, ran⟩ := bind_eq_ok.mp ran
  obtain ⟨_, σ₄, framed, ran⟩ := bind_eq_ok.mp ran
  obtain ⟨b, σ₅, laid, ran⟩ := bind_eq_ok.mp ran
  obtain ⟨_, σ₆, switched, ran⟩ := bind_eq_ok.mp ran
  obtain ⟨_, σ₇, pushed, ran⟩ := bind_eq_ok.mp ran
  have spilled : Kept (do
      spillParams f.params params (← lift ((← get).program.fn id)).params) :=
    get_keeps fun _ => bind_keeps (lift_keeps _) fun _ => spillParams_kept _ _ _
  cases pushed
  have entered := ((switchTo_kept b).ok switched).loops
  rw [(spilled.ok ran).loops]
  change σ₆.frame.loops = []
  rw [entered, (newBlock_kept.ok laid).loops]
  cases framed
  rfl

/-! ### The open loops are those around a part -/

/-- In a function, loops are entered and left with their bodies only. -/
theorem Leads.loops (leads : Leads part σ part' σ') (isBody : part.InBody)
    (other : ¬ part.Repeats part') : σ'.frame.loops = σ.frame.loops := by
  rcases leads.keeps isBody with stays | rfl | ⟨span, cond, body, isLoop, isBody, -⟩
  · exact stays.loops
  · rfl
  · exact absurd ⟨span, cond, body, isLoop, isBody⟩ other

/-- Outside of functions no loop is open. -/
theorem Leads.items_loops {is : List Item} (leads : Leads (.items is) σ part' σ')
    (outside : σ.frame.loops = []) : σ'.frame.loops = [] := by
  cases leads with
  | body _ opened => exact opening_loops opened
  | nextItem ran => exact (((item_crosses _).ok ran).passes outside).loops.trans outside

section Within

variable {withLibrary : Bool} {u : CompUnit}

theorem Within.loops (within : Within withLibrary u part σ ts) : σ.frame.loops = ts := by
  induction within with
  | start ran =>
    refine (Keeps.ok (R := Passes) (σ := {}) ?_ ran).loops
    split
    · exact declareLibrary_passes _
    · exact pure_keeps _
  | item _ leads ih => exact leads.items_loops ih
  | loopBody _ made ran ih =>
    obtain ⟨_, _, _, _, made', loops⟩ := repeating_loops ran
    cases made.symm.trans made'
    rw [loops, ih]
  | inside _ isBody leads other ih => rw [leads.loops isBody other, ih]

theorem Within.items_outside {is : List Item} (within : Within withLibrary u (.items is) σ ts) :
    ts = [] := by
  cases within with
  | start | item => rfl
  | inside _ isBody leads _ =>
    cases leads with
    | nextItem => exact isBody.elim

/-- Every part that lowering gets to is inside of some loops, or of none. -/
theorem Reached.within (reached : Reached withLibrary u part σ) :
    ∃ ts, Within withLibrary u part σ ts := by
  induction reached with
  | start ran => exact ⟨[], .start ran⟩
  | @step part part' σ σ' _ leads ih =>
    obtain ⟨ts, within⟩ := ih
    by_cases isBody : part.InBody
    · by_cases repeats : part.Repeats part'
      · obtain ⟨span, cond, body, rfl, rfl⟩ := repeats
        cases leads with
        | loopBody ran =>
          obtain ⟨_, _, _, _, made, -⟩ := repeating_loops ran
          exact ⟨_, .loopBody within made ran⟩
      · exact ⟨ts, .inside within isBody leads repeats⟩
    · cases part with
      | items is =>
        obtain rfl := within.items_outside
        exact ⟨[], .item within leads⟩
      | _ => exact absurd trivial isBody

theorem Within.reached (within : Within withLibrary u part σ ts) : Reached withLibrary u part σ := by
  induction within with
  | start ran => exact .start ran
  | item _ leads ih => exact .step ih leads
  | loopBody _ _ ran ih => exact .step ih (.loopBody ran)
  | inside _ _ leads _ ih => exact .step ih leads

end Within

/-! ## Jumps out of loops -/

/-- The current block ends with a jump if it takes instructions; else no instruction is added. What
comes next is unreachable. -/
structure Jumps (σ σ' : State) (target : BlockId) : Prop where
  last : σ.frame.isOpen = true → ∃ d d' is v, σ.program.fn? σ.frame.fn = some d ∧
    d.insts? σ.frame.block = some is ∧ σ'.program.fn? σ.frame.fn = some d' ∧
    d'.insts? σ.frame.block = some (is ++ [v]) ∧
    σ'.program.Has v (some σ.frame.fn) .unit (.jump target)
  dropped : σ.frame.isOpen = false → ∀ f, σ'.program.fn? f = σ.program.fn? f
  next : σ'.frame.isOpen = false

theorem Inv.jumps {c : Site} {avail : Avail} (inv : Inv c avail σ) (target : BlockId) :
    Jumps σ (σ.sealed (.jump target) 0 false) target where
  last := fun isOpen => by
    obtain ⟨d, is, found, here, -⟩ := inv.block isOpen
    have found' : (σ.program.inst σ.frame.fn .unit (.jump target)).2.fn? σ.frame.fn = some d := found
    refine ⟨d, d.append σ.frame.block (σ.program.values.size + 1), is, _, found, here, ?_, ?_,
      σ.emitted_has .unit _⟩
    · change (σ.emitted .unit _).program.fn? σ.frame.fn = _
      rw [State.emitted_open isOpen found]
      exact (Koopa.Program.fn?_setFn found' _ _).trans (if_pos rfl)
    · exact (Koopa.Fn.insts?_append ..).trans ((if_pos rfl).trans (by rw [here]; rfl))
  dropped := fun isClosed f => by
    change (σ.emitted .unit _).program.fn? f = _
    rw [State.emitted_closed isClosed]
    rfl
  next := rfl

/-- Control leaves the innermost of the given loops by a jump to `target`, and without a loop this is
refused. -/
def Transfers (span : Span) (keyword : String) (target : LoopTargets → BlockId) (m : Lower Unit)
    (σ : State) : List LoopTargets → Prop
  | [] => m σ = .error (.error (.invalidControlTransfer span keyword)) σ
  | t :: _ => ∃ σ', m σ = .ok () σ' ∧ Jumps σ σ' (target t)

theorem leaveLoop_transfers {span : Span} {keyword : String} {target : LoopTargets → BlockId}
    {c : Site} {avail : Avail} (inv : Inv c avail σ) (loops : σ.frame.loops = ts) :
    Transfers span keyword target (leaveLoop span keyword target) σ ts := by
  have run := leaveLoop_eq span keyword target σ
  rw [loops] at run
  cases ts with
  | nil => exact run
  | cons t ts =>
    have inner : t ∈ c.loops := by rw [← inv.site.loops, loops]; simp
    have jumped : jump (target t) σ = .ok () (σ.sealed (.jump (target t)) 0 false) :=
      (bind_ok (make_eq rfl)).trans (sealOff_made inv.takes _)
    exact ⟨_, run.trans jumped, inv.jumps _⟩

theorem looping_block {condBlock bodyBlock done : BlockId}
    (made : looping σ = .ok (condBlock, bodyBlock, done) σ') : σ'.frame.block = condBlock := by
  obtain ⟨b, σ₁, first, made⟩ := bind_eq_ok.mp made
  obtain ⟨b₂, σ₂, second, made⟩ := bind_eq_ok.mp made
  obtain ⟨b₃, σ₃, third, made⟩ := bind_eq_ok.mp made
  obtain ⟨v, σ₄, jumped, made⟩ := bind_eq_ok.mp made
  obtain ⟨_, σ₅, ended, made⟩ := bind_eq_ok.mp made
  obtain ⟨reachable, σ₆, asked, ended⟩ := bind_eq_ok.mp ended
  obtain ⟨_, σ₇, emitted, framed⟩ := bind_eq_ok.mp ended
  cases framed
  cases made
  rfl

/-- The condition of a loop is lowered in its first block, and what follows the loop in its third. -/
theorem loop_blocks {cond : Expr} {body : Lower Unit} (ran : loop cond body σ = .ok () σ')
    (reachable : σ.frame.isOpen = true) : ∃ condBlock bodyBlock done σ₁,
      looping σ = .ok (condBlock, bodyBlock, done) σ₁ ∧ σ₁.frame.block = condBlock ∧
        σ'.frame.block = done ∧ σ'.frame.isOpen = true := by
  have asked : isOpen σ = .ok true σ := by rw [← reachable]; rfl
  rw [loop_looping, bind_ok asked] at ran
  obtain ⟨⟨condBlock, bodyBlock, done⟩, σ₁, made, ran⟩ := bind_eq_ok.mp ran
  refine ⟨condBlock, bodyBlock, done, σ₁, made, looping_block made, ?_⟩
  obtain ⟨c, σ₂, tested, ran⟩ := bind_eq_ok.mp ran
  obtain ⟨branch, σ₃, branched, ran⟩ := bind_eq_ok.mp ran
  obtain ⟨_, σ₄, ended, ran⟩ := bind_eq_ok.mp ran
  obtain ⟨_, σ₅, entered, ran⟩ := bind_eq_ok.mp ran
  obtain ⟨_, σ₆, repeated, ran⟩ := bind_eq_ok.mp ran
  obtain ⟨again, σ₇, back, went⟩ := bind_eq_ok.mp ran
  cases went
  exact ⟨rfl, rfl⟩

/-! ## Calling the work off -/

/-- Lower a unit, and call the work off before the item with a number. If there is no such item, the
unit is lowered to its end. -/
def unitUntil (withLibrary : Bool) (k : Nat) (u : CompUnit) : Lower Unit := do
  if withLibrary then declareLibrary library
  items false (u.items.take k)
  items true (u.items.drop k)
  setProgram (← lift (← get).program.closeBlocks)

theorem unitUntil_zero (withLibrary : Bool) (u : CompUnit) :
    unitUntil withLibrary 0 u = unit withLibrary true u := rfl

theorem unitUntil_length (withLibrary : Bool) (u : CompUnit) :
    unitUntil withLibrary u.items.length u = unit withLibrary false u := by
  unfold unitUntil unit
  rw [List.take_length, List.drop_length]
  rfl

/-- From the empty state on, whether this succeeds or fails, all scopes are closed again, no loop is
open, and no assertion fails. -/
structure Unwinds (m : Lower Unit) : Prop where
  depth : (after m {}).symbols.depth = 0
  balance : (after m {}).symbols.pushes = (after m {}).symbols.pops
  loops : (after m {}).frame.loops = []
  asserts : ∀ text σ, m {} ≠ .error (.fault (some text)) σ

theorem unitUntil_crosses (withLibrary : Bool) (k : Nat) (u : CompUnit) :
    Keeps Crosses (unitUntil withLibrary k u) := by
  have rest : Keeps Crosses (do
      items false (u.items.take k)
      items true (u.items.drop k)
      setProgram (← lift (← get).program.closeBlocks)) :=
    bind_keeps (items_crosses false _) fun _ => bind_keeps (items_crosses true _) fun _ =>
      closeBlocks_passes.crosses
  exact ite_keeps (fun _ => bind_keeps (declareLibrary_passes _).crosses fun _ => rest) fun _ => rest

theorem unitUntil_unwinds {u : CompUnit} (whole : u.Whole) (withLibrary : Bool) (k : Nat) :
    Unwinds (unitUntil withLibrary k u) := by
  have passes := (unitUntil_crosses withLibrary k u {}).passes rfl
  refine ⟨passes.depth, ?_, passes.loops, fun text σ failed => ?_⟩
  · have balance := passes.balance
    simpa using balance
  · have safe : Safe (unitUntil withLibrary k u) {} fun _ _ => True := by
      have rest : ∀ {σ}, Top (fun _ => ∅) σ → Safe (do
          items false (u.items.take k)
          items true (u.items.drop k)
          setProgram (← lift (← get).program.closeBlocks)) σ fun _ _ => True := by
        intro σ top
        refine (items_safe (fun i mem => whole i (List.mem_of_mem_take mem)) top).bind ?_
        rintro _ σ₁ ⟨avail₁, top₁, -⟩
        refine (items_safe (fun i mem => whole i (List.mem_of_mem_drop mem)) top₁).bind ?_
        rintro _ σ₂ ⟨avail₂, top₂, -⟩
        exact (closeBlocks_safe top₂).mono fun _ _ _ => trivial
      cases withLibrary with
      | false => exact rest .empty
      | true => exact (library_safe true).bind fun _ _ top => rest top
    cases (safe.error failed).1

end Lower

/-! ## Sources -/

section Source

variable {file : Source.File} {stop : Bool} {u : CompUnit}

/-- Wherever lowering a source ends, scopes and loops were left as they were entered; and a jump out
of a loop goes to the innermost loop around it in its function, if there is one. -/
theorem stacks_restored (parsed : (Parsed.ofLexed (.ofFile file) stop).result = .ok u)
    (withLibrary : Bool) :
    (∀ k, Lower.Unwinds (Lower.unitUntil withLibrary k u)) ∧
      (∀ f id ret params block σ,
        (Lower.after (Lower.body f id ret params block) σ).frame.loops = []) ∧
      (∀ {part σ}, Lower.Reached withLibrary u part σ ↔ ∃ ts, Lower.Within withLibrary u part σ ts) ∧
      (∀ {span cond body σ σ'}, Lower.stmt (.while span cond body) σ = .ok () σ' →
        σ.frame.isOpen = true → ∃ condBlock bodyBlock done σ₁,
          Lower.looping σ = .ok (condBlock, bodyBlock, done) σ₁ ∧ σ₁.frame.block = condBlock ∧
            σ'.frame.block = done ∧ σ'.frame.isOpen = true) ∧
      (∀ {span σ ts}, Lower.Within withLibrary u (.stmt (.break span)) σ ts →
        Lower.Transfers span "break" (·.breakTo) (Lower.stmt (.break span)) σ ts) ∧
      ∀ {span σ ts}, Lower.Within withLibrary u (.stmt (.continue span)) σ ts →
        Lower.Transfers span "continue" (·.continueTo) (Lower.stmt (.continue span)) σ ts := by
  have whole := Parsed.whole parsed
  refine ⟨Lower.unitUntil_unwinds whole withLibrary, fun f id ret params block σ => ?_,
    ⟨Lower.Reached.within, fun ⟨_, within⟩ => within.reached⟩, Lower.loop_blocks, fun within => ?_,
    fun within => ?_⟩
  · exact (Lower.body_encloses f id ret params block σ).loops
  · obtain ⟨-, c, avail, -, inv, -⟩ := (within.reached.holds whole).inBody trivial
    exact Lower.leaveLoop_transfers inv within.loops
  · obtain ⟨-, c, avail, -, inv, -⟩ := (within.reached.holds whole).inBody trivial
    exact Lower.leaveLoop_transfers inv within.loops

/-- A source with a `break` in a loop and one after it. -/
def strayBreak : Source.File :=
  { id := 0
    path := "stray.c"
    content := Bytes.ofString "int f(int x) \x7b while (x) break; break; \x7d"
    flags := default }

/-- Its unit. -/
def strayBreakUnit : CompUnit :=
  (Parsed.ofLexed (.ofFile strayBreak) false).result.toOption.getD default

/-- The first function of a unit begins with a loop that is left at once, and a jump after it. -/
theorem Lower.Within.ofLoop {u : CompUnit} (check : (match u.items with
    | .fn _ f :: _ =>
      match f.body, opening f {} with
      | some (.block _ (.while s cond (.break inner) :: .break _ :: _)), .ok _ σ =>
        match repeating cond σ, stmt (.while s cond (.break inner)) σ with
        | .ok _ σ₁, .ok _ σ₂ => σ₁.frame.isOpen && σ₂.frame.isOpen
        | _, _ => false
      | _, _ => false
    | _ => false) = true) : ∃ inner outer t σ₁ σ₂, Within false u (.stmt (.break inner)) σ₁ [t] ∧
      Within false u (.stmt (.break outer)) σ₂ [] ∧ σ₁.frame.isOpen = true ∧
        σ₂.frame.isOpen = true := by
  split at check
  · rename_i span f is items
    split at check
    · rename_i isBody opened
      split at check
      · rename_i ran left
        have start : Within false u (.items u.items) {} [] := .start rfl
        rw [items] at start
        have body := start.item (.body isBody opened)
        have stray := (body.inside trivial (.nextStmts left) nofun).inside trivial .firstStmt nofun
        obtain ⟨_, _, _, _, made, -⟩ := repeating_loops ran
        have inner := (body.inside trivial .firstStmt nofun).loopBody made ran
        simp only [Bool.and_eq_true] at check
        exact ⟨_, _, _, _, _, inner, stray, check.1, check.2⟩
      · cases check
    · cases check
  · cases check

/-- In the example the `break` in the loop leads out of the loop, the other one is refused, and all
scopes are closed. -/
theorem strayBreak_restored : (∃ inner outer t σ₁ σ₁' σ₂,
      Lower.Within false strayBreakUnit (.stmt (.break inner)) σ₁ [t] ∧
      Lower.stmt (.break inner) σ₁ = .ok () σ₁' ∧ σ₁.frame.isOpen = true ∧
      Lower.Jumps σ₁ σ₁' t.breakTo ∧
      Lower.Within false strayBreakUnit (.stmt (.break outer)) σ₂ [] ∧
      Lower.stmt (.break outer) σ₂ =
        .error (.error (.invalidControlTransfer outer "break")) σ₂) ∧
    Lower.Unwinds (Lower.unit false false strayBreakUnit) := by
  have parsed : (Parsed.ofLexed (.ofFile strayBreak) false).result = .ok strayBreakUnit :=
    eq_ok_of_isSome (by decide +kernel)
  obtain ⟨unwinds, -, -, -, breaks, -⟩ := stacks_restored parsed false
  obtain ⟨inner, outer, t, σ₁, σ₂, inLoop, stray, isOpen, -⟩ :=
    Lower.Within.ofLoop (u := strayBreakUnit) (by decide +kernel)
  obtain ⟨σ₁', ran, jumps⟩ := breaks inLoop
  refine ⟨⟨inner, outer, t, σ₁, σ₁', σ₂, inLoop, ran, isOpen, jumps, stray, breaks stray⟩, ?_⟩
  rw [← Lower.unitUntil_length]
  exact unwinds _

end Source

end SysY

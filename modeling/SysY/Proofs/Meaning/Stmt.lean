import SysY.Proofs.Meaning.Local

/-! # The meaning of statements

A statement ends in one of four ways, and the machine does likewise (`Ending`): it stands where
lowering goes on, or at the start of the block that `break` or `continue` leads to, or it has gone
back to the caller. A loop is followed one iteration after the other, from the start of the block of
its condition. -/

namespace SysY.Meaning

open Koopa (Val Activation Config ValueId BlockId FnId Program Avail ValueDef)
open Lower (Inv Operand PlaceOk Evo Pending)
open Source (Span)

variable {W : Type} {l : Loaded W} {k : Context W} {n m : Nat} {env env' : Env}
  {callers : List (ValueId × Activation)} {c : Lower.Site} {avail avail₀ : Avail}
  {σ σ₀ σ₁ σ' : Lower.State} {a b : Point W} {s s' : State W}

/-! ## How statements end -/

/-- The machine gets to the start of a block. -/
def Gets (l : Loaded W) (callers : List (ValueId × Activation)) (n : Nat) (a : Point W) (f : FnId)
    (target : BlockId) (s : State W) : Prop :=
  ∃ b, Goes l False callers n a.memory.length a b ∧ Starts l.program f target b.here ∧ Agrees l s b

/-- The machine goes back to the caller. -/
def Returns (l : Loaded W) (callers : List (ValueId × Activation)) (a : Point W)
    (r : Option Int32) (s : State W) : Prop :=
  ∃ b : Point W, l.program.Steps l.external (a.config callers)
      (.finish callers (r.map .int) b.memory b.world) ∧
    Later a.memory.length a.known a.memory b.known b.memory ∧ Agrees l s b

/-- What a `return` in a function with the given return type yields. -/
def yielded (ret : Ty) (value : Option Int32) : Option Int32 :=
  if ret = .void then none else some (value.getD 0)

/-- How the machine comes to the end of a statement. `Normal` says so when nothing else happens than
that the statement is executed. -/
def Ending (l : Loaded W) (c : Lower.Site) (callers : List (ValueId × Activation)) (n : Nat)
    (a : Point W) (s : State W) (Normal : Env → Prop) : Outcome → Prop
  | .normal env => Normal env
  | .break => ∃ t ts, c.loops = t :: ts ∧ Gets l callers n a c.fn t.breakTo s
  | .continue => ∃ t ts, c.loops = t :: ts ∧ Gets l callers n a c.fn t.continueTo s
  | .return v => Returns l callers a (yielded c.ret v) s

section Ending

variable {f : FnId} {target : BlockId} {r : Option Int32} {N N' : Env → Prop} {o : Outcome}

theorem Gets.after (gets : Gets l callers m b f target s)
    (goes : Goes l False callers n a.memory.length a b) (le : n ≤ m) :
    Gets l callers n a f target s := by
  obtain ⟨d, goes', starts, agrees⟩ := gets
  exact ⟨d, goes.trans (goes'.mono le goes.later.grows), starts, agrees⟩

theorem Returns.after (returns : Returns l callers b r s)
    (goes : Goes l False callers n a.memory.length a b) : Returns l callers a r s := by
  obtain ⟨d, steps, later, agrees⟩ := returns
  exact ⟨d, goes.steps.steps.trans steps, goes.later.trans (later.mono goes.later.grows), agrees⟩

/-- The machine may have moved before the statement. -/
theorem Ending.after (ending : Ending l c callers m b s N o)
    (goes : Goes l False callers n a.memory.length a b) (le : n ≤ m)
    (normal : ∀ env, N env → N' env) : Ending l c callers n a s N' o := by
  cases o with
  | normal env => exact normal env ending
  | «break» | «continue» =>
    obtain ⟨t, ts, loops, gets⟩ := ending
    exact ⟨t, ts, loops, gets.after goes le⟩
  | «return» v => exact Returns.after ending goes

theorem Ending.imp (ending : Ending l c callers n a s N o) (normal : ∀ env, N env → N' env) :
    Ending l c callers n a s N' o := ending.after (.refl ..) (Nat.le_refl _) normal

theorem Lands.agrees (lands : Lands l False callers n a.memory.length a f target b)
    (agrees : Agrees l s a) : Agrees l s b := by
  refine ⟨?_, lands.world.trans agrees.world, agrees.image.later lands.goes.later⟩
  rw [lands.known, lands.memory]
  exact agrees.holds

theorem Lands.gets (lands : Lands l False callers n a.memory.length a f target b)
    (agrees : Agrees l s a) : Gets l callers n a f target s :=
  ⟨b, lands.goes, lands.starts, lands.agrees agrees⟩

end Ending

/-- What lowering makes for a statement does what the statement does. -/
def Executes (l : Loaded W) (m : Lower Unit) (run : Env → Run W Outcome) : Prop :=
  ∀ ⦃c avail σ σ' callers env s o s' a⦄, 0 < c.depth → Inv c avail σ → σ.frame.isOpen = true →
    m σ = .ok () σ' → Covers l σ σ' → Stands l.program σ a.here → Matches l σ.symbols env s a →
    run env s = some (o, s') →
    Ending l c callers (size σ) a s' (fun env' => Continues l callers σ a σ' env' s') o

/-! ## Simple statements -/

/-- Names are seen as before when nothing was declared in between. -/
theorem Matches.goes (fits : Matches l σ.symbols env s a) (inv : Inv c avail σ)
    (keeps : Lower.Kind.stmt.Keeps σ σ') (goes : Goes l False callers n a.memory.length a b)
    (le : size σ ≤ n) (agrees : Agrees l s' b) : Matches l σ'.symbols env s' b :=
  ⟨agrees, fits.sees.goes inv goes le (keeps.1.find? (valid_of_inv inv) keeps.2)⟩

theorem decl_executes (evaluates : Evaluates l k n) {d : Decl} (whole : d.Whole) (le : m ≤ n) :
    Executes l (Lower.localDecl d) fun env => do
      return .normal (← defines k m none d.isConst env d.defs) := by
  intro c avail σ σ' callers env s o s' a depth inv isOpen lowered covers stands fits ran
  obtain ⟨env', s₁, ran₁, rest₁⟩ := bind_eq_some.mp ran
  obtain ⟨rfl, rfl⟩ := pure_eq_some.mp rest₁
  unfold Lower.localDecl at lowered
  cases type : d.type with
  | void =>
    simp only [type] at lowered
    unfold Lower.refuseVoid at lowered
    cases defs : d.defs with
    | nil =>
      simp only [defs] at lowered
      cases lowered
    | cons first rest =>
      simp only [defs] at lowered
      cases lowered
  | int =>
    simp only [type] at lowered
    exact localDefs_continues evaluates whole.defs le depth inv isOpen lowered covers stands fits ran₁

/-- The parts of an assignment. -/
theorem assign_eq_ok {target value : Expr} (whole : target.Whole) (inv : Inv c avail σ)
    (lowered : Lower.assign target value σ = .ok () σ') :
    ∃ p avail₁ σ₁ addr v σ₂ u, (do Lower.walk target (← Lower.startPlace target)) σ = .ok p σ₁ ∧
      Inv c avail₁ σ₁ ∧ Evo .expr avail σ avail₁ σ₁ ∧ p.addr = some addr ∧ p.type = .int ∧
      Operand avail₁ σ₁ addr (.pointer .i32) ∧ Lower.expr value σ₁ = .ok v σ₂ ∧
      Lower.tryEmitNew (·.store · v addr) σ₂ = .ok u σ' := by
  obtain ⟨⟨span, named⟩, σ₀, sym, σ, lowered₀, lowered₁, mutable, rest₁⟩ :=
    Lower.assign_eq_ok lowered
  obtain ⟨_, -, -, rfl, -, -, isPlace⟩ := (Lower.asPlace_runs (k := .expr) inv target _).ok lowered₀
  obtain ⟨_, -, -, rfl, -, found, -⟩ :=
    (Lower.findObject_runs (k := .expr) inv named.name named.nameSpan).ok lowered₁
  obtain ⟨p₀, σ₁, lowered₂, rest₂⟩ := bind_eq_ok.mp rest₁
  obtain ⟨p, σ₂, lowered₃, rest₃⟩ := bind_eq_ok.mp rest₂
  obtain ⟨avail₁, inv₁, evo₁, ok₀, named', isPlace', found'⟩ :=
    (Lower.startPlace_runs (k := .expr) inv target).ok lowered₂
  obtain rfl := Option.some.inj (isPlace.symm.trans isPlace')
  have sameSymbol := Option.some.inj (found.symm.trans found')
  obtain ⟨avail₂, inv₂, evo₂, ok, same⟩ := (Lower.walk_runs target whole inv₁ ok₀).ok lowered₃
  unfold Lower.storing at rest₃
  cases scalar : p.type.isScalar with
  | false =>
    simp only [scalar] at rest₃
    cases rest₃
  | true =>
    simp only [scalar, Bool.not_true, Bool.false_eq_true, if_false] at rest₃
    have int := Ty.isScalar_iff.mp scalar
    obtain ⟨v, σ₃, lowered₄, rest₄⟩ := bind_eq_ok.mp rest₃
    -- A place without an address is a constant, and those are refused.
    unfold PlaceOk at ok
    cases hasAddr : p.addr with
    | none =>
      rw [hasAddr] at ok
      obtain ⟨-, w, slot, meaning, -⟩ := ok
      rw [same, ← sameSymbol] at meaning
      exact absurd meaning (mutable w slot)
    | some addr =>
      rw [hasAddr, int] at ok
      simp only [Lower.Place.address, hasAddr, Option.getD_some, pure_bind] at rest₄
      obtain ⟨u, σ₄, lowered₅, rest₅⟩ := bind_eq_ok.mp rest₄
      cases rest₅
      exact ⟨p, avail₂, σ₂, addr, v, σ₃, u, bind_eq_ok.mpr ⟨p₀, σ₁, lowered₂, lowered₃⟩, inv₂,
        evo₁.trans evo₂ inv.laid, hasAddr, int, ok.2, lowered₄, lowered₅⟩

theorem assign_executes (evaluates : Evaluates l k n) {span : Span} {target value : Expr}
    (placeWhole : target.Whole) (valueWhole : value.Whole) (le : m ≤ n) :
    Executes l (Lower.assign target value) fun env => stmt k (m + 1) env (.assign span target value) := by
  intro c avail σ σ' callers env s o s' a depth inv isOpen lowered covers stands fits ran
  beta_reduce at ran
  rw [stmt] at ran
  obtain ⟨P, s₁, ran₁, rest₁⟩ := bind_eq_some.mp ran
  obtain ⟨r, s₂, ran₂, rest₂⟩ := bind_eq_some.mp rest₁
  obtain ⟨s₃, s₄, got, rest₃⟩ := bind_eq_some.mp rest₂
  cases got
  obtain ⟨memory, s₅, written, rest₄⟩ := bind_eq_some.mp rest₃
  obtain ⟨wrote, rfl⟩ := ofOption_eq_some.mp written
  obtain ⟨_, s₆, kept, rest₅⟩ := bind_eq_some.mp rest₄
  cases kept
  obtain ⟨rfl, rfl⟩ := pure_eq_some.mp rest₅
  obtain ⟨p, avail₁, σ₁, addr, v, σ₂, u, walked, inv₁, evo₁, hasAddr, int, addrOk, lowered₂,
    lowered₃⟩ := assign_eq_ok placeWhole inv lowered
  obtain ⟨avail₂, inv₂, evo₂, vOk⟩ := ((Lower.expr_computes value valueWhole).runs inv₁).ok lowered₂
  have addrOk₂ := addrOk.evo evo₂
  obtain ⟨_, -, evo₃, -⟩ := (Lower.store_runs (k := .expr) inv₂ vOk addrOk₂).ok lowered₃
  have grows₂ := evo₃.grows.trans covers.grows
  have isOpen₁ := evo₁.keeps.2.trans isOpen
  have isOpen₂ := evo₂.keeps.2.trans isOpen₁
  obtain ⟨b₁, goes₁, stands₁, fits₁, denotes⟩ : Reaches l False callers σ a σ₁ fun b =>
      Matches l σ.symbols env s₁ b ∧ Denotes l p b P :=
    startWalk_simulates (evaluates.walks le placeWhole) inv isOpen walked
      (evo₂.grows.trans grows₂) stands fits ran₁
  rw [← evo₁.keeps.1] at fits₁
  obtain ⟨b₂, goes₂, stands₂, fits₂, gives⟩ : Reaches l False callers σ₁ b₁ σ₂ fun b =>
      Matches l σ₁.symbols env s₂ b ∧ Gives l v r b :=
    evaluates.computed le valueWhole inv₁ isOpen₁ lowered₂ grows₂ stands₁ fits₁ ran₂
  cases denotes with
  | number noAddr =>
    rw [hasAddr] at noAddr
    cases noAddr
  | param _ isParam =>
    rw [int] at isParam
    cases isParam
  | @storage _ ds _ _ hasAddr' type address points =>
    rw [hasAddr] at hasAddr'
    cases hasAddr'
    cases ds with
    | cons => cases wrote
    | nil =>
      obtain ⟨o, rfl⟩ := points.ptr
      obtain ⟨known, M, wroteM, holds⟩ := (points.later goes₂.later).write fits₂.holds wrote
      rw [Int.add_zero] at wroteM
      obtain ⟨b₃, moves⟩ : ∃ b, Moves l False callers σ₂ b₂.memory.length b₂ σ' M b :=
        store_moves inv₂ isOpen₂ addrOk₂ lowered₃ covers.grows stands₂
          ((goes₂.operand (le_size addrOk)).trans address) gives wroteM (.inl ⟨id, known⟩)
      have since₂ := evo₁.trans evo₂ inv.laid
      have goes := (goes₁.trans (goes₂.mono (size_le evo₁) goes₁.later.grows)).trans
        (moves.goes.mono (size_le since₂) (Nat.le_trans goes₁.later.grows goes₂.later.grows))
      have agrees : Agrees l ⟨memory, s₂.world⟩ b₃ := {
        holds := by
          rw [moves.known, moves.memory]
          exact holds
        world := moves.world.trans fits₂.world
        image := fits.image.later goes.later }
      have since := since₂.trans evo₃ inv.laid
      exact ⟨since.keeps.2.trans isOpen, b₃, goes, moves.stands,
        fits.goes inv (.of_expr since.keeps) goes (Nat.le_refl _) agrees⟩

/-- An expression for its effect. -/
theorem effect_executes (evaluates : Evaluates l k n) {span : Span} {e : Expr} (whole : e.Whole)
    (le : m ≤ n) : Executes l (Lower.effect e) fun env => stmt k (m + 1) env (.expr span (some e)) := by
  intro c avail σ σ' callers env s o s' a depth inv isOpen lowered covers stands fits ran
  obtain ⟨avail', inv', evo, -⟩ := (Lower.effect_runs whole inv).ok lowered
  have done : ∀ {Q : Point W → Prop},
      Reaches l False callers σ a σ' (fun b => Matches l σ.symbols env s' b ∧ Q b) →
      Continues l callers σ a σ' env s' := by
    intro Q reaches
    refine ⟨evo.keeps.2.trans isOpen, reaches.mono fun b h => ?_⟩
    rw [evo.keeps.1]
    exact h.1
  beta_reduce at ran
  rw [stmt] at ran
  unfold Lower.effect at lowered
  have inner := Lower.stripGroups_whole whole
  have plain : (∀ span name nameSpan as, e.stripGroups ≠ .call span name nameSpan as) →
      (do let _ ← Lower.expr e : Lower Unit) σ = .ok () σ' →
      (do let _ ← expr k m env e; return .normal env : Run W Outcome) s = some (o, s') →
      Ending l c callers (size σ) a s' (fun env' => Continues l callers σ a σ' env' s') o := by
    intro _ lowered ran
    obtain ⟨r, s₁, ran₁, rest₁⟩ := bind_eq_some.mp ran
    obtain ⟨rfl, rfl⟩ := pure_eq_some.mp rest₁
    obtain ⟨v, σ₁, lowered₁, rest₁⟩ := bind_eq_ok.mp lowered
    cases rest₁
    exact done (evaluates.computed le whole inv isOpen lowered₁ covers.grows stands fits ran₁)
  cases found : e.stripGroups with
  | call cspan name nameSpan as =>
    rw [found] at ran lowered inner
    obtain ⟨r, s₁, ran₁, rest₁⟩ := bind_eq_some.mp ran
    obtain ⟨rfl, rfl⟩ := pure_eq_some.mp rest₁
    obtain ⟨v, σ₁, lowered₁, rest₁⟩ := bind_eq_ok.mp lowered
    cases rest₁
    exact done (evaluates.called le inner cspan nameSpan inv isOpen lowered₁ covers.grows stands fits
      ran₁)
  | _ =>
    rw [found] at ran lowered
    exact plain (by simp [found]) lowered ran

/-! ## Jumps -/

/-- The state after a block was ended. -/
theorem sealOff_eq_ok {x : ValueDef} {f : Program → FnId → ValueId × Program}
    (inv : Inv c avail σ) (eq : f σ.program σ.frame.fn = σ.program.inst σ.frame.fn .unit x)
    (lowered : (do Lower.sealOff (← Lower.make f)) σ = .ok () σ') : σ' = σ.sealed x 0 false := by
  rw [(bind_ok (Lower.make_eq eq)).trans (Lower.sealOff_made inv.takes x)] at lowered
  cases lowered
  rfl

theorem jump_gets {target : BlockId} (inv : Inv c avail σ) (isOpen : σ.frame.isOpen = true)
    (ok : Lower.Instr.Target avail σ target) (lowered : Lower.jump target σ = .ok () σ')
    (grows : σ'.program.Grows l.program) (stands : Stands l.program σ a.here)
    (agrees : Agrees l s a) : Gets l callers (size σ) a c.fn target s := by
  obtain rfl := sealOff_eq_ok inv rfl lowered
  have early := ((Lower.Instr.jump ok).emitted inv).2.2
  obtain ⟨d, found⟩ := inv.current
  obtain ⟨is, here⟩ := Option.isSome_iff_exists.mp (Koopa.Fn.insts?_isSome.mpr (ok.1 found))
  obtain ⟨b, lands⟩ : ∃ b, Lands l False callers (size σ) a.memory.length a σ.frame.fn target b :=
    jump_lands inv isOpen grows stands (Laid.grows ⟨d, is, found, here⟩ (early.trans grows))
  rw [← inv.site.fn]
  exact lands.gets agrees

theorem leaveLoop_executes {span : Span} {keyword : String} {target : LoopTargets → BlockId}
    {o : Outcome} (isTarget : target = (·.continueTo) ∧ o = .continue ∨
      target = (·.breakTo) ∧ o = .break) :
    Executes l (Lower.leaveLoop span keyword target) fun _ => pure o := by
  intro c avail σ σ' callers env s o' s' a depth inv isOpen lowered covers stands fits ran
  obtain ⟨rfl, rfl⟩ := pure_eq_some.mp ran
  rw [Lower.leaveLoop_eq, inv.site.loops] at lowered
  cases loops : c.loops with
  | nil =>
    rw [loops] at lowered
    cases lowered
  | cons t ts =>
    rw [loops] at lowered
    have inner : t ∈ c.loops := by simp [loops]
    have targets : Lower.Instr.Target avail σ t.continueTo ∧ Lower.Instr.Target avail σ t.breakTo :=
      ⟨⟨fun found => (inv.loops t inner (inv.site.fn ▸ found)).1,
          fun isOpen => ((inv.live isOpen).loops t inner).1⟩,
        ⟨fun found => (inv.loops t inner (inv.site.fn ▸ found)).2,
          fun isOpen => ((inv.live isOpen).loops t inner).2⟩⟩
    rcases isTarget with ⟨rfl, rfl⟩ | ⟨rfl, rfl⟩
    · exact ⟨t, ts, loops, jump_gets inv isOpen targets.1 lowered covers.grows stands fits.toAgrees⟩
    · exact ⟨t, ts, loops, jump_gets inv isOpen targets.2 lowered covers.grows stands fits.toAgrees⟩

/-- The machine goes back with the value of an operand, or with none. -/
theorem ret_returns {value : Option ValueId} {r : Option Int32} (inv : Inv c avail σ)
    (isOpen : σ.frame.isOpen = true)
    (lowered : (do Lower.sealOff (← Lower.make (·.ret · value))) σ = .ok () σ')
    (grows : σ'.program.Grows l.program) (stands : Stands l.program σ a.here)
    (agrees : Agrees l s a) (same : value.map (a.operand l) = (r.map Val.int).map some) :
    Returns l callers a r s := by
  obtain rfl := sealOff_eq_ok inv rfl lowered
  exact ⟨a, ret_finishes inv isOpen grows stands same, .refl .., agrees⟩

/-- The state before a return, and what is returned. -/
theorem ret_eq_ok {span : Span} {value : Option Expr} (inv : Inv c avail σ)
    (lowered : Lower.ret span value σ = .ok () σ') :
    ∃ v σ₁, (do Lower.sealOff (← Lower.make (·.ret · v))) σ₁ = .ok () σ' ∧
      (c.ret = .void ∧ value = none ∧ v = none ∧ σ₁ = σ ∨
        c.ret ≠ .void ∧ ∃ w, v = some w ∧
          (value = none ∧ Lower.integer 0 σ = .ok w σ₁ ∨
            ∃ e, value = some e ∧ Lower.expr e σ = .ok w σ₁)) := by
  rw [Lower.ret_eq, inv.site.ret] at lowered
  cases isVoid : c.ret == .void with
  | true =>
    cases value with
    | none =>
      rw [isVoid] at lowered
      exact ⟨none, σ, lowered, .inl ⟨eq_of_beq isVoid, rfl, rfl, rfl⟩⟩
    | some e =>
      simp only [isVoid] at lowered
      obtain ⟨_, _, -, none⟩ := bind_eq_ok.mp lowered
      cases none
  | false =>
    have notVoid : c.ret ≠ .void := ne_of_beq_false isVoid
    cases value with
    | none =>
      simp only [isVoid, map_eq_pure_bind, bind_assoc, pure_bind] at lowered
      obtain ⟨w, σ₁, lowered₁, lowered₂⟩ := bind_eq_ok.mp lowered
      exact ⟨some w, σ₁, lowered₂, .inr ⟨notVoid, w, rfl, .inl ⟨rfl, lowered₁⟩⟩⟩
    | some e =>
      simp only [isVoid, map_eq_pure_bind, bind_assoc, pure_bind] at lowered
      obtain ⟨w, σ₁, lowered₁, lowered₂⟩ := bind_eq_ok.mp lowered
      exact ⟨some w, σ₁, lowered₂, .inr ⟨notVoid, w, rfl, .inr ⟨e, rfl, lowered₁⟩⟩⟩

/-- The machine goes back with the value that was computed just before. -/
theorem ret_after {w : ValueId} {x : Int32} {v : Option Int32} (notVoid : c.ret ≠ .void)
    (isValue : v.getD 0 = x) (inv : Inv c avail σ) (isOpen : σ.frame.isOpen = true)
    (sealed : (do Lower.sealOff (← Lower.make (·.ret · (some w)))) σ = .ok () σ')
    (grows : σ'.program.Grows l.program) (stands : Stands l.program σ a.here)
    (agrees : Agrees l s a) (gives : Gives l w x a) :
    Returns l callers a (yielded c.ret v) s := by
  refine ret_returns inv isOpen sealed grows stands agrees ?_
  rw [yielded, if_neg notVoid, Option.map_some, gives, isValue]
  rfl

theorem ret_executes (evaluates : Evaluates l k n) {span : Span} {value : Option Expr}
    (whole : ∀ e ∈ value, e.Whole) (le : m ≤ n) :
    Executes l (Lower.ret span value) fun env => stmt k (m + 1) env (.return span value) := by
  intro c avail σ σ' callers env s o s' a depth inv isOpen lowered covers stands fits ran
  beta_reduce at ran
  obtain ⟨v, σ₁, sealed, ⟨void, rfl, rfl, rfl⟩ | ⟨notVoid, w, rfl, made⟩⟩ := ret_eq_ok inv lowered
  · rw [stmt] at ran
    obtain ⟨rfl, rfl⟩ := pure_eq_some.mp ran
    refine ret_returns inv isOpen sealed covers.grows stands fits.toAgrees ?_
    rw [yielded, if_pos void]
    rfl
  · have early : ∀ {avail₁}, Inv c avail₁ σ₁ → Operand avail₁ σ₁ w .i32 →
        σ₁.program.Grows l.program := by
      intro avail₁ inv₁ operand
      obtain rfl := sealOff_eq_ok inv₁ rfl sealed
      obtain ⟨d, found, ret, -⟩ := inv₁.fn
      rw [← inv₁.site.fn] at found
      rw [inv.ret.resolve_right notVoid] at ret
      exact ((Lower.Instr.retSome found (ret ▸ operand)).emitted inv₁).2.2.trans covers.grows
    rcases made with ⟨rfl, lowered₁⟩ | ⟨e, rfl, lowered₁⟩
    · rw [stmt] at ran
      obtain ⟨rfl, rfl⟩ := pure_eq_some.mp ran
      obtain ⟨avail₁, inv₁, evo₁, operand⟩ := (Lower.integer_runs (k := .expr) inv 0).ok lowered₁
      obtain ⟨stands₁, gives⟩ := integer_stays lowered₁ (early inv₁ operand) stands
      exact ret_after notVoid rfl inv₁ (evo₁.keeps.2.trans isOpen) sealed covers.grows stands₁
        fits.toAgrees gives
    · rw [stmt] at ran
      obtain ⟨x, s₁, ran₁, rest₁⟩ := bind_eq_some.mp ran
      obtain ⟨rfl, rfl⟩ := pure_eq_some.mp rest₁
      have eWhole := whole e rfl
      obtain ⟨avail₁, inv₁, evo₁, operand⟩ :=
        ((Lower.expr_computes e eWhole).runs inv).ok lowered₁
      obtain ⟨b, goes, stands₁, fits₁, gives⟩ : Reaches l False callers σ a σ₁ fun b =>
          Matches l σ.symbols env s₁ b ∧ Gives l w x b :=
        evaluates.computed le eWhole inv isOpen lowered₁ (early inv₁ operand) stands fits ran₁
      exact Returns.after (ret_after notVoid rfl inv₁ (evo₁.keeps.2.trans isOpen) sealed covers.grows
        stands₁ fits₁.toAgrees gives) goes

end SysY.Meaning

import SysY.Proofs.Meaning.Body

/-! # Functions

A call of a function from elsewhere does what its reaction does, in the memory of the unit and in
the memory of the program. A function of the unit was lowered at some moment (`Built`), and what it
calls is known for runs with less fuel, so that `Invokes` holds for every amount of fuel. -/

namespace SysY.Koopa

/-- Start a function that has a body. -/
def Program.begin? (p : Program) (f : FnId) (args : List Val) : Option Activation := do
  let d ← p.fn? f
  let (_, is) ← d.layout.head?
  return ⟨f, is, d.enter args⟩

end SysY.Koopa

namespace SysY.Meaning

open Koopa (Val Activation Config ValueId BlockId FnId Program Avail ValueDef)
open Lower (Inv Operand Evo)
open Source (Span)

variable {W : Type} {l : Loaded W} {k : Context W} {n m : Nat} {env env' : Env}
  {callers : List (ValueId × Activation)} {c : Lower.Site} {avail : Avail}
  {σ σ' : Lower.State} {a b : Point W} {s s' : State W}

/-! ## Functions from elsewhere -/

section External

variable {j : List Nat} {M : Memory Val} {as : List Arg} {xs : List Val}

theorem numbers_eq (passes : List.Forall₂ (Passes j M) as xs) :
    xs.map Val.int? = as.map Arg.number? := by
  induction passes with
  | nil => rfl
  | cons head _ ih =>
    rw [List.map_cons, List.map_cons, ih]
    cases head with
    | int v => rfl
    | array points =>
      obtain ⟨o, rfl⟩ := points.ptr
      rfl

/-- The array that an argument is. -/
theorem array_passed (passes : List.Forall₂ (Passes j M) as xs) {i : Nat} {p : Pointer}
    (found : as[i]? = some (.array p)) : ∃ o, xs[i]? = some (.ptr o p.offset) ∧
      Points j M p (.ptr o p.offset) := by
  obtain ⟨small, eq⟩ := List.getElem?_eq_some_iff.mp found
  have small' : i < xs.length := passes.length_eq ▸ small
  have head : Passes j M as[i] xs[i] := passes.get small small'
  rw [eq] at head
  cases head with
  | array points =>
    obtain ⟨o, isPtr⟩ := points.ptr
    rw [isPtr] at points
    exact ⟨o, by rw [List.getElem?_eq_getElem small', isPtr], points⟩

/-- A reaction happens in the program as in the unit. Only objects that the unit knows are
written. -/
theorem reaction_runs {r : Reaction W} {m' : Memory Int32} {w : W} {v : Int32}
    (holds : Holds j s.memory M) (passes : List.Forall₂ (Passes j M) as xs)
    (ran : r.run (readArg as) (writeArg as) s.memory = some (w, v, m')) :
    ∃ M', r.run (Koopa.readVal xs) (Koopa.writeVal xs) M = some (w, v, M') ∧ Holds j m' M' ∧
      Later M.length j M j M' := by
  refine Reaction.run_related (R := fun m M' => Holds j m M' ∧ Later M.length j M j M')
    ?_ ?_ ⟨holds, .refl ..⟩ ran
  · rintro m₁ M₁ i x v ⟨holds₁, later₁⟩ read
    unfold readArg at read
    split at read
    · rename_i p found
      obtain ⟨o, value, points⟩ := array_passed passes found
      simp [Koopa.readVal, value, Val.ptr?, (points.later later₁).read holds₁ read, Val.int?]
    · cases read
  · rintro m₁ M₁ i x v m₂ ⟨holds₁, later₁⟩ wrote
    unfold writeArg at wrote
    split at wrote
    · rename_i p found
      obtain ⟨o, value, points⟩ := array_passed passes found
      obtain ⟨known, M₂, wrote₂, holds₂⟩ := (points.later later₁).write holds₁ wrote
      refine ⟨M₂, ?_, holds₂, later₁.trans (.write wrote₂ (.inl known))⟩
      simp [Koopa.writeVal, value, Val.ptr?, wrote₂]
    · cases wrote

/-- A call of a function without a body. -/
theorem foreign_invokes {name : String} {id : FnId} {ret : Ty} {d : Koopa.Fn} {r : Option Int32}
    (found : l.program.fn? id = some d) (noBody : d.layout = []) (symbol : d.symbol = name)
    (isRet : d.ret = ret.koopa) (retOk : ret = .int ∨ ret = .void)
    (ran : callExternal l.external name ret as s = some (r, s')) (agrees : Agrees l s a)
    (passes : List.Forall₂ (Passes a.known a.memory) as xs) (v : ValueId)
    (callers : List (ValueId × Activation)) : ∃ d b,
      l.program.enter l.external id xs v a.here callers a.memory a.world = some d ∧
      l.program.Steps l.external d
        (.finish ((v, a.here) :: callers) (r.map .int) b.memory b.world) ∧
      Later a.memory.length a.known a.memory b.known b.memory ∧ Agrees l s' b := by
  unfold callExternal at ran
  obtain ⟨reaction, reacts, rest⟩ := Option.bind_eq_some_iff.mp ran
  obtain ⟨⟨w, value, m⟩, happened, rest⟩ := Option.bind_eq_some_iff.mp rest
  cases rest
  obtain ⟨M, happened', holds, later⟩ := reaction_runs agrees.holds passes happened
  refine ⟨_, ⟨a.known, M, a.here, w⟩, ?_, .refl, later, holds, rfl, agrees.image.later later⟩
  rw [← agrees.world, ← numbers_eq passes, ← symbol] at reacts
  simp only [Program.enter, found, Option.bind_eq_bind, Option.bind_some, noBody, reacts, happened']
  rcases retOk with rfl | rfl
  · simp [isRet, Ty.koopa, Config.finish]
  · simp [isRet, Ty.koopa, Config.finish]

end External

/-- A call of a function with a body. -/
theorem enter_of_begin? {p : Program} {ext : External W} {id : FnId} {xs : List Val}
    {here : Activation} (begins : p.begin? id xs = some here) (v : ValueId) (caller : Activation)
    (callers : List (ValueId × Activation)) (M : Memory Val) (w : W) :
    p.enter ext id xs v caller callers M w = some (.run here ((v, caller) :: callers) M w) := by
  unfold Program.begin? at begins
  obtain ⟨d, found, rest⟩ := Option.bind_eq_some_iff.mp begins
  obtain ⟨⟨b, is⟩, head, rest⟩ := Option.bind_eq_some_iff.mp rest
  cases rest
  obtain ⟨_, layout⟩ := List.head?_eq_some_iff.mp head
  simp [Program.enter, found, layout]

/-! ## Falling off the end -/

/-- The program `q` at the end of lowering, in which function `f` is as it is in `p`. The blocks of
`q` that are not ended were closed in the program that is run. -/
structure Closing (l : Loaded W) (p : Program) (f : FnId) : Prop where
  closed : ∃ q, p.Grows q ∧ q.fn? f = p.fn? f ∧ q.Returned l.program
  finished : l.program.Finished

/-- A block that was not ended has a return behind its last instruction. -/
theorem Closing.rest {here : Activation} (closing : Closing l σ.program c.fn) (inv : Inv c avail σ)
    (isOpen : σ.frame.isOpen = true) (stands : Stands l.program σ here) :
    ∃ d r, l.program.fn? c.fn = some d ∧ here.rest = [r] ∧ l.program.Returns c.fn d r := by
  obtain ⟨q, grows, same, returned⟩ := closing.closed
  obtain ⟨d, is, found, block, plain, -⟩ := (inv.live isOpen).block
  have insts : σ.insts = is := by
    rw [← inv.site.fn] at found
    exact Lower.State.insts_eq found block
  obtain ⟨e, found', rest⟩ := stands.rest
  rw [inv.site.fn] at found'
  rw [insts] at rest
  obtain ⟨e', found'', -, blocks⟩ := returned.fns (same.trans found)
  obtain rfl := Option.some.inj (found'.symm.trans found'')
  rcases blocks block with unchanged | ⟨-, r, closed, returns⟩
  · -- The last instruction would be a terminator.
    obtain ⟨e', is', v, found₂, block₂, term⟩ :=
      closing.finished found' (Koopa.Fn.mem_blocks_of_insts? unchanged)
    obtain rfl := Option.some.inj (found'.symm.trans found₂)
    obtain rfl := Option.some.inj (unchanged.symm.trans block₂)
    have mem : v ∈ is' ++ [v] := by simp
    obtain ⟨t, x, has, -⟩ := (inv.program.fns found).placed block mem
    exact absurd ((Program.isTerm_grows (grows.trans returned.grows) has).mp term) (plain v mem)
  · have eq := Option.some.inj (rest.symm.trans closed)
    exact ⟨e, r, found', List.append_cancel_left eq, returns⟩

theorem fallsOff_returns (closing : Closing l σ.program c.fn) (inv : Inv c avail σ)
    (isOpen : σ.frame.isOpen = true) (grows : σ.program.Grows l.program)
    (stands : Stands l.program σ a.here) (agrees : Agrees l s a) :
    Returns l callers a (yielded c.ret none) s := by
  obtain ⟨d, r, found, rest, returns⟩ := closing.rest inv isOpen stands
  obtain ⟨d₀, found₀, isRet, -⟩ := inv.fn
  obtain ⟨d', found', later⟩ := grows.fns found₀
  obtain rfl := Option.some.inj (found.symm.trans found')
  have ret : d.ret = c.ret.koopa := later.ret.trans isRet
  have before : a.config callers =
      .run ⟨a.here.fn, [r], a.here.regs⟩ callers a.memory a.world := by
    rw [← rest]
    rfl
  refine ⟨a, .single ?_, .refl .., agrees⟩
  rcases returns with ⟨unit, has⟩ | ⟨int, z, has, zero⟩
  · obtain void : c.ret = .void := by
      rcases inv.ret with int | void
      · rw [unit, int] at ret
        cases ret
      · exact void
    obtain ⟨name, step⟩ := step_eq l.external has
    rw [before, step, yielded, if_pos void]
    rfl
  · have notVoid : c.ret ≠ .void := by
      intro void
      rw [int, void] at ret
      cases ret
    obtain ⟨name, step⟩ := step_eq l.external has
    rw [before, step, yielded, if_neg notVoid]
    simp [Program.exec, operand_integer zero]

/-! ## Functions of the unit -/

/-- The parts of the body of a function. -/
theorem fnBody_eq_ok {f : Fn} {params : List Ty} {d : Koopa.Fn} {span : Span} {ss : List Stmt}
    (whole : Stmt.AllWhole ss) (paramsOk : Lower.ParamTys params) (inv : Inv c avail σ)
    (found : σ.program.fn? c.fn = some d) (paramTys : d.paramTys = params.map Ty.koopa)
    (lowered : Lower.fnBody f c.fn params (.block span ss) σ = .ok () σ') :
    ∃ avail₁ σ₁ σ₂, Lower.spillParams f.params params d.params (σ.pushed .function) = .ok () σ₁ ∧
      Lower.stmts ss σ₁ = .ok () σ₂ ∧ σ' = σ₂.popped ∧ Inv c.inScope avail₁ σ₁ ∧
      Evo .item avail (σ.pushed .function) avail₁ σ₁ := by
  have depth : 0 < c.inScope.depth := Nat.succ_pos _
  have fn : (Lower.lift ((σ.pushed .function).program.fn c.fn) : Lower Koopa.Fn)
      (σ.pushed .function) = .ok d (σ.pushed .function) := by
    change (Lower.lift (σ.program.fn c.fn) : Lower Koopa.Fn) (σ.pushed .function) = _
    rw [Program.fn_eq_ok.mpr found]
    rfl
  have spills : Lower.Runs .item c.inScope avail (σ.pushed .function)
      (Lower.spillParams f.params params d.params) fun _ _ _ => True :=
    Lower.spillParams_runs depth paramsOk (inv.pushed .function)
      (Lower.params_of_fnOk (inv.program.fns found) paramTys)
  have runs : Lower.Runs .item c.inScope avail (σ.pushed .function) (do
      Lower.spillParams f.params params (← Lower.lift ((← get).program.fn c.fn)).params
      Lower.stmts ss) fun _ _ _ => True := by
    refine Lower.Ends.of_eq (bind_ok (a := σ.pushed .function) rfl)
      (.of_eq (bind_ok fn) ?_)
    exact Lower.Runs.bind (inv.pushed _) spills fun _ _ _ inv₁ _ _ =>
      (Lower.stmts_acts ss whole depth).runs inv₁
  obtain ⟨σ₂, inner, rfl⟩ := inScope_eq_ok inv runs lowered
  have rest := (bind_ok fn).symm.trans inner
  obtain ⟨_, σ₁, lowered₁, lowered₂⟩ := bind_eq_ok.mp rest
  obtain ⟨avail₁, inv₁, evo₁, -⟩ := spills.ok lowered₁
  exact ⟨avail₁, σ₁, σ₂, lowered₁, lowered₂, rfl, inv₁, evo₁⟩

/-- The body of a function was lowered from `σ` on, where its name was bound. -/
structure Bodied (f : Fn) (id : FnId) (params : List Ty) (ret : Ty) (avail : Avail)
    (σ σ' : Lower.State) (d : Koopa.Fn) (span : Span) (ss : List Stmt) : Prop where
  top : Lower.Top avail σ
  fn : σ.program.fn? id = some d
  name : d.name = "@" ++ f.name
  empty : d.layout = []
  isRet : d.ret = ret.koopa
  retOk : ret = .int ∨ ret = .void
  paramTys : d.paramTys = params.map Ty.koopa
  paramsOk : Lower.ParamTys params
  body : f.body = some (.block span ss)
  whole : Stmt.AllWhole ss
  lowered : Lower.fnBody f id params (.block span ss) (σ.entered id ret f.nameSpan d) = .ok () σ'

/-- A function of the unit. Its body sees the global names that were bound at `σ`. -/
structure Built (l : Loaded W) (k : Context W) (f : Fn) (id : FnId) (params : List Ty) (ret : Ty)
    (avail : Avail) (σ σ' : Lower.State) (d : Koopa.Fn) (span : Span) (ss : List Stmt) : Prop
    extends Bodied f id params ret avail σ σ' d span ss where
  covers : Covers l σ σ'
  closing : Closing l σ'.program id
  sees : ∀ {j M} regs, Image l j M → Sees l j M regs σ.symbols k.globals

theorem lookup_zip {α β : Type} [BEq α] [LawfulBEq α] {as : List α} {bs : List β} {i : Nat} {a : α}
    {b : β} (distinct : as.Nodup) (here : as[i]? = some a) (there : bs[i]? = some b) :
    (as.zip bs).lookup a = some b := by
  induction as generalizing bs i with
  | nil => cases here
  | cons a' as ih =>
    cases bs with
    | nil => cases there
    | cons b' bs =>
      rw [List.zip_cons_cons, List.lookup_cons]
      cases i with
      | zero =>
        cases here
        cases there
        rw [beq_self_eq_true]
      | succ i =>
        have other : a ≠ a' := by
          rintro rfl
          exact (List.nodup_cons.mp distinct).1 (List.mem_of_getElem? here)
        rw [beq_eq_false_iff_ne.mpr other]
        exact ih (List.nodup_cons.mp distinct).2 here there

/-- No value is a parameter twice. -/
theorem params_nodup {p : Program} {f : FnId} {d : Koopa.Fn} (ok : p.FnOk avail f d) :
    d.params.Nodup := by
  refine List.nodup_iff_getElem?_ne_getElem?.mpr fun i i' less small same => ?_
  have known : ∀ {i}, i < d.params.length → ∃ v t, d.params[i]? = some v ∧
      p.Has v (some f) t (.arg i) := by
    intro i small
    have small' : i < d.paramTys.length := ok.arity ▸ small
    exact ⟨_, _, List.getElem?_eq_getElem small,
      ok.params (List.getElem?_eq_getElem small) (List.getElem?_eq_getElem small')⟩
  obtain ⟨v, t, here, has⟩ := known (Nat.lt_trans less small)
  obtain ⟨v', t', here', has'⟩ := known small
  rw [here, here'] at same
  cases same
  obtain ⟨-, -, eq⟩ := has.unique has'
  cases eq
  exact Nat.lt_irrefl _ less

theorem bindParams_length {ps : List Param} {ts : List Ty} {as : List Arg}
    (ran : bindParams ps ts as env s = some (env', s')) : ts.length = as.length := by
  induction ts generalizing ps as env s with
  | nil =>
    obtain ⟨-, rfl, -, -⟩ := bindParams_nil ran
    rfl
  | cons t ts ih =>
    obtain ⟨_, _, _, _, _, _, -, rfl, -, rest⟩ := bindParams_cons ran
    rw [List.length_cons, List.length_cons, ih rest]

/-- What a body yields that ends in some way. -/
theorem Ending.returns {ret : Ty} {o : Outcome} {r : Option Int32} {N : Env → Prop}
    (ending : Ending l c callers n a s N o) (isRet : c.ret = ret) (result : o.result ret = some r)
    (normal : ∀ env, N env → Returns l callers a (yielded c.ret none) s) :
    Returns l callers a r s := by
  subst isRet
  cases o with
  | normal env =>
    cases result
    exact normal env ending
  | «return» v =>
    cases result
    exact ending
  | «break» | «continue» => cases result

/-- At the start of a function, its parameters are what was passed. -/
theorem params_handed {p : Program} {f : FnId} {d : Koopa.Fn} {as : List Arg} {xs : List Val}
    (ok : p.FnOk avail f d) (grows : p.Grows l.program)
    (length : d.params.length = xs.length) (passes : List.Forall₂ (Passes a.known a.memory) as xs)
    (regs : a.here.regs = d.enter xs) :
    List.Forall₂ (fun v arg => Hands l v arg a) d.params as := by
  refine List.forall₂_iff_get.mpr ⟨length.trans passes.length_eq.symm, fun i hi hi' => ?_⟩
  have small : i < xs.length := length ▸ hi
  have small' : i < d.paramTys.length := ok.arity ▸ hi
  have has := grows.values
    (ok.params (List.getElem?_eq_getElem hi) (List.getElem?_eq_getElem small'))
  refine ⟨xs[i], ?_, passes.get hi' small⟩
  have value : d.enter xs d.params[i] = some xs[i] := lookup_zip (params_nodup ok)
    (List.getElem?_eq_getElem hi) (List.getElem?_eq_getElem small)
  obtain ⟨name, found⟩ := has
  change l.program.operand a.here.regs d.params[i] = some xs[i]
  unfold Program.operand Program.defn?
  rw [regs, found]
  exact value

section Built

variable {f : Fn} {id : FnId} {params : List Ty} {ret : Ty} {d : Koopa.Fn} {span : Span}
  {ss : List Stmt}

/-- The invariant at the start of the body. -/
theorem Bodied.inv (built : Bodied f id params ret avail σ σ' d span ss) :
    Inv ⟨id, ret, [], 0⟩ (Lower.enter σ avail) (σ.entered id ret f.nameSpan d) :=
  built.top.entered built.fn built.empty built.isRet built.retOk f.nameSpan

theorem Bodied.entered (built : Bodied f id params ret avail σ σ' d span ss) :
    (σ.entered id ret f.nameSpan d).program.fn? id =
      some (d.extend (σ.program.blocks.size + 1)) :=
  Program.fn?_withBlock_self built.fn _

/-- Nothing is in the first block at the start of the body. -/
theorem Bodied.insts (built : Bodied f id params ret avail σ σ' d span ss) :
    (σ.entered id ret f.nameSpan d).insts = [] := by
  refine Lower.State.insts_eq built.entered ?_
  exact Koopa.Fn.insts?_extend_self d (built.top.program.fns built.fn).fresh_block

theorem Bodied.evo (built : Bodied f id params ret avail σ σ' d span ss) :
    ∃ avail', Inv ⟨id, ret, [], 0⟩ avail' σ' ∧
      Evo .stmt (Lower.enter σ avail) (σ.entered id ret f.nameSpan d) avail' σ' := by
  obtain ⟨avail', inv, evo, -⟩ := (Lower.fnBody_runs (f := f) span built.whole built.paramsOk
    built.inv built.entered rfl built.paramTys).ok built.lowered
  exact ⟨avail', inv, evo⟩

/-- The first block of a function that was lowered. -/
theorem Built.entry (built : Built l k f id params ret avail σ σ' d span ss) :
    ∃ e is rest, l.program.fn? id = some e ∧ e.layout = (σ.program.blocks.size + 1, is) :: rest ∧
      e.params = d.params ∧ e.name = "@" ++ f.name := by
  obtain ⟨_, -, evo⟩ := built.evo
  obtain ⟨e, found, later⟩ := (evo.grows.trans built.covers.grows).fns built.entered
  have blocks := later.blocks
  rw [Koopa.Fn.blocks_extend, Koopa.Fn.blocks, built.empty] at blocks
  cases layout : e.layout with
  | nil =>
    rw [Koopa.Fn.blocks, layout] at blocks
    cases List.prefix_nil.mp blocks
  | cons first rest =>
    rw [Koopa.Fn.blocks, layout] at blocks
    obtain ⟨same, -⟩ := List.cons_prefix_cons.mp blocks
    exact ⟨e, first.2, rest, found, by rw [layout, same], later.params, later.name.trans built.name⟩

/-- A function of the unit does in the program what its body does in the unit. -/
theorem Built.returns (built : Built l k f id params ret avail σ σ' d span ss)
    (evaluates : Evaluates l k n) {as : List Arg} {xs : List Val} {r : Option Int32}
    (ran : (do
      let env ← bindParams f.params params as k.globals
      ofOption ((← stmts k n env ss).result ret) : Run W (Option Int32)) s = some (r, s'))
    (agrees : Agrees l s a) (passes : List.Forall₂ (Passes a.known a.memory) as xs) :
    ∃ here, l.program.begin? id xs = some here ∧
      ∀ callers, Returns l callers ⟨a.known, a.memory, here, a.world⟩ r s' := by
  obtain ⟨env, s₁, bound, rest⟩ := bind_eq_some.mp ran
  obtain ⟨o, s₂, executed, rest⟩ := bind_eq_some.mp rest
  obtain ⟨result, rfl⟩ := ofOption_eq_some.mp rest
  obtain ⟨e, is, more, found, layout, sameParams, -⟩ := built.entry
  refine ⟨⟨id, is, e.enter xs⟩, by simp [Program.begin?, found, layout], fun callers => ?_⟩
  have inv := built.inv
  have depth : 0 < (⟨id, ret, [], 0⟩ : Lower.Site).inScope.depth := Nat.succ_pos _
  obtain ⟨avail₁, σ₁, σ₂, spilled, lowered, rfl, inv₁, evo₁⟩ :=
    fnBody_eq_ok built.whole built.paramsOk inv built.entered built.paramTys built.lowered
  obtain ⟨avail₂, inv₂, evo₂, -⟩ :=
    ((Lower.stmts_acts ss built.whole depth).runs inv₁).ok lowered
  have grows₂ : σ₂.program.Grows l.program := built.covers.grows
  have grows₁ := evo₂.grows.trans grows₂
  have covers : Covers l (σ.entered id ret f.nameSpan d) σ₂ := ⟨grows₂, built.covers.apart⟩
  -- The machine at the start of the function.
  let start : Point W := ⟨a.known, a.memory, ⟨id, is, e.enter xs⟩, a.world⟩
  have starts : Starts l.program id (σ.program.blocks.size + 1) start.here :=
    ⟨rfl, e, found, by simp [Koopa.Fn.insts?, layout, start]⟩
  have stands : Stands l.program (σ.entered id ret f.nameSpan d) start.here :=
    starts.stands rfl rfl built.insts
  have fits : Matches l (σ.entered id ret f.nameSpan d).symbols k.globals s start :=
    ⟨agrees.at _, built.sees _ agrees.image⟩
  have hands : List.Forall₂ (fun v arg => Hands l v arg start)
      (d.extend (σ.program.blocks.size + 1)).params as := by
    refine params_handed (inv.program.fns built.entered) (evo₁.grows.trans grows₁) ?_ passes ?_
    · calc d.params.length = (params.map Ty.koopa).length := by
            rw [← built.paramTys]
            exact (built.top.program.fns built.fn).arity
        _ = as.length := by rw [List.length_map, bindParams_length bound]
        _ = xs.length := passes.length_eq
    · change e.enter xs = d.enter xs
      unfold Koopa.Fn.enter
      rw [sameParams]
  obtain ⟨isOpen₁, b₁, goes₁, stands₁, fits₁⟩ : Continues l callers
      ((σ.entered id ret f.nameSpan d).pushed .function) start σ₁ env s₁ :=
    spillParams_continues depth built.paramsOk (inv.pushed .function) rfl
      (Lower.params_of_fnOk (inv.program.fns built.entered) built.paramTys) spilled grows₁
      (stands.congr ⟨rfl, rfl⟩ rfl) (fits.pushed .function) hands bound
  have more : size ((σ.entered id ret f.nameSpan d).pushed .function) ≤ size σ₁ := size_le evo₁
  have ending : Ending l _ callers (size σ₁) b₁ s₂
      (fun env' => Continues l callers σ₁ b₁ σ₂ env' s₂) o :=
    stmts_executes evaluates ss built.whole n (Nat.le_refl n) depth inv₁ isOpen₁ lowered
      (covers.sub more (.refl _)) stands₁ fits₁ executed
  have fallsOff : ∀ env', Continues l callers σ₁ b₁ σ₂ env' s₂ →
      Returns l callers b₁ (yielded ret none) s₂ := by
    rintro env' ⟨isOpen₂, b₂, goes₂, stands₂, fits₂⟩
    exact (fallsOff_returns built.closing inv₂ isOpen₂ grows₂ stands₂ fits₂.toAgrees).after goes₂
  exact (ending.returns rfl result fallsOff).after goes₁

end Built

/-! ## Every call -/

/-- What is known of the functions of a unit once all of it is lowered. -/
structure Prepared (l : Loaded W) (k : Context W) : Prop where
  external : l.external = k.external
  foreign : ∀ {name id params ret}, l.Has name id params ret →
    k.fns.find? (·.name == name) = none → (ret = .int ∨ ret = .void) ∧ ∃ d,
      l.program.fn? id = some d ∧ d.layout = [] ∧ d.symbol = name ∧ d.ret = ret.koopa
  own : ∀ {name id params ret f}, l.Has name id params ret →
    k.fns.find? (·.name == name) = some f →
    ∃ avail σ σ' d span ss, Built l k f id params ret avail σ σ' d span ss

/-- Functions do in the program what they do in the unit, with any amount of fuel. -/
theorem Prepared.invokes (prepared : Prepared l k) (n : Nat) : Invokes l k n := by
  induction n using Nat.strongRecOn with
  | ind n ih =>
    intro name id params ret as s r s' xs a has ran agrees passes v callers
    cases n with
    | zero => cases ran
    | succ n =>
      rw [invoke] at ran
      cases isOwn : k.fns.find? (·.name == name) with
      | none =>
        rw [isOwn, ← prepared.external] at ran
        obtain ⟨retOk, d, found, noBody, symbol, isRet⟩ := prepared.foreign has isOwn
        exact foreign_invokes found noBody symbol isRet retOk ran agrees passes v callers
      | some f =>
        obtain ⟨avail, σ, σ', d, span, ss, built⟩ := prepared.own has isOwn
        rw [isOwn] at ran
        simp only [built.body] at ran
        have evaluates : Evaluates l k n :=
          evaluates_of_invokes fun m less => ih m (Nat.lt_succ_of_lt less)
        obtain ⟨here, begins, returns⟩ := built.returns evaluates ran agrees passes
        obtain ⟨b, steps, later, agrees'⟩ := returns ((v, a.here) :: callers)
        exact ⟨_, b, enter_of_begin? begins .., steps, later, agrees'⟩

/-- A call from outside of a function that has a body. -/
theorem Prepared.returns (prepared : Prepared l k) {name : String} {id : FnId} {params : List Ty}
    {ret : Ty} {f : Fn} (has : l.Has name id params ret)
    (isOwn : k.fns.find? (·.name == name) = some f) {as : List Arg} {xs : List Val}
    {r : Option Int32} (ran : invoke k n name params ret as s = some (r, s'))
    (agrees : Agrees l s a) (passes : List.Forall₂ (Passes a.known a.memory) as xs) :
    ∃ here, l.program.begin? id xs = some here ∧
      Returns l [] ⟨a.known, a.memory, here, a.world⟩ r s' := by
  cases n with
  | zero => cases ran
  | succ n =>
    obtain ⟨avail, σ, σ', d, span, ss, built⟩ := prepared.own has isOwn
    rw [invoke, isOwn] at ran
    simp only [built.body] at ran
    have evaluates : Evaluates l k n := evaluates_of_invokes fun m _ => prepared.invokes m
    obtain ⟨here, begins, returns⟩ := built.returns evaluates ran agrees passes
    exact ⟨here, begins, returns []⟩

end SysY.Meaning

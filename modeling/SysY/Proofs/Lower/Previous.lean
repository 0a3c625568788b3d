import SysY.Diag.Diagnostic
import SysY.Proofs.Lower.Sends
import SysY.Proofs.Symbol.Scopes
import SysY.Proofs.Syntax.Declared

/-! # Where a name was defined before

A redefinition points to an earlier definition of the same name. The table of symbols records of
every symbol where its name was declared, and symbols are bound in the order in which their names
stand in the source. The symbols of the runtime library come ahead of all, and stand nowhere. -/

namespace SysY

open Source (Span)

namespace SymbolTable

/-! ## What a table records -/

/-- The symbols of a table were declared under some names at some places, and the names of its
scopes stand for symbols of these names. -/
structure Records (known : List (String × Span)) (t : SymbolTable) : Prop where
  listed : ∀ {id s}, t.get? id = some s → (s.name, s.span) ∈ known
  locals : ∀ {sc n id}, sc ∈ t.locals → (n, id) ∈ sc.names → ∃ s, t.get? id = some s ∧ s.name = n
  global : ∀ {n id}, (n, id) ∈ t.global.names → ∃ s, t.get? id = some s ∧ s.name = n

theorem records_empty (known : List (String × Span)) : Records known {} where
  listed := fun {id _} found => by simp [get?] at found
  locals := nofun
  global := nofun

variable {known known' : List (String × Span)} {t t' : SymbolTable} {s old : Symbol}

theorem Records.mono (h : t.Records known) (more : known ⊆ known') : t.Records known' :=
  ⟨fun found => more (h.listed found), h.locals, h.global⟩

theorem Records.push (h : t.Records known) (kind : ScopeKind) : (t.push kind).Records known where
  listed := h.listed
  locals := fun mem here => by
    rcases List.mem_cons.mp mem with rfl | mem
    · cases here
    · exact h.locals mem here
  global := h.global

theorem Records.leave {depth : Nat} (h : t.Records known) (left : t.leave depth = .ok t') :
    t'.Records known := by
  unfold SymbolTable.leave SymbolTable.pop at left
  split at left
  · split at left
    · cases left
    · rename_i scopes
      cases left
      exact ⟨h.listed, fun mem => h.locals (scopes ▸ List.mem_cons_of_mem _ mem), h.global⟩
  · cases left

/-- A symbol that a name of a scope stands for was declared under this name. -/
theorem Records.named {id : Nat} {n : String} (h : t.Records known) (found : t.get? id = some old)
    (bound : ∃ s, t.get? id = some s ∧ s.name = n) : (n, old.span) ∈ known := by
  obtain ⟨s, here, rfl⟩ := bound
  cases here.symm.trans found
  exact h.listed found

theorem Records.findGlobal? {n : String} (h : t.Records known)
    (found : t.findGlobal? n = some old) : (n, old.span) ∈ known := by
  obtain ⟨id, here, found⟩ := findGlobal?_eq_some found
  exact h.named found (h.global here)

/-- A table with one more symbol, whose name may have been bound in one of the scopes. -/
theorem Records.bind (h : t.Records known) (s : Symbol)
    (symbols : ∀ id, t'.get? id = if id = t.symbols.size + 1 then some s else t.get? id)
    (locals : ∀ sc ∈ t'.locals, sc ∈ t.locals ∨
      ∃ inner ∈ t.locals, sc = inner.bind s.name (t.symbols.size + 1))
    (global : t'.global = t.global ∨ t'.global = t.global.bind s.name (t.symbols.size + 1)) :
    t'.Records (known ++ [(s.name, s.span)]) := by
  have fresh : t'.get? (t.symbols.size + 1) = some s := (symbols _).trans (if_pos rfl)
  have kept {id : Nat} {s' : Symbol} (found : t.get? id = some s') : t'.get? id = some s' := by
    have := get?_le_size found
    rw [symbols, if_neg (by omega)]
    exact found
  have bound {sc : Scope} (old : ∀ {n id}, (n, id) ∈ sc.names →
        ∃ s', t.get? id = some s' ∧ s'.name = n) {n : String} {id : Nat}
      (here : (n, id) ∈ (sc.bind s.name (t.symbols.size + 1)).names) :
      ∃ s', t'.get? id = some s' ∧ s'.name = n := by
    rcases Scope.mem_bind.mp here with ⟨rfl, rfl⟩ | ⟨-, before⟩
    · exact ⟨s, fresh, rfl⟩
    · obtain ⟨s', found, name⟩ := old before
      exact ⟨s', kept found, name⟩
  refine ⟨fun {id s'} found => ?_, fun {sc n id} mem here => ?_, fun {n id} here => ?_⟩
  · rw [symbols] at found
    split at found
    · cases found
      simp
    · exact List.mem_append_left _ (h.listed found)
  · rcases locals sc mem with mem | ⟨inner, isInner, rfl⟩
    · obtain ⟨s', found, name⟩ := h.locals mem here
      exact ⟨s', kept found, name⟩
    · exact bound (h.locals isInner) here
  · rcases global with same | same
    · obtain ⟨s', found, name⟩ := h.global (same ▸ here)
      exact ⟨s', kept found, name⟩
    · exact bound h.global (same ▸ here)

theorem Records.bindGlobal (h : t.Records known) (s : Symbol) :
    (t.bindGlobal s).Records (known ++ [(s.name, s.span)]) :=
  h.bind s (get?_bindGlobal t s) (fun _ mem => .inl mem) (.inr rfl)

/-- What an attempt to bind a symbol leaves: a table that also records the symbol, and what stood
in its way was declared under its name. -/
structure Attempt.Explained (known : List (String × Span)) (s : Symbol)
    (r : Attempt × SymbolTable) : Prop where
  table : r.2.Records (known ++ [(s.name, s.span)])
  existing : ∀ {old}, r.1.existing = some old → (s.name, old.span) ∈ known

theorem Attempt.Explained.refused {accepted : Bool} (h : t.Records known)
    (before : (s.name, old.span) ∈ known) :
    Attempt.Explained known s (⟨accepted, some old⟩, t) where
  table := h.mono (List.subset_append_left _ _)
  existing := fun same => by
    cases same
    exact before

theorem Attempt.Explained.bound (table : t.Records (known ++ [(s.name, s.span)])) :
    Attempt.Explained known s (⟨true, none⟩, t) := ⟨table, nofun⟩

theorem Records.insert (h : t.Records known) (s : Symbol) :
    Attempt.Explained known s (t.insert s) := by
  have taken {id : Nat} (bound : ∃ s', t.get? id = some s' ∧ s'.name = s.name) :
      Attempt.Explained known s (⟨false, t.get? id⟩, t) := by
    obtain ⟨old, found, name⟩ := bound
    rw [found]
    exact .refused h (h.named found ⟨old, found, name⟩)
  cases scopes : t.locals with
  | nil =>
    unfold SymbolTable.insert
    rw [scopes]
    dsimp only
    split
    · rename_i id here
      exact taken (h.global (Scope.mem_of_find? here))
    · exact .bound (h.bindGlobal s)
  | cons inner outer =>
    have mem : inner ∈ t.locals := scopes ▸ List.mem_cons_self
    cases here : inner.find? s.name with
    | some id =>
      rw [insert_taken scopes here]
      exact taken (h.locals mem (Scope.mem_of_find? here))
    | none =>
      rw [insert_fresh scopes here]
      refine .bound (h.bind s (get?_push t s _ _) (fun sc here => ?_) (.inl rfl))
      rcases List.mem_cons.mp here with rfl | here
      · exact .inr ⟨inner, mem, rfl⟩
      · exact .inl (scopes ▸ List.mem_cons_of_mem _ here)

theorem Records.define (h : t.Records known) (s : Symbol) :
    Attempt.Explained known s (t.define s) := by
  unfold SymbolTable.define
  split
  · exact .bound (h.bindGlobal s)
  · split
    · exact .bound (h.bindGlobal s)
    · exact .refused h (h.findGlobal? ‹_›)

theorem Records.declare (h : t.Records known) (s : Symbol) :
    Attempt.Explained known s (t.declare s) := by
  unfold SymbolTable.declare
  split
  · exact .bound (h.bindGlobal s)
  · exact .refused h (h.findGlobal? ‹_›)

end SymbolTable

/-! ## Redefinitions -/

section Explained

variable {known ns ms : List (String × Span)} {f : Failure}

/-- A failure points to an earlier definition only when it is about a later one: `known` are the
names that were declared before, and `ns` those that are declared now. -/
def Failure.Explained (known ns : List (String × Span)) (f : Failure) : Prop :=
  ∀ e prev, f = .error e → e.previous = some prev → e.code = .redefinition ∧
    ∃ before after, ns = before ++ (e.name, e.span) :: after ∧ (e.name, prev) ∈ known ++ before

theorem Failure.Explained.first (h : f.Explained known ns) : f.Explained known (ns ++ ms) := by
  intro e prev same previous
  obtain ⟨code, before, after, rfl, mem⟩ := h e prev same previous
  exact ⟨code, before, after ++ ms, by simp, mem⟩

theorem Failure.Explained.later (h : f.Explained (known ++ ns) ms) :
    f.Explained known (ns ++ ms) := by
  intro e prev same previous
  obtain ⟨code, before, after, rfl, mem⟩ := h e prev same previous
  exact ⟨code, ns ++ before, after, by simp, by simpa using mem⟩

/-- A redefinition of the name that is declared next. -/
theorem Failure.Explained.here {e : Diag.Error} {prev : Span} (code : e.code = .redefinition)
    (previous : e.previous = some prev) (before : (e.name, prev) ∈ known) :
    (Failure.error e).Explained known ((e.name, e.span) :: ns) := by
  rintro _ prev' ⟨⟩ previous'
  cases previous.symm.trans previous'
  exact ⟨code, [], ns, rfl, by simpa using before⟩

end Explained

namespace Lower

open SymbolTable (Records)

variable {α β : Type} {known ns ms : List (String × Span)} {m : Lower α} {g : α → Lower β}

instance : Lenient (Failure.Explained known ns) where
  alone := fun {f} alone e prev same previous => by
    subst same
    cases alone.symm.trans previous

/-- A computation that declares `ns` in turn, where the names in `known` were declared before. -/
def Tells (known ns : List (String × Span)) (m : Lower α) : Prop :=
  Sends (Records known) m (Records (known ++ ns)) (Failure.Explained known ns)

theorem tells_nil (sends : Sends (Records known) m (Records known) (Failure.Explained known [])) :
    Tells known [] m := by
  unfold Tells
  rwa [List.append_nil]

/-- Names that are not reached are not declared. -/
theorem stop_tells (known ns : List (String × Span)) : Tells known ns (pure () : Lower Unit) :=
  (pure_sends ()).mono (fun _ holds => holds.mono (List.subset_append_left _ _)) fun _ => id

theorem Tells.first (h : Tells known ns m) :
    Sends (Records known) m (Records (known ++ ns)) (Failure.Explained known (ns ++ ms)) :=
  h.mono (fun _ => id) fun _ => .first

theorem Tells.later (h : Tells (known ++ ns) ms m) : Sends (Records (known ++ ns)) m
    (Records (known ++ (ns ++ ms))) (Failure.Explained known (ns ++ ms)) :=
  h.mono (fun _ holds => List.append_assoc .. ▸ holds) fun _ => .later

theorem Tells.bind (first : Tells known ns m) (next : ∀ a, Tells (known ++ ns) ms (g a)) :
    Tells known (ns ++ ms) (m >>= g) :=
  Sends.bind first.first fun a => (next a).later

theorem forM_tells {f : α → Lower PUnit} {name : α → String × Span}
    (each : ∀ known a, Tells known [name a] (f a)) (known : List (String × Span)) (as : List α) :
    Tells known (as.map name) (as.forM f) := by
  induction as generalizing known with
  | nil => exact tells_nil (pure_sends _)
  | cons a as ih => exact (each known a).bind fun _ => ih _

/-! ## Declarations -/

/-- A symbol that is bound in the innermost scope. -/
theorem declare_tells (s : Symbol) : Tells known [(s.name, s.span)] (declare s) := by
  refine get_sends fun σ holds => ?_
  have attempt := holds.insert s
  generalize σ.symbols.insert s = r at attempt
  obtain ⟨⟨accepted, existing⟩, t⟩ := r
  cases existing with
  | none => exact set_sends attempt.table
  | some old =>
    refine ite_sends (fun _ => ?_) fun _ => set_sends attempt.table
    exact stop_sends (.here rfl rfl (attempt.existing rfl))

theorem globalDefs_tells (isConst : Bool) (known : List (String × Span)) (ds : List Def) :
    Tells known (ds.map fun d => (d.name, d.nameSpan)) (globalDefs isConst ds) := by
  induction ds generalizing known with
  | nil => exact tells_nil (pure_sends _)
  | cons d ds ih =>
    refine Sends.bind_of (globalDef_gives isConst d) (globalDef_sends isConst d) ?_
    intro s isFor
    refine get_sends fun σ holds => ?_
    have attempt := holds.define s
    generalize σ.symbols.define s = r at attempt
    obtain ⟨⟨accepted, existing⟩, t⟩ := r
    have bound : Tells known [(d.name, d.nameSpan)] (set { σ with symbols := t }) := by
      rw [← isFor.1, ← isFor.2]
      exact set_sends attempt.table
    dsimp only
    split
    · exact stop_sends (.here rfl rfl (isFor.1 ▸ attempt.existing rfl))
    · exact bound.bind fun _ => ih _

theorem globalDecl_tells (known : List (String × Span)) (d : Decl) :
    Tells known d.declared (globalDecl d) := by
  unfold globalDecl
  split
  · exact refuseVoid_sends d
  · exact globalDefs_tells d.isConst known d.defs

theorem localConstant_tells (known : List (String × Span)) (d : Def) :
    Tells known [(d.name, d.nameSpan)] (localConstant d) := by
  refine env_sends.bind fun env => (lift_sends (constantDef_plain env d).alone).bind fun r => ?_
  refine Sends.bind_of (constantSymbol_gives d r.1 r.2) (constantSymbol_sends d r.1 r.2) ?_
  intro s isFor
  rw [← isFor.1, ← isFor.2]
  exact declare_tells s

theorem localVariable_tells (known : List (String × Span)) (d : Def) :
    Tells known [(d.name, d.nameSpan)] (localVariable d) := by
  refine env_sends.bind fun env => (lift_sends (Ty.ofDef_plain env .int d).alone).bind fun ty => ?_
  refine (lift_sends (Ty.toKoopa_alone ty)).bind fun t => (emitNew_sends _).bind fun slot => ?_
  refine (setName_sends _ _).bind fun _ => ?_
  split
  · exact declare_tells _
  · exact (storeInit_sends _ _ _).bind fun _ => declare_tells _

theorem localDecl_tells (known : List (String × Span)) (d : Decl) :
    Tells known d.declared (localDecl d) := by
  unfold localDecl
  split
  · exact refuseVoid_sends d
  · refine forM_tells (fun known d => ?_) known d.defs
    split
    · exact localConstant_tells known d
    · exact localVariable_tells known d

/-! ## Statements -/

mutual

theorem stmt_tells (known : List (String × Span)) : (s : Stmt) → Tells known s.declared (stmt s)
  | .block _ ss => inScope_sends (stmts_tells known ss) (fun _ holds => holds.push .block)
      fun left holds => holds.leave left
  | .decl _ none => alone_sends rfl
  | .decl _ (some d) => localDecl_tells known d
  | .assign _ target value => tells_nil (assign_sends target value)
  | .expr _ none => tells_nil (pure_sends _)
  | .expr _ (some e) => tells_nil (effect_sends e)
  | .ifThen _ cond thenArm none => by
    rw [Stmt.declared]
    exact conditional_sends cond (stmt_tells known thenArm)
  | .ifThen _ cond thenArm (some elseArm) => by
    rw [Stmt.declared]
    exact conditional_else_sends cond (stmt_tells known thenArm).first (stmt_tells _ elseArm).later
  | .while _ cond body => by
    rw [Stmt.declared]
    exact loop_sends cond (stmt_tells known body)
  | .break s => tells_nil (leaveLoop_sends s "break" _)
  | .continue s => tells_nil (leaveLoop_sends s "continue" _)
  | .return s value => tells_nil (ret_sends s value)
  | .bare .. => ite_sends (fun _ => alone_sends rfl) fun _ => raise_sends rfl
  | .missing _ => get_sends fun _ _ => raise_sends rfl

theorem stmts_tells (known : List (String × Span)) :
    (ss : List Stmt) → Tells known (Stmt.declaredAll ss) (stmts ss)
  | [] => tells_nil (pure_sends _)
  | s :: ss => (stmt_tells known s).bind fun _ => stmts_tells _ ss

end

/-! ## Units -/

theorem spillParams_tells (known : List (String × Span)) (ps : List Param) (ts : List Ty)
    (vs : List Koopa.ValueId) : Tells known (ps.flatMap Param.declared) (spillParams ps ts vs) := by
  induction ps generalizing known ts vs with
  | nil => exact stop_tells _ _
  | cons p ps ih =>
    cases ts with
    | nil => exact stop_tells _ _
    | cons t ts =>
      cases vs with
      | nil => exact stop_tells _ _
      | cons v vs =>
        refine (setName_sends _ _).bind fun _ => (lift_sends (Ty.toKoopa_alone t)).bind fun ty => ?_
        refine (emitNew_sends _).bind fun slot => (setName_sends _ _).bind fun _ => ?_
        refine (store_sends _ _).bind fun _ => ?_
        exact (declare_tells _).bind fun _ => ih _ ts vs

theorem body_tells (known : List (String × Span)) (f : Fn) (id : Koopa.FnId) (ret : Ty)
    (params : List Ty) (block : Stmt) :
    Tells known (f.params.flatMap Param.declared ++ block.declared)
      (body f id ret params block) := by
  refine recordBody_sends f.name ?_
  refine (modifyFrame_sends _).bind fun _ => newBlock_sends.bind fun b => ?_
  refine (modifyFrame_sends _).bind fun _ => ?_
  suffices inside : Sends (Records known) _ (Records (known ++ _)) _ from
    inScope_sends inside (fun _ holds => holds.push .function) fun left holds => holds.leave left
  refine get_sends fun σ _ => (lift_sends (Koopa.Program.fn_alone _ _)).bind fun d => ?_
  refine (spillParams_tells known f.params params d.params).bind fun _ => ?_
  split
  · exact stmts_tells _ _
  · exact raise_sends rfl

theorem header_tells (f : Fn) (ret : Ty) (params : List Ty) :
    Sends (Records known) (header f ret params) (Records known)
      (Failure.Explained known ((f.name, f.nameSpan) :: ns)) := by
  refine get_sends fun σ holds => ?_
  split
  · exact newFn_sends _ _ _ _
  · rename_i old found
    have before := holds.findGlobal? found
    split
    · refine check_sends (throw_sends (.here rfl rfl before)) ?_
      exact check_sends (throw_sends (.here rfl rfl before)) (pure_sends _)
    · exact throw_sends (.here rfl rfl before)

theorem bindFn_tells (known : List (String × Span)) (f : Fn) {s : Symbol} (name : s.name = f.name)
    (span : s.span = f.nameSpan) : Tells known [(f.name, f.nameSpan)] (bindFn f s) := by
  refine get_sends fun σ holds => ?_
  have attempt : SymbolTable.Attempt.Explained known s
      (if f.isDecl then σ.symbols.declare s else σ.symbols.define s) := by
    split
    · exact holds.declare s
    · exact holds.define s
  rw [← name, ← span]
  generalize (if f.isDecl then σ.symbols.declare s else σ.symbols.define s) = r at attempt
  obtain ⟨⟨accepted, existing⟩, t⟩ := r
  dsimp only
  split
  · exact throw_sends (.here rfl rfl (attempt.existing rfl))
  · exact set_sends attempt.table

theorem function_tells (known : List (String × Span)) (f : Fn) :
    Tells known f.declared (function f) := by
  refine get_sends fun σ _ => (lift_sends (Outcome.plain_mapM (Ty.ofParam_plain _) _).alone).bind
    fun params => ?_
  refine (header_tells f _ params).bind fun id => ?_
  refine (bindFn_tells known f rfl rfl).bind fun _ => ?_
  cases f.body with
  | none => exact stop_tells _ _
  | some block => exact body_tells _ f id _ params block

theorem item_tells (known : List (String × Span)) : (i : Item) → Tells known i.declared (item i)
  | .fn _ f => function_tells known f
  | .decl _ (some d) => globalDecl_tells known d
  | .decl _ none => alone_sends rfl
  | .missing _ => alone_sends rfl
  | .bare _ _ => ite_sends (fun _ => alone_sends rfl) fun _ => raise_sends rfl

theorem items_tells (canceled : Bool) (known : List (String × Span)) (is : List Item) :
    Tells known (is.flatMap Item.declared) (items canceled is) := by
  induction is generalizing known with
  | nil => exact tells_nil (pure_sends _)
  | cons i is ih =>
    unfold items
    exact check_sends (alone_sends rfl) ((item_tells known i).bind fun _ => ih _)

/-- The names of library functions. They stand nowhere. -/
def libraryNames (ls : List LibraryFn) : List (String × Span) := ls.map fun l => (l.name, {})

theorem declareLibrary_records (known : List (String × Span)) (ls : List LibraryFn)
    {F : Failure → Prop} [Lenient F] :
    Sends (Records known) (declareLibrary ls) (Records (known ++ libraryNames ls)) F := by
  induction ls generalizing known with
  | nil =>
    rw [libraryNames, List.map_nil, List.append_nil]
    exact pure_sends ()
  | cons l ls ih =>
    have names : known ++ libraryNames (l :: ls) =
        known ++ [(l.name, ({} : Span))] ++ libraryNames ls := by simp [libraryNames]
    rw [names]
    refine (newFn_sends _ _ _ _).bind fun f => ?_
    exact Sends.bind (modify_sends fun σ holds => (holds.declare _).table) fun _ => ih _

/-- A unit is lowered with the names of the runtime library known from the start, or with none. -/
theorem unit_sends (withLibrary canceled : Bool) (u : CompUnit) :
    Sends (Records []) (unit withLibrary canceled u) (fun _ => True)
      (Failure.Explained (if withLibrary then libraryNames library else []) u.declared) := by
  have lowered (known : List (String × Span)) : Sends (Records known) (do
      items canceled u.items
      setProgram (← lift (← get).program.closeBlocks)) (fun _ => True)
      (Failure.Explained known u.declared) := by
    refine Sends.bind (items_tells canceled known u.items) fun _ => get_sends fun σ holds => ?_
    refine (lift_sends (Koopa.Program.closeBlocks_alone _)).bind fun p => ?_
    exact modify_sends fun _ _ => trivial
  unfold unit
  generalize library = ls
  split
  · exact Sends.bind (declareLibrary_records [] ls) fun _ => lowered _
  · exact lowered []

end Lower

/-- When lowering a file fails with an error that points to an earlier definition, the error is a
redefinition, and its diagnostic has a note there. The name in question stands at the place of the
error. It also stands at the place of the earlier definition, which ends before the error begins,
unless it is the name of a function of the runtime library, which has an empty place. -/
theorem redefinition_points_back {f : Source.File} {u : CompUnit} {withLibrary canceled : Bool}
    {e : Diag.Error} {prev : Span} (parsed : (Parsed.ofLexed (.ofFile f) false).result = .ok u)
    (failed : (Lowered.ofUnit u withLibrary canceled).result = .error (.error e))
    (previous : e.previous = some prev) :
    e.code = .redefinition ∧
    (Diag.Diagnostic.ofFailure (.error e)).notes = [⟨prev, "previous definition is here"⟩] ∧
    f.HasName e.name e.span ∧
    (f.HasName e.name prev ∧ prev.stop ≤ e.span.start ∨
      withLibrary = true ∧ e.name ∈ Lower.library.map (·.name) ∧ prev = {}) := by
  obtain ⟨placed, ordered⟩ := Parsed.declared_placed parsed
  have ends := Lower.unit_sends withLibrary canceled u {} (SymbolTable.records_empty [])
  unfold Lowered.ofUnit at failed
  generalize Lower.unit withLibrary canceled u {} = r at failed ends
  cases r with
  | ok a σ => cases failed
  | error g σ =>
    cases failed
    obtain ⟨code, before, after, declared, known⟩ := ends e prev rfl previous
    rw [declared] at placed ordered
    refine ⟨code, by simp [Diag.Diagnostic.ofFailure, Diag.Diagnostic.ofError, previous],
      placed (e.name, e.span) (by simp), ?_⟩
    rcases List.mem_append.mp known with library | earlier
    · cases withLibrary with
      | false => cases library
      | true =>
        obtain ⟨l, mem, eq⟩ := List.mem_map.mp library
        obtain ⟨name, place⟩ := Prod.mk.inj eq
        exact .inr ⟨rfl, name ▸ List.mem_map_of_mem mem, place.symm⟩
    · have stands := (List.pairwise_append.mp ordered).2.2 _ earlier _ List.mem_cons_self
      exact .inl ⟨placed _ (List.mem_append_left _ earlier), stands⟩

/-- A file that is parsed and then fails to be lowered. -/
theorem lowering_fails (f : Source.File) (withLibrary : Bool) (e : Diag.Error)
    (fails : (match (Parsed.ofLexed (.ofFile f) false).result with
      | .ok u => match (Lowered.ofUnit u withLibrary false).result with
        | .error (.error e') => decide (e' = e)
        | _ => false
      | _ => false) = true) :
    ∃ u, (Parsed.ofLexed (.ofFile f) false).result = .ok u ∧
      (Lowered.ofUnit u withLibrary false).result = .error (.error e) := by
  split at fails
  · rename_i u parsed
    split at fails
    · exact ⟨u, parsed, of_decide_eq_true fails ▸ ‹_›⟩
    · cases fails
  · cases fails

/-- A name that is defined in a function, in a block inside it, and again in the function. -/
def definedTwice : Source.File :=
  { id := 0
    path := "twice.c"
    content := Bytes.ofString "int f(int x) \x7b int y; \x7b int y; \x7d int y; \x7d"
    flags := default }

theorem definedTwice_points_back : ∃ u e prev,
    (Parsed.ofLexed (.ofFile definedTwice) false).result = .ok u ∧
    (Lowered.ofUnit u true false).result = .error (.error e) ∧ e.previous = some prev ∧
    e = .redefinition ⟨0, 37, 38⟩ "y" ⟨0, 19, 20⟩ ∧
    definedTwice.HasName "y" ⟨0, 37, 38⟩ ∧ definedTwice.HasName "y" ⟨0, 19, 20⟩ := by
  obtain ⟨u, parsed, failed⟩ := lowering_fails definedTwice true
    (.redefinition ⟨0, 37, 38⟩ "y" ⟨0, 19, 20⟩) (by decide +kernel)
  obtain ⟨-, -, here, ⟨before, -⟩ | ⟨-, -, nowhere⟩⟩ := redefinition_points_back parsed failed rfl
  · exact ⟨u, _, _, parsed, failed, rfl, rfl, here, before⟩
  · cases nowhere

/-- A function of the runtime library that is declared with other parameters. -/
def libraryRedeclared : Source.File :=
  { id := 0
    path := "library.c"
    content := Bytes.ofString "int getint(int x);"
    flags := default }

/-- The note on a function of the runtime library is at the start of the file, on no text at all. -/
theorem libraryRedeclared_points_nowhere : ∃ u e,
    (Parsed.ofLexed (.ofFile libraryRedeclared) false).result = .ok u ∧
    (Lowered.ofUnit u true false).result = .error (.error e) ∧
    e.name = "getint" ∧ e.previous = some {} ∧ ¬ libraryRedeclared.HasName "getint" {} := by
  obtain ⟨u, parsed, failed⟩ := lowering_fails libraryRedeclared true
    { Diag.Error.redefinition ⟨0, 4, 10⟩ "getint" {} with detail := "conflicting signature" }
    (by decide +kernel)
  refine ⟨u, _, parsed, failed, rfl, rfl, fun stands => ?_⟩
  exact absurd stands.text (by decide +kernel)

end SysY

import SysY.Proofs.Lower.Moments

/-! # Twin states of lowering

Two runs of lowering over the same code differ in whether their current blocks take instructions, and
so in the numbers of their values and in the slots of their symbols. `Twin c σ τ` says that nothing
else that lowering looks at differs: the symbols have the same outlines, and equally many blocks were
made. Of each state alone little is needed (`Fit`): the current block is laid out, and symbols stand
for values of the right types. `Together` relates two operations that both lead to twins or both fail
with the same failure. -/

namespace SysY

open Koopa (ValueId BlockId FnId)

/-! ## Outlines -/

namespace Symbol

/-- What a symbol stands for, without where that is in the program. -/
def Meaning.outline : Meaning → Meaning
  | .constant v _ => .constant v none
  | .variable _ => .variable 0
  | .function _ params defined => .function 0 params defined

/-- A symbol without where it is in the program: its name, its kind, its type, and the value of a
constant. -/
def outline (s : Symbol) : Symbol := { s with meaning := s.meaning.outline }

theorem isFunction_outline (s : Symbol) : s.outline.isFunction = s.isFunction := by
  unfold isFunction outline Meaning.outline
  cases s.meaning <;> rfl

theorem binding_outline (s : Symbol) : s.outline.binding = s.binding := by
  unfold binding outline Meaning.outline
  cases s.meaning <;> rfl

variable {s s' : Symbol}

theorem name_of_outline (same : s.outline = s'.outline) : s'.name = s.name :=
  (congrArg Symbol.name same).symm

theorem span_of_outline (same : s.outline = s'.outline) : s'.span = s.span :=
  (congrArg Symbol.span same).symm

theorem type_of_outline (same : s.outline = s'.outline) : s'.type = s.type :=
  (congrArg Symbol.type same).symm

theorem constant_of_outline (same : s.outline = s'.outline) {v : Const.Value}
    {slot : Option ValueId} (meaning : s.meaning = .constant v slot) :
    ∃ slot', s'.meaning = .constant v slot' := by
  have eq : s.meaning.outline = s'.meaning.outline := congrArg Symbol.meaning same
  rw [meaning] at eq
  cases meaning' : s'.meaning with
  | constant v' slot' =>
    rw [meaning'] at eq
    cases eq
    exact ⟨slot', rfl⟩
  | «variable» slot' => rw [meaning'] at eq; cases eq
  | function fn params defined => rw [meaning'] at eq; cases eq

theorem variable_of_outline (same : s.outline = s'.outline) {slot : ValueId}
    (meaning : s.meaning = .variable slot) : ∃ slot', s'.meaning = .variable slot' := by
  have eq : s.meaning.outline = s'.meaning.outline := congrArg Symbol.meaning same
  rw [meaning] at eq
  cases meaning' : s'.meaning with
  | constant v' slot' => rw [meaning'] at eq; cases eq
  | «variable» slot' => exact ⟨slot', rfl⟩
  | function fn params defined => rw [meaning'] at eq; cases eq

theorem function_of_outline (same : s.outline = s'.outline) {fn : FnId} {params : List Ty}
    {defined : Bool} (meaning : s.meaning = .function fn params defined) :
    ∃ fn', s'.meaning = .function fn' params defined := by
  have eq : s.meaning.outline = s'.meaning.outline := congrArg Symbol.meaning same
  rw [meaning] at eq
  cases meaning' : s'.meaning with
  | constant v' slot' => rw [meaning'] at eq; cases eq
  | «variable» slot' => rw [meaning'] at eq; cases eq
  | function fn' params' defined' =>
    rw [meaning'] at eq
    cases eq
    exact ⟨fn', rfl⟩

end Symbol

namespace SymbolTable

/-- A table with the outlines of its symbols. -/
def outline (t : SymbolTable) : SymbolTable := { t with symbols := t.symbols.map Symbol.outline }

theorem get?_outline (t : SymbolTable) (id : Nat) :
    t.outline.get? id = (t.get? id).map Symbol.outline := t.get?_map Symbol.outline id

theorem find?_outline (t : SymbolTable) (name : String) :
    t.outline.find? name = (t.find? name).map Symbol.outline := t.find?_map Symbol.outline name

/-- Constants are evaluated with outlines only. -/
theorem env_outline (t : SymbolTable) : t.outline.env = t.env :=
  t.env_map Symbol.binding_outline

theorem outline_bound (t : SymbolTable) (s : Symbol) (inner : Scope) (outer : List Scope) :
    (t.bound s inner outer).outline = t.outline.bound s.outline inner outer :=
  (t.bound_map (f := Symbol.outline) (fun _ => rfl) s inner outer).symm

end SymbolTable

namespace Lower

/-! ## One state -/

/-- What is needed of a state for the instructions of lowering to be accepted. -/
structure Fit (c : Site) (σ : State) : Prop where
  site : At c σ
  fn : ∃ d, σ.program.fn? c.fn = some d
  placed : ∀ {d b is}, σ.program.fn? c.fn = some d → d.insts? b = some is →
    b ≤ σ.program.blocks.size ∧ ∀ v ∈ is, v ≤ σ.program.values.size
  block : σ.frame.isOpen = true → ∀ {d}, σ.program.fn? c.fn = some d → σ.frame.block ∈ d.blocks
  scopes : ∀ sc ∈ σ.symbols.locals, ∀ {n id}, (n, id) ∈ sc.names →
    ∃ s, σ.symbols.get? id = some s ∧ s.Ok σ.program (some c.fn)
  global : ∀ {n id}, (n, id) ∈ σ.symbols.global.names → ∃ s, σ.symbols.get? id = some s ∧
    s.Ok σ.program none

/-- A later state with the same symbols and the same number of blocks. -/
structure Still (c : Site) (σ σ' : State) : Prop where
  fit : Fit c σ'
  grows : σ.program.Grows σ'.program
  symbols : σ'.symbols = σ.symbols
  nextBlock : σ'.frame.nextBlock = σ.frame.nextBlock
  blocks : σ'.program.blocks.size = σ.program.blocks.size

variable {c : Site} {σ σ' τ τ' : State}

theorem Inv.fit {avail : Koopa.Avail} (inv : Inv c avail σ) : Fit c σ where
  site := inv.site
  fn := by
    obtain ⟨d, found, -⟩ := inv.fn
    exact ⟨d, found⟩
  placed := fun found here => by
    have ok := inv.program.fns found
    refine ⟨Koopa.Program.block?_le_size (ok.homes (Koopa.Fn.mem_blocks_of_insts? here)), ?_⟩
    intro v mem
    obtain ⟨t, x, has, -⟩ := ok.placed here mem
    exact has.le_size.2
  block := fun isOpen {d} found => by
    obtain ⟨e, is, found', here, -⟩ := (inv.live isOpen).block
    obtain rfl := Option.some.inj (found'.symm.trans found)
    exact Koopa.Fn.mem_blocks_of_insts? here
  scopes := inv.scopes
  global := inv.global

/-- A state in which lowering goes on in another block, or in none. -/
def State.moved (σ : State) (b : BlockId) (isOpen : Bool) : State :=
  { σ with frame := { σ.frame with block := b, isOpen := isOpen } }

/-- Whatever only adds to the program keeps symbols in order. -/
theorem Fit.change (fit : Fit c σ) {p : Koopa.Program} {r : Frame} (grows : σ.program.Grows p)
    (placed : ∀ {d b is}, p.fn? c.fn = some d → d.insts? b = some is →
      b ≤ p.blocks.size ∧ ∀ v ∈ is, v ≤ p.values.size)
    (fn : r.fn = σ.frame.fn) (ret : r.ret = σ.frame.ret) (loops : r.loops = σ.frame.loops)
    (block : r.isOpen = true → ∀ {d}, p.fn? c.fn = some d → r.block ∈ d.blocks) :
    Fit c { σ with program := p, frame := r } where
  site := ⟨fn.trans fit.site.fn, ret.trans fit.site.ret, loops.trans fit.site.loops,
    fit.site.depth⟩
  fn := by
    obtain ⟨d, found⟩ := fit.fn
    obtain ⟨d', found', -⟩ := grows.fns found
    exact ⟨d', found'⟩
  placed := placed
  block := block
  scopes := fun sc mem {n id} here => by
    obtain ⟨s, found, ok⟩ := fit.scopes sc mem here
    exact ⟨s, found, ok.grows grows⟩
  global := fun mem => by
    obtain ⟨s, found, ok⟩ := fit.global mem
    exact ⟨s, found, ok.grows grows⟩

/-- Blocks that are laid out stay so. -/
theorem Fit.laid (fit : Fit c σ) {p : Koopa.Program} (grows : σ.program.Grows p)
    (isOpen : σ.frame.isOpen = true) {d : Koopa.Fn} (found : p.fn? c.fn = some d) :
    σ.frame.block ∈ d.blocks := by
  obtain ⟨e, found'⟩ := fit.fn
  obtain ⟨d', found'', later⟩ := grows.fns found'
  obtain rfl := Option.some.inj (found''.symm.trans found)
  exact later.mem_blocks (fit.block isOpen found')

/-- A symbol that is found fits the program. -/
theorem Fit.symbol (fit : Fit c σ) {name : String} {s : Symbol}
    (found : σ.symbols.find? name = some s) : s.Ok σ.program (some c.fn) := by
  rcases SymbolTable.find?_eq_some found with ⟨sc, hsc, id, mem, here⟩ | ⟨id, mem, here⟩
  · obtain ⟨s', here', ok⟩ := fit.scopes sc hsc mem
    obtain rfl := Option.some.inj (here.symm.trans here')
    exact ok
  · obtain ⟨s', here', ok⟩ := fit.global mem
    obtain rfl := Option.some.inj (here.symm.trans here')
    exact ok.of_global

theorem Still.refl (fit : Fit c σ) : Still c σ σ := ⟨fit, .refl _, rfl, rfl, rfl⟩

theorem Still.trans {σ'' : State} (h : Still c σ σ') (h' : Still c σ' σ'') : Still c σ σ'' :=
  ⟨h'.fit, h.grows.trans h'.grows, h'.symbols.trans h.symbols, h'.nextBlock.trans h.nextBlock,
    h'.blocks.trans h.blocks⟩

/-! ### Steps that only add values and instructions -/

/-- Adding a value that stands in no block. -/
theorem Fit.insert (fit : Fit c σ) (x : Koopa.Value) :
    Still c σ (σ.withProgram (σ.program.insert x).2) := by
  have grows := Koopa.Program.grows_insert σ.program x
  refine ⟨fit.change grows ?_ rfl rfl rfl (fun isOpen => fit.laid grows isOpen), grows, rfl, rfl, rfl⟩
  intro d b is found here
  obtain ⟨small, values⟩ := fit.placed found here
  exact ⟨small, fun v mem => Nat.le_trans (values v mem) grows.values_size⟩

/-- The name of a value can be set. -/
theorem Fit.rename (fit : Fit c σ) {v : ValueId} {x : Koopa.Value}
    (found : σ.program.value? v = some x) (name : String) :
    Still c σ (σ.withProgram (σ.program.rename v name)) := by
  have grows := Koopa.Program.grows_rename found name
  refine ⟨fit.change grows ?_ rfl rfl rfl (fun isOpen => fit.laid grows isOpen), grows, rfl, rfl, rfl⟩
  intro d b is foundFn here
  obtain ⟨small, values⟩ := fit.placed foundFn here
  exact ⟨small, fun v mem => Nat.le_trans (values v mem) grows.values_size⟩

theorem Fit.takes (fit : Fit c σ) : σ.Takes := fun isOpen => by
  obtain ⟨d, found⟩ := fit.fn
  obtain ⟨is, here⟩ := Option.isSome_iff_exists.mp
    (Koopa.Fn.insts?_isSome.mpr (fit.block isOpen found))
  have fresh : σ.program.values.size + 1 ∉ is := fun mem =>
    absurd ((fit.placed found here).2 _ mem) (Nat.not_succ_le_self _)
  rw [← fit.site.fn] at found
  exact ⟨d, is, found, here, fresh⟩

/-- The state after an instruction was made and appended. -/
theorem Fit.emitted (fit : Fit c σ) (ty : Koopa.Ty) (x : Koopa.ValueDef) :
    Still c σ (σ.emitted ty x) := by
  cases isOpen : σ.frame.isOpen with
  | false =>
    rw [State.emitted_closed isOpen]
    exact fit.insert _
  | true =>
    have made := fit.insert { home := some σ.frame.fn, ty := ty, defn := x }
    obtain ⟨d, found⟩ := fit.fn
    have here' : (σ.program.inst σ.frame.fn ty x).2.fn? σ.frame.fn = some d := by
      rw [fit.site.fn]
      exact found
    rw [State.emitted_open isOpen here']
    have grows := made.grows.trans (Koopa.Program.grows_setFn here'
      (Koopa.Fn.grows_append d σ.frame.block (σ.program.values.size + 1)))
    refine ⟨fit.change grows ?_ rfl rfl rfl (fun isOpen => fit.laid grows isOpen), grows, rfl, rfl, rfl⟩
    intro e b is foundFn here
    obtain rfl : d.append σ.frame.block (σ.program.values.size + 1) = e := by
      rw [← fit.site.fn] at foundFn
      have eq := (Koopa.Program.fn?_setFn here' _ _).symm.trans foundFn
      rw [if_pos rfl] at eq
      exact Option.some.inj eq
    have size : ((σ.program.inst σ.frame.fn ty x).2.setFn σ.frame.fn
        (d.append σ.frame.block (σ.program.values.size + 1))).values.size =
          σ.program.values.size + 1 := Array.size_push ..
    rw [size]
    rw [Koopa.Fn.insts?_append] at here
    split at here
    · rename_i same
      subst same
      obtain ⟨js, before, rfl⟩ := Option.map_eq_some_iff.mp here
      obtain ⟨small, values⟩ := fit.placed found before
      refine ⟨small, fun v mem => ?_⟩
      rcases List.mem_append.mp mem with old | new
      · exact Nat.le_succ_of_le (values v old)
      · exact Nat.le_of_eq (List.mem_singleton.mp new)
    · obtain ⟨small, values⟩ := fit.placed found here
      exact ⟨small, fun v mem => Nat.le_succ_of_le (values v mem)⟩

/-- Lowering can go on in any block that is laid out. -/
theorem Still.moved (still : Still c σ σ') (b : BlockId) (isOpen : Bool)
    (laid : isOpen = true → ∀ {d}, σ'.program.fn? c.fn = some d → b ∈ d.blocks) :
    Still c σ (σ'.moved b isOpen) :=
  ⟨still.fit.change (.refl _) still.fit.placed rfl rfl rfl laid, still.grows, still.symbols,
    still.nextBlock, still.blocks⟩

/-- An operation that only adds values and instructions, and succeeds with `P`. -/
def Adds {α : Type} (c : Site) (σ : State) (m : Lower α) (P : α → State → Prop) : Prop :=
  ∃ a σ', m σ = .ok a σ' ∧ Still c σ σ' ∧ P a σ'

section Adds

variable {ty : Koopa.Ty} {x : Koopa.ValueDef}

theorem integer_adds (fit : Fit c σ) (n : Int32) :
    Adds c σ (integer n) fun v σ' => σ'.program.Sees (some c.fn) v .i32 := by
  refine ⟨_, _, rfl, fit.insert { home := some σ.frame.fn, ty := .i32, defn := .integer n }, ?_⟩
  rw [← fit.site.fn]
  exact ⟨_, _, Koopa.Program.has_insert .., .inl rfl⟩

theorem emitted_sees (fit : Fit c σ) :
    (σ.emitted ty x).program.Sees (some c.fn) (σ.program.values.size + 1) ty := by
  rw [← fit.site.fn]
  exact ⟨_, _, σ.emitted_has ty x, .inl rfl⟩

theorem emitNew_adds (fit : Fit c σ) {f : Koopa.Program → FnId → ValueId × Koopa.Program}
    (eq : f σ.program σ.frame.fn = σ.program.inst σ.frame.fn ty x) :
    Adds c σ (emitNew f) fun v σ' => σ'.program.Has v (some c.fn) ty x := by
  refine ⟨_, _, emitNew_eq fit.takes eq, fit.emitted ty x, ?_⟩
  rw [← fit.site.fn]
  exact σ.emitted_has ty x

theorem tryEmitNew_adds (fit : Fit c σ)
    {f : Koopa.Program → FnId → Outcome (ValueId × Koopa.Program)}
    (eq : f σ.program σ.frame.fn = .ok (σ.program.inst σ.frame.fn ty x)) :
    Adds c σ (tryEmitNew f) fun v σ' => σ'.program.Sees (some c.fn) v ty :=
  ⟨_, _, tryEmitNew_eq fit.takes eq, fit.emitted ty x, emitted_sees fit⟩

theorem load_adds (fit : Fit c σ) {v : ValueId} {t : Koopa.Ty}
    (src : σ.program.Sees (some c.fn) v (.pointer t)) :
    Adds c σ (tryEmitNew (·.load · v)) fun u σ' => σ'.program.Sees (some c.fn) u t := by
  rw [← fit.site.fn] at src
  exact tryEmitNew_adds fit (Koopa.Program.load_eq src)

theorem store_adds (fit : Fit c σ) {v w : ValueId} {t : Koopa.Ty}
    (dest : σ.program.Sees (some c.fn) w (.pointer t)) :
    Adds c σ (tryEmitNew (·.store · v w)) fun _ _ => True := by
  rw [← fit.site.fn] at dest
  obtain ⟨a, σ', done, still, -⟩ := tryEmitNew_adds (f := (·.store · v w)) fit
    (Koopa.Program.store_eq dest)
  exact ⟨a, σ', done, still, trivial⟩

theorem getPtr_adds (fit : Fit c σ) {v w : ValueId} {t : Koopa.Ty}
    (src : σ.program.Sees (some c.fn) v (.pointer t)) :
    Adds c σ (tryEmitNew (·.getPtr · v w)) fun u σ' =>
      σ'.program.Sees (some c.fn) u (.pointer t) := by
  rw [← fit.site.fn] at src
  exact tryEmitNew_adds fit (Koopa.Program.getPtr_eq src)

theorem getElemPtr_adds (fit : Fit c σ) {v w : ValueId} {t : Koopa.Ty} {n : Nat}
    (src : σ.program.Sees (some c.fn) v (.pointer (.array t n))) :
    Adds c σ (tryEmitNew (·.getElemPtr · v w)) fun u σ' =>
      σ'.program.Sees (some c.fn) u (.pointer t) := by
  rw [← fit.site.fn] at src
  exact tryEmitNew_adds fit (Koopa.Program.getElemPtr_eq src)

theorem binary_adds (fit : Fit c σ) (op : Koopa.Op) (v w : ValueId) :
    Adds c σ (emitNew (·.binary · op v w)) fun u σ' => σ'.program.Sees (some c.fn) u .i32 := by
  obtain ⟨u, σ', done, still, has⟩ := emitNew_adds (f := (·.binary · op v w)) fit rfl
  exact ⟨u, σ', done, still, _, _, has, .inl rfl⟩

theorem call_adds (fit : Fit c σ) {callee : FnId} {d : Koopa.Fn} {args : List ValueId}
    (found : σ.program.fn? callee = some d) :
    Adds c σ (tryEmitNew (·.call · callee args)) fun u σ' =>
      σ'.program.Sees (some c.fn) u d.ret :=
  tryEmitNew_adds fit (Koopa.Program.call_eq found)

theorem setName_adds (fit : Fit c σ) {v : ValueId} {t : Koopa.Ty} (name : String)
    (sees : σ.program.Sees (some c.fn) v t) : Adds c σ (setName v name) fun _ _ => True := by
  rw [← fit.site.fn] at sees
  obtain ⟨x, -, -, found⟩ := Koopa.Program.value_eq_ok sees
  exact ⟨_, _, setName_eq sees, fit.rename found name, trivial⟩

/-- Ending a block and going on in another one, or in none. -/
theorem sealOff_adds (fit : Fit c σ) {f : Koopa.Program → FnId → ValueId × Koopa.Program}
    (eq : f σ.program σ.frame.fn = σ.program.inst σ.frame.fn .unit x) :
    Adds c σ (do sealOff (← make f)) fun _ σ' => σ' = σ.sealed x 0 false := by
  refine ⟨(), _, (bind_ok (make_eq eq)).trans (sealOff_made fit.takes x), ?_, rfl⟩
  have moved := (fit.emitted .unit x).moved 0 false (by simp)
  unfold State.moved at moved
  rwa [State.emitted_frame] at moved

theorem sealTo_adds (fit : Fit c σ) {f : Koopa.Program → FnId → ValueId × Koopa.Program}
    {b : BlockId} (eq : f σ.program σ.frame.fn = σ.program.inst σ.frame.fn .unit x)
    (laid : ∀ {d}, σ.program.fn? c.fn = some d → b ∈ d.blocks) :
    Adds c σ (do sealTo (← make f) b) fun _ _ => True := by
  have emitted := fit.emitted .unit x
  refine ⟨(), _, (bind_ok (make_eq eq)).trans (sealTo_made fit.takes x b), ?_, trivial⟩
  have moved := emitted.moved b σ.frame.isOpen fun _ {d} found => by
    obtain ⟨e, found'⟩ := fit.fn
    obtain ⟨d', found'', later⟩ := emitted.grows.fns found'
    obtain rfl := Option.some.inj (found''.symm.trans found)
    exact later.mem_blocks (laid found')
  unfold State.moved at moved
  rwa [State.emitted_frame] at moved

end Adds

/-! ## Two states -/

/-- Two states that differ in their current blocks, and in the numbers that values got. -/
structure Twin (c : Site) (σ τ : State) : Prop where
  left : Fit c σ
  right : Fit c τ
  symbols : σ.symbols.outline = τ.symbols.outline
  nextBlock : τ.frame.nextBlock = σ.frame.nextBlock
  blocks : τ.program.blocks.size = σ.program.blocks.size
  /-- The current function has the same name. -/
  name : ∀ {d e}, σ.program.fn? c.fn = some d → τ.program.fn? c.fn = some e → e.name = d.name

/-- What one of the two programs has, it still has later. -/
structure Onward (σ τ σ' τ' : State) : Prop where
  left : σ.program.Grows σ'.program
  right : τ.program.Grows τ'.program

theorem Onward.refl (σ τ : State) : Onward σ τ σ τ := ⟨.refl _, .refl _⟩

theorem Onward.trans {σ'' τ'' : State} (h : Onward σ τ σ' τ') (h' : Onward σ' τ' σ'' τ'') :
    Onward σ τ σ'' τ'' := ⟨h.left.trans h'.left, h.right.trans h'.right⟩

theorem Still.onward (left : Still c σ σ') (right : Still c τ τ') : Onward σ τ σ' τ' :=
  ⟨left.grows, right.grows⟩

/-- Functions keep their names. -/
theorem Twin.name_later (twin : Twin c σ τ) (onward : Onward σ τ σ' τ') {d e : Koopa.Fn}
    (found : σ'.program.fn? c.fn = some d) (found' : τ'.program.fn? c.fn = some e) :
    e.name = d.name := by
  obtain ⟨d₀, here⟩ := twin.left.fn
  obtain ⟨e₀, here'⟩ := twin.right.fn
  obtain ⟨d₁, found₁, later⟩ := onward.left.fns here
  obtain ⟨e₁, found₁', later'⟩ := onward.right.fns here'
  obtain rfl := Option.some.inj (found₁.symm.trans found)
  obtain rfl := Option.some.inj (found₁'.symm.trans found')
  rw [later.name, later'.name, twin.name here here']

/-- Twins stay twins when both go on in their own way. -/
theorem Twin.still (twin : Twin c σ τ) (left : Still c σ σ') (right : Still c τ τ') :
    Twin c σ' τ' where
  left := left.fit
  right := right.fit
  symbols := by rw [left.symbols, right.symbols]; exact twin.symbols
  nextBlock := by rw [left.nextBlock, right.nextBlock]; exact twin.nextBlock
  blocks := by rw [left.blocks, right.blocks]; exact twin.blocks
  name := twin.name_later (left.onward right)

theorem Twin.env (twin : Twin c σ τ) : τ.symbols.env = σ.symbols.env := by
  rw [← τ.symbols.env_outline, ← σ.symbols.env_outline, twin.symbols]

theorem Twin.locals (twin : Twin c σ τ) : τ.symbols.locals = σ.symbols.locals :=
  (congrArg SymbolTable.locals twin.symbols).symm

/-- Names stand for symbols with the same outline, or for none. -/
theorem Twin.find? (twin : Twin c σ τ) (name : String) :
    (σ.symbols.find? name = none ∧ τ.symbols.find? name = none) ∨
      ∃ s s', σ.symbols.find? name = some s ∧ τ.symbols.find? name = some s' ∧
        s.outline = s'.outline := by
  have same : (σ.symbols.find? name).map Symbol.outline =
      (τ.symbols.find? name).map Symbol.outline := by
    rw [← SymbolTable.find?_outline, ← SymbolTable.find?_outline, twin.symbols]
  cases found : σ.symbols.find? name with
  | none =>
    rw [found] at same
    exact .inl ⟨rfl, Option.map_eq_none_iff.mp same.symm⟩
  | some s =>
    rw [found] at same
    obtain ⟨s', found', outline⟩ := Option.map_eq_some_iff.mp same.symm
    exact .inr ⟨s, s', rfl, found', outline.symm⟩

/-- Values of the two runs that stand for the same: both are there and have the same type. -/
structure Both (c : Site) (σ τ : State) (v w : ValueId) (t : Koopa.Ty) : Prop where
  left : σ.program.Sees (some c.fn) v t
  right : τ.program.Sees (some c.fn) w t

theorem Both.onward {v w : ValueId} {t : Koopa.Ty} (both : Both c σ τ v w t)
    (onward : Onward σ τ σ' τ') : Both c σ' τ' v w t :=
  ⟨onward.left.sees both.left, onward.right.sees both.right⟩

/-! ## Two runs -/

/-- Both results are successes that lead from `σ` and `τ` to twins with `Q`, or both are the same
failure. -/
inductive Alike {α β : Type} (c : Site) (σ τ : State) (Q : α → State → β → State → Prop) :
    EStateM.Result Failure State α → EStateM.Result Failure State β → Prop
  | ok {a σ' b τ'} : Twin c σ' τ' → Onward σ τ σ' τ' → Q a σ' b τ' →
      Alike c σ τ Q (.ok a σ') (.ok b τ')
  | error {e σ' τ'} : At c σ' → At c τ' → Alike c σ τ Q (.error e σ') (.error e τ')

/-- What ends alike when seen from later states also does when seen from earlier ones. -/
theorem Alike.since {α β : Type} {Q : α → State → β → State → Prop}
    {r : EStateM.Result Failure State α} {s : EStateM.Result Failure State β}
    (alike : Alike c σ' τ' Q r s) (onward : Onward σ τ σ' τ') : Alike c σ τ Q r s := by
  cases alike with
  | ok twin onward' q => exact .ok twin (onward.trans onward') q
  | error left right => exact .error left right

/-- Two operations that are run in `σ` and `τ` end alike. -/
abbrev Together {α β : Type} (c : Site) (σ τ : State) (m : Lower α) (n : Lower β)
    (Q : α → State → β → State → Prop) : Prop := Alike c σ τ Q (m σ) (n τ)

namespace Together

variable {α β γ δ : Type} {m : Lower α} {n : Lower β} {Q : α → State → β → State → Prop}

theorem pure {a : α} {b : β} (twin : Twin c σ τ) (q : Q a σ b τ) :
    Together c σ τ (pure a) (pure b) Q := .ok twin (.refl σ τ) q

theorem throw {e : Failure} (twin : Twin c σ τ) : Together c σ τ (throw e) (throw e) Q :=
  .error twin.left.site twin.right.site

theorem raise {e e' : Diag.Error} (twin : Twin c σ τ) (same : e' = e) :
    Together c σ τ (raise e) (raise e') Q := by
  subst same
  exact .error twin.left.site twin.right.site

theorem bind {f : α → Lower γ} {g : β → Lower δ} {R : γ → State → δ → State → Prop}
    (h : Together c σ τ m n Q)
    (next : ∀ {a σ' b τ'}, Twin c σ' τ' → Onward σ τ σ' τ' → Q a σ' b τ' →
      Together c σ' τ' (f a) (g b) R) : Together c σ τ (m >>= f) (n >>= g) R := by
  unfold Together at h ⊢
  simp only [Bind.bind, EStateM.bind]
  cases hm : m σ with
  | ok a σ' =>
    cases hn : n τ with
    | ok b τ' =>
      rw [hm, hn] at h
      cases h with
      | ok twin onward q =>
        exact (next twin onward q).since onward
    | error e τ' => rw [hm, hn] at h; cases h
  | error e σ' =>
    cases hn : n τ with
    | ok b τ' => rw [hm, hn] at h; cases h
    | error e' τ' =>
      rw [hm, hn] at h
      cases h with
      | error left right => exact .error left right

theorem mono {R : α → State → β → State → Prop} (h : Together c σ τ m n Q)
    (weaker : ∀ {a σ' b τ'}, Twin c σ' τ' → Onward σ τ σ' τ' → Q a σ' b τ' → R a σ' b τ') :
    Together c σ τ m n R := by
  unfold Together at h ⊢
  generalize m σ = r, n τ = s at h
  cases h with
  | ok twin onward q => exact .ok twin onward (weaker twin onward q)
  | error left right => exact .error left right

/-- Operations that only add values and instructions. -/
theorem adds {P : α → State → Prop} {P' : β → State → Prop} (twin : Twin c σ τ)
    (left : Adds c σ m P) (right : Adds c τ n P') :
    Together c σ τ m n fun a σ' b τ' => P a σ' ∧ P' b τ' := by
  obtain ⟨a, σ', done, still, p⟩ := left
  obtain ⟨b, τ', done', still', p'⟩ := right
  unfold Together
  rw [done, done']
  exact .ok (twin.still still still') (still.onward still') ⟨p, p'⟩

/-- Operations whose results have the same type. -/
theorem both {m n : Lower ValueId} {t : Koopa.Ty} (twin : Twin c σ τ)
    (left : Adds c σ m fun v σ' => σ'.program.Sees (some c.fn) v t)
    (right : Adds c τ n fun w τ' => τ'.program.Sees (some c.fn) w t) :
    Together c σ τ m n fun v σ' w τ' => Both c σ' τ' v w t :=
  (adds twin left right).mono fun _ _ ⟨l, r⟩ => ⟨l, r⟩

/-- An operation that does not look at the state. -/
theorem lift {o : Outcome α} {f : α → Lower γ} {g : α → Lower δ}
    {R : γ → State → δ → State → Prop} (twin : Twin c σ τ)
    (next : ∀ a, o = .ok a → Together c σ τ (f a) (g a) R) :
    Together c σ τ (Lower.lift o >>= f) (Lower.lift o >>= g) R := by
  cases o with
  | ok a => exact next a rfl
  | error e => exact .error twin.left.site twin.right.site

/-- A check that both runs make. -/
theorem guard {bad : Prop} [Decidable bad] {fails fails' : Lower Unit} {f : Unit → Lower γ}
    {g : Unit → Lower δ} {R : γ → State → δ → State → Prop}
    (h : bad → Together c σ τ fails fails' fun _ _ _ _ => False)
    (next : ¬ bad → Together c σ τ (f ()) (g ()) R) :
    Together c σ τ (if bad then fails >>= f else f ()) (if bad then fails' >>= g else g ()) R := by
  by_cases isBad : bad
  · rw [if_pos isBad, if_pos isBad]
    exact (h isBad).bind fun _ _ impossible => impossible.elim
  · rw [if_neg isBad, if_neg isBad]
    exact next isBad

/-- What is run can be replaced by what does the same. -/
theorem of_eq {m' : Lower α} {n' : Lower β} (left : m σ = m' σ) (right : n τ = n' τ)
    (h : Together c σ τ m' n' Q) : Together c σ τ m n Q := by
  unfold Together
  rw [left, right]
  exact h

end Together

end Lower
end SysY

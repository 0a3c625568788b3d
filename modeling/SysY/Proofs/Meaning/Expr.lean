import SysY.Proofs.Meaning.Steps

/-! # The meaning of expressions

The instructions of an expression compute what the expression means. `Simulates` says this of any
operation of lowering: where the machine stands at the point that lowering has reached, and `run`
says what is to happen, the machine makes it happen and stands where lowering goes on. -/

namespace SysY.Meaning

open Koopa (Val Activation Config ValueId BlockId FnId Program Avail ValueDef)
open Lower (Inv Operand PlaceOk Computes Evo Pending)
open Source (Span)

variable {W S α β : Type} {l : Loaded W} {q : Prop} {K : View l q S}
  {callers : List (ValueId × Activation)} {c : Lower.Site} {avail : Avail} {σ σ' : Lower.State}
  {a b : Point W} {s s' : S}

/-- What an operation of lowering makes does what `run` says, with results that fit. -/
def Simulates (K : View l q S) (m : Lower α) (run : S → β → S → Prop) (R : α → β → Point W → Prop) :
    Prop :=
  ∀ ⦃c avail σ σ' v callers s r s' a⦄, Inv c avail σ → σ.frame.isOpen = true →
    m σ = .ok v σ' → σ'.program.Grows l.program → Stands l.program σ a.here →
    K.Fits σ.symbols s a → run s r s' →
    Reaches l q callers σ a σ' fun b => K.Fits σ.symbols s' b ∧ R v r b

/-- The operand `v` is the number `r`. -/
def Gives (l : Loaded W) (v : ValueId) (r : Int32) (b : Point W) : Prop :=
  b.operand l v = some (.int r)

/-- The numbers of operands were given. -/
theorem le_size {v : ValueId} {t : Koopa.Ty} (operand : Operand avail σ v t) : v ≤ size σ := by
  obtain ⟨h, d, has, -⟩ := operand.sees
  exact has.le_size.2

theorem size_le {k : Lower.Kind} {avail' : Avail} (evo : Evo k avail σ avail' σ') :
    size σ ≤ size σ' := evo.grows.values_size

theorem Gives.goes {v : ValueId} {r : Int32} {limit : Nat} {t : Koopa.Ty} (gives : Gives l v r a)
    (operand : Operand avail σ v t) (goes : Goes l q callers (size σ) limit a b) : Gives l v r b :=
  (goes.operand (le_size operand)).trans gives

/-! ## Operators -/

section Operators

variable {u v w : ValueId} {x y r : Int32}

theorem binary_reaches {op : Koopa.Op} (inv : Inv c avail σ) (isOpen : σ.frame.isOpen = true)
    (lowered : Lower.emitNew (·.binary · op v w) σ = .ok u σ') (grows : σ'.program.Grows l.program)
    (stands : Stands l.program σ a.here) (fits : K.Fits σ.symbols s a) (first : Gives l v x a)
    (second : Gives l w y a) (result : op.eval x y = some r) :
    Reaches l q callers σ a σ' fun b => K.Fits σ.symbols s b ∧ Gives l u r b := by
  obtain ⟨b, moves, value⟩ := binary_moves inv isOpen lowered grows stands first second result
  exact moves.reaches inv fits value

theorem opOf?_eval {op : BinaryOp} {op' : Koopa.Op} (inst : Lower.opOf? op = some op')
    (ran : binary op x y = some r) : op'.eval x y = some r := by
  cases op <;> cases inst <;> simpa [binary, Koopa.Op.eval, truth] using ran

/-- A number and 0 are operands in one order or the other. -/
theorem nought_runs {op : Koopa.Op} {g : ValueId → ValueId × ValueId} (inv : Inv c avail σ)
    (operand : Operand avail σ v .i32) (isPair : (∀ z, g z = (z, v)) ∨ ∀ z, g z = (v, z)) :
    Lower.Runs .expr c avail σ (do
      let nought ← Lower.integer 0
      Lower.emitNew (·.binary · op (g nought).1 (g nought).2))
        fun u avail' σ' => Operand avail' σ' u .i32 := by
  refine Lower.Runs.bind inv (Lower.integer_runs inv 0) ?_
  intro nought avail₁ σ₁ inv₁ evo₁ noughtOk
  rcases isPair with eq | eq
  · rw [eq]
    exact Lower.binary_runs inv₁ op noughtOk (operand.evo evo₁)
  · rw [eq]
    exact Lower.binary_runs inv₁ op (operand.evo evo₁) noughtOk

/-- A number is compared with or subtracted from 0. -/
theorem nought_reaches {op : Koopa.Op} {g : ValueId → ValueId × ValueId} (inv : Inv c avail σ)
    (isOpen : σ.frame.isOpen = true) (operand : Operand avail σ v .i32)
    (isPair : (∀ z, g z = (z, v)) ∧ op.eval 0 x = some r ∨
      (∀ z, g z = (v, z)) ∧ op.eval x 0 = some r)
    (lowered : (do
      let nought ← Lower.integer 0
      Lower.emitNew (·.binary · op (g nought).1 (g nought).2)) σ = .ok u σ')
    (grows : σ'.program.Grows l.program) (stands : Stands l.program σ a.here)
    (fits : K.Fits σ.symbols s a) (gives : Gives l v x a) :
    Reaches l q callers σ a σ' fun b => K.Fits σ.symbols s b ∧ Gives l u r b := by
  obtain ⟨nought, σ₁, lowered₁, rest₁⟩ := bind_eq_ok.mp lowered
  obtain ⟨avail₁, inv₁, evo₁, noughtOk⟩ := (Lower.integer_runs (k := .expr) inv 0).ok lowered₁
  have operand₁ := operand.evo evo₁
  have isOpen₁ := evo₁.keeps.2.trans isOpen
  have symbols := evo₁.keeps.1
  rcases isPair with ⟨eq, result⟩ | ⟨eq, result⟩
  · rw [eq] at rest₁
    obtain ⟨_, _, evo₂, _⟩ := (Lower.binary_runs (k := .expr) inv₁ op noughtOk operand₁).ok rest₁
    refine (integer_reaches lowered₁ (evo₂.grows.trans grows) stands fits).bind (size_le evo₁) ?_
    rintro b goes stands₁ ⟨fits₁, value⟩
    rw [← symbols] at fits₁ ⊢
    exact binary_reaches inv₁ isOpen₁ rest₁ grows stands₁ fits₁ value (gives.goes operand goes) result
  · rw [eq] at rest₁
    obtain ⟨_, _, evo₂, _⟩ := (Lower.binary_runs (k := .expr) inv₁ op operand₁ noughtOk).ok rest₁
    refine (integer_reaches lowered₁ (evo₂.grows.trans grows) stands fits).bind (size_le evo₁) ?_
    rintro b goes stands₁ ⟨fits₁, value⟩
    rw [← symbols] at fits₁ ⊢
    exact binary_reaches inv₁ isOpen₁ rest₁ grows stands₁ fits₁ (gives.goes operand goes) value result

theorem applyUnary_reaches {op : UnaryOp} (inv : Inv c avail σ) (isOpen : σ.frame.isOpen = true)
    (operand : Operand avail σ v .i32) (lowered : Lower.applyUnary op v σ = .ok u σ')
    (grows : σ'.program.Grows l.program) (stands : Stands l.program σ a.here)
    (fits : K.Fits σ.symbols s a) (gives : Gives l v x a) (ran : unary op x = some r) :
    Reaches l q callers σ a σ' fun b => K.Fits σ.symbols s b ∧ Gives l u r b := by
  cases op with
  | minus =>
    cases ran
    exact nought_reaches (g := fun z => (z, v)) inv isOpen operand
      (.inl ⟨fun _ => rfl, by simp [Koopa.Op.eval]⟩) lowered grows stands fits gives
  | not =>
    cases ran
    exact nought_reaches (g := fun z => (v, z)) inv isOpen operand
      (.inr ⟨fun _ => rfl, by simp [Koopa.Op.eval, truth]⟩) lowered grows stands fits gives
  | plus =>
    cases lowered
    cases ran
    exact .refl stands ⟨fits, gives⟩
  | other n => cases ran

/-- What a binary operator does: both operands, from left to right, and then the operation. -/
def Both (op : BinaryOp) (left right : S → Int32 → S → Prop) (s : S) (r : Int32) (s' : S) : Prop :=
  ∃ x s₁ y, left s x s₁ ∧ right s₁ y s' ∧ binary op x y = some r

theorem applyBinary_simulates {span : Span} {op : BinaryOp} {left right : Lower ValueId}
    {runLeft runRight : S → Int32 → S → Prop} (computesLeft : ∀ {c}, Computes c left)
    (computesRight : ∀ {c}, Computes c right) (simLeft : Simulates K left runLeft (Gives l))
    (simRight : Simulates K right runRight (Gives l)) :
    Simulates K (Lower.applyBinary span op left right) (Both op runLeft runRight) (Gives l) := by
  rintro c avail σ σ' u callers s r s' a inv isOpen lowered grows stands fits
    ⟨x, s₁, y, ran₁, ran₂, result⟩
  obtain ⟨v, σ₁, lowered₁, rest₁⟩ := bind_eq_ok.mp lowered
  obtain ⟨w, σ₂, lowered₂, rest₂⟩ := bind_eq_ok.mp rest₁
  obtain ⟨avail₁, inv₁, evo₁, ok₁⟩ := (computesLeft.runs inv).ok lowered₁
  obtain ⟨avail₂, inv₂, evo₂, ok₂⟩ := (computesRight.runs inv₁).ok lowered₂
  have isOpen₁ := evo₁.keeps.2.trans isOpen
  cases inst : Lower.opOf? op with
  | none =>
    rw [inst] at rest₂
    cases rest₂
  | some op' =>
    rw [inst] at rest₂
    obtain ⟨_, _, evo₃, _⟩ := (Lower.binary_runs (k := .expr) inv₂ op' (ok₁.evo evo₂) ok₂).ok rest₂
    have grows₂ := evo₃.grows.trans grows
    refine (simLeft inv isOpen lowered₁ (evo₂.grows.trans grows₂) stands fits ran₁).bind
      (size_le evo₁) ?_
    rintro b₁ goes₁ stands₁ ⟨fits₁, first⟩
    rw [← evo₁.keeps.1] at fits₁
    refine (simRight inv₁ isOpen₁ lowered₂ grows₂ stands₁ fits₁ ran₂).bind (size_le evo₂) ?_
    rintro b₂ goes₂ stands₂ ⟨fits₂, second⟩
    rw [← evo₂.keeps.1] at fits₂
    rw [← evo₁.keeps.1, ← evo₂.keeps.1]
    exact binary_reaches inv₂ (evo₂.keeps.2.trans isOpen₁) rest₂ grows stands₂ fits₂
      (first.goes ok₁ goes₂) second (opOf?_eval inst result)

end Operators

/-! ## Places -/

/-- What a place of lowering denotes: a constant integer, storage with an address, or an array
parameter, whose slot holds a pointer. -/
inductive Denotes (l : Loaded W) (p : Lower.Place) (b : Point W) : Place → Prop
  | number {v : Const.Value} {slot : Option ValueId} : p.addr = none →
      p.symbol.meaning = .constant v slot → v.dims = [] →
      Denotes l p b (.storage [] ⟨.table v.data, 0⟩)
  | storage {addr : ValueId} {ds : List Int} {x : Pointer} {y : Val} : p.addr = some addr →
      p.type = .arrayOf ds → b.operand l addr = some y → Points b.known b.memory x y →
      Denotes l p b (.storage ds x)
  | param {addr : ValueId} {ds : List Int} {o : Nat} {x : Pointer} {y : Val} :
      p.addr = some addr → p.type = .pointer ds → b.operand l addr = some (.ptr o 0) →
      o ∉ b.known → b.memory[o]? = some [some y] → Points b.known b.memory x y →
      Denotes l p b (.param ds x)

section Places

variable {p p' : Lower.Place} {P P' : Place} {u v : ValueId} {i r : Int32}

/-- The address of a place has been made. -/
theorem address_le_size (ok : PlaceOk avail σ p) {addr : ValueId} (found : p.addr = some addr) :
    addr ≤ size σ := by
  unfold PlaceOk at ok
  rw [found] at ok
  exact le_size ok.2

theorem Denotes.goes (denotes : Denotes l p a P) (ok : PlaceOk avail σ p)
    (goes : Goes l q callers (size σ) a.memory.length a b) : Denotes l p b P := by
  cases denotes with
  | number noAddr meaning dims => exact .number noAddr meaning dims
  | storage addr type value points =>
    refine .storage addr type ?_ (points.later goes.later)
    rw [goes.operand (address_le_size ok addr)]
    exact value
  | param addr type value unknown here points =>
    obtain ⟨unknown', here'⟩ := goes.later.object unknown here
    refine .param addr type ?_ unknown' here' (points.later goes.later)
    rw [goes.operand (address_le_size ok addr)]
    exact value

theorem arrayOf_dims {t : Ty} (solid : t.Solid) (object : t.IsObject) : t = .arrayOf t.dims := by
  cases t with
  | int => rfl
  | array ds =>
    cases ds with
    | nil => exact absurd rfl solid.1
    | cons d ds => rfl
  | void | pointer => cases object

/-- A place starts where its symbol is. -/
theorem startPlace_eq_ok {e : Expr} (inv : Inv c avail σ)
    (lowered : Lower.startPlace e σ = .ok p σ') : σ' = σ ∧ p.addr = p.symbol.slot? ∧
      p.type = p.symbol.type ∧ p.symbol.isFunction = false ∧
      ∃ named, e.place? = some named ∧ σ.symbols.find? named.name = some p.symbol := by
  obtain ⟨⟨span, named⟩, σ₁, lowered₁, rest₁⟩ := bind_eq_ok.mp lowered
  obtain ⟨_, -, -, rfl, -, -, isPlace⟩ := (Lower.asPlace_runs (k := .expr) inv e _).ok lowered₁
  obtain ⟨s, σ₂, lowered₂, rest₂⟩ := bind_eq_ok.mp rest₁
  obtain ⟨_, -, -, rfl, -, found, notFn⟩ :=
    (Lower.findObject_runs (k := .expr) inv named.name named.nameSpan).ok lowered₂
  have ok := inv.symbol found
  unfold Symbol.Ok at ok
  cases meaning : s.meaning with
  | constant v slot =>
    rw [meaning] at ok
    obtain ⟨solid, object, dims, -, number, -⟩ := ok
    simp only [meaning] at rest₂
    split at rest₂
    · rename_i scalar
      split at rest₂
      · cases rest₂
        have int : s.type = .int := by
          rw [Const.Value.isScalar, dims, List.isEmpty_iff] at scalar
          rw [arrayOf_dims solid object, scalar]
          rfl
        exact ⟨rfl, by rw [Symbol.slot?, meaning]; exact (number int).symm, rfl, notFn, named,
          isPlace, found⟩
      · cases rest₂
    · cases rest₂
      exact ⟨rfl, by rw [Symbol.slot?, meaning], rfl, notFn, named, isPlace, found⟩
  | «variable» slot =>
    simp only [meaning] at rest₂
    cases rest₂
    exact ⟨rfl, rfl, rfl, notFn, named, isPlace, found⟩
  | function fn params defined =>
    rw [Symbol.isFunction, meaning] at notFn
    cases notFn

/-- A place starts with what its name is bound to. -/
theorem startPlace_denotes {e : Expr} {B : Binding} {name : String} (inv : Inv c avail σ)
    (lowered : Lower.startPlace e σ = .ok p σ')
    (bound : Bound l a.known a.memory a.here.regs name p.symbol B) :
    ∃ P, Place.ofBinding B = some P ∧ Denotes l p a P := by
  obtain ⟨-, addr, type, notFn, named, -, found⟩ := startPlace_eq_ok inv lowered
  have ok := inv.symbol found
  unfold Symbol.Ok at ok
  unfold Symbol.slot? at addr
  cases bound with
  | constant meaning bounds length table =>
    rename_i v slot
    rw [meaning] at ok addr
    obtain ⟨solid, object, dims, -, -, array⟩ := ok
    refine ⟨_, rfl, ?_⟩
    cases slot with
    | none =>
      have int : p.symbol.type = .int := by
        by_contra other
        obtain ⟨g, none, -⟩ := array other
        cases none
      have empty : v.dims = [] := by rw [dims, int]; rfl
      rw [empty]
      exact .number addr meaning empty
    | some g =>
      obtain ⟨y, value, points⟩ := table g rfl
      refine .storage addr ?_ value points
      rw [type, dims]
      exact arrayOf_dims solid object
  | object meaning object value known =>
    rw [meaning] at ok addr
    refine ⟨_, rfl, .storage addr ?_ value (.object known)⟩
    rw [type]
    exact arrayOf_dims ok.1 object
  | array meaning isParam value unknown here points =>
    rw [meaning] at addr
    exact ⟨_, rfl, .param addr (type.trans isParam) value unknown here points⟩
  | function meaning =>
    rw [Symbol.isFunction, meaning] at notFn
    cases notFn

/-- The number of cells of an array is the product of its bounds. -/
theorem cells_grid {ds : List Int} (bounds : Bounds ds) :
    ((Koopa.Ty.grid ds).cells : Int) = ds.prod := by
  induction ds with
  | nil => rfl
  | cons d ds ih =>
    obtain ⟨⟨positive, -⟩, rest⟩ := bounds_cons.mp bounds
    rw [Koopa.Ty.grid, Koopa.Ty.cells, Nat.cast_mul, ih rest, Int.toNat_of_nonneg positive.le,
      List.prod_cons]

/-- A subscript leads to the element that it denotes. -/
theorem subscript_reaches {idx : Expr} {lowered : Lower ValueId} {run : S → Int32 → S → Prop}
    (computes : ∀ {c}, Computes c lowered) (simulates : Simulates K lowered run (Gives l))
    (inv : Inv c avail σ) (isOpen : σ.frame.isOpen = true) (ok : PlaceOk avail σ p)
    (made : Lower.subscript p idx lowered σ = .ok p' σ') (grows : σ'.program.Grows l.program)
    (stands : Stands l.program σ a.here) (fits : K.Fits σ.symbols s a) (denotes : Denotes l p a P)
    (ran : run s i s') (sub : P.subscript i.toInt = some P') :
    Reaches l q callers σ a σ' fun b => K.Fits σ.symbols s' b ∧ Denotes l p' b P' := by
  unfold Lower.subscript at made
  cases denotes with
  | number => cases sub
  | storage addr type value points =>
    rename_i address ds x y
    cases ds with
    | nil => cases sub
    | cons d ds =>
      have type : p.type = .array (d :: ds) := type
      unfold PlaceOk at ok
      rw [addr, type] at ok
      obtain ⟨⟨-, bounds⟩, base⟩ := ok
      simp only [type, Lower.Place.address, addr, Option.getD_some, pure_bind] at made
      obtain ⟨j, σ₁, lowered₁, rest₁⟩ := bind_eq_ok.mp made
      obtain ⟨addr', σ₂, lowered₂, rest₂⟩ := bind_eq_ok.mp rest₁
      cases rest₂
      obtain ⟨avail₁, inv₁, evo₁, jOk⟩ := (computes.runs inv).ok lowered₁
      obtain ⟨avail₂, inv₂, evo₂, -⟩ :=
        (Lower.getElemPtr_runs (k := .expr) inv₁ (base.evo evo₁) jOk).ok lowered₂
      unfold Place.subscript at sub
      simp only at sub
      split at sub
      · rename_i range
        cases sub
        obtain ⟨o, rfl⟩ := points.ptr
        refine (simulates inv isOpen lowered₁ (evo₂.grows.trans grows) stands fits ran).bind
          (size_le evo₁) ?_
        rintro b₁ goes₁ stands₁ ⟨fits₁, index⟩
        rw [← evo₁.keeps.1] at fits₁ ⊢
        have value₁ := (goes₁.operand (le_size base)).trans value
        obtain ⟨b₂, moves, result⟩ := getElemPtr_moves inv₁ (evo₁.keeps.2.trans isOpen)
          (base.evo evo₁) jOk lowered₂ grows stands₁ value₁ index (by omega)
        refine moves.reaches inv₁ fits₁ (.storage rfl rfl result ?_)
        rw [cells_grid (bounds_cons.mp bounds).2, moves.known, moves.memory]
        exact (points.later goes₁.later).move _
      · cases sub
  | param addr type value unknown here points =>
    rename_i address ds o x y
    cases sub
    unfold PlaceOk at ok
    rw [addr, type] at ok
    obtain ⟨bounds, slot⟩ := ok
    simp only [type, Lower.Place.address, addr, Option.getD_some, pure_bind] at made
    obtain ⟨base, σ₁, lowered₁, rest₁⟩ := bind_eq_ok.mp made
    obtain ⟨j, σ₂, lowered₂, rest₂⟩ := bind_eq_ok.mp rest₁
    obtain ⟨addr', σ₃, lowered₃, rest₃⟩ := bind_eq_ok.mp rest₂
    cases rest₃
    obtain ⟨avail₁, inv₁, evo₁, baseOk⟩ :=
      (Lower.load_runs (k := .expr) inv slot (by simp [Ty.koopa])).ok lowered₁
    obtain ⟨avail₂, inv₂, evo₂, jOk⟩ := (computes.runs inv₁).ok lowered₂
    obtain ⟨avail₃, inv₃, evo₃, -⟩ :=
      (Lower.getPtr_runs (k := .expr) inv₂ (baseOk.evo evo₂) jOk).ok lowered₃
    have grows₂ := evo₃.grows.trans grows
    have isOpen₁ := evo₁.keeps.2.trans isOpen
    have read : a.memory.read o 0 = some y :=
      Memory.read_eq_some.mpr ⟨_, here, Int.le_refl 0, rfl⟩
    obtain ⟨o', rfl⟩ := points.ptr
    obtain ⟨b₁, moves₁, loaded⟩ :=
      load_moves inv isOpen slot lowered₁ (evo₂.grows.trans grows₂) stands value read
    refine (moves₁.reaches (Q := fun b => b.operand l base = _) inv fits loaded).bind
      (size_le evo₁) ?_
    rintro b₁ goes₁ stands₁ ⟨fits₁, loaded⟩
    rw [← evo₁.keeps.1] at fits₁ ⊢
    refine (simulates inv₁ isOpen₁ lowered₂ grows₂ stands₁ fits₁ ran).bind (size_le evo₂) ?_
    rintro b₂ goes₂ stands₂ ⟨fits₂, index⟩
    rw [← evo₂.keeps.1] at fits₂ ⊢
    have value₂ := (goes₂.operand (le_size baseOk)).trans loaded
    obtain ⟨b₃, moves, result⟩ := getPtr_moves inv₂ (evo₂.keeps.2.trans isOpen₁)
      (baseOk.evo evo₂) lowered₃ grows stands₂ value₂ index
    refine moves.reaches inv₂ fits₂ (.storage rfl rfl result ?_)
    rw [cells_grid bounds, moves.known, moves.memory]
    exact ((points.later goes₁.later).later goes₂.later).move _

/-- The integer at a place is read. -/
theorem read_reaches (inv : Inv c avail σ) (isOpen : σ.frame.isOpen = true)
    (ok : PlaceOk avail σ p) (lowered : p.read σ = .ok u σ') (grows : σ'.program.Grows l.program)
    (stands : Stands l.program σ a.here) (fits : K.Fits σ.symbols s a) (denotes : Denotes l p a P)
    (read : P.read (K.memory s) = some r) :
    Reaches l q callers σ a σ' fun b => K.Fits σ.symbols s b ∧ Gives l u r b := by
  unfold Lower.Place.read at lowered
  unfold PlaceOk at ok
  cases denotes with
  | number addr meaning dims =>
    rename_i v slot
    simp only [addr, meaning] at lowered
    have head : v.data.head? = some r := by
      rw [List.head?_eq_getElem?]
      exact read
    have item : v.item = .ok r := by simp [Const.Value.item, Const.Value.isScalar, dims, head]; rfl
    rw [item] at lowered
    exact integer_reaches lowered grows stands fits
  | storage addr type value points =>
    rename_i address ds x y
    cases ds with
    | cons => cases read
    | nil =>
      rw [addr, type] at ok
      simp only [addr, type] at lowered
      rw [if_pos (show (Ty.arrayOf []).isScalar = true from rfl)] at lowered
      obtain ⟨o, rfl⟩ := points.ptr
      have found := points.read (K.holds fits) read
      rw [Int.add_zero] at found
      obtain ⟨b, moves, loaded⟩ :=
        load_moves inv isOpen ok.2 lowered grows stands value found
      exact moves.reaches inv fits loaded
  | param => cases read

end Places

/-! ## Slots -/

section Slots

variable {slot u v w : ValueId} {L : Nat} {cells : List (Option Val)}

/-- A slot of the program, and what it holds. The unit does not know it. -/
structure Slot (l : Loaded W) (slot : ValueId) (L : Nat) (cells : List (Option Val)) (b : Point W) :
    Prop where
  address : b.operand l slot = some (.ptr L 0)
  unknown : L ∉ b.known
  here : b.memory[L]? = some cells

theorem Slot.goes (holds : Slot l slot L cells a) {t : Koopa.Ty} (operand : Operand avail σ slot t)
    (goes : Goes l q callers (size σ) a.memory.length a b) : Slot l slot L cells b := by
  obtain ⟨unknown, here⟩ := goes.later.object holds.unknown holds.here
  exact ⟨(goes.operand (le_size operand)).trans holds.address, unknown, here⟩

/-- Writing to the slot changes nothing that the unit knows. -/
theorem Slot.spares (holds : Slot l slot L cells a)
    (others : ∀ o, o ≠ L → b.memory[o]? = a.memory[o]?) :
    ∀ o ∈ a.known, b.memory[o]? = a.memory[o]? := by
  intro o mem
  refine others o ?_
  rintro rfl
  exact holds.unknown mem

theorem Slot.lands (holds : Slot l slot L cells a) {t : Koopa.Ty} (operand : Operand avail σ slot t)
    {f : FnId} {target : BlockId} {limit : Nat}
    (lands : Lands l q callers (size σ) limit a f target b) : Slot l slot L cells b where
  address := (lands.goes.operand (le_size operand)).trans holds.address
  unknown := by
    rw [lands.known]
    exact holds.unknown
  here := by
    rw [lands.memory]
    exact holds.here

/-- A new slot holds nothing yet. -/
theorem alloc_reaches {t : Koopa.Ty} (inv : Inv c avail σ) (isOpen : σ.frame.isOpen = true)
    (lowered : Lower.emitNew (·.alloc · t) σ = .ok slot σ') (grows : σ'.program.Grows l.program)
    (stands : Stands l.program σ a.here) (fits : K.Fits σ.symbols s a) :
    Reaches l q callers σ a σ' fun b => K.Fits σ.symbols s b ∧
      Slot l slot a.memory.length (List.replicate t.cells none) b := by
  obtain ⟨b, moves, address⟩ : ∃ b, Moves l q callers σ a.memory.length a σ' _ b ∧ _ :=
    alloc_moves inv isOpen lowered grows stands (Nat.le_refl _)
  have below : ∀ o ∈ a.known, o < a.memory.length := fun o mem => (K.holds fits).inside mem
  refine ⟨b, moves.goes, moves.stands, ?_, address, ?_, ?_⟩
  · refine K.rebase inv fits moves.goes fits moves.known (fun o mem => ?_) moves.world
    rw [moves.memory, List.getElem?_append_left (below o mem)]
  · rw [moves.known]
    exact fun mem => Nat.lt_irrefl _ (below _ mem)
  · rw [moves.memory, List.getElem?_append_right (Nat.le_refl _), Nat.sub_self]
    rfl

/-- A store to a slot leaves everything alone that the unit knows. -/
theorem Slot.store {ptr : ValueId} {t t' : Koopa.Ty} {i : Int} {y : Val}
    (holds : Slot l slot L cells a) (inv : Inv c avail σ) (isOpen : σ.frame.isOpen = true)
    (slotOk : Operand avail σ slot t') (ptrOk : Operand avail σ ptr (.pointer t))
    (lowered : Lower.tryEmitNew (·.store · v ptr) σ = .ok w σ')
    (grows : σ'.program.Grows l.program) (stands : Stands l.program σ a.here)
    (address : a.operand l ptr = some (.ptr L i)) (range : 0 ≤ i ∧ i < cells.length)
    (value : a.operand l v = some y) :
    ∃ b, Goes l q callers (size σ) L a b ∧ Stands l.program σ' b.here ∧
      Slot l slot L (cells.set i.toNat (some y)) b ∧ b.known = a.known ∧ b.world = a.world ∧
      ∀ o, o ≠ L → b.memory[o]? = a.memory[o]? := by
  have wrote : a.memory.write L i y = some (a.memory.set L (cells.set i.toNat (some y))) :=
    Memory.write_eq_some.mpr ⟨_, holds.here, range.1, range.2, rfl⟩
  obtain ⟨b, moves⟩ : ∃ b, Moves l q callers σ L a σ' _ b := store_moves inv isOpen ptrOk lowered
    grows stands address value wrote (.inr (Nat.le_refl L))
  refine ⟨b, moves.goes, moves.stands,
    ⟨(moves.goes.operand (le_size slotOk)).trans holds.address, ?_, ?_⟩, moves.known, moves.world,
    fun o other => ?_⟩
  · rw [moves.known]
    exact holds.unknown
  · rw [moves.memory]
    exact List.getElem?_set_self (List.getElem?_eq_some_iff.mp holds.here).1
  · rw [moves.memory]
    exact List.getElem?_set_ne (Ne.symm other)

end Slots

/-! ## Logical operators -/

section Logical

variable {u v w slot : ValueId} {x r n : Int32} {L : Nat} {rhs join : BlockId}

/-- What a logical operator does: the left operand, and the right one only if the left one does not
decide. -/
def Logical (isOr : Bool) (left right : S → Int32 → S → Prop) (s : S) (r : Int32) (s' : S) : Prop :=
  ∃ x s₁, left s x s₁ ∧ ((x != 0) = isOr ∧ r = truth isOr ∧ s' = s₁ ∨
    (x != 0) ≠ isOr ∧ ∃ y, right s₁ y s' ∧ r = truth (y != 0))

/-- What the slot of a logical operator holds. -/
abbrev Flag (l : Loaded W) (slot : ValueId) (L : Nat) (n : Int32) (b : Point W) : Prop :=
  Slot l slot L [some (.int n)] b

/-- The slot starts with the result that the left operand can decide. -/
theorem preset_reaches {σ₁ σ₂ : Lower.State} {short : ValueId} (inv : Inv c avail σ)
    (isOpen : σ.frame.isOpen = true) (lowered₁ : Lower.emitNew (·.alloc · .i32) σ = .ok slot σ₁)
    (lowered₂ : Lower.integer n σ₁ = .ok short σ₂)
    (lowered₃ : Lower.tryEmitNew (·.store · short slot) σ₂ = .ok w σ')
    (grows : σ'.program.Grows l.program) (stands : Stands l.program σ a.here)
    (fits : K.Fits σ.symbols s a) : Reaches l q callers σ a σ' fun b =>
      K.Fits σ.symbols s b ∧ Flag l slot a.memory.length n b := by
  obtain ⟨avail₁, inv₁, evo₁, placed⟩ := (Lower.alloc_runs (k := .expr) inv .i32).ok lowered₁
  have slotOk : Operand avail₁ σ₁ slot (.pointer .i32) := placed.operand (by simp)
  obtain ⟨avail₂, inv₂, evo₂, shortOk⟩ := (Lower.integer_runs (k := .expr) inv₁ n).ok lowered₂
  have slotOk₂ := slotOk.evo evo₂
  obtain ⟨avail₃, inv₃, evo₃, -⟩ := (Lower.store_runs (k := .expr) inv₂ shortOk slotOk₂).ok lowered₃
  have isOpen₁ := evo₁.keeps.2.trans isOpen
  have grows₂ := evo₃.grows.trans grows
  obtain ⟨b₁, goes₁, stands₁, fits₁, holds₁⟩ : Reaches l q callers σ a σ₁ _ :=
    alloc_reaches inv isOpen lowered₁ (evo₂.grows.trans grows₂) stands fits
  obtain ⟨stands₂, value⟩ := integer_stays lowered₂ grows₂ stands₁
  obtain ⟨b₂, goes₂, stands₃, holds₂, known, world, memory⟩ := holds₁.store (q := q) inv₂
    (evo₂.keeps.2.trans isOpen₁) slotOk₂ slotOk₂ lowered₃ grows stands₂ holds₁.address
    ⟨Int.le_refl 0, by simp [Koopa.Ty.cells]⟩ value
  have goes := goes₁.trans (goes₂.mono (Nat.le_trans (size_le evo₁) (size_le evo₂)) (Nat.le_refl _))
  exact ⟨b₂, goes, stands₃, K.rebase inv fits goes fits₁ known (holds₁.spares memory) world, holds₂⟩

/-- At the join the slot is read. What the unit knows is as at an earlier point `d`. -/
theorem join_reaches {σ₁ : Lower.State} {d : Point W} {avail₁ : Avail} {f : FnId}
    (inv : Inv c avail σ) (fits : K.Fits σ.symbols s a)
    (goes : Goes l q callers (size σ) a.memory.length a b)
    (starts : Starts l.program f join b.here) (holds : Flag l slot L r b)
    (inv₁ : Inv c avail₁ σ₁) (isOpen₁ : σ₁.frame.isOpen = true) (le : size σ ≤ size σ₁)
    (fn : σ₁.frame.fn = f) (block : σ₁.frame.block = join) (empty : σ₁.insts = [])
    (slotOk : Operand avail₁ σ₁ slot (.pointer .i32))
    (lowered : Lower.tryEmitNew (·.load · slot) σ₁ = .ok u σ')
    (grows : σ'.program.Grows l.program) (fits' : K.Fits σ.symbols s' d) (known : b.known = d.known)
    (memory : ∀ o ∈ d.known, b.memory[o]? = d.memory[o]?) (world : b.world = d.world) :
    Reaches l q callers σ a σ' fun b => K.Fits σ.symbols s' b ∧ Gives l u r b := by
  have read : b.memory.read L 0 = some (.int r) :=
    Memory.read_eq_some.mpr ⟨_, holds.here, Int.le_refl 0, rfl⟩
  obtain ⟨b', moves, loaded⟩ : ∃ b', Moves l q callers σ₁ b.memory.length b σ' _ b' ∧ _ :=
    load_moves inv₁ isOpen₁ slotOk lowered grows (starts.stands fn block empty) holds.address read
  have goes' := goes.trans (moves.goes.mono le goes.later.grows)
  refine ⟨b', goes', moves.stands, ?_, loaded⟩
  refine K.rebase inv fits goes' fits' (moves.known.trans known) (fun o mem => ?_)
    (moves.world.trans world)
  rw [moves.memory]
  exact memory o mem

/-- The condition under which the right operand is needed. -/
theorem undecided_eval (isOr : Bool) (x : Int32) : (if isOr then Koopa.Op.eq else .ne).eval x 0 =
    some (truth ((x != 0) != isOr)) := by
  cases isOr <;> simp [Koopa.Op.eval, truth, bne]

theorem truth_ne_zero (b : Bool) : (truth b != 0) = b := by cases b <;> rfl

section Halves

variable {isOr : Bool} {left right : Lower ValueId} {runLeft runRight : S → Int32 → S → Prop}
  {cond first second norm : ValueId} {σ₀ σ₁ σ₂ σ₃ σ₄ : Lower.State}

/-- Up to its branch, a logical operator computes its left operand and whether the right one is
needed. -/
theorem decide_reaches (computes : ∀ {c}, Computes c left)
    (simulates : Simulates K left runLeft (Gives l)) (inv : Inv c avail σ)
    (isOpen : σ.frame.isOpen = true) (lowered₁ : Lower.emitNew (·.alloc · .i32) σ = .ok slot σ₁)
    (lowered₂ : Lower.integer (truth isOr) σ₁ = .ok v σ₂)
    (lowered₃ : Lower.tryEmitNew (·.store · v slot) σ₂ = .ok w σ₃)
    (lowered₄ : left σ₃ = .ok first σ₄)
    (lowered₅ : (do
      let nought ← Lower.integer 0
      Lower.emitNew (·.binary · (if isOr then .eq else .ne) first nought)) σ₄ = .ok cond σ₀) :
    ∃ avail₀, Inv c avail₀ σ₀ ∧ Evo .expr avail σ avail₀ σ₀ ∧
      Operand avail₀ σ₀ slot (.pointer .i32) ∧ Operand avail₀ σ₀ cond .i32 ∧
      ∀ callers {s s₁ a x}, σ₀.program.Grows l.program → Stands l.program σ a.here →
        K.Fits σ.symbols s a → runLeft s x s₁ → Reaches l q callers σ a σ₀ fun b =>
          K.Fits σ.symbols s₁ b ∧ Flag l slot a.memory.length (truth isOr) b ∧
            Gives l cond (truth ((x != 0) != isOr)) b := by
  obtain ⟨avail₁, inv₁, evo₁, placed⟩ := (Lower.alloc_runs (k := .expr) inv .i32).ok lowered₁
  have slotOk : Operand avail₁ σ₁ slot (.pointer .i32) := placed.operand (by simp)
  obtain ⟨avail₂, inv₂, evo₂, shortOk⟩ := (Lower.integer_runs (k := .expr) inv₁ _).ok lowered₂
  have slotOk := slotOk.evo evo₂
  obtain ⟨avail₃, inv₃, evo₃, -⟩ := (Lower.store_runs (k := .expr) inv₂ shortOk slotOk).ok lowered₃
  have slotOk := slotOk.evo evo₃
  have since₃ := (evo₁.trans evo₂ inv.laid).trans evo₃ inv.laid
  have isOpen₃ := since₃.keeps.2.trans isOpen
  obtain ⟨avail₄, inv₄, evo₄, firstOk⟩ := (computes.runs inv₃).ok lowered₄
  obtain ⟨avail₀, inv₀, evo₀, condOk⟩ :=
    (nought_runs (g := fun z => (first, z)) inv₄ firstOk (.inr fun _ => rfl)).ok lowered₅
  have evo := evo₄.trans evo₀ inv₃.laid
  refine ⟨avail₀, inv₀, since₃.trans evo inv.laid, slotOk.evo evo, condOk, ?_⟩
  intro callers s s₁ a x grows stands fits ran
  refine (preset_reaches inv isOpen lowered₁ lowered₂ lowered₃ (evo.grows.trans grows) stands
    fits).bind (size_le since₃) ?_
  rintro b₃ goes₃ stands₃ ⟨fits₃, holds₃⟩
  rw [← since₃.keeps.1] at fits₃ ⊢
  refine (simulates inv₃ isOpen₃ lowered₄ (evo₀.grows.trans grows) stands₃ fits₃ ran).bind
    (size_le evo₄) ?_
  rintro b₄ goes₄ stands₄ ⟨fits₄, gives⟩
  rw [← evo₄.keeps.1] at fits₄ ⊢
  obtain ⟨b₀, goes₀, stands₀, fits₀, value⟩ := nought_reaches (g := fun z => (first, z)) inv₄
    (evo₄.keeps.2.trans isOpen₃) firstOk (.inr ⟨fun _ => rfl, undecided_eval isOr x⟩) lowered₅ grows
    stands₄ fits₄ gives
  exact ⟨b₀, goes₀, stands₀, fits₀, (holds₃.goes slotOk goes₄).goes (slotOk.evo evo₄) goes₀, value⟩

/-- The right operand is computed, and its truth value is stored in the slot. -/
theorem normalize_reaches (computes : ∀ {c}, Computes c right)
    (simulates : Simulates K right runRight (Gives l)) (inv : Inv c avail σ)
    (isOpen : σ.frame.isOpen = true) (slotOk : Operand avail σ slot (.pointer .i32))
    (lowered₁ : right σ = .ok second σ₁)
    (lowered₂ : (do
      let nought ← Lower.integer 0
      Lower.emitNew (·.binary · .ne second nought)) σ₁ = .ok norm σ₂)
    (lowered₃ : Lower.tryEmitNew (·.store · norm slot) σ₂ = .ok w σ') :
    ∃ avail', Inv c avail' σ' ∧ Evo .expr avail σ avail' σ' ∧
      ∀ callers {s s' a x n L}, σ'.program.Grows l.program → Stands l.program σ a.here →
        K.Fits σ.symbols s a → Flag l slot L n a → runRight s x s' →
        ∃ b d, Goes l q callers (size σ) L a b ∧ Stands l.program σ' b.here ∧
          Flag l slot L (truth (x != 0)) b ∧ K.Fits σ.symbols s' d ∧ b.known = d.known ∧
          (∀ o ∈ d.known, b.memory[o]? = d.memory[o]?) ∧ b.world = d.world := by
  obtain ⟨avail₁, inv₁, evo₁, secondOk⟩ := (computes.runs inv).ok lowered₁
  obtain ⟨avail₂, inv₂, evo₂, normOk⟩ :=
    (nought_runs (g := fun z => (second, z)) inv₁ secondOk (.inr fun _ => rfl)).ok lowered₂
  have since₂ := evo₁.trans evo₂ inv.laid
  obtain ⟨avail₃, inv₃, evo₃, -⟩ :=
    (Lower.store_runs (k := .expr) inv₂ normOk (slotOk.evo since₂)).ok lowered₃
  refine ⟨avail₃, inv₃, since₂.trans evo₃ inv.laid, ?_⟩
  intro callers s s' a x n L grows stands fits holds ran
  have inside : L ≤ a.memory.length :=
    Nat.le_of_lt (List.getElem?_eq_some_iff.mp holds.here).1
  have isOpen₁ := evo₁.keeps.2.trans isOpen
  have grows₂ := evo₃.grows.trans grows
  obtain ⟨b₂, goes₂, stands₂, fits₂, gives⟩ : Reaches l q callers σ a σ₂ fun b =>
      K.Fits σ.symbols s' b ∧ Gives l norm (truth (x != 0)) b := by
    refine (simulates inv isOpen lowered₁ (evo₂.grows.trans grows₂) stands fits ran).bind
      (size_le evo₁) ?_
    rintro b₁ goes₁ stands₁ ⟨fits₁, gives⟩
    rw [← evo₁.keeps.1] at fits₁ ⊢
    exact nought_reaches (g := fun z => (second, z)) inv₁ isOpen₁ secondOk
      (.inr ⟨fun _ => rfl, rfl⟩) lowered₂ grows₂ stands₁ fits₁ gives
  have holds₂ := holds.goes slotOk goes₂
  obtain ⟨b₃, goes₃, stands₃, holds₃, known, world, memory⟩ :=
    holds₂.store (q := q) inv₂ (evo₂.keeps.2.trans isOpen₁) (slotOk.evo since₂)
      (slotOk.evo since₂) lowered₃ grows stands₂ holds₂.address ⟨Int.le_refl 0, by simp⟩ gives
  refine ⟨b₃, b₂, (goes₂.mono (Nat.le_refl _) inside).trans
    (goes₃.mono (size_le since₂) (Nat.le_refl L)), stands₃, holds₃, fits₂, known,
    holds₂.spares memory, world⟩

end Halves

/-- A branch leads to one of two blocks that were made just now. -/
theorem waiting_lands {cond : ValueId} {avail' : Avail} {inside inside' : Set ValueId} {limit : Nat}
    (inv : Inv c avail' σ') (since : Evo .expr avail σ avail' σ') (isOpen : σ.frame.isOpen = true)
    (block : σ'.frame.block = σ.frame.block) (insts : σ'.insts = σ.insts)
    (first : Pending avail' σ' inside rhs) (last : Pending avail' σ' inside' join)
    (grows' : σ'.program.Grows l.program)
    (grows : (σ'.emitted .unit (.branch cond rhs join)).program.Grows l.program)
    (stands : Stands l.program σ a.here) (value : Gives l cond x a) :
    ∃ b, Lands l q callers (size σ) limit a σ.frame.fn (if x != 0 then rhs else join) b := by
  have laid : ∀ {b inside}, Pending avail' σ' inside b → Laid l.program σ'.frame.fn b := by
    intro b inside pending
    obtain ⟨d, found, here⟩ := pending.block
    exact Laid.grows ⟨d, [], found, here⟩ grows'
  obtain ⟨b, lands⟩ : ∃ b, Lands l q callers (size σ') limit a σ'.frame.fn
      (if x != 0 then rhs else join) b := by
    refine branch_lands inv (since.keeps.2.trans isOpen) grows
      (stands.congr ⟨since.fn, block⟩ insts) value ?_
    split
    · exact laid first
    · exact laid last
  rw [since.fn] at lands
  exact ⟨b, lands.goes.mono (size_le since) (Nat.le_refl _), lands.starts, lands.known, lands.memory,
    lands.world⟩

theorem shortCircuit_simulates {isOr : Bool} {left right : Lower ValueId}
    {runLeft runRight : S → Int32 → S → Prop} (computesLeft : ∀ {c}, Computes c left)
    (computesRight : ∀ {c}, Computes c right) (simLeft : Simulates K left runLeft (Gives l))
    (simRight : Simulates K right runRight (Gives l)) :
    Simulates K (Lower.shortCircuit isOr left right) (Logical isOr runLeft runRight) (Gives l) := by
  rintro c avail σ σ' u callers s r s' a inv isOpen lowered grows stands fits ⟨x, s₁, ran₁, result⟩
  obtain ⟨slot, σ₁, lowered₁, rest₁⟩ := bind_eq_ok.mp lowered
  obtain ⟨short, σ₂, lowered₂, rest₂⟩ := bind_eq_ok.mp rest₁
  obtain ⟨_, σ₃, lowered₃, rest₃⟩ := bind_eq_ok.mp rest₂
  obtain ⟨first, σ₄, lowered₄, rest₄⟩ := bind_eq_ok.mp rest₃
  obtain ⟨nought, σ₅, lowered₅, rest₅⟩ := bind_eq_ok.mp rest₄
  obtain ⟨cond, σ₀, lowered₆, rest₆⟩ := bind_eq_ok.mp rest₅
  obtain ⟨rhs, σ₇, lowered₇, rest₇⟩ := bind_eq_ok.mp rest₆
  obtain ⟨join, σ₈, lowered₈, rest₈⟩ := bind_eq_ok.mp rest₇
  obtain ⟨avail₀, inv₀, since₀, slotOk, condOk, decides⟩ := decide_reaches computesLeft simLeft inv
    isOpen lowered₁ lowered₂ lowered₃ lowered₄ (bind_eq_ok.mpr ⟨nought, σ₅, lowered₅, lowered₆⟩)
  have open₀ := since₀.keeps.2.trans isOpen
  obtain ⟨avail₈, fork⟩ := Lower.Fork.of_newBlocks inv₀ lowered₇ lowered₈
  have open₈ := fork.since.keeps.2.trans open₀
  -- Lowering goes on in the block of the right operand.
  have condOk₈ := condOk.evo fork.since
  obtain ⟨inv₉, since₉, waiting⟩ := fork.taken inv₀ condOk₈
  obtain ⟨_, _, made₈, rest₈⟩ := bind_eq_ok.mp rest₈
  obtain ⟨_, _, sealed₈, rest₉⟩ := bind_eq_ok.mp rest₈
  obtain rfl := Lower.sealTo_eq_ok fork.inv rfl made₈ sealed₈
  obtain ⟨second, σ₁₀, lowered₁₀, rest₁₀⟩ := bind_eq_ok.mp rest₉
  obtain ⟨nought', σ₁₁, lowered₁₁, rest₁₁⟩ := bind_eq_ok.mp rest₁₀
  obtain ⟨norm, σ₁₂, lowered₁₂, rest₁₂⟩ := bind_eq_ok.mp rest₁₁
  obtain ⟨_, σ₁₃, lowered₁₃, rest₁₃⟩ := bind_eq_ok.mp rest₁₂
  obtain ⟨avail₁₃, inv₁₃, evo₁₃, normalizes⟩ := normalize_reaches computesRight simRight inv₉ open₈
    (slotOk.evo since₉) lowered₁₀ (bind_eq_ok.mpr ⟨nought', σ₁₁, lowered₁₁, lowered₁₂⟩) lowered₁₃
  have since₁₃ := since₉.trans evo₁₃ inv₀.laid
  have open₁₃ := since₁₃.keeps.2.trans open₀
  have waiting₁₃ := waiting.evo inv₉ evo₁₃
  -- Both ways lead to the join.
  obtain ⟨jump, inv₁₄, since₁₄⟩ := inv₀.joined inv₁₃ since₁₃ waiting₁₃ fork.lastNew
  obtain ⟨_, _, made₁₃, rest₁₃⟩ := bind_eq_ok.mp rest₁₃
  obtain ⟨_, _, sealed₁₃, loaded⟩ := bind_eq_ok.mp rest₁₃
  obtain rfl := Lower.sealTo_eq_ok inv₁₃ rfl made₁₃ sealed₁₃
  have slotOk₁₄ := slotOk.evo since₁₄
  have empty := waiting₁₃.insts_sealed inv₁₃ jump σ₁₃.frame.isOpen
  obtain ⟨_, -, evo₁₅, -⟩ := (Lower.load_runs (k := .expr) inv₁₄ slotOk₁₄ (by simp)).ok loaded
  have grows₁₄ : (σ₁₃.emitted .unit (.jump join)).program.Grows l.program := evo₁₅.grows.trans grows
  have grows₁₃ := (jump.emitted inv₁₃).2.2.trans grows₁₄
  have grows₀ := since₁₃.grows.trans grows₁₃
  obtain ⟨b₀, goes₀, stands₀, fits₀, holds₀, value⟩ := decides callers grows₀ stands fits ran₁
  obtain ⟨-, block, insts⟩ := Lower.newBlocks_insts inv₀ open₀ lowered₇ lowered₈
  have grows₈ := evo₁₃.grows.trans grows₁₃
  obtain ⟨b₉, lands₉⟩ := waiting_lands fork.inv fork.since open₀ block insts fork.first fork.last
    (((fork.branch condOk₈).emitted fork.inv).2.2.trans grows₈) grows₈ stands₀ value
  rw [truth_ne_zero] at lands₉
  have goes₉ := goes₀.trans (lands₉.goes.mono (size_le since₀) (Nat.le_refl _))
  have holds₉ := holds₀.lands slotOk lands₉
  have le : size σ ≤ size (σ₁₃.sealed (.jump join) join σ₁₃.frame.isOpen) :=
    Nat.le_trans (size_le since₀) (size_le since₁₄)
  rcases result with ⟨decided, rfl, rfl⟩ | ⟨undecided, y, ran₂, rfl⟩
  · rw [if_neg (by simp [decided])] at lands₉
    exact join_reaches inv fits goes₉ lands₉.starts holds₉ inv₁₄ open₁₃ le since₁₄.fn rfl empty
      slotOk₁₄ loaded grows fits₀ lands₉.known (fun o _ => by rw [lands₉.memory]) lands₉.world
  · rw [if_pos (by simpa using undecided)] at lands₉
    have fits₉ := K.rebase inv fits goes₉ fits₀ lands₉.known (fun o _ => by rw [lands₉.memory])
      lands₉.world
    have symbols : (σ₈.sealed (.branch cond rhs join) rhs σ₈.frame.isOpen).symbols = σ.symbols :=
      since₉.keeps.1.trans since₀.keeps.1
    have stands₉ : Stands l.program (σ₈.sealed (.branch cond rhs join) rhs σ₈.frame.isOpen) b₉.here :=
      lands₉.starts.stands since₉.fn rfl
        (fork.first.insts_sealed fork.inv (fork.branch condOk₈) σ₈.frame.isOpen)
    rw [← symbols] at fits₉
    obtain ⟨b₁₃, d, goes₁₃, stands₁₃, holds₁₃, fits₁₃, known, memory, world⟩ :=
      normalizes callers grows₁₃ stands₉ fits₉ holds₉ ran₂
    rw [symbols] at fits₁₃
    obtain ⟨e, found, here⟩ := waiting₁₃.block
    obtain ⟨b₁₄, lands₁₄⟩ := jump_lands inv₁₃ open₁₃ grows₁₄ stands₁₃
      (Laid.grows ⟨e, [], found, here⟩ grows₁₃)
    have goes₁₄ := (goes₉.trans (goes₁₃.mono
      (Nat.le_trans (size_le since₀) (size_le since₉)) (Nat.le_refl _))).trans
      (lands₁₄.goes.mono (Nat.le_trans (size_le since₀) (size_le since₁₃)) (Nat.le_refl _))
    refine join_reaches inv fits goes₁₄ lands₁₄.starts
      (holds₁₃.lands (slotOk.evo since₁₃) lands₁₄) inv₁₄ open₁₃ le rfl rfl empty slotOk₁₄ loaded
      grows fits₁₃ (lands₁₄.known.trans known) (fun o mem => ?_) (lands₁₄.world.trans world)
    rw [lands₁₄.memory]
    exact memory o mem

end Logical

end SysY.Meaning

import SysY.Proofs.Meaning.Calls
import SysY.Proofs.Meaning.Table

/-! # The meaning of local definitions

A local variable gets a slot, its initializer is computed and stored there, and then its name is
bound: from then on the slot is an object that the unit knows. A constant needs no instruction; the
table of a constant array is there from the start. -/

namespace SysY.Meaning

open Koopa (Val Activation Config ValueId BlockId FnId Program Avail ValueDef)
open Lower (Inv Operand Evo ElemsOk)

variable {W : Type} {l : Loaded W} {k : Context W} {n m : Nat} {env env' : Env} {q : Prop}
  {callers : List (ValueId × Activation)} {c : Lower.Site} {avail : Avail} {σ σ₁ σ₂ σ' : Lower.State}
  {a b : Point W} {s s' : State W}

/-! ## Elements of arrays -/

section Elements

variable {slot base u v : ValueId} {dims ds : List Int} {L limit : Nat}

theorem Moves.refl (stands : Stands l.program σ a.here) :
    Moves l q callers σ limit a σ a.memory a := ⟨.refl .., stands, rfl, rfl, rfl⟩

theorem Moves.trans {M : Memory Val} {b' : Point W}
    (h : Moves l q callers σ limit a σ₁ a.memory b)
    (h' : Moves l q callers σ₁ limit b σ' M b') (le : size σ ≤ size σ₁) :
    Moves l q callers σ limit a σ' M b' :=
  ⟨h.goes.trans (h'.goes.mono le (Nat.le_refl _)), h'.stands, h'.known.trans h.known, h'.memory,
    h'.world.trans h.world⟩

/-- The address of an element is that of the array, moved on by the number of the element. -/
theorem elementPtr_moves {count index offset : Int} (bounds : Bounds ds) (inv : Inv c avail σ)
    (isOpen : σ.frame.isOpen = true) (baseOk : Operand avail σ base (.pointer (.grid ds)))
    (total : count = ds.prod) (range : 0 ≤ index ∧ index < ds.prod)
    (lowered : Lower.elementPtr base count index ds σ = .ok u σ')
    (grows : σ'.program.Grows l.program) (stands : Stands l.program σ a.here)
    (address : a.operand l base = some (.ptr L offset)) :
    ∃ b, Moves l q callers σ limit a σ' a.memory b ∧
      b.operand l u = some (.ptr L (offset + index)) := by
  induction ds generalizing σ avail base count index offset a with
  | nil =>
    cases lowered
    rw [List.prod_nil] at range
    obtain rfl : index = 0 := by omega
    exact ⟨a, .refl stands, by rw [Int.add_zero]; exact address⟩
  | cons d ds ih =>
    obtain ⟨⟨positive, small⟩, rest⟩ := bounds_cons.mp bounds
    have product := rest.prod_pos
    have stride : count.tdiv d = ds.prod := by
      rw [total, List.prod_cons, Int.mul_tdiv_cancel_left _ (by omega)]
    -- The subscript is within the bound, so it is a number of 32 bits.
    have quotient : 0 ≤ index.tdiv ds.prod ∧ index.tdiv ds.prod < d := by
      rw [List.prod_cons] at range
      rw [Int.tdiv_eq_ediv_of_nonneg range.1]
      exact ⟨Int.ediv_nonneg range.1 product.le, Int.ediv_lt_of_lt_mul product range.2⟩
    have subscript : (index.tdiv ds.prod).toInt32.toInt = index.tdiv ds.prod := by
      rw [Int.toInt32, Int32.toInt_ofInt_of_le (by omega) (by omega)]
    rw [Lower.elementPtr, stride, if_neg (by omega)] at lowered
    obtain ⟨i, σ₁, lowered₁, rest₁⟩ := bind_eq_ok.mp lowered
    obtain ⟨ptr, σ₂, lowered₂, rest₂⟩ := bind_eq_ok.mp rest₁
    obtain ⟨avail₁, inv₁, evo₁, iOk⟩ := (Lower.integer_runs (k := .expr) inv _).ok lowered₁
    obtain ⟨avail₂, inv₂, evo₂, ptrOk⟩ :=
      (Lower.getElemPtr_runs (k := .expr) inv₁ (baseOk.evo evo₁) iOk).ok lowered₂
    obtain ⟨_, -, evo₃, -⟩ := (Lower.elementPtr_runs inv₂ ptrOk).ok rest₂
    have isOpen₁ := evo₁.keeps.2.trans isOpen
    have grows₂ := evo₃.grows.trans grows
    obtain ⟨stands₁, value⟩ := integer_stays lowered₁ (evo₂.grows.trans grows₂) stands
    obtain ⟨b₂, moves₂, address₂⟩ : ∃ b, Moves l q callers σ₁ limit a σ₂ a.memory b ∧ _ :=
      getElemPtr_moves inv₁ isOpen₁ (baseOk.evo evo₁) iOk lowered₂ grows₂ stands₁ address value
        (by rw [subscript]; omega)
    rw [subscript, cells_grid rest] at address₂
    have within : 0 ≤ index.tmod ds.prod ∧ index.tmod ds.prod < ds.prod :=
      ⟨Int.tmod_nonneg _ range.1, Int.tmod_lt_of_pos _ product⟩
    obtain ⟨b₃, moves₃, address₃⟩ := ih rest inv₂ (evo₂.keeps.2.trans isOpen₁) ptrOk rfl within rest₂
      moves₂.stands address₂
    have whole := Int.tdiv_mul_add_tmod index ds.prod
    refine ⟨b₃, ?_, by rw [address₃]; congr 2; omega⟩
    rw [moves₂.memory] at moves₃
    refine Moves.trans ⟨moves₂.goes.mono (size_le evo₁) (Nat.le_refl _), moves₂.stands, moves₂.known,
      moves₂.memory, moves₂.world⟩ moves₃ (Nat.le_trans (size_le evo₁) (size_le evo₂))

/-- What an element of an initializer is: the operand that was computed for it, or 0. -/
def Filled (l : Loaded W) (b : Point W) (e : Option ValueId) (r : Int32) : Prop :=
  match e with
  | some v => Gives l v r b
  | none => r = 0

theorem filled_goes {limit : Nat} {es : List (Option ValueId)} {data : List Int32}
    (filled : List.Forall₂ (Filled l a) es data) (ok : ElemsOk avail σ es)
    (goes : Goes l q callers (size σ) limit a b) : List.Forall₂ (Filled l b) es data := by
  induction filled with
  | nil => exact .nil
  | @cons e r es data head _ ih =>
    refine .cons ?_ (ih fun v hv => ok v (by simp [hv]))
    cases e with
    | none => exact head
    | some v => exact head.goes (ok v (by simp)) goes

theorem filled_set {es : List (Option ValueId)} {data : List Int32}
    (filled : List.Forall₂ (Filled l b) es data) {r : Int32} (gives : Gives l v r b) (i : Nat) :
    List.Forall₂ (Filled l b) (es.set i (some v)) (data.set i r) := by
  induction filled generalizing i with
  | nil => exact .nil
  | cons head tail ih =>
    cases i with
    | zero => exact .cons gives tail
    | succ i => exact .cons head (ih i)

/-- An element is at hand without an instruction. -/
theorem element_stays {e : Option ValueId} {r : Int32} (inv : Inv c avail σ)
    (ok : ∀ v, e = some v → Operand avail σ v .i32) (lowered : Lower.element e σ = .ok v σ₁) :
    ∃ avail₁, Inv c avail₁ σ₁ ∧ Evo .expr avail σ avail₁ σ₁ ∧ Operand avail₁ σ₁ v .i32 ∧
      ∀ {a : Point W}, σ₁.program.Grows l.program → Stands l.program σ a.here → Filled l a e r →
        Stands l.program σ₁ a.here ∧ Gives l v r a := by
  cases e with
  | some w =>
    cases lowered
    exact ⟨avail, inv, .refl .., ok v rfl, fun _ stands filled => ⟨stands, filled⟩⟩
  | none =>
    obtain ⟨avail₁, inv₁, evo₁, vOk⟩ := (Lower.integer_runs (k := .expr) inv 0).ok lowered
    refine ⟨avail₁, inv₁, evo₁, vOk, fun grows stands filled => ?_⟩
    obtain ⟨stands₁, value⟩ := integer_stays lowered grows stands
    cases filled
    exact ⟨stands₁, value⟩

/-- Elements are stored one after the other. `done` was stored before them. -/
theorem storeElements_goes {es : List (Option ValueId)} {done data : List Int32}
    {rest : List (Option Val)} (bounds : Bounds dims) (small : dims.prod < tooMany)
    (inv : Inv c avail σ) (isOpen : σ.frame.isOpen = true)
    (slotOk : Operand avail σ slot (.pointer (.grid dims))) (ok : ElemsOk avail σ es)
    (lowered : Lower.storeElements slot dims done.length es σ = .ok () σ')
    (grows : σ'.program.Grows l.program) (stands : Stands l.program σ a.here)
    (filled : List.Forall₂ (Filled l a) es data)
    (holds : Slot l slot L (cellsOf (done.map some) ++ rest) a) (length : rest.length = es.length)
    (total : (done.length + es.length : Int) = dims.prod) :
    ∃ b, Goes l q callers (size σ) L a b ∧ Stands l.program σ' b.here ∧
      Slot l slot L (cellsOf ((done ++ data).map some)) b ∧ b.known = a.known ∧ b.world = a.world ∧
      ∀ o, o ≠ L → b.memory[o]? = a.memory[o]? := by
  induction es generalizing σ avail a done data rest with
  | nil =>
    cases filled
    cases lowered
    obtain rfl := List.eq_nil_of_length_eq_zero length
    rw [List.append_nil] at holds ⊢
    exact ⟨a, .refl .., stands, holds, rfl, rfl, fun _ _ => rfl⟩
  | cons e es ih =>
    obtain ⟨r, data, head, tail, rfl⟩ := List.forall₂_cons_left_iff.mp filled
    obtain ⟨x, rest, rfl⟩ := List.exists_cons_of_length_eq_add_one length
    have restOk : ElemsOk avail σ es := fun v hv => ok v (by simp [hv])
    rw [Lower.storeElements_cons] at lowered
    obtain ⟨v, σ₁, lowered₁, rest₁⟩ := bind_eq_ok.mp lowered
    obtain ⟨ptr, σ₂, lowered₂, rest₂⟩ := bind_eq_ok.mp rest₁
    obtain ⟨w, σ₃, lowered₃, rest₃⟩ := bind_eq_ok.mp rest₂
    obtain ⟨avail₁, inv₁, evo₁, vOk, value⟩ :=
      element_stays (l := l) (r := r) inv (by rintro v rfl; exact ok v (by simp)) lowered₁
    obtain ⟨avail₂, inv₂, evo₂, ptrOk⟩ :=
      (Lower.elementPtr_runs inv₁ (slotOk.evo evo₁)).ok lowered₂
    obtain ⟨avail₃, inv₃, evo₃, -⟩ :=
      (Lower.store_runs (k := .expr) inv₂ (vOk.evo evo₂) ptrOk).ok lowered₃
    have since₂ := evo₁.trans evo₂ inv.laid
    have since₃ := since₂.trans evo₃ inv.laid
    obtain ⟨_, -, evo₄, -⟩ := (Lower.storeElements_runs inv₃ (slotOk.evo since₃)
      (restOk.evo since₃)).ok rest₃
    have grows₃ := evo₄.grows.trans grows
    have grows₂ := evo₃.grows.trans grows₃
    obtain ⟨stands₁, gives⟩ := value (evo₂.grows.trans grows₂) stands head
    have isOpen₁ := evo₁.keeps.2.trans isOpen
    have isOpen₂ := evo₂.keeps.2.trans isOpen₁
    rw [List.length_cons, Nat.cast_add, Nat.cast_one] at total
    obtain ⟨b₂, moves₂, address⟩ : ∃ b, Moves l q callers σ₁ L a σ₂ a.memory b ∧ _ :=
      elementPtr_moves bounds inv₁ isOpen₁ (slotOk.evo evo₁) (Const.count_eq bounds small)
        (by omega) lowered₂ grows₂ stands₁ holds.address
    rw [Int.zero_add] at address
    have holds₂ : Slot l slot L (cellsOf (done.map some) ++ x :: rest) b₂ := {
      address := (moves₂.goes.operand (le_size (slotOk.evo evo₁))).trans holds.address
      unknown := by rw [moves₂.known]; exact holds.unknown
      here := by rw [moves₂.memory]; exact holds.here }
    have first : (cellsOf (done.map some)).length = done.length := by simp [cellsOf]
    obtain ⟨b₃, goes₃, stands₃, holds₃, known, world, memory⟩ :
        ∃ b, Goes l q callers (size σ₂) L b₂ b ∧ _ :=
      holds₂.store inv₂ isOpen₂ (slotOk.evo since₂) ptrOk lowered₃ grows₃ moves₂.stands address
        ⟨by omega, by rw [List.length_append, first, List.length_cons]; omega⟩
        (gives.goes vOk moves₂.goes)
    have goes := (moves₂.goes.mono (size_le evo₁) (Nat.le_refl L)).trans
      (goes₃.mono (size_le since₂) (Nat.le_refl L))
    have written : (cellsOf (done.map some) ++ x :: rest).set (done.length : Int).toNat
        (some (.int r)) = cellsOf ((done ++ [r]).map some) ++ rest := by
      rw [Int.toNat_natCast, List.set_append_right _ _ (by omega), first, Nat.sub_self]
      simp [cellsOf]
    rw [written] at holds₃
    have lowered₄ : Lower.storeElements slot dims (done ++ [r]).length es σ₃ = .ok () σ' := by
      rw [List.length_append]
      exact rest₃
    obtain ⟨b₄, goes₄, stands₄, holds₄, known₄, world₄, memory₄⟩ := ih inv₃
      (evo₃.keeps.2.trans isOpen₂) (slotOk.evo since₃) (restOk.evo since₃) lowered₄ stands₃
      (filled_goes tail restOk goes) holds₃ (by simpa using length) (by simp; omega)
    rw [List.append_assoc, List.singleton_append] at holds₄
    refine ⟨b₄, goes.trans (goes₄.mono (size_le since₃) (Nat.le_refl L)), stands₄, holds₄,
      known₄.trans (known.trans moves₂.known), world₄.trans (world.trans moves₂.world), ?_⟩
    intro o other
    rw [memory₄ o other, memory o other, moves₂.memory]

/-- The elements of an initializer are computed in order. -/
theorem storeLayout_reaches (evaluates : Evaluates l k n) {ps : List Const.Placement}
    {out es : List (Option ValueId)} {given data : List Int32}
    (whole : ∀ p ∈ ps, p.value.Whole) (le : m ≤ n) (inv : Inv c avail σ)
    (isOpen : σ.frame.isOpen = true) (ok : ElemsOk avail σ out)
    (lowered : Const.Layout.store (fun e => some <$> Lower.expr e) ps out σ = .ok es σ')
    (grows : σ'.program.Grows l.program) (stands : Stands l.program σ a.here)
    (fits : Matches l σ.symbols env s a) (filled : List.Forall₂ (Filled l a) out given)
    (ran : fill k m env ps given s = some (data, s')) :
    Reaches l False callers σ a σ' fun b => Matches l σ.symbols env s' b ∧
      List.Forall₂ (Filled l b) es data := by
  induction ps generalizing m σ avail a s out given with
  | nil =>
    cases lowered
    cases m with
    | zero => cases ran
    | succ m =>
      rw [fill] at ran
      obtain ⟨rfl, rfl⟩ := pure_eq_some.mp ran
      exact .refl stands ⟨fits, filled⟩
  | cons p ps ih =>
    cases m with
    | zero => cases ran
    | succ m =>
      rw [fill] at ran
      obtain ⟨r, s₁, ran₁, ran₂⟩ := bind_eq_some.mp ran
      rw [Const.Layout.store] at lowered
      simp only [map_eq_pure_bind, bind_assoc, pure_bind] at lowered
      obtain ⟨v, σ₁, lowered₁, rest₁⟩ := bind_eq_ok.mp lowered
      have pWhole := whole p (by simp)
      have restWhole : ∀ p ∈ ps, p.value.Whole := fun q hq => whole q (by simp [hq])
      obtain ⟨avail₁, inv₁, evo₁, vOk⟩ := ((Lower.expr_computes p.value pWhole).runs inv).ok lowered₁
      split at rest₁
      · have ok₁ : ElemsOk avail₁ σ₁ (out.set p.position.toNat (some v)) := by
          intro w hw
          rcases List.mem_or_eq_of_mem_set hw with old | new
          · exact (ok w old).evo evo₁
          · cases new
            exact vOk
        simp only [← map_eq_pure_bind] at rest₁
        obtain ⟨_, -, evo₂, -⟩ := (Lower.storeLayout_runs restWhole inv₁ ok₁).ok rest₁
        refine (evaluates.computed (by omega) pWhole inv isOpen lowered₁ (evo₂.grows.trans grows)
          stands fits ran₁).bind (size_le evo₁) ?_
        rintro b goes stands₁ ⟨fits₁, gives⟩
        rw [← evo₁.keeps.1] at fits₁ ⊢
        exact ih restWhole (by omega) inv₁ (evo₁.keeps.2.trans isOpen) ok₁ rest₁ stands₁ fits₁
          (filled_set (filled_goes filled ok goes) gives _) ran₂
      · cases rest₁

/-- What a brace initializer is made of. -/
theorem flatten_eq_ok {init : Init} {es : List (Option ValueId)} (bounds : Bounds dims)
    (small : dims.prod < tooMany)
    (lowered : Const.flatten none (fun e => some <$> Lower.expr e) dims init σ = .ok es σ') :
    ∃ span is ps, init = .list span is ∧ places dims 0 0 is = some ps ∧
      (init.Whole → ∀ p ∈ ps, p.value.Whole) ∧
      Const.Layout.store (fun e => some <$> Lower.expr e) ps
        (List.replicate dims.prod.toNat none) σ = .ok es σ' := by
  unfold Const.flatten at lowered
  cases layout : Const.Layout.ofArray dims init with
  | error f =>
    rw [layout] at lowered
    cases lowered
  | ok r =>
    obtain ⟨r, count⟩ := r
    rw [layout] at lowered
    obtain ⟨out, σ₁, stored, rest₁⟩ := bind_eq_ok.mp lowered
    cases done : r.stop with
    | some f =>
      rw [done] at rest₁
      cases rest₁
    | none =>
      rw [done] at rest₁
      cases rest₁
      obtain ⟨span, is, rfl, placed, rfl⟩ := Const.Layout.ofArray_eq_ok bounds small layout done
      exact ⟨span, is, _, rfl, placed, fun whole => Const.Layout.ofArray_whole whole layout, stored⟩

theorem filled_replicate (b : Point W) (i : Nat) :
    List.Forall₂ (Filled l b) (List.replicate i none) (List.replicate i 0) := by
  induction i with
  | zero => exact .nil
  | succ i ih => exact .cons rfl ih

section Init

variable {init : Init} {data : List Int32}

/-- The value of an expression is stored in the slot of a variable that is not an array. -/
theorem storeScalar_goes (evaluates : Evaluates l k n) (whole : init.Whole) (le : m ≤ n)
    (inv : Inv c avail σ) (isOpen : σ.frame.isOpen = true)
    (slotOk : Operand avail σ slot (.pointer .i32))
    (lowered : Lower.storeInit slot .int init σ = .ok () σ')
    (grows : σ'.program.Grows l.program) (stands : Stands l.program σ a.here)
    (fits : Matches l σ.symbols env s a) (holds : Slot l slot L [none] a)
    (ran : elements k m env [] init s = some (data, s')) :
    ∃ b, Goes l False callers (size σ) L a b ∧ Stands l.program σ' b.here ∧
      Slot l slot L (cellsOf (data.map some)) b ∧ Holds b.known s'.memory b.memory ∧
      b.world = s'.world := by
  have inside : L ≤ a.memory.length := Nat.le_of_lt (List.getElem?_eq_some_iff.mp holds.here).1
  unfold Lower.storeInit at lowered
  rw [if_pos (show Ty.int.isScalar = true from rfl)] at lowered
  cases init with
  | missing => cases lowered
  | list => cases lowered
  | expr span e =>
    cases m with
    | zero => cases ran
    | succ m =>
      rw [elements] at ran
      obtain ⟨r, s₁, ran₁, rest₁⟩ := bind_eq_some.mp ran
      obtain ⟨rfl, rfl⟩ := pure_eq_some.mp rest₁
      obtain ⟨v, σ₁, lowered₁, rest₁⟩ := bind_eq_ok.mp lowered
      obtain ⟨w, σ₂, lowered₂, rest₂⟩ := bind_eq_ok.mp rest₁
      cases rest₂
      obtain ⟨avail₁, inv₁, evo₁, vOk⟩ := ((Lower.expr_computes e whole).runs inv).ok lowered₁
      have slotOk₁ := slotOk.evo evo₁
      obtain ⟨_, -, evo₂, -⟩ := (Lower.store_runs (k := .expr) inv₁ vOk slotOk₁).ok lowered₂
      obtain ⟨b₁, goes₁, stands₁, fits₁, gives⟩ : Reaches l False callers σ a σ₁ fun b =>
          Matches l σ.symbols env s₁ b ∧ Gives l v r b :=
        evaluates.computed (by omega) whole inv isOpen lowered₁ (evo₂.grows.trans grows) stands
          fits ran₁
      have holds₁ := holds.goes slotOk goes₁
      obtain ⟨b₂, goes₂, stands₂, holds₂, known, world, memory⟩ :
          ∃ b, Goes l False callers (size σ₁) L b₁ b ∧ _ :=
        holds₁.store inv₁ (evo₁.keeps.2.trans isOpen) slotOk₁ slotOk₁ lowered₂ grows stands₁
          holds₁.address ⟨Int.le_refl 0, by simp⟩ gives
      have goes := (goes₁.mono (Nat.le_refl _) inside).trans
        (goes₂.mono (size_le evo₁) (Nat.le_refl L))
      refine ⟨b₂, goes, stands₂, holds₂, ?_, world.trans fits₁.world⟩
      rw [known]
      exact fits₁.holds.congr (holds₁.spares memory)

/-- The elements of a brace initializer are computed, and then all of them are stored. -/
theorem storeArray_goes (evaluates : Evaluates l k n) {d : Int} {ds : List Int}
    (bounds : Bounds (d :: ds)) (small : (d :: ds).prod < tooMany) (whole : init.Whole) (le : m ≤ n)
    (inv : Inv c avail σ) (isOpen : σ.frame.isOpen = true)
    (slotOk : Operand avail σ slot (.pointer (.grid (d :: ds))))
    (lowered : Lower.storeInit slot (.array (d :: ds)) init σ = .ok () σ')
    (grows : σ'.program.Grows l.program) (stands : Stands l.program σ a.here)
    (fits : Matches l σ.symbols env s a)
    (holds : Slot l slot L (List.replicate (d :: ds).prod.toNat none) a)
    (ran : elements k m env (d :: ds) init s = some (data, s')) :
    ∃ b, Goes l False callers (size σ) L a b ∧ Stands l.program σ' b.here ∧
      Slot l slot L (cellsOf (data.map some)) b ∧ Holds b.known s'.memory b.memory ∧
      b.world = s'.world := by
  have inside : L ≤ a.memory.length := Nat.le_of_lt (List.getElem?_eq_some_iff.mp holds.here).1
  have positive := bounds.prod_pos
  unfold Lower.storeInit at lowered
  rw [if_neg (by simp [Ty.isScalar])] at lowered
  obtain ⟨es, σ₁, lowered₁, lowered₂⟩ := bind_eq_ok.mp lowered
  obtain ⟨span, is, ps, rfl, placed, psWhole, stored⟩ := flatten_eq_ok bounds small lowered₁
  cases m with
  | zero => cases ran
  | succ m =>
    rw [elements] at ran
    obtain ⟨ps', s₁, ran₁, ran₂⟩ := bind_eq_some.mp ran
    obtain ⟨placed', rfl⟩ := ofOption_eq_some.mp ran₁
    rw [placed] at placed'
    cases placed'
    have none : ElemsOk avail σ (List.replicate (d :: ds).prod.toNat none) := by
      intro v hv
      cases List.eq_of_mem_replicate hv
    obtain ⟨avail₁, inv₁, evo₁, ok⟩ := (Lower.storeLayout_runs (psWhole whole) inv none).ok stored
    have slotOk₁ := slotOk.evo evo₁
    obtain ⟨_, -, evo₂, -⟩ := (Lower.storeElements_runs inv₁ slotOk₁ ok).ok lowered₂
    obtain ⟨b₁, goes₁, stands₁, fits₁, filled⟩ : Reaches l False callers σ a σ₁ fun b =>
        Matches l σ.symbols env s' b ∧ List.Forall₂ (Filled l b) es data :=
      storeLayout_reaches evaluates (psWhole whole) (by omega) inv isOpen none stored
        (evo₂.grows.trans grows) stands fits (filled_replicate a _) ran₂
    have holds₁ := holds.goes slotOk goes₁
    have length : es.length = (d :: ds).prod.toNat := by
      rw [filled.length_eq, fill_length ran₂, List.length_replicate]
    have lowered₃ : Lower.storeElements slot (d :: ds) ([] : List Int32).length es σ₁ = .ok () σ' :=
      lowered₂
    obtain ⟨b₂, goes₂, stands₂, holds₂, known, world, memory⟩ :
        ∃ b, Goes l False callers (size σ₁) L b₁ b ∧ _ :=
      storeElements_goes bounds small inv₁ (evo₁.keeps.2.trans isOpen) slotOk₁ ok lowered₃ grows
        stands₁ filled holds₁ (by rw [List.length_replicate, length])
        (by rw [length]; simp only [List.length_nil]; omega)
    have goes := (goes₁.mono (Nat.le_refl _) inside).trans
      (goes₂.mono (size_le evo₁) (Nat.le_refl L))
    refine ⟨b₂, goes, stands₂, holds₂, ?_, world.trans fits₁.world⟩
    rw [known]
    exact fits₁.holds.congr (holds₁.spares memory)

/-- The initializer of a variable is stored in its slot. -/
theorem storeInit_goes (evaluates : Evaluates l k n) (bounds : Bounds dims)
    (small : dims.prod < tooMany) (whole : init.Whole) (le : m ≤ n) (inv : Inv c avail σ)
    (isOpen : σ.frame.isOpen = true) (slotOk : Operand avail σ slot (.pointer (.grid dims)))
    (lowered : Lower.storeInit slot (.arrayOf dims) init σ = .ok () σ')
    (grows : σ'.program.Grows l.program) (stands : Stands l.program σ a.here)
    (fits : Matches l σ.symbols env s a)
    (holds : Slot l slot L (List.replicate dims.prod.toNat none) a)
    (ran : elements k m env dims init s = some (data, s')) :
    ∃ b, Goes l False callers (size σ) L a b ∧ Stands l.program σ' b.here ∧
      Slot l slot L (cellsOf (data.map some)) b ∧ Holds b.known s'.memory b.memory ∧
      b.world = s'.world := by
  cases dims with
  | nil => exact storeScalar_goes evaluates whole le inv isOpen slotOk lowered grows stands fits holds ran
  | cons d ds =>
    exact storeArray_goes evaluates bounds small whole le inv isOpen slotOk lowered grows stands fits
      holds ran

end Init

end Elements

/-! ## Names -/

theorem valid_of_inv (inv : Inv c avail σ) : σ.symbols.Valid where
  locals := fun mem bound => (inv.scopes _ mem bound).imp fun _ ok => ok.1
  global := fun bound => (inv.global bound).imp fun _ ok => ok.1

/-- A name that was bound in the innermost scope. -/
theorem declare_eq_ok {sym : Symbol} {inner : Scope} {outer : List Scope} (valid : σ.symbols.Valid)
    (scopes : σ.symbols.locals = inner :: outer) (lowered : Lower.declare sym σ = .ok () σ') :
    σ' = σ.declared sym inner outer := by
  cases taken : inner.find? sym.name with
  | none =>
    rw [Lower.declare_eq scopes taken] at lowered
    cases lowered
    rfl
  | some id =>
    obtain ⟨old, found⟩ := valid.locals (by simp [scopes]) (Scope.mem_of_find? taken)
    simp only [Lower.declare, Lower.get_bind, SymbolTable.insert_taken scopes taken, found] at lowered
    cases lowered

/-- A name that was bound hides what it stood for before. -/
theorem Sees.declared {j : List Nat} {M : Memory Val} {regs : ValueId → Option Val}
    {t : SymbolTable} {sym : Symbol} {B : Binding} {inner : Scope} {outer : List Scope}
    (sees : Sees l j M regs t env) (valid : t.Valid) (scopes : t.locals = inner :: outer)
    (bound : Bound l j M regs sym.name sym B) :
    Sees l j M regs (t.bound sym inner outer) ((sym.name, B) :: env) := by
  intro name s found
  rw [valid.find?_bound sym scopes] at found
  rw [List.lookup_cons]
  by_cases same : name = sym.name
  · rw [if_pos same] at found
    cases found
    rw [beq_iff_eq.mpr same, same]
    exact ⟨B, rfl, bound⟩
  · rw [if_neg same] at found
    rw [beq_eq_false_iff_ne.mpr same]
    exact sees found

/-- A part of lowering that is in the program. No variable of the unit is defined in between: it only
makes slots of its own, and tables. -/
structure Covers (l : Loaded W) (σ σ' : Lower.State) : Prop where
  grows : σ'.program.Grows l.program
  apart : ∀ g ∈ l.slots, g ≤ size σ ∨ size σ' < g

theorem Covers.sub (covers : Covers l σ σ') (le : size σ ≤ size σ₁)
    (grows : σ₂.program.Grows σ'.program) : Covers l σ₁ σ₂ where
  grows := grows.trans covers.grows
  apart := fun g mem => by
    have le' : size σ₂ ≤ size σ' := grows.values_size
    rcases covers.apart g mem with early | late
    · exact .inl (Nat.le_trans early le)
    · exact .inr (Nat.lt_of_le_of_lt le' late)

/-- Lowering goes on where code is reachable, and the machine gets there. -/
def Continues (l : Loaded W) (callers : List (ValueId × Activation)) (σ : Lower.State) (a : Point W)
    (σ' : Lower.State) (env : Env) (s : State W) : Prop :=
  σ'.frame.isOpen = true ∧ Reaches l False callers σ a σ' (Matches l σ'.symbols env s)

theorem Continues.bind (h : Continues l callers σ a σ₁ env s) (le : size σ ≤ size σ₁)
    (next : ∀ b, σ₁.frame.isOpen = true → Stands l.program σ₁ b.here →
      Matches l σ₁.symbols env s b → Continues l callers σ₁ b σ' env' s') :
    Continues l callers σ a σ' env' s' := by
  obtain ⟨isOpen₁, b, goes, stands₁, fits₁⟩ := h
  obtain ⟨isOpen', reaches⟩ := next b isOpen₁ stands₁ fits₁
  obtain ⟨d, goes', stands', fits'⟩ := reaches
  exact ⟨isOpen', d, goes.trans (goes'.mono le goes.later.grows), stands', fits'⟩

/-! ## Definitions -/

/-- The table of a constant array holds the elements. -/
theorem constantSymbol_made {d : Def} {ty : Ty} {value : Const.Value} {sym : Symbol}
    (solid : ty.Solid) (object : ty.IsObject) (length : (value.data.length : Int) = ty.dims.prod)
    (site : Lower.At c σ) (ok : σ.program.Ok avail)
    (lowered : Lower.constantSymbol d ty value σ = .ok sym σ') {g : ValueId}
    (slot : sym.slot? = some g) : Made σ.program ty.koopa value.data g σ'.program := by
  unfold Lower.constantSymbol at lowered
  cases scalar : ty.isScalar with
  | true =>
    rw [scalar, if_pos rfl] at lowered
    cases lowered
    cases slot
  | false =>
    rw [scalar, if_neg (by simp)] at lowered
    simp only [map_eq_pure_bind, bind_assoc, pure_bind] at lowered
    obtain ⟨g', σ₁, made, rest₁⟩ := bind_eq_ok.mp lowered
    cases rest₁
    cases slot
    exact globalVariable_made solid object (initializer_lays solid object length) site ok made

theorem localConstant_continues {d : Def} {blank : Option Int32} (depth : 0 < c.depth)
    (inv : Inv c avail σ) (isOpen : σ.frame.isOpen = true)
    (lowered : Lower.localConstant d σ = .ok () σ') (covers : Covers l σ σ')
    (stands : Stands l.program σ a.here) (fits : Matches l σ.symbols env s a)
    (ran : define k n blank true env d s = some (env', s')) :
    Continues l callers σ a σ' env' s' := by
  rw [Lower.localConstant_eq] at lowered
  cases defined : Lower.constantDef σ.symbols.env d with
  | error f =>
    rw [defined] at lowered
    cases lowered
  | ok r =>
    obtain ⟨ty, value⟩ := r
    rw [defined, Lower.lift_bind] at lowered
    obtain ⟨sym, σ₁, lowered₁, lowered₂⟩ := bind_eq_ok.mp lowered
    obtain ⟨type, dims, count⟩ := Lower.constantDef_eq_ok defined
    obtain ⟨solid, object⟩ := Ty.ofDef_solid type
    obtain ⟨rfl, rfl, bounds, length⟩ := define_constant fits.sees.knows defined ran
    have made := fun {g} => constantSymbol_made (g := g) solid object (dims ▸ length) inv.site
      inv.program lowered₁
    obtain ⟨p, slot, rfl, added, -, rfl, -⟩ :=
      (Lower.constantSymbol_ends solid object dims count inv.site inv.program).ok lowered₁
    obtain ⟨inner, outer, scopes⟩ := inv.site.scopes depth
    have valid := valid_of_inv inv
    obtain rfl := declare_eq_ok (σ := σ.withProgram p) valid scopes lowered₂
    have insts : ((σ.withProgram p).declared ⟨d.name, d.nameSpan, ty, .constant value slot⟩ inner
        outer).insts = σ.insts := by
      change ((p.fn? σ.frame.fn).bind _).getD [] = _
      rw [added.fn?]
      rfl
    refine ⟨isOpen, a, .refl .., stands.congr ⟨rfl, rfl⟩ insts, fits.toAgrees,
      fits.sees.declared valid scopes (.constant rfl bounds length ?_)⟩
    -- No variable of the unit has the slot of the table.
    rintro g rfl
    obtain ⟨grows, ⟨init, has, payload⟩, new, last⟩ := made rfl
    have other : g ∉ l.slots := by
      intro mem
      rcases covers.apart g mem with early | late
      · exact absurd new (Nat.not_lt_of_le early)
      · rw [last] at late
        exact Nat.lt_irrefl _ late
    have has := covers.grows.values has
    obtain ⟨unknown, here⟩ :=
      fits.image.tables has (payload_grows covers.grows _ payload) other
    exact ⟨_, operand_global has _, .table unknown here⟩

/-- Naming a value does not move the machine. -/
theorem setName_stays {v : ValueId} {t : Koopa.Ty} {name : String}
    (sees : σ.program.Sees (some σ.frame.fn) v t) (lowered : Lower.setName v name σ = .ok () σ')
    (stands : Stands l.program σ a.here) : Stands l.program σ' a.here ∧ σ'.symbols = σ.symbols := by
  rw [Lower.setName_eq sees] at lowered
  cases lowered
  exact ⟨stands.congr ⟨rfl, rfl⟩ rfl, rfl⟩

/-- A slot becomes an object of the unit. -/
theorem Slot.adopt {slot : ValueId} {cells : List (Option Int32)}
    (holds : Slot l slot a.memory.length (cellsOf cells) b) (agrees : Agrees l s a)
    (goes : Goes l q callers n a.memory.length a b) (same : Holds b.known s'.memory b.memory)
    (world : b.world = s'.world) :
    ∃ d : Point W, d.here = b.here ∧ Goes l q callers n a.memory.length a d ∧
      Agrees l ⟨s'.memory ++ [cells], s'.world⟩ d ∧ d.operand l slot = some (.ptr a.memory.length 0) ∧
      d.known[s'.memory.length]? = some a.memory.length := by
  have goes' : Goes l q callers n a.memory.length a
      ⟨b.known ++ [a.memory.length], b.memory, b.here, b.world⟩ := {
    goes with
    later := {
      grows := goes.later.grows
      kept := goes.later.kept
      more := by
        obtain ⟨new, eq, large⟩ := goes.later.more
        refine ⟨new ++ [a.memory.length], by rw [eq, List.append_assoc], fun o mem => ?_⟩
        rcases List.mem_append.mp mem with old | last
        · exact large o old
        · exact (List.mem_singleton.mp last).ge } }
  refine ⟨⟨b.known ++ [a.memory.length], b.memory, b.here, b.world⟩, rfl, goes',
    ⟨same.create holds.unknown holds.here, world, agrees.image.later goes'.later⟩,
    holds.address, ?_⟩
  rw [← same.length, List.getElem?_append_right (Nat.le_refl _), Nat.sub_self]
  rfl

theorem cellsOf_replicate (i : Nat) : cellsOf (List.replicate i none) = List.replicate i none := by
  simp [cellsOf]

/-- What a variable holds at first. -/
theorem bindName_variable {name : String} {dims : List Int} {init : Option Init}
    {blank : Option Int32} (ran : bindName k m blank false env name dims init s = some (env', s')) :
    ∃ cells s₁, env' = (name, .object dims s₁.memory.length) :: env ∧
      s' = ⟨s₁.memory ++ [cells], s₁.world⟩ ∧
      (init = none ∧ s₁ = s ∧ cells = List.replicate dims.prod.toNat blank ∨
        ∃ i m' data, init = some i ∧ m = m' + 1 ∧ elements k m' env dims i s = some (data, s₁) ∧
          cells = data.map some) := by
  cases m with
  | zero => cases ran
  | succ m =>
    cases init with
    | none =>
      rw [bindName] at ran
      obtain ⟨id, s₁, made, rest₁⟩ := bind_eq_some.mp ran
      obtain ⟨rfl, rfl⟩ := create_eq_some.mp made
      obtain ⟨rfl, rfl⟩ := pure_eq_some.mp rest₁
      exact ⟨_, s, rfl, rfl, .inl ⟨rfl, rfl, rfl⟩⟩
    | some i =>
      rw [bindName] at ran
      obtain ⟨data, s₁, ran₁, rest₁⟩ := bind_eq_some.mp ran
      obtain ⟨id, s₂, made, rest₂⟩ := bind_eq_some.mp rest₁
      obtain ⟨rfl, rfl⟩ := create_eq_some.mp made
      obtain ⟨rfl, rfl⟩ := pure_eq_some.mp rest₂
      exact ⟨_, s₁, rfl, rfl, .inr ⟨i, m, data, rfl, rfl, ran₁, rfl⟩⟩

/-- What is done with the slot of a variable before its name is bound. -/
def storing (slot : ValueId) (ty : Ty) : Option Init → Lower Unit
  | none => pure ()
  | some init => Lower.storeInit slot ty init

theorem storing_runs {slot : ValueId} {ty : Ty} {init : Option Init} (whole : ∀ i ∈ init, i.Whole)
    (object : ty.IsObject) (inv : Inv c avail σ)
    (slotOk : Operand avail σ slot (.pointer ty.koopa)) :
    Lower.Runs .expr c avail σ (storing slot ty init) fun _ _ _ => True := by
  cases init with
  | none => exact Lower.Runs.pure inv trivial
  | some i => exact Lower.storeInit_runs (whole i rfl) object inv slotOk

/-- The parts of the definition of a variable. -/
theorem localVariable_eq_ok {d : Def} (lowered : Lower.localVariable d σ = .ok () σ') :
    ∃ dims slot σ₁ σ₂ σ₃, d.dims.mapM (Ty.bound σ.symbols.env) = .ok dims ∧ Bounds dims ∧
      Lower.emitNew (·.alloc · (.grid dims)) σ = .ok slot σ₁ ∧
      Lower.setName slot ("@" ++ d.name) σ₁ = .ok () σ₂ ∧
      storing slot (.arrayOf dims) d.init σ₂ = .ok () σ₃ ∧
      Lower.declare ⟨d.name, d.nameSpan, .arrayOf dims, .variable slot⟩ σ₃ = .ok () σ' := by
  rw [Lower.localVariable_eq] at lowered
  cases type : Ty.ofDef σ.symbols.env .int d with
  | error f =>
    rw [type] at lowered
    cases lowered
  | ok ty =>
    obtain ⟨solid, object⟩ := Ty.ofDef_solid type
    rw [type, Lower.lift_bind, Ty.toKoopa_eq solid, Lower.lift_bind, Lower.koopa_object object]
      at lowered
    obtain ⟨dims, found, rfl, bounds⟩ := ofDef_eq_ok type
    obtain ⟨slot, σ₁, lowered₁, rest₁⟩ := bind_eq_ok.mp lowered
    obtain ⟨_, σ₂, lowered₂, rest₂⟩ := bind_eq_ok.mp rest₁
    rw [Ty.dims_arrayOf] at lowered₁
    refine ⟨dims, slot, σ₁, σ₂, ?_⟩
    cases init : d.init with
    | none =>
      rw [init] at rest₂
      exact ⟨σ₂, found, bounds, lowered₁, lowered₂, rfl, rest₂⟩
    | some i =>
      rw [init] at rest₂
      obtain ⟨_, σ₃, lowered₃, lowered₄⟩ := bind_eq_ok.mp rest₂
      exact ⟨σ₃, found, bounds, lowered₁, lowered₂, lowered₃, lowered₄⟩

theorem localVariable_continues (evaluates : Evaluates l k n) {d : Def} (whole : d.Whole)
    (le : m ≤ n) (depth : 0 < c.depth) (inv : Inv c avail σ) (isOpen : σ.frame.isOpen = true)
    (lowered : Lower.localVariable d σ = .ok () σ') (grows : σ'.program.Grows l.program)
    (stands : Stands l.program σ a.here) (fits : Matches l σ.symbols env s a)
    (ran : define k m none false env d s = some (env', s')) :
    Continues l callers σ a σ' env' s' := by
  obtain ⟨dims, slot, σ₁, σ₂, σ₃, found, bounds, lowered₁, lowered₂, lowered₃, lowered₄⟩ :=
    localVariable_eq_ok lowered
  obtain ⟨avail₁, inv₁, evo₁, placed⟩ := (Lower.alloc_runs (k := .expr) inv _).ok lowered₁
  have slotOk₁ : Operand avail₁ σ₁ slot (.pointer (.grid dims)) := placed.operand (by simp)
  obtain ⟨avail₂, inv₂, evo₂, -⟩ :=
    (Lower.setName_runs inv₁ slotOk₁.sees (Lower.head_at d.name)).ok lowered₂
  have slotOk₂ := slotOk₁.evo evo₂
  have object : (Ty.arrayOf dims).IsObject := by cases dims <;> trivial
  have koopa : (Ty.arrayOf dims).koopa = .grid dims := by cases dims <;> rfl
  obtain ⟨avail₃, inv₃, evo₃, -⟩ := (storing_runs whole.init object inv₂
    (by rw [koopa]; exact slotOk₂)).ok lowered₃
  obtain ⟨inner, outer, scopes⟩ := inv₃.site.scopes depth
  obtain rfl := declare_eq_ok (valid_of_inv inv₃) scopes lowered₄
  have since₂ := evo₁.trans evo₂ inv.laid
  have grows₂ := evo₃.grows.trans grows
  cases m with
  | zero => cases ran
  | succ m =>
    obtain ⟨dims', s₀, ran₁, small, ran₂⟩ := define_dims ran
    obtain ⟨rfl, rfl⟩ := bounds_of_mapM fits.sees.knows found ran₁
    obtain ⟨cells, s₁, rfl, rfl, init⟩ := bindName_variable ran₂
    obtain ⟨b₁, goes₁, stands₁, fits₁, holds₁⟩ : Reaches l False callers σ a σ₁ fun b =>
        Matches l σ.symbols env s₀ b ∧ Slot l slot a.memory.length _ b :=
      alloc_reaches (K := unitView l False env) inv isOpen lowered₁ (evo₂.grows.trans grows₂) stands
        fits
    obtain ⟨stands₂, -⟩ := setName_stays slotOk₁.sees lowered₂ stands₁
    have count : (Koopa.Ty.grid dims').cells = dims'.prod.toNat := by
      have := cells_grid bounds
      omega
    rw [count] at holds₁
    -- The slot is filled before the unit knows it.
    obtain ⟨b₃, goes₃, stands₃, holds₃, same, world⟩ : ∃ b,
        Goes l False callers (size σ₂) a.memory.length b₁ b ∧ Stands l.program σ₃ b.here ∧
          Slot l slot a.memory.length (cellsOf cells) b ∧ Holds b.known s₁.memory b.memory ∧
          b.world = s₁.world := by
      rcases init with ⟨isNone, rfl, rfl⟩ | ⟨i, m', data, isSome, rfl, ran₃, rfl⟩
      · rw [isNone] at lowered₃
        cases lowered₃
        exact ⟨b₁, .refl .., stands₂, by rw [cellsOf_replicate]; exact holds₁, fits₁.holds,
          fits₁.world⟩
      · rw [isSome] at lowered₃
        rw [← since₂.keeps.1] at fits₁
        exact storeInit_goes evaluates bounds small (whole.init i isSome) (by omega) inv₂
          (since₂.keeps.2.trans isOpen) slotOk₂ lowered₃ grows stands₂ fits₁ holds₁ ran₃
    have goes := goes₁.trans (goes₃.mono (size_le since₂) (Nat.le_refl _))
    obtain ⟨b, here, goes', agrees, address, known⟩ := holds₃.adopt fits.toAgrees goes same world
    have symbols : σ₃.symbols = σ.symbols := evo₃.keeps.1.trans since₂.keeps.1
    refine ⟨evo₃.keeps.2.trans (since₂.keeps.2.trans isOpen), b, goes',
      here ▸ stands₃.congr ⟨rfl, rfl⟩ rfl, agrees, ?_⟩
    have sees : Sees l b.known b.memory b.here.regs σ₃.symbols env :=
      fits.sees.goes inv goes' (Nat.le_refl _) fun _ => by rw [symbols]
    have bound : Bound l b.known b.memory b.here.regs d.name
        ⟨d.name, d.nameSpan, .arrayOf dims', .variable slot⟩ _ := .object rfl object address known
    rw [Ty.dims_arrayOf] at bound
    exact sees.declared (valid_of_inv inv₃) scopes bound

theorem localDefs_continues (evaluates : Evaluates l k n) {isConst : Bool} {ds : List Def}
    (whole : ∀ d ∈ ds, d.Whole) (le : m ≤ n) (depth : 0 < c.depth) (inv : Inv c avail σ)
    (isOpen : σ.frame.isOpen = true)
    (lowered : ds.forM (if isConst then Lower.localConstant else Lower.localVariable) σ = .ok () σ')
    (covers : Covers l σ σ') (stands : Stands l.program σ a.here)
    (fits : Matches l σ.symbols env s a)
    (ran : defines k m none isConst env ds s = some (env', s')) :
    Continues l callers σ a σ' env' s' := by
  induction ds generalizing m σ avail a s env with
  | nil =>
    cases lowered
    cases m with
    | zero => cases ran
    | succ m =>
      rw [defines] at ran
      obtain ⟨rfl, rfl⟩ := pure_eq_some.mp ran
      exact ⟨isOpen, .refl stands fits⟩
  | cons d ds ih =>
    cases m with
    | zero => cases ran
    | succ m =>
      rw [defines] at ran
      obtain ⟨env₁, s₁, ran₁, ran₂⟩ := bind_eq_some.mp ran
      obtain ⟨_, σ₁, lowered₁, lowered₂⟩ := bind_eq_ok.mp lowered
      have restWhole : ∀ d ∈ ds, d.Whole := fun e he => whole e (by simp [he])
      have rest := fun {avail₁} (inv₁ : Inv c avail₁ σ₁) =>
        (Lower.localDefs_runs restWhole depth inv₁).ok lowered₂
      cases isConst with
      | true =>
        obtain ⟨avail₁, inv₁, evo₁, -⟩ := (Lower.localConstant_runs depth inv).ok lowered₁
        obtain ⟨_, -, evo₂, -⟩ := rest inv₁
        refine (localConstant_continues depth inv isOpen lowered₁
          (covers.sub (Nat.le_refl _) evo₂.grows) stands fits ran₁).bind (size_le evo₁) ?_
        intro b isOpen₁ stands₁ fits₁
        exact ih restWhole (by omega) inv₁ isOpen₁ lowered₂ (covers.sub (size_le evo₁) (.refl _))
          stands₁ fits₁ ran₂
      | false =>
        have dWhole := whole d (by simp)
        obtain ⟨avail₁, inv₁, evo₁, -⟩ := (Lower.localVariable_runs dWhole depth inv).ok lowered₁
        obtain ⟨_, -, evo₂, -⟩ := rest inv₁
        refine (localVariable_continues evaluates dWhole (by omega) depth inv isOpen lowered₁
          (evo₂.grows.trans covers.grows) stands fits ran₁).bind (size_le evo₁) ?_
        intro b isOpen₁ stands₁ fits₁
        exact ih restWhole (by omega) inv₁ isOpen₁ lowered₂ (covers.sub (size_le evo₁) (.refl _))
          stands₁ fits₁ ran₂

end SysY.Meaning

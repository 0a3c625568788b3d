import SysY.Koopa.Validate
import SysY.Proofs.Koopa.Assembled

/-! # What the check of a function finds

The check of a function goes through its blocks once, notes where each value was placed, and lists
what is wrong. `Reports` says what is wrong in terms of the program alone, and `Breaks` where the
check itself fails, because it looks up a part of another function. There is one lemma for each step
of the check, which says both. -/

namespace SysY

namespace Koopa

/-- A search lists all that is there, or it breaks. -/
structure Finds {α : Type} (search : Outcome (List α)) (there : α → Prop)
    (breaks : Failure → Prop) : Prop where
  listed : ∀ {xs}, search = .ok xs → ∀ x, x ∈ xs ↔ there x
  unbroken : ∀ {xs}, search = .ok xs → ∀ e, ¬ breaks e
  broken : ∀ {e}, search = .error e → breaks e

namespace Finds

variable {α β : Type} {a b : Outcome (List α)} {P Q : α → Prop} {B C : Failure → Prop}

theorem ok (xs : List α) (listed : ∀ x, x ∈ xs ↔ P x) (unbroken : ∀ e, ¬ B e) :
    Finds (.ok xs) P B where
  listed := fun ran => by
    cases ran
    exact listed
  unbroken := fun _ => unbroken
  broken := fun ran => by cases ran

theorem error {e : Failure} (broken : B e) : Finds (.error e : Outcome (List α)) P B where
  listed := fun ran => by cases ran
  unbroken := fun ran => by cases ran
  broken := fun ran => by
    cases ran
    exact broken

theorem of_list (xs : List α) : Finds (.ok xs) (· ∈ xs) fun _ => False :=
  .ok xs (fun _ => Iff.rfl) fun _ => id

theorem nothing (none : ∀ x, ¬ P x) (unbroken : ∀ e, ¬ B e) : Finds (.ok []) P B := by
  refine .ok [] (fun x => ?_) unbroken
  simp [none x]

theorem single {x : α} (there : P x) (only : ∀ y, P y → y = x) (unbroken : ∀ e, ¬ B e) :
    Finds (.ok [x]) P B := by
  refine .ok [x] (fun y => ?_) unbroken
  rw [List.mem_singleton]
  exact ⟨fun same => same ▸ there, only y⟩

theorem congr (h : Finds a P B) (there : ∀ x, P x ↔ Q x) (breaks : ∀ e, B e ↔ C e) :
    Finds a Q C where
  listed := fun ran x => (h.listed ran x).trans (there x)
  unbroken := fun ran e broken => h.unbroken ran e ((breaks e).mpr broken)
  broken := fun ran => (breaks _).mp (h.broken ran)

/-- Two searches one after the other. -/
theorem append (h : Finds a P B) (h' : Finds b Q C) :
    Finds (do return (← a) ++ (← b)) (fun x => P x ∨ Q x) fun e => B e ∨ C e where
  listed := by
    intro zs ran x
    obtain ⟨xs, first, ran⟩ := Except.bind_eq_ok.mp ran
    obtain ⟨ys, second, ran⟩ := Except.bind_eq_ok.mp ran
    cases ran
    rw [List.mem_append, h.listed first, h'.listed second]
  unbroken := by
    intro zs ran e broken
    obtain ⟨xs, first, ran⟩ := Except.bind_eq_ok.mp ran
    obtain ⟨ys, second, ran⟩ := Except.bind_eq_ok.mp ran
    exact broken.elim (h.unbroken first e) (h'.unbroken second e)
  broken := by
    intro e ran
    rcases Except.bind_eq_error.mp ran with first | ⟨xs, first, ran⟩
    · exact .inl (h.broken first)
    · rcases Except.bind_eq_error.mp ran with second | ⟨ys, second, ran⟩
      · exact .inr (h'.broken second)
      · cases ran

/-- A search whose results are put in another form. -/
theorem map (h : Finds a P B) (g : α → β) :
    Finds (do return (← a).map g) (fun y => ∃ x, P x ∧ g x = y) B where
  listed := by
    intro ys ran y
    obtain ⟨xs, first, ran⟩ := Except.bind_eq_ok.mp ran
    cases ran
    rw [List.mem_map]
    exact exists_congr fun x => and_congr_left fun _ => h.listed first x
  unbroken := by
    intro ys ran
    obtain ⟨xs, first, ran⟩ := Except.bind_eq_ok.mp ran
    exact h.unbroken first
  broken := by
    intro e ran
    rcases Except.bind_eq_error.mp ran with first | ⟨xs, first, ran⟩
    · exact h.broken first
    · cases ran

end Finds

namespace Program

variable {p : Program} {f : FnId} {d : Fn} {v : ValueId}

/-! ## Instructions -/

/-- A value that a function can see. -/
def Visible (p : Program) (f : FnId) (v : ValueId) : Prop := ∃ t, p.Sees (some f) v t

theorem local?_has {x : Value} (found : p.local? f v = some x) :
    p.Has v (some f) x.ty x.defn := by
  obtain ⟨value, home⟩ := Option.filter_eq_some_iff.mp found
  have here : x.home = some f := by simpa using home
  exact here ▸ has_of_value? value

theorem local?_eq_none : p.local? f v = none ↔ ∀ t x, ¬ p.Has v (some f) t x := by
  constructor
  · rintro missing t x ⟨n, found⟩
    simp [local?, found, Option.filter] at missing
  · intro none
    cases here : p.local? f v with
    | none => rfl
    | some x => exact absurd (local?_has here) (none _ _)

theorem visible_iff :
    p.Visible f v ↔ ¬ (((p.local? f v).isNone && (p.global? v).isNone) = true) := by
  constructor
  · rintro ⟨t, sees⟩
    simp [sees_isSome sees]
  · intro there
    cases here : p.local? f v with
    | some x => exact ⟨x.ty, _, _, local?_has here, .inl rfl⟩
    | none =>
      cases known : p.global? v with
      | none => simp [here, known] at there
      | some x =>
        obtain ⟨value, home⟩ := Option.filter_eq_some_iff.mp known
        exact ⟨x.ty, _, _, has_of_value? value, .inr (by simpa using home)⟩

/-- Looking up a value gives it or fails, depending on whether it can be seen. -/
theorem value_cases (p : Program) (f : FnId) (v : ValueId) :
    (∃ x, p.value f v = .ok x ∧ p.Sees (some f) v x.ty) ∨
      p.value f v = .refuse s!"ir: unknown value {v}" ∧ ¬ p.Visible f v := by
  by_cases there : p.Visible f v
  · obtain ⟨t, sees⟩ := there
    obtain ⟨x, found, ty, -⟩ := value_eq_ok sees
    exact .inl ⟨x, found, ty ▸ sees⟩
  · refine .inr ⟨?_, there⟩
    rw [visible_iff, not_not, Bool.and_eq_true, Option.isNone_iff_eq_none,
      Option.isNone_iff_eq_none] at there
    simp only [value, there.1, there.2]
    rfl

/-- What is wrong with a return. -/
inductive BadReturn (p : Program) (f : FnId) (d : Fn) : Option ValueId → Issue → Prop
  | bare : d.ret ≠ .unit → BadReturn p f d none (.bareReturn d.ret)
  | withValue {w : ValueId} : d.ret = .unit → BadReturn p f d (some w) .returnWithValue
  | other {w : ValueId} {got : Ty} : d.ret ≠ .unit → p.Sees (some f) w got → got ≠ d.ret →
      BadReturn p f d (some w) (.returnOf got d.ret)

/-- A return of a value that the function cannot see, and the failure to look the value up. -/
inductive BlindReturn (p : Program) (f : FnId) (d : Fn) : Option ValueId → Failure → Prop
  | unknown {w : ValueId} : d.ret ≠ .unit → ¬ p.Visible f w →
      BlindReturn p f d (some w) (.fault (some s!"ir: unknown value {w}"))

theorem returnIssue?_bare_finds (p : Program) (f : FnId) (d : Fn) :
    Finds (do return (← p.returnIssue? f d none).toList) (p.BadReturn f d none)
      (p.BlindReturn f d none) := by
  have seen : ∀ e, ¬ p.BlindReturn f d none e := by
    intro e blind
    cases blind
  by_cases unit : d.ret = .unit
  · simp only [returnIssue?, if_pos unit]
    apply Finds.nothing _ seen
    intro i bad
    cases bad with
    | bare notUnit => exact notUnit unit
  · simp only [returnIssue?, if_neg unit]
    apply Finds.single (.bare unit) _ seen
    intro i bad
    cases bad
    rfl

theorem returnIssue?_value_finds (p : Program) (f : FnId) (d : Fn) (w : ValueId) :
    Finds (do return (← p.returnIssue? f d (some w)).toList) (p.BadReturn f d (some w))
      (p.BlindReturn f d (some w)) := by
  by_cases unit : d.ret = .unit
  · simp only [returnIssue?, if_pos unit]
    apply Finds.single (.withValue unit)
    · intro i bad
      cases bad with
      | withValue => rfl
      | other notUnit => exact absurd unit notUnit
    · intro e blind
      cases blind with
      | unknown notUnit => exact notUnit unit
  · simp only [returnIssue?, if_neg unit]
    rcases p.value_cases f w with ⟨x, found, sees⟩ | ⟨missing, blind⟩
    · have seen : ∀ e, ¬ p.BlindReturn f d (some w) e := by
        intro e blind
        cases blind with
        | unknown _ unseen => exact unseen ⟨_, sees⟩
      rw [found, ok_bind]
      by_cases fits : x.ty = d.ret
      · simp only [if_pos fits]
        apply Finds.nothing _ seen
        intro i bad
        cases bad with
        | withValue isUnit => exact unit isUnit
        | other _ sees' different => exact different ((sees'.unique sees).trans fits)
      · simp only [if_neg fits]
        apply Finds.single (.other unit sees fits) _ seen
        intro i bad
        cases bad with
        | withValue isUnit => exact absurd isUnit unit
        | other _ sees' different => rw [sees'.unique sees]
    · rw [missing]
      exact .error (.unknown unit blind)

theorem returnIssue?_finds (p : Program) (f : FnId) (d : Fn) (value : Option ValueId) :
    Finds (do return (← p.returnIssue? f d value).toList) (p.BadReturn f d value)
      (p.BlindReturn f d value) := by
  cases value with
  | none => exact p.returnIssue?_bare_finds f d
  | some w => exact p.returnIssue?_value_finds f d w

/-- What is wrong with an instruction. -/
inductive BadInst (p : Program) (f : FnId) (d : Fn) (v : ValueId) (last : Bool) : Issue → Prop
  | elsewhere : (∀ t x, ¬ p.Has v (some f) t x) → BadInst p f d v last (.notDefinedHere v)
  | kind {t : Ty} {x : ValueDef} : p.Has v (some f) t x → x.isInstruction = false →
      BadInst p f d v last (.notAnInstruction v)
  | early {t : Ty} {x : ValueDef} : p.Has v (some f) t x → x.isTerminator = true → last = false →
      BadInst p f d v last .earlyTerminator
  | late {t : Ty} {x : ValueDef} : p.Has v (some f) t x → x.isTerminator = false → last = true →
      BadInst p f d v last .unterminated
  | operand {t : Ty} {x : ValueDef} {o : ValueId} : p.Has v (some f) t x → o ∈ x.operands →
      ¬ p.Visible f o → BadInst p f d v last (.undefinedOperand o)
  | target {t : Ty} {x : ValueDef} {c : BlockId} : p.Has v (some f) t x → c ∈ x.targets →
      c ∉ d.blocks → BadInst p f d v last (.targetNotLaidOut c)
  | ret {t : Ty} {value : Option ValueId} {i : Issue} : p.Has v (some f) t (.ret value) →
      p.BadReturn f d value i → BadInst p f d v last i

/-- An instruction that returns what the function cannot see. -/
def BlindInst (p : Program) (f : FnId) (d : Fn) (v : ValueId) (e : Failure) : Prop :=
  ∃ t value, p.Has v (some f) t (.ret value) ∧ p.BlindReturn f d value e

theorem badInst_iff {t : Ty} {x : ValueDef} (has : p.Has v (some f) t x) {last : Bool} {i : Issue} :
    p.BadInst f d v last i ↔
      (x.isInstruction = false ∧ i = .notAnInstruction v) ∨
      (x.isTerminator = true ∧ last = false ∧ i = .earlyTerminator) ∨
      (x.isTerminator = false ∧ last = true ∧ i = .unterminated) ∨
      (∃ o ∈ x.operands, ¬ p.Visible f o ∧ .undefinedOperand o = i) ∨
      (∃ c ∈ x.targets, c ∉ d.blocks ∧ .targetNotLaidOut c = i) ∨
      ∃ value, x = .ret value ∧ p.BadReturn f d value i := by
  constructor
  · intro bad
    cases bad with
    | elsewhere none => exact absurd has (none _ _)
    | kind has' other =>
      obtain ⟨-, -, rfl⟩ := has.unique has'
      exact .inl ⟨other, rfl⟩
    | early has' term mid =>
      obtain ⟨-, -, rfl⟩ := has.unique has'
      exact .inr (.inl ⟨term, mid, rfl⟩)
    | late has' plain last =>
      obtain ⟨-, -, rfl⟩ := has.unique has'
      exact .inr (.inr (.inl ⟨plain, last, rfl⟩))
    | operand has' mem unseen =>
      obtain ⟨-, -, rfl⟩ := has.unique has'
      exact .inr (.inr (.inr (.inl ⟨_, mem, unseen, rfl⟩)))
    | target has' mem missing =>
      obtain ⟨-, -, rfl⟩ := has.unique has'
      exact .inr (.inr (.inr (.inr (.inl ⟨_, mem, missing, rfl⟩))))
    | ret has' bad =>
      obtain ⟨-, -, rfl⟩ := has.unique has'
      exact .inr (.inr (.inr (.inr (.inr ⟨_, rfl, bad⟩))))
  · rintro (⟨other, rfl⟩ | ⟨term, mid, rfl⟩ | ⟨plain, last, rfl⟩ | ⟨o, mem, unseen, rfl⟩ |
      ⟨c, mem, missing, rfl⟩ | ⟨value, rfl, bad⟩)
    · exact .kind has other
    · exact .early has term mid
    · exact .late has plain last
    · exact .operand has mem unseen
    · exact .target has mem missing
    · exact .ret has bad

/-- What is wrong with an instruction apart from what it returns. -/
def plainIssues (p : Program) (f : FnId) (d : Fn) (v : ValueId) (x : ValueDef) (last : Bool) :
    List Issue :=
  (if x.isInstruction then [] else [.notAnInstruction v]) ++
    (if x.isTerminator && !last then [.earlyTerminator] else []) ++
    (if last && !x.isTerminator then [.unterminated] else []) ++
    (x.operands.filter fun o => (p.local? f o).isNone && (p.global? o).isNone).map
      Issue.undefinedOperand ++
    (x.targets.filter fun b => (d.insts? b).isNone).map Issue.targetNotLaidOut

/-- What is wrong with what an instruction returns. -/
def retIssues (p : Program) (f : FnId) (d : Fn) (x : ValueDef) : Outcome (List Issue) :=
  match x with
  | .ret value => do return (← p.returnIssue? f d value).toList
  | _ => return []

theorem instIssues_split {x : Value} (here : p.local? f v = some x) (last : Bool) :
    p.instIssues f d v last = do
      return (← (.ok (p.plainIssues f d v x.defn last) : Outcome (List Issue))) ++
        (← p.retIssues f d x.defn) := by
  obtain ⟨home, ty, defn, name⟩ := x
  unfold instIssues
  rw [here]
  unfold retIssues
  cases defn with
  | ret value =>
    dsimp only
    cases p.returnIssue? f d value <;> rfl
  | _ => rfl

theorem mem_plainIssues {x : ValueDef} {last : Bool} {i : Issue} :
    i ∈ p.plainIssues f d v x last ↔
      (x.isInstruction = false ∧ i = .notAnInstruction v) ∨
      (x.isTerminator = true ∧ last = false ∧ i = .earlyTerminator) ∨
      (x.isTerminator = false ∧ last = true ∧ i = .unterminated) ∨
      (∃ o ∈ x.operands, ¬ p.Visible f o ∧ .undefinedOperand o = i) ∨
      ∃ c ∈ x.targets, c ∉ d.blocks ∧ .targetNotLaidOut c = i := by
  have unseen : ∀ o, ¬ p.Visible f o ↔ ((p.local? f o).isNone && (p.global? o).isNone) = true :=
    fun o => visible_iff.not.trans not_not
  have missing : ∀ c, c ∉ d.blocks ↔ (d.insts? c).isNone = true := fun c => by
    rw [← Fn.insts?_isSome, Option.not_isSome_iff_eq_none, Option.isNone_iff_eq_none]
  simp only [plainIssues, List.mem_append, List.mem_map, List.mem_filter, ← unseen, ← missing,
    or_assoc, and_assoc]
  cases x.isInstruction <;> cases x.isTerminator <;> cases last <;> simp

theorem retIssues_finds {t : Ty} {x : ValueDef} (has : p.Has v (some f) t x) :
    Finds (p.retIssues f d x) (fun i => ∃ value, x = .ret value ∧ p.BadReturn f d value i)
      (p.BlindInst f d v) := by
  by_cases ret : ∃ value, x = .ret value
  · obtain ⟨value, rfl⟩ := ret
    refine (p.returnIssue?_finds f d value).congr (fun i => ?_) fun e => ?_
    · exact ⟨fun bad => ⟨value, rfl, bad⟩, fun ⟨_, same, bad⟩ => (by cases same; exact bad)⟩
    · refine ⟨fun blind => ⟨_, _, has, blind⟩, fun ⟨t, value', has', blind⟩ => ?_⟩
      obtain ⟨-, -, same⟩ := has.unique has'
      cases same
      exact blind
  · have none : ∀ value, x ≠ .ret value := fun value same => ret ⟨value, same⟩
    have empty : p.retIssues f d x = .ok [] := by
      unfold retIssues
      split
      · exact absurd rfl (none _)
      · rfl
    rw [empty]
    apply Finds.nothing
    · rintro i ⟨value, same, -⟩
      exact none value same
    · rintro e ⟨t, value, has', -⟩
      exact none value (has.unique has').2.2

theorem instIssues_finds (p : Program) (f : FnId) (d : Fn) (v : ValueId) (last : Bool) :
    Finds (p.instIssues f d v last) (p.BadInst f d v last) (p.BlindInst f d v) := by
  cases here : p.local? f v with
  | none =>
    have elsewhere := local?_eq_none.mp here
    rw [instIssues, here]
    apply Finds.single (.elsewhere elsewhere)
    · intro i bad
      cases bad with
      | elsewhere => rfl
      | kind has | early has | late has | operand has | target has | ret has =>
        exact absurd has (elsewhere _ _)
    · rintro e ⟨t, value, has, -⟩
      exact elsewhere _ _ has
  | some x =>
    have has := local?_has here
    rw [instIssues_split here]
    refine ((Finds.of_list _).append (retIssues_finds has)).congr (fun i => ?_) fun e => ?_
    · rw [badInst_iff has, mem_plainIssues]
      simp only [or_assoc]
    · exact or_iff_right id

/-! ## Blocks -/

/-- The last of some blocks in which a value is placed. -/
def lastPlace (entries : List (BlockId × List ValueId)) (v : ValueId) : Option BlockId :=
  (entries.reverse.find? (·.2.contains v)).map (·.1)

theorem lastPlace_concat (entries : List (BlockId × List ValueId)) (b : BlockId)
    (is : List ValueId) (v : ValueId) :
    lastPlace (entries ++ [(b, is)]) v = if v ∈ is then some b else lastPlace entries v := by
  unfold lastPlace
  rw [List.reverse_append, List.reverse_singleton, List.singleton_append, List.find?_cons]
  by_cases here : v ∈ is
  · simp [here]
  · simp [here]

theorem lookup_mark (b : BlockId) (is : List ValueId) (placed : List (ValueId × BlockId))
    (v : ValueId) : ((is.map (·, b)).reverse ++ placed).lookup v =
      if v ∈ is then some b else placed.lookup v := by
  induction is generalizing placed with
  | nil => rfl
  | cons w is ih =>
    rw [List.map_cons, List.reverse_cons, List.append_assoc, ih, List.singleton_append,
      List.lookup_cons]
    by_cases here : v ∈ is
    · simp [here]
    · by_cases same : v = w
      · simp [same]
      · have other : (v == w) = false := by simpa using same
        simp [here, same, other]

/-- What is wrong with a block that comes after others. -/
inductive BadBlock (p : Program) (f : FnId) (d : Fn) (before : List (BlockId × List ValueId))
    (is : List ValueId) : Issue → Prop
  | empty : is = [] → BadBlock p f d before is .emptyBlock
  | inst {xs : List ValueId} {v : ValueId} {ys : List ValueId} {i : Issue} : is = xs ++ v :: ys →
      p.BadInst f d v ys.isEmpty i → BadBlock p f d before is i
  | twice {v : ValueId} {c : BlockId} {x : Block} : v ∈ is → lastPlace before v = some c →
      p.block? f c = some x → BadBlock p f d before is (.alreadyPlaced v x.name)

/-- A value is placed again. -/
def Again (p : Program) (f : FnId) (before : List (BlockId × List ValueId)) (v : ValueId)
    (i : Issue) : Prop :=
  ∃ c x, lastPlace before v = some c ∧ p.block? f c = some x ∧ i = .alreadyPlaced v x.name

/-- The issue that a value was placed before. -/
def againIssues (p : Program) (f : FnId) (placed : List (ValueId × BlockId)) (v : ValueId) :
    Outcome (List Issue) :=
  match placed.lookup v with
  | none => return []
  | some c => do return [.alreadyPlaced v (← p.block f c).name]

/-- All blocks in which values are placed are known. -/
def Known (p : Program) (f : FnId) (before : List (BlockId × List ValueId)) : Prop :=
  ∀ {v c}, lastPlace before v = some c → (p.block? f c).isSome

variable {b : BlockId} {is vs : List ValueId} {before : List (BlockId × List ValueId)}
  {placed placed' : List (ValueId × BlockId)}

theorem againIssues_finds (known : p.Known f before) (seen : placed.lookup v = lastPlace before v) :
    Finds (p.againIssues f placed v) (p.Again f before v) fun _ => False := by
  rw [againIssues, seen]
  cases place : lastPlace before v with
  | none =>
    apply Finds.nothing _ fun _ => id
    rintro i ⟨c, x, there, -⟩
    rw [place] at there
    cases there
  | some c =>
    obtain ⟨x, block⟩ := Option.isSome_iff_exists.mp (known place)
    simp only [Program.block, block]
    apply Finds.single ⟨c, x, place, block, rfl⟩ _ fun _ => id
    rintro i ⟨c', x', there, block', same⟩
    obtain rfl := Option.some.inj (place.symm.trans there)
    obtain rfl := Option.some.inj (block.symm.trans block')
    exact same

theorem instsIssues_cons (p : Program) (f : FnId) (d : Fn) (b : BlockId)
    (placed : List (ValueId × BlockId)) (v : ValueId) (vs : List ValueId) :
    p.instsIssues f d b placed (v :: vs) = do
      let twice ← p.againIssues f placed v
      let here ← p.instIssues f d v vs.isEmpty
      let (later, placed) ← p.instsIssues f d b ((v, b) :: placed) vs
      return (twice ++ here ++ later, placed) := by
  rw [instsIssues, againIssues]
  cases placed.lookup v with
  | none => rfl
  | some c =>
    dsimp only
    cases p.block f c <;> rfl

theorem instsIssues_placed {found : List Issue}
    (ran : p.instsIssues f d b placed vs = .ok (found, placed')) :
    placed' = (vs.map (·, b)).reverse ++ placed := by
  induction vs generalizing placed found with
  | nil =>
    cases ran
    rfl
  | cons v vs ih =>
    rw [instsIssues_cons] at ran
    obtain ⟨twice, -, ran⟩ := Except.bind_eq_ok.mp ran
    obtain ⟨here, -, ran⟩ := Except.bind_eq_ok.mp ran
    obtain ⟨⟨later, placed₁⟩, rest, ran⟩ := Except.bind_eq_ok.mp ran
    cases ran
    rw [ih rest, List.map_cons, List.reverse_cons, List.append_assoc]
    rfl

/-- The issues of instructions without the places that are noted on the way. -/
def scanIssues (p : Program) (f : FnId) (d : Fn) (b : BlockId) (placed : List (ValueId × BlockId))
    (vs : List ValueId) : Outcome (List Issue) := do
  return (← p.instsIssues f d b placed vs).1

theorem scanIssues_cons (p : Program) (f : FnId) (d : Fn) (b : BlockId)
    (placed : List (ValueId × BlockId)) (v : ValueId) (vs : List ValueId) :
    p.scanIssues f d b placed (v :: vs) = do
      return (← (do return (← p.againIssues f placed v) ++ (← p.instIssues f d v vs.isEmpty))) ++
        (← p.scanIssues f d b ((v, b) :: placed) vs) := by
  rw [scanIssues, instsIssues_cons, scanIssues]
  cases p.againIssues f placed v with
  | error e => rfl
  | ok twice =>
    cases p.instIssues f d v vs.isEmpty with
    | error e => rfl
    | ok here => cases p.instsIssues f d b ((v, b) :: placed) vs <;> rfl

theorem scanIssues_finds (known : p.Known f before) (nodup : vs.Nodup)
    (seen : ∀ v ∈ vs, placed.lookup v = lastPlace before v) :
    Finds (p.scanIssues f d b placed vs)
      (fun i => (∃ xs v ys, vs = xs ++ v :: ys ∧ p.BadInst f d v ys.isEmpty i) ∨
        ∃ v ∈ vs, p.Again f before v i)
      (fun e => ∃ v ∈ vs, p.BlindInst f d v e) := by
  induction vs generalizing placed with
  | nil => exact .nothing (by simp) (by simp)
  | cons v vs ih =>
    rw [List.nodup_cons] at nodup
    -- The places that are noted here are of no use in this block: no value comes up again.
    have later : ∀ w ∈ vs, ((v, b) :: placed).lookup w = lastPlace before w := by
      intro w mem
      have other : (w == v) = false := by
        rw [beq_eq_false_iff_ne]
        rintro rfl
        exact nodup.1 mem
      rw [List.lookup_cons, other]
      exact seen w (List.mem_cons_of_mem _ mem)
    have first := againIssues_finds known (seen v List.mem_cons_self)
    rw [scanIssues_cons]
    refine ((first.append (p.instIssues_finds f d v vs.isEmpty)).append
      (ih nodup.2 later)).congr (fun i => ?_) fun e => ?_
    · have splits : (∃ xs w ys, v :: vs = xs ++ w :: ys ∧ p.BadInst f d w ys.isEmpty i) ↔
          p.BadInst f d v vs.isEmpty i ∨
            ∃ xs w ys, vs = xs ++ w :: ys ∧ p.BadInst f d w ys.isEmpty i := by
        constructor
        · rintro ⟨xs, w, ys, eq, bad⟩
          rcases List.cons_eq_append_iff.mp eq with ⟨rfl, same⟩ | ⟨xs', rfl, rest⟩
          · cases same
            exact .inl bad
          · exact .inr ⟨xs', w, ys, rest, bad⟩
        · rintro (bad | ⟨xs, w, ys, rfl, bad⟩)
          · exact ⟨[], v, vs, rfl, bad⟩
          · exact ⟨v :: xs, w, ys, rfl, bad⟩
      rw [splits, List.exists_mem_cons_iff]
      exact (or_congr_left or_comm).trans or_or_or_comm
    · rw [List.exists_mem_cons_iff, false_or]

/-- The issues of a block. -/
def blockIssues (p : Program) (f : FnId) (d : Fn) (b : BlockId) (placed : List (ValueId × BlockId))
    (is : List ValueId) : Outcome (List Issue) :=
  if is.isEmpty then return [.emptyBlock] else p.scanIssues f d b placed is

theorem blockIssues_finds (known : p.Known f before) (nodup : is.Nodup)
    (seen : ∀ v ∈ is, placed.lookup v = lastPlace before v) :
    Finds (p.blockIssues f d b placed is) (p.BadBlock f d before is)
      (fun e => ∃ v ∈ is, p.BlindInst f d v e) := by
  cases is with
  | nil =>
    apply Finds.single (.empty rfl) _ (by simp)
    intro i bad
    cases bad with
    | empty => rfl
    | inst split => simp at split
    | twice mem => cases mem
  | cons v vs =>
    refine (scanIssues_finds known nodup seen).congr (fun i => ?_) fun _ => Iff.rfl
    constructor
    · rintro (⟨xs, w, ys, split, bad⟩ | ⟨w, mem, c, x, place, block, rfl⟩)
      · exact .inst split bad
      · exact .twice mem place block
    · intro bad
      cases bad with
      | empty none => cases none
      | inst split bad => exact .inl ⟨_, _, _, split, bad⟩
      | twice mem place block => exact .inr ⟨_, mem, _, _, place, block, rfl⟩

theorem blocksIssues_cons {x : Block} (block : p.block? f b = some x)
    (placed : List (ValueId × BlockId)) (is : List ValueId)
    (rest : List (BlockId × List ValueId)) :
    p.blocksIssues f d placed ((b, is) :: rest) = do
      return (← (do return (← p.blockIssues f d b placed is).map (x.name, ·))) ++
        (← p.blocksIssues f d ((is.map (·, b)).reverse ++ placed) rest) := by
  rw [blocksIssues, blockIssues]
  simp only [Program.block, block]
  cases is with
  | nil => rfl
  | cons v vs =>
    rw [scanIssues]
    cases ran : p.instsIssues f d b placed (v :: vs) with
    | error e => rfl
    | ok found =>
      obtain ⟨found, placed'⟩ := found
      rw [← instsIssues_placed ran]
      rfl

/-- A block, or what a return reads, is of another function. -/
inductive Breaks (p : Program) (f : FnId) (d : Fn) : Failure → Prop
  | block {b : BlockId} : b ∈ d.blocks → p.block? f b = none →
      Breaks p f d (.fault (some s!"ir: unknown basic block {b}"))
  | inst {b : BlockId} {is : List ValueId} {v : ValueId} {e : Failure} : (b, is) ∈ d.layout →
      v ∈ is → p.BlindInst f d v e → Breaks p f d e

/-- Something is wrong with a function: the issue of a block, after the name of the block. -/
inductive Reports (p : Program) (f : FnId) (d : Fn) : String × Issue → Prop
  | intro {before after : List (BlockId × List ValueId)} {b : BlockId} {is : List ValueId}
      {x : Block} {i : Issue} : d.layout = before ++ (b, is) :: after → p.block? f b = some x →
      p.BadBlock f d before is i → Reports p f d (x.name, i)

theorem blocksIssues_finds {rest : List (BlockId × List ValueId)}
    (nodup : ∀ entry ∈ rest, entry.2.Nodup) (known : p.Known f before)
    (seen : ∀ v, placed.lookup v = lastPlace before v) :
    Finds (p.blocksIssues f d placed rest)
      (fun entry => ∃ mid b is after x, rest = mid ++ (b, is) :: after ∧ p.block? f b = some x ∧
        entry.1 = x.name ∧ p.BadBlock f d (before ++ mid) is entry.2)
      (fun e => (∃ entry ∈ rest, p.block? f entry.1 = none ∧
          e = .fault (some s!"ir: unknown basic block {entry.1}")) ∨
        ∃ entry ∈ rest, ∃ v ∈ entry.2, p.BlindInst f d v e) := by
  -- What was noted of the blocks that are done is in which of them each value was placed last.
  induction rest generalizing before placed with
  | nil => exact .nothing (by simp) (by simp)
  | cons entry rest ih =>
    obtain ⟨b, is⟩ := entry
    cases block : p.block? f b with
    | none =>
      have missing : p.blocksIssues f d placed ((b, is) :: rest) =
          .error (.fault (some s!"ir: unknown basic block {b}")) := by
        rw [blocksIssues]
        simp only [Program.block, block]
        rfl
      rw [missing]
      exact .error (.inl ⟨_, List.mem_cons_self, block, rfl⟩)
    | some x =>
      have known' : p.Known f (before ++ [(b, is)]) := by
        intro v c place
        rw [lastPlace_concat] at place
        by_cases here : v ∈ is
        · rw [if_pos here] at place
          cases place
          rw [block]
          rfl
        · rw [if_neg here] at place
          exact known place
      have seen' : ∀ v, ((is.map (·, b)).reverse ++ placed).lookup v =
          lastPlace (before ++ [(b, is)]) v := by
        intro v
        rw [lookup_mark, lastPlace_concat, seen]
      have here := blockIssues_finds (d := d) (b := b) known (nodup _ List.mem_cons_self)
        fun v _ => seen v
      have later := ih (fun entry mem => nodup entry (List.mem_cons_of_mem _ mem)) known' seen'
      rw [blocksIssues_cons block]
      refine ((here.map (x.name, ·)).append later).congr (fun entry => ?_) fun e => ?_
      · constructor
        · rintro (⟨i, bad, rfl⟩ | ⟨mid, c, js, after, y, split, block', name, bad⟩)
          · exact ⟨[], b, is, rest, x, rfl, block, rfl, by rwa [List.append_nil]⟩
          · refine ⟨(b, is) :: mid, c, js, after, y, by rw [split]; rfl, block', name, ?_⟩
            rwa [List.append_assoc] at bad
        · rintro ⟨mid, c, js, after, y, split, block', name, bad⟩
          rcases List.cons_eq_append_iff.mp split with ⟨rfl, same⟩ | ⟨mid', rfl, split'⟩
          · cases same
            obtain rfl := Option.some.inj (block.symm.trans block')
            rw [List.append_nil] at bad
            exact .inl ⟨entry.2, bad, by rw [← name]⟩
          · refine .inr ⟨mid', c, js, after, y, split', block', name, ?_⟩
            rwa [List.append_assoc]
      · rw [List.exists_mem_cons_iff, List.exists_mem_cons_iff]
        simp only [block, reduceCtorEq, false_and, false_or]
        exact or_left_comm

theorem fnIssues_finds (nodup : ∀ entry ∈ d.layout, entry.2.Nodup) :
    Finds (p.fnIssues f d) (p.Reports f d) (p.Breaks f d) := by
  have known : p.Known f [] := fun place => by cases place
  refine (blocksIssues_finds nodup known fun _ => rfl).congr (fun entry => ?_) fun e => ?_
  · constructor
    · rintro ⟨mid, b, is, after, x, split, block, name, bad⟩
      obtain ⟨n, i⟩ := entry
      cases name
      exact .intro split block bad
    · rintro ⟨split, block, bad⟩
      exact ⟨_, _, _, _, _, split, block, rfl, bad⟩
  · constructor
    · rintro (⟨⟨b, is⟩, mem, missing, rfl⟩ | ⟨⟨b, is⟩, mem, v, inside, blind⟩)
      · exact .block (List.mem_map.mpr ⟨_, mem, rfl⟩) missing
      · exact .inst mem inside blind
    · intro broken
      cases broken with
      | block mem missing =>
        obtain ⟨entry, laid, rfl⟩ := List.mem_map.mp mem
        exact .inl ⟨entry, laid, missing, rfl⟩
      | inst mem inside blind => exact .inr ⟨_, mem, _, inside, blind⟩

end Program

end Koopa

end SysY

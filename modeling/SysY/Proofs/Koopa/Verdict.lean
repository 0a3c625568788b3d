import SysY.Proofs.Const.Expected
import SysY.Proofs.Koopa.Issues

/-! # The verdict on a program

The check of a program joins the issues of all functions to one text, and it says that nothing is
wrong when there are none. This is so just if every function is regular. -/

namespace SysY

namespace Outcome

/-- The results of an operation on all members of a list. -/
theorem mapM_listed {α β : Type} {g : α → Outcome β} {xs : List α} {ys : List β}
    (ran : xs.mapM g = .ok ys) :
    (∀ x ∈ xs, ∃ y ∈ ys, g x = .ok y) ∧ ∀ y ∈ ys, ∃ x ∈ xs, g x = .ok y := by
  have pairs := mapM_eq_ok ran
  clear ran
  induction pairs with
  | nil => exact ⟨fun _ mem => (by cases mem), fun _ mem => (by cases mem)⟩
  | cons here _ ih =>
    simp only [List.forall_mem_cons, List.exists_mem_cons_iff]
    exact ⟨⟨.inl here, fun x mem => .inr (ih.1 x mem)⟩, .inl here, fun y mem => .inr (ih.2 y mem)⟩

theorem mapM_eq_error {α β : Type} {g : α → Outcome β} {xs : List α} {e : Failure}
    (ran : xs.mapM g = .error e) : ∃ x ∈ xs, g x = .error e := by
  induction xs with
  | nil => cases ran
  | cons x xs ih =>
    rw [List.mapM_cons] at ran
    rcases Except.bind_eq_error.mp ran with first | ⟨y, -, ran⟩
    · exact ⟨x, List.mem_cons_self, first⟩
    · rcases Except.bind_eq_error.mp ran with later | ⟨ys, -, ran⟩
      · obtain ⟨x', mem, failed⟩ := ih later
        exact ⟨x', List.mem_cons_of_mem _ mem, failed⟩
      · cases ran

end Outcome

/-! ## What instructions do -/

namespace Koopa.ValueDef

/-- What a value reads. -/
inductive Reads : ValueDef → ValueId → Prop
  | elem {elems : List ValueId} {o : ValueId} : o ∈ elems → Reads (.aggregate elems) o
  | init (o : ValueId) : Reads (.globalAlloc o) o
  | load (src : ValueId) : Reads (.load src) src
  | stored (value dest : ValueId) : Reads (.store value dest) value
  | dest (value dest : ValueId) : Reads (.store value dest) dest
  | pointer (src index : ValueId) : Reads (.getPtr src index) src
  | distance (src index : ValueId) : Reads (.getPtr src index) index
  | array (src index : ValueId) : Reads (.getElemPtr src index) src
  | subscript (src index : ValueId) : Reads (.getElemPtr src index) index
  | left (op : Op) (a b : ValueId) : Reads (.binary op a b) a
  | right (op : Op) (a b : ValueId) : Reads (.binary op a b) b
  | cond (o : ValueId) (ifTrue ifFalse : BlockId) : Reads (.branch o ifTrue ifFalse) o
  | passed {callee : FnId} {args : List ValueId} {o : ValueId} : o ∈ args →
      Reads (.call callee args) o
  | returned (o : ValueId) : Reads (.ret (some o)) o

/-- Where an instruction can go on. -/
inductive LeadsTo : ValueDef → BlockId → Prop
  | ifTrue (cond : ValueId) (a b : BlockId) : LeadsTo (.branch cond a b) a
  | ifFalse (cond : ValueId) (a b : BlockId) : LeadsTo (.branch cond a b) b
  | jump (target : BlockId) : LeadsTo (.jump target) target

/-- Instructions that end a block. -/
inductive Ends : ValueDef → Prop
  | branch (cond : ValueId) (ifTrue ifFalse : BlockId) : Ends (.branch cond ifTrue ifFalse)
  | jump (target : BlockId) : Ends (.jump target)
  | ret (value : Option ValueId) : Ends (.ret value)

/-- Instructions. -/
inductive Runs : ValueDef → Prop
  | alloc : Runs .alloc
  | load (src : ValueId) : Runs (.load src)
  | store (value dest : ValueId) : Runs (.store value dest)
  | getPtr (src index : ValueId) : Runs (.getPtr src index)
  | getElemPtr (src index : ValueId) : Runs (.getElemPtr src index)
  | binary (op : Op) (left right : ValueId) : Runs (.binary op left right)
  | call (callee : FnId) (args : List ValueId) : Runs (.call callee args)
  | ends {x : ValueDef} : Ends x → Runs x

variable {x : ValueDef}

theorem reads_iff {o : ValueId} : x.Reads o ↔ o ∈ x.operands := by
  constructor
  · rintro (_ | _) <;> simp [operands, *]
  · intro mem
    cases x <;> grind [operands, intro Reads]

theorem leadsTo_iff {b : BlockId} : x.LeadsTo b ↔ b ∈ x.targets := by
  constructor
  · rintro (_ | _) <;> simp [targets]
  · intro mem
    cases x <;> grind [targets, intro LeadsTo]

theorem ends_iff : x.Ends ↔ x.isTerminator = true := by
  constructor
  · rintro (_ | _) <;> rfl
  · intro term
    cases x <;> grind [isTerminator, intro Ends]

theorem runs_iff : x.Runs ↔ x.isInstruction = true := by
  constructor
  · rintro (_ | _ | _ | _ | _ | _ | _ | ends)
    all_goals first | rfl | cases ends <;> rfl
  · intro inst
    cases x with
    | integer | zeroInit | undef | aggregate | arg | globalAlloc => cases inst
    | alloc => exact .alloc
    | load src => exact .load src
    | store value dest => exact .store value dest
    | getPtr src index => exact .getPtr src index
    | getElemPtr src index => exact .getElemPtr src index
    | binary op left right => exact .binary op left right
    | call callee args => exact .call callee args
    | branch | jump | ret => exact .ends (ends_iff.mpr rfl)

end Koopa.ValueDef

namespace Koopa.Program

variable {p : Program} {f : FnId} {d : Fn} {v : ValueId} {b : BlockId}

/-! ## Functions without issues -/

/-- A function in which nothing is wrong.

* `filled`, `ends`: no block is empty, and the last instruction of a block is its only terminator.
* `instructions`, `once`: what is laid out are instructions of the function, each in one block.
* `operands`, `targets`: what is read can be seen, and where control goes is laid out.
* `bare`, `returns`: a return fits the function. -/
structure RegularFn (p : Program) (f : FnId) (d : Fn) : Prop where
  filled : ∀ {b is}, (b, is) ∈ d.layout → is ≠ []
  instructions : ∀ {b is v}, (b, is) ∈ d.layout → v ∈ is →
    ∃ t x, p.Has v (some f) t x ∧ x.Runs
  once : ∀ {b is c js v}, (b, is) ∈ d.layout → (c, js) ∈ d.layout → v ∈ is → v ∈ js → b = c
  ends : ∀ {b xs v ys}, (b, xs ++ v :: ys) ∈ d.layout →
    ((∃ h t x, p.Has v h t x ∧ x.Ends) ↔ ys = [])
  operands : ∀ {b is v t x o}, (b, is) ∈ d.layout → v ∈ is → p.Has v (some f) t x →
    x.Reads o → p.Visible f o
  targets : ∀ {b is v t x c}, (b, is) ∈ d.layout → v ∈ is → p.Has v (some f) t x →
    x.LeadsTo c → c ∈ d.blocks
  bare : ∀ {b is v t}, (b, is) ∈ d.layout → v ∈ is → p.Has v (some f) t (.ret none) →
    d.ret = .unit
  returns : ∀ {b is v t w}, (b, is) ∈ d.layout → v ∈ is → p.Has v (some f) t (.ret (some w)) →
    d.ret ≠ .unit ∧ p.Sees (some f) w d.ret

theorem lastPlace_eq_some {entries : List (BlockId × List ValueId)} {c : BlockId}
    (place : lastPlace entries v = some c) : ∃ js, (c, js) ∈ entries ∧ v ∈ js := by
  obtain ⟨⟨c', js⟩, found, rfl⟩ := Option.map_eq_some_iff.mp place
  refine ⟨js, List.mem_reverse.mp (List.mem_of_find?_eq_some found), ?_⟩
  simpa using List.find?_some found

theorem lastPlace_isSome {entries : List (BlockId × List ValueId)} {c : BlockId}
    {js : List ValueId} (mem : (c, js) ∈ entries) (inside : v ∈ js) :
    ∃ c', lastPlace entries v = some c' := by
  cases place : lastPlace entries v with
  | some c' => exact ⟨c', rfl⟩
  | none =>
    rw [lastPlace, Option.map_eq_none_iff, List.find?_eq_none] at place
    have outside := place _ (List.mem_reverse.mpr mem)
    simp [inside] at outside

/-- An instruction of a regular function is in order. -/
theorem RegularFn.not_badInst (regular : p.RegularFn f d) {xs ys : List ValueId} {i : Issue}
    (laid : (b, xs ++ v :: ys) ∈ d.layout) : ¬ p.BadInst f d v ys.isEmpty i := by
  have inside : v ∈ xs ++ v :: ys := by simp
  intro bad
  cases bad with
  | elsewhere none =>
    obtain ⟨t, x, has, -⟩ := regular.instructions laid inside
    exact none t x has
  | kind has other =>
    obtain ⟨t, x, has', runs⟩ := regular.instructions laid inside
    obtain ⟨-, -, rfl⟩ := has.unique has'
    rw [ValueDef.runs_iff.mp runs] at other
    cases other
  | early has term mid =>
    have last := (regular.ends laid).mp ⟨_, _, _, has, ValueDef.ends_iff.mpr term⟩
    rw [last] at mid
    cases mid
  | late has plain last =>
    obtain ⟨h, t, x, has', ends⟩ := (regular.ends laid).mpr (List.isEmpty_iff.mp last)
    obtain ⟨-, -, rfl⟩ := has.unique has'
    rw [ValueDef.ends_iff.mp ends] at plain
    cases plain
  | operand has mem unseen =>
    exact unseen (regular.operands laid inside has (ValueDef.reads_iff.mpr mem))
  | target has mem missing =>
    exact missing (regular.targets laid inside has (ValueDef.leadsTo_iff.mpr mem))
  | ret has bad =>
    cases bad with
    | bare notUnit => exact notUnit (regular.bare laid inside has)
    | withValue unit => exact (regular.returns laid inside has).1 unit
    | other _ sees different => exact different (sees.unique (regular.returns laid inside has).2)

theorem RegularFn.not_reports (regular : p.RegularFn f d) (distinct : d.blocks.Nodup)
    {entry : String × Issue} : ¬ p.Reports f d entry := by
  rintro ⟨split, block, bad⟩
  rename_i before after b is x i
  have laid : (b, is) ∈ d.layout := by simp [split]
  cases bad with
  | empty none => exact regular.filled laid none
  | inst parts bad => exact regular.not_badInst (parts ▸ laid) bad
  | twice inside place block' =>
    obtain ⟨js, earlier, inside'⟩ := lastPlace_eq_some place
    have laid' : (_, js) ∈ d.layout := split ▸ List.mem_append_left _ earlier
    obtain rfl := regular.once laid' laid inside' inside
    rw [Fn.blocks, split, List.map_append, List.map_cons, List.nodup_append] at distinct
    exact distinct.2.2 _ (List.mem_map.mpr ⟨_, earlier, rfl⟩) _ List.mem_cons_self rfl

/-- A function is regular when its instructions are in order and its blocks are not empty and have
no instruction in common. -/
theorem regularFn_of_not_badInst (filled : ∀ {b is}, (b, is) ∈ d.layout → is ≠ [])
    (once : ∀ {b is c js v}, (b, is) ∈ d.layout → (c, js) ∈ d.layout → v ∈ is → v ∈ js → b = c)
    (fine : ∀ {b xs v ys i}, (b, xs ++ v :: ys) ∈ d.layout → ¬ p.BadInst f d v ys.isEmpty i) :
    p.RegularFn f d := by
  have each : ∀ {b is v}, (b, is) ∈ d.layout → v ∈ is → ∃ last, ∀ i, ¬ p.BadInst f d v last i := by
    intro b is v laid inside
    obtain ⟨xs, ys, rfl⟩ := List.append_of_mem inside
    exact ⟨ys.isEmpty, fun i => fine laid⟩
  have instructions : ∀ {b is v}, (b, is) ∈ d.layout → v ∈ is →
      ∃ t x, p.Has v (some f) t x ∧ x.Runs := by
    intro b is v laid inside
    obtain ⟨last, fine⟩ := each laid inside
    by_cases here : ∃ t x, p.Has v (some f) t x
    · obtain ⟨t, x, has⟩ := here
      refine ⟨t, x, has, ValueDef.runs_iff.mpr ?_⟩
      cases kind : x.isInstruction with
      | true => rfl
      | false => exact absurd (.kind has kind) (fine _)
    · exact absurd (.elsewhere fun t x has => here ⟨t, x, has⟩) (fine _)
  have operands : ∀ {b is v t x o}, (b, is) ∈ d.layout → v ∈ is → p.Has v (some f) t x →
      x.Reads o → p.Visible f o := by
    intro b is v t x o laid inside has reads
    obtain ⟨last, fine⟩ := each laid inside
    exact not_not.mp fun unseen => fine _ (.operand has (ValueDef.reads_iff.mp reads) unseen)
  refine ⟨filled, instructions, once, ?_, operands, ?_, ?_, ?_⟩
  · intro b xs v ys laid
    obtain ⟨t, x, has, -⟩ := instructions laid (v := v) (by simp)
    constructor
    · rintro ⟨h, t', x', has', ends⟩
      obtain ⟨-, -, rfl⟩ := has.unique has'
      cases ys with
      | nil => rfl
      | cons y ys => exact absurd (.early has (ValueDef.ends_iff.mp ends) rfl) (fine laid)
    · rintro rfl
      refine ⟨_, _, _, has, ValueDef.ends_iff.mpr ?_⟩
      cases term : x.isTerminator with
      | true => rfl
      | false => exact absurd (.late has term rfl) (fine laid)
  · intro b is v t x c laid inside has leads
    obtain ⟨last, fine⟩ := each laid inside
    exact not_not.mp fun missing => fine _ (.target has (ValueDef.leadsTo_iff.mp leads) missing)
  · intro b is v t laid inside has
    obtain ⟨last, fine⟩ := each laid inside
    exact not_not.mp fun notUnit => fine _ (.ret has (.bare notUnit))
  · intro b is v t w laid inside has
    obtain ⟨last, fine⟩ := each laid inside
    have notUnit : d.ret ≠ .unit := fun unit => fine _ (.ret has (.withValue unit))
    obtain ⟨got, sees⟩ := operands laid inside has (.returned w)
    have fits : got = d.ret := not_not.mp fun different =>
      fine _ (.ret has (.other notUnit sees different))
    exact ⟨notUnit, fits ▸ sees⟩

theorem regularFn_of_not_reports (known : ∀ b ∈ d.blocks, (p.block? f b).isSome)
    (none : ∀ entry, ¬ p.Reports f d entry) : p.RegularFn f d := by
  have fine : ∀ {before b is after i}, d.layout = before ++ (b, is) :: after →
      ¬ p.BadBlock f d before is i := by
    intro before b is after i split bad
    obtain ⟨x, block⟩ := Option.isSome_iff_exists.mp (known b (by simp [Fn.blocks, split]))
    exact none _ (.intro split block bad)
  -- Two entries that share a value are one: otherwise the later one places it again.
  have apart : ∀ {before c js after b is v}, d.layout = before ++ (c, js) :: after →
      (b, is) ∈ before → v ∈ is → v ∉ js := by
    intro before c js after b is v split earlier inside inside'
    obtain ⟨c', place⟩ := lastPlace_isSome earlier inside
    obtain ⟨js', earlier', -⟩ := lastPlace_eq_some place
    have laid : c' ∈ d.blocks := List.mem_map.mpr ⟨_, split ▸ List.mem_append_left _ earlier', rfl⟩
    obtain ⟨x, block⟩ := Option.isSome_iff_exists.mp (known c' laid)
    exact fine split (.twice inside' place block)
  refine regularFn_of_not_badInst ?_ ?_ ?_
  · intro b is laid empty
    obtain ⟨before, after, split⟩ := List.append_of_mem laid
    exact fine split (.empty empty)
  · intro b is c js v laid laid' inside inside'
    obtain ⟨before, after, split⟩ := List.append_of_mem laid
    rw [split] at laid'
    rcases List.mem_append.mp laid' with earlier | later
    · exact absurd inside (apart split earlier inside')
    · rcases List.mem_cons.mp later with same | later
      · cases same
        rfl
      · obtain ⟨mid, rest, rfl⟩ := List.append_of_mem later
        have split' : d.layout = (before ++ (b, is) :: mid) ++ (c, js) :: rest := by simp [split]
        exact absurd inside' (apart split' (List.mem_append_right _ List.mem_cons_self) inside)
  · intro b xs v ys i laid bad
    obtain ⟨before, after, split⟩ := List.append_of_mem laid
    exact fine split (.inst rfl bad)

/-! ## Programs -/

/-- A program in which nothing is wrong. -/
def Regular (p : Program) : Prop := ∀ f d, p.fn? f = some d → p.RegularFn f d

theorem Arranged.fnIssues_finds (arranged : p.Arranged) (found : p.fn? f = some d) :
    Finds (p.fnIssues f d) (p.Reports f d) (p.Breaks f d) :=
  Program.fnIssues_finds fun _ laid =>
    arranged.insts found (insts?_of_mem (arranged.blocks found) laid)

theorem issues_eq_error {e : Failure} (ran : p.issues = .error e) :
    ∃ f d, p.fn? f = some d ∧ p.fnIssues f d = .error e := by
  rcases Except.bind_eq_error.mp ran with ran | ⟨all, -, ran⟩
  · obtain ⟨f, mem, ran⟩ := Outcome.mapM_eq_error ran
    obtain ⟨d, found⟩ := mem_fnIds.mp mem
    rw [fn_eq_ok.mpr found, ok_bind] at ran
    rcases Except.bind_eq_error.mp ran with ran | ⟨is, -, ran⟩
    · exact ⟨f, d, found, ran⟩
    · cases ran
  · cases ran

/-- Every function was looked at, and the issues that are listed are those of some function. -/
theorem issues_eq_ok {all : List (String × List (String × Issue))} (ran : p.issues = .ok all) :
    (∀ {f d}, p.fn? f = some d → ∃ is, p.fnIssues f d = .ok is ∧ (is ≠ [] → (d.name, is) ∈ all)) ∧
      ∀ group ∈ all, group.2 ≠ [] ∧ ∃ f d, p.fn? f = some d ∧ p.fnIssues f d = .ok group.2 := by
  obtain ⟨groups, looked, ran⟩ := Except.bind_eq_ok.mp ran
  cases ran
  obtain ⟨each, every⟩ := Outcome.mapM_listed looked
  have one : ∀ {f d group}, p.fn? f = some d →
      (do let d ← p.fn f; return (d.name, ← p.fnIssues f d) : Outcome _) = .ok group →
        p.fnIssues f d = .ok group.2 ∧ group.1 = d.name := by
    intro f d group found ran
    rw [fn_eq_ok.mpr found, ok_bind] at ran
    obtain ⟨is, listed, ran⟩ := Except.bind_eq_ok.mp ran
    cases ran
    exact ⟨listed, rfl⟩
  constructor
  · intro f d found
    obtain ⟨group, mem, ran⟩ := each f (mem_fnIds.mpr ⟨d, found⟩)
    obtain ⟨ran, name⟩ := one found ran
    refine ⟨group.2, ran, fun some => List.mem_filter.mpr ⟨?_, by simpa using some⟩⟩
    rw [← name]
    exact mem
  · intro group mem
    obtain ⟨mem, some⟩ := List.mem_filter.mp mem
    obtain ⟨f, mem, ran⟩ := every group mem
    obtain ⟨d, found⟩ := mem_fnIds.mp mem
    exact ⟨by simpa using some, f, d, found, (one found ran).1⟩

/-- The line of an issue. -/
def entryText (entry : String × Issue) : String := s!"{entry.1}: {entry.2.message}"

/-- The lines of a function. -/
def groupText (group : String × List (String × Issue)) : String :=
  s!"function {group.1}: " ++ String.intercalate "\n" (group.2.map entryText)

theorem validate_of_issues {all : List (String × List (String × Issue))}
    (listed : p.issues = .ok all) : p.validate =
      .ok (if all.isEmpty then none else some (String.intercalate "\n" (all.map groupText))) := by
  rw [validate, listed, ok_bind]
  cases all <;> rfl

/-- A part of a text that was joined is in the text. -/
theorem infix_intercalate {sep s : String} {ss : List String} (mem : s ∈ ss) :
    s.toList <:+: (String.intercalate sep ss).toList := by
  rw [String.toList_intercalate, List.intercalate]
  apply List.infix_of_mem_flatten
  induction ss with
  | nil => cases mem
  | cons t ts ih =>
    cases ts with
    | nil =>
      obtain rfl := List.mem_singleton.mp mem
      simp
    | cons u us =>
      rcases List.mem_cons.mp mem with rfl | later
      · simp
      · simpa using .inr (.inr (ih later))

/-- The line of every issue that is listed stands in the verdict. -/
theorem entryText_infix {all : List (String × List (String × Issue))}
    {group : String × List (String × Issue)} (mem : group ∈ all) {entry : String × Issue}
    (inside : entry ∈ group.2) : (entryText entry).toList <:+:
      (String.intercalate "\n" (all.map groupText)).toList := by
  have line : (entryText entry).toList <:+: (groupText group).toList := by
    rw [groupText, String.toList_append]
    exact (infix_intercalate (List.mem_map_of_mem inside)).trans (List.suffix_append _ _).isInfix
  exact line.trans (infix_intercalate (List.mem_map_of_mem mem))

theorem Arranged.validate_eq_error (arranged : p.Arranged) {e : Failure}
    (ran : p.validate = .error e) : ∃ f d, p.fn? f = some d ∧ p.Breaks f d e := by
  cases listed : p.issues with
  | ok all =>
    rw [validate_of_issues listed] at ran
    cases ran
  | error e' =>
    rw [validate, listed] at ran
    cases ran
    obtain ⟨f, d, found, failed⟩ := issues_eq_error listed
    exact ⟨f, d, found, (arranged.fnIssues_finds found).broken failed⟩

/-- When there is a verdict, all blocks and returns could be looked up, and the verdict is that
nothing is wrong or has a line for each issue. -/
theorem Arranged.validate_eq_ok (arranged : p.Arranged) {verdict : Option String}
    (ran : p.validate = .ok verdict) :
    (∀ {f d e}, p.fn? f = some d → ¬ p.Breaks f d e) ∧
    (verdict = none ↔ ∀ {f d entry}, p.fn? f = some d → ¬ p.Reports f d entry) ∧
    ∀ {f d entry}, p.fn? f = some d → p.Reports f d entry →
      ∃ text, verdict = some text ∧ (entryText entry).toList <:+: text.toList := by
  cases listed : p.issues with
  | error e =>
    rw [validate, listed] at ran
    cases ran
  | ok all =>
    rw [validate_of_issues listed] at ran
    cases ran
    obtain ⟨each, every⟩ := issues_eq_ok listed
    have reported : ∀ {f d entry}, p.fn? f = some d → p.Reports f d entry →
        ∃ group ∈ all, entry ∈ group.2 := by
      intro f d entry found reports
      obtain ⟨is, ran, mem⟩ := each found
      have inside := ((arranged.fnIssues_finds found).listed ran entry).mpr reports
      exact ⟨_, mem (List.ne_nil_of_mem inside), inside⟩
    refine ⟨?_, ?_, ?_⟩
    · intro f d e found
      obtain ⟨is, ran, -⟩ := each found
      exact (arranged.fnIssues_finds found).unbroken ran e
    · constructor
      · intro none f d entry found reports
        obtain ⟨group, mem, -⟩ := reported found reports
        cases all with
        | nil => cases mem
        | cons g gs => cases none
      · intro none
        cases all with
        | nil => rfl
        | cons group groups =>
          obtain ⟨filled, f, d, found, ran⟩ := every group List.mem_cons_self
          obtain ⟨entry, inside⟩ := List.exists_mem_of_ne_nil _ filled
          exact absurd (((arranged.fnIssues_finds found).listed ran entry).mp inside) (none found)
    · intro f d entry found reports
      obtain ⟨group, mem, inside⟩ := reported found reports
      have filled : all.isEmpty = false := List.isEmpty_eq_false_iff.mpr (List.ne_nil_of_mem mem)
      rw [filled]
      exact ⟨_, rfl, entryText_infix mem inside⟩

theorem Arranged.regular_iff (arranged : p.Arranged)
    (whole : ∀ {f d e}, p.fn? f = some d → ¬ p.Breaks f d e) :
    p.Regular ↔ ∀ {f d entry}, p.fn? f = some d → ¬ p.Reports f d entry := by
  constructor
  · intro regular f d entry found
    exact (regular f d found).not_reports (arranged.blocks found)
  · intro none f d found
    refine regularFn_of_not_reports (fun b laid => ?_) fun entry => none found
    rw [Option.isSome_iff_ne_none]
    exact fun missing => whole found (.block laid missing)

/-- The check is exact: whenever it gives a verdict on an assembled program, the verdict is that
nothing is wrong just if all functions are regular. -/
theorem validate_exact (assembled : p.Assembled) {verdict : Option String}
    (ran : p.validate = .ok verdict) : verdict = none ↔ p.Regular := by
  obtain ⟨whole, none, -⟩ := assembled.arranged.validate_eq_ok ran
  rw [none, assembled.arranged.regular_iff whole]

/-- The edits that make `increment`. -/
def incrementEdits : List Edit :=
  [.newFn "@f" (.func [.i32] .i32) ["%x"], .integer (some 1) 1, .newBlock 1 "%entry",
   .newBlock 1 "%more", .newBlock 1 "%done", .pushBlock 1 1, .pushBlock 1 2, .pushBlock 1 3,
   .alloc 1 .i32, .pushInst 1 1 3, .store 1 1 3, .pushInst 1 1 4, .load 1 3, .pushInst 1 1 5,
   .branch 1 5 2 3, .pushInst 1 1 6,
   .binary 1 .sub 5 2, .pushInst 1 2 7, .call 1 1 [7], .pushInst 1 2 8, .store 1 8 3,
   .pushInst 1 2 9, .jump 1 3, .pushInst 1 2 10,
   .load 1 3, .pushInst 1 3 11, .binary 1 .add 11 2, .pushInst 1 3 12, .ret 1 12,
   .pushInst 1 3 13]

/-- The edits that make `overrun`. -/
def overrunEdits : List Edit := incrementEdits ++ [.alloc 1 .i32, .pushInst 1 3 14]

/-- A function that returns one more than its parameter, by one step for each call. -/
def increment : Program := (Edit.run incrementEdits).toOption.getD {}

/-- The same function with an instruction after the return. -/
def overrun : Program := (Edit.run overrunEdits).toOption.getD {}

theorem increment_exact : increment.validate = .ok none ∧ increment.Regular ∧
    overrun.validate = .ok (some
      "function @f: %done: terminator before end of block\n%done: unterminated block") ∧
    ¬ overrun.Regular := by
  have nothing : increment.validate = .ok none := by rfl
  have regular := (validate_exact ⟨incrementEdits, by rfl⟩ nothing).mp rfl
  have something : overrun.validate = .ok (some
      "function @f: %done: terminator before end of block\n%done: unterminated block") := by rfl
  have irregular := (validate_exact ⟨overrunEdits, by rfl⟩ something).not.mp (by simp)
  exact ⟨nothing, regular, something, irregular⟩

/-- The check of an assembled program gives a verdict unless a function has a block of another
function in its layout, or returns a value that it cannot see although it should return one. It says
what it could not find then. In a verdict, every issue has its line. -/
theorem validate_reports (assembled : p.Assembled) :
    ((∃ verdict, p.validate = .ok verdict) ↔
      ∀ {f d e}, p.fn? f = some d → ¬ p.Breaks f d e) ∧
    (∀ {e}, p.validate = .error e → ∃ f d, p.fn? f = some d ∧ p.Breaks f d e) ∧
    ∀ {verdict}, p.validate = .ok verdict → ∀ {f d entry}, p.fn? f = some d →
      p.Reports f d entry →
        ∃ text, verdict = some text ∧ (entryText entry).toList <:+: text.toList := by
  refine ⟨⟨?_, ?_⟩, assembled.arranged.validate_eq_error, ?_⟩
  · rintro ⟨verdict, ran⟩
    exact (assembled.arranged.validate_eq_ok ran).1
  · intro whole
    cases ran : p.validate with
    | ok verdict => exact ⟨verdict, rfl⟩
    | error e =>
      obtain ⟨f, d, found, broken⟩ := assembled.arranged.validate_eq_error ran
      exact absurd broken (whole found)
  · intro verdict ran
    exact (assembled.arranged.validate_eq_ok ran).2.2

/-- The edits that make `borrowing`. -/
def borrowingEdits : List Edit :=
  [.newFn "@f" (.func [.i32] .i32) ["%x"], .newFn "@g" (.func [] .i32) [],
   .integer (some 2) 1, .newBlock 2 "%entry", .pushBlock 2 1, .binary 2 .add 1 2, .pushInst 2 1 3,
   .ret 2 3, .pushInst 2 1 4]

/-- A function that adds to the parameter of another one. -/
def borrowing : Program := (Edit.run borrowingEdits).toOption.getD {}

theorem borrowing_reports : ∃ text, borrowing.validate = .ok (some text) ∧
    (entryText ("%entry", .undefinedOperand 1)).toList <:+: text.toList := by
  have assembled : borrowing.Assembled := ⟨borrowingEdits, by rfl⟩
  have ran : borrowing.validate = .ok (some "function @g: %entry: operand 1 is undefined") := by rfl
  have unseen : ¬ borrowing.Visible 2 1 := fun there => absurd (by rfl) (visible_iff.mp there)
  have bad : borrowing.BadInst 2 ((borrowing.fn? 2).getD default) 3 false (.undefinedOperand 1) :=
    .operand (t := .i32) (x := .binary .add 1 2) ⟨"", by rfl⟩ List.mem_cons_self unseen
  have laid : ((borrowing.fn? 2).getD default).layout = [] ++ (1, [] ++ 3 :: [4]) :: [] := by rfl
  have reports : borrowing.Reports 2 ((borrowing.fn? 2).getD default)
      ("%entry", .undefinedOperand 1) := .intro (x := ⟨2, "%entry"⟩) laid (by rfl) (.inst rfl bad)
  obtain ⟨text, same, line⟩ := (validate_reports assembled).2.2 ran (by rfl) reports
  exact ⟨text, same ▸ ran, line⟩

/-- The second function returns the parameter of the first. -/
def borrowedReturn : List Edit :=
  [.newFn "@f" (.func [.i32] .i32) ["%x"], .newFn "@g" (.func [] .i32) [], .newBlock 2 "%entry",
   .pushBlock 2 1, .ret 2 1, .pushInst 2 1 2]

/-- The second function lays out a block of the first. -/
def borrowedBlock : List Edit :=
  [.newFn "@f" (.func [] .unit) [], .newFn "@g" (.func [] .unit) [], .newBlock 1 "%entry",
   .pushBlock 2 1]

/-- Neither program gets a verdict: looking up what belongs to the other function fails. -/
theorem borrowed_breaks :
    (Edit.run borrowedReturn >>= validate) = .error (.fault (some "ir: unknown value 1")) ∧
    (Edit.run borrowedBlock >>= validate) = .error (.fault (some "ir: unknown basic block 1")) :=
  ⟨by rfl, by rfl⟩

end Koopa.Program

end SysY

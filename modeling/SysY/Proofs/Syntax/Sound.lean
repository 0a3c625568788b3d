import SysY.Proofs.Syntax.Reading
import SysY.Proofs.Syntax.Whole

/-! # What is parsed is in the grammar

Whatever the parser reads is spelled by the tokens that it used up. Besides, it never stops early:
after an expression comes no operator that could continue it, and after a statement that ends with
an open `if` comes no `else`. -/

namespace SysY.Parser

open Source (Span)
open Grammar

/-! ## Expressions -/

/-- The tokens between two inputs spell `a`. -/
def Finds {α : Type} (P : List Token → α → Prop) (i : Input) (a : α) (j : Input) : Prop :=
  ∃ ts, Reads i ts j ∧ P ts a

mutual

theorem binary_finds {least : Nat} {i : Input} {t : Taken Expr i} (small : least ≤ 7)
    (h : binary least i = .ok t) :
    Finds (Level (max least 1)) i t.value t.next ∧ Next t.next (Below least) := by
  rw [binary] at h
  obtain ⟨left, hleft, h⟩ := Except.bind_eq_ok.mp h
  obtain ⟨all, hall, h⟩ := Except.bind_eq_ok.mp h
  cases h
  have := left.shorter
  obtain ⟨ts, reads, isUnary⟩ := unary_finds hleft
  refine binaryRest_finds reads (.unary isUnary) (by omega) (fun t _ op found => ?_) hall
  exact Nat.lt_of_le_of_lt (binaryOp?_eq_some_iff.mp found).range.2 (by decide)
termination_by 8 * i.size + 3
decreasing_by all_goals omega

/-- What has been read so far is of level `m`, and no operator comes next that binds tighter. -/
theorem binaryRest_finds {least m : Nat} {left : Expr} {i₀ i : Input} {t : Kept Expr i}
    {ts : List Token} (reads : Reads i₀ ts i) (isLeft : Level m ts left) (le : max least 1 ≤ m)
    (below : Next i (Below (m + 1))) (h : binaryRest least left i = .ok t) :
    Finds (Level (max least 1)) i₀ t.value t.next ∧ Next t.next (Below least) := by
  rw [binaryRest] at h
  split at h
  · rename_i none
    cases h
    exact ⟨⟨ts, reads, isLeft.lower le⟩, (takeIf_eq_none.mp none).mono fun _ => binaryOpFrom?_eq_none.mp⟩
  · rename_i op taken
    obtain ⟨right, hright, h⟩ := Except.bind_eq_ok.mp h
    obtain ⟨all, hall, h⟩ := Except.bind_eq_ok.mp h
    cases h
    have := op.shorter
    have := right.shorter
    obtain ⟨readsOp, found⟩ := takeIf_eq_some taken
    obtain ⟨found, atLeast⟩ := Option.filter_eq_some_iff.mp found
    have isOp : Operator _ op.value.2.1 op.value.2.2 := binaryOp?_eq_some_iff.mp found
    have range := isOp.range
    have tight : op.value.2.2 < m + 1 := readsOp.next.mp below _ found
    have atLeast : least ≤ op.value.2.2 := by simpa using atLeast
    obtain ⟨⟨us, readsRight, isRight⟩, belowRight⟩ := binary_finds (by omega) hright
    rw [Nat.max_eq_left (by omega)] at isRight
    have isLeft := isLeft.lower (Nat.le_of_lt_succ tight)
    have found := binaryRest_finds (reads.trans (readsOp.cons readsRight))
      (.binary isLeft isOp isRight) (by omega) belowRight hall
    exact found
termination_by 8 * i.size
decreasing_by all_goals omega

theorem unary_finds {i : Input} {t : Taken Expr i} (h : unary i = .ok t) :
    Finds Grammar.Unary i t.value t.next := by
  rw [unary] at h
  split at h
  · rename_i op taken
    obtain ⟨operand, hoperand, h⟩ := Except.bind_eq_ok.mp h
    cases h
    have := op.shorter
    obtain ⟨readsOp, found⟩ := takeIf_eq_some taken
    obtain ⟨ts, reads, isUnary⟩ := unary_finds hoperand
    exact ⟨_, readsOp.cons reads, .unary (unaryOp?_eq_some_iff.mp found) isUnary⟩
  · obtain ⟨ts, reads, isPrimary⟩ := primary_finds h
    exact ⟨ts, reads, .primary isPrimary⟩
termination_by 8 * i.size + 2
decreasing_by all_goals omega

theorem primary_finds {i : Input} {t : Taken Expr i} (h : primary i = .ok t) :
    Finds Primary i t.value t.next := by
  rw [primary] at h
  split at h
  · rename_i opening taken
    obtain ⟨inner, hinner, h⟩ := Except.bind_eq_ok.mp h
    obtain ⟨close, hclose, h⟩ := Except.bind_eq_ok.mp h
    cases h
    have := opening.shorter
    obtain ⟨readsOpen, isOpen⟩ := take?_eq_some taken
    obtain ⟨⟨ts, reads, isInner⟩, -⟩ := binary_finds (by decide) hinner
    obtain ⟨readsClose, isClose⟩ := expect_eq_ok hclose
    exact ⟨_, (readsOpen.cons reads).snoc readsClose, .group isOpen isInner isClose⟩
  · split at h
    · rename_i number taken
      obtain ⟨reads, isNumber⟩ := take?_eq_some taken
      unfold literal at h
      split at h
      · rename_i v found
        cases h
        exact ⟨_, reads, .number isNumber found⟩
      · cases h
    · split at h
      · rename_i name taken
        have := name.shorter
        obtain ⟨readsName, isName⟩ := take?_eq_some taken
        split at h
        · rename_i opening taken
          obtain ⟨args, hargs, h⟩ := Except.bind_eq_ok.mp h
          obtain ⟨close, hclose, h⟩ := Except.bind_eq_ok.mp h
          cases h
          have := opening.shorter
          obtain ⟨readsOpen, isOpen⟩ := take?_eq_some taken
          obtain ⟨readsClose, isClose⟩ := expect_eq_ok hclose
          rcases arguments_finds hargs with ⟨none, reads⟩ | ⟨ts, reads, areArgs⟩
          · rw [none]
            exact ⟨_, readsName.cons (readsOpen.cons (reads.trans readsClose)),
              .call isName isOpen isClose⟩
          · exact ⟨_, (readsName.cons (readsOpen.cons reads)).snoc readsClose,
              .callWith isName isOpen areArgs isClose⟩
        · obtain ⟨all, hall, h⟩ := Except.bind_eq_ok.mp h
          cases h
          obtain ⟨ts, reads, isNamed⟩ := subscripts_finds readsName (.name isName) hall
          exact ⟨ts, reads, .named isNamed⟩
      · cases h
termination_by 8 * i.size + 1
decreasing_by all_goals omega

theorem arguments_finds {i : Input} {t : Kept (List Expr) i} (h : arguments i = .ok t) :
    (t.value = [] ∧ Reads i [] t.next) ∨ Finds (Commas (Level 1)) i t.value t.next := by
  rw [arguments] at h
  split at h
  · cases h
    exact .inl ⟨rfl, .refl i⟩
  · obtain ⟨args, hargs, h⟩ := Except.bind_eq_ok.mp h
    cases h
    exact .inr (argumentList_finds hargs)
termination_by 8 * i.size + 5
decreasing_by all_goals omega

theorem argumentList_finds {i : Input} {t : Taken (List Expr) i} (h : argumentList i = .ok t) :
    Finds (Commas (Level 1)) i t.value t.next := by
  rw [argumentList] at h
  obtain ⟨arg, harg, h⟩ := Except.bind_eq_ok.mp h
  have := arg.shorter
  obtain ⟨⟨ts, reads, isArg⟩, -⟩ := binary_finds (by decide) harg
  simp only at h
  split at h
  · cases h
    exact ⟨ts, reads, .one isArg⟩
  · rename_i comma taken
    obtain ⟨more, hmore, h⟩ := Except.bind_eq_ok.mp h
    cases h
    have := comma.shorter
    obtain ⟨readsComma, isComma⟩ := take?_eq_some taken
    obtain ⟨us, readsMore, areMore⟩ := argumentList_finds hmore
    exact ⟨_, reads.trans (readsComma.cons readsMore), .more isArg isComma areMore⟩
termination_by 8 * i.size + 4
decreasing_by all_goals omega

theorem subscripts_finds {target : Expr} {i₀ i : Input} {t : Kept Expr i} {ts : List Token}
    (reads : Reads i₀ ts i) (isNamed : Named ts target) (h : subscripts target i = .ok t) :
    Finds Named i₀ t.value t.next := by
  rw [subscripts] at h
  split at h
  · cases h
    exact ⟨ts, reads, isNamed⟩
  · rename_i opening taken
    obtain ⟨idx, hidx, h⟩ := Except.bind_eq_ok.mp h
    obtain ⟨close, hclose, h⟩ := Except.bind_eq_ok.mp h
    obtain ⟨all, hall, h⟩ := Except.bind_eq_ok.mp h
    cases h
    have := opening.shorter
    have := idx.shorter
    have := close.shorter
    obtain ⟨readsOpen, isOpen⟩ := take?_eq_some taken
    obtain ⟨⟨us, readsIdx, isIdx⟩, -⟩ := binary_finds (by decide) hidx
    obtain ⟨readsClose, isClose⟩ := expect_eq_ok hclose
    have found := subscripts_finds ((reads.trans (readsOpen.cons readsIdx)).snoc readsClose)
      (.index isNamed isOpen isIdx isClose) hall
    exact found
termination_by 8 * i.size
decreasing_by all_goals omega

end

theorem expr_finds {i : Input} {t : Taken Expr i} (h : expr i = .ok t) :
    Finds (Level 1) i t.value t.next := (binary_finds (by decide) h).1

/-! ## Declarations -/

theorem baseType_eq_ok {i : Input} {t : Taken BaseType i} (h : baseType i = .ok t) :
    ∃ base, Reads i [base] t.next ∧ baseType? base.kind = some t.value := by
  unfold baseType at h
  split at h
  · rename_i base taken
    cases h
    obtain ⟨reads, found⟩ := takeIf_eq_some taken
    exact ⟨_, reads, found⟩
  · cases h

theorem bounds_finds {i : Input} {t : Kept (List Expr) i} (h : bounds i = .ok t) :
    Finds Dims i t.value t.next := by
  rw [bounds] at h
  split at h
  · cases h
    exact ⟨[], .refl i, .none⟩
  · rename_i opening taken
    obtain ⟨dim, hdim, h⟩ := Except.bind_eq_ok.mp h
    obtain ⟨close, hclose, h⟩ := Except.bind_eq_ok.mp h
    obtain ⟨more, hmore, h⟩ := Except.bind_eq_ok.mp h
    cases h
    have := opening.shorter
    have := dim.shorter
    have := close.shorter
    obtain ⟨readsOpen, isOpen⟩ := take?_eq_some taken
    obtain ⟨ts, readsDim, isDim⟩ := expr_finds hdim
    obtain ⟨readsClose, isClose⟩ := expect_eq_ok hclose
    obtain ⟨us, readsMore, areMore⟩ := bounds_finds hmore
    exact ⟨_, (readsOpen.cons readsDim).trans (readsClose.cons readsMore),
      .more isOpen isDim isClose areMore⟩
termination_by i.size
decreasing_by all_goals omega

mutual

theorem init_finds {i : Input} {t : Taken Init i} (h : init i = .ok t) :
    Finds Initializer i t.value t.next := by
  rw [init] at h
  split at h
  · obtain ⟨value, hvalue, h⟩ := Except.bind_eq_ok.mp h
    cases h
    obtain ⟨ts, reads, isValue⟩ := expr_finds hvalue
    exact ⟨ts, reads, .value isValue⟩
  · rename_i opening taken
    obtain ⟨elems, helems, h⟩ := Except.bind_eq_ok.mp h
    obtain ⟨close, hclose, h⟩ := Except.bind_eq_ok.mp h
    cases h
    have := opening.shorter
    obtain ⟨readsOpen, isOpen⟩ := take?_eq_some taken
    obtain ⟨readsClose, isClose⟩ := expect_eq_ok hclose
    rcases initElems_finds helems with ⟨none, reads⟩ | ⟨ts, reads, areElems⟩
    · rw [none]
      exact ⟨_, readsOpen.cons (reads.trans readsClose), .empty isOpen isClose⟩
    · exact ⟨_, (readsOpen.cons reads).snoc readsClose, .list isOpen areElems isClose⟩
termination_by 4 * i.size
decreasing_by all_goals omega

theorem initElems_finds {i : Input} {t : Kept (List Init) i} (h : initElems i = .ok t) :
    (t.value = [] ∧ Reads i [] t.next) ∨ Finds (Commas Initializer) i t.value t.next := by
  rw [initElems] at h
  split at h
  · cases h
    exact .inl ⟨rfl, .refl i⟩
  · obtain ⟨elems, helems, h⟩ := Except.bind_eq_ok.mp h
    cases h
    exact .inr (initList_finds helems)
termination_by 4 * i.size + 2
decreasing_by all_goals omega

theorem initList_finds {i : Input} {t : Taken (List Init) i} (h : initList i = .ok t) :
    Finds (Commas Initializer) i t.value t.next := by
  rw [initList] at h
  obtain ⟨elem, helem, h⟩ := Except.bind_eq_ok.mp h
  have := elem.shorter
  obtain ⟨ts, reads, isElem⟩ := init_finds helem
  simp only at h
  split at h
  · cases h
    exact ⟨ts, reads, .one isElem⟩
  · rename_i comma taken
    obtain ⟨more, hmore, h⟩ := Except.bind_eq_ok.mp h
    cases h
    have := comma.shorter
    obtain ⟨readsComma, isComma⟩ := take?_eq_some taken
    obtain ⟨us, readsMore, areMore⟩ := initList_finds hmore
    exact ⟨_, reads.trans (readsComma.cons readsMore), .more isElem isComma areMore⟩
termination_by 4 * i.size + 1
decreasing_by all_goals omega

end

theorem defRest_finds {name : Token} {i : Input} {t : Kept Def i} (isName : name.kind = .ident)
    (h : defRest name i = .ok t) :
    Finds (fun ts => Definition (name :: ts)) i t.value t.next := by
  unfold defRest at h
  obtain ⟨dims, hdims, h⟩ := Except.bind_eq_ok.mp h
  obtain ⟨ts, reads, areDims⟩ := bounds_finds hdims
  simp only at h
  split at h
  · cases h
    exact ⟨ts, reads, .blank isName areDims⟩
  · rename_i assign taken
    obtain ⟨value, hvalue, h⟩ := Except.bind_eq_ok.mp h
    cases h
    obtain ⟨readsAssign, isAssign⟩ := take?_eq_some taken
    obtain ⟨us, readsValue, isValue⟩ := init_finds hvalue
    exact ⟨_, reads.trans (readsAssign.cons readsValue), .init isName areDims isAssign isValue⟩

theorem defList_finds {name : Token} {i : Input} {t : Kept (List Def) i}
    (isName : name.kind = .ident) (h : defList name i = .ok t) :
    Finds (fun ts => Commas Definition (name :: ts)) i t.value t.next := by
  rw [defList] at h
  obtain ⟨first, hfirst, h⟩ := Except.bind_eq_ok.mp h
  have := first.notLonger
  obtain ⟨ts, reads, isFirst⟩ := defRest_finds isName hfirst
  simp only at h
  split at h
  · cases h
    exact ⟨ts, reads, .one isFirst⟩
  · rename_i comma taken
    obtain ⟨second, hsecond, h⟩ := Except.bind_eq_ok.mp h
    obtain ⟨more, hmore, h⟩ := Except.bind_eq_ok.mp h
    cases h
    have := comma.shorter
    have := second.shorter
    obtain ⟨readsComma, isComma⟩ := take?_eq_some taken
    obtain ⟨readsSecond, isSecond⟩ := expect_eq_ok hsecond
    obtain ⟨us, readsMore, areMore⟩ := defList_finds isSecond hmore
    exact ⟨_, reads.trans (readsComma.cons (readsSecond.cons readsMore)),
      .more isFirst isComma areMore⟩
termination_by i.size
decreasing_by all_goals omega

/-- A declaration from after its first defined name on, and the semicolon at its end. -/
theorem declRest_finds {start : Span} {isConst : Bool} {type : BaseType} {name : Token}
    {i : Input} {t : Taken Decl i} (isName : name.kind = .ident)
    (h : declRest start isConst type name i = .ok t) :
    ∃ ts close, Reads i (ts ++ [close]) t.next ∧ close.kind = .semicolon ∧
      ∃ ds, Commas Definition (name :: ts) ds ∧
        t.value = { isConst := isConst, type := type, span := start.cover t.next.last,
                    defs := ds } := by
  unfold declRest at h
  obtain ⟨defs, hdefs, h⟩ := Except.bind_eq_ok.mp h
  obtain ⟨close, hclose, h⟩ := Except.bind_eq_ok.mp h
  cases h
  obtain ⟨ts, reads, areDefs⟩ := defList_finds isName hdefs
  obtain ⟨readsClose, isClose⟩ := expect_eq_ok hclose
  exact ⟨ts, close.value, reads.snoc readsClose, isClose, defs.value, areDefs, rfl⟩

/-- A declaration from its type on. -/
theorem declFrom_finds {start : Span} {isConst : Bool} {i : Input} {t : Taken Decl i}
    (h : declFrom start isConst i = .ok t) :
    ∃ base ts close, Reads i (base :: ts ++ [close]) t.next ∧ close.kind = .semicolon ∧
      ∃ type ds, baseType? base.kind = some type ∧ Commas Definition ts ds ∧
        t.value = { isConst := isConst, type := type, span := start.cover t.next.last,
                    defs := ds } := by
  unfold declFrom at h
  obtain ⟨type, htype, h⟩ := Except.bind_eq_ok.mp h
  obtain ⟨name, hname, h⟩ := Except.bind_eq_ok.mp h
  obtain ⟨rest, hrest, h⟩ := Except.bind_eq_ok.mp h
  cases h
  obtain ⟨base, readsBase, isBase⟩ := baseType_eq_ok htype
  obtain ⟨readsName, isName⟩ := expect_eq_ok hname
  obtain ⟨ts, close, readsRest, isClose, ds, areDefs, value⟩ := declRest_finds isName hrest
  exact ⟨base, name.value :: ts, close, readsBase.cons (readsName.cons readsRest), isClose,
    type.value, ds, isBase, areDefs, value⟩

theorem decl_finds {i : Input} {t : Taken Decl i} (h : decl i = .ok t) :
    Finds Declaration i t.value t.next := by
  unfold decl at h
  split at h
  · obtain ⟨base, ts, close, reads, isClose, type, ds, isBase, areDefs, value⟩ := declFrom_finds h
    refine ⟨_, reads, ?_⟩
    rw [value, reads.extent (by simp)]
    exact .vars isBase areDefs isClose
  · rename_i const taken
    obtain ⟨all, hall, h⟩ := Except.bind_eq_ok.mp h
    cases h
    obtain ⟨readsConst, isConst⟩ := take?_eq_some taken
    obtain ⟨base, ts, close, reads, isClose, type, ds, isBase, areDefs, value⟩ :=
      declFrom_finds hall
    have reads := readsConst.cons reads
    refine ⟨_, reads, ?_⟩
    rw [value, reads.extent (by simp)]
    exact .consts isConst isBase areDefs isClose

/-! ## Statements -/

variable {nearest : Bool}

theorem condition_finds {i : Input} {t : Taken Expr i} (h : condition i = .ok t) :
    ∃ opening ts close, Reads i (opening :: ts ++ [close]) t.next ∧ opening.kind = .lParen ∧
      Level 1 ts t.value ∧ close.kind = .rParen := by
  unfold condition at h
  obtain ⟨opening, hopening, h⟩ := Except.bind_eq_ok.mp h
  obtain ⟨cond, hcond, h⟩ := Except.bind_eq_ok.mp h
  obtain ⟨close, hclose, h⟩ := Except.bind_eq_ok.mp h
  cases h
  obtain ⟨readsOpen, isOpen⟩ := expect_eq_ok hopening
  obtain ⟨ts, reads, isCond⟩ := expr_finds hcond
  obtain ⟨readsClose, isClose⟩ := expect_eq_ok hclose
  exact ⟨_, ts, _, (readsOpen.cons reads).snoc readsClose, isOpen, isCond, isClose⟩

theorem simple_finds {i : Input} {t : Taken Stmt i} (h : simple i = .ok t) :
    Finds (Statement nearest) i t.value t.next ∧ endsOpen t.value = false := by
  unfold simple at h
  obtain ⟨value, hvalue, h⟩ := Except.bind_eq_ok.mp h
  obtain ⟨ts, reads, isValue⟩ := expr_finds hvalue
  simp only at h
  split at h
  · obtain ⟨close, hclose, h⟩ := Except.bind_eq_ok.mp h
    cases h
    obtain ⟨readsClose, isClose⟩ := expect_eq_ok hclose
    have reads := reads.snoc readsClose
    refine ⟨⟨_, reads, ?_⟩, rfl⟩
    rw [reads.extent (by simp)]
    exact .effect isValue isClose
  · rename_i assign taken
    split at h
    · cases h
    · rename_i isPlace
      obtain ⟨source, hsource, h⟩ := Except.bind_eq_ok.mp h
      obtain ⟨close, hclose, h⟩ := Except.bind_eq_ok.mp h
      cases h
      obtain ⟨readsAssign, isAssign⟩ := take?_eq_some taken
      obtain ⟨us, readsSource, isSource⟩ := expr_finds hsource
      obtain ⟨readsClose, isClose⟩ := expect_eq_ok hclose
      have reads := (reads.trans (readsAssign.cons readsSource)).snoc readsClose
      refine ⟨⟨_, reads, ?_⟩, rfl⟩
      rw [reads.extent (by simp)]
      have isPlace := Option.isSome_iff_ne_none.mpr (by simpa using isPlace)
      exact .assign (isValue.assignable isPlace) isAssign isSource isClose

theorem returnValue_finds {i : Input} {t : Kept (Option Expr) i} (h : returnValue i = .ok t) :
    (t.value = none ∧ Reads i [] t.next) ∨
      ∃ ts e, Reads i ts t.next ∧ Level 1 ts e ∧ t.value = some e := by
  unfold returnValue at h
  split at h
  · cases h
    exact .inl ⟨rfl, .refl i⟩
  · obtain ⟨value, hvalue, h⟩ := Except.bind_eq_ok.mp h
    cases h
    obtain ⟨ts, reads, isValue⟩ := expr_finds hvalue
    exact .inr ⟨ts, _, reads, isValue, rfl⟩

mutual

theorem block_finds {i : Input} {t : Taken Stmt i} (h : block i = .ok t) :
    ∃ opening ts ss close, Reads i (opening :: ts ++ [close]) t.next ∧ opening.kind = .lBrace ∧
      Contents nearest ts ss ∧ close.kind = .rBrace ∧
      t.value = .block (opening.span.cover close.span) ss := by
  rw [block] at h
  obtain ⟨opening, hopening, h⟩ := Except.bind_eq_ok.mp h
  obtain ⟨body, hbody, h⟩ := Except.bind_eq_ok.mp h
  cases h
  have := opening.shorter
  obtain ⟨readsOpen, isOpen⟩ := expect_eq_ok hopening
  obtain ⟨ts, reads, areContents, isClose⟩ := blockRest_finds hbody
  exact ⟨_, ts, _, _, readsOpen.cons reads, isOpen, areContents, isClose, rfl⟩
termination_by 8 * i.size
decreasing_by all_goals omega

theorem blockRest_finds {i : Input} {t : Taken (List Stmt × Token) i} (h : blockRest i = .ok t) :
    ∃ ts, Reads i (ts ++ [t.value.2]) t.next ∧ Contents nearest ts t.value.1 ∧
      t.value.2.kind = .rBrace := by
  rw [blockRest] at h
  split at h
  · rename_i close taken
    cases h
    obtain ⟨reads, isClose⟩ := take?_eq_some taken
    exact ⟨[], reads, .none, isClose⟩
  · split at h
    · cases h
    · obtain ⟨first, hfirst, h⟩ := Except.bind_eq_ok.mp h
      obtain ⟨more, hmore, h⟩ := Except.bind_eq_ok.mp h
      cases h
      have := first.shorter
      obtain ⟨us, readsMore, areMore, isClose⟩ := blockRest_finds hmore
      obtain ⟨ts, reads, isItem⟩ := blockItem_finds hfirst
      refine ⟨ts ++ us, ?_, isItem us _ areMore, isClose⟩
      rw [List.append_assoc]
      exact reads.trans readsMore
termination_by 8 * i.size + 3
decreasing_by all_goals omega

/-- A local declaration or a statement, in front of other ones. -/
theorem blockItem_finds {i : Input} {t : Taken Stmt i} (h : blockItem i = .ok t) :
    ∃ ts, Reads i ts t.next ∧
      ∀ us ss, Contents nearest us ss → Contents nearest (ts ++ us) (t.value :: ss) := by
  rw [blockItem] at h
  split at h
  · obtain ⟨d, hd, h⟩ := Except.bind_eq_ok.mp h
    cases h
    obtain ⟨ts, reads, isDecl⟩ := decl_finds hd
    refine ⟨ts, reads, fun us ss areMore => ?_⟩
    rw [reads.extent isDecl.ne_nil]
    exact .decl isDecl areMore
  · obtain ⟨⟨ts, reads, isStmt⟩, -⟩ := stmt_finds h
    exact ⟨ts, reads, fun us ss areMore => .stmt isStmt areMore⟩
termination_by 8 * i.size + 2
decreasing_by all_goals omega

theorem stmt_finds {i : Input} {t : Taken Stmt i} (h : stmt i = .ok t) :
    Finds (Statement nearest) i t.value t.next ∧
      (endsOpen t.value = true → Next t.next (· ≠ .kwElse)) := by
  rw [stmt] at h
  split at h
  · obtain ⟨opening, ts, ss, close, reads, isOpen, areContents, isClose, value⟩ := block_finds h
    rw [value]
    exact ⟨⟨_, reads, .block isOpen areContents isClose⟩, nofun⟩
  · obtain ⟨close, hclose, h⟩ := Except.bind_eq_ok.mp h
    cases h
    obtain ⟨reads, isClose⟩ := expect_eq_ok hclose
    exact ⟨⟨_, reads, .empty isClose⟩, nofun⟩
  · obtain ⟨keyword, hkeyword, h⟩ := Except.bind_eq_ok.mp h
    obtain ⟨cond, hcond, h⟩ := Except.bind_eq_ok.mp h
    obtain ⟨arm, harm, h⟩ := Except.bind_eq_ok.mp h
    have := keyword.shorter
    have := cond.shorter
    have := arm.shorter
    obtain ⟨readsKeyword, isIf⟩ := expect_eq_ok hkeyword
    obtain ⟨opening, ts, close, readsCond, isOpen, isCond, isClose⟩ := condition_finds hcond
    obtain ⟨⟨us, readsArm, isArm⟩, armOpen⟩ := stmt_finds harm
    have readsThen := readsKeyword.cons (readsCond.onward readsArm)
    simp only at h
    split at h
    · rename_i noElse
      cases h
      refine ⟨⟨_, readsThen, ?_⟩, fun _ => take?_eq_none.mp noElse⟩
      rw [readsThen.cover]
      exact .ifThen isIf isOpen isCond isClose isArm
    · rename_i other taken
      obtain ⟨otherArm, hotherArm, h⟩ := Except.bind_eq_ok.mp h
      cases h
      have := other.shorter
      obtain ⟨readsElse, isElse⟩ := take?_eq_some taken
      obtain ⟨⟨vs, readsOther, isOther⟩, otherOpen⟩ := stmt_finds hotherArm
      have reads := readsThen.trans (readsElse.cons readsOther)
      refine ⟨⟨_, reads, ?_⟩, otherOpen⟩
      have closed : endsOpen arm.value = false := by
        cases isOpen : endsOpen arm.value with
        | false => rfl
        | true => exact absurd isElse (readsElse.next.mp (armOpen isOpen))
      have whole : keyword.value.span.cover otherArm.next.last = _ := reads.cover
      rw [whole]
      exact .ifElse isIf isOpen isCond isClose isArm (fun _ => closed) isElse isOther
  · obtain ⟨keyword, hkeyword, h⟩ := Except.bind_eq_ok.mp h
    obtain ⟨cond, hcond, h⟩ := Except.bind_eq_ok.mp h
    obtain ⟨body, hbody, h⟩ := Except.bind_eq_ok.mp h
    cases h
    have := keyword.shorter
    have := cond.shorter
    obtain ⟨readsKeyword, isWhile⟩ := expect_eq_ok hkeyword
    obtain ⟨opening, ts, close, readsCond, isOpen, isCond, isClose⟩ := condition_finds hcond
    obtain ⟨⟨us, readsBody, isBody⟩, bodyOpen⟩ := stmt_finds hbody
    have reads := readsKeyword.cons (readsCond.onward readsBody)
    refine ⟨⟨_, reads, ?_⟩, bodyOpen⟩
    rw [reads.cover]
    exact .while isWhile isOpen isCond isClose isBody
  · obtain ⟨keyword, hkeyword, h⟩ := Except.bind_eq_ok.mp h
    obtain ⟨close, hclose, h⟩ := Except.bind_eq_ok.mp h
    cases h
    obtain ⟨readsKeyword, isBreak⟩ := expect_eq_ok hkeyword
    obtain ⟨readsClose, isClose⟩ := expect_eq_ok hclose
    have reads := readsKeyword.cons readsClose
    refine ⟨⟨_, reads, ?_⟩, nofun⟩
    rw [reads.cover]
    exact .break isBreak isClose
  · obtain ⟨keyword, hkeyword, h⟩ := Except.bind_eq_ok.mp h
    obtain ⟨close, hclose, h⟩ := Except.bind_eq_ok.mp h
    cases h
    obtain ⟨readsKeyword, isContinue⟩ := expect_eq_ok hkeyword
    obtain ⟨readsClose, isClose⟩ := expect_eq_ok hclose
    have reads := readsKeyword.cons readsClose
    refine ⟨⟨_, reads, ?_⟩, nofun⟩
    rw [reads.cover]
    exact .continue isContinue isClose
  · obtain ⟨keyword, hkeyword, h⟩ := Except.bind_eq_ok.mp h
    obtain ⟨value, hvalue, h⟩ := Except.bind_eq_ok.mp h
    obtain ⟨close, hclose, h⟩ := Except.bind_eq_ok.mp h
    cases h
    obtain ⟨readsKeyword, isReturn⟩ := expect_eq_ok hkeyword
    obtain ⟨readsClose, isClose⟩ := expect_eq_ok hclose
    rcases returnValue_finds hvalue with ⟨none, readsValue⟩ | ⟨ts, e, readsValue, isValue, some⟩
    · have reads := readsKeyword.cons (readsValue.trans readsClose)
      refine ⟨⟨_, reads, ?_⟩, nofun⟩
      rw [reads.cover, none]
      exact .return isReturn isClose
    · have reads := readsKeyword.cons (readsValue.trans readsClose)
      refine ⟨⟨_, reads, ?_⟩, nofun⟩
      rw [reads.cover, some]
      exact .returnValue isReturn isValue isClose
  · obtain ⟨found, closed⟩ := simple_finds h
    exact ⟨found, fun isOpen => absurd (closed.symm.trans isOpen) (by decide)⟩
termination_by 8 * i.size + 1
decreasing_by all_goals omega

end

/-! ## Items -/

theorem param_finds {i : Input} {t : Taken Param i} (h : param i = .ok t) :
    Finds Parameter i t.value t.next := by
  unfold param at h
  obtain ⟨type, htype, h⟩ := Except.bind_eq_ok.mp h
  obtain ⟨name, hname, h⟩ := Except.bind_eq_ok.mp h
  obtain ⟨base, readsBase, isBase⟩ := baseType_eq_ok htype
  obtain ⟨readsName, isName⟩ := expect_eq_ok hname
  simp only at h
  split at h
  · cases h
    have reads := readsBase.cons readsName
    refine ⟨_, reads, ?_⟩
    rw [reads.extent (by simp)]
    exact .number isBase isName
  · rename_i opening taken
    obtain ⟨close, hclose, h⟩ := Except.bind_eq_ok.mp h
    obtain ⟨dims, hdims, h⟩ := Except.bind_eq_ok.mp h
    cases h
    obtain ⟨readsOpen, isOpen⟩ := take?_eq_some taken
    obtain ⟨readsClose, isClose⟩ := expect_eq_ok hclose
    obtain ⟨ts, readsDims, areDims⟩ := bounds_finds hdims
    have reads := readsBase.cons (readsName.cons (readsOpen.cons (readsClose.cons readsDims)))
    refine ⟨_, reads, ?_⟩
    rw [reads.extent (by simp)]
    exact .array isBase isName isOpen isClose areDims

theorem paramList_finds {i : Input} {t : Taken (List Param) i} (h : paramList i = .ok t) :
    Finds (Commas Parameter) i t.value t.next := by
  rw [paramList] at h
  obtain ⟨first, hfirst, h⟩ := Except.bind_eq_ok.mp h
  have := first.shorter
  obtain ⟨ts, reads, isFirst⟩ := param_finds hfirst
  simp only at h
  split at h
  · cases h
    exact ⟨ts, reads, .one isFirst⟩
  · rename_i comma taken
    obtain ⟨more, hmore, h⟩ := Except.bind_eq_ok.mp h
    cases h
    have := comma.shorter
    obtain ⟨readsComma, isComma⟩ := take?_eq_some taken
    obtain ⟨us, readsMore, areMore⟩ := paramList_finds hmore
    exact ⟨_, reads.trans (readsComma.cons readsMore), .more isFirst isComma areMore⟩
termination_by i.size
decreasing_by all_goals omega

theorem params_finds {i : Input} {t : Kept (List Param) i} (h : params i = .ok t) :
    (t.value = [] ∧ Reads i [] t.next) ∨ Finds (Commas Parameter) i t.value t.next := by
  unfold params at h
  split at h
  · cases h
    exact .inl ⟨rfl, .refl i⟩
  · obtain ⟨ps, hps, h⟩ := Except.bind_eq_ok.mp h
    cases h
    exact .inr (paramList_finds hps)

theorem fnBody_finds {i : Input} {t : Taken (Option Stmt) i} (h : fnBody i = .ok t) :
    Finds (FnBody nearest) i t.value t.next := by
  unfold fnBody at h
  split at h
  · rename_i close taken
    cases h
    obtain ⟨reads, isClose⟩ := take?_eq_some taken
    exact ⟨_, reads, .none isClose⟩
  · obtain ⟨b, hb, h⟩ := Except.bind_eq_ok.mp h
    cases h
    obtain ⟨opening, ts, ss, close, reads, isOpen, areContents, isClose, value⟩ := block_finds hb
    rw [value]
    exact ⟨_, reads, .block isOpen areContents isClose⟩

/-- A function from its opening parenthesis on. -/
theorem fnRest_finds {start : Span} {type : BaseType} {name : Token} {i : Input}
    {t : Taken Item i} (h : fnRest start type name i = .ok t) :
    ∃ ts us, Reads i (ts ++ us) t.next ∧
      ∃ ps body, Parameters ts ps ∧ FnBody nearest us body ∧
        t.value = .fn (start.cover t.next.last)
          { name := name.name, nameSpan := name.span, returnType := type, params := ps,
            body := body } := by
  unfold fnRest at h
  obtain ⟨opening, hopening, h⟩ := Except.bind_eq_ok.mp h
  obtain ⟨ps, hps, h⟩ := Except.bind_eq_ok.mp h
  obtain ⟨close, hclose, h⟩ := Except.bind_eq_ok.mp h
  obtain ⟨body, hbody, h⟩ := Except.bind_eq_ok.mp h
  cases h
  obtain ⟨readsOpen, isOpen⟩ := expect_eq_ok hopening
  obtain ⟨readsClose, isClose⟩ := expect_eq_ok hclose
  obtain ⟨us, readsBody, isBody⟩ := fnBody_finds hbody
  rcases params_finds hps with ⟨none, reads⟩ | ⟨ts, reads, areParams⟩
  · have readsParams := readsOpen.cons (reads.trans readsClose)
    exact ⟨_, us, readsParams.trans readsBody, _, _, none ▸ .none isOpen isClose, isBody, rfl⟩
  · have readsParams := (readsOpen.cons reads).snoc readsClose
    exact ⟨_, us, readsParams.trans readsBody, _, _, .some isOpen areParams isClose, isBody, rfl⟩

theorem item_finds {i : Input} {t : Taken Item i} (h : item i = .ok t) :
    Finds (TopLevel nearest) i t.value t.next := by
  unfold item at h
  simp only at h
  split at h
  · obtain ⟨d, hd, h⟩ := Except.bind_eq_ok.mp h
    cases h
    obtain ⟨ts, reads, isDecl⟩ := decl_finds hd
    refine ⟨ts, reads, ?_⟩
    rw [reads.extent isDecl.ne_nil]
    exact .decl isDecl
  · obtain ⟨type, htype, h⟩ := Except.bind_eq_ok.mp h
    obtain ⟨name, hname, h⟩ := Except.bind_eq_ok.mp h
    obtain ⟨base, readsBase, isBase⟩ := baseType_eq_ok htype
    obtain ⟨readsName, isName⟩ := expect_eq_ok hname
    split at h
    · obtain ⟨f, hf, h⟩ := Except.bind_eq_ok.mp h
      cases h
      obtain ⟨ts, us, readsRest, ps, body, areParams, isBody, value⟩ := fnRest_finds hf
      have reads := readsBase.cons (readsName.cons readsRest)
      refine ⟨_, reads, ?_⟩
      rw [value, reads.extent (by simp)]
      exact .fn isBase isName areParams isBody
    · obtain ⟨d, hd, h⟩ := Except.bind_eq_ok.mp h
      cases h
      obtain ⟨ts, close, readsRest, isClose, ds, areDefs, value⟩ := declRest_finds isName hd
      have reads := readsBase.cons (readsName.cons readsRest)
      refine ⟨_, reads, ?_⟩
      rw [value, reads.extent (by simp)]
      exact .decl (.vars isBase areDefs isClose)

/-- The end token is where the input ends, and only there. -/
structure Input.Ended (i : Input) : Prop where
  eof : i.eof.kind = .eof
  others : ∀ t ∈ i.tokens, t.kind ≠ .eof

theorem Input.Ended.kind_eq_eof {i : Input} (ended : i.Ended) :
    i.kind = .eof ↔ i.tokens = [] := by
  cases tokens : i.tokens with
  | nil => simp [Input.kind, Input.peek, tokens, ended.eof]
  | cons t ts => simp [Input.kind, Input.peek, tokens, ended.others t (by simp [tokens])]

theorem Input.Ended.later {i j : Input} {ts : List Token} (ended : i.Ended)
    (reads : Reads i ts j) : j.Ended where
  eof := reads.eof ▸ ended.eof
  others t mem := ended.others t (reads.tokens ▸ List.mem_append_right ts mem)

theorem items_finds {i : Input} {is : List Item} {last : Input} (ended : i.Ended)
    (h : items i = .ok (is, last)) : Reads i i.tokens last ∧ Items nearest i.tokens is := by
  rw [items] at h
  split at h
  · rename_i atEnd
    cases h
    rw [ended.kind_eq_eof.mp atEnd]
    exact ⟨.refl i, .none⟩
  · obtain ⟨first, hfirst, h⟩ := Except.bind_eq_ok.mp h
    obtain ⟨⟨more, last⟩, hmore, h⟩ := Except.bind_eq_ok.mp h
    cases h
    have := first.shorter
    obtain ⟨ts, reads, isFirst⟩ := item_finds hfirst
    obtain ⟨readsMore, areMore⟩ := items_finds (ended.later reads) hmore
    rw [reads.tokens]
    exact ⟨reads.trans readsMore, .more isFirst areMore⟩
termination_by i.size
decreasing_by all_goals omega

end SysY.Parser

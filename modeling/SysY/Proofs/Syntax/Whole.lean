import SysY.Proofs.Failure
import SysY.Syntax.Parser

/-! # Whole trees

A tree is whole when it has no gaps: no node is missing or bare, every operator is one of the
language, a declaration stands only directly in a block, and the body of a function is a block.
The parser builds whole trees only, so whatever is shown of whole trees holds of all sources. -/

namespace SysY

/-- The binary operators of the language. -/
def BinaryOp.Known : BinaryOp → Prop
  | .other _ => False
  | _ => True

/-- The unary operators of the language. -/
def UnaryOp.Known : UnaryOp → Prop
  | .other _ => False
  | _ => True

mutual

/-- An expression without gaps. -/
def Expr.Whole : Expr → Prop
  | .ident .. | .lit .. => True
  | .call _ _ _ args => Expr.AllWhole args
  | .binary _ op l r => op.Known ∧ l.Whole ∧ r.Whole
  | .unary _ op e => op.Known ∧ e.Whole
  | .group _ inner => inner.Whole
  | .index _ target idx => target.Whole ∧ idx.Whole
  | .bare .. | .missing _ => False

/-- Expressions without gaps. -/
def Expr.AllWhole : List Expr → Prop
  | [] => True
  | e :: es => e.Whole ∧ Expr.AllWhole es

end

theorem Expr.allWhole_iff {es : List Expr} : Expr.AllWhole es ↔ ∀ e ∈ es, e.Whole := by
  induction es with
  | nil => simp [AllWhole]
  | cons e es ih => rw [AllWhole, ih, List.forall_mem_cons]

mutual

/-- An initializer without gaps. -/
def Init.Whole : Init → Prop
  | .expr _ e => e.Whole
  | .list _ elems => Init.AllWhole elems
  | .missing _ => False

/-- Initializers without gaps. -/
def Init.AllWhole : List Init → Prop
  | [] => True
  | i :: is => i.Whole ∧ Init.AllWhole is

end

mutual

/-- The expressions in an initializer, in order. -/
def Init.values : Init → List Expr
  | .expr _ e => [e]
  | .list _ elems => Init.allValues elems
  | .missing _ => []

/-- The expressions in initializers, in order. -/
def Init.allValues : List Init → List Expr
  | [] => []
  | i :: is => i.values ++ Init.allValues is

end

mutual

theorem Init.Whole.values : {i : Init} → i.Whole → ∀ e ∈ i.values, e.Whole
  | .expr _ _, whole => List.forall_mem_singleton.mpr whole
  | .list _ elems, whole => (show Init.AllWhole elems from whole).values

theorem Init.AllWhole.values : {is : List Init} → Init.AllWhole is →
    ∀ e ∈ Init.allValues is, e.Whole
  | [], _ => nofun
  | _ :: _, whole => List.forall_mem_append.mpr ⟨whole.1.values, whole.2.values⟩

end

/-- A definition without gaps. -/
structure Def.Whole (d : Def) : Prop where
  dims : ∀ e ∈ d.dims, e.Whole
  init : ∀ i ∈ d.init, i.Whole

/-- A declaration without gaps, which defines something. -/
structure Decl.Whole (d : Decl) : Prop where
  defs : ∀ e ∈ d.defs, e.Whole
  nonempty : d.defs ≠ []

/-- Whether a statement declares names in the scope around it. -/
def Stmt.isDecl : Stmt → Bool
  | .decl .. => true
  | _ => false

mutual

/-- A statement without gaps. The arms of a conditional and the body of a loop are no
declarations. -/
def Stmt.Whole : Stmt → Prop
  | .block _ ss => Stmt.AllWhole ss
  | .decl _ d => ∃ e, d = some e ∧ e.Whole
  | .assign _ target value => target.Whole ∧ value.Whole
  | .expr _ e => ∀ x ∈ e, x.Whole
  | .ifThen _ cond thenArm none => cond.Whole ∧ thenArm.Whole ∧ thenArm.isDecl = false
  | .ifThen _ cond thenArm (some elseArm) =>
    cond.Whole ∧ (thenArm.Whole ∧ thenArm.isDecl = false) ∧ elseArm.Whole ∧ elseArm.isDecl = false
  | .while _ cond body => cond.Whole ∧ body.Whole ∧ body.isDecl = false
  | .break _ | .continue _ => True
  | .return _ value => ∀ x ∈ value, x.Whole
  | .bare .. | .missing _ => False

/-- Statements without gaps. -/
def Stmt.AllWhole : List Stmt → Prop
  | [] => True
  | s :: ss => s.Whole ∧ Stmt.AllWhole ss

end

/-- A function without gaps. Its body, if it has one, is a block. -/
structure Fn.Whole (f : Fn) : Prop where
  params : ∀ p ∈ f.params, ∀ e ∈ p.dims, e.Whole
  body : ∀ s ∈ f.body, ∃ span ss, s = .block span ss ∧ Stmt.AllWhole ss

/-- An item without gaps. -/
def Item.Whole : Item → Prop
  | .fn _ f => f.Whole
  | .decl _ d => ∃ e, d = some e ∧ e.Whole
  | .bare .. | .missing _ => False

/-- A compilation unit without gaps. -/
def CompUnit.Whole (u : CompUnit) : Prop := ∀ i ∈ u.items, i.Whole

namespace Parser

open Source (Span)

/-! ## Expressions -/

/-- An operator that the parser recognizes is one of the language. -/
theorem binaryOpFrom?_known {least : Nat} {k : Token.Kind} {op : BinaryOp × Nat}
    (h : binaryOpFrom? least k = some op) : op.1.Known := by
  have found : binaryOp? k = some op := (Option.filter_eq_some_iff.mp h).1
  cases k <;> simp [binaryOp?] at found <;> subst found <;> trivial

/-- A unary operator that the parser recognizes is one of the language. -/
theorem unaryOp?_known {k : Token.Kind} {op : UnaryOp} (h : unaryOp? k = some op) : op.Known := by
  cases k <;> simp [unaryOp?] at h <;> subst h <;> trivial

/-- What `takeIf` returns beside the token is what its test gave. -/
theorem takeIf_some {β : Type} {i : Input} {f : Token.Kind → Option β} {t : Taken (Token × β) i}
    (h : takeIf i f = some t) : ∃ k, f k = some t.value.2 := by
  unfold takeIf at h
  split at h
  · cases h
  · split at h
    · cases h
    · rename_i k _ b found
      cases h
      exact ⟨_, found⟩

theorem literal_whole {i : Input} {number : Taken Token i} {t : Taken Expr i}
    (h : literal number = .ok t) : t.value.Whole := by
  unfold literal at h
  split at h
  · cases h; trivial
  · cases h

-- The proofs below follow the recursion of the parser, and end for the same reason.
mutual

theorem binary_whole {least : Nat} {i : Input} {t : Taken Expr i} (h : binary least i = .ok t) :
    t.value.Whole := by
  rw [binary] at h
  obtain ⟨left, hleft, h⟩ := Except.bind_eq_ok.mp h
  obtain ⟨all, hall, h⟩ := Except.bind_eq_ok.mp h
  cases h
  have := left.shorter
  exact binaryRest_whole (unary_whole hleft) hall
termination_by 8 * i.size + 3
decreasing_by all_goals omega

theorem binaryRest_whole {least : Nat} {left : Expr} {i : Input} {t : Kept Expr i}
    (whole : left.Whole) (h : binaryRest least left i = .ok t) : t.value.Whole := by
  rw [binaryRest] at h
  split at h
  · cases h; exact whole
  · rename_i op taken
    obtain ⟨right, hright, h⟩ := Except.bind_eq_ok.mp h
    obtain ⟨all, hall, h⟩ := Except.bind_eq_ok.mp h
    cases h
    have := op.shorter
    have := right.shorter
    obtain ⟨k, known⟩ := takeIf_some taken
    refine binaryRest_whole (t := all) ?_ hall
    exact ⟨binaryOpFrom?_known known, whole, binary_whole hright⟩
termination_by 8 * i.size
decreasing_by all_goals omega

theorem unary_whole {i : Input} {t : Taken Expr i} (h : unary i = .ok t) : t.value.Whole := by
  rw [unary] at h
  split at h
  · rename_i op taken
    obtain ⟨operand, hoperand, h⟩ := Except.bind_eq_ok.mp h
    cases h
    have := op.shorter
    obtain ⟨k, known⟩ := takeIf_some taken
    exact ⟨unaryOp?_known known, unary_whole hoperand⟩
  · exact primary_whole h
termination_by 8 * i.size + 2
decreasing_by all_goals omega

theorem primary_whole {i : Input} {t : Taken Expr i} (h : primary i = .ok t) : t.value.Whole := by
  rw [primary] at h
  split at h
  · rename_i opening _
    obtain ⟨inner, hinner, h⟩ := Except.bind_eq_ok.mp h
    obtain ⟨close, _, h⟩ := Except.bind_eq_ok.mp h
    cases h
    have := opening.shorter
    exact binary_whole (t := inner) hinner
  · split at h
    · exact literal_whole h
    · split at h
      · rename_i name _
        have := name.shorter
        split at h
        · rename_i opening _
          obtain ⟨args, hargs, h⟩ := Except.bind_eq_ok.mp h
          obtain ⟨close, _, h⟩ := Except.bind_eq_ok.mp h
          cases h
          have := opening.shorter
          exact arguments_whole hargs
        · obtain ⟨all, hall, h⟩ := Except.bind_eq_ok.mp h
          cases h
          refine subscripts_whole (t := all) ?_ hall
          trivial
      · cases h
termination_by 8 * i.size + 1
decreasing_by all_goals omega

theorem arguments_whole {i : Input} {t : Kept (List Expr) i} (h : arguments i = .ok t) :
    Expr.AllWhole t.value := by
  rw [arguments] at h
  split at h
  · cases h; trivial
  · obtain ⟨args, hargs, h⟩ := Except.bind_eq_ok.mp h
    cases h
    exact argumentList_whole hargs
termination_by 8 * i.size + 5
decreasing_by all_goals omega

theorem argumentList_whole {i : Input} {t : Taken (List Expr) i} (h : argumentList i = .ok t) :
    Expr.AllWhole t.value := by
  rw [argumentList] at h
  obtain ⟨arg, harg, h⟩ := Except.bind_eq_ok.mp h
  have := arg.shorter
  simp only at h
  split at h
  · cases h
    exact ⟨binary_whole harg, trivial⟩
  · rename_i comma _
    obtain ⟨more, hmore, h⟩ := Except.bind_eq_ok.mp h
    cases h
    have := comma.shorter
    exact ⟨binary_whole harg, argumentList_whole hmore⟩
termination_by 8 * i.size + 4
decreasing_by all_goals omega

theorem subscripts_whole {target : Expr} {i : Input} {t : Kept Expr i} (whole : target.Whole)
    (h : subscripts target i = .ok t) : t.value.Whole := by
  rw [subscripts] at h
  split at h
  · cases h; exact whole
  · rename_i opening _
    obtain ⟨idx, hidx, h⟩ := Except.bind_eq_ok.mp h
    obtain ⟨close, _, h⟩ := Except.bind_eq_ok.mp h
    obtain ⟨all, hall, h⟩ := Except.bind_eq_ok.mp h
    cases h
    have := opening.shorter
    have := idx.shorter
    have := close.shorter
    refine subscripts_whole (t := all) ?_ hall
    exact ⟨whole, binary_whole hidx⟩
termination_by 8 * i.size
decreasing_by all_goals omega

end

theorem expr_whole {i : Input} {t : Taken Expr i} (h : expr i = .ok t) : t.value.Whole :=
  binary_whole h

/-! ## Declarations -/

theorem bounds_whole {i : Input} {t : Kept (List Expr) i} (h : bounds i = .ok t) :
    ∀ e ∈ t.value, e.Whole := by
  rw [bounds] at h
  split at h
  · cases h; simp
  · rename_i opening _
    obtain ⟨dim, hdim, h⟩ := Except.bind_eq_ok.mp h
    obtain ⟨close, _, h⟩ := Except.bind_eq_ok.mp h
    obtain ⟨more, hmore, h⟩ := Except.bind_eq_ok.mp h
    cases h
    have := opening.shorter
    have := dim.shorter
    have := close.shorter
    have rest := bounds_whole hmore
    simpa using ⟨expr_whole hdim, rest⟩
termination_by i.size
decreasing_by all_goals omega

mutual

theorem init_whole {i : Input} {t : Taken Init i} (h : init i = .ok t) : t.value.Whole := by
  rw [init] at h
  split at h
  · obtain ⟨value, hvalue, h⟩ := Except.bind_eq_ok.mp h
    cases h
    exact expr_whole (t := value) hvalue
  · rename_i opening _
    obtain ⟨elems, helems, h⟩ := Except.bind_eq_ok.mp h
    obtain ⟨close, _, h⟩ := Except.bind_eq_ok.mp h
    cases h
    have := opening.shorter
    exact initElems_whole helems
termination_by 4 * i.size
decreasing_by all_goals omega

theorem initElems_whole {i : Input} {t : Kept (List Init) i} (h : initElems i = .ok t) :
    Init.AllWhole t.value := by
  rw [initElems] at h
  split at h
  · cases h; trivial
  · obtain ⟨elems, helems, h⟩ := Except.bind_eq_ok.mp h
    cases h
    exact initList_whole helems
termination_by 4 * i.size + 2
decreasing_by all_goals omega

theorem initList_whole {i : Input} {t : Taken (List Init) i} (h : initList i = .ok t) :
    Init.AllWhole t.value := by
  rw [initList] at h
  obtain ⟨elem, helem, h⟩ := Except.bind_eq_ok.mp h
  have := elem.shorter
  simp only at h
  split at h
  · cases h
    exact ⟨init_whole helem, trivial⟩
  · rename_i comma _
    obtain ⟨more, hmore, h⟩ := Except.bind_eq_ok.mp h
    cases h
    have := comma.shorter
    exact ⟨init_whole helem, initList_whole hmore⟩
termination_by 4 * i.size + 1
decreasing_by all_goals omega

end

theorem defRest_whole {name : Token} {i : Input} {t : Kept Def i} (h : defRest name i = .ok t) :
    t.value.Whole := by
  unfold defRest at h
  obtain ⟨dims, hdims, h⟩ := Except.bind_eq_ok.mp h
  simp only at h
  split at h
  · cases h
    exact ⟨bounds_whole hdims, by simp⟩
  · obtain ⟨value, hvalue, h⟩ := Except.bind_eq_ok.mp h
    cases h
    exact ⟨bounds_whole hdims, by simpa using init_whole hvalue⟩

theorem defList_whole {name : Token} {i : Input} {t : Kept (List Def) i}
    (h : defList name i = .ok t) : (∀ d ∈ t.value, d.Whole) ∧ t.value ≠ [] := by
  rw [defList] at h
  obtain ⟨first, hfirst, h⟩ := Except.bind_eq_ok.mp h
  have := first.notLonger
  simp only at h
  split at h
  · cases h
    simpa using defRest_whole hfirst
  · rename_i comma _
    obtain ⟨second, _, h⟩ := Except.bind_eq_ok.mp h
    obtain ⟨more, hmore, h⟩ := Except.bind_eq_ok.mp h
    cases h
    have := comma.shorter
    have := second.shorter
    have rest := (defList_whole hmore).1
    simpa using ⟨defRest_whole hfirst, rest⟩
termination_by i.size
decreasing_by all_goals omega

theorem declRest_whole {start : Span} {isConst : Bool} {type : BaseType} {name : Token}
    {i : Input} {t : Taken Decl i} (h : declRest start isConst type name i = .ok t) :
    t.value.Whole := by
  unfold declRest at h
  obtain ⟨defs, hdefs, h⟩ := Except.bind_eq_ok.mp h
  obtain ⟨semicolon, _, h⟩ := Except.bind_eq_ok.mp h
  cases h
  exact ⟨(defList_whole hdefs).1, (defList_whole hdefs).2⟩

theorem declFrom_whole {start : Span} {isConst : Bool} {i : Input} {t : Taken Decl i}
    (h : declFrom start isConst i = .ok t) : t.value.Whole := by
  unfold declFrom at h
  obtain ⟨type, _, h⟩ := Except.bind_eq_ok.mp h
  obtain ⟨name, _, h⟩ := Except.bind_eq_ok.mp h
  obtain ⟨decl, hdecl, h⟩ := Except.bind_eq_ok.mp h
  cases h
  exact declRest_whole (t := decl) hdecl

theorem decl_whole {i : Input} {t : Taken Decl i} (h : decl i = .ok t) : t.value.Whole := by
  unfold decl at h
  split at h
  · exact declFrom_whole h
  · obtain ⟨decl, hdecl, h⟩ := Except.bind_eq_ok.mp h
    cases h
    exact declFrom_whole (t := decl) hdecl

/-! ## Statements -/

theorem condition_whole {i : Input} {t : Taken Expr i} (h : condition i = .ok t) :
    t.value.Whole := by
  unfold condition at h
  obtain ⟨opening, _, h⟩ := Except.bind_eq_ok.mp h
  obtain ⟨cond, hcond, h⟩ := Except.bind_eq_ok.mp h
  obtain ⟨close, _, h⟩ := Except.bind_eq_ok.mp h
  cases h
  exact expr_whole (t := cond) hcond

theorem returnValue_whole {i : Input} {t : Kept (Option Expr) i} (h : returnValue i = .ok t) :
    ∀ e ∈ t.value, e.Whole := by
  unfold returnValue at h
  split at h
  · cases h; simp
  · obtain ⟨value, hvalue, h⟩ := Except.bind_eq_ok.mp h
    cases h
    simpa using expr_whole hvalue

/-- A whole statement that may stand where a declaration may not. -/
def Plain (s : Stmt) : Prop := s.Whole ∧ s.isDecl = false

theorem simple_plain {i : Input} {t : Taken Stmt i} (h : simple i = .ok t) : Plain t.value := by
  unfold simple at h
  obtain ⟨value, hvalue, h⟩ := Except.bind_eq_ok.mp h
  simp only at h
  split at h
  · obtain ⟨close, _, h⟩ := Except.bind_eq_ok.mp h
    cases h
    have whole := expr_whole hvalue
    exact ⟨by simpa [Stmt.Whole] using whole, rfl⟩
  · split at h
    · cases h
    · obtain ⟨source, hsource, h⟩ := Except.bind_eq_ok.mp h
      obtain ⟨close, _, h⟩ := Except.bind_eq_ok.mp h
      cases h
      exact ⟨⟨expr_whole hvalue, expr_whole hsource⟩, rfl⟩

mutual

/-- A block is a block statement, and all in it is whole. -/
theorem block_whole {i : Input} {t : Taken Stmt i} (h : block i = .ok t) :
    ∃ span ss, t.value = .block span ss ∧ Stmt.AllWhole ss := by
  rw [block] at h
  obtain ⟨opening, _, h⟩ := Except.bind_eq_ok.mp h
  obtain ⟨body, hbody, h⟩ := Except.bind_eq_ok.mp h
  cases h
  have := opening.shorter
  exact ⟨_, _, rfl, blockRest_whole hbody⟩
termination_by 8 * i.size
decreasing_by all_goals omega

theorem blockRest_whole {i : Input} {t : Taken (List Stmt × Token) i}
    (h : blockRest i = .ok t) : Stmt.AllWhole t.value.1 := by
  rw [blockRest] at h
  split at h
  · cases h; trivial
  · split at h
    · cases h
    · obtain ⟨first, hfirst, h⟩ := Except.bind_eq_ok.mp h
      obtain ⟨more, hmore, h⟩ := Except.bind_eq_ok.mp h
      cases h
      have := first.shorter
      exact ⟨blockItem_whole hfirst, blockRest_whole hmore⟩
termination_by 8 * i.size + 3
decreasing_by all_goals omega

theorem blockItem_whole {i : Input} {t : Taken Stmt i} (h : blockItem i = .ok t) :
    t.value.Whole := by
  rw [blockItem] at h
  split at h
  · obtain ⟨d, hd, h⟩ := Except.bind_eq_ok.mp h
    cases h
    exact ⟨_, rfl, decl_whole hd⟩
  · exact (stmt_plain h).1
termination_by 8 * i.size + 2
decreasing_by all_goals omega

theorem stmt_plain {i : Input} {t : Taken Stmt i} (h : stmt i = .ok t) : Plain t.value := by
  rw [stmt] at h
  split at h
  · obtain ⟨span, ss, value, whole⟩ := block_whole h
    rw [value]
    exact ⟨whole, rfl⟩
  · obtain ⟨semicolon, _, h⟩ := Except.bind_eq_ok.mp h
    cases h
    exact ⟨by simp [Stmt.Whole], rfl⟩
  · obtain ⟨keyword, _, h⟩ := Except.bind_eq_ok.mp h
    obtain ⟨cond, hcond, h⟩ := Except.bind_eq_ok.mp h
    obtain ⟨thenArm, hthen, h⟩ := Except.bind_eq_ok.mp h
    have := keyword.shorter
    have := cond.shorter
    have := thenArm.shorter
    have armWhole := stmt_plain hthen
    simp only at h
    split at h
    · cases h
      exact ⟨⟨condition_whole hcond, armWhole⟩, rfl⟩
    · rename_i other _
      obtain ⟨elseArm, helse, h⟩ := Except.bind_eq_ok.mp h
      cases h
      have := other.shorter
      exact ⟨⟨condition_whole hcond, armWhole, stmt_plain helse⟩, rfl⟩
  · obtain ⟨keyword, _, h⟩ := Except.bind_eq_ok.mp h
    obtain ⟨cond, hcond, h⟩ := Except.bind_eq_ok.mp h
    obtain ⟨body, hbody, h⟩ := Except.bind_eq_ok.mp h
    cases h
    have := keyword.shorter
    have := cond.shorter
    exact ⟨⟨condition_whole hcond, stmt_plain hbody⟩, rfl⟩
  · obtain ⟨keyword, _, h⟩ := Except.bind_eq_ok.mp h
    obtain ⟨close, _, h⟩ := Except.bind_eq_ok.mp h
    cases h
    exact ⟨trivial, rfl⟩
  · obtain ⟨keyword, _, h⟩ := Except.bind_eq_ok.mp h
    obtain ⟨close, _, h⟩ := Except.bind_eq_ok.mp h
    cases h
    exact ⟨trivial, rfl⟩
  · obtain ⟨keyword, _, h⟩ := Except.bind_eq_ok.mp h
    obtain ⟨value, hvalue, h⟩ := Except.bind_eq_ok.mp h
    obtain ⟨close, _, h⟩ := Except.bind_eq_ok.mp h
    cases h
    exact ⟨returnValue_whole hvalue, rfl⟩
  · exact simple_plain h
termination_by 8 * i.size + 1
decreasing_by all_goals omega

end

/-! ## Items -/

theorem param_whole {i : Input} {t : Taken Param i} (h : param i = .ok t) :
    ∀ e ∈ t.value.dims, e.Whole := by
  unfold param at h
  obtain ⟨type, _, h⟩ := Except.bind_eq_ok.mp h
  obtain ⟨name, _, h⟩ := Except.bind_eq_ok.mp h
  simp only at h
  split at h
  · cases h; simp
  · obtain ⟨close, _, h⟩ := Except.bind_eq_ok.mp h
    obtain ⟨dims, hdims, h⟩ := Except.bind_eq_ok.mp h
    cases h
    exact bounds_whole hdims

theorem paramList_whole {i : Input} {t : Taken (List Param) i} (h : paramList i = .ok t) :
    ∀ p ∈ t.value, ∀ e ∈ p.dims, e.Whole := by
  rw [paramList] at h
  obtain ⟨first, hfirst, h⟩ := Except.bind_eq_ok.mp h
  have := first.shorter
  simp only at h
  split at h
  · cases h
    simpa using param_whole hfirst
  · rename_i comma _
    obtain ⟨more, hmore, h⟩ := Except.bind_eq_ok.mp h
    cases h
    have := comma.shorter
    have rest := paramList_whole hmore
    simpa using ⟨param_whole hfirst, rest⟩
termination_by i.size
decreasing_by all_goals omega

theorem params_whole {i : Input} {t : Kept (List Param) i} (h : params i = .ok t) :
    ∀ p ∈ t.value, ∀ e ∈ p.dims, e.Whole := by
  unfold params at h
  split at h
  · cases h; simp
  · obtain ⟨ps, hps, h⟩ := Except.bind_eq_ok.mp h
    cases h
    exact paramList_whole hps

theorem fnBody_whole {i : Input} {t : Taken (Option Stmt) i} (h : fnBody i = .ok t) :
    ∀ s ∈ t.value, ∃ span ss, s = .block span ss ∧ Stmt.AllWhole ss := by
  unfold fnBody at h
  split at h
  · cases h; simp
  · obtain ⟨b, hb, h⟩ := Except.bind_eq_ok.mp h
    cases h
    simpa using block_whole hb

theorem fnRest_whole {start : Span} {type : BaseType} {name : Token} {i : Input}
    {t : Taken Item i} (h : fnRest start type name i = .ok t) : t.value.Whole := by
  unfold fnRest at h
  obtain ⟨opening, _, h⟩ := Except.bind_eq_ok.mp h
  obtain ⟨ps, hps, h⟩ := Except.bind_eq_ok.mp h
  obtain ⟨close, _, h⟩ := Except.bind_eq_ok.mp h
  obtain ⟨body, hbody, h⟩ := Except.bind_eq_ok.mp h
  cases h
  exact ⟨params_whole hps, fnBody_whole hbody⟩

theorem item_whole {i : Input} {t : Taken Item i} (h : item i = .ok t) : t.value.Whole := by
  unfold item at h
  simp only at h
  split at h
  · obtain ⟨d, hd, h⟩ := Except.bind_eq_ok.mp h
    cases h
    exact ⟨_, rfl, decl_whole hd⟩
  · obtain ⟨type, _, h⟩ := Except.bind_eq_ok.mp h
    obtain ⟨name, _, h⟩ := Except.bind_eq_ok.mp h
    split at h
    · obtain ⟨f, hf, h⟩ := Except.bind_eq_ok.mp h
      cases h
      exact fnRest_whole (t := f) hf
    · obtain ⟨d, hd, h⟩ := Except.bind_eq_ok.mp h
      cases h
      exact ⟨_, rfl, declRest_whole hd⟩

theorem items_whole {i : Input} {r : List Item × Input} (h : items i = .ok r) :
    ∀ x ∈ r.1, x.Whole := by
  rw [items] at h
  split at h
  · cases h; simp
  · obtain ⟨first, hfirst, h⟩ := Except.bind_eq_ok.mp h
    obtain ⟨more, hmore, h⟩ := Except.bind_eq_ok.mp h
    cases h
    have := first.shorter
    have rest := items_whole hmore
    simpa using ⟨item_whole hfirst, rest⟩
termination_by i.size
decreasing_by all_goals omega

theorem compUnit_whole {l : Lexed} {u : CompUnit} (h : compUnit l = .ok u) : u.Whole := by
  unfold compUnit at h
  obtain ⟨r, hr, h⟩ := Except.bind_eq_ok.mp h
  cases h
  exact items_whole hr

end Parser

/-- Every unit that parses is whole. -/
theorem Parsed.whole {l : Lexed} {canceled : Bool} {u : CompUnit}
    (h : (Parsed.ofLexed l canceled).result = .ok u) : u.Whole := by
  unfold Parsed.ofLexed at h
  split at h
  · cases h
  · split at h
    · rename_i v hv
      cases h
      exact Parser.compUnit_whole hv
    · cases h

end SysY

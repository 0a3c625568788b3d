import SysY.Syntax.Dump
import SysY.Proofs.Syntax.Whole

/-! # Dumps of whole trees

A tree without gaps has a text form: no node of it lacks its contents. -/

namespace SysY

mutual

theorem Expr.Whole.dump : {e : Expr} → e.Whole → ∃ text, e.dump = .ok text
  | .ident .., _ | .lit .., _ => ⟨_, rfl⟩
  | .call _ _ _ args, whole => by
    obtain ⟨texts, dumped⟩ := (show Expr.AllWhole args from whole).dump
    exact ⟨_, Except.bind_eq_ok.mpr ⟨_, dumped, rfl⟩⟩
  | .binary _ _ l r, ⟨_, wholeL, wholeR⟩ | .index _ l r, ⟨wholeL, wholeR⟩ => by
    obtain ⟨left, dumpedL⟩ := wholeL.dump
    obtain ⟨right, dumpedR⟩ := wholeR.dump
    exact ⟨_, Except.bind_eq_ok.mpr ⟨_, dumpedL, Except.bind_eq_ok.mpr ⟨_, dumpedR, rfl⟩⟩⟩
  | .unary _ _ e, ⟨_, whole⟩ => by
    obtain ⟨text, dumped⟩ := whole.dump
    exact ⟨_, Except.bind_eq_ok.mpr ⟨_, dumped, rfl⟩⟩
  | .group _ e, whole => (show e.Whole from whole).dump

theorem Expr.AllWhole.dump : {es : List Expr} → Expr.AllWhole es →
    ∃ texts, Expr.dumpList es = .ok texts
  | [], _ => ⟨[], rfl⟩
  | _ :: _, ⟨whole, wholes⟩ => by
    obtain ⟨text, dumped⟩ := whole.dump
    obtain ⟨texts, rest⟩ := wholes.dump
    exact ⟨_, Except.bind_eq_ok.mpr ⟨_, dumped, Except.bind_eq_ok.mpr ⟨_, rest, rfl⟩⟩⟩

end

mutual

theorem Init.Whole.dump : {i : Init} → i.Whole → ∃ text, i.dump = .ok text
  | .expr _ e, whole => (show e.Whole from whole).dump
  | .list _ is, whole => by
    obtain ⟨texts, dumped⟩ := (show Init.AllWhole is from whole).dump
    exact ⟨_, Except.bind_eq_ok.mpr ⟨_, dumped, rfl⟩⟩

theorem Init.AllWhole.dump : {is : List Init} → Init.AllWhole is →
    ∃ texts, Init.dumpList is = .ok texts
  | [], _ => ⟨[], rfl⟩
  | _ :: _, ⟨whole, wholes⟩ => by
    obtain ⟨text, dumped⟩ := whole.dump
    obtain ⟨texts, rest⟩ := wholes.dump
    exact ⟨_, Except.bind_eq_ok.mpr ⟨_, dumped, Except.bind_eq_ok.mpr ⟨_, rest, rfl⟩⟩⟩

end

namespace Dump

theorem bounds_whole {es : List Expr} (whole : ∀ e ∈ es, e.Whole) :
    ∃ text, bounds es = .ok text := by
  obtain ⟨texts, dumped⟩ := (Expr.allWhole_iff.mpr whole).dump
  exact ⟨_, Except.bind_eq_ok.mpr ⟨_, dumped, rfl⟩⟩

/-- The texts of all in a list. -/
theorem mapM_texts {α : Type} {dump : α → Outcome String} {as : List α}
    (each : ∀ a ∈ as, ∃ text, dump a = .ok text) : ∃ texts, as.mapM dump = .ok texts := by
  induction as with
  | nil => exact ⟨[], rfl⟩
  | cons a as ih =>
    obtain ⟨⟨text, dumped⟩, others⟩ := List.forall_mem_cons.mp each
    obtain ⟨texts, rest⟩ := ih others
    rw [List.mapM_cons]
    exact ⟨_, Except.bind_eq_ok.mpr ⟨_, dumped, Except.bind_eq_ok.mpr ⟨_, rest, rfl⟩⟩⟩

theorem definition_whole (depth : Nat) {d : Def} (whole : d.Whole) :
    ∃ text, definition depth d = .ok text := by
  obtain ⟨dims, dumped⟩ := bounds_whole whole.dims
  unfold definition
  rw [dumped]
  cases init : d.init with
  | none => exact ⟨_, rfl⟩
  | some i =>
    obtain ⟨text, value⟩ := (whole.init i init).dump
    exact ⟨_, Except.bind_eq_ok.mpr ⟨_, rfl, Except.bind_eq_ok.mpr ⟨_, value, rfl⟩⟩⟩

theorem declaration_whole (depth : Nat) {d : Decl} (whole : d.Whole) :
    ∃ text, declaration depth (some d) = .ok text := by
  obtain ⟨texts, dumped⟩ := mapM_texts fun e mem => definition_whole (depth + 1) (whole.defs e mem)
  exact ⟨_, Except.bind_eq_ok.mpr ⟨_, dumped, rfl⟩⟩

theorem param_whole {p : Param} (whole : ∀ e ∈ p.dims, e.Whole) : ∃ text, param p = .ok text := by
  obtain ⟨dims, dumped⟩ := bounds_whole whole
  exact ⟨_, Except.bind_eq_ok.mpr ⟨_, dumped, rfl⟩⟩

end Dump

open Dump

mutual

theorem Stmt.Whole.dump (depth : Nat) : {s : Stmt} → s.Whole → ∃ text, s.dump depth = .ok text
  | .block _ ss, whole => by
    obtain ⟨text, dumped⟩ := (show Stmt.AllWhole ss from whole).dump (depth + 1)
    exact ⟨_, Except.bind_eq_ok.mpr ⟨_, dumped, rfl⟩⟩
  | .decl _ _, ⟨_, rfl, whole⟩ => declaration_whole depth whole
  | .assign _ _ _, ⟨wholeT, wholeV⟩ => by
    obtain ⟨target, dumpedT⟩ := wholeT.dump
    obtain ⟨value, dumpedV⟩ := wholeV.dump
    exact ⟨_, Except.bind_eq_ok.mpr ⟨_, dumpedT, Except.bind_eq_ok.mpr ⟨_, dumpedV, rfl⟩⟩⟩
  | .expr _ none, _ | .return _ none, _ | .break _, _ | .continue _, _ => ⟨_, rfl⟩
  | .expr _ (some _), whole | .return _ (some _), whole => by
    obtain ⟨text, dumped⟩ := (whole _ rfl).dump
    exact ⟨_, Except.bind_eq_ok.mpr ⟨_, dumped, rfl⟩⟩
  | .ifThen _ _ _ none, ⟨wholeC, wholeT, _⟩ | .while _ _ _, ⟨wholeC, wholeT, _⟩ => by
    obtain ⟨cond, dumpedC⟩ := wholeC.dump
    obtain ⟨arm, dumpedT⟩ := wholeT.dump (depth + 1)
    exact ⟨_, Except.bind_eq_ok.mpr ⟨_, dumpedC, Except.bind_eq_ok.mpr ⟨_, dumpedT, rfl⟩⟩⟩
  | .ifThen _ _ _ (some _), ⟨wholeC, ⟨wholeT, _⟩, wholeE, _⟩ => by
    obtain ⟨cond, dumpedC⟩ := wholeC.dump
    obtain ⟨thenArm, dumpedT⟩ := wholeT.dump (depth + 1)
    obtain ⟨elseArm, dumpedE⟩ := wholeE.dump (depth + 1)
    exact ⟨_, Except.bind_eq_ok.mpr ⟨_, dumpedC, Except.bind_eq_ok.mpr ⟨_, dumpedT,
      Except.bind_eq_ok.mpr ⟨_, dumpedE, rfl⟩⟩⟩⟩

theorem Stmt.AllWhole.dump (depth : Nat) : {ss : List Stmt} → Stmt.AllWhole ss →
    ∃ text, Stmt.dumpList depth ss = .ok text
  | [], _ => ⟨_, rfl⟩
  | _ :: _, ⟨whole, wholes⟩ => by
    obtain ⟨text, dumped⟩ := whole.dump depth
    obtain ⟨texts, rest⟩ := wholes.dump depth
    exact ⟨_, Except.bind_eq_ok.mpr ⟨_, dumped, Except.bind_eq_ok.mpr ⟨_, rest, rfl⟩⟩⟩

end

theorem Item.Whole.dump (depth : Nat) : {i : Item} → i.Whole → ∃ text, i.dump depth = .ok text
  | .fn _ f, whole => by
    obtain ⟨texts, dumped⟩ := mapM_texts fun p mem => param_whole (Fn.Whole.params whole p mem)
    unfold Item.dump
    dsimp only
    rw [dumped]
    cases isBody : f.body with
    | none => exact ⟨_, rfl⟩
    | some b =>
      obtain ⟨_, _, rfl, all⟩ := Fn.Whole.body whole b isBody
      obtain ⟨text, inner⟩ := Stmt.Whole.dump (depth + 1) (s := .block _ _) all
      exact ⟨_, Except.bind_eq_ok.mpr ⟨_, rfl, Except.bind_eq_ok.mpr ⟨_, inner, rfl⟩⟩⟩
  | .decl _ _, ⟨_, rfl, whole⟩ => declaration_whole depth whole

/-- A whole unit has a text form. -/
theorem CompUnit.Whole.dump {u : CompUnit} (whole : u.Whole) : ∃ text, u.dump = .ok text := by
  obtain ⟨texts, dumped⟩ := mapM_texts fun i mem => (whole i mem).dump 1
  exact ⟨_, Except.bind_eq_ok.mpr ⟨_, dumped, rfl⟩⟩

end SysY

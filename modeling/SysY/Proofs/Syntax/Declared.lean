import SysY.Proofs.Syntax.Nesting
import SysY.Proofs.Syntax.Reprint

/-! # Declared names

The names that a tree declares, with the places where they stand, in the order of the source. In a
tree that the parser built they are names among its tokens: the file has each of them at its place,
and the places come one after the other. -/

namespace SysY

open Source (Span)

/-- The names that a declaration declares. -/
def Decl.declared (d : Decl) : List (String × Span) := d.defs.map fun d => (d.name, d.nameSpan)

mutual

/-- The names that a statement declares. -/
def Stmt.declared : Stmt → List (String × Span)
  | .block _ ss => Stmt.declaredAll ss
  | .decl _ (some d) => d.declared
  | .ifThen _ _ thenArm none => thenArm.declared
  | .ifThen _ _ thenArm (some elseArm) => thenArm.declared ++ elseArm.declared
  | .while _ _ body => body.declared
  | _ => []

/-- The names that statements declare. -/
def Stmt.declaredAll : List Stmt → List (String × Span)
  | [] => []
  | s :: ss => s.declared ++ Stmt.declaredAll ss

end

/-- The names of parameters. -/
def Param.declared (p : Param) : List (String × Span) := [(p.name, p.nameSpan)]

/-- The name of a function, those of its parameters, and those that its body declares. -/
def Fn.declared (f : Fn) : List (String × Span) :=
  (f.name, f.nameSpan) :: (f.params.flatMap Param.declared ++ (f.body.map Stmt.declared).getD [])

/-- The names that an item declares. -/
def Item.declared : Item → List (String × Span)
  | .fn _ f => f.declared
  | .decl _ (some d) => d.declared
  | _ => []

/-- The names that a unit declares. -/
def CompUnit.declared (u : CompUnit) : List (String × Span) := u.items.flatMap Item.declared

namespace Grammar

/-- The names among some tokens. -/
def names (ts : List Token) : List (String × Span) :=
  (ts.filter (·.kind = .ident)).map fun t => (t.name, t.span)

/-- Some names stand among some tokens, in this order. -/
def Among (ns : List (String × Span)) (ts : List Token) : Prop := ns.Sublist (names ts)

section Among

variable {ns ms : List (String × Span)} {ts us : List Token}

theorem Among.none : Among [] ts := List.nil_sublist _

theorem Among.name {t : Token} (isName : t.kind = .ident) : Among [(t.name, t.span)] [t] := by
  simp [Among, names, isName]

theorem Among.append (h : Among ns ts) (h' : Among ms us) : Among (ns ++ ms) (ts ++ us) := by
  unfold Among names at *
  rw [List.filter_append, List.map_append]
  exact List.Sublist.append h h'

theorem Among.after (h : Among ns ts) (us : List Token) : Among ns (ts ++ us) := by
  simpa using h.append (.none : Among [] us)

theorem Among.before (h : Among ns ts) (us : List Token) : Among ns (us ++ ts) :=
  (Among.none : Among [] us).append h

theorem Among.cons (h : Among ns ts) (t : Token) : Among ns (t :: ts) := h.before [t]

/-- Phrases with commas between them. -/
theorem Commas.among {α : Type} {P : List Token → α → Prop} {f : α → List (String × Span)}
    {as : List α} (h : Commas P ts as) (each : ∀ {ts a}, P ts a → Among (f a) ts) :
    Among (as.flatMap f) ts := by
  induction h with
  | one h => simpa using each h
  | more h _ _ ih => exact (each h).append (ih.cons _)

end Among

section Phrases

variable {ts : List Token}

theorem Definition.among {d : Def} (h : Definition ts d) : Among [(d.name, d.nameSpan)] ts := by
  cases h with
  | blank isName => exact (Among.name isName).after _
  | init isName => exact ((Among.name isName).after _).after _

theorem Declaration.among {d : Decl} (h : Declaration ts d) : Among d.declared ts := by
  have defs {ts : List Token} {ds : List Def} (h : Commas Definition ts ds) :
      Among (ds.map fun d => (d.name, d.nameSpan)) ts := by
    rw [List.map_eq_flatMap]
    exact h.among Definition.among
  cases h with
  | vars _ ds _ => exact ((defs ds).cons _).after _
  | consts _ _ ds _ => exact (((defs ds).cons _).cons _).after _

mutual

theorem Statement.among : {ts : List Token} → {s : Stmt} → Statement true ts s → Among s.declared ts
  | _, _, .block _ contents _ => (contents.among.cons _).after _
  | _, _, .ifThen _ _ _ _ arm => by
    rw [Stmt.declared]
    exact (arm.among.cons _).before _
  | _, _, .ifElse _ _ _ _ arm _ _ other => by
    rw [Stmt.declared]
    exact ((arm.among.cons _).before _).append (other.among.cons _)
  | _, _, .while _ _ _ _ body => by
    rw [Stmt.declared]
    exact (body.among.cons _).before _
  | _, _, .empty _ | _, _, .effect .. | _, _, .assign .. | _, _, .break .. | _, _, .continue ..
  | _, _, .return .. | _, _, .returnValue .. => .none

theorem Contents.among : {ts : List Token} → {ss : List Stmt} → Contents true ts ss →
    Among (Stmt.declaredAll ss) ts
  | _, _, .none => .none
  | _, _, .decl isDecl more => isDecl.among.append more.among
  | _, _, .stmt isStmt more => isStmt.among.append more.among

end

theorem Parameter.among {p : Param} (h : Parameter ts p) : Among p.declared ts := by
  cases h with
  | number _ isName => exact (Among.name isName).cons _
  | array _ isName => exact ((Among.name isName).after _).cons _

theorem Parameters.among {ps : List Param} (h : Parameters ts ps) :
    Among (ps.flatMap Param.declared) ts := by
  cases h with
  | none => exact .none
  | some _ params _ => exact ((params.among Parameter.among).cons _).after _

theorem FnBody.among {body : Option Stmt} (h : FnBody true ts body) :
    Among ((body.map Stmt.declared).getD []) ts := by
  cases h with
  | none => exact .none
  | block isOpen contents isClose => exact (Statement.block isOpen contents isClose).among

theorem TopLevel.among {i : Item} (h : TopLevel true ts i) : Among i.declared ts := by
  cases h with
  | decl isDecl => exact isDecl.among
  | @fn base type name ts ps us body _ isName params isBody =>
    exact Among.cons ((Among.name isName).append (params.among.append isBody.among)) base

theorem Items.among {is : List Item} (h : Items true ts is) :
    Among (is.flatMap Item.declared) ts := by
  induction h with
  | none => exact .none
  | more isItem _ ih => exact isItem.among.append ih

end Phrases

end Grammar

/-- A file has a name at a place. -/
structure Source.File.HasName (f : Source.File) (name : String) (s : Span) : Prop where
  file : s.file = f.id
  inside : s.stop ≤ f.content.length
  text : (f.content.drop s.start).take (s.stop - s.start) = Bytes.ofString name

section Files

variable {f : Source.File} {u : CompUnit}

/-- The names among the tokens of a file stand in the file. -/
theorem Lexed.ofFile_hasName (f : Source.File) :
    ∀ n ∈ Grammar.names (Lexed.ofFile f).tokens, f.HasName n.1 n.2 := by
  intro n mem
  obtain ⟨t, here, rfl⟩ := List.mem_map.mp mem
  obtain ⟨here, isName⟩ := List.mem_filter.mp here
  have tiles : Tiles f.id 0 f.content (Lexer.ofFile f).drain.1 := (Lexer.ofFile f).drain_tiles rfl
  obtain ⟨file, -, -, inside, slice⟩ := tiles.slices t ((List.dropLast_sublist _).subset here)
  refine ⟨file, by simpa using inside, ?_⟩
  rw [Bytes.ofString_name (of_decide_eq_true isName) (Lexed.ofFile_lexical f t here)]
  exact slice.symm

/-- The names that a file declares stand in the file one after the other. -/
theorem Parsed.declared_placed (parsed : (Parsed.ofLexed (.ofFile f) false).result = .ok u) :
    (∀ n ∈ u.declared, f.HasName n.1 n.2) ∧
      u.declared.Pairwise fun n m => n.2.stop ≤ m.2.start := by
  have among : Grammar.Among u.declared (Lexed.ofFile f).tokens := (Parsed.spells parsed).1.among
  refine ⟨fun n mem => Lexed.ofFile_hasName f n (among.subset mem), List.Pairwise.sublist among ?_⟩
  rw [Grammar.names, List.pairwise_map]
  exact (Lexed.ofFile_inRow f).1.ordered.sublist List.filter_sublist

end Files

end SysY

import SysY.Proofs.Syntax.Lexical
import SysY.Proofs.Syntax.Nodes
import SysY.Proofs.Token.Tiling
import SysY.Syntax.Spans

/-! # Spans nest

The tokens of a file stand one after the other. The span of a node reaches from the first of its
tokens to the last one, wherever the parser took it from. As its tokens contain those of its
children, its span contains theirs. -/

namespace SysY

open Source (Span)

namespace Grammar

/-! ## Tokens in a row -/

/-- Tokens of a file that are not empty and stand one after the other. -/
structure InRow (file : Nat) (ts : List Token) : Prop where
  proper : ∀ t ∈ ts, t.span.file = file ∧ t.span.start < t.span.stop
  ordered : ts.Pairwise fun t u => t.span.stop ≤ u.span.start

/-- A span reaches from the first of some tokens to the last one. -/
structure Frames (file : Nat) (ts : List Token) (s : Span) : Prop where
  file : s.file = file
  first : ∃ t ∈ ts, t.span.start = s.start
  last : ∃ t ∈ ts, t.span.stop = s.stop
  around : ∀ t ∈ ts, s.start ≤ t.span.start ∧ t.span.stop ≤ s.stop

section Frames

variable {file : Nat} {ts us vs : List Token} {t : Token} {s s' : Span}

theorem InRow.sublist (row : InRow file ts) (within : us.Sublist ts) : InRow file us where
  proper := fun t mem => row.proper t (within.subset mem)
  ordered := row.ordered.sublist within

theorem InRow.left (row : InRow file (ts ++ us)) : InRow file ts :=
  row.sublist (List.sublist_append_left _ _)

theorem InRow.right (row : InRow file (ts ++ us)) : InRow file us :=
  row.sublist (List.sublist_append_right _ _)

theorem InRow.before (row : InRow file (ts ++ us)) :
    ∀ t ∈ ts, ∀ u ∈ us, t.span.stop ≤ u.span.start :=
  (List.pairwise_append.mp row.ordered).2.2

theorem Frames.token (row : InRow file [t]) : Frames file [t] t.span where
  file := (row.proper t (by simp)).1
  first := ⟨t, by simp, rfl⟩
  last := ⟨t, by simp, rfl⟩
  around := by simp

theorem Frames.proper (row : InRow file ts) (h : Frames file ts s) : s.start < s.stop := by
  obtain ⟨t, mem, first⟩ := h.first
  have := (row.proper t mem).2
  have := (h.around t mem).2
  omega

/-- Covering the first and the last part of a phrase covers all of it. -/
theorem Frames.cover (row : InRow file (ts ++ (us ++ vs))) (left : Frames file ts s)
    (right : Frames file vs s') : Frames file (ts ++ (us ++ vs)) (s.cover s') := by
  have before : s.stop ≤ s'.start := by
    obtain ⟨t, memT, last⟩ := left.last
    obtain ⟨v, memV, first⟩ := right.first
    have := row.before t memT v (List.mem_append_right _ memV)
    omega
  have proper := left.proper row.left
  have proper' := right.proper row.right.right
  have whole : s.cover s' = ⟨s.file, s.start, s'.stop⟩ := by
    simp only [Span.cover, left.file, right.file, ne_eq, not_true_eq_false, if_false]
    congr 1 <;> omega
  rw [whole]
  refine ⟨left.file, ?_, ?_, fun t mem => ?_⟩
  · obtain ⟨t, mem, first⟩ := left.first
    exact ⟨t, List.mem_append_left _ mem, first⟩
  · obtain ⟨v, mem, last⟩ := right.last
    exact ⟨v, by simp [mem], last⟩
  · rcases List.mem_append.mp mem with inLeft | mem
    · have := left.around t inLeft
      exact ⟨this.1, by simp only; omega⟩
    · rcases List.mem_append.mp mem with inMid | inRight
      · obtain ⟨t', memT, last⟩ := left.last
        obtain ⟨v, memV, first⟩ := right.first
        have := row.before t' memT t (by simp [inMid])
        have := row.right.before t inMid v memV
        simp only
        omega
      · have := right.around t inRight
        exact ⟨by simp only; omega, this.2⟩

theorem Frames.extent (row : InRow file ts) (ne : ts ≠ []) : Frames file ts (extent ts) := by
  obtain ⟨t, rest, rfl⟩ := List.exists_cons_of_ne_nil ne
  rcases List.eq_nil_or_concat rest with rfl | ⟨mid, last, rfl⟩
  · simpa [Grammar.extent, Span.cover] using Frames.token row
  · rw [List.concat_eq_append] at row ⊢
    have row' : InRow file ([t] ++ (mid ++ [last])) := row
    have whole := Frames.cover row' (.token row'.left) (.token row'.right.right)
    simpa [Grammar.extent, List.getLast?_cons] using whole

end Frames

/-! ## The span of a node -/

section Nodes

variable {file : Nat} {ts : List Token}

theorem Named.frames : ∀ {ts e}, Named ts e → InRow file ts → Frames file ts e.span
  | _, _, .name _, row => .token row
  | _, _, .index target _ _ _, row => by
    rw [List.append_assoc] at row ⊢
    exact .cover row (target.frames row.left) (.token row.right.right)

theorem Primary.frames {e : Expr} (h : Primary ts e) (row : InRow file ts) :
    Frames file ts e.span := by
  cases h with
  | @group opening ts e close =>
    have row' : InRow file ([opening] ++ (ts ++ [close])) := row
    exact .cover row' (.token row'.left) (.token row'.right.right)
  | number => exact .token row
  | @call name opening close =>
    have row' : InRow file ([name] ++ ([opening] ++ [close])) := row
    exact .cover row' (.token row'.left) (.token row'.right.right)
  | @callWith name opening ts as close =>
    have row' : InRow file ([name] ++ (opening :: ts ++ [close])) := row
    exact .cover row' (.token row'.left) (.token row'.right.right)
  | named h => exact h.frames row

theorem Unary.frames : ∀ {ts e}, Unary ts e → InRow file ts → Frames file ts e.span
  | _, _, .primary h, row => h.frames row
  | _, _, @Unary.unary t op ts e _ operand, row => by
    have row' : InRow file ([t] ++ ([] ++ ts)) := row
    exact .cover row' (.token row'.left) (operand.frames row'.right.right)

theorem Level.frames : ∀ {n ts e}, Level n ts e → InRow file ts → Frames file ts e.span
  | _, _, _, .unary h, row => h.frames row
  | _, _, _, .tighter _ h, row => h.frames row
  | _, _, _, @Level.binary n ts left t op us right isLeft _ isRight, row => by
    have row' : InRow file (ts ++ ([t] ++ us)) := row
    exact .cover row' (isLeft.frames row'.left) (isRight.frames row'.right.right)

/-- The span of a node reaches from the first of its tokens to the last one. -/
theorem Spelled.frames {n : Node} (h : Spelled ts n) (row : InRow file ts) :
    Frames file ts n.span := by
  cases h with
  | item h =>
    cases h with
    | decl h => exact .extent row h.ne_nil
    | fn => exact .extent row (by simp)
  | stmt h =>
    have ne : ts ≠ [] := by
      obtain ⟨t, us, rfl, -⟩ := h.first
      exact List.cons_ne_nil t us
    have whole : Frames file ts (extent ts) := .extent row ne
    cases h with
    | block => simpa [extent, Node.span, Stmt.span, List.getLast?_cons] using whole
    | empty => simpa [extent, Node.span, Stmt.span, Span.cover] using whole
    | _ => exact whole
  | declStmt h => exact .extent row h.ne_nil
  | decl h =>
    have whole : Frames file ts (extent ts) := .extent row h.ne_nil
    cases h <;> exact whole
  | init h =>
    cases h with
    | value isExpr => exact isExpr.frames row
    | @empty opening close =>
      have row' : InRow file ([opening] ++ ([] ++ [close])) := row
      exact .cover row' (.token row'.left) (.token row'.right.right)
    | @list opening ts is close =>
      have row' : InRow file ([opening] ++ (ts ++ [close])) := row
      exact .cover row' (.token row'.left) (.token row'.right.right)
  | param h => cases h <;> exact .extent row (by simp)
  | expr h => exact h.frames row

/-- The spans of nodes among tokens lie between these tokens, one after the other. -/
theorem Parts.framed {ns : List Node} (h : Parts ts ns) (row : InRow file ts) :
    (∀ n ∈ ns, ∃ us, us <:+: ts ∧ Frames file us n.span) ∧
      ns.Pairwise fun n m => n.span.stop ≤ m.span.start := by
  refine ⟨fun n mem => ?_, ?_⟩
  · obtain ⟨us, within, spelled⟩ := h.spelled n mem
    exact ⟨us, within, spelled.frames (row.sublist within.sublist)⟩
  induction h with
  | none => exact .nil
  | next spelled later ih =>
    refine List.pairwise_cons.mpr ⟨fun m mem => ?_, ih row.right.right⟩
    obtain ⟨vs, within, spelled'⟩ := later.spelled m mem
    obtain ⟨t, memT, last⟩ := (spelled.frames row.right.left).last
    obtain ⟨v, memV, first⟩ :=
      (spelled'.frames (row.right.right.sublist within.sublist)).first
    have := row.right.before t memT v (within.subset memV)
    omega

end Nodes

end Grammar

/-! ## Files -/

open Grammar

/-- The span of a node fits a file and the nodes below it: it is not empty and lies in the file, it
begins where a token begins and ends where a token ends, and the spans of the nodes below lie in it,
one after the other. -/
structure Grammar.Node.Nested (f : Source.File) (n : Node) : Prop where
  file : n.span.file = f.id
  nonempty : n.span.start < n.span.stop
  inside : n.span.stop ≤ f.content.length
  first : ∃ t ∈ (Lexed.ofFile f).tokens, t.span.start = n.span.start
  last : ∃ t ∈ (Lexed.ofFile f).tokens, t.span.stop = n.span.stop
  around : ∀ m ∈ n.children, n.span.start ≤ m.span.start ∧ m.span.stop ≤ n.span.stop
  ordered : n.children.Pairwise fun m k => m.span.stop ≤ k.span.start

/-- The tokens of a file stand in a row, and the end token is at its end. -/
theorem Lexed.ofFile_inRow (f : Source.File) : InRow f.id (Lexed.ofFile f).tokens ∧
    (∀ t ∈ (Lexed.ofFile f).tokens, t.span.stop ≤ f.content.length) ∧
    (Lexed.ofFile f).eof.span = ⟨f.id, f.content.length, f.content.length⟩ := by
  have tiles : Tiles f.id 0 f.content (Lexer.ofFile f).drain.1 := (Lexer.ofFile f).drain_tiles rfl
  obtain ⟨before, whole, others⟩ := tiles.ends
  have tokens : (Lexed.ofFile f).tokens = before := by simp [Lexed.ofFile, whole]
  have eof : (Lexed.ofFile f).eof.span = ⟨f.id, f.content.length, f.content.length⟩ := by
    simp [Lexed.ofFile, whole]
  rw [tokens, eof]
  rw [whole] at tiles
  have slices := fun t mem => tiles.slices t (List.mem_append_left _ mem)
  refine ⟨⟨fun t mem => ⟨(slices t mem).1, (others t mem).2⟩, ?_⟩, fun t mem => ?_, rfl⟩
  · exact (List.pairwise_append.mp tiles.ordered).1.imp And.right
  · simpa using (slices t mem).2.2.2.1

section Files

variable {f : Source.File} {u : CompUnit}

theorem Parsed.spells (parsed : (Parsed.ofLexed (.ofFile f) false).result = .ok u) :
    Spells true (.ofFile f) u := by
  rw [Parsed.result_eq] at parsed
  cases found : Parser.compUnit (.ofFile f) with
  | ok v =>
    rw [found] at parsed
    cases parsed
    exact Parser.compUnit_sound (Parser.Input.ofLexed_ended f) found
  | error e =>
    rw [found] at parsed
    cases parsed

theorem Parsed.of_items {is : List Item} (items : Items true (Lexed.ofFile f).tokens is) :
    ∃ span, (Parsed.ofLexed (.ofFile f) false).result = .ok { span := span, items := is } := by
  have unit := Parser.compUnit_complete (u := ⟨_, is⟩) (Parser.Input.ofLexed_ended f) ⟨items, rfl⟩
  exact ⟨_, by rw [Parsed.result_eq, unit]⟩

theorem Grammar.Frames.within {file : Nat} {ts us : List Token} {s s' : Span}
    (h : Frames file ts s) (h' : Frames file us s') (subset : us ⊆ ts) :
    s.start ≤ s'.start ∧ s'.stop ≤ s.stop := by
  obtain ⟨t, memT, first⟩ := h'.first
  obtain ⟨v, memV, last⟩ := h'.last
  exact ⟨first ▸ (h.around t (subset memT)).1, last ▸ (h.around v (subset memV)).2⟩

theorem Grammar.Spells.nested (spells : Spells true (.ofFile f) u) {n : Node} (h : Occurs u n) :
    n.Nested f := by
  obtain ⟨ts, within, spelled⟩ := h.spelled spells.1
  obtain ⟨row, bound, -⟩ := Lexed.ofFile_inRow f
  have row := row.sublist within.sublist
  have frames := spelled.frames row
  obtain ⟨framed, ordered⟩ := spelled.parts.framed row
  obtain ⟨t, memT, first⟩ := frames.first
  obtain ⟨v, memV, last⟩ := frames.last
  refine ⟨frames.file, frames.proper row, last ▸ bound v (within.subset memV),
    ⟨t, within.subset memT, first⟩, ⟨v, within.subset memV, last⟩, fun m mem => ?_, ordered⟩
  obtain ⟨us, inner, framed⟩ := framed m mem
  exact frames.within framed inner.subset

theorem Grammar.Spells.covers (spells : Spells true (.ofFile f) u) :
    u.span.file = f.id ∧ u.span.start ≤ u.span.stop ∧ u.span.stop ≤ f.content.length ∧
    ∀ i ∈ u.items, u.span.start ≤ (Node.item i).span.start ∧
      (Node.item i).span.stop ≤ u.span.stop := by
  obtain ⟨row, bound, eof⟩ := Lexed.ofFile_inRow f
  have framed := (spells.1.parts.framed row).1
  rw [spells.2]
  split
  · rename_i isEmpty
    rw [eof]
    refine ⟨rfl, Nat.le_refl _, Nat.le_refl _, fun i mem => ?_⟩
    obtain ⟨us, within, framed⟩ := framed _ (List.mem_map_of_mem mem)
    obtain ⟨t, memT, -⟩ := framed.first
    rw [List.isEmpty_iff.mp isEmpty] at within
    exact absurd (within.subset memT) (List.not_mem_nil)
  · rename_i nonempty
    have frames : Frames f.id _ (extent (Lexed.ofFile f).tokens) :=
      .extent row (by simpa using nonempty)
    obtain ⟨v, memV, last⟩ := frames.last
    refine ⟨frames.file, Nat.le_of_lt (frames.proper row), last ▸ bound v memV, fun i mem => ?_⟩
    obtain ⟨us, within, framed⟩ := framed _ (List.mem_map_of_mem mem)
    exact frames.within framed within.subset

/-- Nothing is wrong with the spans of a unit if they nest. -/
theorem CompUnit.spanIssues_eq_nil {file size : Nat}
    (proper : u.span.start ≤ u.span.stop) (inside : u.span.stop ≤ size)
    (items : ∀ i ∈ u.items, (Node.item i).span.file = file ∧
      (Node.item i).span.start < (Node.item i).span.stop ∧
      u.span.start ≤ (Node.item i).span.start ∧ (Node.item i).span.stop ≤ u.span.stop) :
    u.spanIssues file size = [] := by
  rw [spanIssues, if_neg (by omega), List.filterMap_eq_nil_iff]
  intro i mem
  obtain ⟨sameFile, nonempty, start, stop⟩ := items i mem
  cases i with
  | missing id => exact absurd nonempty (Nat.lt_irrefl _)
  | _ =>
    simp only [Node.span, Item.span?, Option.getD_some] at sameFile nonempty start stop
    simp only [Item.spanIssue?]
    rw [if_neg (by omega), if_neg (by simp [sameFile]), if_neg (by omega)]

/-- Spans nest. Every node of a unit that is parsed has a span that is not empty, lies in its file,
begins where a token begins and ends where a token ends, and contains the spans of the nodes
directly below it, which stand there one after the other. The span of the unit contains those of
its items, which stand there one after the other as well, and the span check finds nothing
wrong. -/
theorem spans_nest (parsed : (Parsed.ofLexed (.ofFile f) false).result = .ok u) :
    (∀ n, Occurs u n → n.Nested f) ∧
    u.span.file = f.id ∧
    (∀ i ∈ u.items, u.span.start ≤ (Node.item i).span.start ∧
      (Node.item i).span.stop ≤ u.span.stop) ∧
    (u.items.Pairwise fun i j => (Node.item i).span.stop ≤ (Node.item j).span.start) ∧
    u.spanIssues f.id f.content.length = [] := by
  have spells := Parsed.spells parsed
  obtain ⟨file, proper, inside, items⟩ := spells.covers
  obtain ⟨row, -⟩ := Lexed.ofFile_inRow f
  refine ⟨fun n => spells.nested, file, items,
    List.pairwise_map.mp (spells.1.parts.framed row).2,
    CompUnit.spanIssues_eq_nil proper inside fun i mem => ?_⟩
  have nested := spells.nested (.item mem)
  exact ⟨nested.file, nested.nonempty, items i mem⟩

end Files

/-- A file with nodes of every kind. -/
def nodesOfAllKinds : Source.File :=
  { id := 0
    path := "nodes.c"
    content := Bytes.ofString
      "const int n = 2, a[n] = \x7b1, -n\x7d; int f(int b[]) \x7b if (b[0] < 1) return f(a); \x7d"
    flags := default }

theorem nodesOfAllKinds_nest : ∃ u,
    (Parsed.ofLexed (.ofFile nodesOfAllKinds) false).result = .ok u ∧ u.items.length = 2 ∧
      (∀ n, Occurs u n → n.Nested nodesOfAllKinds) ∧
      u.spanIssues 0 nodesOfAllKinds.content.length = [] := by
  have accepted : (match (Parsed.ofLexed (.ofFile nodesOfAllKinds) false).result with
      | .ok u => u.items.length == 2
      | _ => false) = true := by decide +kernel
  cases parsed : (Parsed.ofLexed (.ofFile nodesOfAllKinds) false).result with
  | ok u =>
    obtain ⟨nested, -, -, -, checked⟩ := spans_nest parsed
    rw [parsed] at accepted
    exact ⟨u, rfl, by simpa using accepted, nested, checked⟩
  | error e =>
    rw [parsed] at accepted
    cases accepted

end SysY

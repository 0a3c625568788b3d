import SysY.Proofs.Syntax.Grammar

/-! # Reading tokens

How inputs relate that the tokens of a phrase lie between, and when one token of an input can be
taken. -/

namespace SysY.Parser

open Source (Span)
open Grammar

/-! ## Phrases of an input -/

/-- The span of the last token of a phrase, or `s` if there is none. -/
def lastSpan (s : Span) (ts : List Token) : Span := (ts.getLast?.map Token.span).getD s

/-- The tokens `ts` lead from one input to another one. -/
structure Reads (i : Input) (ts : List Token) (j : Input) : Prop where
  tokens : i.tokens = ts ++ j.tokens
  last : j.last = lastSpan i.last ts
  eof : j.eof = i.eof
  lexical : j.lexical = i.lexical

section Reads

variable {i j k : Input} {ts us : List Token} {t : Token}

theorem Reads.refl (i : Input) : Reads i [] i := ⟨rfl, rfl, rfl, rfl⟩

theorem lastSpan_append (s : Span) (ts us : List Token) :
    lastSpan s (ts ++ us) = lastSpan (lastSpan s ts) us := by
  cases us with
  | nil => simp [lastSpan]
  | cons u us => simp [lastSpan, List.getLast?_append, List.getLast?_cons]

theorem Reads.trans (h : Reads i ts j) (h' : Reads j us k) : Reads i (ts ++ us) k where
  tokens := by rw [h.tokens, h'.tokens, List.append_assoc]
  last := by rw [h'.last, h.last, lastSpan_append]
  eof := h'.eof.trans h.eof
  lexical := h'.lexical.trans h.lexical

/-- A phrase in two parts is read in two parts. -/
theorem Reads.split (h : Reads i (ts ++ us) k) : ∃ j, Reads i ts j ∧ Reads j us k := by
  refine ⟨{ i with tokens := us ++ k.tokens, last := lastSpan i.last ts },
    ⟨?_, rfl, rfl, rfl⟩, ⟨rfl, ?_, h.eof, h.lexical⟩⟩
  · rw [h.tokens, List.append_assoc]
  · rw [h.last, lastSpan_append]

theorem Reads.cons (h : Reads i [t] j) (h' : Reads j us k) : Reads i (t :: us) k := h.trans h'

theorem Reads.uncons (h : Reads i (t :: us) k) : ∃ j, Reads i [t] j ∧ Reads j us k := by
  have whole : Reads i ([t] ++ us) k := h
  exact whole.split

theorem Reads.snoc (h : Reads i ts j) (h' : Reads j [t] k) : Reads i (ts ++ [t]) k := h.trans h'

theorem Reads.onward (h : Reads i (ts ++ [t]) j) (h' : Reads j us k) :
    Reads i (ts ++ t :: us) k := by
  rw [List.append_cons]
  exact h.trans h'

theorem Reads.partway (h : Reads i (ts ++ t :: us) k) :
    ∃ j, Reads i (ts ++ [t]) j ∧ Reads j us k := by
  rw [List.append_cons] at h
  exact h.split

theorem Reads.unique {k : Input} (h : Reads i ts j) (h' : Reads i ts k) : j = k := by
  obtain ⟨tokens, last, eof, lexical⟩ := j
  obtain ⟨tokens', last', eof', lexical'⟩ := k
  have same := List.append_cancel_left (h.tokens.symm.trans h'.tokens)
  have := h.last.trans h'.last.symm
  have := h.eof.trans h'.eof.symm
  have := h.lexical.trans h'.lexical.symm
  simp_all

/-- The first token of a phrase is the next one. -/
theorem Reads.peek (h : Reads i (t :: ts) j) : i.peek = t := by
  simp [Input.peek, h.tokens]

theorem Reads.kind_eq {k : Token.Kind} (h : Reads i (t :: ts) j) (kind : t.kind = k) :
    i.kind = k := by
  rw [Input.kind, h.peek, kind]

theorem Reads.size (h : Reads i ts j) : i.size = ts.length + j.size := by
  simp [Input.size, h.tokens]

/-- From the first token to the last one that was read. -/
theorem Reads.cover (h : Reads i (t :: ts) j) : t.span.cover j.last = extent (t :: ts) := by
  rw [h.last]
  simp [lastSpan, Grammar.extent, List.getLast?_cons]

theorem Reads.extent (h : Reads i ts j) (ne : ts ≠ []) :
    i.peek.span.cover j.last = Grammar.extent ts := by
  cases ts with
  | nil => exact absurd rfl ne
  | cons => rw [h.peek, h.cover]

end Reads

/-- What the next token is, if there is one. -/
def Next (i : Input) (P : Token.Kind → Prop) : Prop := ∀ t ∈ i.tokens.head?, P t.kind

theorem Next.mono {i : Input} {P Q : Token.Kind → Prop} (h : Next i P) (weaker : ∀ k, P k → Q k) :
    Next i Q := fun t mem => weaker _ (h t mem)

theorem Reads.next {i j : Input} {t : Token} {ts : List Token} (h : Reads i (t :: ts) j)
    {P : Token.Kind → Prop} : Next i P ↔ P t.kind := by
  simp [Next, h.tokens]

/-! ## Taking a token -/

section Take

variable {i j : Input} {k : Token.Kind} {t : Token} {β : Type} {f : Token.Kind → Option β} {b : β}

theorem takeIf_eq_some {r : Taken (Token × β) i} (h : takeIf i f = some r) :
    Reads i [r.value.1] r.next ∧ f r.value.1.kind = some r.value.2 := by
  unfold takeIf at h
  split at h
  · cases h
  · rename_i t rest tokens
    split at h
    · cases h
    · rename_i b found
      cases h
      exact ⟨⟨tokens, rfl, rfl, rfl⟩, found⟩

theorem takeIf_eq_none : takeIf i f = none ↔ Next i (f · = none) := by
  unfold takeIf Next
  split
  · rename_i tokens
    simp [tokens]
  · rename_i t rest tokens
    split <;> simp_all

theorem takeIf_of_reads (h : Reads i [t] j) (found : f t.kind = some b) :
    ∃ s, takeIf i f = some ⟨(t, b), j, s⟩ := by
  cases taken : takeIf i f with
  | none =>
    rw [takeIf_eq_none, h.next, found] at taken
    cases taken
  | some r =>
    obtain ⟨reads, found'⟩ := takeIf_eq_some taken
    have same : [t] ++ j.tokens = [r.value.1] ++ r.next.tokens := h.tokens.symm.trans reads.tokens
    obtain ⟨⟨t', b'⟩, next, shorter⟩ := r
    simp only [List.cons_append, List.nil_append, List.cons.injEq] at same
    obtain ⟨rfl, -⟩ := same
    obtain rfl := Option.some.inj (found.symm.trans found')
    obtain rfl := h.unique reads
    exact ⟨shorter, rfl⟩

theorem take?_eq_some {r : Taken Token i} (h : take? i k = some r) :
    Reads i [r.value] r.next ∧ r.value.kind = k := by
  unfold take? at h
  obtain ⟨r', taken, rfl⟩ := Option.map_eq_some_iff.mp h
  obtain ⟨reads, found⟩ := takeIf_eq_some taken
  refine ⟨reads, ?_⟩
  split at found
  · assumption
  · cases found

theorem take?_eq_none : take? i k = none ↔ Next i (· ≠ k) := by
  unfold take?
  rw [Option.map_eq_none_iff, takeIf_eq_none]
  simp [Next]

theorem take?_of_reads (h : Reads i [t] j) (kind : t.kind = k) :
    ∃ s, take? i k = some ⟨t, j, s⟩ := by
  obtain ⟨s, taken⟩ := takeIf_of_reads (f := fun k' => if k' = k then some () else none) h
    (if_pos kind)
  exact ⟨s, by rw [take?, taken]; rfl⟩

theorem expect_eq_ok {code : Diag.Code} {detail : String} {r : Taken Token i}
    (h : expect i k code detail = .ok r) : Reads i [r.value] r.next ∧ r.value.kind = k := by
  unfold expect at h
  split at h
  · rename_i taken
    cases h
    exact take?_eq_some taken
  · cases h

theorem expect_of_reads (h : Reads i [t] j) (kind : t.kind = k) (code : Diag.Code)
    (detail : String) : ∃ s, expect i k code detail = .ok ⟨t, j, s⟩ := by
  obtain ⟨s, taken⟩ := take?_of_reads h kind
  exact ⟨s, by rw [expect, taken]⟩

end Take

/-- A token that does not continue an expression at level `n`. -/
def Below (n : Nat) (k : Token.Kind) : Prop := ∀ op, binaryOp? k = some op → op.2 < n

theorem Below.mono {n m : Nat} {k : Token.Kind} (h : Below n k) (le : n ≤ m) : Below m k :=
  fun op found => Nat.lt_of_lt_of_le (h op found) le

theorem binaryOpFrom?_eq_none {least : Nat} {k : Token.Kind} :
    binaryOpFrom? least k = none ↔ Below least k := by
  simp [binaryOpFrom?, Below, Option.filter_eq_none_iff]

end SysY.Parser

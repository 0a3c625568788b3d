import SysY.Proofs.Text.Ascii
import SysY.Proofs.Token.Flaws

/-! # Laying out tokens

What a text is made of, told from its parts. A part is laid out as tokens if it is read as them
wherever it stands, as long as what follows does not continue its last token. -/

namespace SysY

namespace Scan

/-- No token goes on from a text into what follows it: a name or number is not continued, and a sign
is neither part of a longer one nor the beginning of a comment. -/
def Ends (text rest : Bytes) : Prop :=
  ∀ b ∈ text.head?, ∀ c ∈ rest.head?,
    if isNamePart b then isNamePart c = false
    else text.length = 1 → pair? b c = none ∧ (b = 47 → c ≠ 47 ∧ c ≠ 42)

section Ends

variable {b : UInt8} {k : Token.Kind} {text part rest : Bytes}

theorem takeWhile_ends (all : ∀ c ∈ part, isNamePart c = true)
    (ends : ∀ c ∈ rest.head?, isNamePart c = false) :
    (part ++ rest).takeWhile isNamePart = part := by
  rw [List.takeWhile_append_of_pos all]
  cases rest with
  | nil => simp
  | cons c rest => simp [ends c rfl]

theorem not_opens (notSpace : isSpace b = false)
    (noComment : b = 47 → ∀ c ∈ rest.head?, c ≠ 47 ∧ c ≠ 42) : ¬ Opens (b :: rest) := by
  intro opens
  cases opens with
  | space isSpace => simp [notSpace] at isSpace
  | line => exact (noComment rfl 47 rfl).1 rfl
  | block => exact (noComment rfl 42 rfl).2 rfl

theorem Ends.name (ends : Ends (b :: part) rest) (isPart : isNamePart b = true) :
    ∀ c ∈ rest.head?, isNamePart c = false := fun c mem => by
  simpa [isPart] using ends b rfl c mem

theorem Ends.sign (ends : Ends [b] rest) (notPart : isNamePart b = false) :
    rest.head?.bind (pair? b) = none ∧ (b = 47 → ∀ c ∈ rest.head?, c ≠ 47 ∧ c ≠ 42) := by
  have here {c : UInt8} (mem : c ∈ rest.head?) : pair? b c = none ∧ (b = 47 → c ≠ 47 ∧ c ≠ 42) := by
    simpa [notPart] using ends b rfl c mem
  refine ⟨Option.bind_eq_none_iff.mpr fun c found => ?_, fun slash c mem => (here mem).2 slash⟩
  exact (here found).1

theorem sign_length (single : rest.head?.bind (pair? b) = none) : (sign b rest).length = 1 := by
  unfold sign
  rw [single]
  simp only
  split <;> rfl

theorem pair?_ne_slash {c : UInt8} (h : pair? b c = some k) : b ≠ 47 := by
  rintro rfl
  simp [pair?] at h

/-- A token that does not go on is read as it is, and no gap begins there. -/
theorem Lexical.lexeme_length (h : Lexical k (b :: part)) (ends : Ends (b :: part) rest) :
    (lexeme b (part ++ rest)).length = part.length + 1 ∧ ¬ Opens (b :: (part ++ rest)) := by
  have notSpace : isSpace b = false := by
    obtain ⟨b', more, eq, notSpace⟩ := h.first
    cases eq
    exact notSpace
  have slash (isPart : isNamePart b = true) : b ≠ 47 := by
    rintro rfl
    cases isPart
  generalize whole : b :: part = text at h
  cases h with
  | word isWord all =>
    cases whole
    have isPart : isNamePart b = true := by simp [isNamePart, isWord]
    refine ⟨?_, not_opens notSpace fun isSlash => absurd isSlash (slash isPart)⟩
    simp [lexeme, isWord, Scan.word, Lexeme.length, takeWhile_ends all (ends.name isPart)]
  | number isNumber all | malformed isNumber all =>
    cases whole
    have isPart : isNamePart b = true := by simp [isNamePart, isNumber]
    refine ⟨?_, not_opens notSpace fun isSlash => absurd isSlash (slash isPart)⟩
    simp only [lexeme, isNumber, isNameStart_of_isDecimal isNumber, Scan.number, numberPart_eq,
      Lexeme.length, takeWhile_ends all (ends.name isPart), Bool.false_eq_true, if_false, if_true]
    split <;> rfl
  | sign isSign =>
    rcases spelled_cases isSign with ⟨b', spelled, found⟩ | ⟨b', c, spelled, found⟩
    · rw [spelled] at whole
      cases whole
      obtain ⟨single, noComment⟩ := ends.sign (single?_first found).1
      rw [List.nil_append, lexeme_sign (single?_first found).1]
      exact ⟨sign_length single, not_opens notSpace noComment⟩
    · rw [spelled] at whole
      cases whole
      rw [lexeme_sign (pair?_first found).1]
      exact ⟨by simp [Scan.sign, found, Lexeme.length],
        not_opens notSpace fun isSlash => absurd isSlash (pair?_ne_slash found)⟩
  | unknown _ notPart =>
    cases whole
    obtain ⟨single, noComment⟩ := ends.sign notPart
    rw [List.nil_append, lexeme_sign notPart]
    exact ⟨sign_length single, not_opens notSpace noComment⟩

theorem Lexical.longest (h : Lexical k text) (ends : Ends text rest) :
    Longest k text rest ∧ ¬ Opens (text ++ rest) := by
  obtain ⟨b, part, rfl, -⟩ := h.first
  obtain ⟨length, stops⟩ := h.lexeme_length ends
  refine ⟨⟨h, fun other here => ?_⟩, stops⟩
  exact Nat.le_trans (lexeme_longest other here) (Nat.le_of_eq length)

/-! ## What ends a token -/

/-- The byte goes on from no sign. -/
def Loose (c : UInt8) : Prop := c ∉ [38, 124, 61, 47, 42]

theorem pair?_second {c : UInt8} (h : pair? b c = some k) : ¬ Loose c := by
  unfold pair? at h
  split at h <;> cases h <;> exact fun loose => loose (by decide)

theorem Loose.pair? {c : UInt8} (loose : Loose c) (b : UInt8) : pair? b c = none := by
  cases found : Scan.pair? b c with
  | none => rfl
  | some k => exact absurd loose (pair?_second found)

/-- White space goes on from no sign and no name. -/
theorem loose_of_space : ∀ c, isSpace c = true → Loose c ∧ isNamePart c = false :=
  Bytes.forall_byte (by unfold Loose; decide +kernel)

theorem loose_of_isNamePart : ∀ c, isNamePart c = true → Loose c :=
  Bytes.forall_byte (by unfold Loose; decide +kernel)

theorem Ends.of_name (isPart : ∀ b ∈ text.head?, isNamePart b = true)
    (breaks : ∀ c ∈ rest.head?, isNamePart c = false) : Ends text rest := fun b mem c mem' => by
  rw [if_pos (isPart b mem)]
  exact breaks c mem'

theorem Ends.of_sign (notPart : ∀ b ∈ text.head?, isNamePart b = false)
    (loose : ∀ c ∈ rest.head?, Loose c) : Ends text rest := fun b mem c mem' => by
  rw [if_neg (by simp [notPart b mem])]
  refine fun _ => ⟨(loose c mem').pair? b, fun _ => ⟨?_, ?_⟩⟩
  · rintro rfl
    exact loose 47 mem' (by decide)
  · rintro rfl
    exact loose 42 mem' (by decide)

/-- White space ends every token. -/
theorem Ends.space {c : UInt8} (isSpace : isSpace c = true) (text rest : Bytes) :
    Ends text (c :: rest) := by
  obtain ⟨loose, notPart⟩ := loose_of_space c isSpace
  have ends (b : UInt8) : Ends [b] (c :: rest) := by
    cases isPart : isNamePart b with
    | true => exact .of_name (by simpa using isPart) (by simpa using notPart)
    | false => exact .of_sign (by simpa using isPart) (by simpa using loose)
  intro b mem c' mem'
  have here := ends b b rfl c' mem'
  split
  · rename_i isPart
    rwa [if_pos isPart] at here
  · rename_i notPart
    rw [if_neg notPart] at here
    exact fun _ => here rfl

/-- A bracket, a comma or a semicolon is always a sign of its own. -/
theorem Ends.alone (notPart : isNamePart b = false) (single : ∀ c, pair? b c = none)
    (other : b ≠ 47) (rest : Bytes) : Ends [b] rest := by
  rintro _ ⟨⟩ c -
  rw [if_neg (by simp [notPart])]
  exact fun _ => ⟨single c, fun slash => absurd slash other⟩

end Ends

end Scan

/-- White space and comments may stand in front of tokens. -/
theorem Tiles.blank {file offset : Nat} {g rest : Bytes} {ts : List Token} (blank : Scan.Blank g)
    (h : Tiles file (offset + g.length) rest ts) : Tiles file offset (g ++ rest) ts := by
  cases h with
  | last ending =>
    rw [Nat.add_assoc, ← List.length_append]
    exact .last (ending.after blank)
  | @token _ gap text rest k ts inner stops longest later =>
    rw [← List.append_assoc, Nat.add_assoc, ← List.length_append]
    rw [Nat.add_assoc offset, ← List.length_append] at later
    exact .token (blank.append inner) stops longest later

/-! ## Errors -/

section Flaws

variable {file offset : Nat} {bs : Bytes} {ts : List Token} {es es' : List Diag.Error}

theorem Flaws.ne_nil (h : Flaws file offset bs ts es) : ts ≠ [] := by
  cases h <;> exact nofun

/-- The errors of a text are determined by its tokens. -/
theorem Flaws.unique (h : Flaws file offset bs ts es) (h' : Flaws file offset bs ts es') :
    es' = es := by
  induction h generalizing es' with
  | closed closed =>
    cases h' with
    | closed => rfl
    | unclosed unclosed => exact absurd unclosed (closed _)
    | token later => exact absurd rfl later.ne_nil
  | unclosed unclosed =>
    cases h' with
    | closed closed => exact absurd unclosed (closed _)
    | unclosed unclosed' =>
      have same := unclosed.gap_unclosed.symm.trans unclosed'.gap_unclosed
      cases same
      rfl
    | token later => exact absurd rfl later.ne_nil
  | token later ih =>
    cases h' with
    | closed | unclosed => exact absurd rfl later.ne_nil
    | token later' => rw [ih later']

theorem Scan.Blank.not_unclosed {g rest : Bytes} (blank : Blank g)
    (closed : ∀ n, ¬ Unclosed rest n) (n : Nat) : ¬ Unclosed (g ++ rest) n := by
  intro unclosed
  have found := unclosed.gap_unclosed
  rw [blank.gap_append] at found
  obtain ⟨m, inner, -⟩ := Option.map_eq_some_iff.mp found
  exact closed m (unclosed_of_gap inner)

end Flaws

/-- Tokens that tile a text in which nothing is wrong. -/
structure Clean (file offset : Nat) (bs : Bytes) (ts : List Token) : Prop where
  tiles : Tiles file offset bs ts
  flawless : Flaws file offset bs ts []

section Clean

variable {file offset : Nat} {bs rest : Bytes} {ts : List Token}

theorem Clean.atEnd (file offset : Nat) :
    Clean file offset [] [{ kind := .eof, span := ⟨file, offset, offset⟩ }] where
  tiles := .last (.blank .none)
  flawless := .closed fun n unclosed => Nat.not_lt_zero n unclosed.lt_length

theorem Clean.blank {g : Bytes} (blank : Scan.Blank g)
    (h : Clean file (offset + g.length) rest ts) : Clean file offset (g ++ rest) ts where
  tiles := h.tiles.blank blank
  flawless := by
    obtain ⟨tiles, flawless⟩ := h
    generalize none : ([] : List Diag.Error) = es at flawless ⊢
    cases flawless with
    | closed closed => exact .closed (blank.not_unclosed closed)
    | unclosed => cases none
    | @token _ _ t ts es later =>
      have after := (tiles.slices t List.mem_cons_self).2
      refine .token ?_
      rwa [List.drop_append, List.drop_eq_nil_of_le (by omega), List.nil_append, Nat.sub_sub]

/-- A valid token that does not go on. -/
theorem Clean.token {k : Token.Kind} (h : Scan.Lexical k bs) (valid : k ≠ .invalid)
    (ends : Scan.Ends bs rest) (later : Clean file (offset + bs.length) rest ts) :
    Clean file offset (bs ++ rest) (⟨k, ⟨file, offset, offset + bs.length⟩, bs⟩ :: ts) where
  tiles :=
    have cut := h.longest ends
    @Tiles.token _ _ [] _ _ _ _ .none cut.2 cut.1 later.tiles
  flawless := by
    have noIssue : Token.issue? ⟨k, ⟨file, offset, offset + bs.length⟩, bs⟩ = none :=
      Token.issue?_valid valid
    have flawless := later.flawless
    rw [← @List.drop_left _ bs rest] at flawless
    have whole := @Flaws.token file offset (bs ++ rest) ⟨k, ⟨file, offset, offset + bs.length⟩, bs⟩
      ts [] (by simpa using flawless)
    rwa [noIssue] at whole

end Clean

/-! ## Laying texts out -/

/-- Wherever the bytes `bs` stand in front of `rest`, they are tokens with the property `P`,
whatever tokens follow. -/
def LaidOut (P : List Token → Prop) (bs rest : Bytes) : Prop :=
  ∀ file offset, ∃ us, P us ∧
    ∀ ts, Clean file (offset + bs.length) rest ts → Clean file offset (bs ++ rest) (us ++ ts)

section LaidOut

variable {P Q : List Token → Prop} {bs cs rest : Bytes}

theorem LaidOut.mono (h : LaidOut P bs rest) (weaker : ∀ us, P us → Q us) : LaidOut Q bs rest :=
  fun file offset =>
    let ⟨us, holds, clean⟩ := h file offset
    ⟨us, weaker us holds, clean⟩

theorem LaidOut.append (h : LaidOut P bs (cs ++ rest)) (h' : LaidOut Q cs rest) :
    LaidOut (fun us => ∃ vs ws, us = vs ++ ws ∧ P vs ∧ Q ws) (bs ++ cs) rest := by
  intro file offset
  obtain ⟨us, holds, clean⟩ := h file offset
  obtain ⟨vs, holds', clean'⟩ := h' file (offset + bs.length)
  refine ⟨us ++ vs, ⟨us, vs, rfl, holds, holds'⟩, fun ts later => ?_⟩
  rw [List.append_assoc, List.append_assoc]
  refine clean _ (clean' _ ?_)
  rwa [Nat.add_assoc, ← List.length_append]

/-- White space and comments are no tokens. -/
theorem LaidOut.blank (h : Scan.Blank bs) (laid : LaidOut P cs rest) : LaidOut P (bs ++ cs) rest :=
  fun file offset => by
    obtain ⟨us, holds, clean⟩ := laid file (offset + bs.length)
    refine ⟨us, holds, fun ts later => ?_⟩
    rw [List.append_assoc]
    refine (clean ts ?_).blank h
    rwa [Nat.add_assoc, ← List.length_append]

/-- A token that does not go on. -/
theorem LaidOut.token {k : Token.Kind} (h : Scan.Lexical k bs) (valid : k ≠ .invalid)
    (ends : Scan.Ends bs rest) :
    LaidOut (fun us => ∃ t : Token, us = [t] ∧ t.kind = k ∧ t.text = bs) bs rest :=
  fun _ _ => ⟨_, ⟨_, rfl, rfl, rfl⟩, fun _ later => later.token h valid ends⟩

/-- A file whose content is laid out is read as its tokens, and nothing is reported. -/
theorem LaidOut.lexed {f : Source.File} (h : LaidOut P f.content []) :
    P (Lexed.ofFile f).tokens ∧ (Lexed.ofFile f).errors = [] := by
  obtain ⟨us, holds, clean⟩ := h f.id 0
  obtain ⟨tiles, flawless⟩ := clean _ (.atEnd _ _)
  rw [List.append_nil] at tiles flawless
  obtain ⟨es, reported, flaws⟩ := (Lexer.ofFile f).drain_flaws rfl
  have whole : (Lexer.ofFile f).drain.1 = _ := tiles.unique ((Lexer.ofFile f).drain_tiles rfl)
  rw [whole] at flaws
  have tokens : (Lexed.ofFile f).tokens = us := by simp [Lexed.ofFile, whole]
  have errors : (Lexed.ofFile f).errors = es := reported
  exact ⟨tokens ▸ holds, errors.trans (flawless.unique flaws)⟩

end LaidOut

end SysY

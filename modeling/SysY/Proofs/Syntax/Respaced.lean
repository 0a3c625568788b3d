import SysY.Proofs.Syntax.Reprint
import SysY.Proofs.Syntax.Words
import SysY.Source.Normal

/-! # Words with other white space between them

The words of a text that has no lexical error can be written down again with any white space between
them, and they are read as the same words: white space ends every token, and begins none. This also
holds when the new text is brought into normal form first, which only shortens its white space. -/

namespace SysY

open Source (dropByteOrderMark foldLineEnds normalize)

namespace Scan

/-- Texts one after the other, with some white space between any two of them. -/
inductive Spaced : List Bytes → Bytes → Prop
  | none : Spaced [] []
  | one {text : Bytes} : Spaced [text] text
  | more {text gap bs : Bytes} {next : Bytes} {texts : List Bytes} : gap ≠ [] →
      (∀ b ∈ gap, isSpace b = true) → Spaced (next :: texts) bs →
      Spaced (text :: next :: texts) (text ++ (gap ++ bs))

theorem Blank.spaces {gap : Bytes} (spaces : ∀ b ∈ gap, isSpace b = true) : Blank gap := by
  induction gap with
  | nil => exact .none
  | cons b gap ih =>
    obtain ⟨isSpace, others⟩ := List.forall_mem_cons.mp spaces
    exact .space isSpace (ih others)

/-! ## Normal form -/

/-- White space and the bytes of valid tokens are ASCII. -/
def IsPlain (bs : Bytes) : Prop := ∀ b ∈ bs, b < 0x80 ∧ isSpace b = false

theorem plain_of_isNamePart : ∀ c, isNamePart c = true → c < 0x80 ∧ isSpace c = false :=
  Bytes.forall_byte (by decide +kernel)

theorem ascii_of_isSpace : ∀ c, isSpace c = true → c < 0x80 :=
  Bytes.forall_byte (by decide +kernel)

theorem plain_of_single? : ∀ b, (single? b).isSome → b < 0x80 ∧ isSpace b = false :=
  Bytes.forall_byte (by decide +kernel)

theorem plain_of_pair? {b c : UInt8} {k : Token.Kind} (h : pair? b c = some k) :
    IsPlain [b, c] := by
  unfold pair? at h
  split at h <;> cases h <;> simp [IsPlain, isSpace]

theorem Lexical.plain {k : Token.Kind} {text : Bytes} (h : Lexical k text) (valid : k ≠ .invalid) :
    IsPlain text := by
  cases h with
  | word isWord all =>
    refine List.forall_mem_cons.mpr ⟨plain_of_isNamePart _ (by simp [isNamePart, isWord]), ?_⟩
    exact fun c mem => plain_of_isNamePart c (all c mem)
  | number isNumber all =>
    refine List.forall_mem_cons.mpr ⟨plain_of_isNamePart _ (by simp [isNamePart, isNumber]), ?_⟩
    exact fun c mem => plain_of_isNamePart c (all c mem)
  | sign isSign =>
    rcases spelled_cases isSign with ⟨b, spelled, found⟩ | ⟨b, c, spelled, found⟩
    · rw [spelled]
      exact List.forall_mem_singleton.mpr (plain_of_single? b (by simp [found]))
    · rw [spelled]
      exact plain_of_pair? found
  | malformed | unknown => exact absurd rfl valid

/-- Bytes that are no carriage returns stay. -/
theorem foldLineEnds_plain {text : Bytes} (plain : IsPlain text) (rest : Bytes) :
    foldLineEnds (text ++ rest) = text ++ foldLineEnds rest := by
  induction text with
  | nil => rfl
  | cons b text ih =>
    obtain ⟨here, others⟩ := List.forall_mem_cons.mp plain
    have other : b ≠ 13 := by
      rintro rfl
      cases here.2
    rw [List.cons_append, foldLineEnds, if_neg fun pair => other pair.1, ih others,
      List.cons_append]

/-- Line ends are replaced in white space on its own, unless a newline follows it. -/
theorem foldLineEnds_gap (gap : Bytes) {rest : Bytes} (starts : rest.head? ≠ some 10) :
    foldLineEnds (gap ++ rest) = foldLineEnds gap ++ foldLineEnds rest := by
  induction gap with
  | nil => rfl
  | cons b gap ih =>
    have head : (gap ++ rest).head? = some 10 ↔ gap.head? = some 10 := by
      cases gap with
      | nil => simpa using starts
      | cons c gap => rfl
    rw [List.cons_append, foldLineEnds, foldLineEnds, ih]
    simp only [head]
    split <;> rfl

theorem foldLineEnds_subset (bs : Bytes) : foldLineEnds bs ⊆ bs := by
  induction bs with
  | nil => exact List.Subset.refl _
  | cons b bs ih =>
    rw [foldLineEnds]
    split
    · exact List.subset_cons_of_subset b ih
    · exact List.cons_subset_cons b ih

theorem foldLineEnds_ne_nil {bs : Bytes} (nonempty : bs ≠ []) : foldLineEnds bs ≠ [] := by
  induction bs with
  | nil => exact absurd rfl nonempty
  | cons b bs ih =>
    rw [foldLineEnds]
    split
    · rename_i pair
      refine ih ?_
      rintro rfl
      cases pair.2
    · exact List.cons_ne_nil _ _

section Spaced

variable {texts : List Bytes} {bs : Bytes}

/-- A spaced text starts with its first part. -/
theorem Spaced.starts {text : Bytes} (h : Spaced (text :: texts) bs) : text <+: bs := by
  cases h with
  | one => exact List.prefix_refl _
  | more => exact List.prefix_append _ _

theorem Spaced.ascii (h : Spaced texts bs) (plain : ∀ text ∈ texts, IsPlain text) :
    ∀ b ∈ bs, b < 0x80 := by
  induction h with
  | none => exact nofun
  | one => exact fun b mem => (plain _ (List.mem_singleton_self _) b mem).1
  | more _ spaces _ ih =>
    obtain ⟨here, others⟩ := List.forall_mem_cons.mp plain
    refine List.forall_mem_append.mpr ⟨fun b mem => (here b mem).1, ?_⟩
    exact List.forall_mem_append.mpr ⟨fun b mem => ascii_of_isSpace b (spaces b mem), ih others⟩

/-- Replacing line ends leaves the parts of a spaced text as they are. -/
theorem Spaced.foldLineEnds (h : Spaced texts bs)
    (plain : ∀ text ∈ texts, IsPlain text ∧ text ≠ []) :
    Spaced texts (Source.foldLineEnds bs) := by
  induction h with
  | none => exact .none
  | @one text =>
    have same := foldLineEnds_plain (plain text (List.mem_singleton_self _)).1 []
    rw [List.append_nil] at same
    rw [same, Source.foldLineEnds, List.append_nil]
    exact .one
  | @more text gap bs next texts nonempty spaces later ih =>
    obtain ⟨here, others⟩ := List.forall_mem_cons.mp plain
    have starts : bs.head? ≠ some 10 := by
      obtain ⟨first, noText⟩ := others next List.mem_cons_self
      obtain ⟨b, part, rfl⟩ := List.exists_cons_of_ne_nil noText
      obtain ⟨rest, rfl⟩ := later.starts
      rintro ⟨⟩
      cases (first 10 List.mem_cons_self).2
    rw [foldLineEnds_plain here.1, foldLineEnds_gap gap starts]
    refine .more (foldLineEnds_ne_nil nonempty) (fun b mem => ?_) (ih others)
    exact spaces b (foldLineEnds_subset gap mem)

/-- The normal form of a spaced text is one with the same parts. -/
theorem Spaced.normalize (h : Spaced texts bs) (plain : ∀ text ∈ texts, IsPlain text ∧ text ≠ []) :
    Spaced texts (Source.normalize bs).1 := by
  have ascii := h.ascii fun text mem => (plain text mem).1
  have unmarked : (dropByteOrderMark bs).1 = bs := by
    unfold dropByteOrderMark
    split
    · exact absurd (ascii _ List.mem_cons_self) (by decide)
    · rfl
  have composed : (Source.normalize bs).1 = Source.foldLineEnds bs := by
    change Text.Canonical.normalize (Source.foldLineEnds (dropByteOrderMark bs).1) = _
    rw [unmarked, Text.Canonical.normalize, if_pos]
    exact List.all_eq_true.mpr fun b mem => decide_eq_true (ascii b (foldLineEnds_subset bs mem))
  rw [composed]
  exact h.foldLineEnds plain

end Spaced

end Scan

/-! ## Reading a spaced text -/

/-- Where valid tokens are written with white space between them, they are read again. -/
theorem LaidOut.spaced {ts : List Token} {bs : Bytes}
    (lexical : ∀ t ∈ ts, Scan.Lexical t.kind t.text ∧ t.kind ≠ .invalid)
    (h : Scan.Spaced (ts.map (·.text)) bs) :
    LaidOut (fun us => us.map Token.word = ts.map Token.word) bs [] := by
  generalize whole : ts.map (·.text) = texts at h
  induction h generalizing ts with
  | none =>
    obtain rfl := List.map_eq_nil_iff.mp whole
    exact fun _ _ => ⟨[], rfl, fun _ later => later⟩
  | one =>
    obtain ⟨t, rfl, rfl⟩ := List.map_eq_singleton_iff.mp whole
    obtain ⟨isToken, valid⟩ := lexical t (List.mem_singleton_self t)
    have ends : Scan.Ends t.text [] := fun _ _ _ mem => absurd mem (Option.not_mem_none _)
    refine (LaidOut.token isToken valid ends).mono ?_
    rintro _ ⟨u, rfl, kind, text⟩
    simp [Token.word, kind, text]
  | @more text gap bs next texts nonempty spaces later ih =>
    obtain ⟨t, us, rfl, rfl, others⟩ := List.map_eq_cons_iff.mp whole
    obtain ⟨⟨isToken, valid⟩, lexical⟩ := List.forall_mem_cons.mp lexical
    have rest := LaidOut.blank (.spaces spaces) (ih lexical others)
    have ends : Scan.Ends t.text (gap ++ bs ++ []) := by
      obtain ⟨b, gap, rfl⟩ := List.exists_cons_of_ne_nil nonempty
      exact .space (spaces b List.mem_cons_self) _ _
    refine ((LaidOut.token isToken valid ends).append rest).mono ?_
    rintro _ ⟨_, vs, rfl, ⟨u, rfl, kind, text⟩, words⟩
    simp [Token.word, kind, text, words]

/-- The words of a file without lexical errors, written with any white space between them, are read
as the same words, and nothing is reported. It makes no difference whether the new text is taken as
it is or brought into normal form first. -/
theorem respaced_same_words {f g : Source.File} {bs : Bytes} (clean : (Lexed.ofFile f).errors = [])
    (spaced : Scan.Spaced ((Lexed.ofFile f).tokens.map (·.text)) bs)
    (content : g.content = bs ∨ g.content = (normalize bs).1) :
    (Lexed.ofFile g).words = (Lexed.ofFile f).words ∧ (Lexed.ofFile g).errors = [] := by
  have valid : ∀ t ∈ (Lexed.ofFile f).tokens, t.kind ≠ .invalid := by
    have issues := Lexed.ofFile_issues f
    rw [clean] at issues
    cases issues
    assumption
  have lexical : ∀ t ∈ (Lexed.ofFile f).tokens, Scan.Lexical t.kind t.text ∧ t.kind ≠ .invalid :=
    fun t mem => ⟨Lexed.ofFile_lexical f t mem, valid t mem⟩
  have plain : ∀ text ∈ (Lexed.ofFile f).tokens.map (·.text), Scan.IsPlain text ∧ text ≠ [] := by
    intro text mem
    obtain ⟨t, here, rfl⟩ := List.mem_map.mp mem
    obtain ⟨b, part, eq, -⟩ := (lexical t here).1.first
    exact ⟨(lexical t here).1.plain (valid t here), eq ▸ List.cons_ne_nil b part⟩
  have spaced : Scan.Spaced ((Lexed.ofFile f).tokens.map (·.text)) g.content := by
    rcases content with same | normal
    · exact same ▸ spaced
    · exact normal ▸ spaced.normalize plain
  exact (LaidOut.spaced lexical spaced).lexed

/-- Signs next to each other that would be something else if nothing stood between them. -/
def crowded : Source.File :=
  { id := 0
    path := "signs.c"
    content := Bytes.ofString "a/ /*c*/ *b= =0x1F// end"
    flags := default }

/-- The same words on several lines. -/
def spread : Source.File :=
  { id := 1
    path := "lines.c"
    content := (normalize (Bytes.ofString "a\t/\r\n* b\n\n= =\r 0x1F")).1
    flags := default }

theorem crowded_spread_same : (Lexed.ofFile crowded).errors = [] ∧
    (Lexed.ofFile crowded).tokens.map (·.name) = ["a", "/", "*", "b", "=", "=", "0x1F"] ∧
    (Lexed.ofFile spread).words = (Lexed.ofFile crowded).words ∧
    (Lexed.ofFile spread).errors = [] := by
  have clean : (Lexed.ofFile crowded).errors = [] := by decide +kernel
  have texts : (Lexed.ofFile crowded).tokens.map (·.text) =
      [[97], [47], [42], [98], [61], [61], [48, 120, 49, 70]] := by decide +kernel
  have bytes : Bytes.ofString "a\t/\r\n* b\n\n= =\r 0x1F" =
      [97] ++ ([9] ++ ([47] ++ ([13, 10] ++ ([42] ++ ([32] ++ ([98] ++ ([10, 10] ++ ([61] ++ ([32] ++
        ([61] ++ ([13, 32] ++ [48, 120, 49, 70]))))))))))) := by decide +kernel
  have spaced : Scan.Spaced ((Lexed.ofFile crowded).tokens.map (·.text))
      (Bytes.ofString "a\t/\r\n* b\n\n= =\r 0x1F") := by
    rw [texts, bytes]
    have tab : ∀ b ∈ [(9 : UInt8)], Scan.isSpace b = true := by simp [Scan.isSpace]
    have space : ∀ b ∈ [(32 : UInt8)], Scan.isSpace b = true := by simp [Scan.isSpace]
    have newlines : ∀ b ∈ [(10 : UInt8), 10], Scan.isSpace b = true := by simp [Scan.isSpace]
    have returned : ∀ b ∈ [(13 : UInt8), 10], Scan.isSpace b = true := by simp [Scan.isSpace]
    have indented : ∀ b ∈ [(13 : UInt8), 32], Scan.isSpace b = true := by simp [Scan.isSpace]
    exact .more nofun tab <| .more nofun returned <| .more nofun space <| .more nofun newlines <|
      .more nofun space <| .more nofun indented .one
  exact ⟨clean, by decide +kernel, respaced_same_words clean spaced (.inr rfl)⟩

end SysY

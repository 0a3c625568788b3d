import Mathlib.Data.List.Basic
import Mathlib.Data.List.Induction
import Mathlib.Data.List.TakeWhile
import SysY.Source.Files

/-! # Positions are exact

A line of a text starts at its beginning or behind a newline, and it reaches to the next newline or to
the end. The position of an offset names the line on which the offset lies, and counts from the start
of that line; so the offset can be found again, and positions are ordered like offsets. Lines and
columns are 32-bit words, and the last of these numbers is an offset for which they may be too small. -/

namespace SysY.Source

/-! ## Newlines -/

theorem newlinesFrom_append (k : Nat) (bs cs : Bytes) :
    newlinesFrom k (bs ++ cs) = newlinesFrom k bs ++ newlinesFrom (k + bs.length) cs := by
  induction bs generalizing k with
  | nil => rfl
  | cons b bs ih =>
    have next : k + 1 + bs.length = k + (b :: bs).length := by
      rw [List.length_cons]
      omega
    rw [List.cons_append, newlinesFrom, newlinesFrom, ih, next]
    split <;> rfl

theorem length_newlinesFrom (k : Nat) (bs : Bytes) : (newlinesFrom k bs).length = bs.count 10 := by
  induction bs generalizing k with
  | nil => rfl
  | cons b bs ih =>
    rw [newlinesFrom, List.count_cons]
    split <;> rename_i newline <;> simp [newline, ih]

theorem newlinesFrom_bounds {k n : Nat} {bs : Bytes} (mem : n ∈ newlinesFrom k bs) :
    k ≤ n ∧ n < k + bs.length := by
  induction bs generalizing k with
  | nil => cases mem
  | cons b bs ih =>
    have later (here : n ∈ newlinesFrom (k + 1) bs) : k ≤ n ∧ n < k + (b :: bs).length := by
      have := ih here
      rw [List.length_cons]
      omega
    rw [newlinesFrom] at mem
    split at mem
    · rcases List.mem_cons.mp mem with rfl | here
      · exact ⟨Nat.le_refl _, Nat.lt_add_of_pos_right (Nat.succ_pos _)⟩
      · exact later here
    · exact later mem

theorem newlinesFrom_eq_nil {bs : Bytes} (plain : 10 ∉ bs) (k : Nat) : newlinesFrom k bs = [] := by
  rw [List.eq_nil_iff_length_eq_zero, length_newlinesFrom, List.count_eq_zero]
  exact plain

/-- The newlines in front of an offset are those of the text up to there. -/
theorem newlines_before {content : Bytes} {offset : Nat} (inside : offset ≤ content.length) :
    (newlines content).takeWhile (· < offset) = newlines (content.take offset) := by
  have size : (content.take offset).length = offset := List.length_take_of_le inside
  have parts := newlinesFrom_append 0 (content.take offset) (content.drop offset)
  rw [List.take_append_drop, size, Nat.zero_add] at parts
  rw [newlines, parts, List.takeWhile_append_of_pos]
  · rw [List.takeWhile_eq_nil_iff.mpr, List.append_nil, newlines]
    intro nonempty isBefore
    have := (newlinesFrom_bounds (List.get_mem _ ⟨0, nonempty⟩)).1
    simp only [decide_eq_true_eq] at isBefore
    omega
  · intro n mem
    have := (newlinesFrom_bounds mem).2
    simp only [decide_eq_true_eq]
    omega

/-! ## Lines -/

/-- Line number `line` of a text starts at an offset: as many newlines stand in front of it as lines,
and the last of them right in front of it. -/
structure LineStart (content : Bytes) (line start : Nat) : Prop where
  inside : start ≤ content.length
  number : line = 1 + (content.take start).count 10
  first : start = 0 ∨ content[start - 1]? = some 10

/-- What stands from an offset to the next newline, or to the end. -/
def UpToNewline (content : Bytes) (start : Nat) (text : Bytes) : Prop :=
  10 ∉ text ∧ ∃ rest, content.drop start = text ++ rest ∧ (rest = [] ∨ rest.head? = some 10)

section Line

variable {content : Bytes} {line start offset : Nat}

/-- The newlines in front of a line end with the one right in front of it. -/
theorem LineStart.newlines (h : LineStart content line start) :
    start = 0 ∧ line = 1 ∨ 0 < start ∧ 1 < line ∧ ∃ earlier : List Nat,
      newlines (content.take start) = earlier ++ [start - 1] ∧ earlier.length = line - 2 := by
  have length := length_newlinesFrom 0 (content.take start)
  have number := h.number
  rcases h.first with rfl | newline
  · exact .inl ⟨rfl, by simpa using number⟩
  · by_cases isZero : start = 0
    · subst isZero
      exact .inl ⟨rfl, by simpa using number⟩
    have size : (content.take (start - 1)).length = start - 1 :=
      List.length_take_of_le (Nat.le_trans (Nat.sub_le _ _) h.inside)
    have split : content.take start = content.take (start - 1) ++ [10] := by
      obtain ⟨pos, eq⟩ := List.getElem?_eq_some_iff.mp newline
      have whole := List.take_succ_eq_append_getElem pos
      rwa [eq, Nat.sub_add_cancel (Nat.pos_of_ne_zero isZero)] at whole
    have parts : Source.newlines (content.take start) =
        Source.newlines (content.take (start - 1)) ++ [start - 1] := by
      rw [split, Source.newlines, newlinesFrom_append, size, Nat.zero_add]
      rfl
    rw [Source.newlines] at parts
    rw [parts, List.length_append, List.length_singleton] at length
    exact .inr ⟨Nat.pos_of_ne_zero isZero, by omega, _, parts, by omega⟩

/-- A line starts at one offset only. -/
theorem LineStart.le {start' : Nat} (h : LineStart content line start)
    (h' : LineStart content line start') : start' ≤ start := by
  by_contra! later
  have newline : content[start' - 1]? = some 10 := h'.first.resolve_left (by omega)
  have number := h.number.symm.trans h'.number
  have parts := List.take_append_drop start (content.take start')
  rw [List.take_take, Nat.min_eq_left (Nat.le_of_lt later)] at parts
  rw [← parts, List.count_append] at number
  have absent : 10 ∉ (content.take start').drop start := List.count_eq_zero.mp (by omega)
  refine absent (List.mem_of_getElem? (i := start' - 1 - start) ?_)
  rw [List.getElem?_drop, List.getElem?_take, if_pos (by omega)]
  rwa [show start + (start' - 1 - start) = start' - 1 by omega]

/-- Every text ends with a line, which may be empty. -/
theorem exists_lastLine (bs : Bytes) :
    ∃ start, LineStart bs (1 + bs.count 10) start ∧ 10 ∉ bs.drop start := by
  induction bs using List.reverseRecOn with
  | nil => exact ⟨0, ⟨Nat.le_refl 0, rfl, .inl rfl⟩, nofun⟩
  | append_singleton bs b ih =>
    by_cases newline : b = 10
    · subst newline
      have whole : (bs ++ [10]).take (bs.length + 1) = bs ++ [10] := List.take_of_length_le (by simp)
      exact ⟨bs.length + 1, ⟨by simp, by rw [whole], .inr (by simp)⟩, by simp⟩
    · obtain ⟨start, ⟨inside, number, first⟩, plain⟩ := ih
      have same : (bs ++ [b]).count 10 = bs.count 10 := by simp [newline]
      refine ⟨start, ⟨by simp; omega, ?_, first.imp_right fun here => ?_⟩, ?_⟩
      · rw [same, number, List.take_append_of_le_length inside]
      · rw [List.getElem?_append_left (List.getElem?_eq_some_iff.mp here).1, here]
      · rw [List.drop_append_of_le_length inside]
        simpa [plain] using Ne.symm newline

/-- Every offset lies on a line, or directly behind it. -/
theorem exists_line (inside : offset ≤ content.length) : ∃ start, start ≤ offset ∧
    LineStart content (1 + (content.take offset).count 10) start ∧
    (content.take offset).count 10 = (content.take start).count 10 := by
  obtain ⟨start, starts, plain⟩ := exists_lastLine (content.take offset)
  have le : start ≤ offset := by simpa [inside] using starts.inside
  have taken : (content.take offset).take start = content.take start := by
    rw [List.take_take, Nat.min_eq_left le]
  have number := starts.number
  rw [taken] at number
  refine ⟨start, le, ⟨Nat.le_trans le inside, number, starts.first.imp_right fun here => ?_⟩,
    Nat.add_left_cancel number⟩
  obtain ⟨pos, eq⟩ := List.getElem?_eq_some_iff.mp here
  rw [List.getElem_take] at eq
  exact List.getElem?_eq_some_iff.mpr ⟨_, eq⟩

/-- The position of an offset, found by the newlines in front of it. -/
theorem position_of_line (le : start ≤ offset) (inside : offset ≤ content.length)
    (fits : offset - start + 1 < Span.offsetModulus) (starts : LineStart content line start)
    (same : (content.take offset).count 10 = (content.take start).count 10) :
    Position.ofOffset (newlines content) offset = ⟨line, offset - start + 1⟩ := by
  have size : (content.take start).length = start := List.length_take_of_le starts.inside
  have parts := List.take_append_drop start (content.take offset)
  rw [List.take_take, Nat.min_eq_left le] at parts
  have plain : 10 ∉ (content.take offset).drop start := by
    rw [← parts, List.count_append] at same
    exact List.count_eq_zero.mp (by omega)
  have before : newlines (content.take offset) = newlines (content.take start) := by
    rw [← parts, newlines, newlinesFrom_append, newlinesFrom_eq_nil plain, List.append_nil, newlines]
  unfold Position.ofOffset
  rw [newlines_before inside, before]
  rcases starts.newlines with ⟨rfl, rfl⟩ | ⟨pos, more, earlier, eq, length⟩
  · exact congrArg (Position.mk 1) (Nat.mod_eq_of_lt fits)
  · simp only [eq, List.getLast?_concat, List.length_append, List.length_singleton]
    congr 1 <;> omega

/-- The text of a line, found by its number. -/
theorem lineOf_start (starts : LineStart content line start) :
    UpToNewline content start (lineOf content line) := by
  have found : lineOf content line = (content.drop start).takeWhile (· ≠ 10) := by
    have parts := newlinesFrom_append 0 (content.take start) (content.drop start)
    rw [List.take_append_drop] at parts
    rcases starts.newlines with ⟨rfl, rfl⟩ | ⟨pos, more, earlier, eq, length⟩
    · rfl
    · obtain ⟨n, rfl⟩ : ∃ n, line = n + 2 := ⟨line - 2, by omega⟩
      obtain rfl : earlier.length = n := length
      have here : (newlines content)[earlier.length]? = some (start - 1) := by
        rw [newlines, parts, ← newlines, eq]
        simp
      unfold lineOf
      simp only [Nat.add_one_ne_zero, if_false, Nat.add_sub_cancel, here, Option.map_some]
      rw [Nat.sub_add_cancel pos]
  rw [found]
  refine ⟨fun mem => by simpa using List.mem_takeWhile_imp mem, _,
    List.takeWhile_append_dropWhile.symm, ?_⟩
  cases rest : (content.drop start).dropWhile (· ≠ 10) with
  | nil => exact .inl rfl
  | cons b rest' =>
    have newline := List.head_dropWhile_not (· ≠ (10 : UInt8)) (by rw [rest]; exact nofun)
    simp only [rest, List.head_cons] at newline
    exact .inr (by simpa using newline)

/-- There is one line more than there are newlines. -/
theorem lineOf_beyond (beyond : 1 + content.count 10 < line) : lineOf content line = [] := by
  obtain ⟨n, rfl⟩ : ∃ n, line = n + 2 := ⟨line - 2, by omega⟩
  have missing : (newlines content)[n]? = none := by
    rw [List.getElem?_eq_none_iff, newlines, length_newlinesFrom]
    omega
  unfold lineOf
  simp only [Nat.add_one_ne_zero, if_false, Nat.add_sub_cancel, missing, Option.map_none]

end Line

/-! ## Positions -/

/-- Positions in the order of lines, and on one line in the order of columns. -/
def Position.Before (p q : Position) : Prop :=
  p.line < q.line ∨ p.line = q.line ∧ p.column < q.column

/-- The position of an offset of a file, and the line at this position. -/
structure Located (f : File) (offset : Nat) (p : Position) : Prop where
  line : p.line = 1 + (f.content.take offset).count 10
  starts : ∃ start, LineStart f.content p.line start ∧ p.column = offset - start + 1 ∧
    offset = start + p.column - 1 ∧ UpToNewline f.content start (f.line p.line)

/-- Line and column of an offset are 32-bit words. For the last 32-bit number this takes a newline in
front of it, for otherwise the column is too large, and another byte, for otherwise the line is. -/
def Fits (content : Bytes) (offset : Nat) : Prop :=
  offset + 1 < Span.offsetModulus ∨
    10 ∈ content.take offset ∧ ∃ b ∈ content.take offset, b ≠ 10

section Located

variable {f : File} {offset : Nat}

section

variable (inside : offset ≤ f.content.length)
include inside

/-- The first line has 32-bit offsets only. -/
theorem File.position_of_plain
    (plain : 10 ∉ f.content.take offset) :
    f.position offset = ⟨1, (offset + 1) % Span.offsetModulus⟩ := by
  rw [position, Position.ofOffset, File.newlines, newlines_before inside,
    show Source.newlines (f.content.take offset) = [] from newlinesFrom_eq_nil plain 0]
  rfl

/-- A position that fits is exact. -/
theorem File.located (small : f.content.length < Span.offsetModulus) (fits : Fits f.content offset) :
    ∃ p, f.position? offset = some p ∧ Located f offset p := by
  have size : (f.content.take offset).length = offset := List.length_take_of_le inside
  have count := List.count_le_length (a := 10) (l := f.content.take offset)
  obtain ⟨start, le, starts, same⟩ := exists_line inside
  obtain ⟨column, line⟩ : offset - start + 1 < Span.offsetModulus ∧
      1 + (f.content.take offset).count 10 < Span.offsetModulus := by
    rcases fits with fits | ⟨newline, b, mem, other⟩
    · omega
    · have later : start ≠ 0 := by
        rintro rfl
        exact List.count_pos_iff.mpr newline |>.ne' same
      have fewer : (f.content.take offset).count 10 ≠ (f.content.take offset).length := fun all =>
        other (List.count_eq_length.mp all b mem).symm
      omega
  have found : f.position offset = _ := position_of_line le inside column starts same
  refine ⟨⟨_, _⟩, ?_, rfl, start, starts, rfl, by simp only; omega, lineOf_start starts⟩
  rw [position?, found]
  exact if_pos line

/-- A position that does not fit is not exact, or there is none. -/
theorem File.not_located (small : f.content.length < Span.offsetModulus)
    (large : ¬ Fits f.content offset) {p : Position} (found : f.position? offset = some p) :
    ¬ Located f offset p := by
  intro located
  obtain ⟨last, either⟩ := not_or.mp large
  have size : (f.content.take offset).length = offset := List.length_take_of_le inside
  obtain ⟨line, eq⟩ := Option.ite_none_right_eq_some.mp found
  obtain rfl := Option.some.inj eq
  by_cases newline : 10 ∈ f.content.take offset
  · -- There are as many lines as 32-bit words, and one more.
    have all : ∀ b ∈ f.content.take offset, 10 = b := fun b mem => by
      by_contra other
      exact either ⟨newline, b, mem, Ne.symm other⟩
    have count := List.count_eq_length.mpr all
    have := located.line
    omega
  · -- The column is 0.
    obtain ⟨start, -, column, -⟩ := located.starts
    have round : (offset + 1) % Span.offsetModulus = 0 := by
      rw [show offset + 1 = Span.offsetModulus by omega, Nat.mod_self]
    rw [position_of_plain inside newline] at column
    simp only [round] at column
    omega

end

theorem Located.before {offset' : Nat} {p q : Position} (h : Located f offset p)
    (h' : Located f offset' q) (lt : offset < offset') : p.Before q := by
  have parts := List.take_append_drop offset (f.content.take offset')
  rw [List.take_take, Nat.min_eq_left (Nat.le_of_lt lt)] at parts
  have number := h'.line
  rw [← parts, List.count_append] at number
  obtain ⟨start, starts, column, recovered, -⟩ := h.starts
  obtain ⟨start', starts', column', recovered', -⟩ := h'.starts
  by_cases same : p.line = q.line
  · rw [← same] at starts'
    have := starts.le starts'
    have := starts'.le starts
    exact .inr ⟨same, by omega⟩
  · have := h.line
    exact .inl (by omega)

/-- An offset has one exact position. -/
theorem Located.unique {p q : Position} (h : Located f offset p) (h' : Located f offset q) : p = q := by
  obtain ⟨line, start, starts, column, -⟩ := h
  obtain ⟨line', start', starts', column', -⟩ := h'
  have same : p.line = q.line := line.trans line'.symm
  rw [← same] at starts'
  have := starts.le starts'
  have := starts'.le starts
  obtain ⟨pl, pc⟩ := p
  obtain ⟨ql, qc⟩ := q
  obtain rfl : pl = ql := same
  congr 1
  change pc = _ at column
  change qc = _ at column'
  omega

theorem Position.not_before_self (p : Position) : ¬ p.Before p := by
  rintro (lt | ⟨-, lt⟩) <;> exact Nat.lt_irrefl _ lt

/-- Exact positions are ordered like their offsets. -/
theorem Located.before_iff {offset' : Nat} {p q : Position} (h : Located f offset p)
    (h' : Located f offset' q) : offset < offset' ↔ p.Before q := by
  refine ⟨h.before h', fun before => ?_⟩
  rcases Nat.lt_trichotomy offset offset' with lt | rfl | gt
  · exact lt
  · obtain rfl := h.unique h'
    exact absurd before p.not_before_self
  · have after := h'.before h gt
    unfold Position.Before at before after
    omega

/-- Offsets with the same exact position are the same. -/
theorem Located.injective {offset' : Nat} {p : Position} (h : Located f offset p)
    (h' : Located f offset' p) : offset = offset' := by
  rcases Nat.lt_trichotomy offset offset' with lt | eq | gt
  · exact absurd (h.before h' lt) p.not_before_self
  · exact eq
  · exact absurd (h'.before h gt) p.not_before_self

end Located

/-- In a file of less than 4 GiB every offset has its exact position, unless its line or its column is
no 32-bit word: the line is found by the newlines in front of the offset, the column counts from the
start of that line, and the line's text reaches from there to the next newline. So positions are
ordered like offsets, and different for different offsets. There is no line 0, and none behind the
last. -/
theorem positions_exact {fs : Files} {n : Nat} {f : File} (file : fs.get? n = some f)
    (small : f.content.length < Span.offsetModulus) :
    (∀ start stop, start ≤ f.content.length → stop ≤ f.content.length →
      (Fits f.content start ∧ Fits f.content stop →
        ∃ p q, fs.resolve? ⟨n, start, stop⟩ = some (p, q) ∧ Located f start p ∧ Located f stop q ∧
          (start < stop ↔ p.Before q) ∧ (start = stop ↔ p = q)) ∧
      (¬ (Fits f.content start ∧ Fits f.content stop) →
        ∀ p q, fs.resolve? ⟨n, start, stop⟩ = some (p, q) →
          ¬ (Located f start p ∧ Located f stop q))) ∧
    f.line 0 = [] ∧ ∀ line, 1 + f.content.count 10 < line → f.line line = [] := by
  refine ⟨fun start stop inside inside' => ⟨fun ⟨fits, fits'⟩ => ?_, fun either p q found => ?_⟩,
    rfl, fun line => lineOf_beyond⟩
  · obtain ⟨p, found, here⟩ := f.located inside small fits
    obtain ⟨q, found', there⟩ := f.located inside' small fits'
    refine ⟨p, q, ?_, here, there, here.before_iff there, ?_, ?_⟩
    · simp [Files.resolve?, file, found, found']
    · rintro rfl
      exact here.unique there
    · rintro rfl
      exact here.injective there
  · obtain ⟨f', file', p', here, q', there, eq⟩ : ∃ f', fs.get? n = some f' ∧
        ∃ p', f'.position? start = some p' ∧ ∃ q', f'.position? stop = some q' ∧
          (p', q') = (p, q) := by
      simpa [Files.resolve?, Option.bind_eq_some_iff] using found
    obtain rfl := Option.some.inj (file.symm.trans file')
    obtain ⟨rfl, rfl⟩ := Prod.mk.inj eq
    rintro ⟨located, located'⟩
    refine either ⟨?_, ?_⟩ <;> by_contra large
    · exact f.not_located inside small large here located
    · exact f.not_located inside' small large there located'

/-- The last line of a file without a newline at its end. -/
theorem lastLine_located : let f : File := ⟨0, "a", [105, 10, 10, 120, 121], 0⟩
    (⟨[f]⟩ : Files).get? 0 = some f ∧ f.content.length < Span.offsetModulus ∧
      (⟨[f]⟩ : Files).resolve? ⟨0, 2, 5⟩ = some (⟨2, 1⟩, ⟨3, 3⟩) ∧ Located f 5 ⟨3, 3⟩ ∧
      f.line 3 = [120, 121] ∧ f.line 4 = [] := by
  intro f
  have small : f.content.length < Span.offsetModulus := by decide
  have known : (⟨[f]⟩ : Files).get? 0 = some f := rfl
  obtain ⟨resolves, -, beyond⟩ := positions_exact known small
  obtain ⟨p, q, found, -, located, -⟩ :=
    (resolves 2 5 (by decide) (by decide)).1 ⟨.inl (by decide), .inl (by decide)⟩
  have resolved : (⟨[f]⟩ : Files).resolve? ⟨0, 2, 5⟩ = some (⟨2, 1⟩, ⟨3, 3⟩) := by decide
  obtain ⟨-, rfl⟩ := Prod.mk.inj (Option.some.inj (found.symm.trans resolved))
  exact ⟨known, small, resolved, located, by decide, beyond 4 (by decide)⟩

/-- At the end of a single line of 2^32 - 1 bytes the column would be 2^32, which is no 32-bit word. -/
theorem resolve_lastColumn {f : File} (length : f.content.length = 4294967295)
    (plain : 10 ∉ f.content) :
    (⟨[f]⟩ : Files).resolve? ⟨0, 4294967295, 4294967295⟩ = some (⟨1, 0⟩, ⟨1, 0⟩) := by
  have found : f.position 4294967295 = ⟨1, 0⟩ :=
    File.position_of_plain (Nat.le_of_eq length.symm) fun mem => plain (List.mem_of_mem_take mem)
  have here : f.position? 4294967295 = some ⟨1, 0⟩ := by
    rw [File.position?, found]
    exact if_pos (by decide)
  have known : (⟨[f]⟩ : Files).get? 0 = some f := rfl
  simp only [Files.resolve?, known, here, Option.bind_eq_bind, Option.bind_some]
  rfl

/-- A file of 2^32 - 1 blanks is smaller than 4 GiB, and it has one line. The column of its end is
wrong. -/
theorem lastColumn_wraps :
    let f : File := ⟨0, "blanks", List.replicate 4294967295 32, 0⟩
    f.content.length < Span.offsetModulus ∧ 4294967295 ≤ f.content.length ∧
      LineStart f.content 1 0 ∧
      (⟨[f]⟩ : Files).resolve? ⟨0, 4294967295, 4294967295⟩ = some (⟨1, 0⟩, ⟨1, 0⟩) ∧
      ¬ Located f 4294967295 ⟨1, 0⟩ := by
  intro f
  have plain : (10 : UInt8) ∉ f.content := fun mem => by simpa using List.eq_of_mem_replicate mem
  have length : f.content.length = 4294967295 := List.length_replicate
  refine ⟨?_, Nat.le_of_eq length.symm, ⟨Nat.zero_le _, rfl, .inl rfl⟩,
    resolve_lastColumn length plain, fun located => ?_⟩
  · rw [length]
    decide
  · obtain ⟨start, -, column, -⟩ := located.starts
    exact absurd column (Nat.succ_ne_zero _).symm

end SysY.Source

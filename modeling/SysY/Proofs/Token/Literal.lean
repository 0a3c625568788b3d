import Mathlib.Data.Nat.Digits.Defs
import SysY.Proofs.Syntax.Lexical
import SysY.Proofs.Text.Ascii
import SysY.Proofs.Token.Tiling

/-! # Integer literals are exact

What a literal denotes is said by its digits in one of three bases. Reading a text finds that number
or nothing, and a number becomes a token just when it can be read, so that the parser reads every
number that it takes. -/

namespace SysY

namespace Literal

/-- The value of a digit, in all bases up to sixteen. -/
def digitValue (b : UInt8) : Nat :=
  if isDecimal b then b.toNat - 48 else if 97 ≤ b then b.toNat - 87 else b.toNat - 55

/-- The number with the given digits. The first digit is the most significant one. -/
def value (base : Nat) (digits : Bytes) : Nat :=
  Nat.ofDigits base (digits.reverse.map digitValue)

/-- A text is a literal and has a mathematical value: decimal digits of which the first is not `0`,
any number of octal digits behind a `0`, or hexadecimal digits behind `0x`. -/
inductive Denotes : Bytes → Nat → Prop
  | decimal {b : UInt8} {ds : Bytes} : b ≠ 48 → (∀ d ∈ b :: ds, isDecimal d = true) →
      Denotes (b :: ds) (value 10 (b :: ds))
  | octal {ds : Bytes} : (∀ d ∈ ds, isOctal d = true) → Denotes (48 :: ds) (value 8 ds)
  | hexadecimal {x : UInt8} {ds : Bytes} : x = 120 ∨ x = 88 → ds ≠ [] →
      (∀ d ∈ ds, isHexadecimal d = true) → Denotes (48 :: x :: ds) (value 16 ds)

/-! ## Digits -/

theorem value_nil (base : Nat) : value base [] = 0 := rfl

/-- One more digit at the end. -/
theorem value_snoc (base : Nat) (ds : Bytes) (d : UInt8) :
    value base (ds ++ [d]) = value base ds * base + digitValue d := by
  simp [value, Nat.ofDigits_cons, Nat.mul_comm, Nat.add_comm]

/-- More digits make a number no smaller. -/
theorem value_le_append {base : Nat} (pos : 0 < base) (ds more : Bytes) :
    value base ds ≤ value base (ds ++ more) := by
  induction more generalizing ds with
  | nil => simp
  | cons d more ih =>
    calc value base ds ≤ value base ds * base := Nat.le_mul_of_pos_right _ pos
      _ ≤ value base (ds ++ [d]) := by rw [value_snoc]; exact Nat.le_add_right _ _
      _ ≤ value base (ds ++ [d] ++ more) := ih _
      _ = value base (ds ++ d :: more) := by rw [List.append_assoc, List.singleton_append]

/-- The bytes with a value in a base are its digits. -/
structure IsBase (base : Nat) (isDigit : UInt8 → Bool) : Prop where
  pos : 0 < base
  digit? : ∀ b, digit? base b = if isDigit b then some (digitValue b) else none

theorem isBase_decimal : IsBase 10 isDecimal := ⟨by decide, Bytes.forall_byte (by decide +kernel)⟩

theorem isBase_octal : IsBase 8 isOctal := ⟨by decide, Bytes.forall_byte (by decide +kernel)⟩

theorem isBase_hexadecimal : IsBase 16 isHexadecimal :=
  ⟨by decide, Bytes.forall_byte (by decide +kernel)⟩

section Reading

variable {base n : Nat} {isDigit : UInt8 → Bool} {v : Int32}

/-- Reading goes on from the number that the digits so far have. -/
theorem readFrom_eq_ok (h : IsBase base isDigit) (all : Bytes) {read rest : Bytes}
    (fits : value base read < 0x100000000) :
    readFrom base all (value base read) rest = .ok n ↔
      (∀ d ∈ rest, isDigit d = true) ∧ n = value base (read ++ rest) ∧ n < 0x100000000 := by
  induction rest generalizing read with
  | nil =>
    simp only [readFrom, Except.ok.injEq, List.append_nil, List.not_mem_nil, false_implies,
      implies_true, true_and]
    exact ⟨fun same => ⟨same.symm, same ▸ fits⟩, fun same => same.1.symm⟩
  | cons d rest ih =>
    rw [readFrom, h.digit?]
    cases isDigit? : isDigit d with
    | false => simp [isDigit?]
    | true =>
      have next : value base read * base + digitValue d = value base (read ++ [d]) :=
        (value_snoc ..).symm
      have whole : read ++ d :: rest = read ++ [d] ++ rest := by simp
      simp only [if_true, next]
      split
      · rename_i large
        have le : value base (read ++ [d]) ≤ value base (read ++ d :: rest) :=
          whole ▸ value_le_append h.pos (read ++ [d]) rest
        simp only [reduceCtorEq, false_iff, not_and]
        rintro - rfl
        omega
      · rename_i small
        rw [ih (Nat.lt_of_not_le small), whole]
        simp [isDigit?]

theorem readWord_eq_ok (h : IsBase base isDigit) {ds : Bytes} :
    readWord base ds = .ok n ↔
      ds ≠ [] ∧ (∀ d ∈ ds, isDigit d = true) ∧ n = value base ds ∧ n < 0x100000000 := by
  unfold readWord
  cases ds with
  | nil => simp
  | cons d ds =>
    have fits : value base [] < 0x100000000 := Nat.zero_lt_succ _
    have from0 : readFrom base (d :: ds) (value base []) (d :: ds) = .ok n ↔ _ :=
      readFrom_eq_ok h (d :: ds) fits
    rw [value_nil, List.nil_append] at from0
    simpa using from0

/-- The digits of a base are determined by it. -/
theorem IsBase.unique {isDigit' : UInt8 → Bool} (h : IsBase base isDigit)
    (h' : IsBase base isDigit') : isDigit = isDigit' := by
  funext b
  have same := congrArg Option.isSome ((h.digit? b).symm.trans (h'.digit? b))
  simpa [apply_ite Option.isSome] using same

/-- The limit of 32 bits plays no role, as literals have a lower one. -/
theorem read_of_split (h : IsBase base isDigit) {text ds : Bytes}
    (found : split text = (base, ds)) :
    read text = .ok v ↔ ds ≠ [] ∧ (∀ d ∈ ds, isDigit d = true) ∧ value base ds ≤ 0x80000000 ∧
      v = Int32.ofNat (value base ds) := by
  have octal (all : ∀ d ∈ ds, isDigit d = true) : ¬ (base = 8 ∧ !ds.all isOctal) := by
    rintro ⟨rfl, other⟩
    rw [h.unique isBase_octal] at all
    simp [List.all_eq_true.mpr all] at other
  unfold read
  rw [found]
  constructor
  · intro read
    simp only at read
    split at read
    · cases read
    · obtain ⟨n, word, bounded⟩ := Except.bind_eq_ok.mp read
      obtain ⟨some, all, rfl, -⟩ := (readWord_eq_ok h).mp word
      split at bounded
      · cases bounded
      · rename_i small
        cases bounded
        exact ⟨some, all, Nat.le_of_not_lt small, rfl⟩
  · rintro ⟨some, all, small, rfl⟩
    have word : readWord base ds = .ok (value base ds) :=
      (readWord_eq_ok h).mpr ⟨some, all, rfl, by omega⟩
    simp only [if_neg (octal all), word, bind, Except.bind, if_neg (Nat.not_lt.mpr small)]

end Reading

/-! ## Literals -/

/-- The base and the digits that a text is split into decide what it denotes. -/
theorem denotes_iff (text : Bytes) : ∃ isDigit, IsBase (split text).1 isDigit ∧
    ∀ n, Denotes text n ↔ (split text).2 ≠ [] ∧ (∀ d ∈ (split text).2, isDigit d = true) ∧
      n = value (split text).1 (split text).2 := by
  fun_cases split text with
  | case1 x d rest mark =>
    refine ⟨isHexadecimal, isBase_hexadecimal, fun n => ⟨fun denotes => ?_, ?_⟩⟩
    · cases denotes with
      | decimal notZero => exact absurd rfl notZero
      | octal all =>
        have isMark : isOctal x = false := by rcases mark with rfl | rfl <;> decide
        rw [all x List.mem_cons_self] at isMark
        cases isMark
      | hexadecimal _ some all => exact ⟨some, all, rfl⟩
    · rintro ⟨some, all, rfl⟩
      exact .hexadecimal mark some all
  | case2 x d rest noMark =>
    refine ⟨isOctal, isBase_octal, fun n => ⟨fun denotes => ?_, ?_⟩⟩
    · cases denotes with
      | decimal notZero => exact absurd rfl notZero
      | octal all => exact ⟨nofun, all, rfl⟩
      | hexadecimal mark => exact absurd mark noMark
    · rintro ⟨-, all, rfl⟩
      exact .octal all
  | case3 d =>
    refine ⟨isOctal, isBase_octal, fun n => ⟨fun denotes => ?_, ?_⟩⟩
    · cases denotes with
      | decimal notZero => exact absurd rfl notZero
      | octal all => exact ⟨nofun, all, rfl⟩
      | hexadecimal _ some => exact absurd rfl some
    · rintro ⟨-, all, rfl⟩
      exact .octal all
  | case4 text notLong notTwo =>
    refine ⟨isDecimal, isBase_decimal, fun n => ⟨fun denotes => ?_, ?_⟩⟩
    · cases denotes with
      | decimal notZero all => exact ⟨nofun, all, rfl⟩
      | @octal ds all =>
        -- Only a single `0` is left.
        match ds with
        | [] => exact ⟨nofun, List.forall_mem_singleton.mpr rfl, rfl⟩
        | [d] => exact absurd rfl (notTwo d)
        | x :: d :: rest => exact absurd rfl (notLong x d rest)
      | @hexadecimal x ds mark some =>
        match ds with
        | [] => exact absurd rfl some
        | d :: rest => exact absurd rfl (notLong x d rest)
    · rintro ⟨some, all, rfl⟩
      match text with
      | [] => exact absurd rfl some
      | b :: more =>
        by_cases zero : b = 48
        · subst zero
          match more with
          | [] => exact @Denotes.octal [] nofun
          | [d] => exact absurd rfl (notTwo d)
          | x :: d :: rest => exact absurd rfl (notLong x d rest)
        · exact .decimal zero all

/-- Reading a text finds the value of a literal that is at most 2^31, and nothing else. -/
theorem read_eq_ok {text : Bytes} {v : Int32} :
    read text = .ok v ↔ ∃ n, Denotes text n ∧ n ≤ 0x80000000 ∧ v = Int32.ofNat n := by
  obtain ⟨isDigit, isBase, denotes⟩ := denotes_iff text
  rw [read_of_split isBase rfl]
  constructor
  · rintro ⟨some, all, small, eq⟩
    exact ⟨_, (denotes _).mpr ⟨some, all, rfl⟩, small, eq⟩
  · rintro ⟨n, literal, small, eq⟩
    obtain ⟨some, all, rfl⟩ := (denotes n).mp literal
    exact ⟨some, all, small, eq⟩

/-- Up to 2^31 only the limit itself wraps around. -/
theorem toInt_ofNat {n : Nat} (small : n ≤ 0x80000000) :
    (Int32.ofNat n).toInt = if n = 0x80000000 then -0x80000000 else (n : Int) := by
  rw [Int32.toInt_ofNat']
  split
  · subst n
    rfl
  · have inRange : (-0x80000000 : Int) ≤ n ∧ (n : Int) < 0x80000000 := by omega
    exact Int.bmod_eq_of_le inRange.1 inRange.2

/-! ## Written numbers -/

/-- The byte of a decimal digit. -/
theorem digitChar_decimal (d : Nat) (small : d < 10) :
    isDecimal (UInt8.ofNat d.digitChar.toNat) = true ∧
      digitValue (UInt8.ofNat d.digitChar.toNat) = d ∧
      (UInt8.ofNat d.digitChar.toNat = 48 → d = 0) := by
  have all : ∀ d : Fin 10, isDecimal (UInt8.ofNat d.val.digitChar.toNat) = true ∧
      digitValue (UInt8.ofNat d.val.digitChar.toNat) = d ∧
      (UInt8.ofNat d.val.digitChar.toNat = 48 → d.val = 0) := by decide +kernel
  exact all ⟨d, small⟩

/-- The decimal digits of a number have its value, and the first one is not `0`. -/
theorem toDigits_decimal (n : Nat) : ∃ b more,
    (Nat.toDigits 10 n).map (fun c => UInt8.ofNat c.toNat) = b :: more ∧
      (∀ d ∈ b :: more, isDecimal d = true) ∧ value 10 (b :: more) = n ∧ (b = 48 → n = 0) := by
  induction n using Nat.strong_induction_on with
  | _ n ih =>
    rw [Nat.toDigits_eq_if (by decide)]
    split
    · rename_i small
      obtain ⟨isDigit, isValue, zero⟩ := digitChar_decimal n small
      exact ⟨_, [], rfl, by simpa using isDigit, by simpa [value] using isValue, zero⟩
    · rename_i large
      obtain ⟨b, more, eq, all, isValue, zero⟩ := ih (n / 10) (by omega)
      obtain ⟨isDigit, lastValue, -⟩ := digitChar_decimal (n % 10) (by omega)
      refine ⟨b, more ++ [UInt8.ofNat (n % 10).digitChar.toNat], by simp [eq], ?_, ?_, ?_⟩
      · rw [← List.cons_append]
        exact List.forall_mem_append.mpr ⟨all, by simpa using isDigit⟩
      · rw [← List.cons_append, value_snoc, isValue, lastValue]
        omega
      · intro first
        have := zero first
        omega

/-- A number is written in decimal digits. -/
theorem ofString_repr (n : Nat) : Bytes.ofString n.repr =
    (Nat.toDigits 10 n).map fun c => UInt8.ofNat c.toNat := by
  rw [Nat.repr_eq_ofList_toDigits]
  refine Bytes.ofString_ascii fun c mem => ?_
  have isDigit := Nat.isDigit_of_mem_toDigits (by decide) (by decide) mem
  simp only [Char.isDigit, Bool.and_eq_true, decide_eq_true_eq, UInt32.le_iff_toNat_le] at isDigit
  exact Nat.lt_of_le_of_lt isDigit.2 (by decide)

theorem repr_decimal (n : Nat) : ∃ b part, Bytes.ofString n.repr = b :: part ∧
    ∀ d ∈ b :: part, isDecimal d = true := by
  obtain ⟨b, part, eq, all, -⟩ := toDigits_decimal n
  exact ⟨b, part, (ofString_repr n).trans eq, all⟩

/-- A number that is written down is a literal of it. -/
theorem denotes_repr (n : Nat) : Denotes (Bytes.ofString n.repr) n := by
  obtain ⟨b, part, eq, all, isValue, zero⟩ := toDigits_decimal n
  rw [ofString_repr, eq]
  by_cases first : b = 48
  · obtain rfl := zero first
    cases eq
    exact @Denotes.octal [] nofun
  · simpa [isValue] using Denotes.decimal first all

end Literal

/-! ## Tokens -/

theorem Scan.number_kind (b : UInt8) (rest : Bytes) : (number b rest).kind = .intLit ↔
    ∃ v, Literal.read (b :: rest.takeWhile isNamePart) = .ok v := by
  simp only [number, numberPart_eq]
  cases read : Literal.read (b :: rest.takeWhile isNamePart) with
  | ok v => simp
  | error e => simp

namespace Lexer

/-- All bytes that can continue a name belong to a number. -/
theorem scan_number {lx : Lexer} {b : UInt8} {rest : Bytes} (here : lx.rest = b :: rest)
    (isNumber : Literal.isDecimal b = true) :
    lx.scan.1.text = b :: rest.takeWhile Scan.isNamePart ∧
      lx.scan.1.kind = (Scan.number b rest).kind := by
  have lexeme : Scan.lexeme b rest = Scan.number b rest := by
    simp [Scan.lexeme, isNumber, Scan.isNameStart_of_isDecimal isNumber]
  have length : (Scan.number b rest).length = (rest.takeWhile Scan.isNamePart).length + 1 := by
    simp only [Scan.number, Scan.numberPart_eq, Scan.Lexeme.length]
    split <;> rfl
  have text : rest.take (rest.takeWhile Scan.isNamePart).length =
      rest.takeWhile Scan.isNamePart := (List.prefix_iff_eq_take.mp (List.takeWhile_prefix _)).symm
  unfold scan
  simp only [here, lexeme]
  split <;> simp [length, text]

end Lexer

/-- The parser reads every number of a file. -/
theorem Parser.literal_reads {f : Source.File} {i : Input}
    (later : i.tokens <:+ (Lexed.ofFile f).tokens) {number : Taken Token i}
    (taken : take? i .intLit = some number) :
    ∃ v, literal number = .ok ⟨.lit number.value.span v, number.next, number.shorter⟩ := by
  obtain ⟨reads, isNumber⟩ := take?_eq_some taken
  have mem : number.value ∈ (Lexed.ofFile f).tokens :=
    later.subset (by simp [reads.tokens])
  obtain ⟨v, read⟩ := ((Lexed.ofFile_tokens f).2 _ mem).2 isNumber
  exact ⟨v, by simp [literal, read]⟩

/-- Integer literals are exact. The texts that can be read are the decimal, octal and hexadecimal
literals of a value of at most 2^31, and the value itself is read, but for 2^31, which wraps around.
A number is a token just when all bytes from its first digit on that can continue a name are such a
literal. So the parser can read the number of each token that it takes for one, and it never reports
one that it cannot read. -/
theorem literals_exact :
    (∀ (text : Bytes) (v : Int32), Literal.read text = .ok v ↔
      ∃ n, Literal.Denotes text n ∧ n ≤ 0x80000000 ∧
        v.toInt = if n = 0x80000000 then -0x80000000 else (n : Int)) ∧
    (∀ (lx : Lexer) (b : UInt8) (rest : Bytes), lx.rest = b :: rest →
      Literal.isDecimal b = true →
        lx.scan.1.text = b :: rest.takeWhile Scan.isNamePart ∧
        (lx.scan.1.kind = .intLit ↔
          ∃ n, Literal.Denotes (b :: rest.takeWhile Scan.isNamePart) n ∧ n ≤ 0x80000000)) ∧
    ∀ f : Source.File,
      (∀ (i : Parser.Input) (number : Parser.Taken Token i),
        i.tokens <:+ (Lexed.ofFile f).tokens → Parser.take? i .intLit = some number →
          ∃ v, Parser.literal number =
            .ok ⟨.lit number.value.span v, number.next, number.shorter⟩) ∧
      ∀ e, Parser.compUnit (.ofFile f) = .error e → e.isLexical = false →
        e.error.code ≠ .badNumber := by
  refine ⟨fun text v => ?_, fun lx b rest here isNumber => ?_, fun f =>
    ⟨fun i number later taken => Parser.literal_reads later taken, fun e failed notLexical => ?_⟩⟩
  · rw [Literal.read_eq_ok]
    refine exists_congr fun n => and_congr_right fun _ => and_congr_right fun small => ?_
    rw [← Literal.toInt_ofNat small, Int32.toInt_inj]
  · obtain ⟨text, kind⟩ := Lexer.scan_number here isNumber
    refine ⟨text, ?_⟩
    simp only [kind, Scan.number_kind, Literal.read_eq_ok]
    exact ⟨fun ⟨_, n, denotes, small, _⟩ => ⟨n, denotes, small⟩,
      fun ⟨n, denotes, small⟩ => ⟨_, n, denotes, small, rfl⟩⟩
  · obtain ⟨j, code, detail, -, raises, rfl⟩ := Parser.compUnit_raises failed
    have same : (Parser.failure j code detail).error.code = code := by
      unfold Parser.failure at notLexical ⊢
      split at notLexical
      · cases notLexical
      · rfl
    rw [same]
    intro isNumber
    obtain ⟨t, mem, unreadable⟩ := raises.2 isNumber
    exact unreadable ((Lexed.ofFile_tokens f).2 t mem).2

/-- A file that begins with the greatest literal. -/
def greatestLiteral : Source.File :=
  { id := 0, path := "greatest.c", content := Bytes.ofString "0x80000000;", flags := default }

theorem greatestLiteral_exact :
    (∃ n, Literal.Denotes (Bytes.ofString "0x80000000") n ∧ n ≤ 0x80000000) ∧
      ∃ number v, Parser.take? (.ofLexed (.ofFile greatestLiteral)) .intLit = some number ∧
        Parser.literal number = .ok ⟨.lit number.value.span v, number.next, number.shorter⟩ := by
  obtain ⟨-, scanned, parsed⟩ := literals_exact
  constructor
  · have here : (Lexer.ofFile greatestLiteral).rest = 48 :: Bytes.ofString "x80000000;" := by
      decide +kernel
    have kind : (Lexer.ofFile greatestLiteral).scan.1.kind = .intLit := by decide +kernel
    have part : Bytes.ofString "0x80000000" =
        48 :: (Bytes.ofString "x80000000;").takeWhile Scan.isNamePart := by decide +kernel
    rw [part]
    exact (scanned _ _ _ here (by decide)).2.mp kind
  · have isNumber : (Parser.take? (.ofLexed (.ofFile greatestLiteral)) .intLit).isSome = true := by
      decide +kernel
    obtain ⟨number, taken⟩ := Option.isSome_iff_exists.mp isNumber
    obtain ⟨v, read⟩ := (parsed greatestLiteral).1 _ number List.suffix_rfl taken
    exact ⟨number, v, taken, read⟩

end SysY

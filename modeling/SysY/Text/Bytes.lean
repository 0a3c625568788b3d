/-! # Raw text

Source files are byte strings that need not be valid UTF-8. Offsets count bytes, and text that may
contain source bytes stays a byte string until it is shown. -/

namespace SysY

/-- A byte string. -/
abbrev Bytes := List UInt8

namespace Bytes

/-- The UTF-8 encoding of `s`. -/
def ofString (s : String) : Bytes := s.toUTF8.toList

/-- The string whose encoding is `bs`, if there is one. -/
def toString? (bs : Bytes) : Option String := String.fromUTF8? ⟨bs.toArray⟩

/-- Read each byte as the character of the same number. This is the text that ASCII bytes denote. -/
def latin (bs : Bytes) : String := String.ofList (bs.map fun b => Char.ofNat b.toNat)

/-- Two lower-case hexadecimal digits per byte. -/
def toHex (bs : Bytes) : String :=
  String.ofList (bs.flatMap fun b =>
    [Nat.digitChar (b.toNat / 16), Nat.digitChar (b.toNat % 16)])

end Bytes

/-- One step of lenient UTF-8 decoding: a character, or a byte that starts no valid encoding. -/
inductive Glyph where
  | char (c : Char)
  | stray (b : UInt8)
deriving DecidableEq, Repr

namespace Glyph

/-- The bytes that decode to the glyph. -/
def bytes : Glyph → Bytes
  | char c => Bytes.ofString (String.singleton c)
  | stray b => [b]

/-- The character the glyph is shown as: a stray byte is shown as the replacement character. -/
def shown : Glyph → Char
  | char c => c
  | stray _ => Char.ofNat 0xFFFD

end Glyph

namespace Bytes

/-- The payload of a UTF-8 continuation byte. -/
def continuation? (b : UInt8) : Option Nat :=
  if 0x80 ≤ b ∧ b < 0xC0 then some (b.toNat - 0x80) else none

/-- The character `n`, provided it is a scalar value that needs at least `least`. -/
def scalar? (least n : Nat) : Option Char :=
  if least ≤ n ∧ n.isValidChar then some (Char.ofNat n) else none

/-- The code point that starts with byte `b`, and the number of bytes that follow it. Overlong
forms, surrogates and truncated sequences have none. -/
def leading? (b : UInt8) (rest : Bytes) : Option (Char × Nat) :=
  if b < 0x80 then some (Char.ofNat b.toNat, 0)
  else if b < 0xC2 then none
  else if b < 0xE0 then
    match rest with
    | b₁ :: _ => do
      let x₁ ← continuation? b₁
      let c ← scalar? 0x80 ((b.toNat - 0xC0) * 64 + x₁)
      pure (c, 1)
    | _ => none
  else if b < 0xF0 then
    match rest with
    | b₁ :: b₂ :: _ => do
      let x₁ ← continuation? b₁
      let x₂ ← continuation? b₂
      let c ← scalar? 0x800 (((b.toNat - 0xE0) * 64 + x₁) * 64 + x₂)
      pure (c, 2)
    | _ => none
  else if b < 0xF5 then
    match rest with
    | b₁ :: b₂ :: b₃ :: _ => do
      let x₁ ← continuation? b₁
      let x₂ ← continuation? b₂
      let x₃ ← continuation? b₃
      let c ← scalar? 0x10000 ((((b.toNat - 0xF0) * 64 + x₁) * 64 + x₂) * 64 + x₃)
      pure (c, 3)
    | _ => none
  else none

/-- Decode UTF-8, keeping each byte that belongs to no valid encoding as a stray. -/
def glyphs (bs : Bytes) : List Glyph :=
  match bs with
  | [] => []
  | b :: rest =>
    match leading? b rest with
    | some (c, n) => .char c :: glyphs (rest.drop n)
    | none => .stray b :: glyphs rest
termination_by bs.length
decreasing_by all_goals (simp only [List.length_drop, List.length_cons]; omega)

end Bytes
end SysY

import Mathlib.Data.List.Basic
import SysY.Text.Bytes

/-! # The bytes of ASCII text

How strings are put together out of bytes. An ASCII character is one byte of the same number. -/

namespace SysY.Bytes

/-- What holds of all numbers below 256 holds of all bytes. -/
theorem forall_byte {P : UInt8 → Prop} (all : ∀ n : Fin 256, P (UInt8.ofNat n)) (b : UInt8) :
    P b := by
  have here := all ⟨b.toNat, b.toNat_lt⟩
  rwa [UInt8.ofNat_toNat] at here

theorem toList_loop (bs : ByteArray) (i : Nat) (done : List UInt8) :
    ByteArray.toList.loop bs i done = done.reverse ++ bs.data.toList.drop i := by
  fun_induction ByteArray.toList.loop bs i done with
  | case1 i done more ih =>
    have here : i < bs.data.toList.length := by simpa using more
    have get : bs.get! i = bs.data.toList[i] := by
      cases bs with
      | mk data => exact getElem!_pos data i (by simpa using here)
    rw [ih, List.drop_eq_getElem_cons here, get]
    simp
  | case2 i done atEnd =>
    rw [List.drop_eq_nil_of_le (by simpa using atEnd), List.append_nil]

theorem ofString_eq (s : String) : ofString s = s.toByteArray.data.toList := by
  rw [ofString, String.toUTF8_eq_toByteArray, ByteArray.toList, toList_loop]
  simp

/-- A text is read back from its bytes. -/
theorem toString?_ofString (s : String) : toString? (ofString s) = some s := by
  have bytes : (⟨(ofString s).toArray⟩ : ByteArray) = s.toByteArray := by
    rw [ofString_eq, Array.toArray_toList]
  rw [toString?, bytes, String.fromUTF8?, dif_pos s.isValidUTF8]
  rfl

theorem ofString_append (s t : String) : ofString (s ++ t) = ofString s ++ ofString t := by
  simp [ofString_eq, String.toByteArray_append]

theorem ofString_ofList (cs : List Char) :
    ofString (.ofList cs) = cs.flatMap String.utf8EncodeChar := by
  rw [ofString_eq, String.toByteArray_ofList, List.utf8Encode.eq_1, List.toList_data_toByteArray]

/-- An ASCII character is encoded by its number. -/
theorem utf8EncodeChar_ascii {c : Char} (ascii : c.toNat < 128) :
    String.utf8EncodeChar c = [UInt8.ofNat c.toNat] := by
  have small : c.val.toNat ≤ 127 := Nat.le_of_lt_succ ascii
  rw [String.utf8EncodeChar.eq_def]
  simp only [if_pos small]
  rfl

/-- ASCII text is encoded character by character. -/
theorem ofString_ascii {cs : List Char} (ascii : ∀ c ∈ cs, c.toNat < 128) :
    ofString (.ofList cs) = cs.map fun c => UInt8.ofNat c.toNat := by
  rw [ofString_ofList, List.map_eq_flatMap]
  exact List.flatMap_congr fun c mem => utf8EncodeChar_ascii (ascii c mem)

/-- Each byte is the number of a character. -/
theorem toNat_ofNat_byte (b : UInt8) : (Char.ofNat b.toNat).toNat = b.toNat := by
  have small := b.toNat_lt
  have valid : b.toNat.isValidChar := .inl (by omega)
  rw [Char.ofNat, dif_pos valid]
  rfl

/-- The text that ASCII bytes denote has these bytes. -/
theorem ofString_latin {bs : Bytes} (ascii : ∀ b ∈ bs, b < 128) : ofString bs.latin = bs := by
  rw [latin, ofString_ascii]
  · rw [List.map_map]
    exact (List.map_congr_left fun b mem => by simp [toNat_ofNat_byte b]).trans (List.map_id bs)
  · intro c mem
    obtain ⟨b, here, rfl⟩ := List.mem_map.mp mem
    rw [toNat_ofNat_byte b]
    exact UInt8.lt_iff_toNat_lt.mp (ascii b here)

end SysY.Bytes

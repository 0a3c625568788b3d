import Mathlib.Data.List.Range
import Mathlib.Algebra.Group.Nat.Defs
import SysY.Build.Entry
import SysY.Proofs.Text.Ascii

/-! # Entries are read back

Numbers and texts are read from the front of what was written, whatever follows. So an entry is read
back from its bytes, as long as its number and the lengths of its texts have eight bytes. -/

namespace SysY.Build.Entry

/-- Numbers of eight bytes. -/
def limit : Nat := 0x10000000000000000

/-- An entry whose numbers have eight bytes. -/
structure Fits (e : Entry) : Prop where
  schema : e.schema < limit
  toolchain : (Bytes.ofString e.toolchain).length < limit
  source : (Bytes.ofString e.source).length < limit
  ir : (Bytes.ofString e.ir).length < limit

instance (e : Entry) : Decidable e.Fits :=
  decidable_of_iff (e.schema < limit ∧ (Bytes.ofString e.toolchain).length < limit ∧
      (Bytes.ofString e.source).length < limit ∧ (Bytes.ofString e.ir).length < limit)
    ⟨fun ⟨a, b, c, d⟩ => ⟨a, b, c, d⟩, fun ⟨a, b, c, d⟩ => ⟨a, b, c, d⟩⟩

theorem length_encodeNat (n : Nat) : (encodeNat n).length = 8 := by
  rw [encodeNat, List.length_map, List.length_range]

/-- The lowest `k` bytes of a number. -/
theorem foldr_bytes (k n : Nat) :
    ((List.range k).map fun i => (n >>> (8 * i)).toUInt8).foldr (fun b n => 256 * n + b.toNat) 0 =
      n % 256 ^ k := by
  induction k generalizing n with
  | zero => simp [Nat.mod_one]
  | succ k ih =>
    have next : ((fun i => (n >>> (8 * i)).toUInt8) ∘ Nat.succ) =
        fun i => ((n / 256) >>> (8 * i)).toUInt8 := by
      funext i
      rw [Function.comp_apply, Nat.succ_eq_add_one, Nat.mul_add, Nat.add_comm, Nat.shiftRight_add,
        Nat.shiftRight_eq_div_pow n]
    rw [List.range_succ_eq_map, List.map_cons, List.map_map, next, List.foldr_cons, ih,
      Nat.mul_zero, Nat.shiftRight_zero, Nat.pow_succ', Nat.mod_mul, Nat.add_comm]
    rfl

theorem foldr_encodeNat {n : Nat} (small : n < limit) :
    (encodeNat n).foldr (fun b n => 256 * n + b.toNat) 0 = n :=
  (foldr_bytes 8 n).trans (Nat.mod_eq_of_lt small)

theorem decodeNat?_encodeNat {n : Nat} (small : n < limit) (rest : Bytes) :
    decodeNat? (encodeNat n ++ rest) = some (n, rest) := by
  have size := length_encodeNat n
  simp only [decodeNat?, List.take_left' size, List.drop_left' size, size, if_true,
    foldr_encodeNat small]

theorem decodeText?_encodeText {s : String} (small : (Bytes.ofString s).length < limit)
    (rest : Bytes) : decodeText? (encodeText s ++ rest) = some (s, rest) := by
  rw [encodeText, decodeText?, List.append_assoc]
  simp only [decodeNat?_encodeNat small, Option.bind_eq_bind, Option.bind_some]
  rw [if_neg (by simp), List.take_left, List.drop_left, Bytes.toString?_ofString]
  rfl

/-- What is written is read back. -/
theorem decode?_encode {e : Entry} (fits : e.Fits) : decode? e.encode = some e := by
  have last := decodeText?_encodeText fits.ir []
  rw [List.append_nil] at last
  simp only [encode, decode?, List.append_assoc, decodeNat?_encodeNat fits.schema,
    decodeText?_encodeText fits.toolchain, decodeText?_encodeText fits.source, last,
    Option.bind_eq_bind, Option.bind_some]
  rfl

end SysY.Build.Entry

import KVSSD.Lib.Digits
import KVSSD.Quant

/-!
# Bytes of codes

A byte is a number whose digits in base `2 ^ bits` are its codes, low digit first.  Packing sums the
digits, and unpacking reads them, so neither loses a bit and each undoes the other.
-/

namespace KVSSD

namespace Quant

theorem toNat_code (byte : UInt8) {shift mask : Nat} (small : shift < 8) (narrow : mask < 256) :
    ((byte >>> UInt8.ofNat shift) &&& UInt8.ofNat mask).toNat =
      (byte.toNat >>> shift) &&& mask := by
  rw [UInt8.toNat_and, UInt8.toNat_shiftRight, UInt8.toNat_ofNat', UInt8.toNat_ofNat',
    Nat.mod_eq_of_lt narrow, Nat.mod_eq_of_lt (show shift < 2 ^ 8 by omega),
    Nat.mod_eq_of_lt small]

section Byte

variable {bits : Int}

/-- Shifting the codes of a byte and adding them up in 8 bits gives what it gives in the
integers. -/
structure LosesNoBit (bits : Nat) (codes : List UInt8) : Prop where
  shift : ∀ item ∈ codes.zipIdx,
    (item.1 <<< UInt8.ofNat (item.2 * bits)).toNat = item.1.toNat * 2 ^ (item.2 * bits)
  sum : (packByte bits codes).toNat =
    (codes.zipIdx.map fun item => item.1.toNat * 2 ^ (item.2 * bits)).sum

theorem sum_codes (bits : Nat) (codes : List UInt8) :
    (codes.zipIdx.map fun item => item.1.toNat * 2 ^ (item.2 * bits)).sum =
      Nat.ofDigits (2 ^ bits) (codes.map UInt8.toNat) := by
  have digits := Digits.sum_zipIdx (2 ^ bits) 0 (codes.map UInt8.toNat)
  rw [Nat.pow_zero, Nat.one_mul, List.zipIdx_map, List.map_map] at digits
  rw [← digits]
  congr 2
  funext item
  rw [Function.comp_apply, ← Nat.pow_mul, Nat.mul_comm bits]
  rfl

theorem losesNoBit (widths : bits = 2 ∨ bits = 4) {codes : List UInt8}
    (length : codes.length = perByte bits) (small : ∀ code ∈ codes, code.toNat < 2 ^ bits.toNat) :
    LosesNoBit bits.toNat codes := by
  have filled := perByte_mul_bits widths
  have shift : ∀ item ∈ codes.zipIdx,
      (item.1 <<< UInt8.ofNat (item.2 * bits.toNat)).toNat =
        item.1.toNat * 2 ^ (item.2 * bits.toNat) := by
    intro item member
    have inside := List.snd_lt_add_of_mem_zipIdx member
    rw [Nat.zero_add, length] at inside
    have room : item.2 * bits.toNat + bits.toNat ≤ 8 := by
      rw [← filled, ← Nat.succ_mul]
      exact Nat.mul_le_mul_right _ inside
    have positive : 0 < bits.toNat := by omega
    have amount : (UInt8.ofNat (item.2 * bits.toNat)).toNat = item.2 * bits.toNat := by
      rw [UInt8.toNat_ofNat', Nat.mod_eq_of_lt (show item.2 * bits.toNat < 2 ^ 8 by omega)]
    have below : item.1.toNat * 2 ^ (item.2 * bits.toNat) < 2 ^ 8 := by
      calc
        item.1.toNat * 2 ^ (item.2 * bits.toNat) <
            2 ^ bits.toNat * 2 ^ (item.2 * bits.toNat) :=
          Nat.mul_lt_mul_of_pos_right (small _ (List.fst_mem_of_mem_zipIdx member))
            (Nat.two_pow_pos _)
        _ = 2 ^ (item.2 * bits.toNat + bits.toNat) := by rw [← Nat.pow_add, Nat.add_comm]
        _ ≤ 2 ^ 8 := Nat.pow_le_pow_right (by omega) room
    rw [UInt8.toNat_shiftLeft, amount, Nat.mod_eq_of_lt (show item.2 * bits.toNat < 8 by omega),
      Nat.shiftLeft_eq, Nat.mod_eq_of_lt below]
  refine ⟨shift, ?_⟩
  have exact : (codes.zipIdx.map fun item =>
      (item.1 <<< UInt8.ofNat (item.2 * bits.toNat)).toNat) =
        codes.zipIdx.map fun item => item.1.toNat * 2 ^ (item.2 * bits.toNat) :=
    List.map_congr_left shift
  have below : Nat.ofDigits (2 ^ bits.toNat) (codes.map UInt8.toNat) < 2 ^ 8 := by
    have digits : ∀ digit ∈ codes.map UInt8.toNat, digit < 2 ^ bits.toNat := by
      intro digit member
      obtain ⟨code, inside, rfl⟩ := List.mem_map.mp member
      exact small code inside
    have bound := Nat.ofDigits_lt_base_pow_length (Nat.one_lt_two_pow (by omega)) digits
    rwa [List.length_map, length, ← Nat.pow_mul, Nat.mul_comm, filled] at bound
  change (UInt8.ofNat (codes.zipIdx.map fun item =>
    (item.1 <<< UInt8.ofNat (item.2 * bits.toNat)).toNat).sum).toNat = _
  rw [exact, UInt8.toNat_ofNat', sum_codes, Nat.mod_eq_of_lt below]

theorem toNat_shifted (widths : bits = 2 ∨ bits = 4) (byte : UInt8) {index : Nat}
    (inside : index < perByte bits) :
    ((byte >>> UInt8.ofNat (index * bits.toNat)) &&& UInt8.ofNat (2 ^ bits.toNat - 1)).toNat =
      (byte.toNat >>> (index * bits.toNat)) &&& (2 ^ bits.toNat - 1) := by
  have filled := perByte_mul_bits widths
  have shift : index * bits.toNat < 8 := by
    rw [← filled]
    apply Nat.mul_lt_mul_of_pos_right inside
    omega
  have mask : 2 ^ bits.toNat - 1 < 256 := by
    rcases widths with rfl | rfl <;> decide
  exact toNat_code byte shift mask

theorem toNat_unpacked (widths : bits = 2 ∨ bits = 4) (byte : UInt8) {index : Nat}
    (inside : index < perByte bits) :
    ((byte >>> UInt8.ofNat (index * bits.toNat)) &&& UInt8.ofNat (2 ^ bits.toNat - 1)).toNat =
      byte.toNat / (2 ^ bits.toNat) ^ index % 2 ^ bits.toNat := by
  rw [toNat_shifted widths byte inside, Nat.and_two_pow_sub_one_eq_mod, Nat.shiftRight_eq_div_pow,
    ← Nat.pow_mul, Nat.mul_comm index]

theorem toNat_lt_of_mem_unpackByte (widths : bits = 2 ∨ bits = 4) {byte code : UInt8}
    (member : code ∈ unpackByte bits.toNat (perByte bits) byte) :
    code.toNat < 2 ^ bits.toNat := by
  obtain ⟨index, inside, rfl⟩ := List.mem_map.mp member
  rw [toNat_unpacked widths byte (List.mem_range.mp inside)]
  exact Nat.mod_lt _ (Nat.two_pow_pos _)

theorem packByte_unpackByte (widths : bits = 2 ∨ bits = 4) (byte : UInt8) :
    packByte bits.toNat (unpackByte bits.toNat (perByte bits) byte) = byte := by
  apply UInt8.toNat.inj
  have exact := (losesNoBit widths (unpackByte_length _ _ byte) fun code member =>
    toNat_lt_of_mem_unpackByte widths member).sum
  have digits : (unpackByte bits.toNat (perByte bits) byte).map UInt8.toNat =
      (List.range (perByte bits)).map fun index =>
        byte.toNat / (2 ^ bits.toNat) ^ index % 2 ^ bits.toNat := by
    rw [unpackByte, List.map_map]
    apply List.map_congr_left
    intro index inside
    exact toNat_unpacked widths byte (List.mem_range.mp inside)
  rw [exact, sum_codes, digits, Digits.ofDigits_range, ← Nat.pow_mul, Nat.mul_comm,
    perByte_mul_bits widths]
  exact Nat.mod_eq_of_lt byte.toNat_lt

theorem unpackByte_packByte (widths : bits = 2 ∨ bits = 4) {codes : List UInt8}
    (length : codes.length = perByte bits) (small : ∀ code ∈ codes, code.toNat < 2 ^ bits.toNat) :
    unpackByte bits.toNat (perByte bits) (packByte bits.toNat codes) = codes := by
  have packed : (packByte bits.toNat codes).toNat =
      Nat.ofDigits (2 ^ bits.toNat) (codes.map UInt8.toNat) := by
    rw [(losesNoBit widths length small).sum, sum_codes]
  have digits : ∀ digit ∈ codes.map UInt8.toNat, digit < 2 ^ bits.toNat :=
    List.forall_mem_map.mpr small
  apply List.ext_getElem
  · rw [unpackByte_length, length]
  · intro index _ inside
    have digit := Digits.ofDigits_digit digits (by rwa [List.length_map] : index < _)
    apply UInt8.toNat.inj
    simp only [unpackByte, List.getElem_map, List.getElem_range]
    rw [toNat_unpacked widths _ (length ▸ inside), packed, digit, List.getElem_map]

end Byte

end Quant

end KVSSD

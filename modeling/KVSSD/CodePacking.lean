import KVSSD.KernelValues
import KVSSD.QuantError

/-!
# Packing codes into bytes

`pack_codes` and `unpack_codes` are inverse to each other on tensors of every shape that PyTorch can
cut into groups, and the code at a position is the one that the kernels take out of its byte.
-/

namespace KVSSD

open KVSSD.Python

namespace Quant

section Tensors

variable {bits : Int} {front : List Nat} {count : Nat}

theorem length_of_mem_bytes {codes : Tensor UInt8} {group : List UInt8}
    (shape : codes.shape = front ++ [count * perByte bits])
    (member : group ∈ rows (front.prod * count) (perByte bits) codes.data) :
    group.length = perByte bits ∧ ∀ code ∈ group, code ∈ codes.data := by
  have total : codes.data.length = front.prod * count * perByte bits := by
    rw [codes.size_eq, shape, List.prod_append, List.prod_singleton, Nat.mul_assoc]
  refine ⟨length_of_mem_rows (Nat.le_of_eq total.symm) member, ?_⟩
  intro code inside
  rw [← rows_flatten total]
  exact List.mem_flatten_of_mem member inside

theorem unpackCodes_packCodes (widths : bits = 2 ∨ bits = 4) {codes : Tensor UInt8}
    (shape : codes.shape = front ++ [count * perByte bits]) (nonempty : front.prod ≠ 0)
    (small : ∀ code ∈ codes.data, code.toNat < 2 ^ bits.toNat) :
    ∃ packed, packCodes codes bits = .ok packed ∧ packed.shape = front ++ [count] ∧
      unpackCodes packed bits (count * perByte bits) = .ok codes := by
  have positive := perByte_pos widths
  obtain ⟨packed, packs, packedShape, packedData⟩ := packCodes_spec shape (widths_valid widths)
    positive (Nat.dvd_mul_left _ _) nonempty
  rw [Nat.mul_div_cancel _ positive] at packedShape packedData
  obtain ⟨restored, unpacks, restoredShape, restoredData⟩ := unpackCodes_spec
    (widths_valid widths) packedShape nonempty rfl
  refine ⟨packed, packs, packedShape, ?_⟩
  have total : codes.data.length = front.prod * count * perByte bits := by
    rw [codes.size_eq, shape, List.prod_append, List.prod_singleton, Nat.mul_assoc]
  have same : restored = codes := by
    apply Tensor.ext
    · rw [restoredShape, shape]
    · calc
        restored.data = (rows (front.prod * count) (perByte bits) codes.data).flatMap
            fun group => unpackByte bits.toNat (perByte bits) (packByte bits.toNat group) := by
          rw [restoredData, packedData, List.flatMap_map]
        _ = (rows (front.prod * count) (perByte bits) codes.data).flatMap id := by
          apply List.flatMap_congr
          intro group member
          obtain ⟨full, inside⟩ := length_of_mem_bytes shape member
          exact unpackByte_packByte widths full fun code here => small code (inside code here)
        _ = codes.data := by rw [List.flatMap_id, rows_flatten total]
  rw [unpacks, same]

theorem packCodes_unpackCodes (widths : bits = 2 ∨ bits = 4) {packed : Tensor UInt8}
    (shape : packed.shape = front ++ [count]) (nonempty : front.prod ≠ 0) :
    ∃ codes, unpackCodes packed bits (count * perByte bits) = .ok codes ∧
      codes.shape = front ++ [count * perByte bits] ∧
      codes.data = packed.data.flatMap (unpackByte bits.toNat (perByte bits)) ∧
      packCodes codes bits = .ok packed := by
  have positive := perByte_pos widths
  obtain ⟨codes, unpacks, codesShape, codesData⟩ := unpackCodes_spec
    (widths_valid widths) shape nonempty (rfl : count * perByte bits = _)
  obtain ⟨again, packs, againShape, againData⟩ := packCodes_spec codesShape (widths_valid widths)
    positive (Nat.dvd_mul_left _ _) nonempty
  rw [Nat.mul_div_cancel _ positive] at againShape againData
  refine ⟨codes, unpacks, codesShape, codesData, ?_⟩
  have total : front.prod * count = packed.data.length := by
    rw [packed.size_eq, shape, List.prod_append, List.prod_singleton]
  have same : again = packed := by
    apply Tensor.ext
    · rw [againShape, shape]
    · calc
        again.data = (packed.data.map (unpackByte bits.toNat (perByte bits))).map
            (packByte bits.toNat) := by
          rw [againData, codesData, total, rows_flatMap fun byte _ => unpackByte_length _ _ byte]
        _ = packed.data.map id := by
          rw [List.map_map]
          apply List.map_congr_left
          intro byte _
          exact packByte_unpackByte widths byte
        _ = packed.data := List.map_id _
  rw [packs, same]

/-- The code at a position of unpacked bytes is the one the kernels take out of their byte. -/
theorem unpacked_eq_code (widths : bits = 2 ∨ bits = 4) {packed codes : Tensor UInt8}
    (shape : packed.shape = front ++ [count])
    (unpacked : codes.data = packed.data.flatMap (unpackByte bits.toNat (perByte bits)))
    {launch : Launch} (sameBits : launch.bits = bits) {row dim : Nat} (rowInside : row < front.prod)
    (dimInside : dim < count * perByte bits) :
    ∃ byte code, packed.data[row * count + dim / perByte bits]? = some byte ∧
      codes.data[row * (count * perByte bits) + dim]? = some code ∧
      code.toNat = launch.code byte dim := by
  have positive := perByte_pos widths
  have total : packed.data.length = front.prod * count := by
    rw [packed.size_eq, shape, List.prod_append, List.prod_singleton]
  have place : (row * (count * perByte bits) + dim) / perByte bits =
      row * count + dim / perByte bits := by
    rw [← Nat.mul_assoc, Nat.mul_comm, Nat.mul_add_div positive]
  have digit : (row * (count * perByte bits) + dim) % perByte bits = dim % perByte bits := by
    rw [← Nat.mul_assoc, Nat.mul_comm, Nat.mul_add_mod]
  have byteInside : row * count + dim / perByte bits < packed.data.length := by
    have dimByte : dim / perByte bits < count := Nat.div_lt_of_lt_mul (by rwa [Nat.mul_comm])
    rw [total]
    exact Nat.lt_of_lt_of_le (Nat.add_lt_add_left dimByte _)
      (by rw [← Nat.succ_mul]; exact Nat.mul_le_mul_right _ rowInside)
  have inside : row * (count * perByte bits) + dim < packed.data.length * perByte bits := by
    rw [← Nat.div_lt_iff_lt_mul positive, place]
    exact byteInside
  have images (byte : UInt8) : unpackByte bits.toNat (perByte bits) byte =
      (List.range (perByte bits)).map fun index =>
        (byte >>> UInt8.ofNat (index * bits.toNat)) &&& UInt8.ofNat (2 ^ bits.toNat - 1) := rfl
  rw [unpacked, flatMap_eq_map_range _ images 0 packed.data, List.getElem?_map,
    List.getElem?_range inside, Option.map_some, place, digit, List.getD_eq_getElem?_getD]
  have byte := List.getElem?_eq_getElem byteInside
  rw [byte, Option.getD_some]
  refine ⟨_, _, rfl, rfl, ?_⟩
  rw [toNat_shifted widths _ (Nat.mod_lt dim positive), Launch.code, sameBits]

/-- With an empty dimension before the last one the dimension of the groups is ambiguous. -/
theorem packCodes_empty (widths : bits = 2 ∨ bits = 4) {codes : Tensor UInt8}
    (shape : codes.shape = front ++ [count * perByte bits]) (empty : front.prod = 0) :
    packCodes codes bits =
      .error (.runtimeError "the unspecified dimension size -1 is ambiguous") := by
  have ambiguous : (codes.shape.dropLast ++ [perByte bits]).prod = 0 := by
    rw [shape, List.dropLast_concat, List.prod_append, empty, Nat.zero_mul]
  unfold packCodes
  rw [if_neg (widths_valid widths), shape, Tensor.lastDim_append_singleton,
    if_neg (not_not_intro (Nat.mul_mod_left _ _)), ← shape, Tensor.reshapeInfer, if_pos ambiguous]
  rfl

theorem unpackCodes_empty (widths : bits = 2 ∨ bits = 4) {packed : Tensor UInt8}
    (shape : packed.shape = front ++ [count]) (empty : front.prod = 0) (elements : Nat) :
    unpackCodes packed bits elements =
      .error (.runtimeError "the unspecified dimension size -1 is ambiguous") := by
  have ambiguous : (packed.shape.dropLast ++ []).prod = 0 := by
    rw [shape, List.dropLast_concat, List.append_nil, empty]
  unfold unpackCodes
  rw [if_neg (widths_valid widths)]
  simp only [Tensor.reshapeInfer, if_pos ambiguous, error_bind]

end Tensors

/-- `tensor.to(torch.uint8)` of a tensor of integers. -/
def toUInt8 (tensor : Tensor Int) : Tensor UInt8 := tensor.map UInt8.ofInt

theorem toNat_ofInt {code : Int} (floor : 0 ≤ code) (small : code < 256) :
    ((UInt8.ofInt code).toNat : Int) = code := by
  rw [UInt8.ofInt, UInt8.toNat_ofNat']
  omega

/-- Packing and unpacking codes of 2 or 4 bits are inverse to each other on tensors of every shape
with no empty dimension before the last one; no bit is lost, and the code at a position is the one
that the kernels read there.  Where a dimension before the last one is empty, both raise. -/
theorem packing_bijective {bits : Int} (widths : bits = 2 ∨ bits = 4) (front : List Nat)
    (count : Nat) :
    (front.prod ≠ 0 →
      (∀ codes : Tensor Int, codes.shape = front ++ [count * perByte bits] →
        (∀ code ∈ codes.data, 0 ≤ code ∧ code < 2 ^ bits.toNat) →
          ∃ packed restored, packCodes (toUInt8 codes) bits = .ok packed ∧
            packed.shape = front ++ [count] ∧
            unpackCodes packed bits (count * perByte bits) = .ok restored ∧
            restored.map (fun code => (code.toNat : Int)) = codes ∧
            ∀ group ∈ rows (front.prod * count) (perByte bits) (toUInt8 codes).data,
              LosesNoBit bits.toNat group) ∧
      ∀ packed : Tensor UInt8, packed.shape = front ++ [count] →
        ∃ codes, unpackCodes packed bits (count * perByte bits) = .ok codes ∧
          codes.shape = front ++ [count * perByte bits] ∧
          packCodes codes bits = .ok packed ∧
          ∀ launch : Launch, launch.bits = bits →
            ∀ row < front.prod, ∀ dim < count * perByte bits,
              ∃ byte code, packed.data[row * count + dim / perByte bits]? = some byte ∧
                codes.data[row * (count * perByte bits) + dim]? = some code ∧
                code.toNat = launch.code byte dim) ∧
    (front.prod = 0 →
      (∀ codes : Tensor Int, codes.shape = front ++ [count * perByte bits] →
        ∃ raised, packCodes (toUInt8 codes) bits = .error raised) ∧
      ∀ packed : Tensor UInt8, packed.shape = front ++ [count] →
        ∃ raised, unpackCodes packed bits (count * perByte bits) = .error raised) := by
  refine ⟨fun nonempty => ⟨?_, ?_⟩, fun empty => ⟨?_, ?_⟩⟩
  · intro codes shape inRange
    have bytesShape : (toUInt8 codes).shape = front ++ [count * perByte bits] := shape
    have exact : ∀ code ∈ codes.data, ((UInt8.ofInt code).toNat : Int) = code := by
      intro code member
      obtain ⟨floor, small⟩ := inRange code member
      apply toNat_ofInt floor
      rcases widths with rfl | rfl
      · exact lt_trans small (by decide)
      · exact lt_trans small (by decide)
    have small : ∀ code ∈ (toUInt8 codes).data, code.toNat < 2 ^ bits.toNat := by
      intro code member
      obtain ⟨item, inside, rfl⟩ := List.mem_map.mp member
      have below := (inRange item inside).2
      rw [← exact item inside] at below
      exact_mod_cast below
    obtain ⟨packed, packs, packedShape, unpacks⟩ :=
      unpackCodes_packCodes widths bytesShape nonempty small
    refine ⟨packed, toUInt8 codes, packs, packedShape, unpacks, ?_, ?_⟩
    · apply Tensor.ext
      · rfl
      · change (codes.data.map UInt8.ofInt).map _ = codes.data
        rw [List.map_map]
        exact (List.map_congr_left exact).trans (List.map_id _)
    · intro group member
      obtain ⟨full, inside⟩ := length_of_mem_bytes bytesShape member
      exact losesNoBit widths full fun code here => small code (inside code here)
  · intro packed shape
    obtain ⟨codes, unpacks, codesShape, codesData, packs⟩ :=
      packCodes_unpackCodes widths shape nonempty
    refine ⟨codes, unpacks, codesShape, packs, ?_⟩
    intro launch sameBits row rowInside dim dimInside
    exact unpacked_eq_code widths shape codesData sameBits rowInside dimInside
  · intro codes shape
    have bytesShape : (toUInt8 codes).shape = front ++ [count * perByte bits] := shape
    exact ⟨_, packCodes_empty widths bytesShape empty⟩
  · intro packed shape
    exact ⟨_, unpackCodes_empty widths shape empty _⟩

/-- A row of two codes in one byte. -/
theorem packing_bijective_row :
    ∃ packed restored, packCodes (toUInt8 ⟨[1, 2], [3, 9], rfl⟩) 4 = .ok packed ∧
      unpackCodes packed 4 2 = .ok restored ∧
      restored.map (fun code => (code.toNat : Int)) = ⟨[1, 2], [3, 9], rfl⟩ := by
  obtain ⟨inverse, _⟩ := packing_bijective (Or.inr rfl : (4 : Int) = 2 ∨ (4 : Int) = 4) [1] 1
  obtain ⟨packed, restored, packs, _, unpacks, same, _⟩ :=
    (inverse (by decide)).1 ⟨[1, 2], [3, 9], rfl⟩ rfl (by decide)
  exact ⟨packed, restored, packs, unpacks, same⟩

/-- No rows of two codes. -/
def emptyRows : Tensor Int := ⟨[0, 2], [], rfl⟩

/-- Codes of 4 bits whose shape has an empty dimension are not packed. -/
theorem emptyRows_not_packed :
    emptyRows.shape = [0] ++ [1 * perByte 4] ∧
      (∀ code ∈ emptyRows.data, 0 ≤ code ∧ code < 2 ^ 4) ∧
      packCodes (toUInt8 emptyRows) 4 =
        .error (.runtimeError "the unspecified dimension size -1 is ambiguous") ∧
      ¬ ∃ packed restored, packCodes (toUInt8 emptyRows) 4 = .ok packed ∧
        unpackCodes packed 4 2 = .ok restored ∧
        restored.map (fun code => (code.toNat : Int)) = emptyRows := by
  have raises : packCodes (toUInt8 emptyRows) 4 =
      .error (.runtimeError "the unspecified dimension size -1 is ambiguous") := rfl
  refine ⟨rfl, by decide, raises, ?_⟩
  rintro ⟨packed, restored, packs, _⟩
  rw [raises] at packs
  cases packs

end Quant

end KVSSD

import KVSSD.Quant

/-!
# Quantization acts group by group

`quantize_tensor` reshapes twice and packs along the last dimension, but every
output byte and every scale depends on one group of consecutive values only.
`quantizeTensor_spec` states the result as a map over the groups, which is the
form in which quantization commutes with cutting a tensor into blocks.
-/

namespace KVSSD

open KVSSD.Python

namespace Tensor

theorem lastRows_mk {α : Type} {front : List Nat} {width : Nat}
    {items : List α} (fits : items.length = (front ++ [width]).prod) :
    lastRows ⟨front ++ [width], items, fits⟩ =
      rows front.prod width items := by
  simp [lastRows]

end Tensor

namespace Quant

variable {F : Type} {α : Type}

theorem validate_of_accepts [element : TorchElement α F] {x : Tensor α} {bits groupSize : Int}
    {front : List Nat} {width : Nat} (shape : x.shape = front ++ [width])
    (accepts : Accepts bits groupSize width)
    (floating : element.isFloatingPoint = true) :
    validate F x bits groupSize = .ok () := by
  have groupNat : ((groupSize.toNat : Nat) : Int) = groupSize :=
    Int.toNat_of_nonneg (Int.le_of_lt accepts.group_pos)
  have divides : (width : Int).fmod groupSize = 0 := by
    rw [Int.fmod_eq_emod_of_nonneg _ (Int.le_of_lt accepts.group_pos), ← groupNat]
    exact_mod_cast Nat.mod_eq_zero_of_dvd accepts.group_dvd
  have perByteNat : ((perByte bits : Nat) : Int) = 8 / bits := by
    rcases accepts.bits_cases with two | four
    · subst two
      decide
    · subst four
      decide
  have aligned : groupSize.fmod (8 / bits) = 0 := by
    rw [← perByteNat, Int.fmod_eq_emod_of_nonneg _ (Int.natCast_nonneg _),
      ← groupNat]
    exact_mod_cast Nat.mod_eq_zero_of_dvd accepts.aligned
  have nonempty : x.shape ≠ [] := by simp [shape]
  have nonzero : groupSize ≠ 0 := ne_of_gt accepts.group_pos
  have positive : ¬ groupSize ≤ 0 := not_le.mpr accepts.group_pos
  have widthEq : Tensor.lastDim x.shape = width := by simp [shape]
  unfold validate
  rw [if_neg accepts.bits_valid, if_neg nonempty, widthEq]
  simp [pyMod, nonzero, divides, positive, aligned, floating, bind,
    Except.bind]

theorem perByte_dvd_of_aligned {bits groupSize : Int} (bitsCases : bits = 2 ∨ bits = 4)
    (positive : 0 < groupSize) (aligned : groupSize.fmod (8 / bits) = 0) :
    perByte bits ∣ groupSize.toNat := by
  have perByteNat : ((perByte bits : Nat) : Int) = 8 / bits := by
    rcases bitsCases with two | four
    · rw [two]
      decide
    · rw [four]
      decide
  have divides : ((perByte bits : Nat) : Int) ∣ groupSize := by
    rw [perByteNat]
    exact Int.dvd_of_fmod_eq_zero aligned
  rw [← Int.toNat_of_nonneg (Int.le_of_lt positive)] at divides
  exact_mod_cast divides

/-- What `_validate` checks. -/
theorem accepts_of_validate [element : TorchElement α F] {x : Tensor α} {bits groupSize : Int}
    {front : List Nat} {width : Nat} (shape : x.shape = front ++ [width])
    (validated : validate F x bits groupSize = .ok ()) : Accepts bits groupSize width := by
  have widthEq : Tensor.lastDim x.shape = width := by simp [shape]
  unfold validate at validated
  split at validated
  · cases validated
  rename_i bitsValid
  split at validated
  · cases validated
  obtain ⟨remainder, modulus, rest⟩ := bind_eq_ok.mp validated
  split at rest
  · cases rest
  rename_i divides
  split at rest
  · cases rest
  rename_i aligned
  have positive : 0 < groupSize := by omega
  have bitsCases : bits = 2 ∨ bits = 4 := by omega
  have groupNat : ((groupSize.toNat : Nat) : Int) = groupSize :=
    Int.toNat_of_nonneg (Int.le_of_lt positive)
  refine ⟨bitsCases, positive, ?_, ?_⟩
  · unfold pyMod at modulus
    rw [if_neg (by omega), widthEq, Int.fmod_eq_emod_of_nonneg _ (Int.le_of_lt positive)]
      at modulus
    have zero : (width : Int) % groupSize = 0 := by
      rw [Except.ok.inj modulus]
      omega
    rw [← groupNat] at zero
    exact_mod_cast Int.dvd_of_emod_eq_zero zero
  · exact perByte_dvd_of_aligned bitsCases positive (by omega)

theorem packCodes_spec {codes : Tensor UInt8} {bits : Int}
    {front : List Nat} {width : Nat} (shape : codes.shape = front ++ [width])
    (valid : ¬ (bits ≠ 2 ∧ bits ≠ 4)) (positive : 0 < perByte bits)
    (aligned : perByte bits ∣ width) (nonempty : front.prod ≠ 0) :
    ∃ packed, packCodes codes bits = .ok packed ∧
      packed.shape = front ++ [width / perByte bits] ∧
      packed.data =
        (rows (front.prod * (width / perByte bits)) (perByte bits)
          codes.data).map (packByte bits.toNat) := by
  have known : (front ++ [perByte bits]).prod ≠ 0 := by
    rw [List.prod_append, List.prod_singleton]
    exact Nat.mul_ne_zero nonempty (Nat.pos_iff_ne_zero.mp positive)
  have fits : codes.data.length =
      (front ++ width / perByte bits :: [perByte bits]).prod := by
    rw [codes.size_eq, shape]
    simp only [List.prod_append, List.prod_cons, List.prod_nil, Nat.mul_one]
    rw [Nat.div_mul_cancel aligned]
  have inferred := Tensor.reshapeInfer_of_size known fits
  have widthEq : Tensor.lastDim codes.shape = width := by simp [shape]
  have frontEq : codes.shape.dropLast = front := by simp [shape]
  have remainder : width % perByte bits = 0 := Nat.mod_eq_zero_of_dvd aligned
  unfold packCodes
  rw [if_neg valid, widthEq, if_neg (by simp [remainder]), frontEq, inferred]
  refine ⟨_, rfl, ?_, ?_⟩
  · simp [Tensor.reduceLast, List.dropLast_append_of_ne_nil]
  · simp [Tensor.reduceLast, Tensor.lastRows, Tensor.lastDim,
      List.dropLast_append_of_ne_nil]

section Groups

variable [arith : QuantArith F] [element : TorchElement α F]

/-- The packed bytes of one group. -/
def packedGroup (bits : Int) (group : List F) : List UInt8 :=
  (rows (group.length / perByte bits) (perByte bits)
    (groupCodes bits group)).map (packByte bits.toNat)

@[simp] theorem packedGroup_length (bits : Int) (group : List F) :
    (packedGroup bits group).length = group.length / perByte bits := by
  simp [packedGroup]

/-- The half-precision scale stored for one group. -/
def storedScale (bits : Int) (group : List F) : UInt16 :=
  arith.toHalf (groupScale bits group)

/-- The groups of a flat list of values. -/
def groupsOf (F : Type) [element : TorchElement α F] (count size : Nat)
    (items : List α) : List (List F) :=
  rows count size (items.map element.toFloat)

omit arith in
theorem length_of_mem_groupsOf {count size : Nat} {items : List α}
    {group : List F} (exact : items.length = count * size)
    (member : group ∈ groupsOf F count size items) : group.length = size :=
  length_of_mem_rows (by simp [exact]) member

/-- Packing the codes of all groups row by row packs every group on its own. -/
theorem packed_groups {count size : Nat} {bits : Int} {items : List α}
    (exact : items.length = count * size) (aligned : perByte bits ∣ size) :
    (rows (count * (size / perByte bits)) (perByte bits)
        ((groupsOf F count size items).flatMap (groupCodes bits))).map
        (packByte bits.toNat) =
      (groupsOf F count size items).flatMap (packedGroup bits) := by
  have wide : ∀ group ∈ groupsOf F count size items,
      (groupCodes bits group).length = size := by
    intro group member
    rw [groupCodes_length]
    exact length_of_mem_groupsOf exact member
  have counted : (groupsOf F count size items).length = count := by
    simp [groupsOf]
  have codesLength :
      ((groupsOf F count size items).flatMap (groupCodes bits)).length =
        count * size := by
    rw [length_flatMap_of_wide wide, counted]
  have recut :
      rows count size
          ((groupsOf F count size items).flatMap (groupCodes bits)) =
        (groupsOf F count size items).map (groupCodes bits) := by
    have cut := rows_flatMap wide
    rwa [counted] at cut
  have split : size = size / perByte bits * perByte bits :=
    (Nat.div_mul_cancel aligned).symm
  rw [rows_split split codesLength, recut, List.flatMap_map, List.map_flatMap]
  apply List.flatMap_congr
  intro group member
  rw [packedGroup, length_of_mem_groupsOf exact member]

end Groups

end Quant

open Quant

variable {F : Type} [arith : QuantArith F] {α : Type}
  [element : TorchElement α F]

/-- `quantize_tensor` on a tensor with at least one row: it succeeds, and
every packed byte and every scale comes from one group. -/
theorem quantizeTensor_spec {x : Tensor α} {bits groupSize : Int}
    {front : List Nat} {width : Nat} (shape : x.shape = front ++ [width])
    (accepts : Accepts bits groupSize width)
    (floating : element.isFloatingPoint = true) (nonempty : front.prod ≠ 0) :
    ∃ q, quantizeTensor F x bits groupSize = .ok q ∧
      q.packed.shape = front ++ [width / perByte bits] ∧
      q.packed.data =
        (groupsOf F (front.prod * (width / groupSize.toNat)) groupSize.toNat
          x.data).flatMap (packedGroup bits) ∧
      q.scales.shape = front ++ [width / groupSize.toNat] ∧
      q.scales.data =
        (groupsOf F (front.prod * (width / groupSize.toNat)) groupSize.toNat
          x.data).map (storedScale bits) ∧
      q.originalShape = x.shape ∧ q.bits = bits ∧ q.groupSize = groupSize := by
  obtain ⟨size, sizeEq⟩ : ∃ size, size = groupSize.toNat := ⟨_, rfl⟩
  have dvd : size ∣ width := sizeEq ▸ accepts.group_dvd
  have total : x.data.length = front.prod * (width / size) * size := by
    rw [x.size_eq, shape, List.prod_append, List.prod_singleton, Nat.mul_assoc,
      Nat.div_mul_cancel dvd]
  have groupsFit : (x.map (element.toFloat (F := F))).data.length =
      (front ++ [width / size] ++ [size]).prod := by
    simp [Tensor.map, total, Nat.mul_assoc]
  have groupsShape : x.shape.dropLast ++
      [Tensor.lastDim x.shape / size, size] =
        front ++ [width / size] ++ [size] := by
    simp [shape]
  have reshaped := Tensor.reshape_of_size groupsFit
  have groupRows : Tensor.lastRows
      ⟨front ++ [width / size] ++ [size], _, groupsFit⟩ =
        groupsOf F (front.prod * (width / size)) size x.data := by
    rw [Tensor.lastRows_mk]
    simp [groupsOf, Tensor.map]
  have codesFit :
      ((groupsOf F (front.prod * (width / size)) size x.data).flatMap
        (groupCodes bits)).length = x.shape.prod := by
    rw [@length_flatMap_of_wide _ _ size, ← x.size_eq, total]
    · simp [groupsOf]
    · intro group member
      rw [groupCodes_length]
      exact length_of_mem_groupsOf total member
  obtain ⟨packed, packedOk, packedShape, packedData⟩ :=
    @packCodes_spec ⟨x.shape, _, codesFit⟩ _ _ _ shape accepts.bits_valid
      accepts.perByte_pos accepts.perByte_dvd nonempty
  have codesOk : Tensor.reshape
      (Tensor.mapLast (Tensor.lastDim (front ++ [width / size] ++ [size]))
        (groupCodes bits)
        ⟨front ++ [width / size] ++ [size], _, groupsFit⟩
        (by intro row length; rw [groupCodes_length, length])) x.shape =
      .ok ⟨x.shape, _, codesFit⟩ := by
    rw [Tensor.reshape_eq_ok]
    refine ⟨rfl, ?_⟩
    simp only [Tensor.mapLast, groupRows]
  have regroup : width / perByte bits = width / size * (size / perByte bits) := by
    calc
      width / perByte bits = width / size * size / perByte bits := by
        rw [Nat.div_mul_cancel dvd]
      _ = width / size * (size / perByte bits) :=
        Nat.mul_div_assoc _ (sizeEq ▸ accepts.aligned)
  unfold quantizeTensor
  rw [validate_of_accepts shape accepts floating, ok_bind, ← sizeEq]
  simp only [groupsShape, reshaped, ok_bind, codesOk, packedOk]
  refine ⟨_, rfl, packedShape, ?_, ?_, ?_, rfl, rfl, rfl⟩
  · rw [packedData, regroup, ← Nat.mul_assoc]
    exact packed_groups total (sizeEq ▸ accepts.aligned)
  · simp [Tensor.map, Tensor.reduceLast]
  · rw [← groupRows]
    simp only [Tensor.map, Tensor.reduceLast, List.map_map]
    rfl

/-- `quantize_tensor` refuses a tensor without rows: `pack_codes` cannot infer
the size of the packed dimension. -/
theorem quantizeTensor_empty {x : Tensor α} (bits groupSize : Int)
    {front : List Nat} {width : Nat} (shape : x.shape = front ++ [width])
    (empty : front.prod = 0) :
    ∃ raised, quantizeTensor F x bits groupSize = .error raised := by
  cases result : quantizeTensor F x bits groupSize with
  | error raised => exact ⟨raised, rfl⟩
  | ok q =>
      obtain ⟨_, _, rest⟩ := bind_eq_ok.mp result
      obtain ⟨_, _, rest⟩ := bind_eq_ok.mp rest
      obtain ⟨codes, reshaped, rest⟩ := bind_eq_ok.mp rest
      obtain ⟨packed, packedOk, _⟩ := bind_eq_ok.mp rest
      have codesFront : codes.shape.dropLast = front := by
        rw [(Tensor.reshape_eq_ok.mp reshaped).1, shape]
        simp
      have ambiguous : (codes.shape.dropLast ++ [perByte bits]).prod = 0 := by
        rw [codesFront, List.prod_append, empty, Nat.zero_mul]
      rw [packCodes, Tensor.reshapeInfer, if_pos ambiguous, error_bind] at packedOk
      split at packedOk
      · cases packedOk
      · split at packedOk <;> cases packedOk

end KVSSD

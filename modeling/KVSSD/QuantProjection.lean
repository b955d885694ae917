import KVSSD.QuantError

/-!
# Quantization is a projection

Restored values are whole numbers of steps of the stored scale, and the largest value of a
group is at the last step unless its scale underflowed.  Quantizing restored values therefore
computes the stored scale again, exactly, and with it the same codes.
-/

namespace KVSSD

open KVSSD.Python

namespace Quant

section Group

variable {bits : Int} {group : List ℚ} {value : ℚ}

/-- The values a group is restored to. -/
def restoredGroup (bits : Int) (group : List ℚ) : List ℚ :=
  group.map (reconstruct bits group)

/-- The stored scale as a number. -/
def scaleValue (bits : Int) (group : List ℚ) : ℚ := Half.toRat (storedScale bits group)

/-- The largest value of a group is at the last step, unless the group is below the floor of
the scale. -/
theorem exists_extreme (widths : bits = 2 ∨ bits = 4)
    (above : 1 / 10 ^ 8 ≤ amax (group.map fun item => |item|)) :
    ∃ value ∈ group, |(quantum bits group value : ℚ)| = steps bits := by
  have nonempty : group.map (fun item => |item|) ≠ [] := by
    intro empty
    rw [empty] at above
    change (1 : ℚ) / 10 ^ 8 ≤ ((0 : ℤ) : ℚ) at above
    norm_num at above
  obtain ⟨value, member, largest⟩ := List.mem_map.mp (amax_mem nonempty)
  have positive := steps_pos widths
  have scale : groupScale bits group = |value| / steps bits := by
    rw [groupScale_eq, max_eq_left above, ← largest]
  have magnitude : 0 < |value| := by
    rw [largest]
    exact lt_of_lt_of_le (by norm_num) above
  refine ⟨value, member, ?_⟩
  rcases abs_cases value with ⟨same, _⟩ | ⟨opposite, _⟩
  · have quotient : value / groupScale bits group = (steps bits : ℤ) := by
      rw [scale, same]
      rw [same] at magnitude
      field_simp
    rw [quantum, quotient, Binary.roundEven_intCast, abs_of_pos positive]
  · have quotient : value / groupScale bits group = ((-steps bits : ℤ) : ℚ) := by
      rw [scale, opposite]
      rw [opposite] at magnitude
      have nonzero : value ≠ 0 := by
        intro zero
        rw [zero, neg_zero] at magnitude
        exact lt_irrefl 0 magnitude
      push_cast
      field_simp
    rw [quantum, quotient, Binary.roundEven_intCast]
    push_cast
    rw [abs_neg, abs_of_pos positive]

theorem ofRat_floor (widths : bits = 2 ∨ bits = 4) :
    Half.ofRat (1 / 10 ^ 8 / steps bits) = 0 := by
  rcases steps_cases widths with ⟨_, one⟩ | ⟨_, seven⟩
  · rw [one]
    decide +kernel
  · rw [seven]
    decide +kernel

theorem toRat_zero : Half.toRat 0 = 0 := by
  decide +kernel

theorem storedScale_of_floor (widths : bits = 2 ∨ bits = 4)
    (below : amax (group.map fun item => |item|) ≤ 1 / 10 ^ 8) : storedScale bits group = 0 := by
  change Half.ofRat (groupScale bits group) = 0
  rw [groupScale_eq, max_eq_right below]
  exact ofRat_floor widths

theorem amax_restoredGroup (widths : bits = 2 ∨ bits = 4)
    (small : groupScale bits group < 65520) (nonzero : scaleValue bits group ≠ 0) :
    amax ((restoredGroup bits group).map fun item => |item|) =
      steps bits * scaleValue bits group := by
  have above : 1 / 10 ^ 8 ≤ amax (group.map fun item => |item|) := by
    by_contra below
    apply nonzero
    rw [scaleValue, storedScale_of_floor widths (not_le.mp below).le, toRat_zero]
  obtain ⟨value, member, last⟩ := exists_extreme widths above
  have image : |reconstruct bits group value| ∈
      (restoredGroup bits group).map fun item => |item| :=
    List.mem_map_of_mem (List.mem_map_of_mem member)
  apply le_antisymm
  · obtain ⟨restored, restoredMember, largest⟩ := List.mem_map.mp
      (amax_mem (List.ne_nil_of_mem image))
    obtain ⟨other, otherMember, rfl⟩ := List.mem_map.mp restoredMember
    rw [← largest]
    exact abs_reconstruct_le widths small otherMember
  · calc
      steps bits * scaleValue bits group = |reconstruct bits group value| := by
        rw [reconstruct, abs_mul, last, abs_of_nonneg (storedScale_nonneg widths small)]
        rfl
      _ ≤ _ := le_amax image

theorem groupScale_restoredGroup (widths : bits = 2 ∨ bits = 4)
    (small : groupScale bits group < 65520) (nonzero : scaleValue bits group ≠ 0) :
    groupScale bits (restoredGroup bits group) = scaleValue bits group := by
  have positive := steps_pos widths
  have smallest : 1 / 2 ^ 24 ≤ scaleValue bits group :=
    Half.unit_le_toRat_ofRat (groupScale_pos widths group).le small nonzero
  have one : (1 : ℚ) ≤ steps bits := by
    rcases steps_cases widths with ⟨_, one⟩ | ⟨_, seven⟩
    · rw [one]
      norm_num
    · rw [seven]
      norm_num
  rw [groupScale_eq, amax_restoredGroup widths small nonzero, max_eq_left]
  · exact mul_div_cancel_left₀ _ positive.ne'
  · calc
      (1 : ℚ) / 10 ^ 8 ≤ 1 * (1 / 2 ^ 24) := by norm_num
      _ ≤ steps bits * scaleValue bits group :=
        mul_le_mul one smallest (by norm_num) positive.le

theorem reconstruct_of_zero (zero : scaleValue bits group = 0) (value : ℚ) :
    reconstruct bits group value = 0 := by
  change _ * scaleValue bits group = 0
  rw [zero, mul_zero]

theorem amax_of_zeros {items : List ℚ} (zeros : ∀ item ∈ items, item = 0) : amax items = 0 := by
  by_cases nonempty : items = []
  · subst nonempty
    rfl
  · exact zeros _ (amax_mem nonempty)

theorem storedScale_restoredGroup (widths : bits = 2 ∨ bits = 4)
    (small : groupScale bits group < 65520) :
    storedScale bits (restoredGroup bits group) = storedScale bits group := by
  have stable : Half.ofRat (scaleValue bits group) = storedScale bits group :=
    Half.ofRat_toRat_ofRat (groupScale_pos widths group).le small
  by_cases zero : scaleValue bits group = 0
  · have zeros : amax ((restoredGroup bits group).map fun item => |item|) = 0 := by
      apply amax_of_zeros
      intro item member
      obtain ⟨restored, restoredMember, rfl⟩ := List.mem_map.mp member
      obtain ⟨value, _, rfl⟩ := List.mem_map.mp restoredMember
      rw [reconstruct_of_zero zero, abs_zero]
    rw [storedScale_of_floor widths, ← stable, zero]
    · decide +kernel
    · rw [zeros]
      norm_num
  · change Half.ofRat (groupScale bits (restoredGroup bits group)) = storedScale bits group
    rw [groupScale_restoredGroup widths small zero, stable]

theorem quantum_restoredGroup (widths : bits = 2 ∨ bits = 4)
    (small : groupScale bits group < 65520) (nonzero : scaleValue bits group ≠ 0) (value : ℚ) :
    quantum bits (restoredGroup bits group) (reconstruct bits group value) =
      quantum bits group value := by
  have quotient : reconstruct bits group value / scaleValue bits group =
      (quantum bits group value : ℚ) := mul_div_cancel_right₀ _ nonzero
  rw [quantum, groupScale_restoredGroup widths small nonzero, quotient,
    Binary.roundEven_intCast]

theorem groupCodes_restoredGroup (widths : bits = 2 ∨ bits = 4)
    (small : groupScale bits group < 65520) (nonzero : scaleValue bits group ≠ 0) :
    groupCodes bits (restoredGroup bits group) = groupCodes bits group := by
  unfold groupCodes
  conv_lhs => rw [restoredGroup, List.map_map]
  apply List.map_congr_left
  intro value member
  have restoredMember : reconstruct bits group value ∈ restoredGroup bits group :=
    List.mem_map_of_mem member
  apply UInt8.toNat_inj.mp
  have first := code_eq widths member
  have second := code_eq widths restoredMember
  rw [quantum_restoredGroup widths small nonzero] at second
  exact_mod_cast second.trans first.symm

theorem restoredGroup_restoredGroup (widths : bits = 2 ∨ bits = 4)
    (small : groupScale bits group < 65520) :
    restoredGroup bits (restoredGroup bits group) = restoredGroup bits group := by
  conv_lhs => rw [restoredGroup]
  conv_lhs =>
    arg 2
    rw [restoredGroup]
  rw [List.map_map]
  apply List.map_congr_left
  intro value _
  change reconstruct bits (restoredGroup bits group) (reconstruct bits group value) = _
  by_cases zero : scaleValue bits group = 0
  · rw [reconstruct_of_zero zero, reconstruct_zero]
  · rw [reconstruct, quantum_restoredGroup widths small zero, storedScale_restoredGroup widths
      small]
    rfl

end Group

variable {α : Type} [element : TorchElement α ℚ] {x : Tensor α} {bits groupSize : Int}
  {q : QuantizedTensor}

theorem exists_shape_of_quantizeTensor (quantized : quantizeTensor ℚ x bits groupSize = .ok q) :
    ∃ front width, x.shape = front ++ [width] := by
  obtain ⟨_, validated, _⟩ := bind_eq_ok.mp quantized
  have dimensions : x.shape ≠ [] := by
    intro scalar
    unfold validate at validated
    rw [if_pos scalar] at validated
    split at validated
    · cases validated
    · cases validated
  exact ⟨_, _, (List.dropLast_append_getLast dimensions).symm⟩

/-- Store a tensor and reload it. -/
def reload (bits groupSize : Int) (x : Tensor ℚ) : Except PyError (Tensor ℚ) := do
  let q ← quantizeTensor ℚ x bits groupSize
  dequantizeTensor ℚ id q

/-- Store and reload a number of times. -/
def reloads (bits groupSize : Int) : Nat → Tensor ℚ → Except PyError (Tensor ℚ)
  | 0, x => .ok x
  | count + 1, x => do
      let restored ← reload bits groupSize x
      reloads bits groupSize count restored

theorem reloads_of_reload {y : Tensor ℚ} (fixed : reload bits groupSize y = .ok y)
    (count : Nat) : reloads bits groupSize count y = .ok y := by
  induction count with
  | zero => rfl
  | succ count induction =>
      rw [reloads, fixed, ok_bind]
      exact induction

/-- The groups a tensor is quantized in. -/
def groups (groupSize : Int) (x : Tensor α) : List (List ℚ) :=
  groupsOf ℚ (x.data.length / groupSize.toNat) groupSize.toNat x.data

/-- Quantizing a tensor and restoring it, by its groups. -/
theorem quantizeTensor_groups (quantized : quantizeTensor ℚ x bits groupSize = .ok q) :
    ∃ codes restored,
      unpackCodes q.packed q.bits (Tensor.lastDim q.originalShape) = .ok codes ∧
      dequantizeTensor ℚ id q = .ok restored ∧ codes.shape = x.shape ∧
      restored.shape = x.shape ∧ q.originalShape = x.shape ∧
      (bits = 2 ∨ bits = 4) ∧ 0 < groupSize.toNat ∧
      x.data.length = x.data.length / groupSize.toNat * groupSize.toNat ∧
      q.scales.shape = x.shape.dropLast ++ [Tensor.lastDim x.shape / groupSize.toNat] ∧
      q.scales.data = (groups groupSize x).map (storedScale bits) ∧
      codes.data = (groups groupSize x).flatMap (groupCodes bits) ∧
      restored.data = (groups groupSize x).flatMap (restoredGroup bits) := by
  obtain ⟨front, width, shape⟩ := exists_shape_of_quantizeTensor quantized
  obtain ⟨accepts, floating, nonempty⟩ := accepts_of_quantizeTensor shape quantized
  obtain ⟨other, otherOk, _, _, scalesShape, scalesData, original, _, _⟩ :=
    quantizeTensor_spec (F := ℚ) shape accepts floating nonempty
  obtain rfl := Except.ok.inj (otherOk.symm.trans quantized)
  obtain ⟨codes, restored, codesOk, restoredOk, codesShape, restoredShape, codesData,
    restoredData⟩ := dequantize_quantizeTensor shape quantized
      fun group _ => codesFit accepts.bits_cases group
  have positive : 0 < groupSize.toNat := Int.lt_toNat.mpr accepts.group_pos
  have widthEq : Tensor.lastDim x.shape = width := by simp [shape]
  have total : x.data.length = front.prod * (width / groupSize.toNat) * groupSize.toNat := by
    rw [x.size_eq, shape, List.prod_append, List.prod_singleton, Nat.mul_assoc,
      Nat.div_mul_cancel accepts.group_dvd]
  have counted : x.data.length / groupSize.toNat = front.prod * (width / groupSize.toNat) := by
    rw [total, Nat.mul_div_cancel _ positive]
  refine ⟨codes, restored, ?_, restoredOk, codesShape, restoredShape, original,
    accepts.bits_cases, positive, ?_, ?_, ?_, ?_, ?_⟩
  · rw [original, widthEq]
    exact codesOk
  · rw [counted]
    exact total
  · rw [scalesShape, widthEq, shape, List.dropLast_concat]
  · rw [scalesData, groups, counted]
  · rw [codesData, groups, counted]
  · rw [restoredData, groups, counted]
    apply List.flatMap_congr
    intro group _
    exact map_codeValue accepts.bits_cases group

theorem groups_restored {y : Tensor ℚ}
    (sized : x.data.length = x.data.length / groupSize.toNat * groupSize.toNat)
    (shape : y.shape = x.shape)
    (restored : y.data = (groups groupSize x).flatMap (restoredGroup bits)) :
    groups groupSize y = (groups groupSize x).map (restoredGroup bits) := by
  have same : y.data.length = x.data.length := by rw [y.size_eq, x.size_eq, shape]
  have wide : ∀ group ∈ groups groupSize x,
      (restoredGroup bits group).length = groupSize.toNat := by
    intro group member
    rw [restoredGroup, List.length_map]
    exact length_of_mem_groupsOf sized member
  have cut := rows_flatMap wide
  rw [show (groups groupSize x).length = x.data.length / groupSize.toNat by
    simp [groups, groupsOf]] at cut
  rw [← cut, groups, groupsOf, same, restored]
  congr 1
  exact List.map_id _

theorem groupAt_codes (sized : x.data.length = x.data.length / groupSize.toNat * groupSize.toNat)
    {index : Nat} (inside : index < x.data.length / groupSize.toNat) :
    groupAt groupSize.toNat index ((groups groupSize x).flatMap (groupCodes bits)) =
      groupCodes bits (groupAt groupSize.toNat index (x.data.map element.toFloat)) := by
  apply groupAt_flatMap inside
  intro group member
  rw [groupCodes_length]
  exact length_of_mem_groupsOf sized member

/-- Quantization is a projection: quantizing restored values gives the stored scales, the
codes of every group whose scale did not underflow, and the same values again, however often
it is repeated. -/
theorem quantize_restored (quantized : quantizeTensor ℚ x bits groupSize = .ok q)
    (small : ∀ group ∈ groups groupSize x, groupScale bits group < 65520) :
    ∃ y again codes codesAgain, dequantizeTensor ℚ id q = .ok y ∧
      quantizeTensor ℚ y bits groupSize = .ok again ∧
      unpackCodes q.packed q.bits (Tensor.lastDim q.originalShape) = .ok codes ∧
      unpackCodes again.packed again.bits (Tensor.lastDim again.originalShape) =
        .ok codesAgain ∧
      again.scales = q.scales ∧
      (∀ index < x.data.length / groupSize.toNat, ∀ scale,
        q.scales.data[index]? = some scale → Half.toRat scale ≠ 0 →
        groupAt groupSize.toNat index codesAgain.data =
          groupAt groupSize.toNat index codes.data) ∧
      dequantizeTensor ℚ id again = .ok y ∧
      ∀ count, reloads bits groupSize count y = .ok y := by
  obtain ⟨front, width, shape⟩ := exists_shape_of_quantizeTensor quantized
  obtain ⟨accepts, _, nonempty⟩ := accepts_of_quantizeTensor shape quantized
  obtain ⟨codes, y, codesOk, restoredOk, codesShape, restoredShape, _, widths, _, sized,
    scalesShape, scalesData, codesData, restoredData⟩ := quantizeTensor_groups quantized
  obtain ⟨again, quantizedAgain, _⟩ := quantizeTensor_spec (F := ℚ)
    (restoredShape.trans shape) accepts rfl nonempty
  obtain ⟨codesAgain, z, codesAgainOk, restoredAgainOk, _, shapeAgain, _, _, _, sizedAgain,
    scalesShapeAgain, scalesDataAgain, codesDataAgain, restoredDataAgain⟩ :=
    quantizeTensor_groups quantizedAgain
  have cut := groups_restored sized restoredShape restoredData
  have same : y.data.length = x.data.length := by rw [y.size_eq, x.size_eq, restoredShape]
  have fixed : z = y := by
    apply Tensor.ext (shapeAgain)
    rw [restoredDataAgain, restoredData, cut, List.flatMap_map]
    apply List.flatMap_congr
    intro group member
    exact restoredGroup_restoredGroup widths (small group member)
  rw [fixed] at restoredAgainOk
  have stable : reload bits groupSize y = .ok y := by
    rw [reload, quantizedAgain, ok_bind]
    exact restoredAgainOk
  refine ⟨y, again, codes, codesAgain, restoredOk, quantizedAgain, codesOk, codesAgainOk, ?_,
    ?_, restoredAgainOk, reloads_of_reload stable⟩
  · apply Tensor.ext
    · rw [scalesShapeAgain, scalesShape, restoredShape]
    · rw [scalesDataAgain, scalesData, cut, List.map_map]
      apply List.map_congr_left
      intro group member
      exact storedScale_restoredGroup widths (small group member)
  · intro index inside scale stored nonzero
    have entry := @groupsOf_getElem? ℚ _ _ _ groupSize.toNat _ x.data inside
    have entryAgain := @groupsOf_getElem? ℚ _ _ _ groupSize.toNat _ y.data inside
    change (groups groupSize x)[index]? = _ at entry
    rw [scalesData, List.getElem?_map, entry, Option.map_some, Option.some_inj] at stored
    have member := List.mem_of_getElem? entry
    have image : groupAt groupSize.toNat index (y.data.map (TorchElement.toFloat (F := ℚ))) =
        restoredGroup bits
          (groupAt groupSize.toNat index (x.data.map (TorchElement.toFloat (F := ℚ)))) := by
      have position := congrArg (·[index]?) cut
      change (groups groupSize y)[index]? = _ at position
      rw [List.getElem?_map, entry, groups, same, entryAgain] at position
      exact Option.some.inj position
    rw [codesDataAgain, groupAt_codes sizedAgain (same ▸ inside), codesData,
      groupAt_codes sized inside, image]
    apply groupCodes_restoredGroup widths (small _ member)
    unfold scaleValue
    rw [stored]
    exact nonzero

/-- Two values as one group of four-bit codes. -/
theorem quantize_restored_tiny :
    ∃ q y again, quantizeTensor ℚ (⟨[2], [1, -1 / 2], rfl⟩ : Tensor ℚ) 4 2 = .ok q ∧
      dequantizeTensor ℚ id q = .ok y ∧ quantizeTensor ℚ y 4 2 = .ok again ∧
      again.scales = q.scales ∧ dequantizeTensor ℚ id again = .ok y := by
  obtain ⟨q, quantized, _⟩ := @quantizeTensor_spec ℚ _ ℚ _ ⟨[2], [1, -1 / 2], rfl⟩ 4 2 [] 2 rfl
    ⟨Or.inr rfl, by decide, by decide, by decide⟩ rfl (by decide)
  obtain ⟨y, again, _, _, restored, quantizedAgain, _, _, scales, _, restoredAgain, _⟩ :=
    quantize_restored quantized (by decide +kernel)
  exact ⟨q, y, again, quantized, restored, quantizedAgain, scales, restoredAgain⟩

end Quant

end KVSSD

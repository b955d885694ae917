import KVSSD.StreamingAttention

/-!
# Packed attention is dequantize-then-attend

`packed_attention` dequantizes a whole batch with repeated scales and slices it, its reference
dequantizes block by block with reshaped groups and concatenates.  Both attend to the values of
the valid tokens, and those depend on the codes and scales of the valid tokens alone.
-/

namespace KVSSD

open KVSSD.Python KVSSD.Quant

/-- The codes and the scales of the first tokens are the same. -/
structure QuantizedTensor.SameTokens (q other : QuantizedTensor) (count : Int) : Prop where
  packed : other.packed.slice0 0 count = q.packed.slice0 0 count
  scales : other.scales.slice0 0 count = q.scales.slice0 0 count

/-- Two blocks differ at most behind their valid tokens. -/
structure PackedKVBlock.SameValid (block other : PackedKVBlock) : Prop where
  valid : other.validTokens = block.validTokens
  key : block.key.SameTokens other.key block.validTokens
  value : block.value.SameTokens other.value block.validTokens

section Tokens

variable {F : Type} [arith : DequantArith F] {spec : CacheSpec}
  {tokens heads dim width groups groupSize count : Nat} {q other : QuantizedTensor}
  (cuts : spec.Cuts tokens heads dim width groups groupSize)

theorem slice0_front {α : Type} {tensor : Tensor α} {rest : List Nat}
    (shape : tensor.shape = tokens :: rest) (room : count ≤ tokens) :
    (tensor.slice0 0 count).data = tensor.data.take (count * rest.prod) := by
  have sliced := (@Tensor.slice0_inside _ _ tokens 0 count rest shape (by omega)).2
  simpa using sliced

include cuts in
/-- The values of the first tokens come from their codes and scales. -/
theorem QuantizedTensor.Cut.values_take
    (cut : q.Cut spec.bits tokens heads dim width groups groupSize) (room : count ≤ tokens) :
    (q.values F).take (count * (heads * dim)) =
      flatValues spec.bits groupSize (q.packed.slice0 0 count).data
        (q.scales.slice0 0 count).data := by
  have packed := slice0_front cut.packed room
  have scales := slice0_front cut.scales room
  have packedSize : (q.packed.slice0 0 count).data.length = count * (heads * width) := by
    rw [packed, List.length_take, q.packed.size_eq, cut.packed]
    simp only [List.prod_cons, List.prod_nil, Nat.mul_one]
    exact Nat.min_eq_left (Nat.mul_le_mul_right _ room)
  have scalesSize : (q.scales.slice0 0 count).data.length = count * (heads * groups) := by
    rw [scales, List.length_take, q.scales.size_eq, cut.scales]
    simp only [List.prod_cons, List.prod_nil, Nat.mul_one]
    exact Nat.min_eq_left (Nat.mul_le_mul_right _ room)
  have even : (q.packed.slice0 0 count).data.length * perByte spec.bits =
      (q.scales.slice0 0 count).data.length * groupSize := by
    rw [packedSize, scalesSize, Nat.mul_assoc, Nat.mul_assoc, Nat.mul_assoc, Nat.mul_assoc,
      ← cuts.bytes, ← cuts.grouped]
  have size : (flatValues (F := F) spec.bits groupSize (q.packed.slice0 0 count).data
      (q.scales.slice0 0 count).data).length = count * (heads * dim) := by
    rw [flatValues_length even, packedSize, Nat.mul_assoc, Nat.mul_assoc, ← cuts.bytes]
  have whole : q.values F = flatValues spec.bits groupSize (q.packed.slice0 0 count).data
      (q.scales.slice0 0 count).data ++
        flatValues spec.bits groupSize (q.packed.data.drop (count * [heads, width].prod))
          (q.scales.data.drop (count * [heads, groups].prod)) := by
    rw [← flatValues_append even, packed, scales, List.take_append_drop,
      List.take_append_drop, QuantizedTensor.values, cut.bits_eq, cut.group_eq,
      Int.toNat_natCast]
  rw [whole, ← size, List.take_left']
  rfl

include cuts in
theorem QuantizedTensor.SameTokens.validHeads (same : q.SameTokens other count)
    (cut : q.Cut spec.bits tokens heads dim width groups groupSize)
    (otherCut : other.Cut spec.bits tokens heads dim width groups groupSize)
    (room : count ≤ tokens) :
    other.validHeads F heads dim count = q.validHeads F heads dim count := by
  unfold QuantizedTensor.validHeads
  rw [← rows_of_take, otherCut.values_take cuts room, same.packed, same.scales,
    ← cut.values_take cuts room, rows_of_take]

include cuts in
theorem PackedKVBlock.SameValid.tokens_eq {block changed : PackedKVBlock}
    (same : block.SameValid changed) (filled : block.Filled spec)
    (changedFilled : changed.Filled spec) :
    changed.tokens F heads dim = block.tokens F heads dim := by
  obtain ⟨keyCut, valueCut⟩ := filled.shaped.cut cuts
  obtain ⟨changedKeyCut, changedValueCut⟩ := changedFilled.shaped.cut cuts
  have room := filled.toNat_le cuts
  have key := same.key
  have value := same.value
  rw [← filled.natCast] at key value
  unfold PackedKVBlock.tokens
  rw [same.valid, key.validHeads cuts keyCut changedKeyCut room,
    value.validHeads cuts valueCut changedValueCut room]

include cuts in
theorem blockTokens_congr {blocks changed : List PackedKVBlock}
    (same : List.Forall₂ PackedKVBlock.SameValid blocks changed)
    (filled : ∀ block ∈ blocks, block.Filled spec)
    (changedFilled : ∀ block ∈ changed, block.Filled spec) :
    blockTokens F heads dim changed = blockTokens F heads dim blocks := by
  induction same with
  | nil => rfl
  | @cons block other blocks changed first rest induction =>
      unfold blockTokens at induction ⊢
      rw [List.flatMap_cons, List.flatMap_cons,
        first.tokens_eq cuts (filled block (by simp)) (changedFilled other (by simp)),
        induction (fun block member => filled block (by simp [member]))
          (fun block member => changedFilled block (by simp [member]))]

end Tokens

/-- The packed path and its reference return the same output, for every arithmetic, and the
output does not depend on the codes and scales behind the valid tokens. -/
theorem packedAttention_dequantizes {F : Type} [AttentionArith F] {spec : CacheSpec}
    (packs : spec.Packs) {blocks : List PackedKVBlock} (nonempty : blocks ≠ [])
    (filled : ∀ block ∈ blocks, block.Filled spec) {query : Tensor F} {queryHeads : Nat}
    (queryShape : query.shape.map Int.ofNat = [(queryHeads : Int), spec.headDim])
    (divides : spec.kvHeads ∣ (queryHeads : Int)) (scale : F) :
    ∃ output, packedAttention query blocks scale = .ok output ∧
      packedAttentionReference query blocks scale = .ok output ∧
      ∀ changed, List.Forall₂ PackedKVBlock.SameValid blocks changed →
        (∀ block ∈ changed, block.Filled spec) →
        packedAttention query changed scale = .ok output ∧
          packedAttentionReference query changed scale = .ok output := by
  obtain ⟨tokens, heads, dim, width, groups, groupSize, cuts, _, headsEq, dimEq⟩ := packs.cuts
  rw [dimEq] at queryShape
  rw [headsEq] at divides
  have shape : query.shape = [queryHeads, dim] := by
    apply List.map_injective_iff.mpr Int.ofNat_injective
    exact queryShape
  have heads_dvd : heads ∣ queryHeads := by exact_mod_cast divides
  obtain ⟨output, _, outputOk, attends⟩ :=
    packedAttention_attends cuts nonempty filled shape heads_dvd scale
  have reference := packedAttention_eq_reference cuts nonempty filled shape heads_dvd scale
  refine ⟨output, outputOk, reference.symm.trans outputOk, ?_⟩
  intro changed same changedFilled
  have changedNonempty : changed ≠ [] := by
    rintro rfl
    cases same
    exact nonempty rfl
  obtain ⟨other, _, otherOk, otherAttends⟩ :=
    packedAttention_attends cuts changedNonempty changedFilled shape heads_dvd scale
  have changedReference :=
    packedAttention_eq_reference cuts changedNonempty changedFilled shape heads_dvd scale
  rw [blockTokens_congr cuts same filled changedFilled] at otherAttends
  rw [otherAttends.output.unique attends.output] at otherOk
  exact ⟨otherOk, changedReference.symm.trans otherOk⟩

/-- A block without valid tokens, and the same block with another code. -/
def emptyBlock (code : UInt8) : PackedKVBlock :=
  let part : QuantizedTensor :=
    ⟨⟨[1, 1, 1], [code], rfl⟩, ⟨[1, 1, 1], [0], rfl⟩, [1, 1, 2], 4, 2⟩
  ⟨0, 0, 0, part, part⟩

theorem emptyBlock_filled (code : UInt8) : (emptyBlock code).Filled tinySpec where
  shaped := ⟨rfl, rfl, rfl, rfl, rfl, rfl, rfl, rfl, rfl, rfl⟩
  valid_nonneg := by simp [emptyBlock]
  valid_le := by simp [emptyBlock, tinySpec]
  int32 := (by decide : FitsInt32 0)

theorem emptyBlock_sameValid (code other : UInt8) :
    (emptyBlock code).SameValid (emptyBlock other) :=
  ⟨rfl, ⟨rfl, rfl⟩, ⟨rfl, rfl⟩⟩

/-- A full block and an empty one whose code changes. -/
theorem packedAttention_dequantizes_tiny : ∃ output,
    packedAttention ⟨[2, 2], [1, 0, 0, 1], rfl⟩ [tinyBlock 1, emptyBlock 0] (1 / 2 : ℝ) =
        .ok output ∧
      packedAttentionReference ⟨[2, 2], [1, 0, 0, 1], rfl⟩ [tinyBlock 1, emptyBlock 7]
        (1 / 2 : ℝ) = .ok output := by
  have filled : ∀ code, ∀ block ∈ [tinyBlock 1, emptyBlock code], block.Filled tinySpec := by
    intro code block member
    rcases List.mem_pair.mp member with rfl | rfl
    · exact tinyBlock_counted.filled
    · exact emptyBlock_filled code
  obtain ⟨output, outputOk, _, same⟩ := @packedAttention_dequantizes ℝ _ tinySpec
    ⟨rfl, by decide, by decide⟩ _ (by simp) (filled 0) ⟨[2, 2], [1, 0, 0, 1], rfl⟩ 2 rfl
    (by decide) (1 / 2)
  have full : (tinyBlock 1).SameValid (tinyBlock 1) := ⟨rfl, ⟨rfl, rfl⟩, ⟨rfl, rfl⟩⟩
  exact ⟨output, outputOk, (same _ (.cons full (.cons (emptyBlock_sameValid 0 7) .nil))
    (filled 7)).2⟩

end KVSSD

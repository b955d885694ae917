import KVSSD.AttentionBlocks
import KVSSD.Pipeline

/-!
# Attention over blocks of one specification

The reference backend on a stacked batch, `packed_attention` and its reference
all attend to the valid tokens of the blocks in order, for every arithmetic.
-/

namespace KVSSD

open KVSSD.Python

/-- The batch of some blocks: their tensors stacked, under the bits and the group
size of the specification. -/
structure PackedBatch.Stages (spec : CacheSpec) (blocks : List PackedKVBlock)
    (batch : PackedBatch) : Prop where
  packedK : Tensor.stack (blocks.map fun block => block.key.packed) = .ok batch.packedK
  packedV : Tensor.stack (blocks.map fun block => block.value.packed) = .ok batch.packedV
  scalesK : Tensor.stack (blocks.map fun block => block.key.scales) = .ok batch.scalesK
  scalesV : Tensor.stack (blocks.map fun block => block.value.scales) = .ok batch.scalesV
  validTokens : int32Tensor (blocks.map PackedKVBlock.validTokens) = .ok batch.validTokens
  bits : batch.bits = spec.bits
  groupSize : batch.groupSize = spec.groupSize

theorem int32Tensor_eq_ok {values : List Int} {tensor : Tensor Int} :
    int32Tensor values = .ok tensor ↔
      (∀ value ∈ values, FitsInt32 value) ∧ tensor = Tensor.ofList values := by
  rw [int32Tensor]
  split
  · rename_i fits
    constructor
    · intro success
      exact ⟨fits, (Except.ok.inj success).symm⟩
    · rintro ⟨_, rfl⟩
      rfl
  · rename_i overflow
    constructor
    · intro success
      cases success
    · rintro ⟨fits, _⟩
      exact absurd fits overflow

theorem PackedBatch.Stages.counts {spec : CacheSpec} {blocks : List PackedKVBlock}
    {batch : PackedBatch} (stages : batch.Stages spec blocks) :
    batch.validTokens = Tensor.ofList (blocks.map PackedKVBlock.validTokens) :=
  (int32Tensor_eq_ok.mp stages.validTokens).2

theorem stack_part {α ι : Type} {items : List ι} (part : ι → Tensor α) {shape : List Nat}
    (nonempty : items ≠ []) (shapes : ∀ item ∈ items, (part item).shape = shape) :
    ∃ stacked, Tensor.stack (items.map part) = .ok stacked ∧
      stacked.shape = items.length :: shape := by
  have each : ∀ tensor ∈ items.map part, tensor.shape = shape := by
    intro tensor member
    obtain ⟨item, present, rfl⟩ := List.mem_map.mp member
    exact shapes item present
  obtain ⟨stacked, success, result, _⟩ := Tensor.stack_total (by simpa using nonempty) each
  exact ⟨stacked, success, by simpa using result⟩

theorem stageTensor_eq_stack {α : Type} {shape : List Nat} {tensors : List (Tensor α)}
    (shapes : ∀ tensor ∈ tensors, tensor.shape = shape) :
    KVSSDPipeline.stageTensor (shape.map Int.ofNat) tensors = Tensor.stack tensors := by
  unfold KVSSDPipeline.stageTensor
  rw [if_pos fun tensor member => by rw [shapes tensor member]]

section Stage

variable {spec : CacheSpec} {tokens heads dim width groups groupSize : Nat}
  (cuts : spec.Cuts tokens heads dim width groups groupSize)
  {blocks : List PackedKVBlock} (nonempty : blocks ≠ [])
  (filled : ∀ block ∈ blocks, block.Filled spec)

include cuts nonempty filled in
theorem exists_stages : ∃ batch : PackedBatch, batch.Stages spec blocks := by
  have cut := fun block member => (filled block member).shaped.cut cuts
  obtain ⟨packedK, packedKOk, _⟩ := stack_part
    (fun block : PackedKVBlock => block.key.packed) nonempty fun block member =>
      (cut block member).1.packed
  obtain ⟨packedV, packedVOk, _⟩ := stack_part
    (fun block : PackedKVBlock => block.value.packed) nonempty fun block member =>
      (cut block member).2.packed
  obtain ⟨scalesK, scalesKOk, _⟩ := stack_part
    (fun block : PackedKVBlock => block.key.scales) nonempty fun block member =>
      (cut block member).1.scales
  obtain ⟨scalesV, scalesVOk, _⟩ := stack_part
    (fun block : PackedKVBlock => block.value.scales) nonempty fun block member =>
      (cut block member).2.scales
  have counts : ∀ value ∈ blocks.map PackedKVBlock.validTokens, FitsInt32 value := by
    intro value member
    obtain ⟨block, present, rfl⟩ := List.mem_map.mp member
    exact (filled block present).int32
  exact ⟨⟨packedK, packedV, scalesK, scalesV, _, spec.bits, spec.groupSize⟩, packedKOk,
    packedVOk, scalesKOk, scalesVOk, int32Tensor_eq_ok.mpr ⟨counts, rfl⟩, rfl, rfl⟩

theorem PackedBatch.Stages.stackBlocks {batch : PackedBatch}
    (stages : batch.Stages spec blocks) (nonempty : blocks ≠ []) :
    stackBlocks blocks spec.bits spec.groupSize = .ok batch := by
  obtain ⟨packedK, packedV, scalesK, scalesV, validTokens, bits, groupSize⟩ := stages
  unfold KVSSD.stackBlocks
  rw [if_neg nonempty, packedK, packedV, scalesK, scalesV, validTokens]
  cases batch
  simp only at bits groupSize
  subst bits groupSize
  rfl

include cuts filled in
/-- Both ways of staging stack the tensors. -/
theorem PackedBatch.Stages.stage {batch : PackedBatch} (stages : batch.Stages spec blocks)
    (nonempty : blocks ≠ []) (device : Device) :
    KVSSDPipeline.stage spec device blocks = .ok batch := by
  have cut := fun block member => (filled block member).shaped.cut cuts
  obtain ⟨first, rest, rfl⟩ := List.exists_cons_of_ne_nil nonempty
  cases device with
  | cuda => exact stages.stackBlocks nonempty
  | cpu =>
      have shapes : ∀ {α : Type} (part : PackedKVBlock → Tensor α) (shape : List Nat),
          (∀ block ∈ first :: rest, (part block).shape = shape) →
          KVSSDPipeline.stageTensor (shape.map Int.ofNat) ((first :: rest).map part) =
            Tensor.stack ((first :: rest).map part) := by
        intro α part shape own
        refine stageTensor_eq_stack ?_
        intro tensor member
        obtain ⟨block, present, rfl⟩ := List.mem_map.mp member
        exact own block present
      change (do
        let packedK ← KVSSDPipeline.stageTensor spec.packedShape
          ((first :: rest).map fun block => block.key.packed)
        let packedV ← KVSSDPipeline.stageTensor spec.packedShape
          ((first :: rest).map fun block => block.value.packed)
        let scalesK ← KVSSDPipeline.stageTensor spec.scaleShape
          ((first :: rest).map fun block => block.key.scales)
        let scalesV ← KVSSDPipeline.stageTensor spec.scaleShape
          ((first :: rest).map fun block => block.value.scales)
        let validTokens ← int32Tensor ((first :: rest).map PackedKVBlock.validTokens)
        return ⟨packedK, packedV, scalesK, scalesV, validTokens, spec.bits, spec.groupSize⟩) =
          Except.ok batch
      rw [cuts.packedShape, cuts.scaleShape,
        shapes _ _ fun block member => (cut block member).1.packed,
        shapes _ _ fun block member => (cut block member).2.packed,
        shapes _ _ fun block member => (cut block member).1.scales,
        shapes _ _ fun block member => (cut block member).2.scales]
      have stacked := stages.stackBlocks nonempty
      unfold KVSSD.stackBlocks at stacked
      rwa [if_neg nonempty] at stacked

end Stage

theorem zip_flatMap {ι α β : Type} {items : List ι} {left : ι → List α} {right : ι → List β}
    (even : ∀ item ∈ items, (left item).length = (right item).length) :
    (items.flatMap left).zip (items.flatMap right) =
      items.flatMap fun item => (left item).zip (right item) := by
  induction items with
  | nil => rfl
  | cons item items induction =>
      rw [List.flatMap_cons, List.flatMap_cons, List.flatMap_cons,
        List.zip_append (even item (by simp)),
        induction fun other member => even other (by simp [member])]

section Run

variable {F : Type} [arith : AttentionArith F] {spec : CacheSpec}
  {tokens heads dim width groups groupSize : Nat}
  (cuts : spec.Cuts tokens heads dim width groups groupSize)
  {blocks : List PackedKVBlock} (nonempty : blocks ≠ [])
  (filled : ∀ block ∈ blocks, block.Filled spec)
  {query : Tensor F} {queryHeads : Nat} (queryShape : query.shape = [queryHeads, dim])
  (divides : heads ∣ queryHeads)

/-- The valid tokens of some blocks in order. -/
def blockTokens (F : Type) [arith : DequantArith F] (heads dim : Nat)
    (blocks : List PackedKVBlock) : List (Token F) :=
  blocks.flatMap (PackedKVBlock.tokens F heads dim)

theorem zip_validHeads (F : Type) [arith : DequantArith F] (heads dim : Nat)
    (blocks : List PackedKVBlock) :
    (blocks.flatMap fun block =>
        block.key.validHeads F heads dim block.validTokens.toNat).zip
      (blocks.flatMap fun block =>
        block.value.validHeads F heads dim block.validTokens.toNat) =
      blockTokens F heads dim blocks := by
  refine zip_flatMap ?_
  intro block _
  simp [QuantizedTensor.validHeads]

omit arith in
include cuts nonempty filled queryShape divides in
theorem PackedBatch.Stages.validate {batch : PackedBatch} (stages : batch.Stages spec blocks) :
    batch.validate query = .ok () := by
  have cut := fun block member => (filled block member).shaped.cut cuts
  have shapes : batch.packedK.shape = [blocks.length, tokens, heads, width] ∧
      batch.packedV.shape = [blocks.length, tokens, heads, width] ∧
      batch.scalesK.shape = [blocks.length, tokens, heads, groups] ∧
      batch.scalesV.shape = [blocks.length, tokens, heads, groups] := by
    have own : ∀ {α : Type} {part : PackedKVBlock → Tensor α} {shape : List Nat}
        {stacked : Tensor α}, (∀ block ∈ blocks, (part block).shape = shape) →
        Tensor.stack (blocks.map part) = .ok stacked →
        stacked.shape = blocks.length :: shape := by
      intro α part shape stacked each success
      obtain ⟨_, other, result⟩ := stack_part part nonempty each
      obtain rfl := Except.ok.inj (other.symm.trans success)
      exact result
    exact ⟨own (fun block member => (cut block member).1.packed) stages.packedK,
      own (fun block member => (cut block member).2.packed) stages.packedV,
      own (fun block member => (cut block member).1.scales) stages.scalesK,
      own (fun block member => (cut block member).2.scales) stages.scalesV⟩
  obtain ⟨packedK, packedV, scalesK, scalesV⟩ := shapes
  have validTokens : batch.validTokens.shape = [blocks.length] := by
    rw [stages.counts]
    simp [Tensor.ofList]
  apply PackedBatch.validate_of_shapes queryShape packedK packedV scalesK scalesV rfl
    validTokens
  · rw [stages.bits]
    exact cuts.bits
  · rw [stages.groupSize, cuts.group_eq]
    exact pyMod_of_dvd cuts.group_pos (by rw [cuts.grouped]; exact Nat.dvd_mul_left _ _)
  · rw [stages.bits]
    exact cuts.packedDim
  · exact cuts.heads_pos
  · exact divides

include cuts nonempty filled queryShape divides in
/-- The reference backend attends to the valid tokens of the stacked blocks. -/
theorem PackedBatch.Stages.run {batch : PackedBatch} (stages : batch.Stages spec blocks)
    (scale : F) :
    ∃ output lse, ReferenceAttentionBackend.run query batch scale = .ok (output, lse) ∧
      Attends query queryHeads dim (queryHeads / heads) scale (blockTokens F heads dim blocks)
        output lse := by
  have cut := fun block member => (filled block member).shaped.cut cuts
  have lastDim : Tensor.lastDim query.shape = dim := by simp [queryShape, Tensor.lastDim]
  have counts : batch.validTokens.data = blocks.map PackedKVBlock.validTokens := by
    rw [stages.counts]
    rfl
  obtain ⟨keys, keysOk, keysShape, keysData⟩ := dequantizePacked_stack (F := F) cuts nonempty
    (fun block member => (cut block member).1) stages.packedK stages.scalesK
  obtain ⟨values, valuesOk, valuesShape, valuesData⟩ := dequantizePacked_stack (F := F) cuts
    nonempty (fun block member => (cut block member).2) stages.packedV stages.scalesV
  obtain ⟨keysFlat, keysFlatOk, keysFlatShape, keysCube⟩ := flattenValid_stack cuts nonempty
    filled (fun block member => (cut block member).1) keysShape keysData
  obtain ⟨valuesFlat, valuesFlatOk, valuesFlatShape, valuesCube⟩ := flattenValid_stack cuts
    nonempty filled (fun block member => (cut block member).2) valuesShape valuesData
  obtain ⟨scores, output, scoresOk, outputOk, attends⟩ := attention_spec queryShape
    keysFlatShape valuesFlatShape cuts.heads_pos divides scale
  rw [keysCube, valuesCube, zip_validHeads] at attends
  refine ⟨output, scores.reduceLast logSumExp, ?_, attends⟩
  unfold ReferenceAttentionBackend.run
  simp only [stages.validate cuts nonempty filled queryShape divides, ok_bind, lastDim,
    stages.bits, stages.groupSize, keysOk, valuesOk, counts, keysFlatOk, valuesFlatOk, scoresOk,
    outputOk]
  rfl

include cuts nonempty filled queryShape divides in
/-- `packed_attention` attends to the valid tokens of all blocks. -/
theorem packedAttention_attends (scale : F) :
    ∃ output lse, packedAttention query blocks scale = .ok output ∧
      Attends query queryHeads dim (queryHeads / heads) scale (blockTokens F heads dim blocks)
        output lse := by
  obtain ⟨batch, stages⟩ := exists_stages cuts nonempty filled
  obtain ⟨output, lse, runOk, attends⟩ :=
    stages.run cuts nonempty filled queryShape divides scale
  refine ⟨output, lse, ?_, attends⟩
  have stacked := stages.stackBlocks nonempty
  obtain ⟨first, rest, rfl⟩ := List.exists_cons_of_ne_nil nonempty
  have own := (filled first (by simp)).shaped
  unfold packedAttention
  simp only [own.keyBits, own.keyGroup, stacked, ok_bind, runOk]
  rfl

include cuts nonempty filled queryShape divides in
/-- So does its reference. -/
theorem packedAttentionReference_attends (scale : F) :
    ∃ output lse, packedAttentionReference query blocks scale = .ok output ∧
      Attends query queryHeads dim (queryHeads / heads) scale (blockTokens F heads dim blocks)
        output lse := by
  have cut := fun block member => (filled block member).shaped.cut cuts
  have lastDim : Tensor.lastDim query.shape = dim := by simp [queryShape, Tensor.lastDim]
  obtain ⟨keys, keysOk, keysShape, keysCube⟩ := dequantize_blocks (F := F) cuts nonempty filled
    (fun block member => (cut block member).1)
  obtain ⟨values, valuesOk, valuesShape, valuesCube⟩ := dequantize_blocks (F := F) cuts nonempty
    filled (fun block member => (cut block member).2)
  obtain ⟨scores, output, scoresOk, outputOk, attends⟩ := attention_spec queryShape keysShape
    valuesShape cuts.heads_pos divides scale
  rw [keysCube, valuesCube, zip_validHeads] at attends
  have shared : pyMod ((query.shape.getD 0 0 : Nat) : Int) ((keys.shape.getD 1 0 : Nat) : Int) =
      .ok 0 := by
    simp only [queryShape, keysShape, List.getD_cons_zero, List.getD_cons_succ]
    exact pyMod_of_dvd cuts.heads_pos divides
  refine ⟨output, scores.reduceLast logSumExp, ?_, attends⟩
  obtain ⟨keyChunks, keyChunksOk, keyCat⟩ := bind_eq_ok.mp keysOk
  obtain ⟨valueChunks, valueChunksOk, valueCat⟩ := bind_eq_ok.mp valuesOk
  unfold packedAttentionReference
  rw [if_neg nonempty, keyChunksOk, ok_bind, keyCat, ok_bind, valueChunksOk, ok_bind, valueCat,
    ok_bind]
  have keysDim : keys.shape.getD 2 0 = dim := by simp [keysShape]
  unfold referenceAttention
  rw [if_neg (by simp [queryShape, keysShape, valuesShape])]
  simp only [lastDim, keysDim, shared, ok_bind, ne_eq, not_true_eq_false, if_false, scoresOk,
    outputOk]

include cuts nonempty filled queryShape divides in
theorem packedAttention_eq_reference (scale : F) :
    packedAttention query blocks scale = packedAttentionReference query blocks scale := by
  obtain ⟨output, _, outputOk, attends⟩ :=
    packedAttention_attends cuts nonempty filled queryShape divides scale
  obtain ⟨other, _, otherOk, otherAttends⟩ :=
    packedAttentionReference_attends cuts nonempty filled queryShape divides scale
  rw [outputOk, otherOk, attends.output.unique otherAttends.output]

end Run

end KVSSD

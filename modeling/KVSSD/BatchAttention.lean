import KVSSD.AttentionBlocks

/-!
# Attention over a batch

The reference backend on a batch of consistent shapes attends to the valid tokens of the blocks in
order.  The values of a token are given by their block, token, head and dimension.
-/

namespace KVSSD

open KVSSD.Python KVSSD.Quant

/-- The number of the row of a head, over all blocks and tokens. -/
def rowOf (tokens heads block token head : Nat) : Nat :=
  (block * tokens + token) * heads + head

/-- The sizes of a batch and of a query for it. -/
structure BatchSizes where
  blocks : Nat
  tokens : Nat
  kvHeads : Nat
  headDim : Nat
  queryHeads : Nat
  bits : Nat
  groupSize : Nat

namespace BatchSizes

variable (sizes : BatchSizes)

def packedDim : Nat := sizes.headDim * sizes.bits / 8

def groups : Nat := sizes.headDim / sizes.groupSize

/-- The row of a head in the tensors of the batch. -/
def row (block token head : Nat) : Nat := rowOf sizes.tokens sizes.kvHeads block token head

/-- The dequantized value of one dimension of a head. -/
def value (F : Type) [DequantArith F] (packed : Tensor UInt8) (scales : Tensor UInt16)
    (block token head dim : Nat) : F :=
  packedValue sizes.bits sizes.groupSize packed.data scales.data
    (sizes.row block token head * sizes.headDim + dim)

/-- The heads of one token. -/
def heads (F : Type) [DequantArith F] (packed : Tensor UInt8) (scales : Tensor UInt16)
    (block token : Nat) : List (List F) :=
  (List.range sizes.kvHeads).map fun head => (List.range sizes.headDim).map fun dim =>
    sizes.value F packed scales block token head dim

end BatchSizes

/-- A batch of consistent shapes, and a query for it. -/
structure PackedBatch.WellFormed {F : Type} (batch : PackedBatch) (query : Tensor F)
    (sizes : BatchSizes) : Prop where
  query : query.shape = [sizes.queryHeads, sizes.headDim]
  packedK : batch.packedK.shape =
    [sizes.blocks, sizes.tokens, sizes.kvHeads, sizes.packedDim]
  packedV : batch.packedV.shape =
    [sizes.blocks, sizes.tokens, sizes.kvHeads, sizes.packedDim]
  scalesK : batch.scalesK.shape = [sizes.blocks, sizes.tokens, sizes.kvHeads, sizes.groups]
  scalesV : batch.scalesV.shape = [sizes.blocks, sizes.tokens, sizes.kvHeads, sizes.groups]
  validTokens : batch.validTokens.shape = [sizes.blocks]
  bits_eq : batch.bits = sizes.bits
  groupSize_eq : batch.groupSize = sizes.groupSize
  bits : sizes.bits = 2 ∨ sizes.bits = 4
  whole_bytes : 8 / sizes.bits ∣ sizes.headDim
  group_pos : 0 < sizes.groupSize
  whole_groups : sizes.groupSize ∣ sizes.headDim
  heads_pos : 0 < sizes.kvHeads
  shared : sizes.kvHeads ∣ sizes.queryHeads
  counts : ∀ valid ∈ batch.validTokens.data, 0 ≤ valid ∧ valid ≤ sizes.tokens
  some_valid : ∃ valid ∈ batch.validTokens.data, 0 < valid

/-- The number of valid tokens of a block. -/
def PackedBatch.validAt (batch : PackedBatch) (block : Nat) : Nat :=
  (batch.validTokens.data.getD block 0).toNat

/-- The valid tokens of all blocks, by their block and their place in it. -/
def PackedBatch.validPositions (batch : PackedBatch) (blocks : Nat) : List (Nat × Nat) :=
  (List.range blocks).flatMap fun block =>
    (List.range (batch.validAt block)).map fun token => (block, token)

/-- The keys and values of a token of a batch. -/
def PackedBatch.token (F : Type) [DequantArith F] (batch : PackedBatch) (sizes : BatchSizes)
    (position : Nat × Nat) : Token F :=
  (sizes.heads F batch.packedK batch.scalesK position.1 position.2,
    sizes.heads F batch.packedV batch.scalesV position.1 position.2)

theorem PackedBatch.mem_validPositions {batch : PackedBatch} {blocks : Nat}
    {position : Nat × Nat} : position ∈ batch.validPositions blocks ↔
      position.1 < blocks ∧ position.2 < batch.validAt position.1 := by
  obtain ⟨block, token⟩ := position
  simp [PackedBatch.validPositions, List.mem_flatMap]

section WellFormed

variable {F : Type} {batch : PackedBatch} {query : Tensor F} {sizes : BatchSizes}

namespace PackedBatch.WellFormed

theorem mapQuery {G : Type} (formed : batch.WellFormed query sizes) (f : F → G) :
    batch.WellFormed (query.map f) sizes :=
  { formed with query := formed.query }

theorem perByte_eq (formed : batch.WellFormed query sizes) :
    perByte sizes.bits = 8 / sizes.bits := by
  rcases formed.bits with two | four
  · rw [two]
    rfl
  · rw [four]
    rfl

theorem perByte_pos (formed : batch.WellFormed query sizes) : 0 < perByte sizes.bits := by
  rw [formed.perByte_eq]
  rcases formed.bits with two | four
  · rw [two]
    norm_num
  · rw [four]
    norm_num

theorem bytes (formed : batch.WellFormed query sizes) :
    sizes.headDim = sizes.packedDim * perByte sizes.bits := by
  obtain ⟨count, whole⟩ := formed.whole_bytes
  rw [formed.perByte_eq, BatchSizes.packedDim]
  rcases formed.bits with two | four
  · rw [two] at whole ⊢
    omega
  · rw [four] at whole ⊢
    omega

theorem grouped (formed : batch.WellFormed query sizes) :
    sizes.headDim = sizes.groups * sizes.groupSize :=
  (Nat.div_mul_cancel formed.whole_groups).symm

theorem counts_length (formed : batch.WellFormed query sizes) :
    batch.validTokens.data.length = sizes.blocks := by
  rw [batch.validTokens.size_eq, formed.validTokens]
  simp

theorem validAt_eq (formed : batch.WellFormed query sizes) {block : Nat}
    (inside : block < sizes.blocks) :
    batch.validTokens.data[block]? = some (batch.validAt block : Int) ∧
      batch.validAt block ≤ sizes.tokens := by
  rw [← formed.counts_length] at inside
  have present := List.getElem?_eq_getElem inside
  have range := formed.counts _ (List.getElem_mem inside)
  have same : batch.validAt block = batch.validTokens.data[block].toNat := by
    simp [PackedBatch.validAt, inside]
  rw [present, same]
  constructor
  · congr 1
    omega
  · omega

theorem counts_eq (formed : batch.WellFormed query sizes) :
    batch.validTokens.data =
      (List.range sizes.blocks).map fun block => (batch.validAt block : Int) := by
  apply List.ext_getElem?
  intro block
  by_cases inside : block < sizes.blocks
  · rw [(formed.validAt_eq inside).1]
    simp [inside]
  · have outside := formed.counts_length
    simp only [List.getElem?_map]
    rw [List.getElem?_eq_none (by omega), List.getElem?_eq_none (by simp; omega)]
    rfl

theorem position_inside (formed : batch.WellFormed query sizes) {position : Nat × Nat}
    (valid : position ∈ batch.validPositions sizes.blocks) :
    position.1 < sizes.blocks ∧ position.2 < sizes.tokens := by
  obtain ⟨inside, below⟩ := PackedBatch.mem_validPositions.mp valid
  have bounded := (formed.validAt_eq inside).2
  omega

theorem exists_position (formed : batch.WellFormed query sizes) :
    ∃ position, position ∈ batch.validPositions sizes.blocks := by
  obtain ⟨valid, member, positive⟩ := formed.some_valid
  obtain ⟨block, inside, found⟩ := List.getElem_of_mem member
  refine ⟨(block, 0), PackedBatch.mem_validPositions.mpr ?_⟩
  have present : batch.validAt block = valid.toNat := by
    simp [PackedBatch.validAt, inside, found]
  rw [formed.counts_length] at inside
  constructor
  · exact inside
  · simp only [present]
    omega

theorem positions_ne_nil (formed : batch.WellFormed query sizes) :
    batch.validPositions sizes.blocks ≠ [] := by
  obtain ⟨position, member⟩ := formed.exists_position
  exact List.ne_nil_of_mem member

theorem validate (formed : batch.WellFormed query sizes) : batch.validate query = .ok () := by
  apply PackedBatch.validate_of_shapes formed.query formed.packedK formed.packedV
    formed.scalesK formed.scalesV rfl formed.validTokens
  · have known := formed.bits
    rw [formed.bits_eq]
    omega
  · rw [formed.groupSize_eq]
    exact pyMod_of_dvd formed.group_pos formed.whole_groups
  · rw [formed.bits_eq, Int.fdiv_eq_ediv_of_nonneg _ (by norm_num)]
    rfl
  · exact formed.heads_pos
  · exact formed.shared

end PackedBatch.WellFormed

end WellFormed

section Run

variable {F : Type} [arith : AttentionArith F] {batch : PackedBatch} {query : Tensor F}
  {sizes : BatchSizes}

/-- The valid tokens of a dequantized tensor. -/
theorem PackedBatch.WellFormed.flattenValid (formed : batch.WellFormed query sizes)
    {packed : Tensor UInt8} {scales : Tensor UInt16}
    (packedShape : packed.shape =
      [sizes.blocks, sizes.tokens, sizes.kvHeads, sizes.packedDim])
    (scalesShape : scales.shape = [sizes.blocks, sizes.tokens, sizes.kvHeads, sizes.groups]) :
    ∃ values flat : Tensor F,
      dequantizePacked batch.bits batch.groupSize sizes.headDim packed scales = .ok values ∧
      KVSSD.flattenValid values batch.validTokens.data = .ok flat ∧
      flat.shape =
        [((List.range sizes.blocks).map batch.validAt).sum, sizes.kvHeads, sizes.headDim] ∧
      flat.cube ((List.range sizes.blocks).map batch.validAt).sum sizes.kvHeads
          sizes.headDim =
        (batch.validPositions sizes.blocks).map fun position =>
          sizes.heads F packed scales position.1 position.2 := by
  obtain ⟨position, member⟩ := formed.exists_position
  obtain ⟨blocksPos, tokensPos⟩ := formed.position_inside member
  have headsPos := formed.heads_pos
  have front : [sizes.blocks, sizes.tokens, sizes.kvHeads].prod ≠ 0 := by
    simp only [List.prod_cons, List.prod_nil, Nat.mul_one, ne_eq, Nat.mul_eq_zero]
    omega
  have bits : ¬ ((sizes.bits : Int) ≠ 2 ∧ (sizes.bits : Int) ≠ 4) := by
    have known := formed.bits
    omega
  obtain ⟨values, valuesOk, valuesShape, valuesData⟩ :=
    dequantizePacked_spec (F := F) bits front packedShape scalesShape formed.bytes
      formed.grouped
  let place := packedValue (F := F) sizes.bits sizes.groupSize packed.data scales.data
  let size := sizes.tokens * (sizes.kvHeads * sizes.headDim)
  let piece (block : Nat) := (List.range size).map fun index => place (block * size + index)
  have even : packed.data.length * perByte sizes.bits =
      scales.data.length * sizes.groupSize := by
    have same := formed.bytes.symm.trans formed.grouped
    rw [packed.size_eq, scales.size_eq, packedShape, scalesShape]
    simp only [List.prod_cons, List.prod_nil, Nat.mul_one, Nat.mul_assoc, same]
  have total : scales.data.length * sizes.groupSize = sizes.blocks * size := by
    rw [scales.size_eq, scalesShape]
    simp only [List.prod_cons, List.prod_nil, Nat.mul_one, Nat.mul_assoc, ← formed.grouped]
    rfl
  have data : values.data = (List.range sizes.blocks).flatMap piece := by
    rw [valuesData, flatValues_eq_map even, total]
    exact map_range_mul sizes.blocks size place
  obtain ⟨flat, flatOk, flatShape, flatCube⟩ := @flattenValid_spec F Nat
    (List.range sizes.blocks) batch.validAt piece sizes.tokens sizes.kvHeads sizes.headDim
    values (List.range_eq_nil.not.mpr (by omega)) (by rw [valuesShape]; simp) data
    (fun block _ => by simp [piece, size])
    (fun block inside => (formed.validAt_eq (List.mem_range.mp inside)).2)
  refine ⟨values, flat, ?_, ?_, flatShape, ?_⟩
  · rw [formed.bits_eq, formed.groupSize_eq]
    exact valuesOk
  · rw [formed.counts_eq]
    exact flatOk
  · rw [flatCube, PackedBatch.validPositions, List.map_flatMap]
    apply List.flatMap_congr
    intro block inside
    have bounded := (formed.validAt_eq (List.mem_range.mp inside)).2
    rw [rows_map_range bounded, List.map_map, List.map_map]
    apply List.map_congr_left
    intro token _
    rw [Function.comp_apply, rows_map_range (Nat.le_refl _)]
    apply List.map_congr_left
    intro head _
    apply List.map_congr_left
    intro dim _
    change place _ = place _
    congr 1
    simp only [size, BatchSizes.row, rowOf]
    ring

/-- The reference backend attends to the valid tokens of the batch. -/
theorem PackedBatch.WellFormed.run (formed : batch.WellFormed query sizes) (scale : F) :
    ∃ output lse, ReferenceAttentionBackend.run query batch scale = .ok (output, lse) ∧
      Attends query sizes.queryHeads sizes.headDim (sizes.queryHeads / sizes.kvHeads) scale
        ((batch.validPositions sizes.blocks).map (batch.token F sizes)) output lse := by
  obtain ⟨keys, keysFlat, keysOk, keysFlatOk, keysShape, keysCube⟩ :=
    formed.flattenValid formed.packedK formed.scalesK
  obtain ⟨values, valuesFlat, valuesOk, valuesFlatOk, valuesShape, valuesCube⟩ :=
    formed.flattenValid formed.packedV formed.scalesV
  obtain ⟨scores, output, scoresOk, outputOk, attends⟩ := attention_spec formed.query
    keysShape valuesShape formed.heads_pos formed.shared scale
  rw [keysCube, valuesCube, List.zip_map'] at attends
  refine ⟨output, scores.reduceLast logSumExp, ?_, attends⟩
  have lastDim : Tensor.lastDim query.shape = sizes.headDim := by
    simp [formed.query, Tensor.lastDim]
  unfold ReferenceAttentionBackend.run
  simp only [formed.validate, ok_bind, lastDim, keysOk, valuesOk, keysFlatOk, valuesFlatOk,
    scoresOk, outputOk]
  rfl

end Run

end KVSSD

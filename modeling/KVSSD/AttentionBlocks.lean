import KVSSD.AttentionLayout

/-!
# The tokens of packed blocks

Both ways of flattening blocks, the stacked batch of the backend and the block by block
dequantization of the reference, give the valid tokens of all blocks in order.
-/

namespace KVSSD

open KVSSD.Python KVSSD.Quant

theorem PackedBatch.validate_of_shapes {F : Type} {batch : PackedBatch} {query : Tensor F}
    {blocks tokens heads width queryHeads dim : Nat} {scales : List Nat}
    (queryShape : query.shape = [queryHeads, dim])
    (packedK : batch.packedK.shape = [blocks, tokens, heads, width])
    (packedV : batch.packedV.shape = [blocks, tokens, heads, width])
    (scalesK : batch.scalesK.shape = scales) (scalesV : batch.scalesV.shape = scales)
    (rank : scales.length = 4) (validTokens : batch.validTokens.shape = [blocks])
    (bits : ¬ (batch.bits ≠ 2 ∧ batch.bits ≠ 4))
    (grouped : pyMod (dim : Int) batch.groupSize = .ok 0)
    (packedDim : ((dim : Int) * batch.bits).fdiv 8 = width) (positive : 0 < heads)
    (shared : heads ∣ queryHeads) : batch.validate query = .ok () := by
  have lastDim : Tensor.lastDim query.shape = dim := by simp [queryShape, Tensor.lastDim]
  have lastPacked : Tensor.lastDim batch.packedK.shape = width := by
    simp [packedK, Tensor.lastDim]
  have remainder : pyMod ((query.shape.getD 0 0 : Nat) : Int)
      ((batch.packedK.shape.getD 2 0 : Nat) : Int) = .ok 0 := by
    simp only [queryShape, packedK, List.getD_cons_zero, List.getD_cons_succ]
    exact pyMod_of_dvd positive shared
  unfold PackedBatch.validate
  rw [if_neg (by simp [queryShape]), if_neg (by simp [packedK, packedV]),
    if_neg (by simp [scalesK, scalesV, rank]), if_neg (by simp [validTokens, packedK]),
    if_neg bits]
  simp only [lastDim, grouped, ok_bind, lastPacked, packedDim, remainder, ne_eq,
    not_true_eq_false, if_false]

section Flatten

variable {F ι : Type} {items : List ι} {valid : ι → Nat} {piece : ι → List F}
  {tokens heads dim : Nat}

/-- Concatenating the valid tokens of some pieces. -/
theorem cat_valid {chunks : List (Tensor F)} (nonempty : items ≠ [])
    (wide : ∀ item ∈ items, (piece item).length = tokens * (heads * dim))
    (inside : ∀ item ∈ items, valid item ≤ tokens)
    (cut : List.Forall₂ (fun item (chunk : Tensor F) =>
      chunk.shape = [valid item, heads, dim] ∧
        chunk.data = (piece item).take (valid item * (heads * dim))) items chunks) :
    ∃ flat, Tensor.cat chunks = .ok flat ∧ flat.shape = [(items.map valid).sum, heads, dim] ∧
      flat.cube (items.map valid).sum heads dim =
        items.flatMap fun item =>
          (rows (valid item) (heads * dim) (piece item)).map (rows heads dim) := by
  have chunksNonempty : chunks ≠ [] := by
    rintro rfl
    exact nonempty (List.forall₂_nil_right_iff.mp cut)
  have shapes : ∀ chunk ∈ chunks, ∃ count, chunk.shape = count :: [heads, dim] := by
    intro chunk member
    obtain ⟨position, present, rfl⟩ := List.getElem_of_mem member
    exact ⟨_, ((List.forall₂_iff_get.mp cut).2 position
      (by rw [cut.length_eq]; exact present) present).1⟩
  have data : chunks.flatMap Tensor.data =
      items.flatMap fun item => (piece item).take (valid item * (heads * dim)) := by
    clear nonempty wide inside chunksNonempty shapes
    induction cut with
    | nil => rfl
    | cons head _ induction => rw [List.flatMap_cons, List.flatMap_cons, head.2, induction]
  have taken : ∀ item ∈ items,
      ((piece item).take (valid item * (heads * dim))).length = valid item * (heads * dim) := by
    intro item member
    have room := Nat.mul_le_mul_right (heads * dim) (inside item member)
    rw [List.length_take, wide item member]
    omega
  have counts : (chunks.map fun chunk => chunk.shape.headD 0) = items.map valid := by
    clear nonempty wide inside chunksNonempty shapes data taken
    induction cut with
    | nil => rfl
    | cons head _ induction => rw [List.map_cons, List.map_cons, induction, head.1]; rfl
  obtain ⟨flat, flatOk, flatShape, flatData⟩ := Tensor.cat_total chunksNonempty shapes
  rw [counts] at flatShape
  refine ⟨flat, flatOk, flatShape, ?_⟩
  rw [Tensor.cube, flatData, data, rows_sum_flatMap taken, List.map_flatMap]
  refine List.flatMap_congr ?_
  intro item _
  rw [rows_of_take]

/-- The pieces of a stacked tensor. -/
theorem flattenValid_spec {tensor : Tensor F} (nonempty : items ≠ [])
    (shape : tensor.shape = [items.length, tokens, heads, dim])
    (data : tensor.data = items.flatMap piece)
    (wide : ∀ item ∈ items, (piece item).length = tokens * (heads * dim))
    (inside : ∀ item ∈ items, valid item ≤ tokens) :
    ∃ flat, flattenValid tensor (items.map fun item => (valid item : Int)) = .ok flat ∧
      flat.shape = [(items.map valid).sum, heads, dim] ∧
      flat.cube (items.map valid).sum heads dim =
        items.flatMap fun item =>
          (rows (valid item) (heads * dim) (piece item)).map (rows heads dim) := by
  have each : ∀ entry ∈ items.zipIdx, ∃ chunk : Tensor F,
      (do
        let block ← tensor.select0 entry.2
        return block.slice0 0 ((valid entry.1 : Nat) : Int)) = Except.ok chunk ∧
      chunk.shape = [valid entry.1, heads, dim] ∧
      chunk.data = (piece entry.1).take (valid entry.1 * (heads * dim)) := by
    intro entry member
    have here := List.mem_zipIdx_iff_getElem?.mp member
    obtain ⟨bound, _⟩ := List.getElem?_eq_some_iff.mp here
    obtain ⟨block, selected, blockShape, blockData⟩ := Tensor.select0_inside shape bound
    have own : block.data = piece entry.1 := by
      have total : [tokens, heads, dim].prod = tokens * (heads * dim) := by simp
      have cut := @rows_getElem? _ _ [tokens, heads, dim].prod _ tensor.data bound
      rw [total, data, rows_flatMap wide, List.getElem?_map, here] at cut
      rw [blockData, total, data]
      exact (Option.some.inj cut).symm
    have room : 0 + valid entry.1 ≤ tokens := by
      have bounded := inside entry.1 (List.mem_of_getElem? here)
      omega
    have sliced := Tensor.slice0_inside blockShape room
    simp only [Nat.cast_zero, Int.zero_add, Nat.zero_mul, List.drop_zero] at sliced
    obtain ⟨slicedShape, slicedData⟩ := sliced
    refine ⟨block.slice0 0 (valid entry.1 : Int), by rw [selected]; rfl, slicedShape, ?_⟩
    rw [slicedData, own]
    simp
  obtain ⟨chunks, chunksOk, cut⟩ := exists_mapM each
  have cutItems : List.Forall₂ (fun item (chunk : Tensor F) =>
      chunk.shape = [valid item, heads, dim] ∧
        chunk.data = (piece item).take (valid item * (heads * dim))) items chunks := by
    have fronts : items = items.zipIdx.map Prod.fst := by simp
    rw [fronts, List.forall₂_map_left_iff]
    exact cut
  obtain ⟨flat, flatOk, flatSpec⟩ := cat_valid nonempty wide inside cutItems
  refine ⟨flat, ?_, flatSpec⟩
  unfold flattenValid
  rw [List.zipIdx_map, List.mapM_map]
  exact bind_eq_ok.mpr ⟨chunks, chunksOk, flatOk⟩

end Flatten

/-- A specification whose codes fill whole bytes, as `quantize_tensor` requires. -/
structure CacheSpec.Packs (spec : CacheSpec) : Prop where
  valid : spec.validate = .ok ()
  group_pos : 0 < spec.groupSize
  bytes : 8 ∣ spec.headDim * spec.bits

/-- The dimensions of such a specification. -/
structure CacheSpec.Cuts (spec : CacheSpec) (tokens heads dim width groups groupSize : Nat) :
    Prop where
  packedShape : spec.packedShape = [tokens, heads, width].map Int.ofNat
  scaleShape : spec.scaleShape = [tokens, heads, groups].map Int.ofNat
  blockShape : spec.blockShape = [tokens, heads, dim].map Int.ofNat
  packedDim : ((dim : Int) * spec.bits).fdiv 8 = width
  group_eq : spec.groupSize = groupSize
  bits : ¬ (spec.bits ≠ 2 ∧ spec.bits ≠ 4)
  bytes : dim = width * perByte spec.bits
  grouped : dim = groups * groupSize
  tokens_pos : 0 < tokens
  heads_pos : 0 < heads
  dim_pos : 0 < dim
  group_pos : 0 < groupSize

theorem CacheSpec.Packs.cuts {spec : CacheSpec} (packs : spec.Packs) :
    ∃ tokens heads dim width groups groupSize,
      spec.Cuts tokens heads dim width groups groupSize ∧ spec.blockTokens = tokens ∧
        spec.kvHeads = heads ∧ spec.headDim = dim := by
  obtain ⟨⟨_, headsPos, dimPos, tokensPos⟩, bits, _, divides⟩ :=
    CacheSpec.validate_eq_ok.mp packs.valid
  obtain ⟨tokens, tokensEq⟩ := Int.eq_ofNat_of_zero_le (Int.le_of_lt tokensPos)
  obtain ⟨heads, headsEq⟩ := Int.eq_ofNat_of_zero_le (Int.le_of_lt headsPos)
  obtain ⟨dim, dimEq⟩ := Int.eq_ofNat_of_zero_le (Int.le_of_lt dimPos)
  obtain ⟨groupSize, groupEq⟩ := Int.eq_ofNat_of_zero_le (Int.le_of_lt packs.group_pos)
  have groupPos : 0 < groupSize := by
    have positive := packs.group_pos
    omega
  obtain ⟨groups, grouped⟩ : groupSize ∣ dim := by
    rw [Int.fmod_eq_emod_of_nonneg _ (Int.le_of_lt packs.group_pos), dimEq, groupEq]
      at divides
    exact_mod_cast Int.dvd_of_emod_eq_zero divides
  obtain ⟨width, bytes, packedDim⟩ : ∃ width : Nat, dim = width * perByte spec.bits ∧
      ((dim : Int) * spec.bits).fdiv 8 = width := by
    obtain ⟨quotient, whole⟩ := packs.bytes
    rw [dimEq] at whole
    have nonnegative : 0 ≤ quotient := by
      rcases bits with two | four
      · rw [two] at whole
        omega
      · rw [four] at whole
        omega
    refine ⟨quotient.toNat, ?_, ?_⟩
    · rcases bits with two | four
      · rw [two] at whole ⊢
        change dim = quotient.toNat * 4
        omega
      · rw [four] at whole ⊢
        change dim = quotient.toNat * 2
        omega
    · rw [whole, Int.mul_fdiv_cancel_left _ (by norm_num)]
      omega
  have groupsEq : spec.groups = groups := by
    rw [CacheSpec.groups, dimEq, groupEq, grouped]
    push_cast
    exact Int.mul_fdiv_cancel_left _ (by omega)
  refine ⟨tokens, heads, dim, width, groups, groupSize, ?_, tokensEq, headsEq, dimEq⟩
  exact
    { packedShape := by
        simp [CacheSpec.packedShape, CacheSpec.packedDim, tokensEq, headsEq, dimEq, packedDim]
      scaleShape := by simp [CacheSpec.scaleShape, tokensEq, headsEq, groupsEq]
      blockShape := by simp [CacheSpec.blockShape, tokensEq, headsEq, dimEq]
      packedDim := packedDim
      group_eq := groupEq
      bits := by omega
      bytes := bytes
      grouped := by rw [grouped, Nat.mul_comm]
      tokens_pos := by omega
      heads_pos := by omega
      dim_pos := by omega
      group_pos := groupPos }

/-- A quantized tensor with these dimensions. -/
structure QuantizedTensor.Cut (q : QuantizedTensor) (bits : Int)
    (tokens heads dim width groups groupSize : Nat) : Prop where
  packed : q.packed.shape = [tokens, heads, width]
  scales : q.scales.shape = [tokens, heads, groups]
  original : q.originalShape = [tokens, heads, dim]
  bits_eq : q.bits = bits
  group_eq : q.groupSize = groupSize

/-- A packed block of the specification with a permitted token count.  The count goes into an
`int32` tensor; those of records do. -/
structure PackedKVBlock.Counted (spec : CacheSpec) (block : PackedKVBlock) : Prop where
  shaped : block.Shaped spec
  valid_pos : 1 ≤ block.validTokens
  valid_le : block.validTokens ≤ spec.blockTokens
  int32 : FitsInt32 block.validTokens

/-- A packed block of the specification, possibly empty. -/
structure PackedKVBlock.Filled (spec : CacheSpec) (block : PackedKVBlock) : Prop where
  shaped : block.Shaped spec
  valid_nonneg : 0 ≤ block.validTokens
  valid_le : block.validTokens ≤ spec.blockTokens
  int32 : FitsInt32 block.validTokens

theorem PackedKVBlock.Counted.filled {spec : CacheSpec} {block : PackedKVBlock}
    (counted : block.Counted spec) : block.Filled spec := by
  have positive := counted.valid_pos
  exact ⟨counted.shaped, by omega, counted.valid_le, counted.int32⟩

section Values

variable (F : Type) [arith : DequantArith F]

/-- The dequantized values in order. -/
def QuantizedTensor.values (q : QuantizedTensor) : List F :=
  flatValues q.bits q.groupSize.toNat q.packed.data q.scales.data

/-- The heads of the first `valid` tokens. -/
def QuantizedTensor.validHeads (heads dim valid : Nat) (q : QuantizedTensor) :
    List (List (List F)) :=
  (rows valid (heads * dim) (q.values F)).map (rows heads dim)

/-- The valid tokens of a block. -/
def PackedKVBlock.tokens (heads dim : Nat) (block : PackedKVBlock) : List (Token F) :=
  (block.key.validHeads F heads dim block.validTokens.toNat).zip
    (block.value.validHeads F heads dim block.validTokens.toNat)

end Values

section Cuts

variable {spec : CacheSpec} {tokens heads dim width groups groupSize : Nat}

theorem PackedKVBlock.Shaped.cut {block : PackedKVBlock} (shaped : block.Shaped spec)
    (cuts : spec.Cuts tokens heads dim width groups groupSize) :
    block.key.Cut spec.bits tokens heads dim width groups groupSize ∧
      block.value.Cut spec.bits tokens heads dim width groups groupSize := by
  have back : ∀ shape : List Nat, (shape.map Int.ofNat).map Int.toNat = shape := by
    intro shape
    rw [List.map_map]
    exact List.map_id shape
  constructor
  · exact ⟨by rw [shaped.keyPacked, cuts.packedShape, back],
      by rw [shaped.keyScales, cuts.scaleShape, back],
      by rw [shaped.keyShape, cuts.blockShape, back], shaped.keyBits,
      shaped.keyGroup.trans cuts.group_eq⟩
  · exact ⟨by rw [shaped.valuePacked, cuts.packedShape, back],
      by rw [shaped.valueScales, cuts.scaleShape, back],
      by rw [shaped.valueShape, cuts.blockShape, back], shaped.valueBits,
      shaped.valueGroup.trans cuts.group_eq⟩

theorem QuantizedTensor.Cut.even {q : QuantizedTensor}
    (cut : q.Cut spec.bits tokens heads dim width groups groupSize)
    (cuts : spec.Cuts tokens heads dim width groups groupSize) :
    q.packed.data.length * perByte spec.bits = q.scales.data.length * groupSize := by
  have same : width * perByte spec.bits = groups * groupSize := by
    rw [← cuts.bytes, cuts.grouped]
  rw [q.packed.size_eq, q.scales.size_eq, cut.packed, cut.scales]
  simp only [List.prod_cons, List.prod_nil, Nat.mul_one, Nat.mul_assoc, same]

theorem QuantizedTensor.Cut.values_length {F : Type} [arith : DequantArith F]
    {q : QuantizedTensor} (cut : q.Cut spec.bits tokens heads dim width groups groupSize)
    (cuts : spec.Cuts tokens heads dim width groups groupSize) :
    (q.values F).length = tokens * (heads * dim) := by
  have size := flatValues_length (F := F) (cut.even cuts)
  rw [QuantizedTensor.values, cut.bits_eq, cut.group_eq, Int.toNat_natCast, size,
    q.packed.size_eq, cut.packed, cuts.bytes]
  simp only [List.prod_cons, List.prod_nil, Nat.mul_one, Nat.mul_assoc]

end Cuts

section Flat

variable {F : Type} [arith : AttentionArith F] {spec : CacheSpec}
  {tokens heads dim width groups groupSize : Nat}
  (cuts : spec.Cuts tokens heads dim width groups groupSize)
  {blocks : List PackedKVBlock} (nonempty : blocks ≠ [])
  (filled : ∀ block ∈ blocks, block.Filled spec) {side : PackedKVBlock → QuantizedTensor}
  (cut : ∀ block ∈ blocks, (side block).Cut spec.bits tokens heads dim width groups groupSize)

/-- The number of valid tokens of some blocks. -/
def validTotal (blocks : List PackedKVBlock) : Nat :=
  (blocks.map fun block => block.validTokens.toNat).sum

theorem PackedKVBlock.Filled.natCast {block : PackedKVBlock} (filled : block.Filled spec) :
    ((block.validTokens.toNat : Nat) : Int) = block.validTokens := by
  have nonnegative := filled.valid_nonneg
  omega

include cuts in
theorem PackedKVBlock.Filled.toNat_le {block : PackedKVBlock}
    (filled : block.Filled spec) : block.validTokens.toNat ≤ tokens := by
  have bounded := filled.valid_le
  have shape := cuts.blockShape
  simp only [CacheSpec.blockShape, List.map_cons, List.cons.injEq] at shape
  have blockTokens : spec.blockTokens = tokens := shape.1
  omega

include cuts nonempty cut in
/-- The stacked codes and scales give the values of all blocks. -/
theorem dequantizePacked_stack {packed : Tensor UInt8} {scales : Tensor UInt16}
    (packedOk : Tensor.stack (blocks.map fun block => (side block).packed) = .ok packed)
    (scalesOk : Tensor.stack (blocks.map fun block => (side block).scales) = .ok scales) :
    ∃ values : Tensor F,
      dequantizePacked spec.bits spec.groupSize dim packed scales = .ok values ∧
      values.shape = [blocks.length, tokens, heads, dim] ∧
      values.data = blocks.flatMap fun block => (side block).values F := by
  have packedShapes : ∀ tensor ∈ blocks.map fun block => (side block).packed,
      tensor.shape = [tokens, heads, width] := by
    intro tensor member
    obtain ⟨block, present, rfl⟩ := List.mem_map.mp member
    exact (cut block present).packed
  have scalesShapes : ∀ tensor ∈ blocks.map fun block => (side block).scales,
      tensor.shape = [tokens, heads, groups] := by
    intro tensor member
    obtain ⟨block, present, rfl⟩ := List.mem_map.mp member
    exact (cut block present).scales
  obtain ⟨_, stackedOk, packedShape, packedData⟩ :=
    Tensor.stack_total (by simpa using nonempty) packedShapes
  obtain rfl := Except.ok.inj (stackedOk.symm.trans packedOk)
  obtain ⟨_, stackedOk, scalesShape, scalesData⟩ :=
    Tensor.stack_total (by simpa using nonempty) scalesShapes
  obtain rfl := Except.ok.inj (stackedOk.symm.trans scalesOk)
  rw [List.length_map] at packedShape scalesShape
  rw [List.flatMap_map] at packedData scalesData
  have front : [blocks.length, tokens, heads].prod ≠ 0 := by
    have positive := List.length_pos_iff.mpr nonempty
    simp [nonempty, Nat.ne_of_gt cuts.tokens_pos, Nat.ne_of_gt cuts.heads_pos]
  obtain ⟨values, valuesOk, valuesShape, valuesData⟩ :=
    dequantizePacked_spec (F := F) cuts.bits front packedShape scalesShape cuts.bytes
      cuts.grouped
  refine ⟨values, by rw [cuts.group_eq]; exact valuesOk, valuesShape, ?_⟩
  rw [valuesData, packedData, scalesData,
    flatValues_flatMap fun block member => (cut block member).even cuts]
  refine List.flatMap_congr ?_
  intro block member
  rw [QuantizedTensor.values, (cut block member).bits_eq, (cut block member).group_eq,
    Int.toNat_natCast]

include cuts nonempty filled cut in
theorem flattenValid_stack {values : Tensor F}
    (shape : values.shape = [blocks.length, tokens, heads, dim])
    (data : values.data = blocks.flatMap fun block => (side block).values F) :
    ∃ flat, flattenValid values (blocks.map PackedKVBlock.validTokens) = .ok flat ∧
      flat.shape = [validTotal blocks, heads, dim] ∧
      flat.cube (validTotal blocks) heads dim = blocks.flatMap fun block =>
        (side block).validHeads F heads dim block.validTokens.toNat := by
  have same : blocks.map PackedKVBlock.validTokens =
      blocks.map fun block => ((block.validTokens.toNat : Nat) : Int) :=
    List.map_congr_left fun block member => ((filled block member).natCast).symm
  rw [same]
  exact flattenValid_spec nonempty shape data
    (fun block member => (cut block member).values_length cuts)
    (fun block member => (filled block member).toNat_le cuts)

include cuts nonempty filled cut in
/-- The valid tokens dequantized block by block. -/
theorem dequantize_blocks :
    ∃ flat : Tensor F,
      (do
        let chunks ← blocks.mapM fun block => do
          let restored ← dequantizeTensor F id (side block)
          return restored.slice0 0 block.validTokens
        Tensor.cat chunks) = Except.ok flat ∧
      flat.shape = [validTotal blocks, heads, dim] ∧
      flat.cube (validTotal blocks) heads dim = blocks.flatMap fun block =>
        (side block).validHeads F heads dim block.validTokens.toNat := by
  have each : ∀ block ∈ blocks, ∃ chunk : Tensor F,
      (do
        let restored ← dequantizeTensor F id (side block)
        return restored.slice0 0 block.validTokens) = Except.ok chunk ∧
      chunk.shape = [block.validTokens.toNat, heads, dim] ∧
      chunk.data =
        ((side block).values F).take (block.validTokens.toNat * (heads * dim)) := by
    intro block member
    have own := cut block member
    have front : [tokens, heads].prod ≠ 0 := by
      simp [Nat.ne_of_gt cuts.tokens_pos, Nat.ne_of_gt cuts.heads_pos]
    obtain ⟨restored, restoredOk, restoredShape, restoredData⟩ :=
      dequantizeTensor_spec (F := F) (by rw [own.bits_eq]; exact cuts.bits) front own.packed
        own.scales own.original own.group_eq cuts.group_pos
        (by rw [own.bits_eq]; exact cuts.bytes) cuts.grouped
    have room : 0 + block.validTokens.toNat ≤ tokens := by
      have bounded := (filled block member).toNat_le cuts
      omega
    have sliced := Tensor.slice0_inside restoredShape room
    simp only [Nat.cast_zero, Int.zero_add, Nat.zero_mul, List.drop_zero,
      (filled block member).natCast] at sliced
    obtain ⟨slicedShape, slicedData⟩ := sliced
    refine ⟨restored.slice0 0 block.validTokens, by rw [restoredOk]; rfl, slicedShape, ?_⟩
    rw [slicedData, restoredData, QuantizedTensor.values, own.group_eq, Int.toNat_natCast]
    simp
  obtain ⟨chunks, chunksOk, pieces⟩ := exists_mapM each
  obtain ⟨flat, flatOk, flatSpec⟩ := cat_valid nonempty
    (fun block member => (cut block member).values_length cuts)
    (fun block member => (filled block member).toNat_le cuts) pieces
  exact ⟨flat, bind_eq_ok.mpr ⟨chunks, chunksOk, flatOk⟩, flatSpec⟩

end Flat

end KVSSD

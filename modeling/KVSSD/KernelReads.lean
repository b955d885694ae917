import KVSSD.CudaOverflow
import KVSSD.KernelRows
import KVSSD.TritonAttention

/-!
# What validated batches let the kernels read

The indices that a kernel forms on a batch that passes the checks of its host lie in the
rows they are meant for exactly when the batch fits: the tokens that the kernel visits are
covered, its integers hold the indices and, for Triton, every dimension has its group.
-/

namespace KVSSD

open KVSSD.Python KVSSD.Quant KVSSD.TwosComplement

/-- Every read of the CUDA kernel, for each query head, block, valid token and dimension of
a thread, lies in its row; in particular no index overflows. -/
def Cuda.ReadsInside (batch : PackedBatch) (launch : Launch) : Prop :=
  ∀ head : Nat, head < launch.queryHeads → ∀ block ∈ List.range launch.blocks.toNat,
    ∀ valid, load batch.validTokens.data block = some valid →
    ∀ token ∈ List.range valid.toNat, ∀ tid < launch.lanes, ∀ dim ∈ Cuda.strided launch tid,
      ∃ kvHead : Nat, launch.kvHead head = some (kvHead : Int) ∧
        batch.Reads block token kvHead (Cuda.byteIndex launch kvHead block token dim)
          (Cuda.scaleIndex launch kvHead block token dim)

/-- Every read of the Triton kernel, for each query head, block, token and active lane, lies
in its row. -/
def Triton.ReadsInside (width : Nat) (batch : PackedBatch) (launch : Launch) : Prop :=
  ∀ head : Nat, head < launch.queryHeads → ∀ block ∈ List.range launch.blocks.toNat,
    ∀ token ∈ List.range launch.tokens.toNat, ∀ dim ∈ List.range launch.lanes,
      dim < launch.headDim →
      ∃ kvHead : Nat, launch.kvHead head = some (kvHead : Int) ∧
        batch.Reads block token kvHead
          (Triton.byteIndex (wrapped width) launch kvHead block token dim)
          (Triton.scaleIndex (wrapped width) launch kvHead block token dim)

/-- The condition for the CUDA kernel: every valid token is covered, and its rows end within
the first `2 ^ 31` items. -/
def Cuda.Fits (batch : PackedBatch) (shapes : BatchShapes) : Prop :=
  0 < shapes.queryHeads → 0 < shapes.headDim →
    ∀ position ∈ batch.validPositions shapes.blocks,
      shapes.Covers batch.bits position.1 position.2 ∧
      (position.1 * shapes.tokens + position.2 + 1) * shapes.kvHeads * shapes.packedDim ≤
        2 ^ 31 ∧
      (position.1 * shapes.tokens + position.2 + 1) * shapes.kvHeads * shapes.groups ≤ 2 ^ 31

/-- The condition for the Triton kernel: every token is covered, the integers hold the bases
of its rows, and every dimension has its group. -/
def Triton.Fits (width : Nat) (batch : PackedBatch) (shapes : BatchShapes) : Prop :=
  0 < shapes.queryHeads → 0 < shapes.headDim →
    ∀ block < shapes.blocks, ∀ token < shapes.tokens,
      shapes.Covers batch.bits block token ∧
      ((block * shapes.tokens + token + 1) * shapes.kvHeads - 1) * shapes.packedDim <
        2 ^ (width - 1) ∧
      ((block * shapes.tokens + token + 1) * shapes.kvHeads - 1) * shapes.groups <
        2 ^ (width - 1) ∧
      ∀ dim < shapes.headDim, 0 ≤ (dim : Int).tdiv batch.groupSize ∧
        (dim : Int).tdiv batch.groupSize < shapes.groups

section Cuda

variable {batch : PackedBatch} {shapes : BatchShapes} {lanes : Nat}

theorem PackedBatch.Validated.load_of_position (validated : batch.Validated shapes)
    {position : Nat × Nat} (member : position ∈ batch.validPositions shapes.blocks) :
    position.1 < shapes.blocks ∧ ∃ valid, load batch.validTokens.data position.1 = some valid ∧
      position.2 < valid.toNat := by
  obtain ⟨present, below⟩ := PackedBatch.mem_validPositions.mp member
  have inside := present
  rw [← validated.validTokens] at inside
  exact ⟨present, _, load_of_lt 0 inside, below⟩

theorem PackedBatch.position_of_load {block token : Nat} {valid : Int} {blocks : Nat}
    (present : block < blocks) (loaded : load batch.validTokens.data block = some valid)
    (below : token < valid.toNat) : (block, token) ∈ batch.validPositions blocks := by
  apply PackedBatch.mem_validPositions.mpr
  rw [load_natCast] at loaded
  have counted : batch.validAt block = valid.toNat := by
    simp [PackedBatch.validAt, loaded]
  exact ⟨present, by rwa [counted]⟩

theorem PackedBatch.Validated.last_head (validated : batch.Validated shapes)
    (some_head : 0 < shapes.queryHeads) {kvHead : Nat}
    (own : (shapes.launch batch lanes).kvHead (shapes.queryHeads - 1) = some (kvHead : Int)) :
    kvHead = shapes.kvHeads - 1 := by
  have shared := @Launch.kvHead_eq _ _ (shapes.queryHeads - 1) (shapes.launch batch lanes)
    rfl rfl validated.heads_pos validated.shared (by omega)
  rw [last_kvHead validated.heads_pos validated.shared some_head] at shared
  exact_mod_cast Option.some.inj (own.symm.trans shared)

theorem PackedBatch.Validated.groups_pos (validated : batch.Validated shapes)
    {block token head : Nat} {index : Int}
    (inside : batch.scalesK.InRow block token head index) : 0 < shapes.groups := by
  have lower := inside.lower
  have upper := inside.upper
  simp only [validated.scalesK, List.getD_cons_succ, List.getD_cons_zero] at lower upper
  omega

theorem PackedBatch.Validated.exists_group (validated : batch.Validated shapes)
    (cut : (shapes.groups : Int) = (shapes.headDim : Int).tdiv batch.groupSize)
    (nonempty : 0 < shapes.headDim) :
    ∃ groupSize : Nat, batch.groupSize = groupSize ∧ 0 < groupSize ∧
      shapes.headDim = shapes.groups * groupSize := by
  obtain ⟨count, whole⟩ := validated.grouped
  have quotient : (shapes.groups : Int) = count := by
    rw [cut, whole, Int.mul_tdiv_cancel_left _ validated.group_ne]
  rw [← quotient] at whole
  have positive : 0 < batch.groupSize := by
    by_contra negative
    have total : batch.groupSize * (shapes.groups : Int) ≤ 0 := by
      apply mul_nonpos_of_nonpos_of_nonneg
      · omega
      · exact Int.natCast_nonneg _
    omega
  obtain ⟨groupSize, size⟩ := Int.eq_ofNat_of_zero_le (Int.le_of_lt positive)
  refine ⟨groupSize, size, by omega, ?_⟩
  rw [size, Int.mul_comm] at whole
  exact_mod_cast whole

theorem Cuda.mem_strided {dim tid : Nat} (wide : shapes.headDim ≤ lanes) :
    dim ∈ Cuda.strided (shapes.launch batch lanes) tid ↔ dim = tid ∧ tid < shapes.headDim := by
  rw [@Cuda.strided_eq tid (shapes.launch batch lanes) wide]
  change dim ∈ (if tid < shapes.headDim then [tid] else []) ↔ _
  by_cases inside : tid < shapes.headDim
  · simp [inside]
  · simp [inside]

theorem Cuda.last_reads (validated : batch.Validated shapes) (wide : shapes.headDim ≤ lanes)
    (inside : Cuda.ReadsInside batch (shapes.launch batch lanes))
    (some_head : 0 < shapes.queryHeads) (nonempty : 0 < shapes.headDim)
    {position : Nat × Nat} (member : position ∈ batch.validPositions shapes.blocks) :
    batch.Reads position.1 position.2 (shapes.kvHeads - 1)
      (Cuda.byteIndex (shapes.launch batch lanes) (shapes.kvHeads - 1 : Nat) position.1
        position.2 (shapes.headDim - 1))
      (Cuda.scaleIndex (shapes.launch batch lanes) (shapes.kvHeads - 1 : Nat) position.1
        position.2 (shapes.headDim - 1)) := by
  obtain ⟨present, valid, loaded, below⟩ := validated.load_of_position member
  have last : shapes.headDim - 1 < shapes.headDim := by omega
  obtain ⟨kvHead, own, reads⟩ := inside (shapes.queryHeads - 1)
    (show ((shapes.queryHeads - 1 : Nat) : Int) < (shapes.queryHeads : Int) by omega)
    position.1 (List.mem_range.mpr present) valid loaded position.2
    (List.mem_range.mpr below) (shapes.headDim - 1) (Nat.lt_of_lt_of_le last wide)
    (shapes.headDim - 1) ((Cuda.mem_strided wide).mpr ⟨rfl, last⟩)
  obtain rfl := validated.last_head some_head own
  exact reads

theorem Cuda.fits_of_readsInside (validated : batch.Validated shapes)
    (cut : (shapes.groups : Int) = (shapes.headDim : Int).tdiv batch.groupSize)
    (wide : shapes.headDim ≤ lanes)
    (inside : Cuda.ReadsInside batch (shapes.launch batch lanes)) :
    Cuda.Fits batch shapes := by
  intro some_head nonempty position member
  have headsPos := validated.heads_pos
  have last : shapes.headDim - 1 < shapes.headDim := by omega
  obtain ⟨groupSize, size, groupPos, grouped⟩ := validated.exists_group cut nonempty
  obtain ⟨byteAt, scaleAt, byteEq, scaleEq, byteIn, _, scaleIn, _⟩ :=
    Cuda.last_reads validated wide inside some_head nonempty member
  obtain ⟨byteForm, byteBelow⟩ := Cuda.byteIndex_eq_some byteEq
  obtain ⟨group, divided, scaleForm, scaleBelow⟩ := Cuda.scaleIndex_eq_some scaleEq
  have groupEq : group = ((shapes.groups - 1 : Nat) : Int) := by
    have quotient := divide_natCast (shapes.headDim - 1) groupSize groupPos
    rw [last_div grouped nonempty, ← size] at quotient
    exact Option.some.inj (divided.symm.trans quotient)
  have byteNat : byteAt = ((rowOf shapes.tokens shapes.kvHeads position.1 position.2
      (shapes.kvHeads - 1) * shapes.packedDim +
        (shapes.headDim - 1) / perByte batch.bits : Nat) : Int) := by
    rw [byteForm]
    unfold rowOf
    push_cast
    rfl
  have scaleNat : scaleAt = ((rowOf shapes.tokens shapes.kvHeads position.1 position.2
      (shapes.kvHeads - 1) * shapes.groups + (shapes.groups - 1) : Nat) : Int) := by
    rw [scaleForm, groupEq]
    unfold rowOf
    push_cast
    rfl
  rw [byteNat] at byteIn byteBelow
  rw [scaleNat] at scaleIn scaleBelow
  have groupsPos := validated.groups_pos scaleIn
  have covers := covers_of_inRow validated nonempty (by omega) byteIn scaleIn
  have bytes : shapes.headDim = shapes.packedDim * perByte batch.bits := by
    rw [validated.packedDim_eq, Nat.div_mul_cancel covers.bytes]
  have packedPos : 0 < shapes.packedDim :=
    Nat.lt_of_le_of_lt (Nat.zero_le _) (validated.byte_lt covers last)
  rw [last_div bytes nonempty] at byteBelow
  refine ⟨covers, ?_, ?_⟩
  · apply last_index headsPos packedPos
    exact_mod_cast byteBelow
  · apply last_index headsPos groupsPos
    exact_mod_cast scaleBelow

theorem Cuda.readsInside_of_fits (validated : batch.Validated shapes)
    (cut : (shapes.groups : Int) = (shapes.headDim : Int).tdiv batch.groupSize)
    (wide : shapes.headDim ≤ lanes) (fits : Cuda.Fits batch shapes) :
    Cuda.ReadsInside batch (shapes.launch batch lanes) := by
  intro head inside block blockIn valid loaded token tokenIn tid _ dim dimIn
  have present : block < shapes.blocks := List.mem_range.mp blockIn
  have below := List.mem_range.mp tokenIn
  obtain ⟨rfl, narrow⟩ := (Cuda.mem_strided wide).mp dimIn
  have queried : head < shapes.queryHeads := Int.ofNat_lt.mp inside
  obtain ⟨covers, packed, scales⟩ := fits (by omega) (by omega) (block, token)
    (PackedBatch.position_of_load present loaded below)
  obtain ⟨groupSize, size, groupPos, grouped⟩ := validated.exists_group cut (by omega)
  have own := kvHead_lt validated.heads_pos validated.shared queried
  have group : dim / groupSize < shapes.groups := by
    apply Nat.div_lt_of_lt_mul
    rwa [Nat.mul_comm, ← grouped]
  have byte := validated.byte_lt covers narrow
  refine ⟨_, Launch.kvHead_eq rfl rfl validated.heads_pos validated.shared queried, ?_⟩
  apply covers.reads validated present own narrow group
  · exact Cuda.byteIndex_eq rfl rfl own rfl byte (index_lt own byte packed)
  · exact Cuda.scaleIndex_eq rfl rfl own rfl size groupPos group (index_lt own group scales)

end Cuda

section Triton

variable {batch : PackedBatch} {shapes : BatchShapes} {lanes width : Nat}

theorem rowOf_last {tokens heads block token : Nat} (positive : 0 < heads) :
    rowOf tokens heads block token (heads - 1) = (block * tokens + token + 1) * heads - 1 := by
  rw [Nat.add_mul, Nat.one_mul, rowOf]
  omega

theorem rowOf_le_last {tokens heads block token head : Nat} (own : head < heads) :
    rowOf tokens heads block token head ≤ (block * tokens + token + 1) * heads - 1 := by
  rw [Nat.add_mul, Nat.one_mul, rowOf]
  omega

namespace PackedBatch.Validated

variable {block token head : Nat} {index : Int}

theorem packed_lower (validated : batch.Validated shapes)
    (inside : batch.packedK.InRow block token head index) :
    ((rowOf shapes.tokens shapes.kvHeads block token head * shapes.packedDim : Nat) : Int) ≤
      index := by
  have lower := inside.lower
  rwa [validated.packedK] at lower

theorem scales_lower (validated : batch.Validated shapes)
    (inside : batch.scalesK.InRow block token head index) :
    ((rowOf shapes.scaleTokens shapes.scaleHeads block token head * shapes.groups : Nat) :
      Int) ≤ index := by
  have lower := inside.lower
  rwa [validated.scalesK] at lower

end PackedBatch.Validated

theorem Triton.byteIndex_shapes (block token kvHead dim : Nat) :
    Triton.byteIndex (wrapped width) (shapes.launch batch lanes) kvHead block token dim =
      some (wrapped width ((rowOf shapes.tokens shapes.kvHeads block token kvHead *
        shapes.packedDim : Nat) : Int) + (dim / perByte batch.bits : Nat)) := by
  rw [Triton.byteIndex_wrapped]
  unfold rowOf
  push_cast
  rfl

theorem Triton.scaleIndex_shapes (validated : batch.Validated shapes)
    (block token kvHead dim : Nat) :
    Triton.scaleIndex (wrapped width) (shapes.launch batch lanes) kvHead block token dim =
      some (wrapped width ((rowOf shapes.tokens shapes.kvHeads block token kvHead *
        shapes.groups : Nat) : Int) + (dim : Int).tdiv batch.groupSize) := by
  have divided : divide dim batch.groupSize = some ((dim : Int).tdiv batch.groupSize) :=
    if_neg validated.group_ne
  rw [Triton.scaleIndex_wrapped]
  change (divide dim batch.groupSize).map _ = _
  rw [divided]
  unfold rowOf
  push_cast
  rfl

theorem Triton.last_reads (validated : batch.Validated shapes) (wide : shapes.headDim ≤ lanes)
    (inside : Triton.ReadsInside width batch (shapes.launch batch lanes))
    (some_head : 0 < shapes.queryHeads) {block token dim : Nat} (present : block < shapes.blocks)
    (valid : token < shapes.tokens) (narrow : dim < shapes.headDim) :
    batch.packedK.InRow block token (shapes.kvHeads - 1)
        (wrapped width ((rowOf shapes.tokens shapes.kvHeads block token
          (shapes.kvHeads - 1) * shapes.packedDim : Nat) : Int) +
            (dim / perByte batch.bits : Nat)) ∧
      batch.scalesK.InRow block token (shapes.kvHeads - 1)
        (wrapped width ((rowOf shapes.tokens shapes.kvHeads block token
          (shapes.kvHeads - 1) * shapes.groups : Nat) : Int) +
            (dim : Int).tdiv batch.groupSize) := by
  obtain ⟨kvHead, own, byteAt, scaleAt, byteEq, scaleEq, byteIn, _, scaleIn, _⟩ :=
    inside (shapes.queryHeads - 1)
      (show ((shapes.queryHeads - 1 : Nat) : Int) < (shapes.queryHeads : Int) by omega)
      block (List.mem_range.mpr present) token (List.mem_range.mpr valid) dim
      (List.mem_range.mpr (Nat.lt_of_lt_of_le narrow wide))
      (show (dim : Int) < (shapes.headDim : Int) by omega)
  obtain rfl := validated.last_head some_head own
  rw [Triton.byteIndex_shapes] at byteEq
  rw [Triton.scaleIndex_shapes validated] at scaleEq
  rw [Option.some.inj byteEq, Option.some.inj scaleEq]
  exact ⟨byteIn, scaleIn⟩

theorem Triton.fits_of_readsInside (validated : batch.Validated shapes)
    (wide : shapes.headDim ≤ lanes)
    (inside : Triton.ReadsInside width batch (shapes.launch batch lanes)) :
    Triton.Fits width batch shapes := by
  intro some_head nonempty block present token valid
  have headsPos := validated.heads_pos
  obtain ⟨byteIn, scaleIn⟩ :=
    Triton.last_reads validated wide inside some_head present valid nonempty
  rw [Nat.zero_div, Nat.cast_zero, Int.add_zero] at byteIn
  rw [Nat.cast_zero, Int.zero_tdiv, Int.add_zero] at scaleIn
  have tokensLe : shapes.tokens ≤ shapes.scaleTokens := by
    obtain ⟨_, lastIn⟩ := Triton.last_reads validated wide inside some_head present
      (show shapes.tokens - 1 < shapes.tokens by omega) nonempty
    have lastToken := lastIn.valid
    rw [validated.scalesK] at lastToken
    change shapes.tokens - 1 < shapes.scaleTokens at lastToken
    omega
  have headsLe : shapes.kvHeads ≤ shapes.scaleHeads := by
    have lastHead := scaleIn.own
    rw [validated.scalesK] at lastHead
    change shapes.kvHeads - 1 < shapes.scaleHeads at lastHead
    omega
  have rowsLe : rowOf shapes.tokens shapes.kvHeads block token (shapes.kvHeads - 1) ≤
      rowOf shapes.scaleTokens shapes.scaleHeads block token (shapes.kvHeads - 1) := by
    unfold rowOf
    gcongr
  have packedHeld := lt_of_le_wrapped (validated.packed_lower byteIn)
  have scalesHeld := lt_of_le_wrapped
    (Int.le_trans (Int.ofNat_le.mpr (Nat.mul_le_mul_right shapes.groups rowsLe))
      (validated.scales_lower scaleIn))
  rw [wrapped_of_lt scalesHeld] at scaleIn
  obtain ⟨lastByte, _⟩ := Triton.last_reads validated wide inside some_head present valid
    (show shapes.headDim - 1 < shapes.headDim by omega)
  rw [wrapped_of_lt packedHeld, ← Nat.cast_add] at lastByte
  have covers :=
    covers_of_inRow validated nonempty (validated.groups_pos scaleIn) lastByte scaleIn
  rw [rowOf_last headsPos] at packedHeld scalesHeld
  refine ⟨covers, packedHeld, scalesHeld, ?_⟩
  intro dim narrow
  obtain ⟨_, group⟩ := Triton.last_reads validated wide inside some_head present valid narrow
  have lower := group.lower
  have upper := group.upper
  simp only [validated.scalesK, List.getD_cons_zero, List.getD_cons_succ] at lower upper
  rw [← covers.rowOf_eq, rowOf_last headsPos, wrapped_of_lt scalesHeld] at lower upper
  push_cast at lower upper
  constructor
  · omega
  · omega

theorem Triton.readsInside_of_fits (validated : batch.Validated shapes)
    (fits : Triton.Fits width batch shapes) :
    Triton.ReadsInside width batch (shapes.launch batch lanes) := by
  intro head inside block blockIn token tokenIn dim _ dimIn
  have present : block < shapes.blocks := List.mem_range.mp blockIn
  have valid : token < shapes.tokens := List.mem_range.mp tokenIn
  have queried : head < shapes.queryHeads := Int.ofNat_lt.mp inside
  have narrow : dim < shapes.headDim := Int.ofNat_lt.mp dimIn
  obtain ⟨covers, packed, scales, groups⟩ :=
    fits (by omega) (by omega) block present token valid
  obtain ⟨nonnegative, below⟩ := groups dim narrow
  obtain ⟨group, quotient⟩ := Int.eq_ofNat_of_zero_le nonnegative
  have own := kvHead_lt validated.heads_pos validated.shared queried
  have last := @rowOf_le_last shapes.tokens _ block token _ own
  have packedHeld := Nat.lt_of_le_of_lt (Nat.mul_le_mul_right shapes.packedDim last) packed
  have scalesHeld := Nat.lt_of_le_of_lt (Nat.mul_le_mul_right shapes.groups last) scales
  refine ⟨_, Launch.kvHead_eq rfl rfl validated.heads_pos validated.shared queried, ?_⟩
  apply @BatchShapes.Covers.reads _ _ _ _ _ dim covers validated present own narrow group
  · omega
  · rw [Triton.byteIndex_shapes, wrapped_of_lt packedHeld, Nat.cast_add]
  · rw [Triton.scaleIndex_shapes validated, wrapped_of_lt scalesHeld, quotient, Nat.cast_add]

end Triton

section Both

variable {F : Type} {query : Tensor F} {batch : PackedBatch} {width : Nat}

theorem Cuda.readsInside_launch (sized : (batch.shapes query).Sized batch.groupSize)
    {launch : Launch} (passes : Cuda.CudaExtensionBackend.run query batch = .ok launch) :
    Cuda.ReadsInside batch launch ↔ Cuda.Fits batch (batch.shapes query) := by
  obtain ⟨validate, _, cut, rfl⟩ := (Cuda.run_eq_ok_iff sized).mp passes
  have validated := PackedBatch.validated validate
  obtain ⟨wide, _⟩ := le_powerAtLeast (batch.shapes query).headDim 5
  constructor
  · exact Cuda.fits_of_readsInside validated cut wide
  · exact Cuda.readsInside_of_fits validated cut wide

theorem Triton.readsInside_launch {launch : Launch}
    (passes : Triton.TritonAttentionBackend.run query batch = .ok launch) :
    Triton.ReadsInside width batch launch ↔ Triton.Fits width batch (batch.shapes query) := by
  obtain ⟨validate, _, _, rfl⟩ := Triton.run_eq_ok_iff.mp passes
  have validated := PackedBatch.validated validate
  obtain ⟨wide, _⟩ := le_powerAtLeast (batch.shapes query).headDim 0
  constructor
  · exact Triton.fits_of_readsInside validated wide
  · exact Triton.readsInside_of_fits validated

/-- On a batch that passes the checks of a host, the kernel reads inside the rows exactly
when the batch fits; for the CUDA host, when the sizes that it narrows are `int`s. -/
theorem kernel_reads_inside (query : Tensor F) (batch : PackedBatch) (width : Nat) :
    (∀ launch, Cuda.CudaExtensionBackend.run query batch = .ok launch →
      (batch.shapes query).Sized batch.groupSize →
        (Cuda.ReadsInside batch launch ↔ Cuda.Fits batch (batch.shapes query))) ∧
      ∀ launch, Triton.TritonAttentionBackend.run query batch = .ok launch →
        (Triton.ReadsInside width batch launch ↔
          Triton.Fits width batch (batch.shapes query)) := by
  constructor
  · intro launch passes sized
    exact Cuda.readsInside_launch sized passes
  · intro launch passes
    exact Triton.readsInside_launch passes

theorem kernel_reads_inside_tiny : ∃ cuda triton,
    Cuda.CudaExtensionBackend.run (Tensor.full [2, 2] 3) Cuda.tinyBatch = .ok cuda ∧
      Cuda.ReadsInside Cuda.tinyBatch cuda ∧
    Triton.TritonAttentionBackend.run (Tensor.full [2, 2] 3) Cuda.tinyBatch = .ok triton ∧
      Triton.ReadsInside 32 Cuda.tinyBatch triton := by
  have covers : ∀ block < 2, ∀ token < 2,
      (Cuda.tinyBatch.shapes (Tensor.full [2, 2] 3)).Covers 4 block token := by
    intro block blockInside token tokenInside
    have places : (block = 0 ∨ block = 1) ∧ (token = 0 ∨ token = 1) := by omega
    obtain ⟨rfl | rfl, rfl | rfl⟩ := places <;> constructor <;> decide
  have sized : (Cuda.tinyBatch.shapes (Tensor.full [2, 2] 3)).Sized 2 := by
    constructor <;> decide
  obtain ⟨cudaReads, tritonReads⟩ :=
    kernel_reads_inside (Tensor.full [2, 2] 3) Cuda.tinyBatch 32
  have launched := (Cuda.run_eq_ok_iff sized).mpr ⟨rfl, by decide, by decide, rfl⟩
  refine ⟨_, _, launched, (cudaReads _ launched sized).mpr ?_, rfl, (tritonReads _ rfl).mpr ?_⟩
  · intro _ _ position member
    change position ∈ Cuda.tinyBatch.validPositions 2 at member
    rw [Cuda.validPositions_tinyBatch] at member
    have inside : position.1 < 2 ∧ position.2 < 2 := by
      revert position
      decide
    refine ⟨covers _ inside.1 _ inside.2, ?_, ?_⟩
    · change (position.1 * 2 + position.2 + 1) * 1 * 1 ≤ 2 ^ 31
      omega
    · change (position.1 * 2 + position.2 + 1) * 1 * 1 ≤ 2 ^ 31
      omega
  · intro _ _ block present token valid
    change block < 2 at present
    change token < 2 at valid
    refine ⟨covers block present token valid, ?_, ?_, ?_⟩
    · change ((block * 2 + token + 1) * 1 - 1) * 1 < 2 ^ 31
      omega
    · change ((block * 2 + token + 1) * 1 - 1) * 1 < 2 ^ 31
      omega
    · decide

/-- A batch whose scales have no tokens, and one whose first block counts a token too many. -/
def emptyScales : PackedBatch :=
  { Cuda.tinyBatch with
    scalesK := Tensor.full [2, 0, 1, 1] 0
    scalesV := Tensor.full [2, 0, 1, 1] 0 }

def overfullBlock : PackedBatch :=
  { Cuda.tinyBatch with validTokens := Tensor.ofList [3, 1] }

/-- Both hosts accept scales without tokens, and the CUDA host the count of a token that is
not there. -/
theorem unchecked_shapes_read_outside :
    (∃ launch, Cuda.CudaExtensionBackend.run (Tensor.full [2, 2] 3) emptyScales = .ok launch ∧
      ¬ Cuda.ReadsInside emptyScales launch) ∧
    (∃ launch,
      Triton.TritonAttentionBackend.run (Tensor.full [2, 2] 3) emptyScales = .ok launch ∧
      ¬ Triton.ReadsInside 32 emptyScales launch) ∧
    ∃ launch, Cuda.CudaExtensionBackend.run (Tensor.full [2, 2] 3) overfullBlock = .ok launch ∧
      ¬ Cuda.ReadsInside overfullBlock launch := by
  have emptySized : (emptyScales.shapes (Tensor.full [2, 2] 3)).Sized 2 := by
    constructor <;> decide
  have overfullSized : (overfullBlock.shapes (Tensor.full [2, 2] 3)).Sized 2 := by
    constructor <;> decide
  have emptyLaunched := (Cuda.run_eq_ok_iff emptySized).mpr ⟨rfl, by decide, by decide, rfl⟩
  have overfullLaunched :=
    (Cuda.run_eq_ok_iff overfullSized).mpr ⟨rfl, by decide, by decide, rfl⟩
  refine ⟨⟨_, emptyLaunched, ?_⟩, ⟨_, rfl, ?_⟩, ⟨_, overfullLaunched, ?_⟩⟩
  · intro inside
    have fits := (Cuda.readsInside_launch emptySized emptyLaunched).mp inside
    obtain ⟨covers, _⟩ := fits (by decide) (by decide) (0, 0) (by decide)
    exact absurd covers.scaleToken (by decide)
  · intro inside
    have fits := (@Triton.readsInside_launch _ (Tensor.full [2, 2] 3) _ _ _ rfl).mp inside
    obtain ⟨covers, _⟩ := fits (by decide) (by decide) 0 (by decide) 0 (by decide)
    exact absurd covers.scaleToken (by decide)
  · intro inside
    have fits := (Cuda.readsInside_launch overfullSized overfullLaunched).mp inside
    obtain ⟨covers, _⟩ := fits (by decide) (by decide) (0, 2) (by decide)
    exact absurd covers.valid (by decide)

end Both

end KVSSD

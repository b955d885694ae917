import KVSSD.CudaAttention

/-!
# When the CUDA kernel is exact

The kernel computes flattened indices in `int`.  On a batch whose sizes are `int`s it
agrees with the reference if and only if the rows of the valid tokens and the query
end within the first `2 ^ 31` items of their tensors: otherwise an index overflows.
-/

namespace KVSSD.Cuda

open KVSSD.Python KVSSD.Quant KVSSD.Loops

section Defined

variable {launch : Launch} {kvHead : Int} {block token dim : Nat}

theorem rowBase_eq_some {width base : Int}
    (defined : launch.rowBase int width block token kvHead = some base) :
    base = ((block * launch.tokens + token) * launch.kvHeads + kvHead) * width := by
  obtain ⟨_, first, defined⟩ := Option.bind_eq_some_iff.mp defined
  obtain ⟨_, second, defined⟩ := Option.bind_eq_some_iff.mp defined
  obtain ⟨_, third, defined⟩ := Option.bind_eq_some_iff.mp defined
  obtain ⟨_, fourth, fifth⟩ := Option.bind_eq_some_iff.mp defined
  obtain ⟨rfl, _⟩ := int_eq_some first
  obtain ⟨rfl, _⟩ := int_eq_some second
  obtain ⟨rfl, _⟩ := int_eq_some third
  obtain ⟨rfl, _⟩ := int_eq_some fourth
  exact (int_eq_some fifth).1

theorem byteIndex_eq_some {index : Int}
    (defined : byteIndex launch kvHead block token dim = some index) :
    index = ((block * launch.tokens + token) * launch.kvHeads + kvHead) * launch.packedDim +
      (dim / perByte launch.bits : Nat) ∧ index < 2 ^ 31 := by
  obtain ⟨_, based, total⟩ := Option.bind_eq_some_iff.mp defined
  obtain rfl := rowBase_eq_some based
  obtain ⟨rfl, below⟩ := int_eq_some total
  exact ⟨rfl, below⟩

theorem scaleIndex_eq_some {index : Int}
    (defined : scaleIndex launch kvHead block token dim = some index) :
    ∃ group, divide dim launch.groupSize = some group ∧
      index = ((block * launch.tokens + token) * launch.kvHeads + kvHead) * launch.groups +
        group ∧ index < 2 ^ 31 := by
  obtain ⟨_, based, rest⟩ := Option.bind_eq_some_iff.mp defined
  obtain ⟨group, grouped, total⟩ := Option.bind_eq_some_iff.mp rest
  obtain rfl := rowBase_eq_some based
  obtain ⟨rfl, below⟩ := int_eq_some total
  exact ⟨group, grouped, rfl, below⟩

theorem indices_of_value {F : Type} [KernelArith F] {packed : Tensor UInt8}
    {scales : Tensor UInt16} {result : F}
    (defined : value launch packed scales kvHead block token dim = some result) :
    ∃ byteAt scaleAt, byteIndex launch kvHead block token dim = some byteAt ∧
      scaleIndex launch kvHead block token dim = some scaleAt := by
  obtain ⟨_, byteAt, defined⟩ := Option.bind_eq_some_iff.mp defined
  obtain ⟨_, _, defined⟩ := Option.bind_eq_some_iff.mp defined
  obtain ⟨_, scaleAt, _⟩ := Option.bind_eq_some_iff.mp defined
  exact ⟨_, _, byteAt, scaleAt⟩

theorem indices_of_partialDot {F : Type} [KernelArith F] {query : Tensor F}
    {batch : PackedBatch} {queryHead tid : Nat} (member : dim ∈ strided launch tid) {sum : F}
    (defined : partialDot query batch launch queryHead kvHead block token tid = some sum) :
    (∃ byteAt scaleAt, byteIndex launch kvHead block token dim = some byteAt ∧
      scaleIndex launch kvHead block token dim = some scaleAt) ∧
      queryHead * launch.headDim + dim < 2 ^ 31 := by
  obtain ⟨_, _, round⟩ := exists_of_foldlM defined member
  obtain ⟨_, read, round⟩ := Option.bind_eq_some_iff.mp round
  obtain ⟨_, row, round⟩ := Option.bind_eq_some_iff.mp round
  obtain ⟨_, index, _⟩ := Option.bind_eq_some_iff.mp round
  obtain ⟨rfl, _⟩ := int_eq_some row
  exact ⟨indices_of_value read, (int_eq_some index).2⟩

end Defined

section Overflow

variable {batch : PackedBatch} {query : Tensor ℝ} {sizes : BatchSizes} {scale : ℝ}
  {lanes block token head dim : Nat}

theorem indices_lt {F : Type} [KernelArith F] {query : Tensor F}
    (positive : 0 < sizes.groupSize) (wide : sizes.headDim ≤ lanes)
    (inside : dim < sizes.headDim) {queryHead : Nat} {sum : F}
    (defined : partialDot query batch (sizes.launch lanes) queryHead head block token dim =
      some sum) :
    sizes.row block token head * sizes.packedDim + dim / perByte sizes.bits < 2 ^ 31 ∧
      sizes.row block token head * sizes.groups + dim / sizes.groupSize < 2 ^ 31 ∧
      queryHead * sizes.headDim + dim < 2 ^ 31 := by
  have member : dim ∈ strided (sizes.launch lanes) dim := by
    rw [strided_launch wide, if_pos inside]
    exact List.mem_singleton.mpr rfl
  obtain ⟨⟨_, _, byteAt, scaleAt⟩, queryAt⟩ := indices_of_partialDot member defined
  obtain ⟨rfl, byteBelow⟩ := byteIndex_eq_some byteAt
  obtain ⟨_, grouped, rfl, scaleBelow⟩ := scaleIndex_eq_some scaleAt
  obtain rfl := Option.some.inj ((divide_natCast dim _ positive).symm.trans grouped)
  simp only [BatchSizes.launch] at byteBelow scaleBelow queryAt
  unfold BatchSizes.row rowOf
  refine ⟨?_, ?_, ?_⟩
  · exact_mod_cast byteBelow
  · exact_mod_cast scaleBelow
  · exact_mod_cast queryAt

theorem partialDot_of_kernel {F : Type} [KernelArith F] {query : Tensor F} {scale : F}
    (formed : batch.WellFormed query sizes) (wide : sizes.headDim ≤ lanes)
    (inside : head < sizes.queryHeads) {position : Nat × Nat}
    (valid : position ∈ batch.validPositions sizes.blocks) (narrow : dim < sizes.headDim)
    {row : List F} {lse : F}
    (returned : fusedDecodeKernel query batch scale (sizes.launch lanes) head =
      some (row, lse)) :
    ∃ sum, partialDot query batch (sizes.launch lanes) head (sizes.kvHead head)
      position.1 position.2 dim = some sum := by
  obtain ⟨_, kvHead, returned⟩ := Option.bind_eq_some_iff.mp returned
  obtain rfl := Option.some.inj ((formed.kvHead_launch inside).symm.trans kvHead)
  obtain ⟨_, run, _⟩ := Option.bind_eq_some_iff.mp returned
  have flat := (loops_launch formed _ _).symm.trans run
  obtain ⟨_, _, step⟩ := exists_of_foldlM flat valid
  obtain ⟨_, sums, _⟩ := Option.bind_eq_some_iff.mp step
  have thread : dim ∈ List.range (sizes.launch lanes).lanes := by
    apply List.mem_range.mpr
    exact Nat.lt_of_lt_of_le narrow wide
  exact exists_of_mapM sums thread

/-- If all thread blocks return, no index has overflowed. -/
theorem indexed_of_kernel {F : Type} [KernelArith F] {query : Tensor F} {scale : F}
    (formed : batch.WellFormed query sizes) (wide : sizes.headDim ≤ lanes)
    (some_head : 0 < sizes.queryHeads)
    (returned : ∀ head < sizes.queryHeads, ∃ row lse,
      fusedDecodeKernel query batch scale (sizes.launch lanes) head = some (row, lse)) :
    Indexed batch sizes := by
  have bytes := formed.bytes
  have grouped := formed.grouped
  rcases Nat.eq_zero_or_pos sizes.headDim with empty | positive
  · obtain ⟨packedDim, groups⟩ := formed.widths_eq_zero empty
    constructor
    · intro position _
      constructor
      · rw [packedDim]
        omega
      · rw [groups]
        omega
    · rw [empty]
      omega
  · have last : sizes.kvHead (sizes.queryHeads - 1) = sizes.kvHeads - 1 :=
      last_kvHead formed.heads_pos formed.shared some_head
    have lastDim : sizes.headDim - 1 < sizes.headDim := by omega
    obtain ⟨packedPos, groupsPos⟩ := formed.widths_pos positive
    have lastByte := last_div bytes positive
    have lastGroup := last_div grouped positive
    obtain ⟨_, _, run⟩ := returned (sizes.queryHeads - 1) (by omega)
    have every : ∀ position ∈ batch.validPositions sizes.blocks,
        sizes.row position.1 position.2 (sizes.kvHeads - 1) * sizes.packedDim +
            (sizes.packedDim - 1) < 2 ^ 31 ∧
          sizes.row position.1 position.2 (sizes.kvHeads - 1) * sizes.groups +
            (sizes.groups - 1) < 2 ^ 31 ∧
          (sizes.queryHeads - 1) * sizes.headDim + (sizes.headDim - 1) < 2 ^ 31 := by
      intro position valid
      obtain ⟨_, thread⟩ := partialDot_of_kernel formed wide (by omega) valid lastDim run
      have indices := indices_lt formed.group_pos wide lastDim thread
      rwa [last, lastByte, lastGroup] at indices
    constructor
    · intro position valid
      obtain ⟨byteAt, scaleAt, _⟩ := every position valid
      constructor
      · exact last_index formed.heads_pos packedPos byteAt
      · exact last_index formed.heads_pos groupsPos scaleAt
    · obtain ⟨position, valid⟩ := formed.exists_position
      have queryAt := (every position valid).2.2
      rw [Nat.sub_mul, Nat.one_mul] at queryAt
      have room : sizes.headDim ≤ sizes.queryHeads * sizes.headDim :=
        Nat.le_mul_of_pos_left _ some_head
      omega

end Overflow

section Agree

/-- The CUDA extension is launched, and writes what the reference returns. -/
def Agrees (query : Tensor ℝ) (batch : PackedBatch) (scale : ℝ) (sizes : BatchSizes) : Prop :=
  ∃ launch output lse,
    CudaExtensionBackend.run (query.map Extended.real) batch = .ok launch ∧
    ReferenceAttentionBackend.run query batch scale = .ok (output, lse) ∧
    sizes.Matches
      (fusedDecodeKernel (query.map Extended.real) batch (.real scale) launch) output lse

variable {batch : PackedBatch} {query : Tensor ℝ} {sizes : BatchSizes} {scale : ℝ}
  (formed : batch.WellFormed query sizes) (sized : Sized sizes)
  (small : sizes.headDim ≤ 256)

include formed sized small in
theorem agrees_of_indexed (indexed : 0 < sizes.queryHeads → Indexed batch sizes) :
    Agrees query batch scale sizes := by
  obtain ⟨output, lse, reference, rows⟩ := formed.run_real scale
  obtain ⟨wide, power, doubled⟩ := le_powerAtLeast sizes.headDim 5
  refine ⟨_, output, lse, run_launch (formed.mapQuery Extended.real) sized small, reference, ?_⟩
  intro head inside
  obtain ⟨row, last⟩ := rows head inside
  rw [fusedDecodeKernel_launch formed wide doubled (indexed (by omega)) inside, row, last]

include formed sized small in
theorem indexed_of_agrees (agrees : Agrees query batch scale sizes)
    (some_head : 0 < sizes.queryHeads) : Indexed batch sizes := by
  obtain ⟨launch, output, lse, launched, _, rows⟩ := agrees
  obtain ⟨wide, _⟩ := le_powerAtLeast sizes.headDim 5
  have mapped := formed.mapQuery Extended.real
  obtain rfl := Except.ok.inj ((run_launch mapped sized small).symm.trans launched)
  apply indexed_of_kernel mapped wide some_head
  intro head inside
  exact ⟨_, _, rows head inside⟩

include formed sized small in
/-- On a batch whose sizes are `int`s, the kernel computes the attention of the reference
exactly when no index overflows. -/
theorem cuda_kernel_exact : Agrees query batch scale sizes ↔
    (0 < sizes.queryHeads → Indexed batch sizes) :=
  ⟨indexed_of_agrees formed sized small, agrees_of_indexed formed sized small⟩

end Agree

/-- Two blocks of two and of one token, under two query heads. -/
def tinySizes : BatchSizes := ⟨2, 2, 1, 2, 2, 4, 2⟩

def tinyBatch : PackedBatch :=
  { packedK := ⟨[2, 2, 1, 1], [0x5A, 0x3C, 0x42, 0], rfl⟩
    packedV := ⟨[2, 2, 1, 1], [0x7B, 0x10, 0x99, 0], rfl⟩
    scalesK := ⟨[2, 2, 1, 1], [0x3C00, 0x3800, 0x3C00, 0], rfl⟩
    scalesV := ⟨[2, 2, 1, 1], [0x3C00, 0x3C00, 0x4000, 0], rfl⟩
    validTokens := Tensor.ofList [2, 1]
    bits := 4
    groupSize := 2 }

theorem tinyBatch_wellFormed {F : Type} (item : F) :
    tinyBatch.WellFormed (Tensor.full [2, 2] item) tinySizes := by
  constructor <;> simp [tinyBatch, tinySizes, Tensor.full, Tensor.ofList, BatchSizes.packedDim,
    BatchSizes.groups]

theorem validPositions_tinyBatch : tinyBatch.validPositions 2 = [(0, 0), (0, 1), (1, 0)] := rfl

theorem tinySizes_sized : Sized tinySizes := by
  constructor <;> decide

theorem tinyBatch_indexed : Indexed tinyBatch tinySizes := by
  constructor
  · intro position valid
    change position ∈ tinyBatch.validPositions 2 at valid
    rw [validPositions_tinyBatch] at valid
    have inside : position.1 ≤ 1 ∧ position.2 ≤ 1 := by
      revert position
      decide
    constructor
    · change (position.1 * 2 + position.2 + 1) * 1 * 1 ≤ 2 ^ 31
      omega
    · change (position.1 * 2 + position.2 + 1) * 1 * 1 ≤ 2 ^ 31
      omega
  · decide

theorem cuda_kernel_exact_tiny : Agrees (Tensor.full [2, 2] 3) tinyBatch 1 tinySizes :=
  (cuda_kernel_exact (tinyBatch_wellFormed 3) tinySizes_sized (by decide)).mpr
    fun _ => tinyBatch_indexed

/-- A block of `65537` tokens with `256` heads of `256` dimensions. -/
def longSizes : BatchSizes := ⟨1, 65537, 256, 256, 256, 4, 256⟩

def longBatch : PackedBatch :=
  { packedK := Tensor.full [1, 65537, 256, 128] 0
    packedV := Tensor.full [1, 65537, 256, 128] 0
    scalesK := Tensor.full [1, 65537, 256, 1] 0
    scalesV := Tensor.full [1, 65537, 256, 1] 0
    validTokens := Tensor.ofList [65537]
    bits := 4
    groupSize := 256 }

theorem longBatch_wellFormed :
    longBatch.WellFormed (Tensor.full [256, 256] (0 : ℝ)) longSizes where
  query := rfl
  packedK := rfl
  packedV := rfl
  scalesK := rfl
  scalesV := rfl
  validTokens := rfl
  bits_eq := rfl
  groupSize_eq := rfl
  bits := Or.inr rfl
  whole_bytes := by decide
  group_pos := by decide
  whole_groups := by decide
  heads_pos := by decide
  shared := by decide
  counts := by
    intro valid member
    obtain rfl := List.mem_singleton.mp member
    decide
  some_valid := ⟨65537, List.mem_singleton.mpr rfl, by decide⟩

/-- The last token of the block has an index of more than 31 bits. -/
theorem long_batch_overflows :
    longBatch.WellFormed (Tensor.full [256, 256] (0 : ℝ)) longSizes ∧
      longSizes.headDim ≤ 256 ∧
      ¬ Agrees (Tensor.full [256, 256] 0) longBatch 1 longSizes := by
  refine ⟨longBatch_wellFormed, by decide, ?_⟩
  intro agrees
  have indexed := indexed_of_agrees longBatch_wellFormed (by constructor <;> decide)
    (by decide) agrees (by decide)
  have last : (0, 65536) ∈ longBatch.validPositions longSizes.blocks := by
    apply PackedBatch.mem_validPositions.mpr
    constructor <;> decide
  have packed := (indexed.rows _ last).packed
  revert packed
  decide

end KVSSD.Cuda

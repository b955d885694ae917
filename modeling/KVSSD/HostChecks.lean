import KVSSD.KernelValues

/-!
# The checks of the hosts

`PackedBatch.validate` relates the packed tensors to the query and to the counts, and
only the ranks of the scales.  The CUDA host narrows the sizes and adds the number of
groups; the Triton host adds the counts of the blocks.
-/

namespace KVSSD

open KVSSD.Python KVSSD.Quant

/-- The sizes of the tensors of any batch. -/
structure BatchShapes where
  blocks : Nat
  tokens : Nat
  kvHeads : Nat
  packedDim : Nat
  scaleBlocks : Nat
  scaleTokens : Nat
  scaleHeads : Nat
  groups : Nat
  queryHeads : Nat
  headDim : Nat

def PackedBatch.shapes {F : Type} (batch : PackedBatch) (query : Tensor F) : BatchShapes :=
  { blocks := batch.packedK.shape.getD 0 0
    tokens := batch.packedK.shape.getD 1 0
    kvHeads := batch.packedK.shape.getD 2 0
    packedDim := batch.packedK.shape.getD 3 0
    scaleBlocks := batch.scalesK.shape.getD 0 0
    scaleTokens := batch.scalesK.shape.getD 1 0
    scaleHeads := batch.scalesK.shape.getD 2 0
    groups := batch.scalesK.shape.getD 3 0
    queryHeads := query.shape.getD 0 0
    headDim := query.shape.getD 1 0 }

/-- What `validate` establishes. -/
structure PackedBatch.Validated (batch : PackedBatch) (shapes : BatchShapes) : Prop where
  packedK : batch.packedK.shape =
    [shapes.blocks, shapes.tokens, shapes.kvHeads, shapes.packedDim]
  packedV : batch.packedV.shape =
    [shapes.blocks, shapes.tokens, shapes.kvHeads, shapes.packedDim]
  scalesK : batch.scalesK.shape =
    [shapes.scaleBlocks, shapes.scaleTokens, shapes.scaleHeads, shapes.groups]
  scalesV : batch.scalesV.shape =
    [shapes.scaleBlocks, shapes.scaleTokens, shapes.scaleHeads, shapes.groups]
  validTokens : batch.validTokens.data.length = shapes.blocks
  bits : batch.bits = 2 ∨ batch.bits = 4
  group_ne : batch.groupSize ≠ 0
  grouped : batch.groupSize ∣ shapes.headDim
  width : (shapes.packedDim : Int) = ((shapes.headDim : Int) * batch.bits).fdiv 8
  heads_pos : 0 < shapes.kvHeads
  shared : shapes.kvHeads ∣ shapes.queryHeads

theorem eq_of_length_four {items : List Nat} (length : items.length = 4) :
    items = [items.getD 0 0, items.getD 1 0, items.getD 2 0, items.getD 3 0] := by
  match items, length with
  | [_, _, _, _], _ => rfl

theorem PackedBatch.lastDim_of_validate {F : Type} {batch : PackedBatch} {query : Tensor F}
    (passes : batch.validate query = .ok ()) :
    Tensor.lastDim query.shape = (batch.shapes query).headDim := by
  unfold PackedBatch.validate at passes
  obtain ⟨rank, _⟩ := passes_of_check passes
  change Tensor.lastDim query.shape = query.shape.getD 1 0
  match query.shape, not_not.mp rank with
  | [_, _], _ => rfl

theorem PackedBatch.validated {F : Type} {batch : PackedBatch} {query : Tensor F}
    (passes : batch.validate query = .ok ()) : batch.Validated (batch.shapes query) := by
  have lastDim := PackedBatch.lastDim_of_validate passes
  unfold PackedBatch.validate at passes
  obtain ⟨_, passes⟩ := passes_of_check passes
  obtain ⟨packed, passes⟩ := passes_of_check passes
  obtain ⟨scales, passes⟩ := passes_of_check passes
  obtain ⟨counts, passes⟩ := passes_of_check passes
  obtain ⟨bits, passes⟩ := passes_of_check passes
  obtain ⟨uneven, remainder, passes⟩ := bind_eq_ok.mp passes
  obtain ⟨even, passes⟩ := passes_of_check passes
  obtain ⟨width, passes⟩ := passes_of_check passes
  obtain ⟨odd, shared, passes⟩ := bind_eq_ok.mp passes
  obtain ⟨whole, _⟩ := passes_of_check passes
  simp only [ne_eq, not_or, not_not] at packed scales counts even width whole
  obtain ⟨group_ne, rfl⟩ := pyMod_eq_ok remainder
  obtain ⟨heads_ne, rfl⟩ := pyMod_eq_ok shared
  have packedShape := eq_of_length_four packed.1
  have scalesShape := eq_of_length_four scales.1
  have lastPacked : Tensor.lastDim batch.packedK.shape = (batch.shapes query).packedDim := by
    rw [packedShape]
    rfl
  rw [lastDim] at even width
  rw [lastPacked] at width
  constructor
  · exact packedShape
  · rw [← packed.2]
    exact packedShape
  · exact scalesShape
  · rw [← scales.2]
    exact scalesShape
  · rw [batch.validTokens.size_eq, counts, List.prod_singleton]
    rfl
  · omega
  · exact group_ne
  · exact Int.dvd_of_fmod_eq_zero even
  · exact width
  · apply Nat.pos_of_ne_zero
    intro zero
    exact heads_ne (congrArg Nat.cast zero)
  · exact_mod_cast Int.dvd_of_fmod_eq_zero whole

/-- The sizes that the host narrows are `int`s. -/
structure BatchShapes.Sized (shapes : BatchShapes) (groupSize : Int) : Prop where
  blocks : shapes.blocks < 2 ^ 31
  tokens : shapes.tokens < 2 ^ 31
  kvHeads : shapes.kvHeads < 2 ^ 31
  packedDim : shapes.packedDim < 2 ^ 31
  groups : shapes.groups < 2 ^ 31
  queryHeads : shapes.queryHeads < 2 ^ 31
  headDim : shapes.headDim < 2 ^ 31
  groupSize : -2 ^ 31 ≤ groupSize ∧ groupSize < 2 ^ 31

/-- The launch on tensors of these sizes. -/
def BatchShapes.launch (shapes : BatchShapes) (batch : PackedBatch) (lanes : Nat) : Launch :=
  { blocks := shapes.blocks
    tokens := shapes.tokens
    queryHeads := shapes.queryHeads
    kvHeads := shapes.kvHeads
    headDim := shapes.headDim
    packedDim := shapes.packedDim
    groups := shapes.groups
    bits := batch.bits
    groupSize := batch.groupSize
    lanes := lanes }

section Launches

variable {F : Type} {query : Tensor F} {batch : PackedBatch} {launch : Launch}

theorem Cuda.narrow_eq_self {size : Int} (low : -2 ^ 31 ≤ size) (high : size < 2 ^ 31) :
    Cuda.narrow size = size := by
  unfold Cuda.narrow
  apply Int.bmod_eq_of_le
  · omega
  · omega

theorem Cuda.narrow_natCast {size : Nat} (small : size < 2 ^ 31) :
    Cuda.narrow size = size := by
  apply Cuda.narrow_eq_self
  · omega
  · omega

theorem Cuda.remainder_eq_zero {dividend : Nat} {divisor : Int} (nonzero : divisor ≠ 0)
    (divides : divisor ∣ dividend) : Cuda.remainder dividend divisor = .ok 0 := by
  unfold Cuda.remainder
  rw [if_neg nonzero, Int.tmod_eq_zero_of_dvd divides]

theorem Cuda.fusedDecode_eq (passes : batch.validate query = .ok ()) :
    Cuda.fusedDecode query batch = Cuda.fusedDecodeCuda query batch := by
  unfold PackedBatch.validate at passes
  obtain ⟨queryRank, passes⟩ := passes_of_check passes
  obtain ⟨packed, passes⟩ := passes_of_check passes
  obtain ⟨scales, passes⟩ := passes_of_check passes
  obtain ⟨_, passes⟩ := passes_of_check passes
  obtain ⟨bits, _⟩ := passes_of_check passes
  unfold Cuda.fusedDecode
  rw [if_neg queryRank, if_neg packed, if_neg scales, if_neg bits]

/-- On sizes that are `int`s only two checks are left. -/
theorem Cuda.fusedDecodeCuda_eq (sized : (batch.shapes query).Sized batch.groupSize)
    (passes : batch.validate query = .ok ()) :
    Cuda.fusedDecodeCuda query batch =
      if 256 < (batch.shapes query).headDim then
        .error (.runtimeError "reference CUDA kernel supports head_dim <= 256")
      else if ((batch.shapes query).groups : Int) ≠
          ((batch.shapes query).headDim : Int).tdiv batch.groupSize then
        .error (.runtimeError "scale dimension mismatch")
      else
        .ok ((batch.shapes query).launch batch
          (powerAtLeast (batch.shapes query).headDim 5)) := by
  have validated := PackedBatch.validated passes
  have bits : Cuda.narrow batch.bits = batch.bits := by
    have known := validated.bits
    apply Cuda.narrow_eq_self
    · omega
    · omega
  have blocks := Cuda.narrow_natCast sized.blocks
  have tokens := Cuda.narrow_natCast sized.tokens
  have kvHeads := Cuda.narrow_natCast sized.kvHeads
  have packedDim := Cuda.narrow_natCast sized.packedDim
  have groups := Cuda.narrow_natCast sized.groups
  have queryHeads := Cuda.narrow_natCast sized.queryHeads
  have headDim := Cuda.narrow_natCast sized.headDim
  have groupSize := Cuda.narrow_eq_self sized.groupSize.1 sized.groupSize.2
  have shared : Cuda.remainder (batch.shapes query).queryHeads (batch.shapes query).kvHeads =
      .ok 0 := by
    apply Cuda.remainder_eq_zero
    · exact Int.natCast_ne_zero.mpr (Nat.ne_of_gt validated.heads_pos)
    · exact Int.natCast_dvd_natCast.mpr validated.shared
  have even : Cuda.remainder (batch.shapes query).headDim batch.groupSize = .ok 0 :=
    Cuda.remainder_eq_zero validated.group_ne validated.grouped
  have width : ((batch.shapes query).packedDim : Int) =
      ((batch.shapes query).headDim * batch.bits).tdiv 8 := by
    have nonnegative : 0 ≤ ((batch.shapes query).headDim : Int) * batch.bits := by
      apply Int.mul_nonneg
      · exact Int.natCast_nonneg _
      · have known := validated.bits
        omega
    rw [validated.width, Int.fdiv_eq_tdiv_of_nonneg nonnegative (by norm_num)]
  simp only [PackedBatch.shapes] at blocks tokens kvHeads packedDim groups queryHeads headDim
  simp only [PackedBatch.shapes] at shared even width
  unfold Cuda.fusedDecodeCuda
  simp only [blocks, tokens, kvHeads, packedDim, groups, queryHeads, headDim, groupSize, bits,
    shared, even, ok_bind, ← width, ne_eq, not_true_eq_false, if_false]
  by_cases small : 256 < query.shape.getD 1 0
  · have cast : (query.shape.getD 1 0 : Int) > 256 := by exact_mod_cast small
    rw [if_pos cast]
    exact (if_pos small).symm
  · have cast : ¬ (query.shape.getD 1 0 : Int) > 256 := by exact_mod_cast small
    rw [if_neg cast]
    exact (if_neg small).symm

/-- What the CUDA host checks beyond `validate`, and the sizes it launches the kernel with. -/
theorem Cuda.run_eq_ok_iff (sized : (batch.shapes query).Sized batch.groupSize) :
    Cuda.CudaExtensionBackend.run query batch = .ok launch ↔
      batch.validate query = .ok () ∧ (batch.shapes query).headDim ≤ 256 ∧
        ((batch.shapes query).groups : Int) =
          ((batch.shapes query).headDim : Int).tdiv batch.groupSize ∧
        launch = (batch.shapes query).launch batch
          (powerAtLeast (batch.shapes query).headDim 5) := by
  unfold Cuda.CudaExtensionBackend.run
  constructor
  · intro passes
    obtain ⟨_, validate, passes⟩ := bind_eq_ok.mp passes
    rw [Cuda.fusedDecode_eq validate, Cuda.fusedDecodeCuda_eq sized validate] at passes
    obtain ⟨small, passes⟩ := passes_of_check passes
    obtain ⟨cut, passes⟩ := passes_of_check passes
    exact ⟨validate, Nat.not_lt.mp small, not_not.mp cut, (Except.ok.inj passes).symm⟩
  · rintro ⟨validate, small, cut, rfl⟩
    rw [validate, ok_bind, Cuda.fusedDecode_eq validate, Cuda.fusedDecodeCuda_eq sized validate,
      if_neg (Nat.not_lt.mpr small), if_neg (not_not.mpr cut)]

/-- What the Triton host checks beyond `validate`. -/
theorem Triton.run_eq_ok_iff : Triton.TritonAttentionBackend.run query batch = .ok launch ↔
    batch.validate query = .ok () ∧ (batch.shapes query).headDim ≤ 256 ∧
      (∀ valid ∈ batch.validTokens.data, 0 < valid) ∧
      launch = (batch.shapes query).launch batch
        (powerAtLeast (batch.shapes query).headDim 0) := by
  unfold Triton.TritonAttentionBackend.run
  constructor
  · intro passes
    obtain ⟨_, validate, passes⟩ := bind_eq_ok.mp passes
    obtain ⟨small, passes⟩ := passes_of_check passes
    obtain ⟨filled, passes⟩ := passes_of_check passes
    rw [PackedBatch.lastDim_of_validate validate] at small
    refine ⟨validate, Nat.not_lt.mp small, ?_, (Except.ok.inj passes).symm⟩
    intro valid member
    exact Int.not_le.mp fun empty => filled ⟨valid, member, empty⟩
  · rintro ⟨validate, small, filled, rfl⟩
    have none_empty : ¬ ∃ valid ∈ batch.validTokens.data, valid ≤ 0 := by
      rintro ⟨valid, member, empty⟩
      exact Int.not_lt.mpr empty (filled valid member)
    rw [validate, ok_bind, PackedBatch.lastDim_of_validate validate,
      if_neg (Nat.not_lt.mpr small), if_neg none_empty]
    rfl

end Launches

/-- The sizes of the tensors of a batch of consistent shapes. -/
def BatchSizes.shapes (sizes : BatchSizes) : BatchShapes :=
  { blocks := sizes.blocks
    tokens := sizes.tokens
    kvHeads := sizes.kvHeads
    packedDim := sizes.packedDim
    scaleBlocks := sizes.blocks
    scaleTokens := sizes.tokens
    scaleHeads := sizes.kvHeads
    groups := sizes.groups
    queryHeads := sizes.queryHeads
    headDim := sizes.headDim }

section WellFormed

variable {F : Type} {query : Tensor F} {batch : PackedBatch} {sizes : BatchSizes}

theorem PackedBatch.WellFormed.shapes_eq (formed : batch.WellFormed query sizes) :
    batch.shapes query = sizes.shapes := by
  simp only [PackedBatch.shapes, BatchSizes.shapes, formed.query, formed.packedK,
    formed.scalesK, List.getD_cons_zero, List.getD_cons_succ]

theorem PackedBatch.WellFormed.launch_eq (formed : batch.WellFormed query sizes)
    (lanes : Nat) : sizes.launch lanes = (batch.shapes query).launch batch lanes := by
  simp only [BatchSizes.launch, BatchShapes.launch, formed.shapes_eq, BatchSizes.shapes,
    formed.bits_eq, formed.groupSize_eq]

end WellFormed

end KVSSD

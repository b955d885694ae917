import KVSSD.KernelReads

/-!
# The `int`s of the CUDA kernel

The host narrows 64-bit sizes to `int`, and the kernel multiplies them.  No check bounds the
sizes: every `int` is the number it stands for exactly when the sizes are `int`s, and the last
index of every tensor that is visited is one.
-/

namespace KVSSD.Cuda

open KVSSD.Python KVSSD.Quant

/-- `qh * head_dim + d`, into the query and the output. -/
def queryIndex (launch : Launch) (queryHead dim : Nat) : Option Int := do
  let row ← int (queryHead * launch.headDim)
  int (row + dim)

theorem partialDot_eq {F : Type} [arith : KernelArith F] (query : Tensor F) (batch : PackedBatch)
    (launch : Launch) (queryHead : Nat) (kvHead : Int) (block token tid : Nat) :
    partialDot query batch launch queryHead kvHead block token tid =
      (strided launch tid).foldlM
        (fun sum dim => do
          let kval ← value launch batch.packedK batch.scalesK kvHead block token dim
          let index ← queryIndex launch queryHead dim
          let item ← load query.data index
          return arith.add sum (arith.mul item kval))
        arith.zero := by
  simp only [partialDot, queryIndex, bind_assoc]

/-- Every `int` of the launch and of the kernel is the number it stands for: the narrowed
sizes, and for each query head, block, valid token and dimension the indices with all their
partial results. -/
structure IntsExact (batch : PackedBatch) (shapes : BatchShapes) (launch : Launch) : Prop where
  sizes : launch = shapes.launch batch (powerAtLeast shapes.headDim 5)
  query : ∀ head < shapes.queryHeads, ∀ dim < shapes.headDim,
    queryIndex launch head dim = some ((head * shapes.headDim + dim : Nat) : Int)
  rows : ∀ head < shapes.queryHeads, ∀ block < shapes.blocks, ∀ valid,
    load batch.validTokens.data block = some valid → ∀ token < valid.toNat,
    ∀ dim < shapes.headDim, ∃ kvHead : Nat,
      kvHead = head / (shapes.queryHeads / shapes.kvHeads) ∧
      launch.kvHead head = some (kvHead : Int) ∧
      byteIndex launch kvHead block token dim =
        some ((rowOf shapes.tokens shapes.kvHeads block token kvHead * shapes.packedDim +
          dim / perByte batch.bits : Nat) : Int) ∧
      scaleIndex launch kvHead block token dim =
        some ((rowOf shapes.tokens shapes.kvHeads block token kvHead * shapes.groups +
          dim / batch.groupSize.toNat : Nat) : Int)

/-- The sizes are `int`s, and so is the last index of the query and, for every valid token,
of its packed codes and of its scales. -/
structure IntsFit (batch : PackedBatch) (shapes : BatchShapes) : Prop where
  sized : shapes.Sized batch.groupSize
  query : shapes.queryHeads * shapes.headDim ≤ 2 ^ 31
  rows : 0 < shapes.queryHeads → 0 < shapes.headDim →
    ∀ position ∈ batch.validPositions shapes.blocks,
      rowOf shapes.tokens shapes.kvHeads position.1 position.2 (shapes.kvHeads - 1) *
          shapes.packedDim + (shapes.headDim - 1) / perByte batch.bits < 2 ^ 31 ∧
      rowOf shapes.tokens shapes.kvHeads position.1 position.2 (shapes.kvHeads - 1) *
          shapes.groups + (shapes.headDim - 1) / batch.groupSize.toNat < 2 ^ 31

theorem narrow_bounds (size : Int) : -2 ^ 31 ≤ narrow size ∧ narrow size < 2 ^ 31 := by
  unfold narrow
  constructor
  · have low := @Int.le_bmod size (2 ^ 32) (by norm_num)
    omega
  · have high := @Int.bmod_lt size (2 ^ 32) (by norm_num)
    omega

theorem lt_of_narrow {size : Nat} (same : narrow size = size) : size < 2 ^ 31 := by
  have bounds := narrow_bounds size
  rw [same] at bounds
  omega

section Launch

variable {F : Type} {query : Tensor F} {batch : PackedBatch} {launch : Launch}

theorem launch_of_run (passes : CudaExtensionBackend.run query batch = .ok launch) :
    batch.validate query = .ok () ∧
      launch.blocks = narrow (batch.shapes query).blocks ∧
      launch.tokens = narrow (batch.shapes query).tokens ∧
      launch.kvHeads = narrow (batch.shapes query).kvHeads ∧
      launch.packedDim = narrow (batch.shapes query).packedDim ∧
      launch.queryHeads = narrow (batch.shapes query).queryHeads ∧
      launch.headDim = narrow (batch.shapes query).headDim ∧
      launch.groups = narrow (batch.shapes query).groups ∧
      launch.groupSize = narrow batch.groupSize := by
  unfold CudaExtensionBackend.run at passes
  obtain ⟨_, validate, passes⟩ := bind_eq_ok.mp passes
  rw [fusedDecode_eq validate] at passes
  unfold fusedDecodeCuda at passes
  obtain ⟨_, passes⟩ := passes_of_check passes
  obtain ⟨_, _, passes⟩ := bind_eq_ok.mp passes
  obtain ⟨_, passes⟩ := passes_of_check passes
  obtain ⟨_, _, passes⟩ := bind_eq_ok.mp passes
  obtain ⟨_, passes⟩ := passes_of_check passes
  obtain ⟨_, passes⟩ := passes_of_check passes
  obtain ⟨_, passes⟩ := passes_of_check passes
  obtain rfl := Except.ok.inj passes
  simp only [PackedBatch.shapes, validate, and_self]

theorem sized_of_exact (passes : CudaExtensionBackend.run query batch = .ok launch)
    (exact : IntsExact batch (batch.shapes query) launch) :
    (batch.shapes query).Sized batch.groupSize := by
  obtain ⟨_, blocks, tokens, kvHeads, packedDim, queryHeads, headDim, groups, groupSize⟩ :=
    launch_of_run passes
  rw [exact.sizes] at blocks tokens kvHeads packedDim queryHeads headDim groups groupSize
  constructor
  · exact lt_of_narrow blocks.symm
  · exact lt_of_narrow tokens.symm
  · exact lt_of_narrow kvHeads.symm
  · exact lt_of_narrow packedDim.symm
  · exact lt_of_narrow groups.symm
  · exact lt_of_narrow queryHeads.symm
  · exact lt_of_narrow headDim.symm
  · have bounds := narrow_bounds batch.groupSize
    rwa [← groupSize] at bounds

end Launch

section Indices

variable {batch : PackedBatch} {shapes : BatchShapes} {lanes block token kvHead dim : Nat}

theorem queryIndex_eq {head : Nat} (fits : shapes.queryHeads * shapes.headDim ≤ 2 ^ 31)
    (inside : head < shapes.queryHeads) (narrow : dim < shapes.headDim) :
    queryIndex (shapes.launch batch lanes) head dim =
      some ((head * shapes.headDim + dim : Nat) : Int) := by
  have last : head * shapes.headDim + dim < 2 ^ 31 := by
    calc
      head * shapes.headDim + dim < head * shapes.headDim + shapes.headDim := by omega
      _ = (head + 1) * shapes.headDim := by ring
      _ ≤ shapes.queryHeads * shapes.headDim := Nat.mul_le_mul_right _ inside
      _ ≤ 2 ^ 31 := fits
  have row : int (head * (shapes.headDim : Int)) = some ((head * shapes.headDim : Nat) : Int) := by
    rw [← Nat.cast_mul]
    apply int_natCast
    omega
  have total := int_natCast last
  push_cast at total
  unfold queryIndex
  change (int (head * (shapes.headDim : Int))).bind _ = _
  rw [row, Option.bind_some]
  push_cast
  exact total

theorem queryIndex_eq_some {launch : Launch} {head : Nat} {index : Int}
    (defined : queryIndex launch head dim = some index) :
    (head : Int) * launch.headDim + dim < 2 ^ 31 := by
  obtain ⟨_, row, total⟩ := Option.bind_eq_some_iff.mp defined
  obtain ⟨rfl, _⟩ := int_eq_some row
  exact (int_eq_some total).2

theorem byteIndex_shapes (own : kvHead < shapes.kvHeads)
    (rows : rowOf shapes.tokens shapes.kvHeads block token kvHead < 2 ^ 31)
    (below : rowOf shapes.tokens shapes.kvHeads block token kvHead * shapes.packedDim +
      dim / perByte batch.bits < 2 ^ 31) :
    byteIndex (shapes.launch batch lanes) kvHead block token dim =
      some ((rowOf shapes.tokens shapes.kvHeads block token kvHead * shapes.packedDim +
        dim / perByte batch.bits : Nat) : Int) := by
  have base := @Launch.rowBase_eq shapes.tokens shapes.kvHeads shapes.packedDim (2 ^ 31) block
    token kvHead (shapes.launch batch lanes) int rfl rfl exact_int own rows
    (Nat.lt_of_le_of_lt (Nat.le_add_right _ _) below)
  unfold byteIndex
  change (Launch.rowBase _ int (shapes.packedDim : Int) block token kvHead).bind _ = _
  rw [base, Option.bind_some]
  change int (_ + ((dim : Int) / (perByte batch.bits : Int))) = _
  rw [← Int.natCast_ediv, ← Nat.cast_add]
  exact int_natCast below

theorem scaleIndex_shapes {groupSize : Nat} (size : batch.groupSize = groupSize)
    (positive : 0 < groupSize) (own : kvHead < shapes.kvHeads)
    (rows : rowOf shapes.tokens shapes.kvHeads block token kvHead < 2 ^ 31)
    (below : rowOf shapes.tokens shapes.kvHeads block token kvHead * shapes.groups +
      dim / groupSize < 2 ^ 31) :
    scaleIndex (shapes.launch batch lanes) kvHead block token dim =
      some ((rowOf shapes.tokens shapes.kvHeads block token kvHead * shapes.groups +
        dim / groupSize : Nat) : Int) := by
  have base := @Launch.rowBase_eq shapes.tokens shapes.kvHeads shapes.groups (2 ^ 31) block
    token kvHead (shapes.launch batch lanes) int rfl rfl exact_int own rows
    (Nat.lt_of_le_of_lt (Nat.le_add_right _ _) below)
  unfold scaleIndex
  change (Launch.rowBase _ int (shapes.groups : Int) block token kvHead).bind
    (fun base => (divide dim batch.groupSize).bind fun group => int (base + group)) = _
  rw [base, size, divide_natCast _ _ positive, Option.bind_some, Option.bind_some,
    ← Nat.cast_add]
  exact int_natCast below

end Indices

section Exact

variable {F : Type} {query : Tensor F} {batch : PackedBatch} {shapes : BatchShapes}
  {lanes : Nat}

/-- Where the last indices are `int`s, all are. -/
theorem exact_of_fits (validated : batch.Validated shapes)
    (cut : (shapes.groups : Int) = (shapes.headDim : Int).tdiv batch.groupSize)
    (fits : IntsFit batch shapes) :
    IntsExact batch shapes (shapes.launch batch (powerAtLeast shapes.headDim 5)) := by
  constructor
  · rfl
  · intro head inside dim narrow
    exact queryIndex_eq fits.query inside narrow
  · intro head inside block present valid loaded token below dim narrow
    obtain ⟨groupSize, size, groupPos, grouped⟩ := validated.exists_group cut (by omega)
    obtain ⟨packed, scales⟩ := fits.rows (by omega) (by omega) (block, token)
      (PackedBatch.position_of_load present loaded below)
    have own := kvHead_lt validated.heads_pos validated.shared inside
    have groupsPos : 0 < shapes.groups := by
      apply Nat.pos_of_ne_zero
      intro none
      rw [none, Nat.zero_mul] at grouped
      omega
    rw [size, Int.toNat_natCast] at scales ⊢
    change rowOf _ _ block token _ * _ + _ < 2 ^ 31 at packed
    change rowOf _ _ block token _ * _ + _ < 2 ^ 31 at scales
    have row := @rowOf_le_last shapes.tokens shapes.kvHeads block token _ own
    rw [← rowOf_last validated.heads_pos] at row
    have byte : dim / perByte batch.bits ≤ (shapes.headDim - 1) / perByte batch.bits :=
      Nat.div_le_div_right (by omega)
    have group : dim / groupSize ≤ (shapes.headDim - 1) / groupSize :=
      Nat.div_le_div_right (by omega)
    have packedRow := Nat.mul_le_mul_right shapes.packedDim row
    have scalesRow := Nat.mul_le_mul_right shapes.groups row
    have spread := Nat.le_mul_of_pos_right
      (rowOf shapes.tokens shapes.kvHeads block token (shapes.kvHeads - 1)) groupsPos
    have lastRow := Nat.lt_of_le_of_lt (Nat.le_add_right _ _) scales
    refine ⟨_, rfl, Launch.kvHead_eq rfl rfl validated.heads_pos validated.shared inside, ?_, ?_⟩
    · apply byteIndex_shapes own
      · omega
      · omega
    · apply scaleIndex_shapes size groupPos own
      · omega
      · omega

/-- The last head of the last token forms the last indices. -/
theorem fits_of_exact (validated : batch.Validated shapes)
    (sized : shapes.Sized batch.groupSize)
    (exact : IntsExact batch shapes (shapes.launch batch lanes)) : IntsFit batch shapes := by
  constructor
  · exact sized
  · by_cases some_head : 0 < shapes.queryHeads
    · by_cases nonempty : 0 < shapes.headDim
      · have defined := queryIndex_eq_some
          (exact.query (shapes.queryHeads - 1) (by omega) (shapes.headDim - 1) (by omega))
        have last : (shapes.queryHeads - 1) * shapes.headDim + (shapes.headDim - 1) < 2 ^ 31 := by
          change ((shapes.queryHeads - 1 : Nat) : Int) * (shapes.headDim : Int) +
            ((shapes.headDim - 1 : Nat) : Int) < 2 ^ 31 at defined
          exact_mod_cast defined
        have room := Nat.le_mul_of_pos_left shapes.headDim some_head
        rw [Nat.sub_mul, Nat.one_mul] at last
        omega
      · rw [Nat.eq_zero_of_not_pos nonempty, Nat.mul_zero]
        exact Nat.zero_le _
    · rw [Nat.eq_zero_of_not_pos some_head, Nat.zero_mul]
      exact Nat.zero_le _
  · intro some_head nonempty position member
    obtain ⟨present, valid, loaded, below⟩ := validated.load_of_position member
    obtain ⟨kvHead, shared, _, byteAt, scaleAt⟩ := exact.rows (shapes.queryHeads - 1) (by omega)
      position.1 present valid loaded position.2 below (shapes.headDim - 1) (by omega)
    rw [last_kvHead validated.heads_pos validated.shared some_head] at shared
    obtain ⟨_, packed⟩ := byteIndex_eq_some byteAt
    obtain ⟨_, _, _, scales⟩ := scaleIndex_eq_some scaleAt
    subst shared
    constructor
    · exact_mod_cast packed
    · exact_mod_cast scales

theorem fits_of_run {launch : Launch}
    (passes : CudaExtensionBackend.run query batch = .ok launch)
    (exact : IntsExact batch (batch.shapes query) launch) :
    IntsFit batch (batch.shapes query) := by
  have sized := sized_of_exact passes exact
  have validated := PackedBatch.validated (launch_of_run passes).1
  have launched := exact.sizes
  subst launched
  exact fits_of_exact validated sized exact

/-- On a batch that passes all checks, no `int` of the launch and the kernel overflows exactly
when the sizes and the last indices are `int`s. -/
theorem kernel_ints_exact {launch : Launch}
    (passes : CudaExtensionBackend.run query batch = .ok launch) :
    IntsExact batch (batch.shapes query) launch ↔ IntsFit batch (batch.shapes query) := by
  constructor
  · exact fits_of_run passes
  · intro fits
    obtain ⟨validate, _, cut, rfl⟩ := (run_eq_ok_iff fits.sized).mp passes
    exact exact_of_fits (PackedBatch.validated validate) cut fits

theorem kernel_ints_exact_tiny : ∃ launch,
    CudaExtensionBackend.run (Tensor.full [2, 2] (3 : ℝ)) tinyBatch = .ok launch ∧
      IntsExact tinyBatch (tinyBatch.shapes (Tensor.full [2, 2] (3 : ℝ))) launch := by
  have sized : (tinyBatch.shapes (Tensor.full [2, 2] (3 : ℝ))).Sized 2 := by
    constructor <;> decide
  have launched := (run_eq_ok_iff sized).mpr ⟨rfl, by decide, by decide, rfl⟩
  refine ⟨_, launched, (kernel_ints_exact launched).mpr ?_⟩
  constructor
  · exact sized
  · decide
  · intro _ _ position member
    change position ∈ tinyBatch.validPositions 2 at member
    rw [validPositions_tinyBatch] at member
    revert position
    decide

/-- All checks accept a well-shaped batch whose last token has an index of more than 31
bits. -/
theorem long_batch_ints_overflow :
    longBatch.WellFormed (Tensor.full [256, 256] (0 : ℝ)) longSizes ∧
      ∃ launch,
        CudaExtensionBackend.run (Tensor.full [256, 256] (0 : ℝ)) longBatch = .ok launch ∧
        ¬ IntsExact longBatch (longBatch.shapes (Tensor.full [256, 256] (0 : ℝ))) launch := by
  have launched := run_launch longBatch_wellFormed (by constructor <;> decide) (by decide)
  refine ⟨longBatch_wellFormed, _, launched, ?_⟩
  intro exact
  have last : (0, 65536) ∈ longBatch.validPositions 1 := by
    apply PackedBatch.mem_validPositions.mpr
    constructor <;> decide
  obtain ⟨packed, _⟩ := (fits_of_run launched exact).rows (by decide) (by decide) _ last
  revert packed
  decide

end Exact

end KVSSD.Cuda

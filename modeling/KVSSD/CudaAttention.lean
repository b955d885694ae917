import KVSSD.HostChecks
import KVSSD.KernelScores
import KVSSD.Lib.Loops

/-!
# The CUDA kernel computes softmax attention

Over the real numbers with minus infinity, the thread blocks of `fused_decode_kernel`
return the rows of the reference backend, exactly when the flattened indices fit the
`int`s that they are computed in.
-/

namespace KVSSD

open KVSSD.Python KVSSD.Quant KVSSD.OnlineSoftmax KVSSD.Loops

section Within

/-- The rows of a token end within the first `limit` items of the tensors. -/
structure BatchSizes.Within (sizes : BatchSizes) (limit : Nat) (position : Nat × Nat) :
    Prop where
  packed : (position.1 * sizes.tokens + position.2 + 1) * sizes.kvHeads * sizes.packedDim ≤ limit
  scales : (position.1 * sizes.tokens + position.2 + 1) * sizes.kvHeads * sizes.groups ≤ limit

end Within

namespace Cuda

theorem exact_int : Exact int (2 ^ 31) := by
  intro index nonnegative below
  exact if_pos ⟨by omega, below⟩

theorem int_natCast {value : Nat} (below : value < 2 ^ 31) :
    int (value : Int) = some (value : Int) := by
  apply exact_int
  · exact Int.natCast_nonneg _
  · exact_mod_cast below

theorem int_eq_some {value result : Int} (defined : int value = some result) :
    result = value ∧ value < 2 ^ 31 := by
  unfold int at defined
  split at defined
  · rename_i range
    exact ⟨(Option.some.inj defined).symm, range.2⟩
  · cases defined

section Index

variable {launch : Launch} {tokens heads width groupSize block token head dim : Nat}
  (tokensEq : launch.tokens = tokens) (headsEq : launch.kvHeads = heads) (own : head < heads)

include tokensEq headsEq own in
theorem byteIndex_eq (widthEq : launch.packedDim = width)
    (narrow : dim / perByte launch.bits < width)
    (below : rowOf tokens heads block token head * width + dim / perByte launch.bits <
      2 ^ 31) :
    byteIndex launch head block token dim =
      some ((rowOf tokens heads block token head * width + dim / perByte launch.bits : Nat) :
        Int) := by
  have base := Launch.rowBase_of_index_lt tokensEq headsEq exact_int own narrow below
  unfold byteIndex
  rw [widthEq, base, Option.bind_eq_bind, Option.bind_some, ← Int.natCast_ediv, ← Nat.cast_add]
  exact int_natCast below

include tokensEq headsEq own in
theorem scaleIndex_eq (widthEq : launch.groups = width)
    (groupEq : launch.groupSize = groupSize) (positive : 0 < groupSize)
    (narrow : dim / groupSize < width)
    (below : rowOf tokens heads block token head * width + dim / groupSize < 2 ^ 31) :
    scaleIndex launch head block token dim =
      some ((rowOf tokens heads block token head * width + dim / groupSize : Nat) : Int) := by
  have base := Launch.rowBase_of_index_lt tokensEq headsEq exact_int own narrow below
  unfold scaleIndex
  rw [widthEq, groupEq, base, divide_natCast _ _ positive, Option.bind_eq_bind,
    Option.bind_some, Option.bind_some, ← Nat.cast_add]
  exact int_natCast below

end Index

/-- Halving the strides adds up all the partial sums. -/
theorem reduceTree_sum (power : Nat) (sums : Nat → ℝ) :
    reduceTree (2 ^ power / 2) (fun tid => Extended.real (sums tid)) 0 =
      .real ((List.range (2 ^ power)).map sums).sum := by
  induction power generalizing sums with
  | zero =>
      rw [reduceTree, if_pos (by norm_num)]
      simp
  | succ power induction =>
      have half : 2 ^ (power + 1) / 2 = 2 ^ power := by
        rw [Nat.pow_succ]
        omega
      have positive := Nat.two_pow_pos power
      have folded : (fun tid => if tid < 2 ^ power then
          KernelArith.toAttentionArith.add (Extended.real (sums tid))
            (Extended.real (sums (tid + 2 ^ power)))
          else Extended.real (sums tid)) = fun tid => Extended.real
            (if tid < 2 ^ power then sums tid + sums (tid + 2 ^ power) else sums tid) := by
        funext tid
        by_cases low : tid < 2 ^ power
        · rw [if_pos low, if_pos low]
          rfl
        · rw [if_neg low, if_neg low]
      rw [half, reduceTree, if_neg (by omega), folded, induction, Nat.pow_succ, Nat.mul_two,
        List.range_add, List.map_append, List.sum_append, List.map_map, ← List.sum_map_add]
      congr 2
      apply List.map_congr_left
      intro tid member
      rw [if_pos (List.mem_range.mp member), Function.comp_apply, Nat.add_comm tid]

section Thread

variable {batch : PackedBatch} {query : Tensor ℝ} {sizes : BatchSizes} {scale : ℝ}
  {lanes block token head tid dim : Nat}

theorem strided_eq {launch : Launch} (wide : launch.headDim.toNat ≤ launch.lanes) :
    strided launch tid = if tid < launch.headDim.toNat then [tid] else [] := by
  unfold strided pyRange
  by_cases inside : tid < launch.headDim.toNat
  · have one : (launch.headDim.toNat - tid + launch.lanes - 1) / launch.lanes = 1 := by
      apply Nat.div_eq_of_lt_le
      · omega
      · omega
    rw [if_pos inside, one]
    simp
  · have none : (launch.headDim.toNat - tid + launch.lanes - 1) / launch.lanes = 0 := by
      rcases Nat.eq_zero_or_pos launch.lanes with zero | positive
      · rw [zero, Nat.div_zero]
      · apply Nat.div_eq_of_lt
        omega
    rw [if_neg inside, none]
    rfl

theorem strided_launch (wide : sizes.headDim ≤ lanes) :
    strided (sizes.launch lanes) tid = if tid < sizes.headDim then [tid] else [] := by
  exact @strided_eq tid (sizes.launch lanes) wide

theorem byteIndex_launch (formed : batch.WellFormed query sizes)
    (own : head < sizes.kvHeads) (inside : dim < sizes.headDim)
    (within : sizes.Within (2 ^ 31) (block, token)) :
    byteIndex (sizes.launch lanes) head block token dim =
      some ((sizes.row block token head * sizes.packedDim + dim / perByte sizes.bits : Nat) :
        Int) := by
  have narrow := (formed.dim_lt inside).1
  exact byteIndex_eq rfl rfl own rfl narrow (index_lt own narrow within.packed)

theorem scaleIndex_launch (formed : batch.WellFormed query sizes)
    (own : head < sizes.kvHeads) (inside : dim < sizes.headDim)
    (within : sizes.Within (2 ^ 31) (block, token)) :
    scaleIndex (sizes.launch lanes) head block token dim =
      some ((sizes.row block token head * sizes.groups + dim / sizes.groupSize : Nat) : Int) := by
  have narrow := (formed.dim_lt inside).2
  exact scaleIndex_eq rfl rfl own rfl rfl formed.group_pos narrow
    (index_lt own narrow within.scales)

theorem value_launch (formed : batch.WellFormed query sizes) {packed : Tensor UInt8}
    {scales : Tensor UInt16}
    (packedShape : packed.shape =
      [sizes.blocks, sizes.tokens, sizes.kvHeads, sizes.packedDim])
    (scalesShape : scales.shape = [sizes.blocks, sizes.tokens, sizes.kvHeads, sizes.groups])
    (present : block < sizes.blocks) (valid : token < sizes.tokens)
    (own : head < sizes.kvHeads) (inside : dim < sizes.headDim)
    (within : sizes.Within (2 ^ 31) (block, token)) :
    value (sizes.launch lanes) packed scales head block token dim =
      some (Extended.real (sizes.value ℝ packed scales block token head dim)) := by
  obtain ⟨byteNarrow, scaleNarrow⟩ := formed.dim_lt inside
  have byteInside := BatchSizes.row_inside packedShape present valid own byteNarrow
  have scaleInside := BatchSizes.row_inside scalesShape present valid own scaleNarrow
  have read := @PackedBatch.WellFormed.value_eq ℝ _ batch query sizes lanes block token head
    dim formed _ packed scales
  unfold value
  rw [byteIndex_launch formed own inside within, scaleIndex_launch formed own inside within,
    Option.bind_eq_bind, Option.bind_some, load_of_lt 0 byteInside, Option.bind_eq_bind,
    Option.bind_some]
  simp only [Option.bind_eq_bind, Option.bind_some, load_of_lt 0 scaleInside]
  rw [read]
  change some (Extended.real _) = some (Extended.real _)
  congr 2
  change ((_ - _ : Int) : ℝ) * _ = ((_ : Int) - (_ : Int) : ℝ) * _
  push_cast
  rfl

end Thread

section Token

/-- The rows of the valid tokens, and the query, end within the first `2 ^ 31` items of
their tensors. -/
structure Indexed (batch : PackedBatch) (sizes : BatchSizes) : Prop where
  rows : ∀ position ∈ batch.validPositions sizes.blocks, sizes.Within (2 ^ 31) position
  query : sizes.queryHeads * sizes.headDim ≤ 2 ^ 31

variable {batch : PackedBatch} {query : Tensor ℝ} {sizes : BatchSizes} {scale : ℝ}
  {lanes head : Nat} {position : Nat × Nat}
  (formed : batch.WellFormed query sizes) (wide : sizes.headDim ≤ lanes)
  (indexed : Indexed batch sizes) (inside : head < sizes.queryHeads)
  (valid : position ∈ batch.validPositions sizes.blocks)

include formed wide indexed inside valid in
/-- The partial sum of a thread is its product. -/
theorem partialDot_launch (tid : Nat) :
    partialDot (query.map Extended.real) batch (sizes.launch lanes) head (sizes.kvHead head)
        position.1 position.2 tid =
      some (.real (if tid < sizes.headDim then
        sizes.product query batch head position tid else 0)) := by
  unfold partialDot
  rw [strided_launch wide]
  by_cases narrow : tid < sizes.headDim
  · obtain ⟨present, token⟩ := formed.position_inside valid
    have read := @value_launch batch query sizes lanes position.1 position.2
      (sizes.kvHead head) tid formed _ _ formed.packedK formed.scalesK present token
      (formed.kvHead_lt inside) narrow (indexed.rows position valid)
    have items := indexed.query
    have below : head * sizes.headDim + tid < 2 ^ 31 := by
      have rows : (head + 1) * sizes.headDim ≤ sizes.queryHeads * sizes.headDim :=
        Nat.mul_le_mul_right _ inside
      rw [Nat.add_mul, Nat.one_mul] at rows
      omega
    have row : int ((head : Int) * (sizes.launch lanes).headDim) =
        some ((head * sizes.headDim : Nat) : Int) := by
      change int ((head : Int) * (sizes.headDim : Int)) = _
      rw [← Nat.cast_mul]
      exact int_natCast (by omega)
    have index : int (((head * sizes.headDim : Nat) : Int) + (tid : Nat)) =
        some ((head * sizes.headDim + tid : Nat) : Int) := by
      rw [← Nat.cast_add]
      exact int_natCast below
    have item := formed.load_query inside narrow
    rw [if_pos narrow, if_pos narrow, List.foldlM_cons]
    refine Option.bind_eq_some_iff.mpr ⟨_, ?_, rfl⟩
    refine Option.bind_eq_some_iff.mpr ⟨_, read, ?_⟩
    refine Option.bind_eq_some_iff.mpr ⟨_, row, ?_⟩
    refine Option.bind_eq_some_iff.mpr ⟨_, index, ?_⟩
    refine Option.bind_eq_some_iff.mpr ⟨_, item, ?_⟩
    change some (Extended.real _) = _
    rw [zero_add]
    rfl
  · rw [if_neg narrow, if_neg narrow]
    rfl

include formed wide indexed inside valid in
theorem score_launch {power : Nat} (doubled : lanes = 2 ^ power) :
    ∃ sums, (List.range lanes).mapM (partialDot (query.map Extended.real) batch
        (sizes.launch lanes) head (sizes.kvHead head) position.1 position.2) = some sums ∧
      Extended.mul (reduceTree (lanes / 2) (fun tid => sums.getD tid (.real 0)) 0)
        (.real scale) = .real (sizes.score query batch scale head position) := by
  refine ⟨_, mapM_eq_some fun tid _ => partialDot_launch formed wide indexed inside valid tid,
    ?_⟩
  have listed : (fun tid => ((List.range lanes).map fun tid => Extended.real
      (if tid < sizes.headDim then sizes.product query batch head position tid else 0)).getD
        tid (.real 0)) = fun tid => Extended.real
      (if tid < sizes.headDim then sizes.product query batch head position tid else 0) := by
    funext tid
    by_cases low : tid < lanes
    · simp [low]
    · rw [if_neg (by omega), List.getD_eq_getElem?_getD, List.getElem?_eq_none (by simpa using low)]
      rfl
  rw [listed, doubled, reduceTree_sum, ← doubled, sum_lanes wide]
  rfl

/-- What a thread block keeps between two tokens. -/
structure Kept (sizes : BatchSizes) (query : Tensor ℝ) (batch : PackedBatch) (scale : ℝ)
    (head : Nat) (seen : List (Nat × Nat)) (state : State Extended) : Prop where
  running : sizes.Running query batch scale head seen state.runningM state.runningL
    state.outAcc
  shared : seen ≠ [] → state.shared = some state.runningL

include formed wide indexed inside valid in
/-- The step lemma. -/
theorem tokenStep_launch {power : Nat} (doubled : lanes = 2 ^ power)
    {seen : List (Nat × Nat)} {state : State Extended}
    (kept : Kept sizes query batch scale head seen state) :
    ∃ next, tokenStep (query.map Extended.real) batch (.real scale) (sizes.launch lanes) head
        (sizes.kvHead head) position.1 state position.2 = some next ∧
      Kept sizes query batch scale head (seen ++ [position]) next := by
  obtain ⟨present, token⟩ := formed.position_inside valid
  obtain ⟨sums, sumsOk, scored⟩ :=
    @score_launch batch query sizes scale lanes head position formed wide indexed inside valid
      power doubled
  let score := Extended.mul (reduceTree (lanes / 2) (fun tid => sums.getD tid (.real 0)) 0)
    (.real scale)
  let moved (entry : Extended × Nat) : Extended :=
    if entry.2 < sizes.headDim then
      (entry.1.mul (oldWeight state.runningM score)).add
        ((Extended.real (sizes.weighed batch head entry.2 position)).mul
          (newWeight state.runningM score))
    else entry.1
  have threads : ∀ entry ∈ state.outAcc.zipIdx, (if entry.2 < sizes.headDim then do
      let v ← value (sizes.launch lanes) batch.packedV batch.scalesV (sizes.kvHead head)
        position.1 position.2 entry.2
      return KernelArith.toAttentionArith.add
        (AttentionArith.toDequantArith.mul entry.1 (oldWeight state.runningM score))
        (AttentionArith.toDequantArith.mul v (newWeight state.runningM score))
      else return entry.1) = some (moved entry) := by
    intro entry _
    by_cases narrow : entry.2 < sizes.headDim
    · rw [if_pos narrow, value_launch formed formed.packedV formed.scalesV present token
        (formed.kvHead_lt inside) narrow (indexed.rows position valid)]
      change some _ = some (if _ then _ else _)
      rw [if_pos narrow]
      rfl
    · rw [if_neg narrow]
      change some _ = some (if _ then _ else _)
      rw [if_neg narrow]
  let sum := (oldWeight state.runningM score).mul state.runningL |>.add
    (newWeight state.runningM score)
  refine ⟨⟨state.runningM.max score, sum, some sum, state.outAcc.zipIdx.map moved⟩, ?_, ?_, ?_⟩
  · unfold tokenStep
    refine Option.bind_eq_some_iff.mpr ⟨sums, sumsOk, ?_⟩
    exact Option.bind_eq_some_iff.mpr ⟨_, mapM_eq_some threads, rfl⟩
  · change sizes.Running query batch scale head (seen ++ [position])
      (state.runningM.max score) sum (state.outAcc.zipIdx.map moved)
    have commuted : sum = (state.runningL.mul (oldWeight state.runningM score)).add
        (newWeight state.runningM score) := by
      rw [Extended.mul_comm]
    rw [commuted]
    apply kept.running.step scored
    intro column narrow item found
    rw [List.getElem?_map, List.getElem?_zipIdx, found, Option.map_some, Option.map_some,
      Nat.zero_add]
    exact congrArg some (if_pos narrow)
  · intro _
    rfl

end Token

/-- The sizes of the tensors, and the group size, are `int`s. -/
structure Sized (sizes : BatchSizes) : Prop where
  blocks : sizes.blocks < 2 ^ 31
  tokens : sizes.tokens < 2 ^ 31
  kvHeads : sizes.kvHeads < 2 ^ 31
  queryHeads : sizes.queryHeads < 2 ^ 31
  groupSize : sizes.groupSize < 2 ^ 31

section Launch

variable {F : Type} {batch : PackedBatch} {query : Tensor F} {sizes : BatchSizes}
  {lanes head : Nat}

/-- A batch whose sizes are `int`s passes all checks, and is launched with its sizes. -/
theorem run_launch (formed : batch.WellFormed query sizes) (sized : Sized sizes)
    (small : sizes.headDim ≤ 256) :
    CudaExtensionBackend.run query batch =
      .ok (sizes.launch (powerAtLeast sizes.headDim 5)) := by
  obtain ⟨packedDim, groups⟩ := formed.widths_le
  have narrowed : (batch.shapes query).Sized batch.groupSize := by
    rw [formed.shapes_eq, formed.groupSize_eq]
    exact
      { blocks := sized.blocks
        tokens := sized.tokens
        kvHeads := sized.kvHeads
        packedDim := Nat.lt_of_le_of_lt packedDim (by omega)
        groups := Nat.lt_of_le_of_lt groups (by omega)
        queryHeads := sized.queryHeads
        headDim := by
          change sizes.headDim < 2 ^ 31
          omega
        groupSize := ⟨by omega, by exact_mod_cast sized.groupSize⟩ }
  rw [formed.launch_eq]
  apply (run_eq_ok_iff narrowed).mpr
  rw [formed.shapes_eq, formed.groupSize_eq]
  exact ⟨formed.validate, small, rfl, rfl⟩

theorem loops_launch (formed : batch.WellFormed query sizes) {σ : Type}
    (step : Nat → σ → Nat → Option σ) (start : σ) :
    (List.range sizes.blocks).foldlM (fun state (block : Nat) => do
        let valid ← load batch.validTokens.data block
        (List.range valid.toNat).foldlM (step block) state) start =
      (batch.validPositions sizes.blocks).foldlM
        (fun state position => step position.1 state position.2) start := by
  apply foldlM_flatMap
  intro state block member
  rw [load_natCast, (formed.validAt_eq (List.mem_range.mp member)).1]
  rfl

end Launch

section Kernel

variable {batch : PackedBatch} {query : Tensor ℝ} {sizes : BatchSizes} {scale : ℝ}
  {lanes head : Nat}

/-- The thread block of a query head returns its averages and its log mass. -/
theorem fusedDecodeKernel_launch (formed : batch.WellFormed query sizes)
    (wide : sizes.headDim ≤ lanes) {power : Nat} (doubled : lanes = 2 ^ power)
    (indexed : Indexed batch sizes) (inside : head < sizes.queryHeads) :
    fusedDecodeKernel (query.map Extended.real) batch (.real scale) (sizes.launch lanes) head =
      some (((List.range sizes.headDim).map fun column => Softmax.average
          (sizes.items query batch scale head column
            (batch.validPositions sizes.blocks))).map Extended.real,
        .real (Softmax.logMass
          (sizes.scores query batch scale head (batch.validPositions sizes.blocks)))) := by
  let start : State Extended := ⟨.negInf, .real 0, none, List.replicate lanes (.real 0)⟩
  have initial : Kept sizes query batch scale head [] start :=
    ⟨BatchSizes.running_start wide, fun nonempty => absurd rfl nonempty⟩
  obtain ⟨final, run, kept⟩ := @foldlM_invariant _ _ _ _
    (batch.validPositions sizes.blocks) _ initial fun seen position rest state split kept =>
      tokenStep_launch formed wide indexed inside (by rw [split]; simp) doubled kept
  have nonempty := formed.positions_ne_nil
  obtain ⟨rows, lse⟩ := kept.running.finish nonempty
  have divided : ∀ outAcc ∈ final.outAcc.take sizes.headDim, (do
      let sum ← final.shared
      return KernelArith.toAttentionArith.div outAcc sum) =
        some (outAcc.div final.runningL) := by
    intro outAcc _
    rw [kept.shared nonempty]
    rfl
  unfold fusedDecodeKernel
  refine Option.bind_eq_some_iff.mpr ⟨_, formed.kvHead_launch inside, ?_⟩
  refine Option.bind_eq_some_iff.mpr ⟨final, ?_, ?_⟩
  · exact (loops_launch formed _ start).trans run
  · refine Option.bind_eq_some_iff.mpr ⟨_, mapM_eq_some divided, ?_⟩
    exact congrArg some (congrArg₂ Prod.mk rows lse)

end Kernel

end Cuda

end KVSSD

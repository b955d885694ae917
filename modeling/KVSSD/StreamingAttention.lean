import KVSSD.AttentionRun
import KVSSD.Lib.Binary
import KVSSD.Lib.Softmax
import KVSSD.StoreRoundTrip

/-!
# Streaming attention is exact

Over the reals, the loop of `_decode_cuda_streamed` computes the attention over
all blocks, whatever the chunk size.
-/

namespace KVSSD

open KVSSD.Python KVSSD.Softmax KVSSDPipeline

/-- The real numbers. -/
noncomputable instance : AttentionArith ℝ where
  ofInt value := value
  sub left right := left - right
  mul left right := left * right
  ofHalf bits := Half.toRat bits
  zero := 0
  add left right := left + right
  div left right := left / right
  exp := Real.exp
  log := Real.log

theorem sumItems_real (items : List ℝ) : sumItems items = items.sum :=
  List.sum_eq_foldl.symm

theorem logSumExp_real (scores : List ℝ) : logSumExp scores = logMass scores := by
  rw [logSumExp, sumItems_real]
  rfl

theorem dot_softmax (items : List (ℝ × ℝ)) :
    dot (softmax (scores items)) (items.map Prod.snd) = average items := by
  have total : sumItems ((scores items).map AttentionArith.exp) = mass (scores items) :=
    sumItems_real _
  have products : List.zipWith DequantArith.mul (softmax (scores items)) (items.map Prod.snd) =
      items.map fun item => (mass (scores items))⁻¹ * (Real.exp item.1 * item.2) := by
    rw [softmax, total, scores, List.map_map, List.zipWith_map, List.zipWith_self]
    refine List.map_congr_left ?_
    intro item _
    change Real.exp item.1 / _ * item.2 = _
    rw [div_eq_inv_mul, mul_assoc]
  rw [dot, products, sumItems_real, List.sum_map_mul_left]
  rfl

/-- Merging the averages and log masses of two families of scored values, whose scores are
those of the head in every column. -/
theorem mergeAttentionChunks_averages {heads dim : Nat} {front back : Nat → Nat → List (ℝ × ℝ)}
    {frontScores backScores : Nat → List ℝ}
    (frontSame : ∀ head column, scores (front head column) = frontScores head)
    (backSame : ∀ head column, scores (back head column) = backScores head)
    (frontNonempty : ∀ head < heads, ∀ column, front head column ≠ [])
    (backNonempty : ∀ head < heads, ∀ column, back head column ≠ [])
    {leftOutput leftLse rightOutput rightLse : Tensor ℝ}
    (leftTable : leftOutput.IsTable heads dim fun head =>
      (List.range dim).map fun column => average (front head column))
    (leftColumn : leftLse.IsColumn heads fun head => logMass (frontScores head))
    (rightTable : rightOutput.IsTable heads dim fun head =>
      (List.range dim).map fun column => average (back head column))
    (rightColumn : rightLse.IsColumn heads fun head => logMass (backScores head)) :
    ∃ output lse,
      mergeAttentionChunks leftOutput leftLse rightOutput rightLse = .ok (output, lse) ∧
      (output.IsTable heads dim fun head => (List.range dim).map fun column =>
        average (front head column ++ back head column)) ∧
      lse.IsColumn heads fun head => logMass (frontScores head ++ backScores head) := by
  obtain ⟨lse, lseOk, lseColumn⟩ := leftColumn.zipWith rightColumn logAddExp
  obtain ⟨leftWeights, leftWeightsOk, leftWeightsColumn⟩ := leftColumn.zipWith lseColumn
    fun lse merged => AttentionArith.exp (DequantArith.sub lse merged)
  obtain ⟨leftScaled, leftScaledOk, leftScaledTable⟩ := leftTable.zipLast leftWeightsColumn
    fun weight item => DequantArith.mul item weight
  obtain ⟨rightWeights, rightWeightsOk, rightWeightsColumn⟩ := rightColumn.zipWith lseColumn
    fun lse merged => AttentionArith.exp (DequantArith.sub lse merged)
  obtain ⟨rightScaled, rightScaledOk, rightScaledTable⟩ := rightTable.zipLast
    rightWeightsColumn fun weight item => DequantArith.mul item weight
  obtain ⟨output, outputOk, outputTable⟩ := leftScaledTable.zipWith rightScaledTable
    AttentionArith.add
  have merged : ∀ head < heads, ∀ column,
      logAddExp (logMass (frontScores head)) (logMass (backScores head)) =
        logMass (scores (front head column ++ back head column)) := by
    intro head inside column
    rw [← frontSame head column, ← backSame head column, scores_append]
    exact logAddExp_logMass (scores_ne_nil (frontNonempty head inside column))
      (scores_ne_nil (backNonempty head inside column))
  refine ⟨output, lse, ?_, outputTable.congr ?_, lseColumn.congr ?_⟩
  · unfold mergeAttentionChunks
    simp only [lseOk, ok_bind, leftWeightsOk, leftScaledOk, rightWeightsOk, rightScaledOk,
      outputOk]
    rfl
  · intro head inside
    rw [List.map_map, List.map_map, List.zipWith_map, List.zipWith_self]
    refine List.map_congr_left ?_
    intro column _
    have together := merge_average (frontNonempty head inside column)
      (backNonempty head inside column)
    rw [← together, frontSame, backSame, ← merged head inside column, smul_eq_mul, smul_eq_mul]
    change _ * Real.exp (_ - _) + _ * Real.exp (_ - _) = _
    rw [mul_comm, mul_comm (average _)]
  · intro head inside
    rw [merged head inside 0, scores_append, frontSame, backSame]

section Merge

variable {query : Tensor ℝ} {queryHeads dim ratio : Nat} {scale : ℝ}
  {tokens front back : List (Token ℝ)}

/-- The scored values of one query head and one column. -/
def scoredValues {F : Type} [AttentionArith F] (query : Tensor F)
    (queryHeads dim ratio : Nat) (scale : F) (tokens : List (Token F)) (head column : Nat) :
    List (F × F) :=
  (headScores query queryHeads dim ratio scale tokens head).zip
    (headValues ratio tokens head column)

theorem scores_scoredValues (head column : Nat) :
    scores (scoredValues query queryHeads dim ratio scale tokens head column) =
      headScores query queryHeads dim ratio scale tokens head := by
  rw [scores, scoredValues, List.map_fst_zip]
  simp [headScores, headValues]

theorem snd_scoredValues (head column : Nat) :
    (scoredValues query queryHeads dim ratio scale tokens head column).map Prod.snd =
      headValues ratio tokens head column := by
  rw [scoredValues, List.map_snd_zip]
  simp [headScores, headValues]

theorem scoredValues_append (head column : Nat) :
    scoredValues query queryHeads dim ratio scale (front ++ back) head column =
      scoredValues query queryHeads dim ratio scale front head column ++
        scoredValues query queryHeads dim ratio scale back head column := by
  simp [scoredValues, headScores, headValues, List.zip_append]

theorem scoredValues_ne_nil (nonempty : tokens ≠ []) (head column : Nat) :
    scoredValues query queryHeads dim ratio scale tokens head column ≠ [] := by
  obtain ⟨token, rest, rfl⟩ := List.exists_cons_of_ne_nil nonempty
  simp [scoredValues, headScores, headValues]

theorem attends_real {output lse : Tensor ℝ} :
    Attends query queryHeads dim ratio scale tokens output lse ↔
      (output.IsTable queryHeads dim fun head => (List.range dim).map fun column =>
        average (scoredValues query queryHeads dim ratio scale tokens head column)) ∧
      lse.IsColumn queryHeads fun head =>
        logMass (headScores query queryHeads dim ratio scale tokens head) := by
  have outputs : ∀ head column,
      dot (softmax (headScores query queryHeads dim ratio scale tokens head))
          (headValues ratio tokens head column) =
        average (scoredValues query queryHeads dim ratio scale tokens head column) := by
    intro head column
    rw [← dot_softmax, scores_scoredValues, snd_scoredValues]
  constructor
  · rintro ⟨table, column⟩
    simp only [outputs, logSumExp_real] at table column
    exact ⟨table, column⟩
  · rintro ⟨table, column⟩
    refine ⟨?_, ?_⟩
    · simpa only [outputs] using table
    · simpa only [logSumExp_real] using column

theorem mergeAttentionChunks_spec {leftOutput leftLse rightOutput rightLse : Tensor ℝ}
    (left : Attends query queryHeads dim ratio scale front leftOutput leftLse)
    (right : Attends query queryHeads dim ratio scale back rightOutput rightLse)
    (frontNonempty : front ≠ []) (backNonempty : back ≠ []) :
    ∃ output lse,
      mergeAttentionChunks leftOutput leftLse rightOutput rightLse = .ok (output, lse) ∧
      Attends query queryHeads dim ratio scale (front ++ back) output lse := by
  obtain ⟨leftTable, leftColumn⟩ := attends_real.mp left
  obtain ⟨rightTable, rightColumn⟩ := attends_real.mp right
  obtain ⟨output, lse, merged, table, column⟩ := mergeAttentionChunks_averages
    (fun head column => scores_scoredValues head column)
    (fun head column => scores_scoredValues head column)
    (fun head _ column => scoredValues_ne_nil frontNonempty head column)
    (fun head _ column => scoredValues_ne_nil backNonempty head column)
    leftTable leftColumn rightTable rightColumn
  refine ⟨output, lse, merged, attends_real.mpr ⟨table.congr ?_, column.congr ?_⟩⟩
  · intro head _
    simp only [scoredValues_append]
  · intro head _
    congr 1
    simp [headScores]

end Merge

section Loop

variable {spec : CacheSpec} {tokens heads dim width groups groupSize : Nat}
  (cuts : spec.Cuts tokens heads dim width groups groupSize) {query : Tensor ℝ}
  {queryHeads : Nat} (queryShape : query.shape = [queryHeads, dim])
  (divides : heads ∣ queryHeads) (device : Device) (scale : ℝ)
  {run : Tensor ℝ → PackedBatch → ℝ → Except PyError (Tensor ℝ × Tensor ℝ)}

/-- What the loop has merged so far is the attention over the tokens seen. -/
def MergedOver (query : Tensor ℝ) (queryHeads heads dim : Nat) (scale : ℝ)
    (seen : List (Token ℝ)) : Option (Tensor ℝ × Tensor ℝ) → Prop
  | none => seen = []
  | some (output, lse) =>
      seen ≠ [] ∧ Attends query queryHeads dim (queryHeads / heads) scale seen output lse

theorem blockTokens_ne_nil {chunk : List PackedKVBlock} (nonempty : chunk ≠ [])
    (counted : ∀ block ∈ chunk, block.Counted spec) (heads dim : Nat) :
    blockTokens ℝ heads dim chunk ≠ [] := by
  obtain ⟨block, rest, rfl⟩ := List.exists_cons_of_ne_nil nonempty
  have positive := (counted block (by simp)).valid_pos
  have own : (block.tokens ℝ heads dim).length = block.validTokens.toNat := by
    simp [PackedKVBlock.tokens, QuantizedTensor.validHeads]
  rw [blockTokens, List.flatMap_cons]
  refine List.append_ne_nil_of_left_ne_nil ?_ _
  rw [← List.length_pos_iff, own]
  omega

include cuts queryShape divides in
theorem streamChunks_step {current : PackedBatch} {chunk : List PackedKVBlock}
    (stages : current.Stages spec chunk) (nonempty : chunk ≠ [])
    (counted : ∀ block ∈ chunk, block.Counted spec)
    (agrees : run query current scale = ReferenceAttentionBackend.run query current scale)
    {seen : List (Token ℝ)} {merged : Option (Tensor ℝ × Tensor ℝ)}
    (covered : MergedOver query queryHeads heads dim scale seen merged) :
    ∃ result, streamChunks.step run query scale current merged = .ok result ∧
      MergedOver query queryHeads heads dim scale (seen ++ blockTokens ℝ heads dim chunk)
        (some result) := by
  obtain ⟨output, lse, runOk, attends⟩ :=
    stages.run cuts nonempty (fun block member => (counted block member).filled) queryShape
      divides scale
  have more := blockTokens_ne_nil nonempty counted heads dim
  unfold streamChunks.step
  rw [agrees, runOk, ok_bind]
  cases merged with
  | none =>
      have start : seen = [] := covered
      subst start
      exact ⟨(output, lse), rfl, more, attends⟩
  | some before =>
      obtain ⟨seenNonempty, seenAttends⟩ := covered
      obtain ⟨mergedOutput, mergedLse, mergedOk, together⟩ :=
        mergeAttentionChunks_spec seenAttends attends seenNonempty more
      exact ⟨(mergedOutput, mergedLse), mergedOk, by simp [seenNonempty], together⟩

include cuts queryShape divides in
/-- The whole loop: the tokens of all chunks are merged. -/
theorem streamChunks_spec {current : PackedBatch} {chunk : List PackedKVBlock}
    (stages : current.Stages spec chunk) {rest : List (List PackedKVBlock)}
    (nonempty : ∀ part ∈ chunk :: rest, part ≠ [])
    (counted : ∀ part ∈ chunk :: rest, ∀ block ∈ part, block.Counted spec)
    (agrees : ∀ part ∈ chunk :: rest, ∀ batch : PackedBatch, batch.Stages spec part →
      run query batch scale = ReferenceAttentionBackend.run query batch scale)
    {seen : List (Token ℝ)} {merged : Option (Tensor ℝ × Tensor ℝ)}
    (covered : MergedOver query queryHeads heads dim scale seen merged) :
    ∃ output lse, streamChunks run spec device query scale current merged rest = .ok output ∧
      Attends query queryHeads dim (queryHeads / heads) scale
        (seen ++ blockTokens ℝ heads dim (chunk :: rest).flatten) output lse := by
  induction rest generalizing current chunk seen merged with
  | nil =>
      obtain ⟨result, stepOk, _, attends⟩ := streamChunks_step cuts queryShape divides scale
        stages (nonempty chunk (by simp)) (counted chunk (by simp))
        (agrees chunk (by simp) current stages) covered
      refine ⟨result.1, result.2, ?_, by simpa using attends⟩
      rw [streamChunks, stepOk]
      rfl
  | cons next rest induction =>
      obtain ⟨result, stepOk, after⟩ := streamChunks_step cuts queryShape divides scale stages
        (nonempty chunk (by simp)) (counted chunk (by simp))
        (agrees chunk (by simp) current stages) covered
      have nextNonempty := nonempty next (by simp)
      have nextFilled : ∀ block ∈ next, block.Filled spec :=
        fun block member => (counted next (by simp) block member).filled
      obtain ⟨batch, batchStages⟩ := exists_stages cuts nextNonempty nextFilled
      obtain ⟨output, lse, loopOk, attends⟩ := induction batchStages
        (fun part member => nonempty part (List.mem_cons_of_mem _ member))
        (fun part member => counted part (List.mem_cons_of_mem _ member))
        (fun part member => agrees part (List.mem_cons_of_mem _ member)) after
      refine ⟨output, lse, ?_, ?_⟩
      · rw [streamChunks, stepOk, ok_bind, batchStages.stage cuts nextFilled nextNonempty device]
        exact loopOk
      · have regroup : seen ++ blockTokens ℝ heads dim (chunk :: next :: rest).flatten =
            seen ++ blockTokens ℝ heads dim chunk ++
              blockTokens ℝ heads dim (next :: rest).flatten := by
          simp [blockTokens, List.flatMap_append]
        rw [regroup]
        exact attends

include cuts queryShape divides in
/-- Streaming over a backend that agrees with the reference on every chunk attends to all blocks. -/
theorem decodeCudaStreamed_attends {blocks : List PackedKVBlock} (nonempty : blocks ≠ [])
    (counted : ∀ block ∈ blocks, block.Counted spec) {stageBlocks : Int}
    (agrees : ∀ part ∈ chunks blocks stageBlocks, ∀ batch : PackedBatch, batch.Stages spec part →
      run query batch scale = ReferenceAttentionBackend.run query batch scale) :
    ∃ output lse,
      decodeCudaStreamed run spec device query scale blocks stageBlocks = .ok output ∧
        Attends query queryHeads dim (queryHeads / heads) scale (blockTokens ℝ heads dim blocks)
          output lse := by
  have whole := flatten_chunks blocks stageBlocks
  have partsNonempty : ∀ part ∈ chunks blocks stageBlocks, part ≠ [] :=
    fun part member => ne_nil_of_mem_chunks member
  have partsCounted : ∀ part ∈ chunks blocks stageBlocks, ∀ block ∈ part,
      block.Counted spec := by
    intro part member block inside
    refine counted block ?_
    rw [← whole]
    exact List.mem_flatten.mpr ⟨part, member, inside⟩
  unfold decodeCudaStreamed
  cases parts : chunks blocks stageBlocks with
  | nil =>
      rw [parts] at whole
      exact absurd whole.symm nonempty
  | cons chunk rest =>
      rw [parts] at whole partsNonempty partsCounted agrees
      have chunkNonempty := partsNonempty chunk (by simp)
      have chunkFilled : ∀ block ∈ chunk, block.Filled spec :=
        fun block member => (partsCounted chunk (by simp) block member).filled
      obtain ⟨batch, stages⟩ := exists_stages cuts chunkNonempty chunkFilled
      have start : MergedOver query queryHeads heads dim scale [] none := rfl
      obtain ⟨output, lse, loopOk, attends⟩ := streamChunks_spec cuts queryShape divides device
        scale stages partsNonempty partsCounted agrees start
      rw [List.nil_append, whole] at attends
      refine ⟨output, lse, ?_, attends⟩
      simp only [stages.stage cuts chunkFilled chunkNonempty device, ok_bind, loopOk]

end Loop

/-- Chunked streaming attention is the attention over the dequantized valid tokens
of all blocks, for every chunk size, and the chunks are the blocks in order. -/
theorem decodeCudaStreamed_exact {spec : CacheSpec} (packs : spec.Packs)
    {blocks : List PackedKVBlock} (nonempty : blocks ≠ [])
    (counted : ∀ block ∈ blocks, block.Counted spec) {query : Tensor ℝ} {queryHeads : Nat}
    (queryShape : query.shape.map Int.ofNat = [(queryHeads : Int), spec.headDim])
    (divides : spec.kvHeads ∣ (queryHeads : Int)) (device : Device) (scale : ℝ)
    (stageBlocks : Int) :
    (chunks blocks stageBlocks).flatten = blocks ∧
      ∃ output,
        decodeCudaStreamed ReferenceAttentionBackend.run spec device query scale blocks
          stageBlocks = .ok output ∧
        packedAttention query blocks scale = .ok output ∧
        packedAttentionReference query blocks scale = .ok output := by
  obtain ⟨tokens, heads, dim, width, groups, groupSize, cuts, _, headsEq, dimEq⟩ := packs.cuts
  rw [dimEq] at queryShape
  rw [headsEq] at divides
  have shape : query.shape = [queryHeads, dim] := by
    refine List.map_injective_iff.mpr Int.ofNat_injective ?_
    exact queryShape
  have heads_dvd : heads ∣ queryHeads := by exact_mod_cast divides
  refine ⟨flatten_chunks blocks stageBlocks, ?_⟩
  have filled : ∀ block ∈ blocks, block.Filled spec :=
    fun block member => (counted block member).filled
  obtain ⟨output, _, outputOk, attends⟩ :=
    packedAttention_attends cuts nonempty filled shape heads_dvd scale
  refine ⟨output, ?_, outputOk,
    (packedAttention_eq_reference cuts nonempty filled shape heads_dvd scale) ▸ outputOk⟩
  obtain ⟨streamed, _, streamedOk, together⟩ := decodeCudaStreamed_attends cuts shape heads_dvd
    device scale nonempty counted fun part (_ : part ∈ chunks blocks stageBlocks) _ _ => rfl
  rw [streamedOk, together.output.unique attends.output]

theorem tinyBlock_counted : (tinyBlock 1).Counted tinySpec where
  shaped := ⟨rfl, rfl, rfl, rfl, rfl, rfl, rfl, rfl, rfl, rfl⟩
  valid_pos := by decide
  valid_le := by decide
  int32 := by decide

/-- Two blocks in chunks of one, under two query heads. -/
theorem decodeCudaStreamed_exact_tiny :
    (chunks [tinyBlock 1, tinyBlock 1] 1).flatten = [tinyBlock 1, tinyBlock 1] ∧
      ∃ output,
        decodeCudaStreamed ReferenceAttentionBackend.run tinySpec .cpu
          ⟨[2, 2], [1, 0, 0, 1], rfl⟩ (1 / 2 : ℝ) [tinyBlock 1, tinyBlock 1] 1 = .ok output ∧
        packedAttention ⟨[2, 2], [1, 0, 0, 1], rfl⟩ [tinyBlock 1, tinyBlock 1] (1 / 2 : ℝ) =
          .ok output ∧
        packedAttentionReference ⟨[2, 2], [1, 0, 0, 1], rfl⟩ [tinyBlock 1, tinyBlock 1]
          (1 / 2 : ℝ) = .ok output :=
  @decodeCudaStreamed_exact tinySpec ⟨rfl, by decide, by decide⟩ _ (by simp)
    (by
      intro block member
      have same : block = tinyBlock 1 := by simpa using member
      rw [same]
      exact tinyBlock_counted)
    _ 2 rfl (by decide) .cpu (1 / 2) 1

end KVSSD

import KVSSD.KernelValues

/-!
# What the kernels are to return

The scores and the weighted values of a query head, as lists over the valid tokens of
the batch, and the row of the reference in terms of them.
-/

namespace KVSSD

open KVSSD.Quant KVSSD.Softmax KVSSD.OnlineSoftmax

theorem map_getD_range {α : Type} (items : List α) (missing : α) :
    (List.range items.length).map (fun index => items.getD index missing) = items := by
  apply List.ext_getElem
  · simp
  · intro index _ inside
    simp [inside]

theorem sum_lanes {dims lanes : Nat} (wide : dims ≤ lanes) (item : Nat → ℝ) :
    ((List.range lanes).map fun lane => if lane < dims then item lane else 0).sum =
      ((List.range dims).map item).sum := by
  obtain ⟨more, rfl⟩ := Nat.exists_eq_add_of_le wide
  have rest : ((List.range more).map (dims + ·)).map
      (fun lane => if lane < dims then item lane else 0) = (List.range more).map fun _ => 0 := by
    rw [List.map_map]
    apply List.map_congr_left
    intro lane _
    exact if_neg (show ¬ dims + lane < dims by omega)
  rw [List.range_add, List.map_append, List.sum_append, rest]
  have zeros : ((List.range more).map fun _ => (0 : ℝ)).sum = 0 := by simp
  rw [zeros, add_zero]
  congr 1
  apply List.map_congr_left
  intro lane member
  exact if_pos (List.mem_range.mp member)

section Scores

variable (sizes : BatchSizes) (query : Tensor ℝ) (batch : PackedBatch) (scale : ℝ)

/-- The head of the cache that a query head reads. -/
def BatchSizes.kvHead (head : Nat) : Nat := head / (sizes.queryHeads / sizes.kvHeads)

/-- One product of the dot product of a query head and a key. -/
noncomputable def BatchSizes.product (head : Nat) (position : Nat × Nat) (dim : Nat) : ℝ :=
  query.data.getD (head * sizes.headDim + dim) 0 *
    sizes.value ℝ batch.packedK batch.scalesK position.1 position.2 (sizes.kvHead head) dim

/-- The score of a token for a query head. -/
noncomputable def BatchSizes.score (head : Nat) (position : Nat × Nat) : ℝ :=
  ((List.range sizes.headDim).map (sizes.product query batch head position)).sum * scale

/-- One dimension of the value of a token for a query head. -/
noncomputable def BatchSizes.weighed (head column : Nat) (position : Nat × Nat) : ℝ :=
  sizes.value ℝ batch.packedV batch.scalesV position.1 position.2 (sizes.kvHead head) column

/-- The scored values of one dimension. -/
noncomputable def BatchSizes.items (head column : Nat) (positions : List (Nat × Nat)) :
    List (ℝ × ℝ) :=
  positions.map fun position =>
    (sizes.score query batch scale head position, sizes.weighed batch head column position)

/-- The scores of a query head. -/
noncomputable def BatchSizes.scores (head : Nat) (positions : List (Nat × Nat)) : List ℝ :=
  positions.map (sizes.score query batch scale head)

/-- What the program of every query head returns is the row of the reference. -/
def BatchSizes.Matches (kernel : Nat → Option (List Extended × Extended))
    (output lse : Tensor ℝ) : Prop :=
  ∀ head < sizes.queryHeads, kernel head =
    some (((output.matrix sizes.queryHeads sizes.headDim).getD head []).map Extended.real,
      Extended.real (lse.data.getD head 0))

end Scores

section Reference

variable {batch : PackedBatch} {query : Tensor ℝ} {sizes : BatchSizes} {scale : ℝ}
  {head column : Nat} {positions : List (Nat × Nat)}

theorem BatchSizes.scores_items :
    Softmax.scores (sizes.items query batch scale head column positions) =
      sizes.scores query batch scale head positions := by
  simp [Softmax.scores, BatchSizes.items, BatchSizes.scores]

theorem BatchSizes.heads_getD {F : Type} [DequantArith F] {packed : Tensor UInt8}
    {scales : Tensor UInt16} {block token kvHead : Nat} (inside : kvHead < sizes.kvHeads) :
    (sizes.heads F packed scales block token).getD kvHead [] =
      (List.range sizes.headDim).map (sizes.value F packed scales block token kvHead) := by
  simp [BatchSizes.heads, inside]

namespace PackedBatch.WellFormed

theorem kvHead_lt (formed : batch.WellFormed query sizes) (inside : head < sizes.queryHeads) :
    sizes.kvHead head < sizes.kvHeads :=
  KVSSD.kvHead_lt formed.heads_pos formed.shared inside

theorem kvHead_launch {F : Type} {query : Tensor F} {lanes : Nat}
    (formed : batch.WellFormed query sizes) (inside : head < sizes.queryHeads) :
    (sizes.launch lanes).kvHead head = some ((sizes.kvHead head : Nat) : Int) :=
  Launch.kvHead_eq rfl rfl formed.heads_pos formed.shared inside

theorem query_length (formed : batch.WellFormed query sizes) :
    query.data.length = sizes.queryHeads * sizes.headDim := by
  rw [query.size_eq, formed.query]
  simp

theorem query_row (formed : batch.WellFormed query sizes) (inside : head < sizes.queryHeads) :
    (query.matrix sizes.queryHeads sizes.headDim).getD head [] =
      (List.range sizes.headDim).map fun dim =>
        query.data.getD (head * sizes.headDim + dim) 0 := by
  have listed := map_getD_range query.data 0
  rw [formed.query_length] at listed
  rw [Tensor.matrix, ← listed, rows_map_range (Nat.le_refl _), listed]
  simp [inside]

theorem load_query {dim : Nat} (formed : batch.WellFormed query sizes)
    (inside : head < sizes.queryHeads) (narrow : dim < sizes.headDim) :
    load (query.map Extended.real).data ((head * sizes.headDim + dim : Nat) : Int) =
      some (.real (query.data.getD (head * sizes.headDim + dim) 0)) := by
  have present : head * sizes.headDim + dim < query.data.length := by
    rw [formed.query_length]
    calc
      head * sizes.headDim + dim < head * sizes.headDim + sizes.headDim := by omega
      _ = (head + 1) * sizes.headDim := by ring
      _ ≤ sizes.queryHeads * sizes.headDim := Nat.mul_le_mul_right _ inside
  rw [load_natCast]
  change (query.data.map Extended.real)[_]? = _
  rw [List.getElem?_map, List.getD_eq_getElem?_getD, List.getElem?_eq_getElem present]
  rfl

theorem score_eq (formed : batch.WellFormed query sizes) (inside : head < sizes.queryHeads)
    (position : Nat × Nat) :
    AttentionArith.toDequantArith.mul
      (dot ((query.matrix sizes.queryHeads sizes.headDim).getD head [])
        ((batch.token ℝ sizes position).1.getD (sizes.kvHead head) [])) scale =
      sizes.score query batch scale head position := by
  rw [formed.query_row inside, PackedBatch.token,
    BatchSizes.heads_getD (formed.kvHead_lt inside), dot, sumItems_real, List.zipWith_map,
    List.zipWith_self]
  rfl

theorem headScores_eq (formed : batch.WellFormed query sizes)
    (inside : head < sizes.queryHeads) :
    headScores query sizes.queryHeads sizes.headDim (sizes.queryHeads / sizes.kvHeads) scale
        (positions.map (batch.token ℝ sizes)) head =
      sizes.scores query batch scale head positions := by
  rw [headScores, List.map_map, BatchSizes.scores]
  apply List.map_congr_left
  intro position _
  exact formed.score_eq inside position

theorem scoredValues_eq (formed : batch.WellFormed query sizes)
    (inside : head < sizes.queryHeads) (narrow : column < sizes.headDim) :
    scoredValues query sizes.queryHeads sizes.headDim (sizes.queryHeads / sizes.kvHeads) scale
        (positions.map (batch.token ℝ sizes)) head column =
      sizes.items query batch scale head column positions := by
  have values : headValues (sizes.queryHeads / sizes.kvHeads)
      (positions.map (batch.token ℝ sizes)) head column =
        positions.map (sizes.weighed batch head column) := by
    rw [headValues, List.map_map]
    apply List.map_congr_left
    intro position _
    change ((sizes.heads ℝ batch.packedV batch.scalesV position.1 position.2).getD
      (sizes.kvHead head) []).getD column 0 = _
    rw [BatchSizes.heads_getD (formed.kvHead_lt inside)]
    simp [narrow, BatchSizes.weighed]
  rw [scoredValues, formed.headScores_eq inside, values, BatchSizes.scores, List.zip_map']
  rfl

theorem run_real (formed : batch.WellFormed query sizes) (scale : ℝ) :
    ∃ output lse, ReferenceAttentionBackend.run query batch scale = .ok (output, lse) ∧
      ∀ head < sizes.queryHeads,
        (output.matrix sizes.queryHeads sizes.headDim).getD head [] =
          (List.range sizes.headDim).map (fun column => average
            (sizes.items query batch scale head column
              (batch.validPositions sizes.blocks))) ∧
        lse.data.getD head 0 = logMass
          (sizes.scores query batch scale head (batch.validPositions sizes.blocks)) := by
  obtain ⟨output, lse, runOk, attends⟩ := formed.run scale
  obtain ⟨table, column⟩ := attends_real.mp attends
  refine ⟨output, lse, runOk, ?_⟩
  intro head inside
  constructor
  · rw [Tensor.matrix, table.matrix_eq, List.getD_eq_getElem?_getD, List.getElem?_map,
      List.getElem?_range inside, Option.map_some, Option.getD_some]
    apply List.map_congr_left
    intro column member
    rw [formed.scoredValues_eq inside (List.mem_range.mp member)]
  · rw [column.data, List.getD_eq_getElem?_getD, List.getElem?_map,
      List.getElem?_range inside, Option.map_some, Option.getD_some,
      formed.headScores_eq inside]

end PackedBatch.WellFormed

end Reference

section Running

variable (sizes : BatchSizes) (query : Tensor ℝ) (batch : PackedBatch) (scale : ℝ)
  (head : Nat)

/-- The maximum, the sum and the accumulators of a query head after some tokens. -/
structure BatchSizes.Running (seen : List (Nat × Nat)) (maximum sum : Extended)
    (accumulators : List Extended) : Prop where
  sum : Scaled maximum (mass (sizes.scores query batch scale head seen)) sum
  accumulators : ∀ column < sizes.headDim, ∃ value, accumulators[column]? = some value ∧
    Scaled maximum (weighted (sizes.items query batch scale head column seen)) value

variable {sizes query batch scale head}
variable {seen : List (Nat × Nat)} {maximum sum : Extended} {accumulators next : List Extended}

theorem BatchSizes.mass_scores_concat (position : Nat × Nat) :
    mass (sizes.scores query batch scale head (seen ++ [position])) =
      mass (sizes.scores query batch scale head seen) +
        Real.exp (sizes.score query batch scale head position) := by
  simp [BatchSizes.scores, mass]

theorem BatchSizes.weighted_items_concat (column : Nat) (position : Nat × Nat) :
    weighted (sizes.items query batch scale head column (seen ++ [position])) =
      weighted (sizes.items query batch scale head column seen) +
        Real.exp (sizes.score query batch scale head position) *
          sizes.weighed batch head column position := by
  simp [BatchSizes.items, weighted]

theorem BatchSizes.running_start {lanes : Nat} (wide : sizes.headDim ≤ lanes) :
    sizes.Running query batch scale head [] .negInf (.real 0)
      (List.replicate lanes (.real 0)) := by
  constructor
  · exact scaled_start
  · intro column inside
    refine ⟨.real 0, ?_, scaled_start⟩
    rw [List.getElem?_replicate, if_pos (by omega)]

/-- A token moves the maximum to its score and adds its weight and its weighted value. -/
theorem BatchSizes.Running.step
    (running : sizes.Running query batch scale head seen maximum sum accumulators)
    {position : Nat × Nat} {score : Extended}
    (scored : score = .real (sizes.score query batch scale head position))
    (accumulated : ∀ column < sizes.headDim, ∀ value, accumulators[column]? = some value →
      next[column]? = some ((value.mul (oldWeight maximum score)).add
        ((Extended.real (sizes.weighed batch head column position)).mul
          (newWeight maximum score)))) :
    sizes.Running query batch scale head (seen ++ [position]) (maximum.max score)
      ((sum.mul (oldWeight maximum score)).add (newWeight maximum score)) next := by
  subst scored
  constructor
  · rw [BatchSizes.mass_scores_concat]
    exact running.sum.count (sizes.score query batch scale head position)
  · intro column inside
    obtain ⟨value, present, scaled⟩ := running.accumulators column inside
    refine ⟨_, accumulated column inside value present, ?_⟩
    rw [BatchSizes.weighted_items_concat]
    exact scaled.step (sizes.score query batch scale head position)
      (sizes.weighed batch head column position)

/-- A masked token changes nothing once a token was seen. -/
theorem BatchSizes.Running.masked
    (running : sizes.Running query batch scale head seen maximum sum accumulators)
    (nonempty : seen ≠ [])
    (accumulated : ∀ column < sizes.headDim, ∀ value, accumulators[column]? = some value →
      ∃ item, next[column]? = some ((value.mul (oldWeight maximum .negInf)).add
        ((Extended.real item).mul (newWeight maximum .negInf)))) :
    sizes.Running query batch scale head seen (maximum.max .negInf)
      ((sum.mul (oldWeight maximum .negInf)).add (newWeight maximum .negInf)) next := by
  have positive : 0 < mass (sizes.scores query batch scale head seen) := by
    apply mass_pos
    simpa [BatchSizes.scores] using nonempty
  obtain ⟨top, rfl⟩ := running.sum.exists_maximum positive.ne'
  rw [max_masked, running.sum.masked_count]
  refine ⟨running.sum, ?_⟩
  intro column inside
  obtain ⟨value, present, scaled⟩ := running.accumulators column inside
  obtain ⟨item, moved⟩ := accumulated column inside value present
  rw [scaled.masked] at moved
  exact ⟨value, moved, scaled⟩

/-- What is left of the running values at the end. -/
theorem BatchSizes.Running.finish
    (running : sizes.Running query batch scale head seen maximum sum accumulators)
    (nonempty : seen ≠ []) :
    (accumulators.take sizes.headDim).map (fun value => value.div sum) =
        ((List.range sizes.headDim).map fun column => average
          (sizes.items query batch scale head column seen)).map Extended.real ∧
      maximum.add sum.log =
        .real (logMass (sizes.scores query batch scale head seen)) := by
  have positive : 0 < mass (sizes.scores query batch scale head seen) := by
    apply mass_pos
    simpa [BatchSizes.scores] using nonempty
  constructor
  · apply List.ext_getElem?
    intro column
    rw [List.getElem?_map, List.getElem?_map, List.getElem?_map, List.getElem?_take]
    by_cases inside : column < sizes.headDim
    · obtain ⟨value, present, scaled⟩ := running.accumulators column inside
      rw [if_pos inside, present, List.getElem?_range inside, Option.map_some, Option.map_some,
        Option.map_some, scaled.div running.sum positive, average, BatchSizes.scores_items,
        smul_eq_mul, div_eq_inv_mul]
    · rw [if_neg inside, List.getElem?_eq_none (by simpa using inside)]
      rfl
  · exact running.sum.add_log positive

end Running

end KVSSD

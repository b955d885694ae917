import KVSSD.DequantLayout
import KVSSD.Lib.Tables

/-!
# What the attention code computes

For every arithmetic: the scores, outputs and log-sum-exps of the reference
backend as functions of the list of valid tokens of all blocks in order.  A token
is its key heads and its value heads.
-/

namespace KVSSD

open KVSSD.Python KVSSD.Quant

theorem length_of_mem_cube {α : Type} {tensor : Tensor α} {count heads width : Nat}
    (shape : tensor.shape = [count, heads, width]) {token : List (List α)}
    (member : token ∈ tensor.cube count heads width) :
    token.length = heads ∧ ∀ row ∈ token, row.length = width := by
  obtain ⟨items, present, rfl⟩ := List.mem_map.mp member
  have length : items.length = heads * width := by
    refine length_of_mem_rows (Nat.le_of_eq ?_) present
    rw [tensor.size_eq, shape]
    simp
  exact ⟨rows_length _ _ _, fun row inside =>
    length_of_mem_rows (Nat.le_of_eq length.symm) inside⟩

theorem getD_length_of_lt {α : Type} {token : List (List α)} {heads width head : Nat}
    (length : token.length = heads) (wide : ∀ row ∈ token, row.length = width)
    (inside : head < heads) : (token.getD head []).length = width := by
  rw [← length] at inside
  have present : token.getD head [] = token[head] := by simp [inside]
  rw [present]
  exact wide _ (List.getElem_mem inside)

/-- Selecting heads selects the rows of every token. -/
theorem Tensor.gatherHeads_spec {α : Type} {tensor : Tensor α} {count heads width : Nat}
    (shape : tensor.shape = [count, heads, width]) {mapping : List Nat}
    (inside : ∀ head ∈ mapping, head < heads) :
    ∃ result, tensor.gatherHeads mapping = .ok result ∧
      result.shape = [count, mapping.length, width] ∧
      result.cube count mapping.length width =
        (tensor.cube count heads width).map fun token =>
          mapping.map fun head => token.getD head [] := by
  have rowsWide : ∀ token ∈ tensor.cube count heads width, ∀ head ∈ mapping,
      (token.getD head []).length = width := by
    intro token member head mapped
    obtain ⟨length, wide⟩ := length_of_mem_cube shape member
    exact getD_length_of_lt length wide (inside head mapped)
  have tokensWide : ∀ token ∈ tensor.cube count heads width,
      (mapping.flatMap fun head => token.getD head []).length = mapping.length * width :=
    fun token member => length_flatMap_of_wide (rowsWide token member)
  have cubeLength : (tensor.cube count heads width).length = count := by
    simp [Tensor.cube]
  have size : ((tensor.cube count heads width).flatMap fun token =>
      mapping.flatMap fun head => token.getD head []).length =
        [count, mapping.length, width].prod := by
    rw [length_flatMap_of_wide tokensWide, cubeLength]
    simp
  unfold Tensor.gatherHeads
  simp only [shape]
  rw [if_pos inside, Tensor.reshape_of_size size]
  refine ⟨_, rfl, rfl, ?_⟩
  have cut := rows_flatMap tokensWide
  rw [cubeLength] at cut
  simp only [Tensor.cube] at cut ⊢
  change List.map _ (rows count (mapping.length * width) _) = _
  simp only [Tensor.ofList]
  rw [cut, List.map_map]
  refine List.map_congr_left ?_
  intro token member
  exact rows_flatMap (rowsWide token member)

theorem Tensor.einsumScores_spec {F : Type} [arith : AttentionArith F]
    {query keys : Tensor F} {heads width count : Nat}
    (queryShape : query.shape = [heads, width])
    (keysShape : keys.shape = [count, heads, width]) :
    ∃ scores, query.einsumScores keys = .ok scores ∧
      scores.IsTable heads count fun head =>
        (keys.cube count heads width).map fun token =>
          dot ((query.matrix heads width).getD head []) (token.getD head []) := by
  unfold Tensor.einsumScores
  simp only [queryShape, keysShape, and_self, if_true]
  exact Tensor.IsTable.of_reshape (fun _ _ => by simp [Tensor.cube]) rfl

theorem Tensor.einsumOutput_spec {F : Type} [arith : AttentionArith F]
    {weights values : Tensor F} {heads width count : Nat} {row : Nat → List F}
    (table : weights.IsTable heads count row)
    (valuesShape : values.shape = [count, heads, width]) :
    ∃ output, weights.einsumOutput values = .ok output ∧
      output.IsTable heads width fun head =>
        (List.range width).map fun column =>
          dot (row head) ((values.cube count heads width).map fun token =>
            (token.getD head []).getD column arith.zero) := by
  unfold Tensor.einsumOutput
  simp only [table.shape, valuesShape, and_self, if_true]
  have wide : ∀ head < heads, ((List.range width).map fun column =>
      dot ((weights.matrix heads count).getD head [])
        ((values.cube count heads width).map fun token =>
          (token.getD head []).getD column arith.zero)).length = width :=
    fun _ _ => by simp
  obtain ⟨output, success, result⟩ := Tensor.IsTable.of_reshape wide rfl
  refine ⟨output, success, result.congr ?_⟩
  intro head inside
  have own : (weights.matrix heads count).getD head [] = row head := by
    rw [Tensor.matrix, table.matrix_eq]
    simp [inside]
  simp only [own]

theorem Tensor.IsTable.softmaxRows {F : Type} [arith : AttentionArith F] {scores : Tensor F}
    {count width : Nat} {row : Nat → List F} (table : scores.IsTable count width row)
    (lastDim : Tensor.lastDim scores.shape = width) :
    (scores.mapLast (Tensor.lastDim scores.shape) softmax
      (by intro row wide; simp [softmax, wide])).IsTable count width
      (fun index => softmax (row index)) := by
  have mapped := table.mapLast softmax (by intro row wide; simp [softmax, wide] :
    ∀ row, row.length = Tensor.lastDim scores.shape →
      (softmax row).length = Tensor.lastDim scores.shape)
  exact ⟨mapped.shape.trans (by rw [lastDim]), mapped.data,
    fun index inside => (mapped.wide index inside).trans lastDim⟩

/-- The key heads and the value heads of one token. -/
abbrev Token (F : Type) : Type := List (List F) × List (List F)

section Attend

variable {F : Type} [arith : AttentionArith F] (query : Tensor F)
  (queryHeads dim ratio : Nat) (scale : F) (tokens : List (Token F))

/-- The scores of one query head; `ratio` query heads share a key head. -/
def headScores (head : Nat) : List F :=
  tokens.map fun token =>
    arith.mul (dot ((query.matrix queryHeads dim).getD head [])
      (token.1.getD (head / ratio) [])) scale

/-- One column of the values that belong to a query head. -/
def headValues (head column : Nat) : List F :=
  tokens.map fun token => (token.2.getD (head / ratio) []).getD column arith.zero

/-- The softmax average of the values of all tokens, and the log-sum-exp of their
scores, for every query head. -/
structure Attends (output lse : Tensor F) : Prop where
  output : output.IsTable queryHeads dim fun head =>
    (List.range dim).map fun column =>
      dot (softmax (headScores query queryHeads dim ratio scale tokens head))
        (headValues ratio tokens head column)
  lse : lse.IsColumn queryHeads fun head =>
    logSumExp (headScores query queryHeads dim ratio scale tokens head)

end Attend

theorem headMapping_lt {queryHeads heads : Nat} (positive : 0 < heads)
    (divides : heads ∣ queryHeads) :
    ∀ head ∈ headMapping queryHeads heads, head < heads := by
  intro head member
  obtain ⟨index, inside, rfl⟩ := List.mem_map.mp member
  obtain ⟨ratio, rfl⟩ := divides
  rw [Nat.mul_div_cancel_left _ positive]
  refine Nat.div_lt_of_lt_mul ?_
  rw [Nat.mul_comm]
  exact List.mem_range.mp inside

theorem getD_headMapping {α : Type} {queryHeads heads head : Nat} (inside : head < queryHeads)
    (token : List (List α)) :
    ((headMapping queryHeads heads).map fun head => token.getD head []).getD head [] =
      token.getD (head / (queryHeads / heads)) [] := by
  simp [headMapping, inside]

theorem map_zip_fst {α β γ : Type} {left : List α} {right : List β}
    (even : left.length = right.length) (f : α → γ) :
    (left.zip right).map (fun pair => f pair.1) = left.map f := by
  calc
    (left.zip right).map (fun pair => f pair.1)
        = ((left.zip right).map Prod.fst).map f := by rw [List.map_map]; rfl
    _ = left.map f := by rw [List.map_fst_zip (Nat.le_of_eq even)]

theorem map_zip_snd {α β γ : Type} {left : List α} {right : List β}
    (even : left.length = right.length) (f : β → γ) :
    (left.zip right).map (fun pair => f pair.2) = right.map f := by
  calc
    (left.zip right).map (fun pair => f pair.2)
        = ((left.zip right).map Prod.snd).map f := by rw [List.map_map]; rfl
    _ = right.map f := by rw [List.map_snd_zip (Nat.le_of_eq even.symm)]

section Attention

variable {F : Type} [arith : AttentionArith F] {query keys values : Tensor F}
  {queryHeads heads dim count : Nat}

/-- The common core of `reference_attention` and of the reference backend. -/
theorem attention_spec (queryShape : query.shape = [queryHeads, dim])
    (keysShape : keys.shape = [count, heads, dim])
    (valuesShape : values.shape = [count, heads, dim]) (positive : 0 < heads)
    (divides : heads ∣ queryHeads) (scale : F) :
    ∃ scores output, attentionScores query keys scale = .ok scores ∧
      attentionOutput query keys values scores = .ok output ∧
      Attends query queryHeads dim (queryHeads / heads) scale
        ((keys.cube count heads dim).zip (values.cube count heads dim)) output
        (scores.reduceLast logSumExp) := by
  have mapped := headMapping_lt positive divides
  have mappingLength : (headMapping queryHeads heads).length = queryHeads := by
    simp [headMapping]
  have even : (keys.cube count heads dim).length = (values.cube count heads dim).length := by
    simp [Tensor.cube]
  have queryHeadsEq : query.shape.getD 0 0 = queryHeads := by simp [queryShape]
  have headsEq : keys.shape.getD 1 0 = heads := by simp [keysShape]
  obtain ⟨expandedKeys, keysOk, expandedKeysShape, keysCube⟩ :=
    Tensor.gatherHeads_spec keysShape mapped
  obtain ⟨expandedValues, valuesOk, expandedValuesShape, valuesCube⟩ :=
    Tensor.gatherHeads_spec valuesShape mapped
  rw [mappingLength] at expandedKeysShape expandedValuesShape keysCube valuesCube
  obtain ⟨products, productsOk, productsTable⟩ :=
    Tensor.einsumScores_spec queryShape expandedKeysShape
  have scoresTable : (products.map fun score => arith.mul score scale).IsTable queryHeads count
      (headScores query queryHeads dim (queryHeads / heads) scale
        ((keys.cube count heads dim).zip (values.cube count heads dim))) := by
    refine (productsTable.map fun score => arith.mul score scale).congr ?_
    intro head inside
    rw [headScores, map_zip_fst even fun token => arith.mul
      (dot ((query.matrix queryHeads dim).getD head [])
        (token.getD (head / (queryHeads / heads)) [])) scale]
    simp only [keysCube, List.map_map, Function.comp_def, getD_headMapping inside]
  have lastDim : Tensor.lastDim (products.map fun score => arith.mul score scale).shape =
      count := by
    rw [scoresTable.shape]
    rfl
  have weightsTable := scoresTable.softmaxRows lastDim
  obtain ⟨output, outputOk, outputTable⟩ :=
    Tensor.einsumOutput_spec weightsTable expandedValuesShape
  refine ⟨_, output, ?_, ?_, ?_, scoresTable.reduceLast logSumExp⟩
  · unfold attentionScores
    rw [queryHeadsEq, headsEq, keysOk, ok_bind, productsOk, ok_bind]
    rfl
  · unfold attentionOutput
    rw [queryHeadsEq, headsEq, valuesOk, ok_bind, outputOk]
  · refine outputTable.congr ?_
    intro head inside
    refine List.map_congr_left ?_
    intro column _
    rw [headValues, map_zip_snd even fun token =>
      (token.getD (head / (queryHeads / heads)) []).getD column arith.zero]
    simp only [valuesCube, List.map_map, Function.comp_def, getD_headMapping inside]

end Attention

end KVSSD

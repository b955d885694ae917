import KVSSD.Lib.SoftmaxLipschitz
import KVSSD.Lib.TensorRel
import KVSSD.StreamingAttention

/-!
# How errors of keys and values reach the output

Attention over the reals on keys and values that are known up to an error each.  The scores of a
query head are off by at most the sum of its entries times the error of the keys, and the averages
then by at most that times the largest value.
-/

namespace KVSSD

open KVSSD.Python KVSSD.Softmax

/-- One shape, and items that differ by at most the error. -/
def Tensor.Within (error : ℝ) (left right : Tensor ℝ) : Prop :=
  left.Rel (fun item other => |item - other| ≤ error) right

/-- The sum of the absolute values of a row. -/
def rowNorm (row : List ℝ) : ℝ := (row.map fun item => |item|).sum

theorem rowNorm_nonneg (row : List ℝ) : 0 ≤ rowNorm row := by
  apply List.sum_nonneg
  intro size member
  obtain ⟨item, _, rfl⟩ := List.mem_map.mp member
  exact abs_nonneg item

theorem dot_cons (item other : ℝ) (left right : List ℝ) :
    dot (item :: left) (other :: right) = item * other + dot left right := by
  rw [dot, sumItems_real, List.zipWith_cons_cons, List.sum_cons, dot, sumItems_real]
  rfl

theorem abs_dot_sub_dot_le {error : ℝ} (nonneg : 0 ≤ error) {left right : List ℝ}
    (close : List.Forall₂ (fun item other => |item - other| ≤ error) left right)
    (row : List ℝ) : |dot row left - dot row right| ≤ rowNorm row * error := by
  induction close generalizing row with
  | nil => simpa using mul_nonneg (rowNorm_nonneg row) nonneg
  | @cons item other left right first _ induction =>
      cases row with
      | nil => simp [dot, rowNorm]
      | cons factor row =>
          have split : dot (factor :: row) (item :: left) - dot (factor :: row) (other :: right) =
              factor * (item - other) + (dot row left - dot row right) := by
            rw [dot_cons, dot_cons]
            ring
          have head : |factor * (item - other)| ≤ |factor| * error := by
            rw [abs_mul]
            exact mul_le_mul_of_nonneg_left first (abs_nonneg factor)
          calc
            |dot (factor :: row) (item :: left) - dot (factor :: row) (other :: right)|
                ≤ |factor * (item - other)| + |dot row left - dot row right| := by
                  rw [split]
                  exact abs_add_le _ _
            _ ≤ |factor| * error + rowNorm row * error := add_le_add head (induction row)
            _ = rowNorm (factor :: row) * error := by
                  rw [rowNorm, rowNorm, List.map_cons, List.sum_cons, add_mul]

/-- Key heads and value heads that differ by at most an error each. -/
structure Token.Within (keyError valueError : ℝ) (token other : Token ℝ) : Prop where
  keys : List.Forall₂ (List.Forall₂ fun item other => |item - other| ≤ keyError) token.1 other.1
  values :
    List.Forall₂ (List.Forall₂ fun item other => |item - other| ≤ valueError) token.2 other.2

section Tokens

variable {query : Tensor ℝ} {queryHeads dim ratio head : Nat} {scale keyError valueError : ℝ}

theorem average_scoredValues {ι : Type} (items : List ι) (token : ι → Token ℝ) (column : Nat) :
    average (scoredValues query queryHeads dim ratio scale (items.map token) head column) =
      mean items
        (fun item => dot ((query.matrix queryHeads dim).getD head [])
          ((token item).1.getD (head / ratio) []) * scale)
        (fun item => ((token item).2.getD (head / ratio) []).getD column 0) := by
  rw [mean, scoredValues, headScores, headValues, List.map_map, List.map_map, List.zip_map']
  rfl

theorem getD_of_forall {α : Type} (holds : α → Prop) {items : List α} {default : α}
    (atDefault : holds default) (inside : ∀ item ∈ items, holds item) (index : Nat) :
    holds (items.getD index default) := by
  rcases lt_or_ge index items.length with present | behind
  · have item : items.getD index default = items[index] := by simp [present]
    rw [item]
    exact inside _ (List.getElem_mem present)
  · have item : items.getD index default = default := by simp [behind]
    rwa [item]

/-- The average of the values of one head and one column. -/
theorem abs_average_sub_le (keysNonneg : 0 ≤ keyError) (valuesNonneg : 0 ≤ valueError)
    {tokens others : List (Token ℝ)}
    (close : List.Forall₂ (Token.Within keyError valueError) tokens others) {radius : ℝ}
    (radiusNonneg : 0 ≤ radius)
    (bounded : ∀ token ∈ tokens, ∀ row ∈ token.2, ∀ value ∈ row, |value| ≤ radius)
    (column : Nat) :
    |average (scoredValues query queryHeads dim ratio scale others head column) -
        average (scoredValues query queryHeads dim ratio scale tokens head column)| ≤
      valueError +
        rowNorm ((query.matrix queryHeads dim).getD head []) * keyError * |scale| * radius := by
  set row := (query.matrix queryHeads dim).getD head []
  have lengths := close.length_eq
  have firsts : (tokens.zip others).map Prod.fst = tokens := List.map_fst_zip lengths.le
  have seconds : (tokens.zip others).map Prod.snd = others := List.map_snd_zip lengths.ge
  have own := @average_scoredValues query queryHeads dim ratio head scale _
    (tokens.zip others) Prod.fst column
  have moved := @average_scoredValues query queryHeads dim ratio head scale _
    (tokens.zip others) Prod.snd column
  rw [firsts] at own
  rw [seconds] at moved
  rw [own, moved, ← Real.norm_eq_abs]
  apply norm_mean_sub_mean_le
  · exact mul_nonneg (mul_nonneg (rowNorm_nonneg row) keysNonneg) (abs_nonneg scale)
  · exact radiusNonneg
  · exact valuesNonneg
  · intro pair member
    have within := List.forall₂_zip close member
    have scores := abs_dot_sub_dot_le keysNonneg
      (Forall₂.getD within.keys List.Forall₂.nil (head / ratio)) row
    rw [← sub_mul, abs_mul, abs_sub_comm]
    exact mul_le_mul_of_nonneg_right scores (abs_nonneg scale)
  · intro pair member
    have known : pair.1 ∈ tokens := firsts ▸ List.mem_map_of_mem member
    rw [Real.norm_eq_abs]
    have rows : ∀ value ∈ pair.1.2.getD (head / ratio) [], |value| ≤ radius :=
      getD_of_forall (fun row : List ℝ => ∀ value ∈ row, |value| ≤ radius) (by simp)
        (bounded pair.1 known) (head / ratio)
    exact getD_of_forall (fun value : ℝ => |value| ≤ radius) (by simpa) rows column
  · intro pair member
    have within := List.forall₂_zip close member
    have values := Forall₂.getD
      (Forall₂.getD within.values List.Forall₂.nil (head / ratio))
      (by simpa using valuesNonneg : |(0 : ℝ) - 0| ≤ valueError) column
    rw [Real.norm_eq_abs, abs_sub_comm]
    exact values

end Tokens

theorem mem_of_mem_rows {α : Type} {count width : Nat} {items row : List α} {item : α}
    (known : row ∈ rows count width items) (inside : item ∈ row) : item ∈ items := by
  induction count generalizing items with
  | zero => cases known
  | succ count induction =>
      rcases List.mem_cons.mp known with rfl | later
      · exact List.mem_of_mem_take inside
      · exact List.mem_of_mem_drop (induction later)

theorem referenceAttention_attends {F : Type} [AttentionArith F] {query keys values : Tensor F}
    {queryHeads heads dim count : Nat} (queryShape : query.shape = [queryHeads, dim])
    (keysShape : keys.shape = [count, heads, dim])
    (valuesShape : values.shape = [count, heads, dim])
    (positive : 0 < heads) (divides : heads ∣ queryHeads) (scale : F) :
    ∃ output lse, referenceAttention query keys values scale = .ok output ∧
      Attends query queryHeads dim (queryHeads / heads) scale
        ((keys.cube count heads dim).zip (values.cube count heads dim)) output lse := by
  obtain ⟨scores, output, scoresOk, outputOk, attends⟩ :=
    attention_spec queryShape keysShape valuesShape positive divides scale
  refine ⟨output, scores.reduceLast logSumExp, ?_, attends⟩
  have lastDim : Tensor.lastDim query.shape = dim := by simp [queryShape, Tensor.lastDim]
  have keysDim : keys.shape.getD 2 0 = dim := by simp [keysShape]
  have shared : pyMod ((query.shape.getD 0 0 : Nat) : Int) ((keys.shape.getD 1 0 : Nat) : Int) =
      .ok 0 := by
    simp only [queryShape, keysShape, List.getD_cons_zero, List.getD_cons_succ]
    exact pyMod_of_dvd positive divides
  unfold referenceAttention
  rw [if_neg (by simp [queryShape, keysShape, valuesShape])]
  simp only [lastDim, keysDim, shared, ok_bind, ne_eq, not_true_eq_false, if_false, scoresOk,
    outputOk]

/-- Keys and values that are close give outputs that are close. -/
theorem referenceAttention_within {query keys values otherKeys otherValues : Tensor ℝ}
    {queryHeads heads dim count : Nat} (queryShape : query.shape = [queryHeads, dim])
    (keysShape : keys.shape = [count, heads, dim])
    (valuesShape : values.shape = [count, heads, dim])
    (positive : 0 < heads) (divides : heads ∣ queryHeads) {keyError valueError radius size : ℝ}
    (keysNonneg : 0 ≤ keyError) (valuesNonneg : 0 ≤ valueError) (radiusNonneg : 0 ≤ radius)
    (keysClose : keys.Within keyError otherKeys)
    (valuesClose : values.Within valueError otherValues)
    (bounded : ∀ value ∈ values.data, |value| ≤ radius)
    (sizes : ∀ row ∈ query.matrix queryHeads dim, rowNorm row ≤ size) (scale : ℝ) :
    ∃ output other, referenceAttention query keys values scale = .ok output ∧
      referenceAttention query otherKeys otherValues scale = .ok other ∧
      output.Within (valueError + size * keyError * |scale| * radius) other := by
  obtain ⟨output, lse, outputOk, attends⟩ := referenceAttention_attends queryShape keysShape
    valuesShape positive divides scale
  obtain ⟨other, otherLse, otherOk, otherAttends⟩ := referenceAttention_attends queryShape
    (keysClose.shape.trans keysShape) (valuesClose.shape.trans valuesShape) positive divides scale
  have close : List.Forall₂ (Token.Within keyError valueError)
      ((keys.cube count heads dim).zip (values.cube count heads dim))
      ((otherKeys.cube count heads dim).zip (otherValues.cube count heads dim)) :=
    (forall₂_zip_zip (keysClose.cube count heads dim) (valuesClose.cube count heads dim)).imp
      fun _ _ related => ⟨related.1, related.2⟩
  have inside : ∀ token ∈ (keys.cube count heads dim).zip (values.cube count heads dim),
      ∀ row ∈ token.2, ∀ value ∈ row, |value| ≤ radius := by
    intro token member row inRow value inValue
    obtain ⟨items, present, same⟩ := List.mem_map.mp (List.of_mem_zip member).2
    rw [← same] at inRow
    exact bounded value (mem_of_mem_rows present (mem_of_mem_rows inRow inValue))
  refine ⟨output, other, outputOk, otherOk, ?_⟩
  refine Tensor.Rel.of_tables (attends_real.mp attends).1 (attends_real.mp otherAttends).1 ?_
  intro head headInside
  rw [List.forall₂_map_left_iff, List.forall₂_map_right_iff]
  refine List.forall₂_same.mpr fun column _ => ?_
  have difference := @abs_average_sub_le query queryHeads dim (queryHeads / heads) head scale
    keyError valueError keysNonneg valuesNonneg _ _ close radius radiusNonneg inside column
  rw [abs_sub_comm]
  refine difference.trans ?_
  have known : (query.matrix queryHeads dim).getD head [] ∈ query.matrix queryHeads dim := by
    have within : head < (query.matrix queryHeads dim).length := by
      rwa [Tensor.matrix, rows_length]
    have item : (query.matrix queryHeads dim).getD head [] =
        (query.matrix queryHeads dim)[head] := by simp [within]
    rw [item]
    exact List.getElem_mem within
  gcongr
  exact sizes _ known

end KVSSD

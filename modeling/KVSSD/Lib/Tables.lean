import KVSSD.Lib.Tensor

/-!
# Tensors given row by row

A table is a tensor of rank two whose rows are known, a column a tensor of rank
one whose items are known.  The rowwise operations take tables to tables, and a
table is determined by its rows.
-/

namespace KVSSD.Tensor

open KVSSD.Python

variable {α β γ : Type}

structure IsTable (tensor : Tensor α) (count width : Nat) (row : Nat → List α) : Prop where
  shape : tensor.shape = [count, width]
  data : tensor.data = (List.range count).flatMap row
  wide : ∀ index < count, (row index).length = width

structure IsColumn (tensor : Tensor α) (count : Nat) (item : Nat → α) : Prop where
  shape : tensor.shape = [count]
  data : tensor.data = (List.range count).map item

theorem flatMap_range_congr {count : Nat} {row other : Nat → List α}
    (same : ∀ index < count, row index = other index) :
    (List.range count).flatMap row = (List.range count).flatMap other := by
  refine List.flatMap_congr ?_
  intro index member
  exact same index (List.mem_range.mp member)

namespace IsTable

variable {tensor other : Tensor α} {count width : Nat} {row otherRow : Nat → List α}

theorem congr (table : tensor.IsTable count width row)
    (same : ∀ index < count, row index = otherRow index) :
    tensor.IsTable count width otherRow :=
  ⟨table.shape, by rw [table.data, flatMap_range_congr same],
    fun index inside => by rw [← same index inside, table.wide index inside]⟩

theorem unique (table : tensor.IsTable count width row)
    (otherTable : other.IsTable count width row) : tensor = other :=
  Tensor.ext (by rw [table.shape, otherTable.shape]) (by rw [table.data, otherTable.data])

theorem matrix_eq (table : tensor.IsTable count width row) :
    rows count width tensor.data = (List.range count).map row := by
  have cut := @rows_flatMap _ _ width (List.range count) row
    (fun index member => table.wide index (List.mem_range.mp member))
  rwa [List.length_range, ← table.data] at cut

theorem lastRows_eq (table : tensor.IsTable count width row) :
    tensor.lastRows = (List.range count).map row := by
  rw [lastRows, table.shape]
  simpa [lastDim] using table.matrix_eq

theorem of_reshape (wide : ∀ index < count, (row index).length = width)
    {items : List α} (data : items = (List.range count).flatMap row) :
    ∃ table : Tensor α, (Tensor.mk [items.length] items (by simp)).reshape [count, width] =
      .ok table ∧ table.IsTable count width row := by
  have length : items.length = [count, width].prod := by
    rw [data, length_flatMap_of_wide
      (fun index member => wide index (List.mem_range.mp member)), List.length_range]
    simp
  exact ⟨_, reshape_of_size length, rfl, data, wide⟩

theorem map (table : tensor.IsTable count width row) (f : α → β) :
    (tensor.map f).IsTable count width (fun index => (row index).map f) :=
  ⟨table.shape, by simp [Tensor.map, table.data, List.map_flatMap],
    fun index inside => by simp [table.wide index inside]⟩

theorem reduceLast (table : tensor.IsTable count width row) (reduce : List α → β) :
    (tensor.reduceLast reduce).IsColumn count (fun index => reduce (row index)) :=
  ⟨by simp [Tensor.reduceLast, table.shape],
    by simp [Tensor.reduceLast, table.lastRows_eq]⟩

theorem mapLast {newWidth : Nat} (table : tensor.IsTable count width row)
    (image : List α → List β)
    (wide : ∀ items, items.length = lastDim tensor.shape → (image items).length = newWidth) :
    (tensor.mapLast newWidth image wide).IsTable count newWidth
      (fun index => image (row index)) := by
  refine ⟨by simp [Tensor.mapLast, table.shape], ?_, ?_⟩
  · change tensor.lastRows.flatMap image = _
    rw [table.lastRows_eq, List.flatMap_map]
  · intro index inside
    refine wide _ ?_
    rw [table.wide index inside, table.shape]
    rfl

private theorem zipWith_flatMap {f : α → β → γ} {count : Nat} {row : Nat → List α}
    {otherRow : Nat → List β}
    (even : ∀ index < count, (row index).length = (otherRow index).length) :
    List.zipWith f ((List.range count).flatMap row) ((List.range count).flatMap otherRow) =
      (List.range count).flatMap fun index => List.zipWith f (row index) (otherRow index) := by
  induction count with
  | zero => rfl
  | succ count induction =>
      have front : ((List.range count).flatMap row).length =
          ((List.range count).flatMap otherRow).length := by
        rw [List.length_flatMap, List.length_flatMap]
        congr 1
        refine List.map_congr_left ?_
        intro index member
        exact even index (Nat.lt_succ_of_lt (List.mem_range.mp member))
      rw [List.range_succ, List.flatMap_append, List.flatMap_append, List.flatMap_append,
        List.zipWith_append front,
        induction fun index inside => even index (Nat.lt_succ_of_lt inside)]
      simp

theorem zipWith {right : Tensor β} {rightRow : Nat → List β}
    (table : tensor.IsTable count width row) (rightTable : right.IsTable count width rightRow)
    (f : α → β → γ) :
    ∃ result, tensor.zipWith f right = .ok result ∧
      result.IsTable count width (fun index => List.zipWith f (row index) (rightRow index)) := by
  have shapes : tensor.shape = right.shape := by rw [table.shape, rightTable.shape]
  unfold Tensor.zipWith
  rw [dif_pos shapes]
  refine ⟨_, rfl, table.shape, ?_, ?_⟩
  · simp only [table.data, rightTable.data]
    exact zipWith_flatMap fun index inside => by
      rw [table.wide index inside, rightTable.wide index inside]
  · intro index inside
    rw [List.length_zipWith, table.wide index inside, rightTable.wide index inside,
      Nat.min_self]

/-- Every row combined with its own parameter. -/
theorem zipLast {parameters : Tensor β} {parameter : Nat → β}
    (table : tensor.IsTable count width row)
    (column : parameters.IsColumn count parameter) (f : β → α → γ) :
    ∃ result, Tensor.zipLast f parameters tensor = .ok result ∧
      result.IsTable count width (fun index => (row index).map (f (parameter index))) := by
  have shapes : parameters.shape = tensor.shape.dropLast := by
    rw [column.shape, table.shape]
    rfl
  unfold Tensor.zipLast
  rw [dif_pos shapes]
  refine ⟨_, rfl, table.shape, ?_, ?_⟩
  · simp only [column.data, table.lastRows_eq, List.zipWith_map, List.zipWith_self]
    rw [List.flatMap_def]
  · intro index inside
    rw [List.length_map, table.wide index inside]

end IsTable

namespace IsColumn

variable {tensor other : Tensor α} {count : Nat} {item otherItem : Nat → α}

theorem congr (column : tensor.IsColumn count item)
    (same : ∀ index < count, item index = otherItem index) :
    tensor.IsColumn count otherItem := by
  refine ⟨column.shape, ?_⟩
  rw [column.data]
  apply List.map_congr_left
  intro index member
  exact same index (List.mem_range.mp member)

theorem unique (column : tensor.IsColumn count item)
    (otherColumn : other.IsColumn count item) : tensor = other :=
  Tensor.ext (by rw [column.shape, otherColumn.shape]) (by rw [column.data, otherColumn.data])

theorem zipWith {right : Tensor β} {rightItem : Nat → β}
    (column : tensor.IsColumn count item) (rightColumn : right.IsColumn count rightItem)
    (f : α → β → γ) :
    ∃ result, tensor.zipWith f right = .ok result ∧
      result.IsColumn count (fun index => f (item index) (rightItem index)) := by
  have shapes : tensor.shape = right.shape := by rw [column.shape, rightColumn.shape]
  unfold Tensor.zipWith
  rw [dif_pos shapes]
  refine ⟨_, rfl, column.shape, ?_⟩
  simp only [column.data, rightColumn.data, List.zipWith_map, List.zipWith_self]

end IsColumn

end KVSSD.Tensor

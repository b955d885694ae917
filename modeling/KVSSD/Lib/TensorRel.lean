import KVSSD.Lib.Tables
import Mathlib.Data.List.Forall2

/-!
# Tensors related item by item

Two tensors of one shape whose items are related place by place.  What only moves items, and checks
nothing but shapes, keeps the relation.
-/

namespace KVSSD

open KVSSD.Python

theorem forall₂_rows {α β : Type} {R : α → β → Prop} {left : List α} {right : List β}
    (related : List.Forall₂ R left right) (count width : Nat) :
    List.Forall₂ (List.Forall₂ R) (rows count width left) (rows count width right) := by
  induction count generalizing left right with
  | zero => exact .nil
  | succ count induction =>
      exact .cons (List.forall₂_take width related) (induction (List.forall₂_drop width related))

theorem forall₂_zip_zip {α β γ δ : Type} {R : α → β → Prop} {S : γ → δ → Prop} {left : List α}
    {right : List β} {more : List γ} {others : List δ} (related : List.Forall₂ R left right)
    (moreRelated : List.Forall₂ S more others) :
    List.Forall₂ (fun pair other => R pair.1 other.1 ∧ S pair.2 other.2) (left.zip more)
      (right.zip others) := by
  induction related generalizing more others with
  | nil => simp
  | cons first _ induction =>
      cases moreRelated with
      | nil => simp
      | cons second rest => exact .cons ⟨first, second⟩ (induction rest)

theorem Forall₂.getD {α β : Type} {R : α → β → Prop} {left : List α} {right : List β}
    (related : List.Forall₂ R left right) {leftDefault : α} {rightDefault : β}
    (defaults : R leftDefault rightDefault) (index : Nat) :
    R (left.getD index leftDefault) (right.getD index rightDefault) := by
  induction related generalizing index with
  | nil => simpa using defaults
  | cons first _ induction =>
      cases index with
      | zero => simpa using first
      | succ index => simpa using induction index

namespace Tensor

variable {α β : Type}

/-- One shape, and related items. -/
structure Rel (R : α → β → Prop) (left : Tensor α) (right : Tensor β) : Prop where
  shape : right.shape = left.shape
  items : List.Forall₂ R left.data right.data

namespace Rel

variable {R : α → β → Prop} {left : Tensor α} {right : Tensor β}

theorem flip (related : left.Rel R right) : right.Rel (fun item other => R other item) left :=
  ⟨related.shape.symm, related.items.flip⟩

theorem slice0 (related : left.Rel R right) (start stop : Int) :
    (left.slice0 start stop).Rel R (right.slice0 start stop) := by
  cases shape : left.shape with
  | nil =>
      have same := related.shape.trans shape
      obtain ⟨_, leftItems, leftSize⟩ := left
      obtain ⟨_, rightItems, rightSize⟩ := right
      obtain rfl := shape
      obtain rfl := same
      exact related
  | cons size rest =>
      have same := related.shape.trans shape
      constructor
      · rw [slice0_shape shape, slice0_shape same]
      · rw [slice0_data shape, slice0_data same]
        exact List.forall₂_take _ (List.forall₂_drop _ related.items)

theorem shapes_eq {lefts : List (Tensor α)} {rights : List (Tensor β)}
    (related : List.Forall₂ (Rel R) lefts rights) :
    rights.map Tensor.shape = lefts.map Tensor.shape := by
  induction related with
  | nil => rfl
  | cons same _ induction => rw [List.map_cons, List.map_cons, same.shape, induction]

/-- Concatenations of related tensors. -/
theorem cat {lefts : List (Tensor α)} {rights : List (Tensor β)}
    (related : List.Forall₂ (Rel R) lefts rights) (success : Tensor.cat lefts = .ok left) :
    ∃ right, Tensor.cat rights = .ok right ∧ left.Rel R right := by
  have shapes := shapes_eq related
  have items : List.Forall₂ R (lefts.flatMap Tensor.data) (rights.flatMap Tensor.data) :=
    List.rel_flatMap related fun _ _ related => related.items
  cases related with
  | nil => cases success
  | @cons first other firsts others head tail =>
      by_cases agree : ∀ tensor ∈ first :: firsts,
          tensor.shape = tensor.shape.headD 0 :: first.shape.tail
      · have otherAgree : ∀ tensor ∈ other :: others,
            tensor.shape = tensor.shape.headD 0 :: other.shape.tail := by
          intro tensor member
          have known : tensor.shape ∈ (first :: firsts).map Tensor.shape := by
            rw [← shapes]
            exact List.mem_map_of_mem member
          obtain ⟨same, present, equal⟩ := List.mem_map.mp known
          rw [← equal, head.shape]
          exact agree same present
        obtain rfl := Except.ok.inj ((dif_pos agree).symm.trans success)
        refine ⟨_, dif_pos otherAgree, ⟨?_, items⟩⟩
        change _ :: _ = _ :: _
        have counts := congrArg (List.map fun shape : List Nat => shape.headD 0) shapes
        rw [List.map_map, List.map_map] at counts
        rw [head.shape]
        exact congrArg (fun counts => List.sum counts :: first.shape.tail) counts
      · cases (dif_neg agree).symm.trans success

theorem matrix (related : left.Rel R right) (count width : Nat) :
    List.Forall₂ (List.Forall₂ R) (rows count width left.data) (rows count width right.data) :=
  forall₂_rows related.items count width

theorem cube (related : left.Rel R right) (count heads width : Nat) :
    List.Forall₂ (List.Forall₂ (List.Forall₂ R))
      ((rows count (heads * width) left.data).map (rows heads width))
      ((rows count (heads * width) right.data).map (rows heads width)) := by
  rw [List.forall₂_map_left_iff, List.forall₂_map_right_iff]
  exact (related.matrix count (heads * width)).imp fun _ _ related => forall₂_rows related _ _

theorem of_tables {count width : Nat} {row : Nat → List α} {otherRow : Nat → List β}
    (table : left.IsTable count width row) (otherTable : right.IsTable count width otherRow)
    (related : ∀ index < count, List.Forall₂ R (row index) (otherRow index)) :
    left.Rel R right := by
  constructor
  · rw [table.shape, otherTable.shape]
  · rw [table.data, otherTable.data]
    have same : List.Forall₂ (fun index other => index = other ∧ index < count)
        (List.range count) (List.range count) :=
      List.forall₂_same.mpr fun index member => ⟨rfl, List.mem_range.mp member⟩
    refine List.rel_flatMap same ?_
    rintro index _ ⟨rfl, inside⟩
    exact related index inside

end Rel

end Tensor

end KVSSD

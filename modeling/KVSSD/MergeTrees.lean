import KVSSD.StreamingAttention

/-!
# Merging attention chunks in any order

A chunk holds scored value vectors for every head, and is summarized by its normalized output
and its log normalizer.  Merging the summaries of chunks along any binary tree gives the
summary of all their items together, so neither the tree nor the order of the chunks matters.
-/

namespace KVSSD

open KVSSD.Python KVSSD.Softmax

/-- The scored value vectors of every head. A vector is given by its columns. -/
structure Chunk (F : Type) (heads dim : Nat) where
  pairs : Nat → List (F × (Nat → F))
  nonempty : ∀ head < heads, pairs head ≠ []

/-- `merge_attention_chunks` on two summaries. -/
def mergeSummaries {F : Type} [AttentionArith F] (left right : Tensor F × Tensor F) :
    Except PyError (Tensor F × Tensor F) :=
  mergeAttentionChunks left.1 left.2 right.1 right.2

namespace Chunk

section Summary

variable {F : Type} [AttentionArith F] {heads dim : Nat}

/-- The softmax-normalized output of one head. -/
def outputRow (chunk : Chunk F heads dim) (head : Nat) : List F :=
  (List.range dim).map fun column =>
    dot (softmax ((chunk.pairs head).map Prod.fst))
      ((chunk.pairs head).map fun item => item.2 column)

/-- The normalized output and the log-sum-exp of a chunk. -/
def summarize (chunk : Chunk F heads dim) : Tensor F × Tensor F :=
  (⟨[heads, dim], (List.range heads).flatMap chunk.outputRow, by
      rw [@length_flatMap_of_wide _ _ dim _ _ fun head _ => by simp [outputRow]]
      simp⟩,
    ⟨[heads], (List.range heads).map fun head => logSumExp ((chunk.pairs head).map Prod.fst),
      by simp⟩)

/-- All items of two chunks. -/
def append (left right : Chunk F heads dim) : Chunk F heads dim where
  pairs head := left.pairs head ++ right.pairs head
  nonempty head inside := by simp [left.nonempty head inside]

end Summary

variable {heads dim : Nat} {chunk left right : Chunk ℝ heads dim}

/-- The scored values of one head in one column. -/
def column (chunk : Chunk ℝ heads dim) (head column : Nat) : List (ℝ × ℝ) :=
  (chunk.pairs head).map fun item => (item.1, item.2 column)

theorem scores_column (chunk : Chunk ℝ heads dim) (head index : Nat) :
    scores (chunk.column head index) = scores (chunk.pairs head) := by
  simp [scores, column]

theorem column_ne_nil (chunk : Chunk ℝ heads dim) :
    ∀ head < heads, ∀ index, chunk.column head index ≠ [] := by
  intro head inside index empty
  exact chunk.nonempty head inside (List.map_eq_nil_iff.mp empty)

theorem outputRow_real (chunk : Chunk ℝ heads dim) (head : Nat) :
    chunk.outputRow head =
      (List.range dim).map fun index => average (chunk.column head index) := by
  apply List.map_congr_left
  intro index _
  rw [← dot_softmax, scores_column, column, List.map_map]
  rfl

theorem summarize_output (chunk : Chunk ℝ heads dim) :
    chunk.summarize.1.IsTable heads dim fun head =>
      (List.range dim).map fun index => average (chunk.column head index) := by
  refine ⟨rfl, Tensor.flatMap_range_congr fun head _ => chunk.outputRow_real head, ?_⟩
  intro head _
  simp

theorem summarize_lse (chunk : Chunk ℝ heads dim) :
    chunk.summarize.2.IsColumn heads fun head => logMass (scores (chunk.pairs head)) := by
  refine ⟨rfl, ?_⟩
  simp only [summarize, logSumExp_real]
  rfl

theorem summarize_congr
    (same : ∀ head < heads, (left.pairs head).Perm (right.pairs head)) :
    left.summarize = right.summarize := by
  apply Prod.ext
  · apply left.summarize_output.unique
    apply right.summarize_output.congr
    intro head inside
    apply List.map_congr_left
    intro index _
    exact average_perm ((same head inside).symm.map _)
  · apply left.summarize_lse.unique
    apply right.summarize_lse.congr
    intro head inside
    exact logMass_perm ((same head inside).symm.map _)

theorem merge_summarize (left right : Chunk ℝ heads dim) :
    mergeSummaries left.summarize right.summarize = .ok (left.append right).summarize := by
  obtain ⟨output, lse, merged, table, column⟩ := mergeAttentionChunks_averages
    left.scores_column right.scores_column left.column_ne_nil right.column_ne_nil
    left.summarize_output left.summarize_lse right.summarize_output right.summarize_lse
  have sameOutput : output = (left.append right).summarize.1 := by
    apply table.unique
    apply (left.append right).summarize_output.congr
    intro head _
    simp only [Chunk.column, append, List.map_append]
  have sameLse : lse = (left.append right).summarize.2 := by
    apply column.unique
    apply (left.append right).summarize_lse.congr
    intro head _
    rw [append, scores_append]
  rw [mergeSummaries, merged, sameOutput, sameLse]

end Chunk

inductive MergeTree (α : Type) where
  | leaf (summary : α)
  | node (left right : MergeTree α)

namespace MergeTree

variable {α β : Type}

def leaves : MergeTree α → List α
  | .leaf summary => [summary]
  | .node left right => left.leaves ++ right.leaves

def map (f : α → β) : MergeTree α → MergeTree β
  | .leaf summary => .leaf (f summary)
  | .node left right => .node (left.map f) (right.map f)

/-- Evaluate a tree, one call of `merge_attention_chunks` a node. -/
def evaluate {F : Type} [AttentionArith F] :
    MergeTree (Tensor F × Tensor F) → Except PyError (Tensor F × Tensor F)
  | .leaf summary => .ok summary
  | .node left right => do
      let leftSummary ← left.evaluate
      let rightSummary ← right.evaluate
      mergeSummaries leftSummary rightSummary

variable {heads dim : Nat}

/-- The items of all chunks of a tree. -/
def union {F : Type} [AttentionArith F] : MergeTree (Chunk F heads dim) → Chunk F heads dim
  | .leaf chunk => chunk
  | .node left right => left.union.append right.union

theorem union_pairs {F : Type} [AttentionArith F] (tree : MergeTree (Chunk F heads dim))
    (head : Nat) : tree.union.pairs head = tree.leaves.flatMap fun chunk => chunk.pairs head := by
  induction tree with
  | leaf chunk => simp [union, leaves]
  | node left right leftUnion rightUnion =>
      simp [union, leaves, Chunk.append, leftUnion, rightUnion]

theorem evaluate_summaries (tree : MergeTree (Chunk ℝ heads dim)) :
    (tree.map Chunk.summarize).evaluate = .ok tree.union.summarize := by
  induction tree with
  | leaf chunk => rfl
  | node left right leftMerged rightMerged =>
      rw [map, evaluate, leftMerged, rightMerged]
      exact Chunk.merge_summarize left.union right.union

end MergeTree

/-- Merging is order-independent: along every tree over every permutation of the chunks, the
summaries merge to the summary of all items together; in particular merging is commutative
and associative. -/
theorem merges_order_independent (heads dim : Nat) :
    (∀ (chunks : List (Chunk ℝ heads dim)) (tree : MergeTree (Chunk ℝ heads dim))
        (whole : Chunk ℝ heads dim), tree.leaves.Perm chunks →
        (∀ head < heads,
          (whole.pairs head).Perm (chunks.flatMap fun chunk => chunk.pairs head)) →
        (tree.map Chunk.summarize).evaluate = .ok whole.summarize) ∧
      (∀ left right : Chunk ℝ heads dim,
        mergeSummaries left.summarize right.summarize =
          mergeSummaries right.summarize left.summarize) ∧
      ∀ first second third : Chunk ℝ heads dim,
        (mergeSummaries first.summarize second.summarize >>=
            fun merged => mergeSummaries merged third.summarize) =
          (mergeSummaries second.summarize third.summarize >>=
            fun merged => mergeSummaries first.summarize merged) := by
  refine ⟨?_, ?_, ?_⟩
  · intro chunks tree whole order union
    rw [tree.evaluate_summaries]
    congr 1
    apply Chunk.summarize_congr
    intro head inside
    rw [tree.union_pairs]
    exact (order.flatMap_right _).trans (union head inside).symm
  · intro left right
    rw [Chunk.merge_summarize, Chunk.merge_summarize]
    congr 1
    apply Chunk.summarize_congr
    intro head _
    exact List.perm_append_comm
  · intro first second third
    simp only [Chunk.merge_summarize, ok_bind]
    congr 1
    apply Chunk.summarize_congr
    intro head _
    simp [Chunk.append]

/-- A chunk of one item, for one head and one column. -/
def Chunk.single (score value : ℝ) : Chunk ℝ 1 1 where
  pairs _ := [(score, fun _ => value)]
  nonempty := by simp

/-- Two chunks merged in the other order. -/
theorem merges_order_independent_single :
    (MergeTree.map Chunk.summarize
        (.node (.leaf (Chunk.single 1 2)) (.leaf (Chunk.single 0 1)))).evaluate =
      .ok ((Chunk.single 0 1).append (Chunk.single 1 2)).summarize := by
  apply (merges_order_independent 1 1).1 [Chunk.single 0 1, Chunk.single 1 2]
  · exact List.Perm.swap _ _ _
  · intro head _
    exact List.Perm.refl _

end KVSSD

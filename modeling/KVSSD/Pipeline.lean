import KVSSD.Attention
import KVSSD.Storage

/-!
# The pipeline

`KVSSDPipeline`: cutting the delivered blocks into chunks, staging one chunk as a
batch, and the loop that runs the attention backend on chunk after chunk and
merges the results.
-/

namespace KVSSD

open KVSSD.Python

namespace KVSSDPipeline

/-- `_chunks` with the chunk that is being filled. -/
def fillChunks {α : Type} (size : Int) : List α → List α → List (List α)
  | chunk, [] => if chunk = [] then [] else [chunk]
  | chunk, block :: source =>
      let chunk := chunk ++ [block]
      if (chunk.length : Int) = size then chunk :: fillChunks size [] source
      else fillChunks size chunk source

/-- `_chunks`. -/
def chunks {α : Type} (source : List α) (size : Int) : List (List α) :=
  fillChunks size [] source

theorem flatten_fillChunks {α : Type} (size : Int) (chunk source : List α) :
    (fillChunks size chunk source).flatten = chunk ++ source := by
  induction source generalizing chunk with
  | nil =>
      rw [fillChunks]
      split
      · rename_i empty
        simp [empty]
      · simp
  | cons block source induction =>
      rw [fillChunks]
      split
      · rw [List.flatten_cons, induction]
        simp
      · rw [induction]
        simp

theorem ne_nil_of_mem_fillChunks {α : Type} {size : Int} {chunk source part : List α}
    (member : part ∈ fillChunks size chunk source) : part ≠ [] := by
  induction source generalizing chunk with
  | nil =>
      rw [fillChunks] at member
      split at member
      · cases member
      · rename_i nonempty
        rwa [List.mem_singleton.mp member]
  | cons block source induction =>
      rw [fillChunks] at member
      split at member
      · rcases List.mem_cons.mp member with rfl | later
        · simp
        · exact induction later
      · exact induction member

theorem flatten_chunks {α : Type} (source : List α) (size : Int) :
    (chunks source size).flatten = source :=
  flatten_fillChunks size [] source

theorem ne_nil_of_mem_chunks {α : Type} {source part : List α} {size : Int}
    (member : part ∈ chunks source size) : part ≠ [] :=
  ne_nil_of_mem_fillChunks member

/-- `torch.empty((len(tensors), *shape))` filled by copying one tensor after the
other; every tensor has the shape. -/
def stageTensor {α : Type} (shape : List Int) (tensors : List (Tensor α)) :
    Except PyError (Tensor α) :=
  if ∀ tensor ∈ tensors, tensor.shape.map Int.ofNat = shape then Tensor.stack tensors
  else .error (.runtimeError "shapes do not match")

/-- `_stage`, for blocks that lie on the given device. -/
def stage (spec : CacheSpec) (device : Device) (blocks : List PackedKVBlock) :
    Except PyError PackedBatch :=
  match blocks, device with
  | [], _ => .error .indexError
  | blocks, .cuda => stackBlocks blocks spec.bits spec.groupSize
  | blocks, .cpu => do
      let packedK ← stageTensor spec.packedShape (blocks.map fun block => block.key.packed)
      let packedV ← stageTensor spec.packedShape (blocks.map fun block => block.value.packed)
      let scalesK ← stageTensor spec.scaleShape (blocks.map fun block => block.key.scales)
      let scalesV ← stageTensor spec.scaleShape (blocks.map fun block => block.value.scales)
      let validTokens ← int32Tensor (blocks.map PackedKVBlock.validTokens)
      return ⟨packedK, packedV, scalesK, scalesV, validTokens, spec.bits, spec.groupSize⟩

section Streamed

variable {F : Type} [arith : AttentionArith F]
  (run : Tensor F → PackedBatch → F → Except PyError (Tensor F × Tensor F))
  (spec : CacheSpec) (device : Device) (query : Tensor F) (scale : F)

/-- The loop of `_decode_cuda_streamed` over the staged chunk and the chunks
behind it. -/
def streamChunks (current : PackedBatch) (merged : Option (Tensor F × Tensor F)) :
    List (List PackedKVBlock) → Except PyError (Tensor F)
  | [] => do
      let merged ← step current merged
      return merged.1
  | chunk :: rest => do
      let merged ← step current merged
      let current ← stage spec device chunk
      streamChunks current (some merged) rest
where
  /-- One run of the backend, merged with what was there before. -/
  step (current : PackedBatch) (merged : Option (Tensor F × Tensor F)) :
      Except PyError (Tensor F × Tensor F) := do
    let (output, lse) ← run query current scale
    match merged with
    | none => return (output, lse)
    | some (mergedOutput, mergedLse) =>
        mergeAttentionChunks mergedOutput mergedLse output lse

/-- `_decode_cuda_streamed` over the blocks the loader delivers, for a given
scale. -/
def decodeCudaStreamed (source : List PackedKVBlock) (stageBlocks : Int) :
    Except PyError (Tensor F) :=
  match chunks source stageBlocks with
  | [] => .error (.valueError "selector returned no blocks")
  | chunk :: rest => do
      let current ← stage spec device chunk
      streamChunks run spec device query scale current none rest

end Streamed

end KVSSDPipeline

end KVSSD

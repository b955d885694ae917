import KVSSD.PipelineCuda
import KVSSD.RestoredError

/-!
# How accurate the pipelines are

From the tensors a store is created from to what `decode` returns, against attention over these
tensors themselves.  The error of an output depends on the largest key, the largest value and the
size of the query, and not on how many tokens are attended to.
-/

namespace KVSSD

open KVSSD.Python KVSSD.Struct KVSSD.Quant

section Accurate

variable {α β : Type} [keyElement : TorchElement α ℚ] [valueElement : TorchElement β ℚ]
  {keys : Tensor α} {values : Tensor β} {spec : CacheSpec} {tokens : Nat}
  {keyLargest valueLargest : ℚ}

/-- Keys and values of bounded size, whose scales fit half precision. -/
structure Bounded (keys : Tensor α) (values : Tensor β) (spec : CacheSpec)
    (keyLargest valueLargest : ℚ) : Prop where
  keys : ∀ item ∈ keys.data, |keyElement.toFloat item| ≤ keyLargest
  values : ∀ item ∈ values.data, |valueElement.toFloat item| ≤ valueLargest
  keyScale : largestScale spec.bits keyLargest < 65520
  valueScale : largestScale spec.bits valueLargest < 65520

/-- A call for a query of whole groups of heads, over blocks that were selected, returns attention
over the original tokens of these blocks up to the error of quantization. -/
def KVSSDPipeline.Accurate (pipeline : KVSSDPipeline ℝ) (keys : Tensor α) (values : Tensor β)
    (keyLargest valueLargest : ℚ) (call : DecodeCall ℝ) (result : Except PyError (Tensor ℝ)) :
    Prop :=
  ∀ selected, selectBlocks pipeline.source.store call.layer call.selector = .ok selected →
    ∀ queryHeads, call.query.shape = [queryHeads, pipeline.spec.headDim.toNat] →
      pipeline.spec.kvHeads.toNat ∣ queryHeads →
        ∃ (layer : Nat) (output plain : Tensor ℝ), call.layer = layer ∧ result = .ok output ∧
          originalAttention pipeline.spec keys values layer selected call.query
            (pipeline.smScale call.query) = .ok plain ∧
          ∀ size, (∀ row ∈ call.query.matrix queryHeads pipeline.spec.headDim.toNat,
              rowNorm row ≤ size) →
            plain.Within (attentionError pipeline.spec.bits keyLargest valueLargest size
              (pipeline.smScale call.query)) output

theorem KVSSDPipeline.Restores.accurate {pipeline : KVSSDPipeline ℝ}
    (input : StoreInput ℚ keys values spec tokens)
    (bounded : Bounded keys values spec keyLargest valueLargest) (same : pipeline.spec = spec)
    {call : DecodeCall ℝ} {result : Except PyError (Tensor ℝ)}
    (restores : pipeline.Restores ℚ keys values call result) :
    pipeline.Accurate keys values keyLargest valueLargest call result := by
  intro selected selects queryHeads shape divides
  obtain ⟨layer, output, layerEq, returned, attended⟩ :=
    restores selected selects queryHeads shape divides
  obtain ⟨nonempty, _⟩ := KVSSDPipeline.mem_of_selectBlocks selects
  subst same
  obtain ⟨plain, plainOk, close⟩ := originalAttention_within input bounded.keys bounded.values
    bounded.keyScale bounded.valueScale nonempty shape divides attended
  exact ⟨layer, output, plain, layerEq, returned, plainOk, close⟩

end Accurate

theorem tinyKeys_bounded : Bounded tinyKeys tinyKeys tinySpec 1 1 :=
  ⟨by decide +kernel, by decide +kernel, by decide +kernel, by decide +kernel⟩

end KVSSD

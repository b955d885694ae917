import KVSSD.FormatCodec

/-!
# Attention over packed blocks

The reference attention backend, `packed_attention` and the merge of attention
chunks.  Arithmetic is a class: over the reals it is exact.  Casts between float
types are the identity, and the copies between devices are left out.
-/

namespace KVSSD

open KVSSD.Python

/-- The float32 operations of attention. -/
class AttentionArith (F : Type) extends DequantArith F where
  zero : F
  add : F → F → F
  div : F → F → F
  exp : F → F
  log : F → F

section Arith

variable {F : Type} [arith : AttentionArith F]

def sumItems (items : List F) : F := items.foldl arith.add arith.zero

/-- The sum of products. -/
def dot (left right : List F) : F := sumItems (List.zipWith arith.mul left right)

/-- `torch.logsumexp` of one row. -/
def logSumExp (scores : List F) : F := arith.log (sumItems (scores.map arith.exp))

/-- `torch.softmax` of one row. -/
def softmax (scores : List F) : List F :=
  let total := sumItems (scores.map arith.exp)
  scores.map fun score => arith.div (arith.exp score) total

/-- `torch.logaddexp` of two numbers. -/
def logAddExp (left right : F) : F := arith.log (arith.add (arith.exp left) (arith.exp right))

end Arith

namespace Tensor

variable {α : Type}

/-- The rows of a matrix. -/
def matrix (tensor : Tensor α) (count width : Nat) : List (List α) :=
  rows count width tensor.data

/-- The rows of the matrices of a tensor of rank three. -/
def cube (tensor : Tensor α) (count heads width : Nat) : List (List (List α)) :=
  (rows count (heads * width) tensor.data).map (rows heads width)

/-- `tensor[:, mapping]` for a tensor of rank three. -/
def gatherHeads (tensor : Tensor α) (mapping : List Nat) : Except PyError (Tensor α) :=
  match tensor.shape with
  | [count, heads, width] =>
      if ∀ head ∈ mapping, head < heads then
        (Tensor.ofList ((tensor.cube count heads width).flatMap fun token =>
          mapping.flatMap fun head => token.getD head [])).reshape
            [count, mapping.length, width]
      else .error .indexError
  | _ => .error .indexError

variable {F : Type} [arith : AttentionArith F]

/-- `einsum("hd,thd->ht", query, keys)`. -/
def einsumScores (query keys : Tensor F) : Except PyError (Tensor F) :=
  match query.shape, keys.shape with
  | [heads, width], [count, keyHeads, keyWidth] =>
      if heads = keyHeads ∧ width = keyWidth then
        (Tensor.ofList ((List.range heads).flatMap fun head =>
          (keys.cube count heads width).map fun token =>
            dot ((query.matrix heads width).getD head []) (token.getD head []))).reshape
              [heads, count]
      else .error (.runtimeError "operands could not be broadcast")
  | _, _ => .error (.runtimeError "operands could not be broadcast")

/-- `einsum("ht,thd->hd", weights, values)`. -/
def einsumOutput (weights values : Tensor F) : Except PyError (Tensor F) :=
  match weights.shape, values.shape with
  | [heads, count], [valueCount, valueHeads, width] =>
      if heads = valueHeads ∧ count = valueCount then
        (Tensor.ofList ((List.range heads).flatMap fun head =>
          (List.range width).map fun column =>
            dot ((weights.matrix heads count).getD head [])
              ((values.cube count heads width).map fun token =>
                (token.getD head []).getD column arith.zero))).reshape [heads, width]
      else .error (.runtimeError "operands could not be broadcast")
  | _, _ => .error (.runtimeError "operands could not be broadcast")

/-- `repeat_interleave(repeats, dim=-1)`. -/
def repeatInterleave (tensor : Tensor α) (repeats : Int) : Except PyError (Tensor α) :=
  if repeats < 0 then .error (.runtimeError "repeats can not be negative")
  else .ok (tensor.mapLast (lastDim tensor.shape * repeats.toNat)
    (fun row => row.flatMap fun item => List.replicate repeats.toNat item)
    (by intro row wide; simp [wide]))

end Tensor

structure PackedBatch where
  packedK : Tensor UInt8
  packedV : Tensor UInt8
  scalesK : Tensor UInt16
  scalesV : Tensor UInt16
  validTokens : Tensor Int
  bits : Int
  groupSize : Int

section Backend

variable {F : Type} [arith : AttentionArith F]

/-- `PackedBatch.validate`. All tensors are on the device of the query. -/
def PackedBatch.validate (batch : PackedBatch) (query : Tensor F) : Except PyError Unit :=
  if query.shape.length ≠ 2 then
    .error (.valueError "query must be [query_heads, head_dim]")
  else if batch.packedK.shape.length ≠ 4 ∨ batch.packedK.shape ≠ batch.packedV.shape then
    .error (.valueError "packed KV must match [blocks,tokens,kv_heads,packed_dim]")
  else if batch.scalesK.shape.length ≠ 4 ∨ batch.scalesK.shape ≠ batch.scalesV.shape then
    .error (.valueError "KV scales must match [blocks,tokens,kv_heads,groups]")
  else if batch.validTokens.shape ≠ [batch.packedK.shape.getD 0 0] then
    .error (.valueError "valid_tokens must contain one count per block")
  else if batch.bits ≠ 2 ∧ batch.bits ≠ 4 then
    .error (.valueError "bits must be 2 or 4")
  else do
    let headDim : Int := Tensor.lastDim query.shape
    let remainder ← pyMod headDim batch.groupSize
    if remainder ≠ 0 then .error (.valueError "group_size must divide head_dim")
    else if (Tensor.lastDim batch.packedK.shape : Int) ≠ (headDim * batch.bits).fdiv 8 then
      .error (.valueError "packed dimension does not match query head dimension")
    else
      let remainder ← pyMod (query.shape.getD 0 0) (batch.packedK.shape.getD 2 0)
      if remainder ≠ 0 then
        .error (.valueError "query heads must be divisible by KV heads")
      else .ok ()

/-- `dequantize` of the reference backend. -/
def dequantizePacked (bits groupSize : Int) (headDim : Nat) (packed : Tensor UInt8)
    (scales : Tensor UInt16) : Except PyError (Tensor F) := do
  let codes ← Quant.unpackCodes packed bits headDim
  let expanded ← (scales.map arith.ofHalf).repeatInterleave groupSize
  (codes.map fun item => arith.ofInt item.toNat).zipWith
    (fun item scale => arith.mul (arith.sub item (arith.ofInt (Quant.midpoint bits))) scale)
    expanded

/-- `arange(q_heads) // (q_heads // kv_heads)`. -/
def headMapping (queryHeads kvHeads : Nat) : List Nat :=
  (List.range queryHeads).map fun head => head / (queryHeads / kvHeads)

/-- The scores of the query heads against the keys of their groups. -/
def attentionScores (query keys : Tensor F) (scale : F) : Except PyError (Tensor F) := do
  let expanded ← keys.gatherHeads
    (headMapping (query.shape.getD 0 0) (keys.shape.getD 1 0))
  let scores ← query.einsumScores expanded
  return scores.map fun score => arith.mul score scale

/-- The softmax average of the values under the scores. -/
def attentionOutput (query keys values : Tensor F) (scores : Tensor F) :
    Except PyError (Tensor F) := do
  let expanded ← values.gatherHeads
    (headMapping (query.shape.getD 0 0) (keys.shape.getD 1 0))
  let weights := scores.mapLast (Tensor.lastDim scores.shape) softmax
    (by intro row wide; simp [softmax, wide])
  weights.einsumOutput expanded

/-- The valid tokens of every block, one behind the other. -/
def flattenValid (tensor : Tensor F) (validTokens : List Int) :
    Except PyError (Tensor F) := do
  let chunks ← validTokens.zipIdx.mapM fun (valid, index) => do
    let block ← tensor.select0 index
    return block.slice0 0 valid
  Tensor.cat chunks

/-- `ReferenceAttentionBackend.run`. -/
def ReferenceAttentionBackend.run (query : Tensor F) (batch : PackedBatch) (scale : F) :
    Except PyError (Tensor F × Tensor F) := do
  batch.validate query
  let headDim := Tensor.lastDim query.shape
  let keys ← dequantizePacked batch.bits batch.groupSize headDim batch.packedK batch.scalesK
  let values ← dequantizePacked batch.bits batch.groupSize headDim batch.packedV
    batch.scalesV
  let keysFlat ← flattenValid keys batch.validTokens.data
  let valuesFlat ← flattenValid values batch.validTokens.data
  let scores ← attentionScores query keysFlat scale
  let lse := scores.reduceLast logSumExp
  let output ← attentionOutput query keysFlat valuesFlat scores
  return (output, lse)

/-- `reference_attention`. -/
def referenceAttention (query keys values : Tensor F) (scale : F) :
    Except PyError (Tensor F) :=
  if query.shape.length ≠ 2 ∨ keys.shape.length ≠ 3 ∨ keys.shape ≠ values.shape then
    .error (.valueError "expected query [QH,D] and matching keys/values [T,KVH,D]")
  else
    let mismatch : PyError :=
      .valueError "head_dim mismatch or query heads not divisible by KV heads"
    if keys.shape.getD 2 0 ≠ Tensor.lastDim query.shape then .error mismatch
    else do
      let remainder ← pyMod (query.shape.getD 0 0) (keys.shape.getD 1 0)
      if remainder ≠ 0 then .error mismatch
      else
        let scores ← attentionScores query keys scale
        attentionOutput query keys values scores

/-- `packed_attention_reference`. -/
def packedAttentionReference (query : Tensor F) (blocks : List PackedKVBlock) (scale : F) :
    Except PyError (Tensor F) :=
  if blocks = [] then .error (.valueError "at least one block is required")
  else do
    let keyChunks ← blocks.mapM fun block => do
      let restored ← dequantizeTensor F id block.key
      return restored.slice0 0 block.validTokens
    let keys ← Tensor.cat keyChunks
    let valueChunks ← blocks.mapM fun block => do
      let restored ← dequantizeTensor F id block.value
      return restored.slice0 0 block.validTokens
    let values ← Tensor.cat valueChunks
    referenceAttention query keys values scale

/-- A value of an `int32` tensor. -/
def FitsInt32 (value : Int) : Prop := -2 ^ 31 ≤ value ∧ value < 2 ^ 31

instance (value : Int) : Decidable (FitsInt32 value) :=
  inferInstanceAs (Decidable (_ ∧ _))

/-- `torch.tensor(values, dtype=torch.int32)`. -/
def int32Tensor (values : List Int) : Except PyError (Tensor Int) :=
  if ∀ value ∈ values, FitsInt32 value then .ok (Tensor.ofList values)
  else .error (.runtimeError "value cannot be converted to type int32_t without overflow")

/-- `stack_blocks`, with the bits and the group size of the batch. -/
def stackBlocks (blocks : List PackedKVBlock) (bits groupSize : Int) :
    Except PyError PackedBatch :=
  if blocks = [] then .error (.valueError "at least one block is required")
  else do
    let packedK ← Tensor.stack (blocks.map fun block => block.key.packed)
    let packedV ← Tensor.stack (blocks.map fun block => block.value.packed)
    let scalesK ← Tensor.stack (blocks.map fun block => block.key.scales)
    let scalesV ← Tensor.stack (blocks.map fun block => block.value.scales)
    let validTokens ← int32Tensor (blocks.map PackedKVBlock.validTokens)
    return ⟨packedK, packedV, scalesK, scalesV, validTokens, bits, groupSize⟩

/-- `packed_attention` with the reference backend and a given scale. -/
def packedAttention (query : Tensor F) (blocks : List PackedKVBlock) (scale : F) :
    Except PyError (Tensor F) :=
  match blocks with
  | [] => .error (.valueError "at least one block is required")
  | first :: _ => do
      let batch ← stackBlocks blocks first.key.bits first.key.groupSize
      let (output, _) ← ReferenceAttentionBackend.run query batch scale
      return output

/-- `merge_attention_chunks`. -/
def mergeAttentionChunks (leftOutput leftLse rightOutput rightLse : Tensor F) :
    Except PyError (Tensor F × Tensor F) := do
  let mergedLse ← leftLse.zipWith logAddExp rightLse
  let leftWeights ← leftLse.zipWith (fun lse merged => arith.exp (arith.sub lse merged))
    mergedLse
  let left ← Tensor.zipLast (fun weight item => arith.mul item weight) leftWeights leftOutput
  let rightWeights ← rightLse.zipWith (fun lse merged => arith.exp (arith.sub lse merged))
    mergedLse
  let right ← Tensor.zipLast (fun weight item => arith.mul item weight) rightWeights
    rightOutput
  let mergedOutput ← left.zipWith arith.add right
  return (mergedOutput, mergedLse)

end Backend

end KVSSD

import KVSSD.Attention

/-!
# The fused decode kernels

The CUDA kernel of `csrc/fused_decode.cu` and the Triton kernel of
`backends/triton.py`, with the checks of their hosts.  Both read packed codes and
scales at flattened indices and keep a running softmax.  A kernel returns nothing
where its behaviour is undefined: a read outside of a tensor, an overflow of `int`,
a division by zero, a read of shared memory that was never written.
-/

namespace KVSSD

open KVSSD.Python

/-- The operations of the kernels: their running maximum starts at minus infinity. -/
class KernelArith (F : Type) extends AttentionArith F where
  negInf : F
  max : F → F → F

/-- The sizes a kernel is launched with. A thread block has `lanes` threads, a Triton
program `lanes` lanes. -/
structure Launch where
  blocks : Int
  tokens : Int
  queryHeads : Int
  kvHeads : Int
  headDim : Int
  packedDim : Int
  groups : Int
  bits : Int
  groupSize : Int
  lanes : Nat

/-- The least power of two from `2 ^ exponent` on that reaches `bound`, by doubling. -/
def powerAtLeast (bound exponent : Nat) : Nat :=
  if 2 ^ exponent < bound then powerAtLeast bound (exponent + 1) else 2 ^ exponent
  termination_by bound - 2 ^ exponent
  decreasing_by
    rw [Nat.pow_succ]
    have positive := Nat.two_pow_pos exponent
    omega

/-- Reading through a pointer. -/
def load {α : Type} (items : List α) (index : Int) : Option α :=
  if index < 0 then none else items[index.toNat]?

/-- `dividend / divisor`, rounded toward zero. -/
def divide (dividend divisor : Int) : Option Int :=
  if divisor = 0 then none else some (dividend.tdiv divisor)

/-- `((block * tokens + token) * kv_heads + kv_head) * width`, where `wrap` is what the
integers of the kernel make of a result. -/
def Launch.rowBase (launch : Launch) (wrap : Int → Option Int) (width : Int)
    (block token : Nat) (kvHead : Int) : Option Int := do
  let index ← wrap (block * launch.tokens)
  let index ← wrap (index + token)
  let index ← wrap (index * launch.kvHeads)
  let index ← wrap (index + kvHead)
  wrap (index * width)

/-- `kv_head`, or `kvh`: consecutive query heads share a head of the cache. -/
def Launch.kvHead (launch : Launch) (queryHead : Nat) : Option Int := do
  let shared ← divide launch.queryHeads launch.kvHeads
  divide queryHead shared

/-- `(byte >> shift) & code_mask`, for the code of dimension `dim`. -/
def Launch.code (launch : Launch) (byte : UInt8) (dim : Nat) : Nat :=
  (byte.toNat >>> (dim % Quant.perByte launch.bits * launch.bits.toNat)) &&&
    (2 ^ launch.bits.toNat - 1)

namespace Cuda

/-- A result of `int` arithmetic. -/
def int (value : Int) : Option Int :=
  if -2 ^ 31 ≤ value ∧ value < 2 ^ 31 then some value else none

/-- The conversion of a 64-bit size to `int`. -/
def narrow (size : Int) : Int := size.bmod (2 ^ 32)

/-- `%` of C++; the process does not survive a zero divisor. -/
def remainder (dividend divisor : Int) : Except PyError Int :=
  if divisor = 0 then .error .zeroDivisionError else .ok (dividend.tmod divisor)

section Host

variable {F : Type} (query : Tensor F) (batch : PackedBatch)

/-- `fused_decode_cuda` up to the launch. -/
def fusedDecodeCuda : Except PyError Launch := do
  let size (shape : List Nat) (axis : Nat) : Int := narrow (shape.getD axis 0)
  let blocks := size batch.packedK.shape 0
  let tokens := size batch.packedK.shape 1
  let kvHeads := size batch.packedK.shape 2
  let packedDim := size batch.packedK.shape 3
  let queryHeads := size query.shape 0
  let headDim := size query.shape 1
  let groups := size batch.scalesK.shape 3
  if headDim > 256 then
    .error (.runtimeError "reference CUDA kernel supports head_dim <= 256")
  else
    let heads ← remainder queryHeads kvHeads
    if heads ≠ 0 then .error (.runtimeError "query heads must be divisible by KV heads")
    else
      let uneven ← remainder headDim batch.groupSize
      if uneven ≠ 0 then .error (.runtimeError "group_size must divide head_dim")
      else if packedDim ≠ (headDim * batch.bits).tdiv 8 then
        .error (.runtimeError "packed dimension mismatch")
      else if groups ≠ headDim.tdiv batch.groupSize then
        .error (.runtimeError "scale dimension mismatch")
      else
        .ok
          { blocks := blocks
            tokens := tokens
            queryHeads := queryHeads
            kvHeads := kvHeads
            headDim := headDim
            packedDim := packedDim
            groups := groups
            bits := narrow batch.bits
            groupSize := narrow batch.groupSize
            lanes := powerAtLeast headDim.toNat 5 }

/-- `fused_decode`. The element types are those of the batch. -/
def fusedDecode : Except PyError Launch :=
  if query.shape.length ≠ 2 then
    .error (.runtimeError "query must be [query_heads, head_dim]")
  else if batch.packedK.shape.length ≠ 4 ∨ batch.packedK.shape ≠ batch.packedV.shape then
    .error (.runtimeError
      "packed KV must be matching [blocks,tokens,kv_heads,packed_dim]")
  else if batch.scalesK.shape.length ≠ 4 ∨ batch.scalesK.shape ≠ batch.scalesV.shape then
    .error (.runtimeError "scales must be matching [blocks,tokens,kv_heads,groups]")
  else if batch.bits ≠ 2 ∧ batch.bits ≠ 4 then
    .error (.runtimeError "bits must be 2 or 4")
  else fusedDecodeCuda query batch

end Host

/-- `CudaExtensionBackend.run` up to the launch. -/
def CudaExtensionBackend.run {F : Type} (query : Tensor F) (batch : PackedBatch) :
    Except PyError Launch := do
  batch.validate query
  fusedDecode query batch

/-- `byte_index`. -/
def byteIndex (launch : Launch) (kvHead : Int) (block token dim : Nat) : Option Int := do
  let base ← launch.rowBase int launch.packedDim block token kvHead
  int (base + dim / Quant.perByte launch.bits)

/-- `scale_index`. -/
def scaleIndex (launch : Launch) (kvHead : Int) (block token dim : Nat) : Option Int := do
  let base ← launch.rowBase int launch.groups block token kvHead
  let group ← divide dim launch.groupSize
  int (base + group)

/-- The dimensions a thread goes through: `for (d = tid; d < head_dim; d += blockDim.x)`. -/
def strided (launch : Launch) (tid : Nat) : List Nat :=
  (pyRange (launch.headDim.toNat - tid) launch.lanes).map (tid + ·)

section Kernel

variable {F : Type} [arith : KernelArith F]

/-- `if (tid < stride) reduce[tid] += reduce[tid + stride]` for the strides from `stride`
down, halved after every barrier. -/
def reduceTree (stride : Nat) (reduce : Nat → F) : Nat → F :=
  if stride = 0 then reduce
  else reduceTree (stride / 2) fun tid =>
    if tid < stride then arith.add (reduce tid) (reduce (tid + stride)) else reduce tid
  termination_by stride

/-- `kval`, or `v`. -/
def value (launch : Launch) (packed : Tensor UInt8) (scales : Tensor UInt16) (kvHead : Int)
    (block token dim : Nat) : Option F := do
  let index ← byteIndex launch kvHead block token dim
  let byte ← load packed.data index
  let code : Int := launch.code byte dim
  let index ← scaleIndex launch kvHead block token dim
  let scale ← load scales.data index
  return arith.mul (arith.ofInt (code - Quant.midpoint launch.bits)) (arith.ofHalf scale)

/-- The partial dot product of one thread. -/
def partialDot (query : Tensor F) (batch : PackedBatch) (launch : Launch) (queryHead : Nat)
    (kvHead : Int) (block token tid : Nat) : Option F :=
  (strided launch tid).foldlM
    (fun sum dim => do
      let kval ← value launch batch.packedK batch.scalesK kvHead block token dim
      let row ← int (queryHead * launch.headDim)
      let index ← int (row + dim)
      let item ← load query.data index
      return arith.add sum (arith.mul item kval))
    arith.zero

/-- The variables of a thread block: those of thread 0, `state[2]` in shared memory and
`out_acc` of every thread. -/
structure State (F : Type) where
  runningM : F
  runningL : F
  shared : Option F
  outAcc : List F

/-- One token. All threads meet at the barriers, so each phase is done by all of them
before the next. -/
def tokenStep (query : Tensor F) (batch : PackedBatch) (scale : F) (launch : Launch)
    (queryHead : Nat) (kvHead : Int) (block : Nat) (state : State F) (token : Nat) :
    Option (State F) := do
  let sums ← (List.range launch.lanes).mapM
    (partialDot query batch launch queryHead kvHead block token)
  let reduced := reduceTree (launch.lanes / 2) fun tid => sums.getD tid arith.zero
  let score := arith.mul (reduced 0) scale
  let nextM := arith.max state.runningM score
  let oldWeight := arith.exp (arith.sub state.runningM nextM)
  let newWeight := arith.exp (arith.sub score nextM)
  let runningL := arith.add (arith.mul oldWeight state.runningL) newWeight
  let outAcc ← state.outAcc.zipIdx.mapM fun (outAcc, tid) =>
    if tid < launch.headDim.toNat then do
      let v ← value launch batch.packedV batch.scalesV kvHead block token tid
      return arith.add (arith.mul outAcc oldWeight) (arith.mul v newWeight)
    else return outAcc
  return { runningM := nextM, runningL := runningL, shared := some runningL, outAcc := outAcc }

/-- `fused_decode_kernel` for the thread block of one query head: its row of the output
and its log-sum-exp. -/
def fusedDecodeKernel (query : Tensor F) (batch : PackedBatch) (scale : F) (launch : Launch)
    (queryHead : Nat) : Option (List F × F) := do
  let kvHead ← launch.kvHead queryHead
  let start : State F :=
    { runningM := arith.negInf
      runningL := arith.zero
      shared := none
      outAcc := List.replicate launch.lanes arith.zero }
  let final ← (List.range launch.blocks.toNat).foldlM
    (fun state (block : Nat) => do
      let valid ← load batch.validTokens.data block
      (List.range valid.toNat).foldlM
        (tokenStep query batch scale launch queryHead kvHead block) state)
    start
  let output ← (final.outAcc.take launch.headDim.toNat).mapM fun outAcc => do
    let sum ← final.shared
    return arith.div outAcc sum
  return (output, arith.add final.runningM (arith.log final.runningL))

end Kernel

end Cuda

namespace Triton

/-- `TritonAttentionBackend.run` up to the launch, on a device where the backend is
available. -/
def TritonAttentionBackend.run {F : Type} (query : Tensor F) (batch : PackedBatch) :
    Except PyError Launch := do
  batch.validate query
  if Tensor.lastDim query.shape > 256 then
    .error (.valueError "Triton backend supports head_dim <= 256")
  else if ∃ valid ∈ batch.validTokens.data, valid ≤ 0 then
    .error (.valueError "every staged block must contain at least one valid token")
  else
    .ok
      { blocks := batch.packedK.shape.getD 0 0
        tokens := batch.packedK.shape.getD 1 0
        queryHeads := query.shape.getD 0 0
        kvHeads := batch.packedK.shape.getD 2 0
        headDim := query.shape.getD 1 0
        packedDim := batch.packedK.shape.getD 3 0
        groups := batch.scalesK.shape.getD 3 0
        bits := batch.bits
        groupSize := batch.groupSize
        lanes := powerAtLeast (query.shape.getD 1 0) 0 }

/-- `tl.load(pointer, mask=mask, other=other)` in one lane. -/
def maskedLoad {α : Type} (mask : Bool) (other : α) (items : List α) (index : Int) : Option α :=
  if mask then load items index else some other

variable (wrap : Int → Int)

/-- `packed_base + byte_offsets`; pointers do not wrap. -/
def byteIndex (launch : Launch) (kvHead : Int) (block token dim : Nat) : Option Int := do
  let base ← launch.rowBase (fun index => some (wrap index)) launch.packedDim block token kvHead
  return base + dim / Quant.perByte launch.bits

/-- `scale_base + offsets_d // GROUP_SIZE`. -/
def scaleIndex (launch : Launch) (kvHead : Int) (block token dim : Nat) : Option Int := do
  let base ← launch.rowBase (fun index => some (wrap index)) launch.groups block token kvHead
  let group ← divide dim launch.groupSize
  return base + group

section Kernel

variable {F : Type} [arith : KernelArith F]

/-- `key`, or `value`, in one lane. The lanes beyond `HEAD_DIM` load zeros. -/
def value (launch : Launch) (packed : Tensor UInt8) (scales : Tensor UInt16) (kvHead : Int)
    (block token dim : Nat) : Option F := do
  let byteAt ← byteIndex wrap launch kvHead block token dim
  let byte ← maskedLoad (dim < launch.headDim) 0 packed.data byteAt
  let code : Int := launch.code byte dim
  let scaleAt ← scaleIndex wrap launch kvHead block token dim
  let scale ← maskedLoad (dim < launch.headDim) 0 scales.data scaleAt
  return arith.mul (arith.sub (arith.ofInt code) (arith.ofInt (Quant.midpoint launch.bits)))
    (arith.ofHalf scale)

structure State (F : Type) where
  runningMax : F
  runningSum : F
  accumulator : List F

/-- One token, valid or not. -/
def tokenStep (batch : PackedBatch) (scale : F) (launch : Launch) (query : List F)
    (kvHead : Int) (block : Nat) (valid : Int) (state : State F) (token : Nat) :
    Option (State F) := do
  let key ← (List.range launch.lanes).mapM
    (value wrap launch batch.packedK batch.scalesK kvHead block token)
  let score := arith.mul (dot query key) scale
  let score := if (token : Int) < valid then score else arith.negInf
  let nextMax := arith.max state.runningMax score
  let oldWeight := arith.exp (arith.sub state.runningMax nextMax)
  let newWeight := arith.exp (arith.sub score nextMax)
  let value ← (List.range launch.lanes).mapM
    (value wrap launch batch.packedV batch.scalesV kvHead block token)
  return {
    runningMax := nextMax
    runningSum := arith.add (arith.mul state.runningSum oldWeight) newWeight
    accumulator := List.zipWith
      (fun sum value => arith.add (arith.mul sum oldWeight) (arith.mul value newWeight))
      state.accumulator value }

/-- The query in the lanes of a program. -/
def queryLanes (query : Tensor F) (launch : Launch) (queryHead : Nat) : Option (List F) :=
  (List.range launch.lanes).mapM fun (dim : Nat) =>
    maskedLoad (dim < launch.headDim) arith.zero query.data
      (wrap (queryHead * launch.headDim) + dim)

/-- The state before the first token. -/
def start (launch : Launch) : State F :=
  { runningMax := arith.negInf
    runningSum := arith.zero
    accumulator := List.replicate launch.lanes arith.zero }

/-- `_fused_decode_kernel` for the program of one query head: what it stores in its row
of the output, and its log-sum-exp. -/
def fusedDecodeKernel (query : Tensor F) (batch : PackedBatch) (scale : F) (launch : Launch)
    (queryHead : Nat) : Option (List F × F) := do
  let lanes ← queryLanes wrap query launch queryHead
  let kvHead ← launch.kvHead queryHead
  let final ← (List.range launch.blocks.toNat).foldlM
    (fun state (block : Nat) => do
      let valid ← load batch.validTokens.data block
      (List.range launch.tokens.toNat).foldlM
        (tokenStep wrap batch scale launch lanes kvHead block valid) state)
    (start launch)
  let output := (final.accumulator.map fun sum => arith.div sum final.runningSum).take
    launch.headDim.toNat
  return (output, arith.add final.runningMax (arith.log final.runningSum))

end Kernel

end Triton

end KVSSD

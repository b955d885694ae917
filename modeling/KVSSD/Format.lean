import KVSSD.Quant
import KVSSD.Lib.Struct

/-!
# Record format

`CacheSpec`, the manifest, and the record codec.  A record is a 52-byte header
followed by key scales, value scales, packed keys and packed values, padded with
zeros to the next multiple of 4096.  Integers of the source are integers here:
`validate` is what excludes negative dimensions, and group sizes may be negative.

The checksum is a parameter, so that results hold for every checksum.
-/

namespace KVSSD

open KVSSD.Python KVSSD.Struct

namespace Format

/-- `ALIGNMENT`. -/
def alignment : Int := 4096

/-- `MAGIC`, the bytes of `KVSSD001`. -/
def magic : Bytes := [75, 86, 83, 83, 68, 48, 48, 49]

/-- Widths of the integer fields of `HEADER`, which follow the magic. -/
def headerWidths : List Nat := List.replicate 11 4

/-- `HEADER.size`. -/
def headerSize : Nat := 52

end Format

def alignUp (value alignment : Int) : Int :=
  (value + alignment - 1).fdiv alignment * alignment

structure CacheSpec where
  layers : Int
  kvHeads : Int
  headDim : Int
  blockTokens : Int
  bits : Int
  groupSize : Int
  deriving DecidableEq, Repr

namespace CacheSpec

def validate (spec : CacheSpec) : Except PyError Unit :=
  if min (min spec.layers spec.kvHeads) (min spec.headDim spec.blockTokens) ≤ 0 then
    .error (.valueError "all cache dimensions must be positive")
  else if spec.bits ≠ 2 ∧ spec.bits ≠ 4 then
    .error (.valueError "bits must be 2 or 4")
  else do
    let remainder ← pyMod spec.headDim spec.groupSize
    if remainder ≠ 0 then
      .error (.valueError "head_dim must be divisible by group_size")
    else .ok ()

def packedDim (spec : CacheSpec) : Int := (spec.headDim * spec.bits).fdiv 8

/-- `head_dim // group_size`. -/
def groups (spec : CacheSpec) : Int := spec.headDim.fdiv spec.groupSize

def scaleCount (spec : CacheSpec) : Int :=
  spec.blockTokens * spec.kvHeads * spec.groups

def packedCount (spec : CacheSpec) : Int :=
  spec.blockTokens * spec.kvHeads * spec.packedDim

def payloadBytes (spec : CacheSpec) : Int :=
  2 * spec.scaleCount * 2 + 2 * spec.packedCount

def recordBytes (spec : CacheSpec) : Int :=
  alignUp (Format.headerSize + spec.payloadBytes) Format.alignment

/-- `(block_tokens, kv_heads, head_dim)`. -/
def blockShape (spec : CacheSpec) : List Int :=
  [spec.blockTokens, spec.kvHeads, spec.headDim]

def scaleShape (spec : CacheSpec) : List Int :=
  [spec.blockTokens, spec.kvHeads, spec.groups]

def packedShape (spec : CacheSpec) : List Int :=
  [spec.blockTokens, spec.kvHeads, spec.packedDim]

end CacheSpec

structure BlockEntry where
  layer : Int
  block : Int
  offset : Int
  length : Int
  validTokens : Int
  crc32 : Int
  deriving DecidableEq, Repr

structure Manifest where
  spec : CacheSpec
  entries : List BlockEntry
  version : Int
  deriving DecidableEq, Repr

structure PackedKVBlock where
  layer : Int
  block : Int
  validTokens : Int
  key : QuantizedTensor
  value : QuantizedTensor
  deriving DecidableEq

/-- One half-precision item in memory, low byte first. -/
def halfBytes (half : UInt16) : Bytes := leBytes 2 half.toNat

/-- The bytes of a contiguous half-precision tensor. -/
def scalesBytes (scales : Tensor UInt16) : Bytes := scales.data.flatMap halfBytes

/-- `view(torch.float16)` on a one-dimensional byte tensor. -/
def halvesOf : Bytes → Except PyError (List UInt16)
  | [] => .ok []
  | [_] => .error (.runtimeError "size must be divisible by 2 to view as float16")
  | low :: high :: bytes => do
      let halves ← halvesOf bytes
      return UInt16.ofNat (leNat [low, high]) :: halves

/-- A one-dimensional tensor of the given items. -/
def Tensor.ofList {α : Type} (items : List α) : Tensor α :=
  { shape := [items.length], data := items, size_eq := by simp }

/-- `reshape(shape)` for a shape of Python integers, of which one may be -1. -/
def Tensor.reshapeInts {α : Type} (tensor : Tensor α) (shape : List Int) :
    Except PyError (Tensor α) :=
  let front := shape.takeWhile (0 ≤ ·)
  match shape.drop front.length with
  | [] => tensor.reshape (shape.map Int.toNat)
  | size :: back =>
    if size ≠ -1 then .error (.runtimeError s!"invalid shape dimension {size}")
    else
      match back.find? (· < 0) with
      | none => tensor.reshapeInfer (front.map Int.toNat) (back.map Int.toNat)
      | some other =>
        if other = -1 then .error (.runtimeError "only one dimension can be inferred")
        else .error (.runtimeError s!"invalid shape dimension {other}")

/-- `.view(torch.float16).reshape(scale_shape)`. -/
def scaleTensor (spec : CacheSpec) (bytes : Bytes) :
    Except PyError (Tensor UInt16) := do
  let halves ← halvesOf bytes
  (Tensor.ofList halves).reshapeInts spec.scaleShape

/-- `.reshape(packed_shape)`. -/
def codeTensor (spec : CacheSpec) (bytes : Bytes) :
    Except PyError (Tensor UInt8) :=
  (Tensor.ofList bytes).reshapeInts spec.packedShape

/-- The fields of `HEADER` after unpacking. -/
structure Header where
  magic : Bytes
  version : Nat
  layer : Nat
  block : Nat
  valid : Nat
  bits : Nat
  blockTokens : Nat
  heads : Nat
  dim : Nat
  group : Nat
  payloadLen : Nat
  crc : Nat
  deriving DecidableEq, Repr

/-- `HEADER.unpack` on a buffer that holds a whole header. -/
def Header.read (raw : Bytes) : Header :=
  let field (index : Nat) : Nat :=
    (unpackFields Format.headerWidths
      (raw.drop Format.magic.length)).getD index 0
  { magic := raw.take Format.magic.length
    version := field 0
    layer := field 1
    block := field 2
    valid := field 3
    bits := field 4
    blockTokens := field 5
    heads := field 6
    dim := field 7
    group := field 8
    payloadLen := field 9
    crc := field 10 }

/-- `HEADER.unpack(bytes(view[:HEADER.size]))`. -/
def unpackHeader (raw : Bytes) : Except PyError Header :=
  if raw.length < Format.headerSize then .error .structError
  else .ok (Header.read raw)

/-- The layout fields of the header agree with the specification. -/
def Header.Matches (header : Header) (spec : CacheSpec) : Prop :=
  (header.bits : Int) = spec.bits ∧
    (header.blockTokens : Int) = spec.blockTokens ∧
    (header.heads : Int) = spec.kvHeads ∧
    (header.dim : Int) = spec.headDim ∧
    (header.group : Int) = spec.groupSize

instance (header : Header) (spec : CacheSpec) :
    Decidable (header.Matches spec) := by
  unfold Header.Matches
  infer_instance

section Codec

variable (crc32 : Bytes → UInt32)

/-- The payload of a block in file order. -/
def payload (block : PackedKVBlock) : Bytes :=
  scalesBytes block.key.scales ++ scalesBytes block.value.scales ++
    block.key.packed.data ++ block.value.packed.data

/-- The integer fields of the header of a block, in order. -/
def headerFields (block : PackedKVBlock) (spec : CacheSpec) : List (Nat × Int) :=
  Format.headerWidths.zip
    [1, block.layer, block.block, block.validTokens, spec.bits,
      spec.blockTokens, spec.kvHeads, spec.headDim, spec.groupSize,
      (payload block).length, (crc32 (payload block)).toNat]

def encodeRecord (block : PackedKVBlock) (spec : CacheSpec) :
    Except PyError (Bytes × Int) :=
  if block.key.originalShape.map Int.ofNat ≠ spec.blockShape ∨
      block.value.originalShape.map Int.ofNat ≠ spec.blockShape then
    .error (.valueError
      s!"padded KV block must have shape ({spec.blockTokens}, {spec.kvHeads}, {spec.headDim})")
  else do
    let fields ← packFields (headerFields crc32 block spec)
    let record := Format.magic ++ fields ++ payload block
    let padding := spec.recordBytes - record.length
    -- `record_bytes` divides by the group size.
    if spec.groupSize = 0 then .error .zeroDivisionError
    else if padding < 0 then .error (.valueError "negative count")
    else
      return (record ++ List.replicate padding.toNat 0,
        ((crc32 (payload block)).toNat : Int))

/-- The four sections of a payload, cut with a running cursor. -/
def decodePayload (raw : Bytes) (spec : CacheSpec) (layer block valid : Int) :
    Except PyError PackedKVBlock :=
  -- `scale_count` divides by the group size.
  if spec.groupSize = 0 then .error .zeroDivisionError
  else do
    let scaleBytes := spec.scaleCount * 2
    let packedBytes := spec.packedCount
    let cursor : Int := Format.headerSize
    let ks ← scaleTensor spec (pySlice raw cursor (cursor + scaleBytes))
    let cursor := cursor + scaleBytes
    let vs ← scaleTensor spec (pySlice raw cursor (cursor + scaleBytes))
    let cursor := cursor + scaleBytes
    let kp ← codeTensor spec (pySlice raw cursor (cursor + packedBytes))
    let cursor := cursor + packedBytes
    let vp ← codeTensor spec (pySlice raw cursor (cursor + packedBytes))
    let shape := spec.blockShape.map Int.toNat
    return {
      layer := layer
      block := block
      validTokens := valid
      key := ⟨kp, ks, shape, spec.bits, spec.groupSize⟩
      value := ⟨vp, vs, shape, spec.bits, spec.groupSize⟩ }

/-- `decode_record` on a contiguous CPU byte tensor. -/
def decodeRecord (raw : Bytes) (spec : CacheSpec) (verifyCrc : Bool) :
    Except PyError PackedKVBlock := do
  let header ← unpackHeader raw
  if header.magic ≠ Format.magic ∨ header.version ≠ 1 then
    .error (.valueError "invalid KVSSD record header")
  else if ¬ header.Matches spec then
    .error (.valueError "record layout does not match manifest")
  else if verifyCrc ∧
      (crc32 (pySlice raw Format.headerSize
        (Format.headerSize + header.payloadLen))).toNat ≠ header.crc then
    .error (.osError
      s!"CRC mismatch for layer={header.layer}, block={header.block}")
  else decodePayload raw spec header.layer header.block header.valid

end Codec

end KVSSD

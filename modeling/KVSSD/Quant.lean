import KVSSD.Lib.Tensor

/-!
# Groupwise quantization

`quantize_tensor` and `dequantize_tensor` with their code packing.  The float32
arithmetic is a class, so that every result about layout holds for the machine's
arithmetic as well as for exact rationals or reals.
-/

namespace KVSSD

open KVSSD.Python

/-- The float32 operations of `dequantize_tensor`. A half-precision scale is
its bit pattern. -/
class DequantArith (F : Type) where
  ofInt : Int → F
  sub : F → F → F
  mul : F → F → F
  ofHalf : UInt16 → F

/-- The float32 operations of `quantize_tensor`. -/
class QuantArith (F : Type) extends DequantArith F where
  abs : F → F
  max : F → F → F
  min : F → F → F
  add : F → F → F
  div : F → F → F
  /-- `torch.round`: to the nearest integer, ties to even. -/
  round : F → F
  /-- The constant `1e-8`. -/
  epsilon : F
  toUInt8 : F → UInt8
  toHalf : F → UInt16

/-- An element type of an input tensor: `x.is_floating_point()`, `x.float()`
and the zero of `torch.zeros`. -/
class TorchElement (α F : Type) where
  isFloatingPoint : Bool
  toFloat : α → F
  zero : α

structure QuantizedTensor where
  packed : Tensor UInt8
  scales : Tensor UInt16
  originalShape : List Nat
  bits : Int
  groupSize : Int
  deriving DecidableEq

namespace Quant

/-- `_validate`. -/
def validate (F : Type) {α : Type} [element : TorchElement α F] (x : Tensor α)
    (bits groupSize : Int) : Except PyError Unit :=
  if bits ≠ 2 ∧ bits ≠ 4 then
    .error (.valueError s!"bits must be 2 or 4, got {bits}")
  else if x.shape = [] then
    .error (.valueError "last dimension must be divisible by group_size")
  else do
    let remainder ← pyMod (Tensor.lastDim x.shape) groupSize
    if remainder ≠ 0 then
      .error (.valueError "last dimension must be divisible by group_size")
    else if groupSize ≤ 0 ∨ groupSize.fmod (8 / bits) ≠ 0 then
      .error (.valueError "group_size must be positive and pack-aligned")
    else if element.isFloatingPoint = false then
      .error (.typeError "quantization input must be floating point")
    else .ok ()

/-- `8 // bits`, the number of codes in a byte. -/
def perByte (bits : Int) : Nat := (8 / bits).toNat

/-- One byte of packed codes: the sum of the codes shifted as `uint8`, cast
back to `uint8`. -/
def packByte (bits : Nat) (codes : List UInt8) : UInt8 :=
  UInt8.ofNat ((codes.zipIdx.map fun (code, index) =>
    (code <<< UInt8.ofNat (index * bits)).toNat).sum)

/-- Pack unsigned codes along the final dimension, low bits first. -/
def packCodes (codes : Tensor UInt8) (bits : Int) :
    Except PyError (Tensor UInt8) :=
  if bits ≠ 2 ∧ bits ≠ 4 then .error (.valueError "bits must be 2 or 4")
  else
    if Tensor.lastDim codes.shape % perByte bits ≠ 0 then
      .error (.valueError "code dimension is not byte aligned")
    else do
      let c ← codes.reshapeInfer codes.shape.dropLast [perByte bits]
      return c.reduceLast (packByte bits.toNat)

/-- The codes of one byte: `(packed.unsqueeze(-1) >> shifts) & mask`. -/
def unpackByte (bits count : Nat) (byte : UInt8) : List UInt8 :=
  (List.range count).map fun index =>
    (byte >>> UInt8.ofNat (index * bits)) &&& UInt8.ofNat (2 ^ bits - 1)

def unpackCodes (packed : Tensor UInt8) (bits : Int) (elements : Nat) :
    Except PyError (Tensor UInt8) :=
  if bits ≠ 2 ∧ bits ≠ 4 then .error (.valueError "bits must be 2 or 4")
  else do
    let values := packed.expandLast (perByte bits)
      (unpackByte bits.toNat (perByte bits))
      (by intro byte; simp [unpackByte])
    let flat ← values.reshapeInfer packed.shape.dropLast []
    return flat.mapLast (min elements (Tensor.lastDim flat.shape))
      (fun row => row.take elements)
      (by intro row length; rw [List.length_take, length])

@[simp] theorem unpackByte_length (bits count : Nat) (byte : UInt8) :
    (unpackByte bits count byte).length = count := by
  simp [unpackByte]

section Groups

variable {F : Type} [arith : QuantArith F]

/-- `1 << (bits - 1)`. -/
def midpoint (bits : Int) : Int := 2 ^ (bits - 1).toNat

/-- `amax(dim=-1)` over one non-empty group. -/
def amax : List F → F
  | [] => arith.ofInt 0
  | item :: items => items.foldl arith.max item

/-- The scale of one group, before it is stored in half precision. -/
def groupScale (bits : Int) (group : List F) : F :=
  arith.div (arith.max (amax (group.map arith.abs)) arith.epsilon)
    (arith.ofInt (midpoint bits - 1))

/-- The stored code of one value under the scale of its group. -/
def code (bits : Int) (scale value : F) : UInt8 :=
  let rounded := arith.round (arith.div value scale)
  let clamped := arith.min (arith.max rounded (arith.ofInt (-midpoint bits)))
    (arith.ofInt (midpoint bits - 1))
  arith.toUInt8 (arith.add clamped (arith.ofInt (midpoint bits)))

def groupCodes (bits : Int) (group : List F) : List UInt8 :=
  group.map (code bits (groupScale bits group))

@[simp] theorem groupCodes_length (bits : Int) (group : List F) :
    (groupCodes bits group).length = group.length := by
  simp [groupCodes]

end Groups

end Quant

open Quant

/-- Symmetric groupwise quantization suitable for register-level
dequantization. -/
def quantizeTensor (F : Type) [arith : QuantArith F] {α : Type}
    [element : TorchElement α F] (x : Tensor α) (bits groupSize : Int) :
    Except PyError QuantizedTensor := do
  validate F x bits groupSize
  let size := groupSize.toNat
  let groups ← (x.map (element.toFloat (F := F))).reshape
    (x.shape.dropLast ++ [Tensor.lastDim x.shape / size, size])
  let scales := groups.reduceLast (groupScale bits)
  let codes ← (groups.mapLast (Tensor.lastDim groups.shape) (groupCodes bits)
    (by intro row length; rw [groupCodes_length, length])).reshape x.shape
  let packed ← packCodes codes bits
  return {
    packed := packed
    scales := scales.map arith.toHalf
    originalShape := x.shape
    bits := bits
    groupSize := groupSize }

namespace Quant

/-- What `_validate` and `pack_codes` require of a bit width, a group size and
the size of the quantized dimension. -/
structure Accepts (bits groupSize : Int) (width : Nat) : Prop where
  bits_cases : bits = 2 ∨ bits = 4
  group_pos : 0 < groupSize
  group_dvd : groupSize.toNat ∣ width
  aligned : perByte bits ∣ groupSize.toNat

theorem perByte_mul_bits {bits : Int} (widths : bits = 2 ∨ bits = 4) :
    perByte bits * bits.toNat = 8 := by
  rcases widths with rfl | rfl
  · rfl
  · rfl

theorem perByte_pos {bits : Int} (widths : bits = 2 ∨ bits = 4) : 0 < perByte bits := by
  have filled := perByte_mul_bits widths
  apply Nat.pos_of_ne_zero
  intro zero
  rw [zero, Nat.zero_mul] at filled
  omega

theorem widths_valid {bits : Int} (widths : bits = 2 ∨ bits = 4) :
    ¬ (bits ≠ 2 ∧ bits ≠ 4) := by
  omega

theorem Accepts.perByte_pos {bits groupSize : Int} {width : Nat}
    (accepts : Accepts bits groupSize width) : 0 < perByte bits :=
  Quant.perByte_pos accepts.bits_cases

theorem Accepts.perByte_dvd {bits groupSize : Int} {width : Nat}
    (accepts : Accepts bits groupSize width) : perByte bits ∣ width :=
  dvd_trans accepts.aligned accepts.group_dvd

theorem Accepts.bits_valid {bits groupSize : Int} {width : Nat}
    (accepts : Accepts bits groupSize width) : ¬ (bits ≠ 2 ∧ bits ≠ 4) :=
  widths_valid accepts.bits_cases

end Quant

/-- Reconstruct every value as `(code - midpoint) * scale` and cast it. -/
def dequantizeTensor (F : Type) [arith : DequantArith F] {E : Type}
    (cast : F → E) (q : QuantizedTensor) : Except PyError (Tensor E) := do
  let codes ← unpackCodes q.packed q.bits (Tensor.lastDim q.originalShape)
  let groups ← (codes.map fun item => arith.ofInt item.toNat).reshapeInfer
    q.originalShape.dropLast [q.groupSize.toNat]
  let values ← Tensor.zipLast
    (fun scale item =>
      arith.mul (arith.sub item (arith.ofInt (midpoint q.bits))) scale)
    (q.scales.map arith.ofHalf) groups
  let restored ← values.reshape q.originalShape
  return restored.map cast

end KVSSD

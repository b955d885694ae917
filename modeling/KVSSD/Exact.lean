import KVSSD.Quant
import KVSSD.Lib.Binary

/-!
# Exact arithmetic for the quantizer

The quantizer over the rationals: float32 operations are exact, and the scales
are rounded to half precision.
-/

namespace KVSSD

/-- A scale that overflowed half precision has no rational value; `Half.toRat`
is read on finite patterns only. -/
instance : QuantArith ℚ where
  ofInt value := value
  sub left right := left - right
  mul left right := left * right
  ofHalf := Half.toRat
  abs value := |value|
  max left right := max left right
  min left right := min left right
  add left right := left + right
  div left right := left / right
  round value := Binary.roundEven value
  epsilon := 1 / 10 ^ 8
  toUInt8 value := UInt8.ofNat ⌊value⌋.toNat
  toHalf := Half.ofRat

/-- A floating-point element type whose values are read exactly. -/
instance : TorchElement ℚ ℚ where
  isFloatingPoint := true
  toFloat value := value
  zero := 0

/-- An integer element type. -/
instance : TorchElement Int ℚ where
  isFloatingPoint := false
  toFloat value := value
  zero := 0

end KVSSD

import Mathlib.Data.Rat.Floor
import Mathlib.Data.Rat.BigOperators

/-!
# Binary floating-point formats

IEEE 754 interchange formats over the rationals: the value of a bit pattern, and
rounding to nearest with ties to even, to infinity on overflow.
-/

namespace KVSSD.Binary

/-- Round to the nearest integer, ties to even. -/
def roundEven (value : ℚ) : ℤ :=
  let low := ⌊value⌋
  let rest := value - low
  if rest < 1 / 2 then low
  else if 1 / 2 < rest then low + 1
  else if low % 2 = 0 then low else low + 1

/-- The widths of the exponent and of the fraction. -/
structure Format where
  exponentBits : Nat
  fractionBits : Nat

namespace Format

variable (format : Format)

/-- The smallest positive number. -/
def unit : ℚ := 1 / 2 ^ (2 ^ (format.exponentBits - 1) - 2 + format.fractionBits)

/-- The largest exponent of a finite number, counted from zero for subnormal ones. -/
def top : Nat := 2 ^ format.exponentBits - 3

/-- The exponent of a magnitude. -/
def binade (magnitude : ℚ) : Nat :=
  ((List.range format.top).filter fun step =>
    2 ^ step ≤ magnitude / (format.unit * 2 ^ (format.fractionBits + 1))).length

/-- From here on rounding gives infinity. -/
def limit : ℚ := (2 ^ (format.fractionBits + 1) - 1 / 2) * format.unit * 2 ^ format.top

def infinity : Nat := (2 ^ format.exponentBits - 1) * 2 ^ format.fractionBits

/-- The bits of a rational number rounded to the format. -/
def ofRat (value : ℚ) : Nat :=
  let sign : Nat :=
    if value < 0 then 2 ^ (format.exponentBits + format.fractionBits) else 0
  let magnitude := |value|
  if format.limit ≤ magnitude then sign + format.infinity
  else
    let exponent := format.binade magnitude
    let significand := (roundEven (magnitude / (format.unit * 2 ^ exponent))).toNat
    sign + exponent * 2 ^ format.fractionBits + significand

/-- The value of a finite bit pattern. -/
def toRat (bits : Nat) : ℚ :=
  let sign : ℚ :=
    if bits < 2 ^ (format.exponentBits + format.fractionBits) then 1 else -1
  let exponent := bits / 2 ^ format.fractionBits % 2 ^ format.exponentBits
  let fraction : ℚ := (bits % 2 ^ format.fractionBits : Nat)
  if exponent = 0 then sign * fraction * format.unit
  else sign * (2 ^ format.fractionBits + fraction) * 2 ^ (exponent - 1) * format.unit

end Format

def binary16 : Format := ⟨5, 10⟩

def bfloat16 : Format := ⟨8, 7⟩

def binary32 : Format := ⟨8, 23⟩

end KVSSD.Binary

namespace KVSSD.Half

open KVSSD.Binary

/-- Rounding to half precision. -/
def ofRat (value : ℚ) : UInt16 := UInt16.ofNat (binary16.ofRat value)

/-- The value of a finite half-precision pattern. -/
def toRat (bits : UInt16) : ℚ := binary16.toRat bits.toNat

example : (ofRat 1, ofRat (-2), ofRat (1 / 3), ofRat 65519, ofRat 65520) =
    (0x3C00, 0xC000, 0x3555, 0x7BFF, 0x7C00) := by decide +kernel

example : toRat 0x3555 = 1365 / 4096 := by decide +kernel

end KVSSD.Half

import Mathlib.Data.Int.Basic
import Mathlib.Tactic.Ring

/-!
# Integers of a fixed width

What a register of `width` bits makes of an integer, read as a signed number.  Wrapping
commutes with sums and products, so only the last result of a computation has to fit.
-/

namespace KVSSD.TwosComplement

/-- The number that a register of `width` bits holds for `value`. -/
def wrapped (width : Nat) (value : Int) : Int := value.bmod (2 ^ width)

variable {width : Nat}

theorem wrapped_add_left (left right : Int) :
    wrapped width (wrapped width left + right) = wrapped width (left + right) :=
  Int.bmod_add_bmod

theorem wrapped_mul_left (left right : Int) :
    wrapped width (wrapped width left * right) = wrapped width (left * right) :=
  Int.bmod_mul_bmod

theorem two_pow_eq (positive : 0 < width) : 2 ^ width = 2 * 2 ^ (width - 1) := by
  obtain ⟨less, rfl⟩ := Nat.exists_eq_succ_of_ne_zero positive.ne'
  rw [Nat.pow_succ, Nat.succ_sub_one, Nat.mul_comm]

theorem wrapped_of_lt {value : Nat} (below : value < 2 ^ (width - 1)) :
    wrapped width value = value := by
  have nonempty := Nat.two_pow_pos width
  unfold wrapped
  apply Int.bmod_eq_of_le_mul_two
  · omega
  · rcases Nat.eq_zero_or_pos width with rfl | positive
    · norm_num at below ⊢
      omega
    · have doubled := two_pow_eq positive
      omega

theorem lt_of_le_wrapped {value : Nat} (reached : (value : Int) ≤ wrapped width value) :
    value < 2 ^ (width - 1) := by
  have bound : wrapped width value < ((2 ^ width : Nat) + 1) / 2 :=
    Int.bmod_lt (Nat.two_pow_pos width)
  rcases Nat.eq_zero_or_pos width with rfl | positive
  · norm_num at bound ⊢
    omega
  · have doubled := two_pow_eq positive
    omega

theorem wrapped_neg {value : Nat} (reached : 2 ^ (width - 1) ≤ value)
    (below : value < 2 ^ width) : wrapped width value < 0 := by
  rcases Nat.eq_zero_or_pos width with rfl | positive
  · norm_num at reached below
    omega
  · have doubled := two_pow_eq positive
    have turned : wrapped width value = (value : Int) - (2 ^ width : Nat) := by
      unfold wrapped
      rw [← Int.sub_bmod_right]
      apply Int.bmod_eq_of_le_mul_two
      · omega
      · omega
    omega

/-- Multiples whose registers never turn negative are all held: the first that is not would
come out negative. -/
theorem multiples_lt (positive : 0 < width) {stride count : Nat}
    (narrow : stride ≤ 2 ^ (width - 1))
    (nonnegative : ∀ index < count, 0 ≤ wrapped width ((index * stride : Nat) : Int)) :
    ∀ index < count, index * stride < 2 ^ (width - 1) := by
  have doubled := two_pow_eq positive
  intro index
  induction index with
  | zero =>
      intro _
      rw [Nat.zero_mul]
      exact Nat.two_pow_pos _
  | succ index induction =>
      intro inside
      have earlier := induction (by omega)
      have next : (index + 1) * stride = index * stride + stride := by ring
      by_contra reached
      have negative := wrapped_neg (Nat.not_lt.mp reached) (by omega)
      have held := nonnegative (index + 1) inside
      omega

end KVSSD.TwosComplement

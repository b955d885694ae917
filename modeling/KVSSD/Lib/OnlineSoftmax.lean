import KVSSD.Lib.Extended
import KVSSD.Lib.Softmax

/-!
# The running softmax

A streaming softmax keeps the maximum of the scores so far and sums scaled down by
its exponential.  Whenever the maximum moves, the sums are rescaled.  `Scaled`
says what a running value is worth: it is preserved by every score, and a masked
score, one of minus infinity, changes nothing once the maximum is a number.
-/

namespace KVSSD.OnlineSoftmax

open Extended

/-- `value` is `total` scaled down by the exponential of the maximum. -/
def Scaled (maximum : Extended) (total : ℝ) (value : Extended) : Prop :=
  match maximum with
  | negInf => total = 0 ∧ value = real 0
  | real top => value = real (total * Real.exp (-top))
  | undefined => False

/-- The factor by which a step rescales the sums so far. -/
noncomputable def oldWeight (maximum score : Extended) : Extended :=
  (maximum.sub (maximum.max score)).exp

/-- The weight of the new score. -/
noncomputable def newWeight (maximum score : Extended) : Extended :=
  (score.sub (maximum.max score)).exp

theorem scaled_start : Scaled negInf 0 (real 0) := ⟨rfl, rfl⟩

section Step

variable {maximum value : Extended} {total : ℝ} (score : ℝ)

/-- Before the first score the maximum is minus infinity, later a number. -/
theorem Scaled.weights (scaled : Scaled maximum total value) :
    ∃ top old, maximum.max (real score) = real top ∧
      oldWeight maximum (real score) = real old ∧
      newWeight maximum (real score) = real (Real.exp (score - top)) ∧
      value.mul (real old) = real (total * Real.exp (-top)) := by
  cases maximum with
  | negInf =>
      obtain ⟨rfl, rfl⟩ := scaled
      refine ⟨score, 0, rfl, rfl, rfl, ?_⟩
      simp
  | real before =>
      obtain rfl := scaled
      refine ⟨Max.max before score, Real.exp (before - Max.max before score), rfl, rfl, rfl, ?_⟩
      rw [mul_real, mul_assoc, ← Real.exp_add]
      congr 3
      ring
  | undefined => exact scaled.elim

theorem Scaled.step (scaled : Scaled maximum total value) (item : ℝ) :
    Scaled (maximum.max (real score)) (total + Real.exp score * item)
      ((value.mul (oldWeight maximum (real score))).add
        ((real item).mul (newWeight maximum (real score)))) := by
  obtain ⟨top, old, maximumEq, oldEq, newEq, rescaled⟩ := scaled.weights score
  rw [maximumEq, oldEq, newEq, rescaled, mul_real, add_real]
  change real _ = real _
  congr 1
  rw [Real.exp_sub, Real.exp_neg]
  ring

theorem Scaled.count (scaled : Scaled maximum total value) :
    Scaled (maximum.max (real score)) (total + Real.exp score)
      ((value.mul (oldWeight maximum (real score))).add
        (newWeight maximum (real score))) := by
  have one := scaled.step score 1
  obtain ⟨top, old, maximumEq, oldEq, newEq, rescaled⟩ := scaled.weights score
  rw [newEq, mul_real, one_mul, mul_one] at one
  rw [newEq]
  exact one

end Step

section Masked

variable {maximum value : Extended} {total : ℝ}

theorem Scaled.exists_maximum (scaled : Scaled maximum total value) (nonzero : total ≠ 0) :
    ∃ top, maximum = real top := by
  cases maximum with
  | negInf => exact absurd scaled.1 nonzero
  | real top => exact ⟨top, rfl⟩
  | undefined => exact scaled.elim

theorem max_masked (top : ℝ) : (real top).max negInf = real top := rfl

theorem oldWeight_masked (top : ℝ) : oldWeight (real top) negInf = real 1 := by
  simp [oldWeight]

theorem newWeight_masked (top : ℝ) : newWeight (real top) negInf = real 0 := by
  simp [newWeight]

theorem Scaled.masked {top : ℝ} (scaled : Scaled (real top) total value) (item : ℝ) :
    (value.mul (oldWeight (real top) negInf)).add
      ((real item).mul (newWeight (real top) negInf)) = value := by
  obtain rfl := scaled
  rw [oldWeight_masked, newWeight_masked, mul_real, mul_real, add_real, mul_one, mul_zero,
    add_zero]

theorem Scaled.masked_count {top : ℝ} (scaled : Scaled (real top) total value) :
    (value.mul (oldWeight (real top) negInf)).add (newWeight (real top) negInf) = value := by
  obtain rfl := scaled
  rw [oldWeight_masked, newWeight_masked, mul_real, add_real, mul_one, add_zero]

end Masked

section Finish

variable {maximum value sum : Extended} {total mass : ℝ}

theorem Scaled.div (scaled : Scaled maximum total value) (counted : Scaled maximum mass sum)
    (positive : 0 < mass) : value.div sum = real (total / mass) := by
  obtain ⟨top, rfl⟩ := counted.exists_maximum positive.ne'
  obtain rfl := scaled
  obtain rfl := counted
  have scale := Real.exp_pos (-top)
  rw [div_real (mul_pos positive scale).ne', mul_div_mul_right _ _ scale.ne']

theorem Scaled.add_log (counted : Scaled maximum mass sum) (positive : 0 < mass) :
    maximum.add sum.log = real (Real.log mass) := by
  obtain ⟨top, rfl⟩ := counted.exists_maximum positive.ne'
  obtain rfl := counted
  have scale := Real.exp_pos (-top)
  rw [log_real (mul_pos positive scale), add_real, Real.log_mul positive.ne' scale.ne',
    Real.log_exp]
  congr 1
  ring

theorem Scaled.sum_pos (counted : Scaled maximum mass sum) (positive : 0 < mass) :
    ∃ number, sum = real number ∧ 0 < number := by
  obtain ⟨top, rfl⟩ := counted.exists_maximum positive.ne'
  exact ⟨_, counted, mul_pos positive (Real.exp_pos _)⟩

end Finish

end KVSSD.OnlineSoftmax

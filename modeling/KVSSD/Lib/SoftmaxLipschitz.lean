import KVSSD.Lib.Softmax
import Mathlib.Analysis.Calculus.Deriv.Inv
import Mathlib.Analysis.Calculus.MeanValue
import Mathlib.Analysis.SpecialFunctions.ExpDeriv

/-!
# How far a softmax average moves

A softmax average of vectors in a ball moves by no more than the radius times the largest change of
a score.  Along the segment between two scorings its derivative is a covariance, and the mean
deviation of the changes is no larger than their root mean square.
-/

namespace KVSSD.Softmax

section Mean

variable {ι V : Type} [AddCommGroup V] [Module ℝ V] (items : List ι) (score : ι → ℝ)

/-- The softmax average of items that are scored and valued by functions. -/
noncomputable def mean (value : ι → V) : V :=
  average (items.map fun item => (score item, value item))

theorem mean_eq (value : ι → V) :
    mean items score value = (mass (items.map score))⁻¹ •
      (items.map fun item => Real.exp (score item) • value item).sum := by
  rw [mean, average, scores, weighted, List.map_map, List.map_map]
  rfl

theorem mean_add (value other : ι → V) :
    (mean items score fun item => value item + other item) =
      mean items score value + mean items score other := by
  simp only [mean_eq, smul_add, List.sum_map_add]

theorem mean_neg (value : ι → V) :
    (mean items score fun item => -value item) = -mean items score value := by
  have opposite := mean_add items score value fun item => -value item
  have zero : (mean items score fun _ => (0 : V)) = 0 := by simp [mean_eq]
  simp only [add_neg_cancel, zero] at opposite
  exact eq_neg_of_add_eq_zero_right opposite.symm

theorem mean_sub (value other : ι → V) :
    (mean items score fun item => value item - other item) =
      mean items score value - mean items score other := by
  simp only [sub_eq_add_neg, mean_add, mean_neg]

theorem mean_smul (factor : ℝ) (value : ι → V) :
    (mean items score fun item => factor • value item) = factor • mean items score value := by
  have sums (items : List ι) :
      (items.map fun item => Real.exp (score item) • factor • value item).sum =
        factor • (items.map fun item => Real.exp (score item) • value item).sum := by
    induction items with
    | nil => simp
    | cons item items induction =>
        simp only [List.map_cons, List.sum_cons, induction, smul_add,
          smul_comm factor (Real.exp (score item))]
  rw [mean_eq, mean_eq, sums, smul_comm]

theorem mean_mul_left (factor : ℝ) (value : ι → ℝ) :
    (mean items score fun item => factor * value item) = factor * mean items score value :=
  mean_smul items score factor value

variable {items}

theorem mean_const (nonempty : items ≠ []) (value : V) :
    (mean items score fun _ => value) = value := by
  have positive : 0 < mass (items.map score) := mass_pos (by simpa using nonempty)
  have total : (items.map fun item => Real.exp (score item) • value).sum =
      mass (items.map score) • value := by
    rw [mass, List.map_map, List.sum_smul, List.map_map]
    rfl
  rw [mean_eq, total, inv_smul_smul₀ positive.ne']

theorem mass_nonneg (score : List ℝ) : 0 ≤ mass score := by
  apply List.sum_nonneg
  intro weight member
  obtain ⟨item, _, rfl⟩ := List.mem_map.mp member
  exact (Real.exp_pos item).le

theorem mean_mono {value other : ι → ℝ} (ordered : ∀ item ∈ items, value item ≤ other item) :
    mean items score value ≤ mean items score other := by
  rw [mean_eq, mean_eq]
  apply mul_le_mul_of_nonneg_left _ (inv_nonneg.mpr (mass_nonneg _))
  apply List.sum_le_sum
  intro item member
  exact mul_le_mul_of_nonneg_left (ordered item member) (Real.exp_pos _).le

theorem mean_le {value : ι → ℝ} {bound : ℝ} (nonneg : 0 ≤ bound)
    (bounded : ∀ item ∈ items, value item ≤ bound) : mean items score value ≤ bound := by
  rcases eq_or_ne items [] with rfl | nonempty
  · simpa [mean_eq] using nonneg
  · have ordered := mean_mono score bounded
    rwa [mean_const score nonempty] at ordered

theorem mean_abs_le {value : ι → ℝ} {bound : ℝ} (nonneg : 0 ≤ bound)
    (squares : (mean items score fun item => value item ^ 2) ≤ bound ^ 2) :
    (mean items score fun item => |value item|) ≤ bound := by
  rcases eq_or_ne items [] with rfl | nonempty
  · simpa [mean_eq] using nonneg
  set centre := mean items score fun item => |value item|
  have spread : 0 ≤ mean items score fun item => (|value item| - centre) ^ 2 := by
    have ordered : (mean items score fun _ => (0 : ℝ)) ≤ _ :=
      mean_mono score fun item _ => sq_nonneg (|value item| - centre)
    rwa [mean_const score nonempty] at ordered
  have expanded : (mean items score fun item => (|value item| - centre) ^ 2) =
      (mean items score fun item => value item ^ 2) - centre ^ 2 := by
    have each (item : ι) : (|value item| - centre) ^ 2 =
        value item ^ 2 - (2 * centre * |value item| - centre ^ 2) := by
      rw [sub_sq, sq_abs]
      ring
    simp only [each, mean_sub, mean_mul_left, mean_const score nonempty]
    ring
  rw [expanded] at spread
  exact abs_le_of_sq_le_sq' (by linarith) nonneg |>.2

end Mean

section Norm

variable {ι V : Type} [NormedAddCommGroup V] [NormedSpace ℝ V] {items : List ι} (score : ι → ℝ)

theorem norm_mean_le_mean_norm (value : ι → V) :
    ‖mean items score value‖ ≤ mean items score fun item => ‖value item‖ := by
  have triangle (items : List ι) :
      ‖(items.map fun item => Real.exp (score item) • value item).sum‖ ≤
        (items.map fun item => Real.exp (score item) • ‖value item‖).sum := by
    induction items with
    | nil => simp
    | cons item items induction =>
        rw [List.map_cons, List.map_cons, List.sum_cons, List.sum_cons]
        have head : ‖Real.exp (score item) • value item‖ =
            Real.exp (score item) • ‖value item‖ := by
          rw [norm_smul, Real.norm_of_nonneg (Real.exp_pos _).le, smul_eq_mul]
        exact (norm_add_le _ _).trans (add_le_add head.le induction)
  rw [mean_eq, mean_eq, norm_smul, Real.norm_of_nonneg (inv_nonneg.mpr (mass_nonneg _))]
  exact mul_le_mul_of_nonneg_left (triangle items) (inv_nonneg.mpr (mass_nonneg _))

theorem norm_mean_le {value : ι → V} {bound : ℝ} (nonneg : 0 ≤ bound)
    (bounded : ∀ item ∈ items, ‖value item‖ ≤ bound) : ‖mean items score value‖ ≤ bound :=
  (norm_mean_le_mean_norm score value).trans (mean_le score nonneg bounded)

variable {change : ι → ℝ} {value : ι → V}

theorem mean_abs_deviation_le {bound : ℝ} (nonneg : 0 ≤ bound)
    (bounded : ∀ item ∈ items, |change item| ≤ bound) :
    (mean items score fun item => |change item - mean items score change|) ≤ bound := by
  rcases eq_or_ne items [] with rfl | nonempty
  · simpa [mean_eq] using nonneg
  apply mean_abs_le score nonneg
  set centre := mean items score change
  have each (item : ι) : (change item - centre) ^ 2 =
      change item ^ 2 - (2 * centre * change item - centre ^ 2) := by ring
  have expanded : (mean items score fun item => (change item - centre) ^ 2) =
      (mean items score fun item => change item ^ 2) - centre ^ 2 := by
    simp only [each, mean_sub, mean_mul_left, mean_const score nonempty]
    change _ - (2 * centre * centre - centre ^ 2) = _
    ring
  have squares : (mean items score fun item => change item ^ 2) ≤ bound ^ 2 :=
    mean_le score (sq_nonneg bound) fun item member =>
      sq_le_sq' (abs_le.mp (bounded item member)).1 (abs_le.mp (bounded item member)).2
  rw [expanded]
  linarith [sq_nonneg centre]

variable (change value) in
theorem hasDerivAt_weighted (items : List ι) (time : ℝ) :
    HasDerivAt
      (fun time => (items.map fun item =>
        Real.exp (score item + time * change item) • value item).sum)
      (items.map fun item => Real.exp (score item + time * change item) •
        (change item • value item)).sum time := by
  induction items with
  | nil => simpa using hasDerivAt_const time (0 : V)
  | cons item items induction =>
      have exponent : HasDerivAt (fun time => score item + time * change item)
          (change item) time := by
        simpa using ((hasDerivAt_id time).mul_const (change item)).const_add (score item)
      have head := exponent.exp.smul_const (value item)
      rw [mul_smul] at head
      simp only [List.map_cons, List.sum_cons]
      exact head.fun_add induction

variable (change value) in
/-- The derivative along changes of the scores is the covariance of the changes and the values. -/
theorem hasDerivAt_mean (nonempty : items ≠ []) (time : ℝ) :
    HasDerivAt (fun time => mean items (fun item => score item + time * change item) value)
      (mean items (fun item => score item + time * change item) fun item =>
        (change item - mean items (fun item => score item + time * change item) change) •
          value item) time := by
  have positive : 0 < mass (items.map fun item => score item + time * change item) :=
    mass_pos (by simpa using nonempty)
  have masses : HasDerivAt
      (fun time => mass (items.map fun item => score item + time * change item))
      (items.map fun item =>
        Real.exp (score item + time * change item) * change item).sum time := by
    have sums := hasDerivAt_weighted score change (fun _ : ι => (1 : ℝ)) items time
    simpa [mass, List.map_map, Function.comp_def] using sums
  have inverse := HasDerivAt.inv masses positive.ne'
  have product := inverse.smul (hasDerivAt_weighted score change value items time)
  have same : (fun time => mean items (fun item => score item + time * change item) value) =
      fun time => (mass (items.map fun item => score item + time * change item))⁻¹ •
        (items.map fun item =>
          Real.exp (score item + time * change item) • value item).sum := by
    funext time
    exact mean_eq items _ value
  rw [same]
  refine product.congr_deriv ?_
  have moment : mean items (fun item => score item + time * change item) change =
      (mass (items.map fun item => score item + time * change item))⁻¹ *
        (items.map fun item =>
          Real.exp (score item + time * change item) * change item).sum :=
    mean_eq items _ change
  have quotient {total slope : ℝ} : -slope / total ^ 2 = -(total⁻¹ * slope * total⁻¹) := by
    ring
  simp only [sub_smul]
  rw [mean_sub, mean_smul, moment, mean_eq, mean_eq, smul_smul, quotient, neg_smul,
    ← sub_eq_add_neg]
  rfl

/-- Changing the scores by up to `bound` moves the mean by up to `bound` times the radius. -/
theorem norm_mean_change_le {bound radius : ℝ} (boundNonneg : 0 ≤ bound)
    (radiusNonneg : 0 ≤ radius) (changes : ∀ item ∈ items, |change item| ≤ bound)
    (values : ∀ item ∈ items, ‖value item‖ ≤ radius) :
    ‖mean items (fun item => score item + change item) value - mean items score value‖ ≤
      bound * radius := by
  rcases eq_or_ne items [] with rfl | nonempty
  · simpa [mean_eq] using mul_nonneg boundNonneg radiusNonneg
  have slope (time : ℝ) :
      ‖mean items (fun item => score item + time * change item) fun item =>
        (change item - mean items (fun item => score item + time * change item) change) •
          value item‖ ≤ bound * radius := by
    refine (norm_mean_le_mean_norm _ _).trans ?_
    set moved := fun item => score item + time * change item
    calc
      (mean items moved fun item => ‖(change item - mean items moved change) • value item‖)
          ≤ mean items moved fun item => radius * |change item - mean items moved change| := by
            apply mean_mono moved
            intro item member
            rw [norm_smul, Real.norm_eq_abs, mul_comm]
            exact mul_le_mul_of_nonneg_right (values item member) (abs_nonneg _)
      _ = radius * mean items moved fun item => |change item - mean items moved change| :=
            mean_mul_left items moved radius _
      _ ≤ radius * bound :=
            mul_le_mul_of_nonneg_left (mean_abs_deviation_le moved boundNonneg changes)
              radiusNonneg
      _ = bound * radius := mul_comm _ _
  have along := norm_image_sub_le_of_norm_deriv_le_segment_01'
    (fun time _ => (hasDerivAt_mean score change value nonempty
      time).hasDerivWithinAt) fun time _ => slope time
  simpa using along

theorem norm_mean_sub_mean_le {bound radius error : ℝ} {other : ι → ℝ} {otherValue : ι → V}
    (boundNonneg : 0 ≤ bound) (radiusNonneg : 0 ≤ radius) (errorNonneg : 0 ≤ error)
    (scores : ∀ item ∈ items, |other item - score item| ≤ bound)
    (values : ∀ item ∈ items, ‖value item‖ ≤ radius)
    (errors : ∀ item ∈ items, ‖otherValue item - value item‖ ≤ error) :
    ‖mean items other otherValue - mean items score value‖ ≤ error + bound * radius := by
  have moved := norm_mean_change_le score boundNonneg radiusNonneg scores values
  simp only [add_sub_cancel] at moved
  calc
    ‖mean items other otherValue - mean items score value‖ =
        ‖mean items other (fun item => otherValue item - value item) +
          (mean items other value - mean items score value)‖ := by
      rw [mean_sub, sub_add_sub_cancel]
    _ ≤ ‖mean items other fun item => otherValue item - value item‖ +
          ‖mean items other value - mean items score value‖ := norm_add_le _ _
    _ ≤ error + bound * radius := add_le_add (norm_mean_le other errorNonneg errors) moved

end Norm

end KVSSD.Softmax

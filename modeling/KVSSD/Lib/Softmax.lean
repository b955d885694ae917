import Mathlib.Analysis.SpecialFunctions.Log.Basic
import Mathlib.Algebra.BigOperators.GroupWithZero.Action

/-!
# Merging softmax averages

The softmax average of scored vectors is known up to scaling from its mass, the
sum of the exponentials of the scores.  The pair of the average and the logarithm
of the mass is therefore enough to merge the averages of two lists into that of
their concatenation, and folding the merge over the parts of a list gives the
average of the whole list.
-/

namespace KVSSD.Softmax

section Mass

/-- The sum of the exponentials of the scores. -/
noncomputable def mass (scores : List ℝ) : ℝ := (scores.map Real.exp).sum

noncomputable def logMass (scores : List ℝ) : ℝ := Real.log (mass scores)

/-- `log (exp left + exp right)`. -/
noncomputable def logAddExp (left right : ℝ) : ℝ :=
  Real.log (Real.exp left + Real.exp right)

theorem mass_append (front back : List ℝ) :
    mass (front ++ back) = mass front + mass back := by
  simp [mass]

theorem mass_pos {scores : List ℝ} (nonempty : scores ≠ []) : 0 < mass scores := by
  induction scores with
  | nil => exact absurd rfl nonempty
  | cons score scores induction =>
      have split : mass (score :: scores) = Real.exp score + mass scores := by
        simp [mass]
      rw [split]
      rcases eq_or_ne scores [] with rfl | more
      · simpa [mass] using Real.exp_pos score
      · exact add_pos (Real.exp_pos score) (induction more)

theorem exp_logMass {scores : List ℝ} (nonempty : scores ≠ []) :
    Real.exp (logMass scores) = mass scores :=
  Real.exp_log (mass_pos nonempty)

theorem logAddExp_logMass {front back : List ℝ} (frontNonempty : front ≠ [])
    (backNonempty : back ≠ []) :
    logAddExp (logMass front) (logMass back) = logMass (front ++ back) := by
  rw [logAddExp, exp_logMass frontNonempty, exp_logMass backNonempty, ← mass_append]
  rfl

end Mass

section Average

variable {V : Type} [AddCommGroup V] [Module ℝ V]

def scores {V : Type} (items : List (ℝ × V)) : List ℝ := items.map Prod.fst

noncomputable def weighted (items : List (ℝ × V)) : V :=
  (items.map fun item => Real.exp item.1 • item.2).sum

/-- The average under the weights `exp score / mass`. -/
noncomputable def average (items : List (ℝ × V)) : V :=
  (mass (scores items))⁻¹ • weighted items

theorem scores_append {V : Type} (front back : List (ℝ × V)) :
    scores (front ++ back) = scores front ++ scores back := by
  simp [scores]

theorem scores_ne_nil {V : Type} {items : List (ℝ × V)} (nonempty : items ≠ []) :
    scores items ≠ [] := by
  simpa [scores] using nonempty

theorem weighted_append (front back : List (ℝ × V)) :
    weighted (front ++ back) = weighted front + weighted back := by
  simp [weighted]

theorem rescale_average {items whole : List (ℝ × V)} (nonempty : items ≠ [])
    (wholeNonempty : whole ≠ []) :
    Real.exp (logMass (scores items) - logMass (scores whole)) • average items =
      (mass (scores whole))⁻¹ • weighted items := by
  have own : mass (scores items) ≠ 0 := (mass_pos (scores_ne_nil nonempty)).ne'
  rw [Real.exp_sub, exp_logMass (scores_ne_nil nonempty),
    exp_logMass (scores_ne_nil wholeNonempty), average, smul_smul]
  congr 1
  field_simp

theorem merge_average {front back : List (ℝ × V)} (frontNonempty : front ≠ [])
    (backNonempty : back ≠ []) :
    Real.exp (logMass (scores front) - logMass (scores (front ++ back))) • average front +
        Real.exp (logMass (scores back) - logMass (scores (front ++ back))) • average back =
      average (front ++ back) := by
  have nonempty : front ++ back ≠ [] := by simp [frontNonempty]
  rw [rescale_average frontNonempty nonempty, rescale_average backNonempty nonempty,
    ← smul_add, ← weighted_append]
  rfl

theorem mass_perm {front back : List ℝ} (same : front.Perm back) : mass front = mass back :=
  (same.map Real.exp).sum_eq

theorem logMass_perm {front back : List ℝ} (same : front.Perm back) :
    logMass front = logMass back := by
  rw [logMass, logMass, mass_perm same]

theorem average_perm {front back : List (ℝ × V)} (same : front.Perm back) :
    average front = average back := by
  have sums : weighted front = weighted back := (same.map _).sum_eq
  have masses : mass (scores front) = mass (scores back) := mass_perm (same.map Prod.fst)
  rw [average, average, sums, masses]

end Average

end KVSSD.Softmax

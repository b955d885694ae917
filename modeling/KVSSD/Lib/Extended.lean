import Mathlib.Analysis.SpecialFunctions.Log.Basic

/-!
# Real numbers with minus infinity

The values of a streaming maximum that starts at minus infinity.  `undefined`
stands for what has no value among them, such as the difference of two infinities
or a quotient by zero, and every operation on it is `undefined` again: a result
that is a number was computed without one.
-/

namespace KVSSD

inductive Extended where
  | negInf
  | real (value : ℝ)
  | undefined

namespace Extended

noncomputable section

def add : Extended → Extended → Extended
  | real left, real right => real (left + right)
  | negInf, real _ => negInf
  | real _, negInf => negInf
  | negInf, negInf => negInf
  | _, _ => undefined

def sub : Extended → Extended → Extended
  | real left, real right => real (left - right)
  | negInf, real _ => negInf
  | _, _ => undefined

def mul : Extended → Extended → Extended
  | real left, real right => real (left * right)
  | negInf, real right => if 0 < right then negInf else undefined
  | real left, negInf => if 0 < left then negInf else undefined
  | _, _ => undefined

def div : Extended → Extended → Extended
  | real left, real right => if right = 0 then undefined else real (left / right)
  | negInf, real right => if 0 < right then negInf else undefined
  | _, _ => undefined

def max : Extended → Extended → Extended
  | real left, real right => real (Max.max left right)
  | negInf, real right => real right
  | real left, negInf => real left
  | negInf, negInf => negInf
  | _, _ => undefined

def exp : Extended → Extended
  | real value => real (Real.exp value)
  | negInf => real 0
  | undefined => undefined

def log : Extended → Extended
  | real value =>
      if 0 < value then real (Real.log value) else if value = 0 then negInf else undefined
  | _ => undefined

end

section Real

variable (left right : ℝ)

@[simp] theorem add_real : add (real left) (real right) = real (left + right) := rfl

@[simp] theorem sub_real : sub (real left) (real right) = real (left - right) := rfl

@[simp] theorem negInf_sub_real : sub negInf (real right) = negInf := rfl

@[simp] theorem mul_real : mul (real left) (real right) = real (left * right) := rfl

@[simp] theorem max_real : max (real left) (real right) = real (Max.max left right) := rfl

@[simp] theorem max_negInf_real : max negInf (real right) = real right := rfl

@[simp] theorem max_real_negInf : max (real left) negInf = real left := rfl

@[simp] theorem exp_real : exp (real left) = real (Real.exp left) := rfl

@[simp] theorem exp_negInf : exp negInf = real 0 := rfl

end Real

theorem mul_comm (left right : Extended) : mul left right = mul right left := by
  cases left with
  | real left =>
      cases right with
      | real right => exact congrArg real (by ring)
      | negInf => rfl
      | undefined => rfl
  | negInf => cases right <;> rfl
  | undefined => cases right <;> rfl

theorem div_real {right : ℝ} (nonzero : right ≠ 0) (left : ℝ) :
    div (real left) (real right) = real (left / right) := by
  exact if_neg nonzero

theorem log_real {value : ℝ} (positive : 0 < value) :
    log (real value) = real (Real.log value) := by
  exact if_pos positive

end Extended

end KVSSD

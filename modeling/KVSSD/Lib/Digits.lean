import Mathlib.Data.Nat.Digits.Lemmas
import Mathlib.Tactic.Ring

/-!
# Digits of a number

A list of digits, low digit first, is a number.  A digit is read by a division and a remainder, and
the digits of a number are those of its remainder by a power of the base.
-/

namespace KVSSD.Digits

theorem sum_zipIdx (base start : Nat) (digits : List Nat) :
    ((digits.zipIdx start).map fun item => item.1 * base ^ item.2).sum =
      base ^ start * Nat.ofDigits base digits := by
  induction digits generalizing start with
  | nil => simp
  | cons digit digits induction =>
      rw [List.zipIdx_cons, List.map_cons, List.sum_cons, induction, Nat.ofDigits_cons,
        Nat.pow_succ]
      ring

theorem ofDigits_range (base value count : Nat) :
    Nat.ofDigits base ((List.range count).map fun index => value / base ^ index % base) =
      value % base ^ count := by
  induction count with
  | zero => simp [Nat.mod_one]
  | succ count induction =>
      rw [List.range_succ, List.map_append, Nat.ofDigits_append, induction, List.length_map,
        List.length_range, Nat.mod_pow_succ]
      simp

theorem ofDigits_digit {base : Nat} {digits : List Nat}
    (small : ∀ digit ∈ digits, digit < base) {index : Nat} (inside : index < digits.length) :
    Nat.ofDigits base digits / base ^ index % base = digits[index] := by
  induction digits generalizing index with
  | nil => cases inside
  | cons digit digits induction =>
      have low := small digit List.mem_cons_self
      have positive : 0 < base := by omega
      rw [Nat.ofDigits_cons]
      cases index with
      | zero =>
          rw [Nat.pow_zero, Nat.div_one, Nat.add_mul_mod_self_left, Nat.mod_eq_of_lt low]
          rfl
      | succ index =>
          have rest : (digit + base * Nat.ofDigits base digits) / base =
              Nat.ofDigits base digits := by
            rw [Nat.add_mul_div_left _ _ positive, Nat.div_eq_of_lt low, Nat.zero_add]
          rw [Nat.pow_succ', ← Nat.div_div_eq_div_mul, rest]
          exact induction (fun other member => small other (List.mem_cons_of_mem _ member))
            (Nat.lt_of_succ_lt_succ inside)

end KVSSD.Digits

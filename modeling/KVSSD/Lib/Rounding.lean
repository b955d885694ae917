import KVSSD.Lib.Binary
import Mathlib.Tactic.Linarith
import Mathlib.Tactic.Ring
import Mathlib.Tactic.NormNum
import Mathlib.Tactic.FieldSimp

/-!
# Rounding errors

Rounding to an integer is monotone and at most one half away.  A format rounds the
significand in the binade of the magnitude, so the error is at most half a unit in the last
place: relative to the magnitude for normal numbers, and half the smallest positive number
below them.  A rounded number is finite exactly below the limit of the format.
-/

namespace KVSSD.Binary

theorem floor_le_roundEven (value : ℚ) : ⌊value⌋ ≤ roundEven value := by
  unfold roundEven
  simp only
  split_ifs <;> omega

theorem roundEven_le_floor_add_one (value : ℚ) : roundEven value ≤ ⌊value⌋ + 1 := by
  unfold roundEven
  simp only
  split_ifs <;> omega

@[simp] theorem roundEven_intCast (integer : ℤ) : roundEven integer = integer := by
  simp [roundEven]

theorem abs_sub_roundEven (value : ℚ) : |value - roundEven value| ≤ 1 / 2 := by
  have low := Int.floor_le value
  have high := Int.lt_floor_add_one value
  unfold roundEven
  simp only
  split_ifs
  all_goals
    push_cast
    rw [abs_le]
    constructor <;> linarith

theorem roundEven_mono {left right : ℚ} (ordered : left ≤ right) :
    roundEven left ≤ roundEven right := by
  by_cases same : ⌊left⌋ = ⌊right⌋
  · unfold roundEven
    simp only [same]
    split_ifs
    any_goals omega
    all_goals linarith
  · have floors : ⌊left⌋ + 1 ≤ ⌊right⌋ := by
      have mono := Int.floor_mono ordered
      omega
    calc
      roundEven left ≤ ⌊left⌋ + 1 := roundEven_le_floor_add_one left
      _ ≤ ⌊right⌋ := floors
      _ ≤ roundEven right := floor_le_roundEven right

theorem roundEven_nonneg {value : ℚ} (nonnegative : 0 ≤ value) : 0 ≤ roundEven value := by
  have mono := roundEven_mono nonnegative
  simpa using roundEven_intCast 0 ▸ mono

theorem roundEven_le {value : ℚ} {bound : ℤ} (below : value ≤ bound) :
    roundEven value ≤ bound := by
  have mono := roundEven_mono below
  rwa [roundEven_intCast] at mono

theorem le_roundEven {value : ℚ} {bound : ℤ} (above : bound ≤ value) :
    bound ≤ roundEven value := by
  have mono := roundEven_mono above
  rwa [roundEven_intCast] at mono

/-- Counting the steps below a threshold that only smaller steps pass. -/
theorem lt_length_filter_range {passes : Nat → Prop} [DecidablePred passes]
    (downward : ∀ step, passes (step + 1) → passes step) (count : Nat) :
    ((List.range count).filter passes).length ≤ count ∧
      ∀ step < count, (passes step ↔ step < ((List.range count).filter passes).length) := by
  induction count with
  | zero => simp
  | succ count induction =>
      obtain ⟨bound, counted⟩ := induction
      rw [List.range_succ, List.filter_append, List.length_append]
      by_cases last : passes count
      · have all : ∀ below ≤ count, passes (count - below) := by
          intro below inside
          induction below with
          | zero => exact last
          | succ below induction =>
              apply downward
              have previous := induction (by omega)
              rwa [show count - (below + 1) + 1 = count - below by omega]
        have full : ((List.range count).filter passes).length = count := by
          generalize ((List.range count).filter passes).length = reached at bound counted
          by_contra short
          have passed := all (count - reached) (Nat.sub_le count reached)
          rw [Nat.sub_sub_self bound] at passed
          exact Nat.lt_irrefl _ ((counted reached (by omega)).mp passed)
        rw [full]
        constructor
        · simp [last]
        · intro step inside
          have passed := all (count - step) (by omega)
          rw [Nat.sub_sub_self (by omega)] at passed
          simp [last, passed]
          omega
      · constructor
        · simp [last]
          omega
        · intro step inside
          simp only [last, decide_false, Bool.false_eq_true, not_false_eq_true,
            List.filter_cons_of_neg, List.filter_nil, List.length_nil, Nat.add_zero]
          by_cases same : step = count
          · subst same
            simp only [last, false_iff, not_lt]
            exact bound
          · exact counted step (by omega)

namespace Format

variable {format : Format} {magnitude : ℚ}

theorem unit_pos (format : Format) : 0 < format.unit := by
  unfold unit
  positivity

/-- The binade of a magnitude contains it: the quotient is the magnitude in units of the
last place. -/
theorem binade_spec (format : Format) (magnitude : ℚ) :
    format.binade magnitude ≤ format.top ∧
      (0 < format.binade magnitude →
        2 ^ format.fractionBits ≤
          magnitude / (format.unit * 2 ^ format.binade magnitude)) ∧
      (format.binade magnitude < format.top →
        magnitude / (format.unit * 2 ^ format.binade magnitude) <
          2 ^ (format.fractionBits + 1)) := by
  have positive := format.unit_pos
  obtain ⟨bound, counted⟩ := @lt_length_filter_range
    (fun step => (2 : ℚ) ^ step ≤ magnitude / (format.unit * 2 ^ (format.fractionBits + 1))) _
    (by
      intro step above
      apply le_trans _ above
      exact pow_le_pow_right₀ (by norm_num) (Nat.le_succ step)) format.top
  change format.binade magnitude ≤ format.top at bound
  change ∀ step < format.top, (_ ↔ step < format.binade magnitude) at counted
  generalize format.binade magnitude = exponent at bound counted
  refine ⟨bound, ?_, ?_⟩
  · intro above
    have reached := (counted (exponent - 1) (by omega)).mpr (by omega)
    rw [le_div_iff₀ (by positivity)] at reached ⊢
    calc
      2 ^ format.fractionBits * (format.unit * 2 ^ exponent) =
          2 ^ (exponent - 1) * (format.unit * 2 ^ (format.fractionBits + 1)) := by
        obtain ⟨below, rfl⟩ : ∃ below, exponent = below + 1 := ⟨exponent - 1, by omega⟩
        rw [Nat.add_sub_cancel, pow_succ, pow_succ]
        ring
      _ ≤ magnitude := reached
  · intro below
    have missed := (counted exponent below).not.mpr (Nat.lt_irrefl _)
    rw [not_le, div_lt_iff₀ (by positivity)] at missed
    rw [div_lt_iff₀ (by positivity)]
    calc
      magnitude < 2 ^ exponent * (format.unit * 2 ^ (format.fractionBits + 1)) := missed
      _ = 2 ^ (format.fractionBits + 1) * (format.unit * 2 ^ exponent) := by ring

/-- The unit in the last place of a magnitude. -/
def ulp (format : Format) (magnitude : ℚ) : ℚ := format.unit * 2 ^ format.binade magnitude

theorem ulp_pos (format : Format) (magnitude : ℚ) : 0 < format.ulp magnitude := by
  have positive := format.unit_pos
  unfold ulp
  positivity

/-- A magnitude rounded to units in the last place. -/
def significand (format : Format) (magnitude : ℚ) : Nat :=
  (roundEven (magnitude / format.ulp magnitude)).toNat

theorem significand_cast (nonnegative : 0 ≤ magnitude) :
    ((format.significand magnitude : ℚ)) = roundEven (magnitude / format.ulp magnitude) := by
  have rounded := roundEven_nonneg (div_nonneg nonnegative (format.ulp_pos magnitude).le)
  unfold significand
  exact_mod_cast congrArg (Int.cast (R := ℚ)) (Int.toNat_of_nonneg rounded)

/-- Below the limit the significand has one digit more than the fraction, or carries into
the next binade. -/
theorem significand_bounds (nonnegative : 0 ≤ magnitude) (small : magnitude < format.limit) :
    (0 < format.binade magnitude →
        2 ^ format.fractionBits ≤ format.significand magnitude) ∧
      format.significand magnitude ≤ 2 ^ (format.fractionBits + 1) ∧
      (format.binade magnitude = format.top →
        format.significand magnitude < 2 ^ (format.fractionBits + 1)) := by
  obtain ⟨bound, above, below⟩ := format.binade_spec magnitude
  have cast := @significand_cast format _ nonnegative
  have positive := format.ulp_pos magnitude
  change _ → _ ≤ magnitude / format.ulp magnitude at above
  change _ → magnitude / format.ulp magnitude < _ at below
  have last : format.binade magnitude = format.top →
      format.significand magnitude < 2 ^ (format.fractionBits + 1) := by
    intro top
    have quotient : magnitude / format.ulp magnitude <
        2 ^ (format.fractionBits + 1) - 1 / 2 := by
      rw [div_lt_iff₀ positive, ulp, top]
      calc
        magnitude < format.limit := small
        _ = _ := by
          unfold limit
          ring
    have near := abs_le.mp (abs_sub_roundEven (magnitude / format.ulp magnitude))
    have rational : (format.significand magnitude : ℚ) < 2 ^ (format.fractionBits + 1) := by
      rw [cast]
      linarith [near.1]
    exact_mod_cast rational
  refine ⟨?_, ?_, last⟩
  · intro normal
    have rounded : ((2 ^ format.fractionBits : ℤ)) ≤
        roundEven (magnitude / format.ulp magnitude) := by
      apply le_roundEven
      push_cast
      exact above normal
    have rational : (2 : ℚ) ^ format.fractionBits ≤ format.significand magnitude := by
      rw [cast]
      exact_mod_cast rounded
    exact_mod_cast rational
  · by_cases top : format.binade magnitude = format.top
    · exact (last top).le
    · have rounded : roundEven (magnitude / format.ulp magnitude) ≤
          (2 ^ (format.fractionBits + 1) : ℤ) := by
        apply roundEven_le
        push_cast
        exact (below (by omega)).le
      have rational : (format.significand magnitude : ℚ) ≤ 2 ^ (format.fractionBits + 1) := by
        rw [cast]
        exact_mod_cast rounded
      exact_mod_cast rational

theorem ofRat_eq (nonnegative : 0 ≤ magnitude) (small : magnitude < format.limit) :
    format.ofRat magnitude =
      format.binade magnitude * 2 ^ format.fractionBits + format.significand magnitude := by
  unfold ofRat
  simp only [if_neg (not_lt.mpr nonnegative), abs_of_nonneg nonnegative,
    if_neg (not_le.mpr small), Nat.zero_add]
  rfl

theorem toRat_fields {exponent fraction : Nat} (inside : exponent < 2 ^ format.exponentBits)
    (below : fraction < 2 ^ format.fractionBits) :
    format.toRat (exponent * 2 ^ format.fractionBits + fraction) =
      if exponent = 0 then fraction * format.unit
      else (2 ^ format.fractionBits + fraction) * 2 ^ (exponent - 1) * format.unit := by
  have positive : 0 < 2 ^ format.fractionBits := Nat.two_pow_pos _
  have quotient : (exponent * 2 ^ format.fractionBits + fraction) / 2 ^ format.fractionBits =
      exponent := by
    rw [Nat.add_comm, Nat.add_mul_div_right _ _ positive, Nat.div_eq_of_lt below, Nat.zero_add]
  have remainder : (exponent * 2 ^ format.fractionBits + fraction) % 2 ^ format.fractionBits =
      fraction := by
    rw [Nat.add_comm, Nat.add_mul_mod_self_right, Nat.mod_eq_of_lt below]
  have unsigned : exponent * 2 ^ format.fractionBits + fraction <
      2 ^ (format.exponentBits + format.fractionBits) := by
    rw [pow_add]
    calc
      _ < (exponent + 1) * 2 ^ format.fractionBits := by
        rw [Nat.succ_mul]
        exact Nat.add_lt_add_left below _
      _ ≤ 2 ^ format.exponentBits * 2 ^ format.fractionBits :=
        Nat.mul_le_mul_right _ inside
  unfold toRat
  simp only [if_pos unsigned, quotient, remainder, Nat.mod_eq_of_lt inside, one_mul]

/-- The value of an exponent and a significand that may carry. -/
theorem toRat_scaled (wide : 2 ≤ format.exponentBits) {exponent digits : Nat}
    (bound : exponent ≤ format.top) (normal : 0 < exponent → 2 ^ format.fractionBits ≤ digits)
    (carry : digits ≤ 2 ^ (format.fractionBits + 1))
    (last : exponent = format.top → digits < 2 ^ (format.fractionBits + 1)) :
    format.toRat (exponent * 2 ^ format.fractionBits + digits) =
      digits * (format.unit * 2 ^ exponent) := by
  have room : 4 ≤ 2 ^ format.exponentBits :=
    le_trans (by norm_num) (Nat.pow_le_pow_right (by norm_num) wide)
  have positive : 0 < 2 ^ format.fractionBits := Nat.two_pow_pos _
  have double : 2 ^ (format.fractionBits + 1) =
      2 ^ format.fractionBits + 2 ^ format.fractionBits := by ring
  unfold top at bound last
  by_cases subnormal : digits < 2 ^ format.fractionBits
  · have zero : exponent = 0 := by
      by_contra nonzero
      have reached := normal (Nat.pos_of_ne_zero nonzero)
      omega
    subst zero
    rw [toRat_fields (by omega) subnormal, if_pos rfl]
    ring
  · by_cases whole : digits < 2 ^ (format.fractionBits + 1)
    · obtain ⟨fraction, rfl⟩ : ∃ fraction, digits = 2 ^ format.fractionBits + fraction :=
        ⟨digits - 2 ^ format.fractionBits, by omega⟩
      rw [show exponent * 2 ^ format.fractionBits + (2 ^ format.fractionBits + fraction) =
        (exponent + 1) * 2 ^ format.fractionBits + fraction by ring,
        toRat_fields (by omega) (by omega), if_neg (by omega), Nat.add_sub_cancel]
      push_cast
      ring
    · -- The significand carries: one exponent further, with an empty fraction.
      have full : digits = 2 ^ format.fractionBits + 2 ^ format.fractionBits := by omega
      have next : exponent + 2 < 2 ^ format.exponentBits := by
        by_contra outside
        exact whole (last (by omega))
      subst full
      rw [show exponent * 2 ^ format.fractionBits +
          (2 ^ format.fractionBits + 2 ^ format.fractionBits) =
        (exponent + 2) * 2 ^ format.fractionBits + 0 by ring,
        toRat_fields next positive, if_neg (by omega)]
      rw [show exponent + 2 - 1 = exponent + 1 by omega]
      push_cast
      ring

theorem toRat_ofRat (wide : 2 ≤ format.exponentBits) (nonnegative : 0 ≤ magnitude)
    (small : magnitude < format.limit) :
    format.toRat (format.ofRat magnitude) =
      roundEven (magnitude / format.ulp magnitude) * format.ulp magnitude := by
  obtain ⟨normal, carry, last⟩ := significand_bounds nonnegative small
  rw [ofRat_eq nonnegative small,
    toRat_scaled wide (format.binade_spec magnitude).1 normal carry last,
    significand_cast nonnegative, ulp]

theorem toRat_ofRat_nonneg (wide : 2 ≤ format.exponentBits) (nonnegative : 0 ≤ magnitude)
    (small : magnitude < format.limit) : 0 ≤ format.toRat (format.ofRat magnitude) := by
  rw [toRat_ofRat wide nonnegative small]
  apply mul_nonneg _ (format.ulp_pos magnitude).le
  exact_mod_cast roundEven_nonneg (div_nonneg nonnegative (format.ulp_pos magnitude).le)

theorem ulp_le (format : Format) (magnitude : ℚ) :
    format.ulp magnitude ≤ max (magnitude / 2 ^ format.fractionBits) format.unit := by
  by_cases subnormal : format.binade magnitude = 0
  · apply le_max_of_le_right
    rw [ulp, subnormal, pow_zero, mul_one]
  · apply le_max_of_le_left
    have above := (format.binade_spec magnitude).2.1 (Nat.pos_of_ne_zero subnormal)
    change _ ≤ magnitude / format.ulp magnitude at above
    rw [le_div_iff₀ (format.ulp_pos magnitude)] at above
    rw [le_div_iff₀ (by positivity), mul_comm]
    exact above

theorem abs_sub_toRat_ofRat (wide : 2 ≤ format.exponentBits) (nonnegative : 0 ≤ magnitude)
    (small : magnitude < format.limit) :
    |magnitude - format.toRat (format.ofRat magnitude)| ≤
      max (magnitude / 2 ^ (format.fractionBits + 1)) (format.unit / 2) := by
  have positive := format.ulp_pos magnitude
  have half := abs_sub_roundEven (magnitude / format.ulp magnitude)
  have scaled : magnitude - format.toRat (format.ofRat magnitude) =
      (magnitude / format.ulp magnitude - roundEven (magnitude / format.ulp magnitude)) *
        format.ulp magnitude := by
    rw [toRat_ofRat wide nonnegative small, sub_mul, div_mul_cancel₀ _ positive.ne']
  calc
    |magnitude - format.toRat (format.ofRat magnitude)| =
        |magnitude / format.ulp magnitude - roundEven (magnitude / format.ulp magnitude)| *
          format.ulp magnitude := by rw [scaled, abs_mul, abs_of_pos positive]
    _ ≤ 1 / 2 * format.ulp magnitude := mul_le_mul_of_nonneg_right half positive.le
    _ ≤ 1 / 2 * max (magnitude / 2 ^ format.fractionBits) format.unit :=
      mul_le_mul_of_nonneg_left (format.ulp_le magnitude) (by norm_num)
    _ = max (magnitude / 2 ^ (format.fractionBits + 1)) (format.unit / 2) := by
      rw [mul_max_of_nonneg _ _ (by norm_num)]
      congr 1
      · rw [pow_succ]
        field_simp
      · ring

/-- An exponent and a significand that may carry stay below the limit. -/
theorem scaled_lt_limit {exponent digits : Nat} (bound : exponent ≤ format.top)
    (carry : digits ≤ 2 ^ (format.fractionBits + 1))
    (last : exponent = format.top → digits < 2 ^ (format.fractionBits + 1)) :
    digits * (format.unit * 2 ^ exponent) < format.limit := by
  have positive := format.unit_pos
  have one : (1 : ℚ) ≤ 2 ^ format.fractionBits := one_le_pow₀ (by norm_num)
  have scaled : 0 < format.unit * 2 ^ format.top := by positivity
  have power : (2 : ℚ) ^ (format.fractionBits + 1) = 2 * 2 ^ format.fractionBits := by ring
  by_cases top : exponent = format.top
  · have whole : (digits : ℚ) + 1 ≤ 2 ^ (format.fractionBits + 1) := by
      exact_mod_cast last top
    rw [top]
    calc
      _ < (2 ^ (format.fractionBits + 1) - 1 / 2) * (format.unit * 2 ^ format.top) := by
        apply mul_lt_mul_of_pos_right _ scaled
        linarith
      _ = format.limit := by
        unfold limit
        ring
  · have whole : (digits : ℚ) ≤ 2 ^ (format.fractionBits + 1) := by
      exact_mod_cast carry
    have step : (2 : ℚ) ^ (exponent + 1) ≤ 2 ^ format.top :=
      pow_le_pow_right₀ (by norm_num) (by omega)
    calc
      _ ≤ 2 ^ (format.fractionBits + 1) * (format.unit * 2 ^ exponent) := by
        apply mul_le_mul_of_nonneg_right whole
        positivity
      _ = 2 ^ format.fractionBits * (format.unit * 2 ^ (exponent + 1)) := by
        rw [power, pow_succ]
        ring
      _ ≤ 2 ^ format.fractionBits * (format.unit * 2 ^ format.top) := by
        apply mul_le_mul_of_nonneg_left _ (by positivity)
        exact mul_le_mul_of_nonneg_left step positive.le
      _ < (2 ^ (format.fractionBits + 1) - 1 / 2) * (format.unit * 2 ^ format.top) := by
        apply mul_lt_mul_of_pos_right _ scaled
        linarith
      _ = format.limit := by
        unfold limit
        ring

theorem toRat_ofRat_lt_limit (wide : 2 ≤ format.exponentBits) (nonnegative : 0 ≤ magnitude)
    (small : magnitude < format.limit) :
    format.toRat (format.ofRat magnitude) < format.limit := by
  obtain ⟨normal, carry, last⟩ := significand_bounds nonnegative small
  have bound := (format.binade_spec magnitude).1
  rw [ofRat_eq nonnegative small, toRat_scaled wide bound normal carry last]
  exact scaled_lt_limit bound carry last

/-- The binade is the one in which the significand has one digit more than the fraction. -/
theorem binade_eq {exponent : Nat} (inside : exponent ≤ format.top)
    (above : 2 ^ format.fractionBits * (format.unit * 2 ^ exponent) ≤ magnitude)
    (below : magnitude < 2 ^ (format.fractionBits + 1) * (format.unit * 2 ^ exponent)) :
    format.binade magnitude = exponent := by
  have positive := format.unit_pos
  obtain ⟨_, normal, bounded⟩ := format.binade_spec magnitude
  apply le_antisymm
  · by_contra higher
    have reached := normal (by omega)
    rw [le_div_iff₀ (by positivity)] at reached
    have step : (2 : ℚ) ^ (exponent + 1) ≤ 2 ^ format.binade magnitude :=
      pow_le_pow_right₀ (by norm_num) (by omega)
    have contradiction : magnitude < magnitude := calc
      magnitude < 2 ^ (format.fractionBits + 1) * (format.unit * 2 ^ exponent) := below
      _ = 2 ^ format.fractionBits * (format.unit * 2 ^ (exponent + 1)) := by ring
      _ ≤ 2 ^ format.fractionBits * (format.unit * 2 ^ format.binade magnitude) := by
        apply mul_le_mul_of_nonneg_left _ (by positivity)
        exact mul_le_mul_of_nonneg_left step positive.le
      _ ≤ magnitude := reached
    exact lt_irrefl _ contradiction
  · by_contra lower
    have missed := bounded (by omega)
    rw [div_lt_iff₀ (by positivity)] at missed
    have step : (2 : ℚ) ^ (format.binade magnitude + 1) ≤ 2 ^ exponent :=
      pow_le_pow_right₀ (by norm_num) (by omega)
    have contradiction : magnitude < magnitude := calc
      magnitude < 2 ^ (format.fractionBits + 1) *
          (format.unit * 2 ^ format.binade magnitude) := missed
      _ = 2 ^ format.fractionBits * (format.unit * 2 ^ (format.binade magnitude + 1)) := by ring
      _ ≤ 2 ^ format.fractionBits * (format.unit * 2 ^ exponent) := by
        apply mul_le_mul_of_nonneg_left _ (by positivity)
        exact mul_le_mul_of_nonneg_left step positive.le
      _ ≤ magnitude := above
    exact lt_irrefl _ contradiction

theorem binade_eq_zero (below : magnitude < 2 ^ (format.fractionBits + 1) * format.unit) :
    format.binade magnitude = 0 := by
  have positive := format.unit_pos
  by_contra nonzero
  have reached := (format.binade_spec magnitude).2.1 (Nat.pos_of_ne_zero nonzero)
  rw [le_div_iff₀ (by positivity)] at reached
  have step : (2 : ℚ) ^ 1 ≤ 2 ^ format.binade magnitude :=
    pow_le_pow_right₀ (by norm_num) (Nat.pos_of_ne_zero nonzero)
  have contradiction : magnitude < magnitude := calc
    magnitude < 2 ^ (format.fractionBits + 1) * format.unit := below
    _ = 2 ^ format.fractionBits * (format.unit * 2 ^ 1) := by ring
    _ ≤ 2 ^ format.fractionBits * (format.unit * 2 ^ format.binade magnitude) := by
      apply mul_le_mul_of_nonneg_left _ (by positivity)
      exact mul_le_mul_of_nonneg_left step positive.le
    _ ≤ magnitude := reached
  exact lt_irrefl _ contradiction

theorem ofRat_of_binade {exponent digits : Nat}
    (small : digits * (format.unit * 2 ^ exponent) < format.limit)
    (binade : format.binade (digits * (format.unit * 2 ^ exponent)) = exponent) :
    format.ofRat (digits * (format.unit * 2 ^ exponent)) =
      exponent * 2 ^ format.fractionBits + digits := by
  have positive : 0 < format.unit * 2 ^ exponent := by
    have unit := format.unit_pos
    positivity
  have whole : (digits : ℚ) * (format.unit * 2 ^ exponent) / (format.unit * 2 ^ exponent) =
      ((digits : ℤ) : ℚ) := by
    rw [mul_div_cancel_right₀ _ positive.ne', Int.cast_natCast]
  rw [ofRat_eq (by positivity) small, significand, ulp, binade, whole, roundEven_intCast,
    Int.toNat_natCast]

/-- Every number of the format rounds to its own pattern. -/
theorem ofRat_scaled {exponent digits : Nat} (bound : exponent ≤ format.top)
    (normal : 0 < exponent → 2 ^ format.fractionBits ≤ digits)
    (carry : digits ≤ 2 ^ (format.fractionBits + 1))
    (last : exponent = format.top → digits < 2 ^ (format.fractionBits + 1)) :
    format.ofRat (digits * (format.unit * 2 ^ exponent)) =
      exponent * 2 ^ format.fractionBits + digits := by
  have unit := format.unit_pos
  have scale : 0 < format.unit * 2 ^ exponent := by positivity
  have small := scaled_lt_limit bound carry last
  by_cases whole : digits < 2 ^ (format.fractionBits + 1)
  · apply ofRat_of_binade small
    have below : (digits : ℚ) * (format.unit * 2 ^ exponent) <
        2 ^ (format.fractionBits + 1) * (format.unit * 2 ^ exponent) := by
      apply mul_lt_mul_of_pos_right _ scale
      exact_mod_cast whole
    by_cases subnormal : exponent = 0
    · subst subnormal
      apply binade_eq_zero
      rw [pow_zero, mul_one] at below ⊢
      exact below
    · apply binade_eq bound _ below
      apply mul_le_mul_of_nonneg_right _ scale.le
      exact_mod_cast normal (Nat.pos_of_ne_zero subnormal)
  · have full : digits = 2 ^ (format.fractionBits + 1) := by omega
    have next : exponent + 1 ≤ format.top := by
      by_contra outside
      exact whole (last (by omega))
    have shifted : (digits : ℚ) * (format.unit * 2 ^ exponent) =
        ((2 ^ format.fractionBits : Nat) : ℚ) * (format.unit * 2 ^ (exponent + 1)) := by
      rw [full]
      push_cast
      ring
    rw [shifted] at small ⊢
    rw [ofRat_of_binade small, full]
    · ring
    · apply binade_eq next
      · push_cast
        exact le_rfl
      · apply mul_lt_mul_of_pos_right _ (by positivity)
        push_cast
        exact pow_lt_pow_right₀ (by norm_num) (Nat.lt_succ_self _)

theorem ofRat_toRat_ofRat (wide : 2 ≤ format.exponentBits) (nonnegative : 0 ≤ magnitude)
    (small : magnitude < format.limit) :
    format.ofRat (format.toRat (format.ofRat magnitude)) = format.ofRat magnitude := by
  obtain ⟨normal, carry, last⟩ := significand_bounds nonnegative small
  have bound := (format.binade_spec magnitude).1
  rw [ofRat_eq nonnegative small, toRat_scaled wide bound normal carry last]
  exact ofRat_scaled bound normal carry last

theorem unit_le_toRat_ofRat (wide : 2 ≤ format.exponentBits) (nonnegative : 0 ≤ magnitude)
    (small : magnitude < format.limit)
    (nonzero : format.toRat (format.ofRat magnitude) ≠ 0) :
    format.unit ≤ format.toRat (format.ofRat magnitude) := by
  have unit := format.unit_pos
  rw [toRat_ofRat wide nonnegative small] at nonzero ⊢
  have rounded := roundEven_nonneg (div_nonneg nonnegative (format.ulp_pos magnitude).le)
  have counted : 0 < roundEven (magnitude / format.ulp magnitude) := by
    apply lt_of_le_of_ne rounded
    intro zero
    apply nonzero
    rw [← zero, Int.cast_zero, zero_mul]
  calc
    format.unit = 1 * (format.unit * 2 ^ 0) := by ring
    _ ≤ roundEven (magnitude / format.ulp magnitude) * format.ulp magnitude := by
      apply mul_le_mul _ _ (by positivity) (by exact_mod_cast rounded)
      · exact_mod_cast Int.add_one_le_of_lt counted
      · unfold ulp
        apply mul_le_mul_of_nonneg_left _ unit.le
        exact pow_le_pow_right₀ (by norm_num) (Nat.zero_le _)

/-- The pattern of a number, neither an infinity nor undefined. -/
def IsFinite (format : Format) (bits : Nat) : Prop :=
  bits / 2 ^ format.fractionBits % 2 ^ format.exponentBits ≠ 2 ^ format.exponentBits - 1

instance (bits : Nat) : Decidable (format.IsFinite bits) := by
  unfold IsFinite
  infer_instance

theorem isFinite_add_sign (format : Format) (value : ℚ) (bits : Nat) :
    format.IsFinite
        ((if value < 0 then 2 ^ (format.exponentBits + format.fractionBits) else 0) + bits) ↔
      format.IsFinite bits := by
  split
  · unfold IsFinite
    rw [pow_add, Nat.add_comm, Nat.add_mul_div_right _ _ (Nat.two_pow_pos _),
      Nat.add_mod_right]
  · rw [Nat.zero_add]

theorem scaled_lt_infinity (wide : 2 ≤ format.exponentBits) (nonnegative : 0 ≤ magnitude)
    (small : magnitude < format.limit) :
    format.binade magnitude * 2 ^ format.fractionBits + format.significand magnitude <
      format.infinity := by
  have positive : 0 < 2 ^ format.fractionBits := Nat.two_pow_pos _
  have room : 4 ≤ 2 ^ format.exponentBits :=
    le_trans (by norm_num) (Nat.pow_le_pow_right (by norm_num) wide)
  have double : 2 ^ (format.fractionBits + 1) =
      2 ^ format.fractionBits + 2 ^ format.fractionBits := by ring
  obtain ⟨_, carry, last⟩ := significand_bounds nonnegative small
  have bound := (format.binade_spec magnitude).1
  unfold top at bound last
  unfold infinity
  by_cases highest : format.binade magnitude = 2 ^ format.exponentBits - 3
  · have digits := last highest
    rw [highest, show 2 ^ format.exponentBits - 1 = 2 ^ format.exponentBits - 3 + 2 by omega,
      Nat.add_mul]
    omega
  · have step : format.binade magnitude + 3 ≤ 2 ^ format.exponentBits - 1 := by omega
    have product := Nat.mul_le_mul_right (2 ^ format.fractionBits) step
    rw [Nat.add_mul] at product
    omega

theorem isFinite_ofRat (wide : 2 ≤ format.exponentBits) (value : ℚ) :
    format.IsFinite (format.ofRat value) ↔ |value| < format.limit := by
  have positive : 0 < 2 ^ format.fractionBits := Nat.two_pow_pos _
  have room : 4 ≤ 2 ^ format.exponentBits :=
    le_trans (by norm_num) (Nat.pow_le_pow_right (by norm_num) wide)
  unfold ofRat
  simp only
  by_cases large : format.limit ≤ |value|
  · rw [if_pos large, isFinite_add_sign]
    simp only [not_lt.mpr large, iff_false]
    unfold IsFinite infinity
    rw [Nat.mul_div_cancel _ positive, Nat.mod_eq_of_lt (by omega)]
    exact fun different => different rfl
  · have small := not_le.mp large
    rw [if_neg large, Nat.add_assoc, isFinite_add_sign]
    simp only [small, iff_true]
    have below := scaled_lt_infinity wide (abs_nonneg value) small
    have quotient := (Nat.div_lt_iff_lt_mul positive).mpr below
    change format.IsFinite (format.binade |value| * 2 ^ format.fractionBits +
      format.significand |value|)
    unfold IsFinite
    rw [Nat.mod_eq_of_lt (by omega)]
    omega

theorem ofRat_lt (wide : 2 ≤ format.exponentBits) (value : ℚ) :
    format.ofRat value < 2 * 2 ^ (format.exponentBits + format.fractionBits) := by
  have infinite : format.infinity < 2 ^ (format.exponentBits + format.fractionBits) := by
    unfold infinity
    rw [pow_add]
    apply Nat.mul_lt_mul_of_pos_right _ (Nat.two_pow_pos _)
    exact Nat.sub_lt (Nat.two_pow_pos _) (by norm_num)
  have magnitude : (if format.limit ≤ |value| then format.infinity
      else format.binade |value| * 2 ^ format.fractionBits + format.significand |value|) ≤
        format.infinity := by
    split
    · exact le_refl _
    · rename_i small
      exact (scaled_lt_infinity wide (abs_nonneg value) (not_le.mp small)).le
  have split : format.ofRat value =
      (if value < 0 then 2 ^ (format.exponentBits + format.fractionBits) else 0) +
        (if format.limit ≤ |value| then format.infinity
          else format.binade |value| * 2 ^ format.fractionBits + format.significand |value|) := by
    unfold ofRat
    by_cases large : format.limit ≤ |value|
    · simp only [if_pos large]
    · simp only [if_neg large, Nat.add_assoc]
      rfl
  rw [split]
  split <;> omega

end Format

end KVSSD.Binary

namespace KVSSD.Half

open KVSSD.Binary

theorem toNat_ofRat (value : ℚ) : (ofRat value).toNat = binary16.ofRat value := by
  have fits := @Format.ofRat_lt binary16 (by decide) value
  unfold ofRat
  rw [UInt16.toNat_ofNat']
  exact Nat.mod_eq_of_lt fits

theorem limit_eq : binary16.limit = 65520 := by
  norm_num [Format.limit, Format.unit, Format.top, binary16]

variable {magnitude : ℚ}

theorem toRat_ofRat_nonneg (nonnegative : 0 ≤ magnitude) (small : magnitude < 65520) :
    0 ≤ toRat (ofRat magnitude) := by
  unfold toRat
  rw [toNat_ofRat]
  apply Format.toRat_ofRat_nonneg (by decide) nonnegative
  rwa [limit_eq]

theorem abs_sub_toRat_ofRat (nonnegative : 0 ≤ magnitude) (small : magnitude < 65520) :
    |magnitude - toRat (ofRat magnitude)| ≤ max (magnitude / 2 ^ 11) (1 / 2 ^ 25) := by
  have bound := @Format.abs_sub_toRat_ofRat binary16 magnitude (by decide) nonnegative
    (by rwa [limit_eq])
  have unit : binary16.unit / 2 = 1 / 2 ^ 25 := by
    norm_num [Format.unit, binary16]
  unfold toRat
  rw [toNat_ofRat]
  rwa [unit] at bound

theorem ofRat_toRat_ofRat (nonnegative : 0 ≤ magnitude) (small : magnitude < 65520) :
    ofRat (toRat (ofRat magnitude)) = ofRat magnitude := by
  have stable := @Format.ofRat_toRat_ofRat binary16 magnitude (by decide) nonnegative
    (by rwa [limit_eq])
  unfold toRat
  rw [toNat_ofRat]
  exact congrArg UInt16.ofNat stable

theorem unit_le_toRat_ofRat (nonnegative : 0 ≤ magnitude) (small : magnitude < 65520)
    (nonzero : toRat (ofRat magnitude) ≠ 0) : 1 / 2 ^ 24 ≤ toRat (ofRat magnitude) := by
  have unit : binary16.unit = 1 / 2 ^ 24 := by
    norm_num [Format.unit, binary16]
  unfold toRat at nonzero ⊢
  rw [toNat_ofRat] at nonzero ⊢
  rw [← unit]
  exact Format.unit_le_toRat_ofRat (by decide) nonnegative (by rwa [limit_eq]) nonzero

end KVSSD.Half

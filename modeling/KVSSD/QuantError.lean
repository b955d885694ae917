import KVSSD.DequantLayout
import KVSSD.Exact
import KVSSD.Lib.Rounding
import KVSSD.QuantBytes
import KVSSD.QuantLayout

/-!
# The error of quantization

With exact float32 arithmetic the codes of a group are its values over its scale, rounded,
and dequantization gives them back times the stored scale.  The stored scale is rounded to
half precision, so the error of a value is at most half a scale and the error of the scale
for each of the steps from the midpoint.
-/

namespace KVSSD

open KVSSD.Python

namespace Quant

section Group

variable {F : Type} [arith : QuantArith F] {bits : Int} {group : List F}

/-- The codes of a group fit their width. -/
def CodesFit (bits : Int) (group : List F) : Prop :=
  ∀ code ∈ groupCodes bits group, code.toNat < 2 ^ bits.toNat

theorem unpack_packedGroup (widths : bits = 2 ∨ bits = 4) (aligned : perByte bits ∣ group.length)
    (fit : CodesFit bits group) :
    (packedGroup bits group).flatMap (unpackByte bits.toNat (perByte bits)) =
      groupCodes bits group := by
  have total : (groupCodes bits group).length =
      group.length / perByte bits * perByte bits := by
    rw [groupCodes_length, Nat.div_mul_cancel aligned]
  have each : ∀ row ∈ rows (group.length / perByte bits) (perByte bits)
      (groupCodes bits group),
      unpackByte bits.toNat (perByte bits) (packByte bits.toNat row) = row := by
    intro row member
    apply unpackByte_packByte widths (length_of_mem_rows total.ge member)
    intro code codeMember
    apply fit
    rw [← rows_flatten total]
    exact List.mem_flatten_of_mem member codeMember
  unfold packedGroup
  rw [List.flatMap_map, List.flatMap_congr each, List.flatMap_id']
  exact rows_flatten total

/-- The value of a code under the stored scale of its group. -/
def codeValue (bits : Int) (group : List F) (code : UInt8) : F :=
  arith.mul (arith.sub (arith.ofInt code.toNat) (arith.ofInt (midpoint bits)))
    (arith.ofHalf (storedScale bits group))

theorem flatValues_packedGroup (widths : bits = 2 ∨ bits = 4)
    (aligned : perByte bits ∣ group.length) (fit : CodesFit bits group) :
    flatValues bits group.length (packedGroup bits group) [storedScale bits group] =
      (groupCodes bits group).map (codeValue bits group) := by
  unfold flatValues
  rw [unpack_packedGroup widths aligned fit]
  simp only [List.map_cons, List.map_nil, List.flatMap_cons, List.flatMap_nil, List.append_nil]
  rw [← groupCodes_length bits group, ← List.map_const',
    List.zipWith_map, List.zipWith_self]
  rfl

end Group

section Tensor

variable {F α : Type} [arith : QuantArith F] [element : TorchElement α F] {x : Tensor α}
  {bits groupSize : Int} {front : List Nat} {width : Nat} {q : QuantizedTensor}

omit arith in
theorem floating_of_validate
    (validated : validate F x bits groupSize = .ok ()) : element.isFloatingPoint = true := by
  unfold validate at validated
  split at validated
  · cases validated
  split at validated
  · cases validated
  obtain ⟨remainder, _, rest⟩ := bind_eq_ok.mp validated
  split at rest
  · cases rest
  split at rest
  · cases rest
  split at rest
  · cases rest
  · rename_i floating
    simpa using floating

theorem accepts_of_quantizeTensor (shape : x.shape = front ++ [width])
    (quantized : quantizeTensor F x bits groupSize = .ok q) :
    Accepts bits groupSize width ∧ element.isFloatingPoint = true ∧ front.prod ≠ 0 := by
  obtain ⟨_, validated, _⟩ := bind_eq_ok.mp quantized
  refine ⟨accepts_of_validate shape validated, floating_of_validate validated, ?_⟩
  intro empty
  obtain ⟨raised, failed⟩ := quantizeTensor_empty (F := F) bits groupSize shape empty
  rw [quantized] at failed
  cases failed

/-- Unpacking gives the codes of the groups, and dequantizing their values under the stored
scales. -/
theorem dequantize_quantizeTensor (shape : x.shape = front ++ [width])
    (quantized : quantizeTensor F x bits groupSize = .ok q)
    (fit : ∀ group ∈ groupsOf F (front.prod * (width / groupSize.toNat)) groupSize.toNat x.data,
      CodesFit bits group) :
    ∃ codes restored, unpackCodes q.packed q.bits width = .ok codes ∧
      dequantizeTensor F id q = .ok restored ∧ codes.shape = x.shape ∧
      restored.shape = x.shape ∧
      codes.data = (groupsOf F (front.prod * (width / groupSize.toNat)) groupSize.toNat
        x.data).flatMap (groupCodes bits) ∧
      restored.data = (groupsOf F (front.prod * (width / groupSize.toNat)) groupSize.toNat
        x.data).flatMap fun group => (groupCodes bits group).map (codeValue bits group) := by
  obtain ⟨accepts, floating, nonempty⟩ := accepts_of_quantizeTensor shape quantized
  obtain ⟨other, otherOk, packedShape, packedData, scalesShape, scalesData, original, bitsEq,
    groupEq⟩ := quantizeTensor_spec (F := F) shape accepts floating nonempty
  obtain rfl := Except.ok.inj (otherOk.symm.trans quantized)
  have positive := Int.lt_toNat.mpr accepts.group_pos
  have groupNat : other.groupSize = (groupSize.toNat : Nat) := by
    rw [groupEq, Int.toNat_of_nonneg (Int.le_of_lt accepts.group_pos)]
  have bytes : width = width / perByte bits * perByte bits :=
    (Nat.div_mul_cancel accepts.perByte_dvd).symm
  have groups : width = width / groupSize.toNat * groupSize.toNat :=
    (Nat.div_mul_cancel accepts.group_dvd).symm
  have total : x.data.length = front.prod * (width / groupSize.toNat) * groupSize.toNat := by
    rw [x.size_eq, shape, List.prod_append, List.prod_singleton, Nat.mul_assoc, ← groups]
  have sized : ∀ group ∈ groupsOf F (front.prod * (width / groupSize.toNat)) groupSize.toNat
      x.data, group.length = groupSize.toNat :=
    fun group member => length_of_mem_groupsOf total member
  rw [bitsEq]
  obtain ⟨codes, codesOk, codesShape, codesData⟩ :=
    unpackCodes_spec accepts.bits_valid packedShape nonempty bytes
  obtain ⟨restored, restoredOk, restoredShape, restoredData⟩ := dequantizeTensor_spec (F := F)
    (by rw [bitsEq]; exact accepts.bits_valid) nonempty packedShape scalesShape
    (original.trans shape) groupNat positive (by rw [bitsEq]; exact bytes) groups
  refine ⟨codes, restored, codesOk, restoredOk, codesShape.trans shape.symm,
    restoredShape.trans shape.symm, ?_, ?_⟩
  · rw [codesData, packedData, List.flatMap_assoc]
    apply List.flatMap_congr
    intro group member
    apply unpack_packedGroup accepts.bits_cases _ (fit group member)
    rw [sized group member]
    exact accepts.aligned
  · have scaled : other.scales.data = (groupsOf F (front.prod * (width / groupSize.toNat))
        groupSize.toNat x.data).flatMap fun group => [storedScale bits group] := by
      rw [scalesData, ← List.map_eq_flatMap]
    rw [restoredData, bitsEq, packedData, scaled, flatValues_flatMap]
    · apply List.flatMap_congr
      intro group member
      rw [← flatValues_packedGroup accepts.bits_cases _ (fit group member), sized group member]
      rw [sized group member]
      exact accepts.aligned
    · intro group member
      rw [packedGroup_length, sized group member, List.length_singleton, Nat.one_mul,
        Nat.div_mul_cancel accepts.aligned]

end Tensor

section Exact

variable {bits : Int} {group : List ℚ} {value : ℚ}

/-- Steps from the midpoint to either end, `2 ** (bits - 1) - 1`. -/
def steps (bits : Int) : ℤ := midpoint bits - 1

theorem steps_cases (widths : bits = 2 ∨ bits = 4) :
    (bits = 2 ∧ steps bits = 1) ∨ (bits = 4 ∧ steps bits = 7) := by
  rcases widths with rfl | rfl
  · exact Or.inl ⟨rfl, rfl⟩
  · exact Or.inr ⟨rfl, rfl⟩

theorem steps_pos (widths : bits = 2 ∨ bits = 4) : (0 : ℚ) < steps bits := by
  rcases steps_cases widths with ⟨_, one⟩ | ⟨_, seven⟩
  · rw [one]
    norm_num
  · rw [seven]
    norm_num

theorem le_foldl_max (items : List ℚ) (start : ℚ) :
    start ≤ items.foldl max start ∧ ∀ item ∈ items, item ≤ items.foldl max start := by
  induction items generalizing start with
  | nil => simp
  | cons item items induction =>
      obtain ⟨above, each⟩ := induction (max start item)
      constructor
      · exact le_trans (le_max_left start item) above
      · intro other member
        rcases List.mem_cons.mp member with rfl | later
        · exact le_trans (le_max_right start _) above
        · exact each other later

theorem le_amax {items : List ℚ} (member : value ∈ items) : value ≤ amax items := by
  cases items with
  | nil => cases member
  | cons item items =>
      obtain ⟨above, each⟩ := le_foldl_max items item
      rcases List.mem_cons.mp member with rfl | later
      · exact above
      · exact each value later

theorem foldl_max_mem (items : List ℚ) (start : ℚ) :
    items.foldl max start = start ∨ items.foldl max start ∈ items := by
  induction items generalizing start with
  | nil => exact Or.inl rfl
  | cons item items induction =>
      rcases induction (max start item) with first | later
      · rw [List.foldl_cons, first]
        rcases max_choice start item with left | right
        · exact Or.inl left
        · rw [right]
          exact Or.inr List.mem_cons_self
      · exact Or.inr (List.mem_cons_of_mem item later)

theorem amax_mem {items : List ℚ} (nonempty : items ≠ []) : amax items ∈ items := by
  cases items with
  | nil => exact absurd rfl nonempty
  | cons item items =>
      rcases foldl_max_mem items item with first | later
      · exact List.mem_cons.mpr (Or.inl first)
      · exact List.mem_cons_of_mem item later

theorem groupScale_eq (bits : Int) (group : List ℚ) :
    groupScale bits group = max (amax (group.map fun item => |item|)) (1 / 10 ^ 8) / steps bits :=
  rfl

theorem groupScale_pos (widths : bits = 2 ∨ bits = 4) (group : List ℚ) :
    0 < groupScale bits group := by
  rw [groupScale_eq]
  apply div_pos _ (steps_pos widths)
  exact lt_of_lt_of_le (by norm_num) (le_max_right _ _)

theorem abs_div_groupScale_le (widths : bits = 2 ∨ bits = 4) (member : value ∈ group) :
    |value / groupScale bits group| ≤ steps bits := by
  have positive := groupScale_pos widths group
  rw [abs_div, abs_of_pos positive, div_le_iff₀ positive, groupScale_eq,
    mul_div_cancel₀ _ (steps_pos widths).ne']
  apply le_max_of_le_left
  exact le_amax (List.mem_map_of_mem member)

/-- Steps from the midpoint to a value. -/
def quantum (bits : Int) (group : List ℚ) (value : ℚ) : ℤ :=
  Binary.roundEven (value / groupScale bits group)

theorem quantum_bounds (widths : bits = 2 ∨ bits = 4) (member : value ∈ group) :
    -steps bits ≤ quantum bits group value ∧ quantum bits group value ≤ steps bits := by
  obtain ⟨low, high⟩ := abs_le.mp (abs_div_groupScale_le widths member)
  constructor
  · apply Binary.le_roundEven
    push_cast
    exact low
  · exact Binary.roundEven_le high

theorem code_eq (widths : bits = 2 ∨ bits = 4) (member : value ∈ group) :
    ((code bits (groupScale bits group) value).toNat : ℤ) =
      quantum bits group value + midpoint bits := by
  obtain ⟨low, high⟩ := quantum_bounds widths member
  have clamped : min (max (quantum bits group value : ℚ) (-midpoint bits : ℤ))
      ((midpoint bits - 1 : ℤ) : ℚ) = quantum bits group value := by
    rw [max_eq_left, min_eq_left]
    · exact_mod_cast high
    · have wider : -midpoint bits ≤ quantum bits group value := by
        unfold steps at low
        omega
      exact_mod_cast wider
  change ((UInt8.ofNat ⌊min (max (quantum bits group value : ℚ) ((-midpoint bits : ℤ) : ℚ))
    ((midpoint bits - 1 : ℤ) : ℚ) + ((midpoint bits : ℤ) : ℚ)⌋.toNat).toNat : ℤ) = _
  rw [clamped]
  have floor : ⌊(quantum bits group value : ℚ) + ((midpoint bits : ℤ) : ℚ)⌋ =
      quantum bits group value + midpoint bits := by
    exact_mod_cast Int.floor_intCast (R := ℚ) (quantum bits group value + midpoint bits)
  rw [floor, UInt8.toNat_ofNat']
  have middle : midpoint bits = steps bits + 1 := by
    unfold steps
    ring
  rcases steps_cases widths with ⟨_, one⟩ | ⟨_, seven⟩
  · omega
  · omega

theorem codesFit (widths : bits = 2 ∨ bits = 4) (group : List ℚ) : CodesFit bits group := by
  intro item member
  obtain ⟨value, valueMember, rfl⟩ := List.mem_map.mp member
  have above := code_eq widths valueMember
  obtain ⟨_, high⟩ := quantum_bounds widths valueMember
  have middle : midpoint bits = steps bits + 1 := by
    unfold steps
    ring
  rcases steps_cases widths with ⟨rfl, one⟩ | ⟨rfl, seven⟩
  · change _ < 4
    omega
  · change _ < 16
    omega

/-- A value after quantization and dequantization. -/
def reconstruct (bits : Int) (group : List ℚ) (value : ℚ) : ℚ :=
  quantum bits group value * Half.toRat (storedScale bits group)

/-- The error in steps, and the error of the scale on every step. -/
theorem abs_sub_reconstruct_le (widths : bits = 2 ∨ bits = 4) (member : value ∈ group)
    (small : groupScale bits group < 65520) :
    |value - reconstruct bits group value| ≤ groupScale bits group / 2 +
      steps bits * max (groupScale bits group / 2 ^ 11) (1 / 2 ^ 25) := by
  have positive := groupScale_pos widths group
  have scaleError := Half.abs_sub_toRat_ofRat positive.le small
  change |_ - Half.toRat (storedScale bits group)| ≤ _ at scaleError
  obtain ⟨low, high⟩ := quantum_bounds widths member
  have count : |(quantum bits group value : ℚ)| ≤ steps bits := by
    rw [abs_le]
    constructor
    · exact_mod_cast low
    · exact_mod_cast high
  have step : |value - quantum bits group value * groupScale bits group| ≤
      groupScale bits group / 2 := by
    have half := Binary.abs_sub_roundEven (value / groupScale bits group)
    have scaled : value - quantum bits group value * groupScale bits group =
        (value / groupScale bits group - quantum bits group value) * groupScale bits group := by
      rw [sub_mul, div_mul_cancel₀ _ positive.ne']
    rw [scaled, abs_mul, abs_of_pos positive]
    calc
      _ ≤ 1 / 2 * groupScale bits group := mul_le_mul_of_nonneg_right half positive.le
      _ = groupScale bits group / 2 := by ring
  calc
    |value - reconstruct bits group value| =
        |(value - quantum bits group value * groupScale bits group) +
          quantum bits group value *
            (groupScale bits group - Half.toRat (storedScale bits group))| := by
      unfold reconstruct
      congr 1
      ring
    _ ≤ |value - quantum bits group value * groupScale bits group| +
          |(quantum bits group value : ℚ)| *
            |groupScale bits group - Half.toRat (storedScale bits group)| := by
      rw [← abs_mul]
      exact abs_add_le _ _
    _ ≤ _ := add_le_add step (mul_le_mul count scaleError (abs_nonneg _) (steps_pos widths).le)

theorem storedScale_nonneg (widths : bits = 2 ∨ bits = 4)
    (small : groupScale bits group < 65520) : 0 ≤ Half.toRat (storedScale bits group) :=
  Half.toRat_ofRat_nonneg (groupScale_pos widths group).le small

theorem abs_reconstruct (widths : bits = 2 ∨ bits = 4) (small : groupScale bits group < 65520)
    (value : ℚ) : |reconstruct bits group value| =
      |(quantum bits group value : ℚ)| * Half.toRat (storedScale bits group) := by
  rw [reconstruct, abs_mul, abs_of_nonneg (storedScale_nonneg widths small)]

theorem abs_reconstruct_le (widths : bits = 2 ∨ bits = 4)
    (small : groupScale bits group < 65520) {value : ℚ} (member : value ∈ group) :
    |reconstruct bits group value| ≤ steps bits * Half.toRat (storedScale bits group) := by
  rw [abs_reconstruct widths small]
  apply mul_le_mul_of_nonneg_right _ (storedScale_nonneg widths small)
  exact_mod_cast abs_le.mpr (quantum_bounds widths member)

theorem reconstruct_zero (bits : Int) (group : List ℚ) : reconstruct bits group 0 = 0 := by
  have zero : Binary.roundEven 0 = 0 := by simpa using Binary.roundEven_intCast 0
  rw [reconstruct, quantum, zero_div, zero, Int.cast_zero, zero_mul]

theorem reconstruct_mono (widths : bits = 2 ∨ bits = 4)
    (small : groupScale bits group < 65520) {other : ℚ} (ordered : value ≤ other) :
    reconstruct bits group value ≤ reconstruct bits group other := by
  apply mul_le_mul_of_nonneg_right _ (storedScale_nonneg widths small)
  have quotients := div_le_div_of_nonneg_right ordered (groupScale_pos widths group).le
  exact_mod_cast Binary.roundEven_mono quotients

theorem mul_reconstruct_nonneg (widths : bits = 2 ∨ bits = 4)
    (small : groupScale bits group < 65520) : 0 ≤ value * reconstruct bits group value := by
  rcases le_total 0 value with positive | negative
  · apply mul_nonneg positive
    rw [← reconstruct_zero bits group]
    exact reconstruct_mono widths small positive
  · apply mul_nonneg_of_nonpos_of_nonpos negative
    rw [← reconstruct_zero bits group]
    exact reconstruct_mono widths small negative

/-- The codes of a group: the clamp does not act on them, and none is zero. -/
structure Coded (bits : Int) (group : List ℚ) (codes : List UInt8) : Prop where
  unclamped : codes.map (fun item => (item.toNat : ℤ)) =
    group.map fun value => quantum bits group value + midpoint bits
  range : ∀ item ∈ codes, 1 ≤ item.toNat ∧ item.toNat ≤ 2 ^ bits.toNat - 1

/-- What a group is restored to, when its scale fits half precision. -/
structure Restored (bits : Int) (group restored : List ℚ) : Prop where
  values : restored = group.map (reconstruct bits group)
  error : ∀ value ∈ group, |value - reconstruct bits group value| ≤
    groupScale bits group / 2 + steps bits * max (groupScale bits group / 2 ^ 11) (1 / 2 ^ 25)
  zero : reconstruct bits group 0 = 0
  sign : ∀ value ∈ group, 0 ≤ value * reconstruct bits group value
  monotone : ∀ value ∈ group, ∀ other ∈ group, value ≤ other →
    reconstruct bits group value ≤ reconstruct bits group other

theorem coded_groupCodes (widths : bits = 2 ∨ bits = 4) (group : List ℚ) :
    Coded bits group (groupCodes bits group) := by
  have above {value : ℚ} (member : value ∈ group) := code_eq widths member
  constructor
  · unfold groupCodes
    rw [List.map_map]
    apply List.map_congr_left
    intro value member
    exact above member
  · intro item itemMember
    obtain ⟨value, member, rfl⟩ := List.mem_map.mp itemMember
    have code := above member
    obtain ⟨low, high⟩ := quantum_bounds widths member
    have middle : midpoint bits = steps bits + 1 := by
      unfold steps
      ring
    rcases steps_cases widths with ⟨rfl, one⟩ | ⟨rfl, seven⟩
    · change _ ∧ _ ≤ 3
      omega
    · change _ ∧ _ ≤ 15
      omega

/-- The values of the codes of a group are the restored values. -/
theorem map_codeValue (widths : bits = 2 ∨ bits = 4) (group : List ℚ) :
    (groupCodes bits group).map (codeValue bits group) =
      group.map (reconstruct bits group) := by
  unfold groupCodes
  rw [List.map_map]
  apply List.map_congr_left
  intro value member
  have above : (((code bits (groupScale bits group) value).toNat : ℤ) : ℚ) =
      ((quantum bits group value + midpoint bits : ℤ) : ℚ) := by
    rw [code_eq widths member]
  change (((code bits (groupScale bits group) value).toNat : ℤ) - (midpoint bits : ℤ) : ℚ) *
    Half.toRat (storedScale bits group) = reconstruct bits group value
  rw [above, reconstruct]
  push_cast
  ring

theorem restored_groupCodes (widths : bits = 2 ∨ bits = 4)
    (small : groupScale bits group < 65520) :
    Restored bits group ((groupCodes bits group).map (codeValue bits group)) := by
  constructor
  · exact map_codeValue widths group
  · intro value member
    exact abs_sub_reconstruct_le widths member small
  · exact reconstruct_zero bits group
  · intro value _
    exact mul_reconstruct_nonneg widths small
  · intro value _ other _ ordered
    exact reconstruct_mono widths small ordered

end Exact

/-- The items of one group. -/
def groupAt {α : Type} (size index : Nat) (items : List α) : List α :=
  (items.drop (index * size)).take size

theorem groupsOf_getElem? {F α : Type} [element : TorchElement α F] {count size index : Nat}
    {items : List α} (inside : index < count) :
    (groupsOf F count size items)[index]? =
      some (groupAt size index (items.map element.toFloat)) :=
  rows_getElem? inside

theorem groupAt_flatMap {F α β : Type} [element : TorchElement α F] {count size index : Nat}
    {items : List α} {image : List F → List β} (inside : index < count)
    (wide : ∀ group ∈ groupsOf F count size items, (image group).length = size) :
    groupAt size index ((groupsOf F count size items).flatMap image) =
      image (groupAt size index (items.map element.toFloat)) := by
  have counted : (groupsOf F count size items).length = count := by simp [groupsOf]
  have cut := rows_flatMap wide
  rw [counted] at cut
  have entries := congrArg (·[index]?) cut
  change (rows _ _ _)[index]? = (List.map _ _)[index]? at entries
  rw [rows_getElem? inside, List.getElem?_map, groupsOf_getElem? inside] at entries
  exact Option.some.inj entries

/-- Quantizing a tensor in exact arithmetic: which inputs are accepted, the codes of every
group, and the values every group with a finite scale is restored to. -/
theorem quantization_error {α : Type} [element : TorchElement α ℚ] {x : Tensor α}
    {front : List Nat} {width : Nat} (shape : x.shape = front ++ [width])
    (bits groupSize : Int) :
    (Accepts bits groupSize width → element.isFloatingPoint = true → front.prod ≠ 0 →
      ∃ q, quantizeTensor ℚ x bits groupSize = .ok q) ∧
    ∀ q, quantizeTensor ℚ x bits groupSize = .ok q →
      ∃ codes restored, unpackCodes q.packed q.bits width = .ok codes ∧
        dequantizeTensor ℚ id q = .ok restored ∧ codes.shape = x.shape ∧
        restored.shape = x.shape ∧
        ∀ index < front.prod * (width / groupSize.toNat),
          let group := groupAt groupSize.toNat index (x.data.map element.toFloat)
          Coded bits group (groupAt groupSize.toNat index codes.data) ∧
            (groupScale bits group < 65520 →
              Restored bits group (groupAt groupSize.toNat index restored.data)) := by
  constructor
  · intro accepts floating nonempty
    obtain ⟨q, quantized, _⟩ := quantizeTensor_spec (F := ℚ) shape accepts floating nonempty
    exact ⟨q, quantized⟩
  · intro q quantized
    obtain ⟨accepts, _, _⟩ := accepts_of_quantizeTensor shape quantized
    obtain ⟨codes, restored, codesOk, restoredOk, codesShape, restoredShape, codesData,
      restoredData⟩ := dequantize_quantizeTensor shape quantized
        fun group _ => codesFit accepts.bits_cases group
    refine ⟨codes, restored, codesOk, restoredOk, codesShape, restoredShape, ?_⟩
    intro index inside
    have total : x.data.length =
        front.prod * (width / groupSize.toNat) * groupSize.toNat := by
      rw [x.size_eq, shape, List.prod_append, List.prod_singleton, Nat.mul_assoc,
        Nat.div_mul_cancel accepts.group_dvd]
    constructor
    · rw [codesData, groupAt_flatMap inside]
      · exact coded_groupCodes accepts.bits_cases _
      · intro group member
        rw [groupCodes_length]
        exact length_of_mem_groupsOf total member
    · intro small
      rw [restoredData, groupAt_flatMap inside]
      · exact restored_groupCodes accepts.bits_cases small
      · intro group member
        rw [List.length_map, groupCodes_length]
        exact length_of_mem_groupsOf total member

/-- Two values as one group of four-bit codes. -/
theorem quantization_error_tiny :
    ∃ q codes restored, quantizeTensor ℚ (⟨[2], [1, -1 / 2], rfl⟩ : Tensor ℚ) 4 2 = .ok q ∧
      unpackCodes q.packed q.bits 2 = .ok codes ∧ dequantizeTensor ℚ id q = .ok restored ∧
      Coded 4 [1, -1 / 2] (groupAt 2 0 codes.data) ∧
      Restored 4 [1, -1 / 2] (groupAt 2 0 restored.data) := by
  obtain ⟨returns, bounded⟩ := @quantization_error ℚ _ ⟨[2], [1, -1 / 2], rfl⟩ [] 2 rfl 4 2
  obtain ⟨q, quantized⟩ := returns ⟨Or.inr rfl, by decide, by decide, by decide⟩ rfl (by decide)
  obtain ⟨codes, restored, codesOk, restoredOk, _, _, groups⟩ := bounded q quantized
  obtain ⟨coded, small⟩ := groups 0 (by decide)
  exact ⟨q, codes, restored, quantized, codesOk, restoredOk, coded,
    small (by decide +kernel)⟩

end Quant

end KVSSD

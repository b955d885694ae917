import KVSSD.QuantError
import KVSSD.VllmRoundTrip

/-!
# Which blocks stay finite

Two casts narrow on the way through a record: the scales to half precision, and the
restored values to the type of the block.  The first overflows for values that are large
against the steps of the width; the second only for four-bit half-precision blocks, where
the stored scale of the largest values is rounded up.
-/

namespace KVSSD

open KVSSD.Python KVSSD.Struct KVSSD.Quant

namespace Half

variable {magnitude : ℚ}

theorem ulp_eq_eight (above : 8192 ≤ magnitude) (below : magnitude < 16384) :
    Binary.binary16.ulp magnitude = 8 := by
  have binade : Binary.binary16.binade magnitude = 27 := by
    apply Binary.Format.binade_eq
    · decide
    · norm_num [Binary.Format.unit, Binary.binary16]
      exact above
    · norm_num [Binary.Format.unit, Binary.binary16]
      exact below
  rw [Binary.Format.ulp, binade]
  norm_num [Binary.Format.unit, Binary.binary16]

theorem toRat_ofRat_eq (nonnegative : 0 ≤ magnitude) (small : magnitude < 65520) :
    toRat (ofRat magnitude) =
      Binary.roundEven (magnitude / Binary.binary16.ulp magnitude) *
        Binary.binary16.ulp magnitude := by
  unfold toRat
  rw [toNat_ofRat]
  apply Binary.Format.toRat_ofRat (by decide) nonnegative
  rwa [limit_eq]

theorem seven_le (above : 9356 ≤ magnitude) (small : magnitude < 65520) :
    65520 ≤ 7 * toRat (ofRat magnitude) := by
  by_cases near : magnitude < 16384
  · rw [toRat_ofRat_eq (by linarith) small, ulp_eq_eight (by linarith) near]
    have tie : Binary.roundEven (2339 / 2) = 1170 := by decide +kernel
    have ordered : (2339 / 2 : ℚ) ≤ magnitude / 8 := by linarith
    have rounded : (1170 : ℤ) ≤ Binary.roundEven (magnitude / 8) :=
      tie ▸ Binary.roundEven_mono ordered
    have rational : (1170 : ℚ) ≤ Binary.roundEven (magnitude / 8) := by exact_mod_cast rounded
    linarith
  · have error := abs_sub_toRat_ofRat (by linarith) small
    have relative : max (magnitude / 2 ^ 11) (1 / 2 ^ 25) = magnitude / 2 ^ 11 := by
      apply max_eq_left
      rw [div_le_div_iff₀ (by norm_num) (by norm_num)]
      linarith
    rw [relative, abs_le] at error
    linarith [error.2]

theorem seven_lt (nonnegative : 0 ≤ magnitude) (below : magnitude < 9356) :
    7 * toRat (ofRat magnitude) < 65520 := by
  by_cases near : 8192 ≤ magnitude
  · rw [toRat_ofRat_eq nonnegative (by linarith), ulp_eq_eight near (by linarith)]
    have quotient : magnitude / 8 < 2339 / 2 := by linarith
    have error := abs_le.mp (Binary.abs_sub_roundEven (magnitude / 8))
    have rational : (Binary.roundEven (magnitude / 8) : ℚ) < (1170 : ℤ) := by
      push_cast
      linarith [error.1]
    have rounded : (Binary.roundEven (magnitude / 8) : ℚ) ≤ (1169 : ℤ) := by
      exact_mod_cast Int.le_of_lt_add_one (Int.cast_lt.mp rational)
    push_cast at rounded
    linarith
  · have error := abs_sub_toRat_ofRat nonnegative (by linarith)
    have coarse : max (magnitude / 2 ^ 11) (1 / 2 ^ 25) ≤ 4 := by
      apply max_le
      · linarith
      · norm_num
    linarith [(abs_le.mp (error.trans coarse)).1]

end Half

section Group

variable {bits : Int} {group : List ℚ} {bound : ℚ}

theorem groupScale_lt_iff (widths : bits = 2 ∨ bits = 4) (nonempty : group ≠ [])
    (positive : 1 / 10 ^ 8 < bound * steps bits) :
    groupScale bits group < bound ↔ ∀ value ∈ group, |value| < bound * steps bits := by
  rw [groupScale_eq, div_lt_iff₀ (steps_pos widths), max_lt_iff]
  constructor
  · rintro ⟨below, _⟩ value member
    exact lt_of_le_of_lt (le_amax (List.mem_map_of_mem member)) below
  · intro each
    refine ⟨?_, positive⟩
    obtain ⟨value, member, same⟩ := List.mem_map.mp
      (amax_mem (show group.map (fun item => |item|) ≠ [] by simpa using nonempty))
    rw [← same]
    exact each value member

theorem exists_quantum_eq_steps (widths : bits = 2 ∨ bits = 4) (nonempty : group ≠ [])
    (large : ∃ value ∈ group, 1 / 10 ^ 8 ≤ |value|) :
    ∃ value ∈ group, |quantum bits group value| = steps bits := by
  obtain ⟨value, member, same⟩ := List.mem_map.mp
    (amax_mem (show group.map (fun item => |item|) ≠ [] by simpa using nonempty))
  obtain ⟨other, otherMember, otherLarge⟩ := large
  have dominant : 1 / 10 ^ 8 ≤ |value| := by
    rw [same]
    exact otherLarge.trans (le_amax (List.mem_map_of_mem otherMember))
  have positive := groupScale_pos widths group
  have scaled : |value| = steps bits * groupScale bits group := by
    rw [groupScale_eq, ← same, max_eq_left dominant, mul_div_cancel₀ _ (steps_pos widths).ne']
  refine ⟨value, member, ?_⟩
  have stepsNonneg : 0 ≤ steps bits := by exact_mod_cast (steps_pos widths).le
  unfold quantum
  rcases abs_choice value with nonneg | negative
  · rw [nonneg] at scaled
    rw [scaled, mul_div_cancel_right₀ _ positive.ne', Binary.roundEven_intCast]
    exact abs_of_nonneg stepsNonneg
  · have opposite : value = (-steps bits : ℤ) * groupScale bits group := by
      push_cast
      rw [neg_mul, ← scaled, negative, neg_neg]
    rw [opposite, mul_div_cancel_right₀ _ positive.ne', Binary.roundEven_intCast, abs_neg]
    exact abs_of_nonneg stepsNonneg

/-- Where blocks stop being finite: the scale overflows, or for half-precision blocks of
four bits the largest restored value. -/
def largest (bits : Int) (dtype : Dtype) : ℚ :=
  if dtype = .float16 ∧ bits = 4 then 65492 else 65520 * steps bits

theorem storedScale_lt (widths : bits = 2 ∨ bits = 4) (small : groupScale bits group < 65520) :
    Half.toRat (storedScale bits group) < 65520 := by
  change Half.toRat (Half.ofRat _) < _
  unfold Half.toRat
  rw [Half.toNat_ofRat]
  have below := @Binary.Format.toRat_ofRat_lt_limit Binary.binary16 (groupScale bits group)
    (by decide) (groupScale_pos widths group).le (by rwa [Half.limit_eq])
  rwa [Half.limit_eq] at below

theorem wide_limit {dtype : Dtype} (wide : dtype ≠ .float16) :
    7 * 65520 < dtype.format.limit := by
  cases dtype with
  | float16 => exact absurd rfl wide
  | bfloat16 =>
      norm_num [Dtype.format, Binary.Format.limit, Binary.Format.unit, Binary.Format.top,
        Binary.bfloat16]
  | float32 =>
      norm_num [Dtype.format, Binary.Format.limit, Binary.Format.unit, Binary.Format.top,
        Binary.binary32]

theorem reconstruct_finite {dtype : Dtype} (widths : bits = 2 ∨ bits = 4)
    (roomy : ¬ (dtype = .float16 ∧ bits = 4)) (small : groupScale bits group < 65520)
    {value : ℚ} (member : value ∈ group) :
    |reconstruct bits group value| < dtype.format.limit := by
  have scale := storedScale_lt widths small
  have nonneg := storedScale_nonneg widths small
  have bounded := abs_reconstruct_le widths small member
  by_cases half : dtype = .float16
  · rcases steps_cases widths with ⟨_, one⟩ | ⟨four, _⟩
    · rw [one, Int.cast_one, one_mul] at bounded
      rw [half]
      change _ < Binary.binary16.limit
      rw [Half.limit_eq]
      exact lt_of_le_of_lt bounded scale
    · exact absurd ⟨half, four⟩ roomy
  · apply lt_trans _ (wide_limit half)
    rcases steps_cases widths with ⟨_, one⟩ | ⟨_, seven⟩
    · rw [one] at bounded
      push_cast at bounded
      linarith
    · rw [seven] at bounded
      push_cast at bounded
      linarith

/-- A group has a finite scale and finite restored values exactly when its values are
bounded. -/
theorem group_finite_iff (dtype : Dtype) (widths : bits = 2 ∨ bits = 4) (nonempty : group ≠ []) :
    (groupScale bits group < 65520 ∧
        ∀ value ∈ group, |reconstruct bits group value| < dtype.format.limit) ↔
      ∀ value ∈ group, |value| < largest bits dtype := by
  have stepsPos := steps_pos widths
  by_cases tight : dtype = .float16 ∧ bits = 4
  · obtain ⟨rfl, rfl⟩ := tight
    have seven : steps 4 = 7 := rfl
    have scaleIff := groupScale_lt_iff (Or.inr rfl) nonempty
      (show (1 / 10 ^ 8 : ℚ) < 9356 * steps 4 by rw [seven]; norm_num)
    have product : (9356 : ℚ) * steps 4 = largest 4 .float16 := by
      rw [seven, largest, if_pos ⟨rfl, rfl⟩]
      norm_num
    rw [product] at scaleIff
    rw [← scaleIff]
    change (_ ∧ ∀ value ∈ group, _ < Binary.binary16.limit) ↔ _
    rw [Half.limit_eq]
    constructor
    · rintro ⟨small, restored⟩
      by_contra reached
      have above := not_lt.mp reached
      have largeValue : ∃ value ∈ group, 1 / 10 ^ 8 ≤ |value| := by
        by_contra none
        push Not at none
        apply reached
        rw [scaleIff]
        intro value member
        apply lt_trans (none value member)
        rw [← product, seven]
        norm_num
      obtain ⟨value, member, extreme⟩ :=
        exists_quantum_eq_steps (Or.inr rfl) nonempty largeValue
      have finite := restored value member
      have rational : |(quantum 4 group value : ℚ)| = 7 := by
        rw [← Int.cast_abs, extreme, seven]
        norm_num
      rw [abs_reconstruct (Or.inr rfl) small, rational] at finite
      exact absurd finite (not_lt.mpr (Half.seven_le above small))
    · intro below
      have small : groupScale 4 group < 65520 := lt_trans below (by norm_num)
      refine ⟨small, ?_⟩
      intro value member
      apply lt_of_le_of_lt (abs_reconstruct_le (Or.inr rfl) small member)
      rw [seven]
      exact_mod_cast Half.seven_lt (groupScale_pos (Or.inr rfl) group).le below
  · have scaleIff := @groupScale_lt_iff bits group 65520 widths nonempty (by
      rcases steps_cases widths with ⟨_, one⟩ | ⟨_, seven⟩
      · rw [one]
        norm_num
      · rw [seven]
        norm_num)
    rw [largest, if_neg tight, ← scaleIff]
    constructor
    · rintro ⟨small, _⟩
      exact small
    · intro small
      refine ⟨small, ?_⟩
      intro value member
      exact reconstruct_finite widths tight small member

end Group

/-- The items of a buffer are finite numbers. -/
def FiniteItems (dtype : Dtype) (bytes : Bytes) : Prop :=
  ∃ items, flatTensor dtype bytes = .ok items ∧
    ∀ item ∈ items.data, dtype.format.IsFinite (leNat item.bytes)

/-- The scales at the head of the payload of a record are finite numbers. -/
def FiniteScales (raw : Bytes) : Prop :=
  ∃ scales, halvesOf ((raw.drop VllmRecord.headerSize).take
      ((VllmHeader.read raw).elements / (VllmHeader.read raw).groupSize * 2)) = .ok scales ∧
    ∀ scale ∈ scales, Binary.binary16.IsFinite scale.toNat

theorem flatTensor_flatMap {dtype : Dtype} {items : List (Item dtype)} (nonempty : items ≠ [])
    (sized : ∀ item ∈ items, item.bytes.length = dtype.itemSize) :
    flatTensor dtype (items.flatMap Item.bytes) = .ok (Tensor.ofList items) := by
  have length := length_flatMap_bytes sized
  have quotient : (items.flatMap Item.bytes).length / dtype.itemSize = items.length := by
    rw [length, Nat.mul_div_cancel _ dtype.itemSize_pos]
  have positive : items.flatMap Item.bytes ≠ [] := by
    apply List.ne_nil_of_length_pos
    rw [length]
    exact Nat.mul_pos (List.length_pos_iff.mpr nonempty) dtype.itemSize_pos
  unfold flatTensor
  rw [if_neg (by simp [length]), if_neg positive, quotient, rows_flatMap sized, List.map_map]
  congr 2
  exact List.map_id items

theorem leNat_cast (dtype : Dtype) (value : ℚ) :
    leNat (DtypeArith.cast dtype value).bytes = dtype.format.ofRat value := by
  apply leNat_leBytes
  cases dtype with
  | float16 => exact @Binary.Format.ofRat_lt Binary.binary16 (by decide) value
  | bfloat16 => exact @Binary.Format.ofRat_lt Binary.bfloat16 (by decide) value
  | float32 => exact @Binary.Format.ofRat_lt Binary.binary32 (by decide) value

theorem isFinite_cast (dtype : Dtype) (value : ℚ) :
    dtype.format.IsFinite (leNat (DtypeArith.cast dtype value).bytes) ↔
      |value| < dtype.format.limit := by
  rw [leNat_cast]
  apply Binary.Format.isFinite_ofRat
  cases dtype <;> decide

theorem finiteItems_cast {dtype : Dtype} {values : List ℚ} (nonempty : values ≠ []) :
    FiniteItems dtype ((values.map (DtypeArith.cast dtype)).flatMap Item.bytes) ↔
      ∀ value ∈ values, |value| < dtype.format.limit := by
  have sized : ∀ item ∈ values.map (DtypeArith.cast dtype),
      item.bytes.length = dtype.itemSize := by
    intro item member
    obtain ⟨value, _, rfl⟩ := List.mem_map.mp member
    exact DtypeArith.cast_length dtype value
  have viewed := flatTensor_flatMap (by simpa using nonempty) sized
  constructor
  · rintro ⟨items, itemsOk, finite⟩ value member
    obtain rfl := Except.ok.inj (viewed.symm.trans itemsOk)
    exact (isFinite_cast dtype value).mp (finite _ (List.mem_map_of_mem member))
  · intro below
    refine ⟨_, viewed, ?_⟩
    intro item member
    obtain ⟨value, valueMember, rfl⟩ := List.mem_map.mp member
    exact (isFinite_cast dtype value).mpr (below value valueMember)

theorem isFinite_storedScale {bits : Int} (widths : bits = 2 ∨ bits = 4) (group : List ℚ) :
    Binary.binary16.IsFinite (storedScale bits group).toNat ↔ groupScale bits group < 65520 := by
  change Binary.binary16.IsFinite (Half.ofRat (groupScale bits group)).toNat ↔ _
  rw [Half.toNat_ofRat, Binary.Format.isFinite_ofRat (by decide), Half.limit_eq,
    abs_of_pos (groupScale_pos widths group)]

section Block

variable {crc32 : Bytes → UInt32} {view record : Bytes} {bits groupSize : Int} {dtype : Dtype}
  {count : Nat} {values : Tensor (Item dtype)} {q : QuantizedTensor} {fields : Bytes}

theorem finiteScales_iff
    (encodes : Encodes ℚ crc32 view bits groupSize dtype record count values q fields) :
    FiniteScales record ↔
      ∀ scale ∈ q.scales.data, Binary.binary16.IsFinite scale.toNat := by
  obtain ⟨_, header⟩ := encodes.header_read
  obtain ⟨_, payload⟩ := encodes.payload_read
  obtain ⟨scalesTake, _, scalesLength, packedLength, _⟩ := encodes.sections
  have inside : count / groupSize.toNat * 2 ≤ (vllmPayload q).length := by
    rw [vllmPayload, List.length_append, scalesLength]
    exact Nat.le_add_right _ _
  rw [Nat.cast_add, pySlice_count] at payload
  have head : (record.drop VllmRecord.headerSize).take (count / groupSize.toNat * 2) =
      q.scales.data.flatMap halfBytes := by
    rw [← Nat.min_eq_left inside, ← List.take_take, payload, scalesTake]
    rfl
  unfold FiniteScales
  rw [header]
  simp only [head, halvesOf_flatMap]
  constructor
  · rintro ⟨scales, same, finite⟩
    rw [Except.ok.inj same]
    exact finite
  · intro finite
    exact ⟨_, rfl, finite⟩

/-- The groups of an encoded block, what is stored of them and what they become. -/
theorem groups_of_encodes
    (encodes : Encodes ℚ crc32 view bits groupSize dtype record count values q fields) :
    ∃ (groups : List (List ℚ)) (exact : Tensor ℚ), (∀ group ∈ groups, group ≠ []) ∧
      groups.flatten = values.data.map (DtypeArith.ofItem dtype) ∧
      q.scales.data = groups.map (storedScale bits) ∧
      dequantizeTensor ℚ id q = .ok exact ∧
      exact.data = groups.flatMap fun group => group.map (reconstruct bits group) := by
  obtain ⟨accepts, _⟩ := quantizeTensor_flat encodes.shape encodes.quantized
  have front : values.shape = [] ++ [count] := encodes.shape
  obtain ⟨other, otherOk, _, _, _, scalesData, _⟩ :=
    quantizeTensor_spec (F := ℚ) front accepts rfl (by simp)
  obtain rfl := Except.ok.inj (otherOk.symm.trans encodes.quantized)
  obtain ⟨_, exact, _, exactOk, _, _, _, exactData⟩ :=
    dequantize_quantizeTensor front encodes.quantized
      fun group _ => codesFit accepts.bits_cases group
  have total : values.data.length =
      ([] : List Nat).prod * (count / groupSize.toNat) * groupSize.toNat := by
    rw [values.size_eq, front, List.nil_append, List.prod_singleton, List.prod_nil, Nat.one_mul,
      Nat.div_mul_cancel accepts.group_dvd]
  refine ⟨_, exact, ?_, ?_, scalesData, exactOk, ?_⟩
  · intro group member
    apply List.ne_nil_of_length_pos
    rw [length_of_mem_groupsOf total member]
    exact Int.lt_toNat.mpr accepts.group_pos
  · apply rows_flatten
    rw [List.length_map]
    exact total
  · rw [exactData]
    apply List.flatMap_congr
    intro group _
    exact map_codeValue accepts.bits_cases group

/-- A block stays finite exactly when its values are bounded: its scales are finite numbers,
and decoding its record leaves finite numbers in every destination of its size. -/
theorem block_stays_finite (crc32 : Bytes → UInt32) {view record : Bytes}
    {bits groupSize : Int} {dtype : Dtype} {values : Tensor (Item dtype)}
    (encoded : encodeVllmBlock ℚ crc32 view bits groupSize dtype = .ok record)
    (viewed : flatTensor dtype view = .ok values) :
    (FiniteScales record ∧ ∀ destination, destination.length = view.length →
        ∃ info restored, (decodeVllmBlockInto ℚ crc32 record).outcome destination =
          (.ok info, restored) ∧ FiniteItems dtype restored) ↔
      ∀ item ∈ values.data, |DtypeArith.ofItem (F := ℚ) dtype item| < largest bits dtype := by
  obtain ⟨count, other, q, fields, encodes⟩ := encodeVllmBlock_inv encoded
  obtain rfl := Except.ok.inj (encodes.viewed.symm.trans viewed)
  obtain ⟨accepts, _⟩ := quantizeTensor_flat encodes.shape encodes.quantized
  obtain ⟨groups, exact, nonempty, flat, scalesData, exactOk, exactData⟩ :=
    groups_of_encodes encodes
  have restoredOk := dequantizeTensor_cast (DtypeArith.cast dtype) exactOk
  have decodes {destination : Bytes} (same : destination.length = view.length) :
      ∃ info, (decodeVllmBlockInto ℚ crc32 record).outcome destination =
        (.ok info, (exact.data.map (DtypeArith.cast dtype)).flatMap Item.bytes) := by
    obtain ⟨target, targetOk, targetShape⟩ := flatTensor_of_length
      (same.trans encodes.length) encodes.count_pos
    have targetLength : target.data.length = count := by
      rw [target.size_eq, targetShape, List.prod_singleton]
    rw [decodeVllmBlockInto_outcome, encodes.decode_eq restoredOk, targetOk, ok_bind,
      if_neg (not_ne_iff.mpr targetLength)]
    exact ⟨_, rfl⟩
  have filled : exact.data ≠ [] := by
    have shape := originalShape_of_dequantizeTensor exactOk
    obtain ⟨_, _, _, original, _⟩ := quantizeTensor_flat encodes.shape encodes.quantized
    apply List.ne_nil_of_length_pos
    rw [exact.size_eq, shape, original, List.prod_singleton]
    exact encodes.count_pos
  have scales : FiniteScales record ↔ ∀ group ∈ groups, groupScale bits group < 65520 := by
    rw [finiteScales_iff encodes, scalesData, List.forall_mem_map]
    exact forall₂_congr fun group _ => isFinite_storedScale accepts.bits_cases group
  have restored : (∀ destination, destination.length = view.length →
      ∃ info restored, (decodeVllmBlockInto ℚ crc32 record).outcome destination =
        (.ok info, restored) ∧ FiniteItems dtype restored) ↔
      ∀ group ∈ groups, ∀ value ∈ group,
        |reconstruct bits group value| < dtype.format.limit := by
    have items := @finiteItems_cast dtype _ filled
    have members : (∀ value ∈ exact.data, |value| < dtype.format.limit) ↔
        ∀ group ∈ groups, ∀ value ∈ group,
          |reconstruct bits group value| < dtype.format.limit := by
      rw [exactData]
      simp only [List.forall_mem_flatMap, List.forall_mem_map]
    rw [← members, ← items]
    constructor
    · intro each
      obtain ⟨info, restored, decoded, finite⟩ := each view rfl
      obtain ⟨_, decodedAgain⟩ := decodes (rfl : view.length = view.length)
      rw [decodedAgain] at decoded
      rw [(Prod.mk.inj decoded).2]
      exact finite
    · intro finite destination same
      obtain ⟨info, decoded⟩ := decodes same
      exact ⟨info, _, decoded, finite⟩
  have bounded : (∀ item ∈ other.data, |DtypeArith.ofItem (F := ℚ) dtype item| <
      largest bits dtype) ↔
      ∀ group ∈ groups, ∀ value ∈ group, |value| < largest bits dtype := by
    rw [← List.forall_mem_map (P := fun value => |value| < largest bits dtype), ← flat]
    simp only [List.mem_flatten]
    constructor
    · intro each group groupMember value member
      exact each value ⟨group, groupMember, member⟩
    · rintro each value ⟨group, groupMember, member⟩
      exact each group groupMember value member
  rw [scales, restored, bounded, ← forall₂_and]
  exact forall₂_congr fun group member =>
    group_finite_iff dtype accepts.bits_cases (nonempty group member)

end Block

/-- The values 1 and -1 as four-bit half-precision block. -/
theorem block_stays_finite_tiny :
    ∃ record, encodeVllmBlock ℚ Zlib.crc32 [0, 60, 0, 188] 4 2 .float16 = .ok record ∧
      FiniteScales record ∧ ∀ destination, destination.length = 4 →
        ∃ info restored, (decodeVllmBlockInto ℚ Zlib.crc32 record).outcome destination =
          (.ok info, restored) ∧ FiniteItems .float16 restored := by
  have accepts : Accepts 4 2 2 := ⟨Or.inr rfl, by decide, by decide, by decide⟩
  obtain ⟨record, encoded, _⟩ := @exists_encodeVllmBlock [0, 60, 0, 188] 4 2 .float16 2 ℚ _ _
    Zlib.crc32 accepts (by decide) (by decide) (by decide) (by decide)
  have viewed : flatTensor .float16 [0, 60, 0, 188] =
      .ok ⟨[2], [⟨[0, 60]⟩, ⟨[0, 188]⟩], rfl⟩ := rfl
  obtain ⟨scales, decoded⟩ := (block_stays_finite Zlib.crc32 encoded viewed).mpr
    (by decide +kernel)
  exact ⟨record, encoded, scales, decoded⟩

/-- The largest half-precision number is stored with a scale that was rounded up, and comes
back as an infinity. -/
theorem finite_block_overflows :
    ¬ ∀ (view record : Bytes) (bits groupSize : Int) (dtype : Dtype),
      encodeVllmBlock ℚ Zlib.crc32 view bits groupSize dtype = .ok record →
      FiniteItems dtype view →
      FiniteScales record ∧ ∀ destination, destination.length = view.length →
        ∃ info restored, (decodeVllmBlockInto ℚ Zlib.crc32 record).outcome destination =
          (.ok info, restored) ∧ FiniteItems dtype restored := by
  intro claim
  have computed : (encodeVllmBlock ℚ Zlib.crc32 [255, 123, 0, 0] 4 2 .float16).toOption.map
      (fun record => ((decodeVllmBlockInto ℚ Zlib.crc32 record).outcome [0, 0, 0, 0]).2) =
        some [0, 124, 0, 0] := by
    decide +kernel
  obtain ⟨record, encoded, overwritten⟩ := Option.map_eq_some_iff.mp computed
  cases result : encodeVllmBlock ℚ Zlib.crc32 [255, 123, 0, 0] 4 2 .float16 with
  | error raised =>
      rw [result] at encoded
      cases encoded
  | ok other =>
      rw [result] at encoded
      obtain rfl := Option.some.inj encoded
      obtain ⟨_, decoded⟩ := claim _ _ _ _ _ result ⟨_, rfl, by decide⟩
      obtain ⟨info, restored, outcome, items, viewed, finite⟩ := decoded [0, 0, 0, 0] rfl
      rw [outcome] at overwritten
      change restored = _ at overwritten
      subst overwritten
      obtain rfl := Except.ok.inj viewed
      exact absurd (finite ⟨[0, 124]⟩ List.mem_cons_self) (by decide)

end KVSSD

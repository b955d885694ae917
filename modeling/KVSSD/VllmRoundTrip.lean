import KVSSD.RecordRoundTrip
import KVSSD.VllmDecode

/-!
# The round trip of a vLLM block

`encode_vllm_block` succeeds on every block of whole groups, and its record decodes into
destinations of the size of the block and into no others.
-/

namespace KVSSD

open KVSSD.Python KVSSD.Struct KVSSD.Quant

theorem Quant.Accepts.packed_bytes {bits groupSize : Int} {width : Nat}
    (accepts : Accepts bits groupSize width) :
    width * bits.toNat / 8 = width / perByte bits := by
  rcases accepts.bits_cases with two | four
  · rw [two]
    change width * 2 / 8 = width / 4
    omega
  · rw [four]
    change width * 4 / 8 = width / 2
    omega

theorem padded_length (record : Bytes) :
    record.length ≤ (record ++ List.replicate
        (alignUp record.length Format.alignment - record.length).toNat 0).length ∧
      4096 ∣ (record ++ List.replicate
        (alignUp record.length Format.alignment - record.length).toNat 0).length := by
  obtain ⟨lower, _, divides⟩ := CacheSpec.alignUp_spec record.length
  have total : ((record ++ List.replicate
      (alignUp record.length Format.alignment - record.length).toNat 0).length : Int) =
        alignUp record.length Format.alignment := by
    rw [List.length_append, List.length_replicate]
    omega
  constructor
  · omega
  · rw [← total] at divides
    exact_mod_cast divides

section RoundTrip

variable {F : Type} [arith : QuantArith F] [formats : DtypeArith F] {crc32 : Bytes → UInt32}
  {view record : Bytes} {bits groupSize : Int} {dtype : Dtype} {count : Nat}

theorem fits_vllmHeaderFields (crc32 : Bytes → UInt32) (dtype : Dtype) {q : QuantizedTensor}
    (accepts : Accepts bits groupSize count)
    (groupBound : groupSize < 2 ^ 32) (countBound : count < 2 ^ 32)
    (size : (vllmPayload q).length = count / groupSize.toNat * 2 + count * bits.toNat / 8) :
    Fits (vllmHeaderFields crc32 q bits groupSize dtype count) := by
  have groups : count / groupSize.toNat ≤ count := Nat.div_le_self _ _
  have checksum := (crc32 (vllmPayload q)).toNat_lt
  have code : dtype.code < 256 := by cases dtype <;> decide
  have codes : count * bits.toNat / 8 ≤ count := by
    rw [accepts.packed_bytes]
    exact Nat.div_le_self _ _
  have positive := accepts.group_pos
  have bitsBound : 0 ≤ bits ∧ bits < 256 := by
    rcases accepts.bits_cases with two | four
    · omega
    · omega
  unfold vllmHeaderFields
  simp only [VllmRecord.headerWidths, List.zip_cons_cons, List.zip_nil_left, fits_cons]
  refine ⟨by omega, by omega, by omega, by omega, by omega, by omega, by omega, by omega, ?_⟩
  intro field member
  cases member

/-- Blocks of whole groups encode, to whole sectors. -/
theorem exists_encodeVllmBlock (F : Type) [arith : QuantArith F] [formats : DtypeArith F]
    (crc32 : Bytes → UInt32) (accepts : Accepts bits groupSize count) (nonempty : view ≠ [])
    (length : view.length = count * dtype.itemSize) (groupBound : groupSize < 2 ^ 32)
    (countBound : count < 2 ^ 32) :
    ∃ record, encodeVllmBlock F crc32 view bits groupSize dtype = .ok record ∧
      0 < record.length ∧ 4096 ∣ record.length := by
  have countPos : 0 < count := by
    apply Nat.pos_of_ne_zero
    rintro rfl
    rw [Nat.zero_mul] at length
    exact nonempty (List.length_eq_zero_iff.mp length)
  obtain ⟨values, viewed, shape⟩ := flatTensor_of_length length countPos
  have size : values.data.length = count := by rw [values.size_eq, shape, List.prod_singleton]
  have front : values.shape = [] ++ [count] := shape
  obtain ⟨q, quantized, packedShape, _, scalesShape, _⟩ :=
    quantizeTensor_spec (F := F) front accepts rfl (by simp)
  have payloadLength : (vllmPayload q).length =
      count / groupSize.toNat * 2 + count * bits.toNat / 8 := by
    rw [vllmPayload, List.length_append, scalesBytes_length, scalesShape, q.packed.size_eq,
      packedShape]
    simp only [List.nil_append, List.prod_singleton, accepts.packed_bytes]
    omega
  have remainder : pyMod values.data.length groupSize = .ok 0 := by
    have divides := pyMod_of_dvd (Int.lt_toNat.mpr accepts.group_pos) accepts.group_dvd
    rw [Int.toNat_of_nonneg (Int.le_of_lt accepts.group_pos)] at divides
    rw [size]
    exact divides
  obtain ⟨fields, packed, fieldsLength, _⟩ := packFields_of_fits
    (fits_vllmHeaderFields crc32 dtype accepts groupBound countBound payloadLength)
  unfold encodeVllmBlock
  rw [viewed, ok_bind, remainder, ok_bind, if_neg (by omega), quantized, ok_bind, size, packed,
    ok_bind]
  obtain ⟨lower, divides⟩ := padded_length (VllmRecord.magic ++ fields ++ vllmPayload q)
  refine ⟨_, rfl, ?_, divides⟩
  apply Nat.lt_of_lt_of_le _ lower
  rw [List.append_assoc, List.length_append]
  exact Nat.add_pos_left (by decide) _

/-- Encoding a block of whole groups and decoding its record.  The restored bytes are the
block quantized, dequantized and cast back; a destination of another size is refused and
kept. -/
theorem vllm_round_trip (F : Type) [arith : QuantArith F] [formats : DtypeArith F]
    (crc32 : Bytes → UInt32) {view : Bytes} {bits groupSize : Int} (dtype : Dtype)
    {count : Nat} (accepts : Accepts bits groupSize count) (nonempty : view ≠ [])
    (length : view.length = count * dtype.itemSize) (groupBound : groupSize < 2 ^ 32)
    (countBound : count < 2 ^ 32) :
    ∃ record restored, encodeVllmBlock F crc32 view bits groupSize dtype = .ok record ∧
      0 < record.length ∧ 4096 ∣ record.length ∧
      requantized F view bits groupSize dtype = .ok restored ∧
      restored.length = view.length ∧
      (∀ destination, destination.length = view.length →
        (decodeVllmBlockInto F crc32 record).outcome destination =
          (.ok ⟨bits.toNat, groupSize.toNat, dtype, count,
            count / groupSize.toNat * 2 + count * bits.toNat / 8⟩, restored)) ∧
      ∀ destination, destination.length ≠ view.length →
        ∃ raised, (decodeVllmBlockInto F crc32 record).outcome destination =
          (.error raised, destination) := by
  obtain ⟨record, encoded, positive, divides⟩ := exists_encodeVllmBlock F crc32 accepts
    nonempty length groupBound countBound
  obtain ⟨other, values, q, fields, encodes⟩ := encodeVllmBlock_inv encoded
  obtain rfl : other = count :=
    Nat.eq_of_mul_eq_mul_right dtype.itemSize_pos (encodes.length.symm.trans length)
  obtain ⟨restored, restoredOk, requantizedOk, restoredLength⟩ := encodes.dequantized
  obtain ⟨_, _, scalesLength, packedLength, _⟩ := encodes.sections
  have payloadLength : (vllmPayload q).length =
      other / groupSize.toNat * 2 + other * bits.toNat / 8 := by
    rw [vllmPayload, List.length_append, scalesLength, packedLength]
  refine ⟨record, _, encoded, positive, divides, requantizedOk, restoredLength, ?_, ?_⟩
  · intro destination same
    obtain ⟨target, targetOk, targetShape⟩ := flatTensor_of_length (same.trans length)
      encodes.count_pos
    have targetLength : target.data.length = other := by
      rw [target.size_eq, targetShape, List.prod_singleton]
    rw [decodeVllmBlockInto_outcome, encodes.decode_eq restoredOk, targetOk, ok_bind,
      if_neg (not_ne_iff.mpr targetLength), payloadLength]
    rfl
  · intro destination different
    rw [decodeVllmBlockInto_outcome, encodes.decode_eq restoredOk]
    cases targeted : flatTensor dtype destination with
    | error raised => exact ⟨raised, rfl⟩
    | ok target =>
        obtain ⟨size, _, targetShape, targetLength⟩ := length_of_flatTensor targeted
        have counted : target.data.length ≠ other := by
          intro same
          apply different
          rw [targetLength, length, ← same, target.size_eq, targetShape, List.prod_singleton]
        rw [ok_bind, if_pos counted]
        exact ⟨_, rfl⟩

end RoundTrip

/-- The values 1, -1, 0 and 2 as one group of two-bit codes. -/
theorem vllm_round_trip_tiny :
    ∃ record restored, encodeVllmBlock ℚ Zlib.crc32 [0, 60, 0, 188, 0, 0, 0, 64] 2 4
        .float16 = .ok record ∧
      (decodeVllmBlockInto ℚ Zlib.crc32 record).outcome [9, 9, 9, 9, 9, 9, 9, 9] =
        (.ok ⟨2, 4, .float16, 4, 3⟩, restored) ∧
      ∃ raised, (decodeVllmBlockInto ℚ Zlib.crc32 record).outcome [9, 9] =
        (.error raised, [9, 9]) := by
  have accepts : Accepts 2 4 4 := ⟨Or.inl rfl, by decide, by decide, by decide⟩
  obtain ⟨record, restored, encoded, _, _, _, _, decoded, refused⟩ :=
    @vllm_round_trip ℚ _ _ Zlib.crc32 [0, 60, 0, 188, 0, 0, 0, 64] 2 4 .float16 4 accepts
      (by decide) (by decide) (by decide) (by decide)
  exact ⟨record, restored, encoded, decoded _ (by decide), refused _ (by decide)⟩

end KVSSD

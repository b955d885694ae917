import KVSSD.DequantLayout
import KVSSD.Exact
import KVSSD.QuantLayout

/-!
# The record codec of the vLLM tier

`encode_vllm_block` and `decode_vllm_block`.  A record is a 32-byte header, the
scales and the packed codes of one quantized block, padded with zeros to the next
multiple of 4096.
-/

namespace KVSSD

open KVSSD.Python KVSSD.Struct KVSSD.Quant

inductive Dtype where
  | float16
  | bfloat16
  | float32
  deriving DecidableEq, Repr

namespace Dtype

def name : Dtype → String
  | float16 => "torch.float16"
  | bfloat16 => "torch.bfloat16"
  | float32 => "torch.float32"

def itemSize : Dtype → Nat
  | float16 => 2
  | bfloat16 => 2
  | float32 => 4

/-- `_DTYPE_TO_CODE`. -/
def code : Dtype → Nat
  | float16 => 1
  | bfloat16 => 2
  | float32 => 3

/-- `_CODE_TO_DTYPE`. -/
def ofCode : Nat → Option Dtype
  | 1 => some float16
  | 2 => some bfloat16
  | 3 => some float32
  | _ => none

@[simp] theorem ofCode_code (dtype : Dtype) : ofCode dtype.code = some dtype := by
  cases dtype <;> rfl

theorem itemSize_pos (dtype : Dtype) : 0 < dtype.itemSize := by
  cases dtype <;> decide

end Dtype

/-- One item of a tensor of the given type, as the bytes it has in memory. -/
structure Item (dtype : Dtype) where
  bytes : Bytes

/-- Reading an item as float32 and casting a float32 to an item. -/
class DtypeArith (F : Type) where
  ofItem : (dtype : Dtype) → Item dtype → F
  cast : (dtype : Dtype) → F → Item dtype
  cast_length : ∀ dtype value, (cast dtype value).bytes.length = dtype.itemSize

instance {F : Type} [formats : DtypeArith F] {dtype : Dtype} :
    TorchElement (Item dtype) F where
  isFloatingPoint := true
  toFloat := formats.ofItem dtype
  zero := ⟨List.replicate dtype.itemSize 0⟩

/-- `torch.frombuffer` refuses an empty buffer. -/
def emptyBuffer : PyError := .valueError "both buffer length (0) and count (-1) must not be 0"

/-- `_flat_tensor`. -/
def flatTensor (dtype : Dtype) (view : Bytes) : Except PyError (Tensor (Item dtype)) :=
  if view.length % dtype.itemSize ≠ 0 then
    .error (.valueError
      s!"block byte length {view.length} is not divisible by {dtype.name}")
  else if view = [] then .error emptyBuffer
  else .ok (Tensor.ofList
    ((rows (view.length / dtype.itemSize) dtype.itemSize view).map Item.mk))

namespace VllmRecord

/-- `MAGIC`, the bytes of `KVVLLM02`. -/
def magic : Bytes := [75, 86, 86, 76, 76, 77, 48, 50]

/-- Widths of the integer fields of `HEADER`, which follow the magic. -/
def headerWidths : List Nat := [1, 1, 1, 1, 4, 4, 8, 4]

/-- `HEADER.size`. -/
def headerSize : Nat := 32

end VllmRecord

structure VllmHeader where
  magic : Bytes
  version : Nat
  bits : Nat
  dtypeCode : Nat
  groupSize : Nat
  elements : Nat
  payloadBytes : Nat
  crc : Nat
  deriving DecidableEq, Repr

/-- `HEADER.unpack_from` on a buffer that holds a whole header. -/
def VllmHeader.read (raw : Bytes) : VllmHeader :=
  let field (index : Nat) : Nat :=
    (unpackFields VllmRecord.headerWidths
      (raw.drop VllmRecord.magic.length)).getD index 0
  { magic := raw.take VllmRecord.magic.length
    version := field 0
    bits := field 1
    dtypeCode := field 2
    groupSize := field 4
    elements := field 5
    payloadBytes := field 6
    crc := field 7 }

structure VLLMRecordInfo where
  bits : Nat
  groupSize : Nat
  dtype : Dtype
  elements : Nat
  payloadBytes : Nat
  deriving DecidableEq, Repr

section Codec

variable (F : Type) [arith : QuantArith F] [formats : DtypeArith F] (crc32 : Bytes → UInt32)

def vllmPayload (quantized : QuantizedTensor) : Bytes :=
  scalesBytes quantized.scales ++ quantized.packed.data

/-- The integer fields of the header of a block, in order. -/
def vllmHeaderFields (quantized : QuantizedTensor) (bits groupSize : Int) (dtype : Dtype)
    (elements : Nat) : List (Nat × Int) :=
  VllmRecord.headerWidths.zip
    [1, bits, dtype.code, 0, groupSize, elements, (vllmPayload quantized).length,
      (crc32 (vllmPayload quantized)).toNat]

def encodeVllmBlock (view : Bytes) (bits groupSize : Int) (dtype : Dtype) :
    Except PyError Bytes := do
  let values ← flatTensor dtype view
  let remainder ← pyMod values.data.length groupSize
  if remainder ≠ 0 then
    .error (.valueError
      s!"vLLM block has {values.data.length} values, not divisible by group_size={groupSize}")
  else
    let quantized ← quantizeTensor F values bits groupSize
    let fields ← packFields
      (vllmHeaderFields crc32 quantized bits groupSize dtype values.data.length)
    let record := VllmRecord.magic ++ fields ++ vllmPayload quantized
    return record ++
      List.replicate (alignUp record.length Format.alignment - record.length).toNat 0

/-- The bytes `decode_vllm_block` leaves in the destination, and what it returns. -/
def decodeVllmBlock (raw destination : Bytes) : Except PyError (Bytes × VLLMRecordInfo) :=
  if raw.length < VllmRecord.headerSize then
    .error (.valueError "truncated KVSSD vLLM record")
  else
    let header := VllmHeader.read raw
    if header.magic ≠ VllmRecord.magic ∨ header.version ≠ 1 then
      .error (.valueError "invalid KVSSD vLLM record header")
    else
      match Dtype.ofCode header.dtypeCode with
      | none =>
          .error (.valueError s!"unsupported KVSSD vLLM dtype code {header.dtypeCode}")
      | some dtype =>
          let payload := pySlice raw VllmRecord.headerSize
            (VllmRecord.headerSize + header.payloadBytes)
          if payload.length ≠ header.payloadBytes then
            .error (.valueError "truncated KVSSD vLLM payload")
          else if (crc32 payload).toNat ≠ header.crc then
            .error (.osError "KVSSD vLLM block CRC mismatch")
          else if header.groupSize = 0 then .error .zeroDivisionError
          else
            let scaleBytes := header.elements / header.groupSize * 2
            let packedBytes := header.elements * header.bits / 8
            if scaleBytes + packedBytes ≠ header.payloadBytes then
              .error (.valueError "KVSSD vLLM payload layout is inconsistent")
            else if payload.take scaleBytes = [] then .error emptyBuffer
            else do
              let scales ← halvesOf (payload.take scaleBytes)
              if payload.drop scaleBytes = [] then .error emptyBuffer
              else
                let quantized : QuantizedTensor :=
                  ⟨Tensor.ofList (payload.drop scaleBytes), Tensor.ofList scales,
                    [header.elements], header.bits, header.groupSize⟩
                let target ← flatTensor dtype destination
                if target.data.length ≠ header.elements then
                  .error (.valueError
                    s!"destination has {target.data.length} values, record requires {header.elements}")
                else
                  let restored ← dequantizeTensor F (formats.cast dtype) quantized
                  return (restored.data.flatMap Item.bytes,
                    ⟨header.bits, header.groupSize, dtype, header.elements,
                      header.payloadBytes⟩)

/-- What a block becomes by quantization, dequantization and the cast back to its
type. -/
def requantized (view : Bytes) (bits groupSize : Int) (dtype : Dtype) :
    Except PyError Bytes := do
  let values ← flatTensor dtype view
  let quantized ← quantizeTensor F values bits groupSize
  let restored ← dequantizeTensor F (formats.cast dtype) quantized
  return restored.data.flatMap Item.bytes

end Codec

theorem flatTensor_of_length {dtype : Dtype} {view : Bytes} {count : Nat}
    (whole : view.length = count * dtype.itemSize) (positive : 0 < count) :
    ∃ values, flatTensor dtype view = .ok values ∧ values.shape = [count] := by
  have nonempty : view ≠ [] := by
    rintro rfl
    have size := Nat.mul_pos positive dtype.itemSize_pos
    simp only [List.length_nil] at whole
    omega
  have quotient : view.length / dtype.itemSize = count := by
    rw [whole, Nat.mul_div_cancel _ dtype.itemSize_pos]
  unfold flatTensor
  rw [if_neg (by simp [whole]), if_neg nonempty]
  exact ⟨_, rfl, by simp [Tensor.ofList, quotient]⟩

theorem length_of_flatTensor {dtype : Dtype} {view : Bytes} {values : Tensor (Item dtype)}
    (viewed : flatTensor dtype view = .ok values) :
    ∃ count, 0 < count ∧ values.shape = [count] ∧ view.length = count * dtype.itemSize := by
  unfold flatTensor at viewed
  split at viewed
  · cases viewed
  · rename_i whole
    split at viewed
    · cases viewed
    · rename_i nonempty
      cases viewed
      have divides : dtype.itemSize ∣ view.length := Nat.dvd_of_mod_eq_zero (by simpa using whole)
      have product := Nat.div_mul_cancel divides
      refine ⟨view.length / dtype.itemSize, ?_, by simp [Tensor.ofList], product.symm⟩
      apply Nat.div_pos (Nat.le_of_dvd (List.length_pos_iff.mpr nonempty) divides)
      exact dtype.itemSize_pos

theorem length_flatMap_bytes {dtype : Dtype} {items : List (Item dtype)}
    (sized : ∀ item ∈ items, item.bytes.length = dtype.itemSize) :
    (items.flatMap Item.bytes).length = items.length * dtype.itemSize :=
  length_flatMap_of_wide sized

theorem dequantizeTensor_cast {F E : Type} [arith : DequantArith F] (cast : F → E)
    {q : QuantizedTensor} {values : Tensor F} (exact : dequantizeTensor F id q = .ok values) :
    dequantizeTensor F cast q = .ok (values.map cast) := by
  obtain ⟨codes, codesOk, rest⟩ := bind_eq_ok.mp exact
  obtain ⟨groups, groupsOk, rest⟩ := bind_eq_ok.mp rest
  obtain ⟨scaled, scaledOk, rest⟩ := bind_eq_ok.mp rest
  obtain ⟨restored, restoredOk, result⟩ := bind_eq_ok.mp rest
  have same : restored = values := by
    have mapped := Except.ok.inj result
    rw [← mapped]
    exact Tensor.ext rfl (by simp [Tensor.map])
  unfold dequantizeTensor
  rw [codesOk, ok_bind, groupsOk, ok_bind, scaledOk, ok_bind, restoredOk, ok_bind, same]
  rfl

section RoundTrip

variable {F : Type} [arith : QuantArith F] [formats : DtypeArith F] {crc32 : Bytes → UInt32}
  {view record destination : Bytes} {bits groupSize : Int} {dtype : Dtype}

/-- What `encode_vllm_block` has done when it returns. -/
structure Encodes (F : Type) [arith : QuantArith F] [formats : DtypeArith F]
    (crc32 : Bytes → UInt32) (view : Bytes) (bits groupSize : Int) (dtype : Dtype)
    (record : Bytes) (count : Nat) (values : Tensor (Item dtype)) (q : QuantizedTensor)
    (fields : Bytes) : Prop where
  count_pos : 0 < count
  length : view.length = count * dtype.itemSize
  viewed : flatTensor dtype view = .ok values
  shape : values.shape = [count]
  quantized : quantizeTensor F values bits groupSize = .ok q
  packed : packFields (vllmHeaderFields crc32 q bits groupSize dtype count) = .ok fields
  record_eq : ∃ zeros, record = VllmRecord.magic ++ fields ++ vllmPayload q ++ zeros

theorem encodeVllmBlock_inv
    (encoded : encodeVllmBlock F crc32 view bits groupSize dtype = .ok record) :
    ∃ count values q fields,
      Encodes F crc32 view bits groupSize dtype record count values q fields := by
  obtain ⟨values, viewed, rest⟩ := bind_eq_ok.mp encoded
  obtain ⟨remainder, _, rest⟩ := bind_eq_ok.mp rest
  obtain ⟨count, positive, shape, length⟩ := length_of_flatTensor viewed
  have size : values.data.length = count := by rw [values.size_eq, shape]; simp
  split at rest
  · cases rest
  · obtain ⟨q, quantized, rest⟩ := bind_eq_ok.mp rest
    obtain ⟨fields, packed, result⟩ := bind_eq_ok.mp rest
    rw [size] at packed
    exact ⟨count, values, q, fields, positive, length, viewed, shape, quantized, packed,
      _, (Except.ok.inj result).symm⟩

theorem quantizeTensor_flat {values : Tensor (Item dtype)} {count : Nat} {q : QuantizedTensor}
    (shape : values.shape = [count])
    (quantized : quantizeTensor F values bits groupSize = .ok q) :
    Accepts bits groupSize count ∧ q.packed.shape = [count / perByte bits] ∧
      q.scales.shape = [count / groupSize.toNat] ∧ q.originalShape = [count] ∧
      q.bits = bits ∧ q.groupSize = groupSize := by
  have front : values.shape = [] ++ [count] := shape
  obtain ⟨_, validated, _⟩ := bind_eq_ok.mp quantized
  have accepts := accepts_of_validate front validated
  obtain ⟨other, otherOk, packedShape, _, scalesShape, _, original, bitsEq, groupEq⟩ :=
    quantizeTensor_spec (F := F) front accepts rfl (by simp)
  obtain rfl := Except.ok.inj (otherOk.symm.trans quantized)
  exact ⟨accepts, packedShape, scalesShape, original.trans shape, bitsEq, groupEq⟩

namespace Encodes

variable {count : Nat} {values : Tensor (Item dtype)} {q : QuantizedTensor} {fields : Bytes}
  (encodes : Encodes F crc32 view bits groupSize dtype record count values q fields)

include encodes

theorem header_read :
    fields.length = 24 ∧ VllmHeader.read record =
      ⟨VllmRecord.magic, 1, bits.toNat, dtype.code, groupSize.toNat, count,
        (vllmPayload q).length, (crc32 (vllmPayload q)).toNat⟩ := by
  obtain ⟨bytes, packed, length, reads⟩ :=
    packFields_of_fits (fits_of_packFields encodes.packed)
  obtain rfl := Except.ok.inj (packed.symm.trans encodes.packed)
  obtain ⟨zeros, recordEq⟩ := encodes.record_eq
  have fieldsRead := reads (vllmPayload q ++ zeros)
  have split : record = VllmRecord.magic ++ (bytes ++ (vllmPayload q ++ zeros)) := by
    rw [recordEq]
    simp
  refine ⟨length, ?_⟩
  unfold VllmHeader.read
  rw [split, List.drop_left, List.take_left]
  change unpackFields VllmRecord.headerWidths _ = _ at fieldsRead
  simp only [fieldsRead]
  rfl

theorem payload_read : 32 ≤ record.length ∧
    pySlice record VllmRecord.headerSize
      (VllmRecord.headerSize + (vllmPayload q).length : Nat) = vllmPayload q := by
  obtain ⟨length, _⟩ := encodes.header_read
  obtain ⟨zeros, recordEq⟩ := encodes.record_eq
  have headLength : (VllmRecord.magic ++ fields).length = VllmRecord.headerSize := by
    rw [List.length_append, length]
    rfl
  have sliced := pySlice_count record VllmRecord.headerSize (vllmPayload q).length
  push_cast
  rw [sliced, recordEq, List.append_assoc, List.drop_left' headLength,
    List.take_left' rfl]
  refine ⟨?_, rfl⟩
  rw [List.length_append, headLength]
  exact Nat.le_add_right _ _

/-- The sections of the payload and the tensor they denote. -/
theorem sections :
    (vllmPayload q).take (count / groupSize.toNat * 2) = scalesBytes q.scales ∧
      (vllmPayload q).drop (count / groupSize.toNat * 2) = q.packed.data ∧
      (scalesBytes q.scales).length = count / groupSize.toNat * 2 ∧
      q.packed.data.length = count * bits.toNat / 8 ∧ 0 < count / groupSize.toNat ∧
      0 < count * bits.toNat / 8 ∧
      (⟨Tensor.ofList q.packed.data, Tensor.ofList q.scales.data, [count], bits.toNat,
        groupSize.toNat⟩ : QuantizedTensor) = q := by
  obtain ⟨accepts, packedShape, scalesShape, original, bitsEq, groupEq⟩ :=
    quantizeTensor_flat encodes.shape encodes.quantized
  have scalesLength : (scalesBytes q.scales).length = count / groupSize.toNat * 2 := by
    rw [scalesBytes_length, scalesShape]
    simp [Nat.mul_comm]
  have packedLength : q.packed.data.length = count / perByte bits := by
    rw [q.packed.size_eq, packedShape]
    simp
  have groups : 0 < count / groupSize.toNat := by
    apply Nat.div_pos (Nat.le_of_dvd encodes.count_pos accepts.group_dvd)
    exact Int.lt_toNat.mpr accepts.group_pos
  have codes : 0 < count / perByte bits := by
    apply Nat.div_pos (Nat.le_of_dvd encodes.count_pos accepts.perByte_dvd)
    exact accepts.perByte_pos
  have bytes : count * bits.toNat / 8 = count / perByte bits := by
    rcases accepts.bits_cases with two | four
    · rw [two]
      change count * 2 / 8 = count / 4
      omega
    · rw [four]
      change count * 4 / 8 = count / 2
      omega
  have whole : (⟨Tensor.ofList q.packed.data, Tensor.ofList q.scales.data, [count],
      bits.toNat, groupSize.toNat⟩ : QuantizedTensor) = q := by
    have packedSame : Tensor.ofList q.packed.data = q.packed :=
      Tensor.ext (by simp [Tensor.ofList, packedShape, packedLength]) rfl
    have scalesSame : Tensor.ofList q.scales.data = q.scales := by
      refine Tensor.ext ?_ rfl
      have size := q.scales.size_eq
      rw [scalesShape] at size ⊢
      simpa [Tensor.ofList] using size
    have bitsNat : ((bits.toNat : Nat) : Int) = q.bits := by
      rw [bitsEq]
      rcases accepts.bits_cases with two | four
      · rw [two]
        rfl
      · rw [four]
        rfl
    have groupNat : ((groupSize.toNat : Nat) : Int) = q.groupSize := by
      rw [groupEq, Int.toNat_of_nonneg (Int.le_of_lt accepts.group_pos)]
    rw [packedSame, scalesSame, ← original, bitsNat, groupNat]
  refine ⟨?_, ?_, scalesLength, by rw [packedLength, bytes], groups, by rw [bytes]; exact codes,
    whole⟩
  · exact List.take_left' scalesLength
  · exact List.drop_left' scalesLength

/-- Dequantizing what was quantized gives a tensor of the same size. -/
theorem dequantized : ∃ restored : Tensor (Item dtype),
    dequantizeTensor F (formats.cast dtype) q = .ok restored ∧
      requantized F view bits groupSize dtype = .ok (restored.data.flatMap Item.bytes) ∧
      (restored.data.flatMap Item.bytes).length = view.length := by
  obtain ⟨accepts, packedShape, scalesShape, original, bitsEq, groupEq⟩ :=
    quantizeTensor_flat encodes.shape encodes.quantized
  have groupNat : q.groupSize = (groupSize.toNat : Nat) := by
    rw [groupEq, Int.toNat_of_nonneg (Int.le_of_lt accepts.group_pos)]
  have front : q.packed.shape = [] ++ [count / perByte bits] := packedShape
  obtain ⟨values, valuesOk, valuesShape, _⟩ := dequantizeTensor_spec (F := F)
    (by rw [bitsEq]; exact accepts.bits_valid) (by simp) front scalesShape original groupNat
    (Int.lt_toNat.mpr accepts.group_pos)
    (by rw [bitsEq]; exact (Nat.div_mul_cancel accepts.perByte_dvd).symm)
    (Nat.div_mul_cancel accepts.group_dvd).symm
  have restoredOk := dequantizeTensor_cast (formats.cast dtype) valuesOk
  refine ⟨_, restoredOk, ?_, ?_⟩
  · unfold requantized
    rw [encodes.viewed, ok_bind, encodes.quantized, ok_bind, restoredOk]
    rfl
  · have size : values.data.length = count := by rw [values.size_eq, valuesShape]; simp
    rw [length_flatMap_bytes, encodes.length]
    · simp [Tensor.map, size]
    · intro item member
      obtain ⟨value, _, rfl⟩ := List.mem_map.mp member
      exact formats.cast_length dtype value

/-- What decoding the record into any destination comes to. -/
theorem decode_eq {restored : Tensor (Item dtype)}
    (restoredOk : dequantizeTensor F (formats.cast dtype) q = .ok restored) :
    decodeVllmBlock F crc32 record destination = (do
      let target ← flatTensor dtype destination
      if target.data.length ≠ count then
        .error (.valueError
          s!"destination has {target.data.length} values, record requires {count}")
      else
        return (restored.data.flatMap Item.bytes,
          ⟨bits.toNat, groupSize.toNat, dtype, count, (vllmPayload q).length⟩)) := by
  obtain ⟨_, header⟩ := encodes.header_read
  obtain ⟨enough, payload⟩ := encodes.payload_read
  obtain ⟨scalesTake, packedDrop, scalesLength, packedLength, groups, codes, whole⟩ :=
    encodes.sections
  have groupPos : groupSize.toNat ≠ 0 := by
    rintro zero
    rw [zero, Nat.div_zero] at groups
    exact absurd groups (Nat.lt_irrefl 0)
  have total : count / groupSize.toNat * 2 + count * bits.toNat / 8 =
      (vllmPayload q).length := by
    rw [vllmPayload, List.length_append, scalesLength, packedLength]
  have scalesNonempty : scalesBytes q.scales ≠ [] := by
    apply List.ne_nil_of_length_pos
    omega
  have packedNonempty : q.packed.data ≠ [] := by
    apply List.ne_nil_of_length_pos
    omega
  unfold decodeVllmBlock
  rw [if_neg (by rw [VllmRecord.headerSize]; omega), header]
  simp only [ne_eq, not_true_eq_false, or_self, if_false, Dtype.ofCode_code]
  rw [show ((VllmRecord.headerSize : Int) + ((vllmPayload q).length : Int)) =
    ((VllmRecord.headerSize + (vllmPayload q).length : Nat) : Int) by push_cast; rfl, payload]
  simp only [not_true_eq_false, if_false, groupPos, total, scalesTake, scalesNonempty,
    packedDrop, packedNonempty]
  rw [scalesBytes, halvesOf_flatMap, ok_bind, whole, restoredOk]
  rfl

end Encodes

theorem decodeVllmBlock_encode
    (encoded : encodeVllmBlock F crc32 view bits groupSize dtype = .ok record)
    (same : destination.length = view.length) :
    ∃ restored info, requantized F view bits groupSize dtype = .ok restored ∧
      restored.length = view.length ∧
      decodeVllmBlock F crc32 record destination = .ok (restored, info) := by
  obtain ⟨count, values, q, fields, encodes⟩ := encodeVllmBlock_inv encoded
  obtain ⟨restored, restoredOk, requantizedOk, length⟩ := encodes.dequantized
  obtain ⟨target, targetOk, targetShape⟩ := flatTensor_of_length
    (same.trans encodes.length) encodes.count_pos
  have targetLength : target.data.length = count := by
    rw [target.size_eq, targetShape]
    simp
  refine ⟨_, ⟨bits.toNat, groupSize.toNat, dtype, count, (vllmPayload q).length⟩,
    requantizedOk, length, ?_⟩
  rw [encodes.decode_eq restoredOk, targetOk, ok_bind, if_neg (by simp [targetLength])]
  rfl

end RoundTrip

def Dtype.format : Dtype → Binary.Format
  | float16 => Binary.binary16
  | bfloat16 => Binary.bfloat16
  | float32 => Binary.binary32

/-- Items of finite value, read exactly and rounded when cast. -/
instance : DtypeArith ℚ where
  ofItem dtype item := dtype.format.toRat (leNat item.bytes)
  cast dtype value := ⟨leBytes dtype.itemSize (dtype.format.ofRat value)⟩
  cast_length dtype value := leBytes_length dtype.itemSize (dtype.format.ofRat value)

end KVSSD

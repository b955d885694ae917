import KVSSD.VllmCodec

/-!
# Decoding into a destination

`decode_vllm_block` with the bytes of the destination as its state, so that what an error
leaves behind is a matter of the order of the statements.  Every record that decodes is
`Intact`: its header, its sections and the destination agree.
-/

namespace KVSSD

open KVSSD.Python KVSSD.Struct KVSSD.Quant

/-- A call that reads and writes the destination and may raise.  An error keeps what was
written before it. -/
abbrev Destined := ExceptT PyError (StateM Bytes)

/-- What a call returns or raises, and the destination afterwards. -/
def Destined.outcome {α : Type} (call : Destined α) (destination : Bytes) :
    Except PyError α × Bytes :=
  StateT.run (ExceptT.run call) destination

namespace Destined

variable {α β : Type} {destination : Bytes}

/-- `call` ends as `plain` does, and leaves the destination alone where `plain` raises. -/
def Realizes (call : Destined β) (destination : Bytes)
    (plain : Except PyError (Bytes × β)) : Prop :=
  call.outcome destination =
    match plain with
    | .ok (restored, value) => (.ok value, restored)
    | .error raised => (.error raised, destination)

theorem realizes_throw {raised : PyError} :
    Realizes (throw raised : Destined β) destination (.error raised) := rfl

theorem realizes_check {bad : Prop} [Decidable bad] {raised : PyError} {next : Destined β}
    {plain : Except PyError (Bytes × β)}
    (passes : ¬ bad → next.Realizes destination plain) :
    Realizes (if bad then throw raised else next) destination
      (if bad then .error raised else plain) := by
  by_cases fails : bad
  · rw [if_pos fails, if_pos fails]
    exact realizes_throw
  · rw [if_neg fails, if_neg fails]
    exact passes fails

theorem realizes_bind {value : Except PyError α} {next : α → Destined β}
    {plain : α → Except PyError (Bytes × β)}
    (continues : ∀ result, value = .ok result →
      (next result).Realizes destination (plain result)) :
    Realizes (liftM value >>= next) destination (value >>= plain) := by
  cases value with
  | error raised => rfl
  | ok result => exact continues result rfl

theorem realizes_get_bind {next : Bytes → Destined β}
    {plain : Except PyError (Bytes × β)}
    (continues : (next destination).Realizes destination plain) :
    Realizes (get >>= next) destination plain := continues

end Destined

/-- `target.copy_(values)`, for a target that views the destination. -/
def copyInto {dtype : Dtype} (target values : Tensor (Item dtype)) : Destined Unit :=
  if target.shape ≠ values.shape then throw (.runtimeError "shapes do not match")
  else set (values.data.flatMap Item.bytes)

/-- `decode_vllm_block`, statement by statement. -/
def decodeVllmBlockInto (F : Type) [arith : QuantArith F] [formats : DtypeArith F]
    (crc32 : Bytes → UInt32) (raw : Bytes) : Destined VLLMRecordInfo :=
  if raw.length < VllmRecord.headerSize then
    throw (.valueError "truncated KVSSD vLLM record")
  else
    let header := VllmHeader.read raw
    if header.magic ≠ VllmRecord.magic ∨ header.version ≠ 1 then
      throw (.valueError "invalid KVSSD vLLM record header")
    else
      match Dtype.ofCode header.dtypeCode with
      | none => throw (.valueError s!"unsupported KVSSD vLLM dtype code {header.dtypeCode}")
      | some dtype =>
          let payload := pySlice raw VllmRecord.headerSize
            (VllmRecord.headerSize + header.payloadBytes)
          if payload.length ≠ header.payloadBytes then
            throw (.valueError "truncated KVSSD vLLM payload")
          else if (crc32 payload).toNat ≠ header.crc then
            throw (.osError "KVSSD vLLM block CRC mismatch")
          else if header.groupSize = 0 then throw .zeroDivisionError
          else
            let scaleBytes := header.elements / header.groupSize * 2
            let packedBytes := header.elements * header.bits / 8
            if scaleBytes + packedBytes ≠ header.payloadBytes then
              throw (.valueError "KVSSD vLLM payload layout is inconsistent")
            else if payload.take scaleBytes = [] then throw emptyBuffer
            else do
              let scales ← halvesOf (payload.take scaleBytes)
              if payload.drop scaleBytes = [] then throw emptyBuffer
              else
                let quantized : QuantizedTensor :=
                  ⟨Tensor.ofList (payload.drop scaleBytes), Tensor.ofList scales,
                    [header.elements], header.bits, header.groupSize⟩
                let target ← flatTensor dtype (← get)
                if target.data.length ≠ header.elements then
                  throw (.valueError
                    s!"destination has {target.data.length} values, record requires {header.elements}")
                else
                  let restored ← dequantizeTensor F (formats.cast dtype) quantized
                  copyInto target restored
                  return ⟨header.bits, header.groupSize, dtype, header.elements,
                    header.payloadBytes⟩

section Decode

variable {F : Type} [arith : QuantArith F] [formats : DtypeArith F] {crc32 : Bytes → UInt32}
  {raw destination : Bytes}

omit formats in
theorem originalShape_of_dequantizeTensor {E : Type} {cast : F → E} {q : QuantizedTensor}
    {values : Tensor E} (restored : dequantizeTensor F cast q = .ok values) :
    values.shape = q.originalShape := by
  obtain ⟨codes, _, rest⟩ := bind_eq_ok.mp restored
  obtain ⟨groups, _, rest⟩ := bind_eq_ok.mp rest
  obtain ⟨scaled, _, rest⟩ := bind_eq_ok.mp rest
  obtain ⟨flat, reshaped, result⟩ := bind_eq_ok.mp rest
  rw [← Except.ok.inj result]
  exact (Tensor.reshape_eq_ok.mp reshaped).1

/-- Only the copy writes, and nothing behind it raises. -/
theorem decodeVllmBlockInto_realizes :
    (decodeVllmBlockInto F crc32 raw).Realizes destination
      (decodeVllmBlock F crc32 raw destination) := by
  unfold decodeVllmBlockInto decodeVllmBlock
  apply Destined.realizes_check
  intro _
  apply Destined.realizes_check
  intro _
  cases Dtype.ofCode (VllmHeader.read raw).dtypeCode with
  | none => exact Destined.realizes_throw
  | some dtype =>
      apply Destined.realizes_check
      intro _
      apply Destined.realizes_check
      intro _
      apply Destined.realizes_check
      intro _
      apply Destined.realizes_check
      intro _
      apply Destined.realizes_check
      intro _
      apply Destined.realizes_bind
      intro scales _
      apply Destined.realizes_check
      intro _
      apply Destined.realizes_get_bind
      apply Destined.realizes_bind
      intro target viewed
      apply Destined.realizes_check
      intro counted
      apply Destined.realizes_bind
      intro restored restoring
      have same : ¬ target.shape ≠ restored.shape := by
        obtain ⟨count, _, shape, _⟩ := length_of_flatTensor viewed
        have size := target.size_eq
        rw [shape, List.prod_singleton] at size
        rw [originalShape_of_dequantizeTensor restoring, shape]
        intro different
        apply different
        rw [← size, not_ne_iff.mp counted]
      rw [copyInto, if_neg same]
      rfl

theorem decodeVllmBlockInto_outcome :
    (decodeVllmBlockInto F crc32 raw).outcome destination =
      match decodeVllmBlock F crc32 raw destination with
      | .ok (restored, info) => (.ok info, restored)
      | .error raised => (.error raised, destination) := by
  rw [decodeVllmBlockInto_realizes]
  cases decodeVllmBlock F crc32 raw destination <;> rfl

theorem shape_of_unpackCodes {packed : List UInt8} {bits : Int} {elements : Nat}
    {codes : Tensor UInt8}
    (unpacked : unpackCodes (Tensor.ofList packed) bits elements = .ok codes) :
    (bits = 2 ∨ bits = 4) ∧ codes.shape = [min elements (packed.length * perByte bits)] := by
  unfold unpackCodes at unpacked
  split at unpacked
  · cases unpacked
  rename_i valid
  obtain ⟨flat, flatOk, result⟩ := bind_eq_ok.mp unpacked
  have shape : flat.shape = [packed.length * perByte bits] := by
    unfold Tensor.reshapeInfer at flatOk
    split at flatOk
    · cases flatOk
    · have reshaped := (Tensor.reshape_eq_ok.mp flatOk).1
      rw [reshaped]
      simp [Tensor.ofList, Tensor.expandLast, length_flatMap_const (unpackByte_length _ _)]
  constructor
  · omega
  · rw [← Except.ok.inj result]
    simp [Tensor.mapLast, shape, Tensor.lastDim]

omit arith formats in
theorem counts_of_zipLast {α β γ : Type} {f : β → α → γ} {parameters : Tensor β}
    {tensor : Tensor α} {result : Tensor γ} {scales groups width : Nat}
    (zipped : Tensor.zipLast f parameters tensor = .ok result)
    (parametersShape : parameters.shape = [scales]) (shape : tensor.shape = [groups, width]) :
    ∃ count, result.data.length = count * width ∧
      ((scales = groups ∧ count = groups) ∨ (groups = 1 ∧ count = scales) ∨
        (scales = 1 ∧ count = groups)) := by
  obtain ⟨wides, broadcast, resultShape⟩ := Tensor.shape_of_zipLast (by simp [shape]) zipped
  have size := result.size_eq
  rw [resultShape, List.prod_append, List.prod_singleton, List.prod_reverse, shape] at size
  refine ⟨wides.prod, size, ?_⟩
  rw [parametersShape, shape] at broadcast
  change Tensor.broadcastDims [scales] [groups] = some wides at broadcast
  simp only [Tensor.broadcastDims, Option.map_some] at broadcast
  split at broadcast
  · rename_i agree
    rw [← Option.some.inj broadcast, List.prod_singleton]
    rcases agree with same | one
    · exact Or.inl ⟨same, same⟩
    · exact Or.inr (Or.inl ⟨one, rfl⟩)
  · split at broadcast
    · rename_i one
      rw [← Option.some.inj broadcast, List.prod_singleton]
      exact Or.inr (Or.inr ⟨one, rfl⟩)
    · cases broadcast

omit arith formats in
/-- Elements that fill whole groups and, but for less than a byte, whole bytes: broadcasting
cannot have made up for a lost code. -/
theorem exact_counts {elements perByte bytes groupSize groups count : Nat}
    (positive : 0 < groupSize) (nonempty : 0 < bytes) (bytesEq : bytes = elements / perByte)
    (grouped : groups * groupSize = min elements (bytes * perByte))
    (restored : count * groupSize = elements)
    (agree : (elements / groupSize = groups ∧ count = groups) ∨
      (groups = 1 ∧ count = elements / groupSize) ∨
      (elements / groupSize = 1 ∧ count = groups)) :
    elements = elements / groupSize * groupSize ∧ elements = bytes * perByte := by
  have whole : elements / groupSize = count := by
    rw [← restored, Nat.mul_div_cancel _ positive]
  have floor : bytes * perByte ≤ elements := by
    rw [bytesEq]
    exact Nat.div_mul_le_self elements perByte
  rw [Nat.min_eq_right floor] at grouped
  refine ⟨by rw [whole, restored], ?_⟩
  by_cases same : count = groups
  · rw [← grouped, ← same, restored]
  · -- One group of codes, several scales: less than a byte would hold a whole group.
    have single : groups = 1 ∧ count = elements / groupSize := by omega
    have step : elements < bytes * perByte + perByte := by
      have perBytePos : 0 < perByte := by
        apply Nat.pos_of_ne_zero
        rintro rfl
        simp at bytesEq
        omega
      have remainder := Nat.mod_lt elements perBytePos
      have split := Nat.div_add_mod elements perByte
      rw [bytesEq]
      rw [Nat.mul_comm] at split
      omega
    have one : groupSize = bytes * perByte := by
      rw [← grouped, single.1, Nat.one_mul]
    have byte : perByte ≤ bytes * perByte := Nat.le_mul_of_pos_left perByte nonempty
    have below : count < 2 := by
      by_contra several
      have double := Nat.mul_le_mul_right groupSize (not_lt.mp several)
      omega
    have some : count ≠ 0 := by
      rintro rfl
      rw [Nat.zero_mul] at restored
      rw [← restored] at floor
      omega
    omega

omit formats in
/-- What `dequantize_tensor` has checked of the flat sections of a record. -/
theorem layout_of_dequantizeTensor {E : Type} {cast : F → E} {packed : List UInt8}
    {scales : List UInt16} {elements bits groupSize : Nat} {values : Tensor E}
    (restored : dequantizeTensor F cast
      ⟨Tensor.ofList packed, Tensor.ofList scales, [elements], bits, groupSize⟩ = .ok values)
    (positive : 0 < groupSize) (nonempty : packed ≠ [])
    (scalesCount : scales.length = elements / groupSize)
    (packedCount : packed.length = elements * bits / 8) :
    (bits = 2 ∨ bits = 4) ∧ elements = scales.length * groupSize ∧
      elements = packed.length * perByte bits := by
  obtain ⟨codes, unpacked, rest⟩ := bind_eq_ok.mp restored
  obtain ⟨groups, grouped, rest⟩ := bind_eq_ok.mp rest
  obtain ⟨scaled, zipped, rest⟩ := bind_eq_ok.mp rest
  obtain ⟨flat, reshaped, _⟩ := bind_eq_ok.mp rest
  have unpackedFlat : unpackCodes (Tensor.ofList packed) bits elements = .ok codes := unpacked
  obtain ⟨widths, codesShape⟩ := shape_of_unpackCodes unpackedFlat
  have bitsCases : bits = 2 ∨ bits = 4 := by exact_mod_cast widths
  change Tensor.reshapeInfer _ [] [((groupSize : Nat) : Int).toNat] = _ at grouped
  rw [Int.toNat_natCast] at grouped
  unfold Tensor.reshapeInfer at grouped
  split at grouped
  · cases grouped
  obtain ⟨groupsShape, groupsData⟩ := Tensor.reshape_eq_ok.mp grouped
  have groupsSize := groups.size_eq
  rw [groupsData, groupsShape] at groupsSize
  change (codes.data.map _).length = _ at groupsSize
  rw [List.length_map, codes.size_eq, codesShape] at groupsSize
  simp only [List.nil_append, List.prod_cons, List.prod_nil, Nat.mul_one] at groupsSize groupsShape
  obtain ⟨count, size, agree⟩ := counts_of_zipLast zipped rfl groupsShape
  have filled : scaled.data.length = elements := by
    rw [← (Tensor.reshape_eq_ok.mp reshaped).2, flat.size_eq,
      (Tensor.reshape_eq_ok.mp reshaped).1, List.prod_singleton]
  rw [filled] at size
  rw [scalesCount] at agree
  have bytesEq : packed.length = elements / perByte bits := by
    rw [packedCount]
    rcases bitsCases with two | four
    · subst two
      change elements * 2 / 8 = elements / 4
      omega
    · subst four
      change elements * 4 / 8 = elements / 2
      omega
  obtain ⟨wholeGroups, wholeBytes⟩ := exact_counts positive
    (List.length_pos_iff.mpr nonempty) bytesEq groupsSize.symm size.symm agree
  refine ⟨bitsCases, ?_, wholeBytes⟩
  rw [scalesCount]
  exact wholeGroups

omit arith formats in
theorem mul_bits_of_perByte {elements bits bytes : Nat} (bitsCases : bits = 2 ∨ bits = 4)
    (wholeBytes : elements = bytes * perByte bits) : elements * bits = 8 * bytes := by
  rcases bitsCases with two | four
  · subst two
    change _ = _ * 4 at wholeBytes
    omega
  · subst four
    change _ = _ * 2 at wholeBytes
    omega

omit formats in
theorem items_of_dequantizeTensor {E : Type} {cast : F → E} {packed : List UInt8}
    {scales : List UInt16} {elements bits groupSize : Nat} {values : Tensor E}
    (dequantized : dequantizeTensor F cast
      ⟨Tensor.ofList packed, Tensor.ofList scales, [elements], bits, groupSize⟩ = .ok values)
    (bitsCases : bits = 2 ∨ bits = 4) (positive : 0 < groupSize)
    (wholeGroups : elements = scales.length * groupSize)
    (wholeBytes : elements = packed.length * perByte bits) :
    values.data = (List.range elements).map fun index =>
      cast (packedValue bits groupSize packed scales index) := by
  obtain ⟨exact, exactOk, _, exactData⟩ := @dequantizeTensor_spec F [] _ _ _ _ _
    ⟨Tensor.ofList packed, Tensor.ofList scales, [elements], bits, groupSize⟩
    (by change ¬ ((bits : Int) ≠ 2 ∧ (bits : Int) ≠ 4); omega) (by simp) rfl rfl
    rfl rfl positive wholeBytes wholeGroups
  have valuesEq := Except.ok.inj (dequantized.symm.trans
    (dequantizeTensor_cast cast exactOk))
  have even : packed.length * perByte bits = scales.length * groupSize :=
    wholeBytes.symm.trans wholeGroups
  change exact.data = flatValues bits groupSize packed scales at exactData
  rw [flatValues_eq_map even, ← wholeGroups] at exactData
  rw [valuesEq]
  simp only [Tensor.map, exactData, List.map_map]
  rfl

end Decode

/-- What a record, the destination it was decoded into and the bytes left there agree on. -/
structure VllmIntact (F : Type) [arith : QuantArith F] [formats : DtypeArith F]
    (crc32 : Bytes → UInt32) (raw destination : Bytes) (info : VLLMRecordInfo)
    (restored : Bytes) : Prop where
  header_whole : VllmRecord.headerSize ≤ raw.length
  magic : (VllmHeader.read raw).magic = VllmRecord.magic
  version : (VllmHeader.read raw).version = 1
  dtype : Dtype.ofCode (VllmHeader.read raw).dtypeCode = some info.dtype
  described : info = ⟨(VllmHeader.read raw).bits, (VllmHeader.read raw).groupSize, info.dtype,
    (VllmHeader.read raw).elements, (VllmHeader.read raw).payloadBytes⟩
  bits_cases : info.bits = 2 ∨ info.bits = 4
  group_pos : 0 < info.groupSize
  group_dvd : info.groupSize ∣ info.elements
  whole_bytes : 8 ∣ info.elements * info.bits
  fits : destination.length = info.elements * info.dtype.itemSize
  present : VllmRecord.headerSize + info.payloadBytes ≤ raw.length
  checksum : (crc32 ((raw.drop VllmRecord.headerSize).take info.payloadBytes)).toNat =
    (VllmHeader.read raw).crc
  /-- The payload is the scales and the codes, and the destination holds their values. -/
  sections : ∃ (scales : List UInt16) (packed : List UInt8),
    (raw.drop VllmRecord.headerSize).take info.payloadBytes =
        scales.flatMap halfBytes ++ packed ∧
      scales.length = info.elements / info.groupSize ∧
      packed.length = info.elements * info.bits / 8 ∧
      restored = (List.range info.elements).flatMap fun index =>
        (formats.cast info.dtype
          (packedValue info.bits info.groupSize packed scales index)).bytes
  overwritten : restored.length = destination.length

section Outcome

variable {F : Type} [arith : QuantArith F] [formats : DtypeArith F] {crc32 : Bytes → UInt32}
  {raw destination restored : Bytes} {info : VLLMRecordInfo}

theorem intact_of_decode
    (decoded : decodeVllmBlock F crc32 raw destination = .ok (restored, info)) :
    VllmIntact F crc32 raw destination info restored := by
  unfold decodeVllmBlock at decoded
  generalize headerEq : VllmHeader.read raw = header at decoded
  obtain ⟨short, decoded⟩ := passes_of_check decoded
  obtain ⟨foreign, decoded⟩ := passes_of_check decoded
  cases dtypeEq : Dtype.ofCode header.dtypeCode with
  | none =>
    rw [dtypeEq] at decoded
    cases decoded
  | some dtype =>
  rw [dtypeEq] at decoded
  simp only at decoded
  obtain ⟨payload, sliced⟩ : ∃ payload, payload = pySlice raw VllmRecord.headerSize
      (VllmRecord.headerSize + header.payloadBytes) := ⟨_, rfl⟩
  rw [← sliced] at decoded
  obtain ⟨absent, decoded⟩ := passes_of_check decoded
  obtain ⟨corrupt, decoded⟩ := passes_of_check decoded
  obtain ⟨ungrouped, decoded⟩ := passes_of_check decoded
  obtain ⟨inconsistent, decoded⟩ := passes_of_check decoded
  obtain ⟨unscaled, decoded⟩ := passes_of_check decoded
  obtain ⟨scales, viewed, decoded⟩ := bind_eq_ok.mp decoded
  obtain ⟨codes, decoded⟩ := passes_of_check decoded
  obtain ⟨target, targeted, decoded⟩ := bind_eq_ok.mp decoded
  obtain ⟨different, decoded⟩ := passes_of_check decoded
  obtain ⟨values, dequantized, result⟩ := bind_eq_ok.mp decoded
  rw [pySlice_count] at sliced
  have payloadLength := not_ne_iff.mp absent
  have total := not_ne_iff.mp inconsistent
  have scalesBytesEq := flatMap_halvesOf viewed
  have scalesLength : scales.length = header.elements / header.groupSize := by
    have lengths := congrArg List.length scalesBytesEq
    rw [length_flatMap_const halfBytes_length, List.length_take, payloadLength] at lengths
    omega
  have packedLength : (payload.drop (header.elements / header.groupSize * 2)).length =
      header.elements * header.bits / 8 := by
    rw [List.length_drop]
    omega
  have groupPositive := Nat.pos_of_ne_zero ungrouped
  obtain ⟨bitsCases, wholeGroups, wholeBytes⟩ := layout_of_dequantizeTensor dequantized
    groupPositive codes scalesLength packedLength
  obtain ⟨count, _, targetShape, destinationLength⟩ := length_of_flatTensor targeted
  have countEq : count = header.elements := by
    rw [← not_ne_iff.mp different, target.size_eq, targetShape, List.prod_singleton]
  rw [countEq] at destinationLength
  have items := items_of_dequantizeTensor dequantized bitsCases groupPositive wholeGroups wholeBytes
  obtain ⟨restoredEq, infoEq⟩ := Prod.mk.inj (Except.ok.inj result)
  subst infoEq
  have restoredItems : restored = (List.range header.elements).flatMap fun index =>
      (formats.cast dtype (packedValue header.bits header.groupSize
        (payload.drop (header.elements / header.groupSize * 2)) scales index)).bytes := by
    rw [← restoredEq, items, List.flatMap_map]
  have restoredLength : restored.length = destination.length := by
    rw [restoredItems, length_flatMap_const, List.length_range, destinationLength]
    intro index
    exact formats.cast_length dtype _
  obtain ⟨magicEq, versionEq⟩ := not_or.mp foreign
  constructor
  case header_whole => exact not_lt.mp short
  case magic => rw [headerEq]; exact not_ne_iff.mp magicEq
  case version => rw [headerEq]; exact not_ne_iff.mp versionEq
  case dtype => rw [headerEq]; exact dtypeEq
  case described => rw [headerEq]
  case bits_cases => exact bitsCases
  case group_pos => exact groupPositive
  case group_dvd => exact ⟨scales.length, by rw [Nat.mul_comm]; exact wholeGroups⟩
  case whole_bytes => exact ⟨_, mul_bits_of_perByte bitsCases wholeBytes⟩
  case fits => exact destinationLength
  case present =>
    rw [sliced, List.length_take, List.length_drop] at payloadLength
    change VllmRecord.headerSize + header.payloadBytes ≤ _
    omega
  case checksum =>
    rw [headerEq, ← sliced]
    exact not_ne_iff.mp corrupt
  case sections =>
    refine ⟨scales, payload.drop (header.elements / header.groupSize * 2), ?_, scalesLength,
      packedLength, restoredItems⟩
    rw [← sliced, scalesBytesEq, List.take_append_drop]
  case overwritten => exact restoredLength

/-- Decoding any bytes into any destination either raises and leaves the destination as it
was, or returns for an intact record and overwrites all of it with the values. -/
theorem decodeVllmBlockInto_all_or_nothing (F : Type) [arith : QuantArith F]
    [formats : DtypeArith F] (crc32 : Bytes → UInt32) (raw destination : Bytes) :
    (∃ raised, (decodeVllmBlockInto F crc32 raw).outcome destination =
        (.error raised, destination)) ∨
      ∃ info restored, (decodeVllmBlockInto F crc32 raw).outcome destination =
          (.ok info, restored) ∧ VllmIntact F crc32 raw destination info restored := by
  rw [decodeVllmBlockInto_outcome]
  cases decoded : decodeVllmBlock F crc32 raw destination with
  | error raised => exact Or.inl ⟨raised, rfl⟩
  | ok result =>
      obtain ⟨restored, info⟩ := result
      exact Or.inr ⟨info, restored, rfl, intact_of_decode decoded⟩

end Outcome

end KVSSD

import KVSSD.FormatCodec
import KVSSD.Lib.Zlib

/-!
# What a verified decode covers

`decode_record` checks the checksum over the number of bytes the header states
and interprets the number of bytes the specification gives.  The two agree
exactly under `StatesPayload`; otherwise a record passes the check although
bytes of its tensors were never covered.
-/

namespace KVSSD

open KVSSD.Python KVSSD.Struct

theorem halvesOf_even {bytes : Bytes} {count : Nat}
    (even : bytes.length = 2 * count) :
    ∃ halves, halvesOf bytes = .ok halves ∧ halves.length = count := by
  induction bytes using halvesOf.induct generalizing count with
  | case1 =>
      have none : count = 0 := by simpa using even
      exact ⟨[], rfl, by simp [none]⟩
  | case2 byte =>
      simp only [List.length_cons, List.length_nil] at even
      omega
  | case3 low high bytes induction =>
      simp only [List.length_cons] at even
      obtain ⟨halves, viewed, length⟩ :=
        @induction (count - 1) (by omega)
      refine ⟨UInt16.ofNat (leNat [low, high]) :: halves, ?_, ?_⟩
      · simp [halvesOf, viewed, pure, Except.pure]
      · rw [List.length_cons, length]
        omega

section Total

variable {spec : CacheSpec}

theorem scaleTensor_total (sized : spec.Sized) (bytes : Bytes)
    (length : bytes.length = 2 * spec.scaleSize) :
    ∃ scales, scaleTensor spec bytes = .ok scales := by
  obtain ⟨halves, viewed, count⟩ := halvesOf_even length
  refine ⟨⟨spec.scaleShape.map Int.toNat, halves, count⟩, ?_⟩
  exact (scaleTensor_eq_ok sized).mpr ⟨rfl, flatMap_halvesOf viewed⟩

theorem codeTensor_total (sized : spec.Sized) (bytes : Bytes)
    (length : bytes.length = spec.packedSize) :
    ∃ codes, codeTensor spec bytes = .ok codes :=
  ⟨⟨spec.packedShape.map Int.toNat, bytes, length⟩,
    (codeTensor_eq_ok sized).mpr ⟨rfl, rfl⟩⟩

/-- A buffer that holds the whole payload decodes. -/
theorem decodePayload_total (sized : spec.Sized) (raw : Bytes)
    (layer block valid : Int)
    (whole : Format.headerSize + spec.payloadSize ≤ raw.length) :
    ∃ result, decodePayload raw spec layer block valid = .ok result := by
  obtain ⟨tail, tailEq⟩ : ∃ tail, tail = raw.drop Format.headerSize := ⟨_, rfl⟩
  have tailLength : spec.payloadSize ≤ tail.length := by
    rw [tailEq, List.length_drop]
    omega
  have sizes : spec.payloadSize =
      2 * spec.scaleSize + 2 * spec.scaleSize + spec.packedSize +
        spec.packedSize := rfl
  obtain ⟨ks, ksOk⟩ := scaleTensor_total sized
    (tail.take (2 * spec.scaleSize)) (by
      rw [List.length_take]
      omega)
  obtain ⟨vs, vsOk⟩ := scaleTensor_total sized
    ((tail.drop (2 * spec.scaleSize)).take (2 * spec.scaleSize)) (by
      rw [List.length_take, List.length_drop]
      omega)
  obtain ⟨kp, kpOk⟩ := codeTensor_total sized
    ((tail.drop (2 * spec.scaleSize + 2 * spec.scaleSize)).take
      spec.packedSize) (by
      rw [List.length_take, List.length_drop]
      omega)
  obtain ⟨vp, vpOk⟩ := codeTensor_total sized
    ((tail.drop (2 * spec.scaleSize + 2 * spec.scaleSize +
      spec.packedSize)).take spec.packedSize) (by
      rw [List.length_take, List.length_drop]
      omega)
  obtain ⟨ksShape, ksBytes⟩ := (scaleTensor_eq_ok sized).mp ksOk
  obtain ⟨vsShape, vsBytes⟩ := (scaleTensor_eq_ok sized).mp vsOk
  obtain ⟨kpShape, kpBytes⟩ := (codeTensor_eq_ok sized).mp kpOk
  obtain ⟨vpShape, vpBytes⟩ := (codeTensor_eq_ok sized).mp vpOk
  let shape := spec.blockShape.map Int.toNat
  refine ⟨⟨layer, block, valid, ⟨kp, ks, shape, spec.bits, spec.groupSize⟩,
    ⟨vp, vs, shape, spec.bits, spec.groupSize⟩⟩,
    (decodePayload_eq_ok sized).mpr ⟨?_, rfl, rfl, rfl, ?_⟩⟩
  · exact ⟨ksShape, vsShape, kpShape, vpShape, rfl, rfl, rfl, rfl, rfl, rfl⟩
  · simp only [payload, ksBytes, vsBytes, kpBytes, vpBytes]
    rw [← tailEq, sizes, ← List.take_add, ← List.take_add, ← List.take_add]

end Total

theorem decodePayload_whole {spec : CacheSpec} (sized : spec.Sized)
    {raw : Bytes} {layer block valid : Int} {result : PackedKVBlock}
    (whole : Format.headerSize ≤ raw.length)
    (decoded : decodePayload raw spec layer block valid = .ok result) :
    Format.headerSize + spec.payloadSize ≤ raw.length := by
  obtain ⟨shaped, _, _, _, bytes⟩ := (decodePayload_eq_ok sized).mp decoded
  have length := congrArg List.length bytes
  rw [shaped.payloadLength, List.length_take, List.length_drop] at length
  omega

/-- The checksum recorded with a decoded block is the checksum of exactly the
bytes of its four tensors, whatever the checksum function is. -/
def VerifiedDecodeCovers (raw : Bytes) (spec : CacheSpec) : Prop :=
  ∀ (crc32 : Bytes → UInt32) (block : PackedKVBlock),
    decodeRecord crc32 raw spec true = .ok block →
      (crc32 (payload block)).toNat = (Header.read raw).crc

/-- The header states the payload length of the specification, or states more
and the buffer ends with the payload. -/
def StatesPayload (raw : Bytes) (spec : CacheSpec) : Prop :=
  ((Header.read raw).payloadLen : Int) = spec.payloadBytes ∨
    (spec.payloadBytes < (Header.read raw).payloadLen ∧
      (raw.length : Int) = Format.headerSize + spec.payloadBytes)

theorem checkedBytes_eq_payload_iff {spec : CacheSpec} (sized : spec.Sized)
    {raw : Bytes} (whole : Format.headerSize + spec.payloadSize ≤ raw.length) :
    Header.checkedBytes raw =
        (raw.drop Format.headerSize).take spec.payloadSize ↔
      StatesPayload raw spec := by
  have tailLength : (raw.drop Format.headerSize).length =
      raw.length - Format.headerSize := List.length_drop
  rw [StatesPayload, sized.payloadBytes, Header.checkedBytes]
  constructor
  · intro same
    have lengths := congrArg List.length same
    rw [List.length_take, List.length_take, tailLength] at lengths
    omega
  · rintro (exact | ⟨longer, ends⟩)
    · have equal : (Header.read raw).payloadLen = spec.payloadSize := by
        exact_mod_cast exact
      rw [equal]
    · rw [List.take_of_length_le (by omega), List.take_of_length_le (by omega)]

theorem Header.crc_lt (raw : Bytes) : (Header.read raw).crc < 2 ^ 32 := by
  obtain ⟨fields, fieldsEq⟩ : ∃ fields, fields =
      unpackFields Format.headerWidths (raw.drop Format.magic.length) :=
    ⟨_, rfl⟩
  have value : (Header.read raw).crc = fields.getD 10 0 := by
    rw [fieldsEq]
    rfl
  have present : 10 < fields.length := by
    rw [fieldsEq, unpackFields_length]
    decide
  have member : fields.getD 10 0 ∈ fields := by
    rw [List.getD_eq_getElem?_getD, List.getElem?_eq_getElem present]
    exact List.getElem_mem present
  rw [value]
  have bound := lt_of_mem_unpackFields (fieldsEq ▸ member)
  rw [← fieldsEq] at bound
  exact bound

/-- Two byte strings that differ can be told apart by a checksum that takes a
given value on the first. -/
theorem exists_separating_checksum {covered returned : Bytes} (value : Nat)
    (small : value < 2 ^ 32) (differ : returned ≠ covered) :
    ∃ crc32 : Bytes → UInt32, (crc32 covered).toNat = value ∧
      (crc32 returned).toNat ≠ value := by
  have kept : (UInt32.ofNat value).toNat = value :=
    UInt32.toNat_ofNat_of_lt small
  refine ⟨fun bytes => if bytes = covered then UInt32.ofNat value
    else UInt32.ofNat value + 1, ?_, ?_⟩
  · simp only [if_true, kept]
  · simp only [if_neg differ, UInt32.toNat_add, kept]
    intro same
    have one : (1 : UInt32).toNat = 1 := rfl
    rw [one] at same
    omega

/-- A verified decode covers everything it returns exactly when the stated
payload is the interpreted one. -/
theorem verifiedDecode_covers_iff {raw : Bytes} {spec : CacheSpec}
    (valid : spec.validate = .ok ()) :
    VerifiedDecodeCovers raw spec ↔
      (Header.Accepts raw spec →
        Format.headerSize + spec.payloadBytes ≤ raw.length →
          StatesPayload raw spec) := by
  constructor
  · intro covers accepted enough
    have sized := accepted.layout.sized valid
    have whole : Format.headerSize + spec.payloadSize ≤ raw.length := by
      rw [sized.payloadBytes] at enough
      exact_mod_cast enough
    by_contra unstated
    have differ : (raw.drop Format.headerSize).take spec.payloadSize ≠
        Header.checkedBytes raw := by
      intro same
      exact unstated ((checkedBytes_eq_payload_iff sized whole).mp same.symm)
    obtain ⟨crc32, passes, differs⟩ :=
      exists_separating_checksum _ (Header.crc_lt raw) differ
    obtain ⟨block, decoded⟩ := decodePayload_total sized
      raw (Header.read raw).layer (Header.read raw).block (Header.read raw).valid
      whole
    have returned : decodeRecord crc32 raw spec true = .ok block :=
      decodeRecord_eq_ok.mpr ⟨accepted, fun _ => passes, decoded⟩
    have bytes := ((decodePayload_eq_ok sized).mp decoded).2.2.2.2
    have covered := covers crc32 block returned
    rw [bytes] at covered
    exact differs covered
  · intro stated crc32 block returned
    obtain ⟨accepted, checksum, decoded⟩ := decodeRecord_eq_ok.mp returned
    have sized := accepted.layout.sized valid
    have whole := decodePayload_whole sized accepted.whole decoded
    have bytes := ((decodePayload_eq_ok sized).mp decoded).2.2.2.2
    have states := stated accepted (by
      rw [sized.payloadBytes]
      exact_mod_cast whole)
    rw [bytes, ← (checkedBytes_eq_payload_iff sized whole).mpr states]
    exact checksum rfl

/-- One layer, one head, one token of two values. -/
def tinySpec : CacheSpec :=
  { layers := 1, kvHeads := 1, headDim := 2, blockTokens := 1, bits := 4,
    groupSize := 2 }

/-- A record whose header states an empty payload with the checksum of the
empty byte string, in front of six payload bytes. -/
def uncoveredRecord : Bytes :=
  Format.magic ++
    [1, 0, 0, 0, 0, 0, 0, 0, 0, 0, 0, 0, 1, 0, 0, 0, 4, 0, 0, 0, 1, 0, 0, 0,
      1, 0, 0, 0, 2, 0, 0, 0, 2, 0, 0, 0, 0, 0, 0, 0, 0, 0, 0, 0,
      0, 60, 0, 60, 153, 153]

theorem verifiedDecode_covers_tiny :
    tinySpec.validate = .ok () ∧
      (VerifiedDecodeCovers uncoveredRecord tinySpec ↔
        (Header.Accepts uncoveredRecord tinySpec →
          Format.headerSize + tinySpec.payloadBytes ≤
              uncoveredRecord.length →
            StatesPayload uncoveredRecord tinySpec)) :=
  ⟨by decide, verifiedDecode_covers_iff (by decide)⟩

/-- The checksum of the record is accepted, yet it is not the checksum of the
returned tensors. -/
theorem verifiedDecode_misses_payload :
    tinySpec.validate = .ok () ∧
      ∃ block,
        decodeRecord Zlib.crc32 uncoveredRecord tinySpec true = .ok block ∧
          (Zlib.crc32 (payload block)).toNat ≠
            (Header.read uncoveredRecord).crc := by
  have valid : tinySpec.validate = .ok () := by decide
  have accepted : Header.Accepts uncoveredRecord tinySpec :=
    ⟨by decide, by decide, by decide, by decide⟩
  have sized := accepted.layout.sized valid
  obtain ⟨block, decoded⟩ := decodePayload_total sized
    uncoveredRecord (Header.read uncoveredRecord).layer
    (Header.read uncoveredRecord).block (Header.read uncoveredRecord).valid
    (by decide)
  have bytes := ((decodePayload_eq_ok sized).mp decoded).2.2.2.2
  refine ⟨valid, block, decodeRecord_eq_ok.mpr ⟨accepted, ?_, decoded⟩, ?_⟩
  · intro _
    decide +kernel
  · rw [bytes]
    decide +kernel

end KVSSD

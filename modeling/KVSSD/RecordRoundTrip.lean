import KVSSD.DecodeCoverage

/-!
# Round trip of a record

Every block with the shapes of its specification and header fields below
`2 ^ 32` encodes to one aligned record, and that record decodes to the block, so no
two blocks share a record.
The header is read back field by field; the payload is cut by the sizes of the
specification, so the padding behind it is never interpreted.
-/

namespace KVSSD

open KVSSD.Python KVSSD.Struct

/-- A value of one header field. -/
def FitsU32 (value : Int) : Prop := 0 ≤ value ∧ value < 2 ^ 32

instance (value : Int) : Decidable (FitsU32 value) := by
  unfold FitsU32
  infer_instance

/-- The fields of a specification that the header stores, and the payload
length, fit 32 bits. -/
structure CacheSpec.HeaderFits (spec : CacheSpec) : Prop where
  bits : FitsU32 spec.bits
  blockTokens : FitsU32 spec.blockTokens
  kvHeads : FitsU32 spec.kvHeads
  headDim : FitsU32 spec.headDim
  groupSize : FitsU32 spec.groupSize
  payloadBytes : FitsU32 spec.payloadBytes

/-- The identity fields of a block fit 32 bits. -/
structure PackedKVBlock.HeaderFits (packed : PackedKVBlock) : Prop where
  layer : FitsU32 packed.layer
  block : FitsU32 packed.block
  validTokens : FitsU32 packed.validTokens

namespace CacheSpec

variable {spec : CacheSpec}

theorem alignUp_spec (value : Int) :
    value ≤ alignUp value Format.alignment ∧
      alignUp value Format.alignment < value + 4096 ∧
      (4096 : Int) ∣ alignUp value Format.alignment := by
  have floor : (value + Format.alignment - 1).fdiv Format.alignment =
      (value + 4095) / 4096 := by
    rw [Int.fdiv_eq_ediv_of_nonneg _ (by decide)]
    norm_num [Format.alignment]
    congr 1
    ring
  rw [alignUp, floor]
  refine ⟨?_, ?_, Int.dvd_mul_left _ _⟩
  · simp only [Format.alignment]
    omega
  · simp only [Format.alignment]
    omega

theorem Sized.recordBytes (sized : spec.Sized) :
    (Format.headerSize : Int) + spec.payloadSize ≤ spec.recordBytes ∧
      (4096 : Int) ∣ spec.recordBytes := by
  rw [CacheSpec.recordBytes, sized.payloadBytes]
  obtain ⟨lower, _, aligned⟩ :=
    alignUp_spec ((Format.headerSize : Int) + spec.payloadSize)
  exact ⟨lower, aligned⟩

/-- The length of a record. -/
def recordSize (spec : CacheSpec) : Nat := spec.recordBytes.toNat

theorem Sized.recordSize (sized : spec.Sized) :
    (spec.recordSize : Int) = spec.recordBytes ∧
      Format.headerSize + spec.payloadSize ≤ spec.recordSize ∧
      4096 ∣ spec.recordSize := by
  obtain ⟨lower, aligned⟩ := sized.recordBytes
  have cast : (spec.recordSize : Int) = spec.recordBytes := by
    rw [CacheSpec.recordSize]
    omega
  refine ⟨cast, ?_, ?_⟩
  · omega
  · omega

end CacheSpec

section Encoding

variable {crc32 : Bytes → UInt32} {spec : CacheSpec} {block : PackedKVBlock}

variable (crc32) in
theorem fits_headerFields (sized : spec.Sized) (shaped : block.Shaped spec)
    (specFits : spec.HeaderFits) (blockFits : block.HeaderFits) :
    Fits (headerFields crc32 block spec) := by
  have payloadLength : ((payload block).length : Int) = spec.payloadBytes := by
    rw [shaped.payloadLength, sized.payloadBytes]
  have checksum : FitsU32 ((crc32 (payload block)).toNat : Int) := by
    have small := (crc32 (payload block)).toNat_lt
    exact ⟨by omega, by exact_mod_cast small⟩
  have payloadFits : FitsU32 ((payload block).length : Int) :=
    payloadLength ▸ specFits.payloadBytes
  have power : ((256 : Int) ^ 4) = 2 ^ 32 := by norm_num
  intro field member
  simp only [headerFields, Format.headerWidths, List.replicate,
    List.zip_cons_cons, List.zip_nil_right, List.mem_cons, List.not_mem_nil,
    or_false] at member
  rcases member with
    rfl | rfl | rfl | rfl | rfl | rfl | rfl | rfl | rfl | rfl | rfl
  · norm_num
  · simpa only [power, FitsU32] using blockFits.layer
  · simpa only [power, FitsU32] using blockFits.block
  · simpa only [power, FitsU32] using blockFits.validTokens
  · simpa only [power, FitsU32] using specFits.bits
  · simpa only [power, FitsU32] using specFits.blockTokens
  · simpa only [power, FitsU32] using specFits.kvHeads
  · simpa only [power, FitsU32] using specFits.headDim
  · simpa only [power, FitsU32] using specFits.groupSize
  · simpa only [power, FitsU32] using payloadFits
  · simpa only [power, FitsU32] using checksum

theorem map_ofNat_blockShape (valid : spec.validate = .ok ()) :
    (spec.blockShape.map Int.toNat).map Int.ofNat = spec.blockShape := by
  obtain ⟨⟨_, heads, dim, tokens⟩, _⟩ := CacheSpec.validate_eq_ok.mp valid
  simp [CacheSpec.blockShape, Int.le_of_lt, heads, dim, tokens]

variable (crc32) in
/-- The header `encode_record` writes. -/
def Header.ofBlock (block : PackedKVBlock) (spec : CacheSpec) : Header :=
  { magic := Format.magic
    version := 1
    layer := block.layer.toNat
    block := block.block.toNat
    valid := block.validTokens.toNat
    bits := spec.bits.toNat
    blockTokens := spec.blockTokens.toNat
    heads := spec.kvHeads.toNat
    dim := spec.headDim.toNat
    group := spec.groupSize.toNat
    payloadLen := (payload block).length
    crc := (crc32 (payload block)).toNat }

theorem Header.read_packed {fields rest : Bytes}
    (read : ∀ rest, unpackFields Format.headerWidths (fields ++ rest) =
      (headerFields crc32 block spec).map fun field => field.2.toNat) :
    Header.read (Format.magic ++ fields ++ rest) =
      Header.ofBlock crc32 block spec := by
  have front : (Format.magic ++ fields ++ rest).take Format.magic.length =
      Format.magic := by
    rw [List.append_assoc]
    exact List.take_left
  have back : (Format.magic ++ fields ++ rest).drop Format.magic.length =
      fields ++ rest := by
    rw [List.append_assoc]
    exact List.drop_left
  simp only [Header.read, front, back, read]
  rfl

/-- Bytes with the header and the payload of a block decode to it. -/
theorem decodeRecord_of_header {raw : Bytes} (sized : spec.Sized)
    (shaped : block.Shaped spec) (specFits : spec.HeaderFits) (blockFits : block.HeaderFits)
    (whole : Format.headerSize ≤ raw.length)
    (header : Header.read raw = Header.ofBlock crc32 block spec)
    (follows : ∃ rest, raw.drop Format.headerSize = payload block ++ rest) :
    decodeRecord crc32 raw spec true = .ok block := by
  obtain ⟨rest, behind⟩ := follows
  have checked : Header.checkedBytes raw = payload block := by
    rw [Header.checkedBytes, header, behind]
    exact List.take_left
  refine decodeRecord_eq_ok.mpr ⟨?_, ?_, ?_⟩
  · constructor
    case whole => exact whole
    case magic =>
      rw [header]
      rfl
    case version =>
      rw [header]
      rfl
    case layout =>
      rw [header]
      exact
        ⟨Int.toNat_of_nonneg specFits.bits.1,
          Int.toNat_of_nonneg specFits.blockTokens.1,
          Int.toNat_of_nonneg specFits.kvHeads.1,
          Int.toNat_of_nonneg specFits.headDim.1,
          Int.toNat_of_nonneg specFits.groupSize.1⟩
  · intro _
    rw [checked, header]
    rfl
  · refine (decodePayload_eq_ok sized).mpr ⟨shaped, ?_, ?_, ?_, ?_⟩
    · rw [header]
      exact (Int.toNat_of_nonneg blockFits.layer.1).symm
    · rw [header]
      exact (Int.toNat_of_nonneg blockFits.block.1).symm
    · rw [header]
      exact (Int.toNat_of_nonneg blockFits.validTokens.1).symm
    · rw [behind, List.take_left' shaped.payloadLength]

variable (crc32) in
/-- What `encode_record` returns for a block of the right shapes: one aligned
record that states the block in its header and decodes to it, whatever follows
it in a file. -/
theorem encodeRecord_spec (valid : spec.validate = .ok ())
    (group : 0 ≤ spec.groupSize) (shaped : block.Shaped spec)
    (specFits : spec.HeaderFits) (blockFits : block.HeaderFits) :
    ∃ record, encodeRecord crc32 block spec =
        .ok (record, ((crc32 (payload block)).toNat : Int)) ∧
      record.length = spec.recordSize ∧
      (∃ zeros, record.drop Format.headerSize = payload block ++ zeros) ∧
      ∀ more, decodeRecord crc32 (record ++ more) spec true = .ok block := by
  have sized := CacheSpec.sized_of_validate valid group
  obtain ⟨recordCast, recordLower, _⟩ := sized.recordSize
  obtain ⟨fields, fieldsOk, fieldsLength, fieldsRead⟩ :=
    packFields_of_fits (fits_headerFields crc32 sized shaped specFits
      blockFits)
  have length : (Format.magic ++ fields).length = Format.headerSize := by
    rw [List.length_append, fieldsLength]
    rfl
  have payloadLength := shaped.payloadLength
  obtain ⟨zeros, zerosEq⟩ : ∃ zeros : Bytes, zeros =
      List.replicate (spec.recordSize - Format.headerSize - spec.payloadSize) 0 :=
    ⟨_, rfl⟩
  have zerosLength : zeros.length =
      spec.recordSize - Format.headerSize - spec.payloadSize := by
    rw [zerosEq, List.length_replicate]
  have written : (Format.magic ++ fields ++ payload block).length =
      Format.headerSize + spec.payloadSize := by
    rw [List.length_append, length, payloadLength]
  refine ⟨Format.magic ++ fields ++ payload block ++ zeros, ?_, ?_, ?_, ?_⟩
  · have padding : spec.recordBytes -
        ((Format.magic ++ fields ++ payload block).length : Int) =
          ((spec.recordSize - Format.headerSize - spec.payloadSize : Nat) : Int) := by
      rw [written, ← recordCast]
      omega
    have shapes : ¬ (block.key.originalShape.map Int.ofNat ≠ spec.blockShape ∨
        block.value.originalShape.map Int.ofNat ≠ spec.blockShape) := by
      rw [shaped.keyShape, shaped.valueShape, map_ofNat_blockShape valid]
      simp
    simp only [encodeRecord, if_neg shapes, fieldsOk, ok_bind,
      if_neg sized.groupSize, padding, zerosEq]
    rw [if_neg (by omega), Int.toNat_natCast]
    rfl
  · rw [List.length_append, written, zerosLength]
    omega
  · refine ⟨zeros, ?_⟩
    rw [List.append_assoc, List.drop_left' length]
  · intro more
    apply decodeRecord_of_header sized shaped specFits blockFits
    · simp only [List.length_append, ← length]
      omega
    · rw [List.append_assoc, List.append_assoc]
      exact Header.read_packed fieldsRead
    · refine ⟨zeros ++ more, ?_⟩
      rw [List.append_assoc, List.append_assoc, List.drop_left' length]

end Encoding

/-- The tensors of a block have the shapes of a specification.  What the block says about
its own bits and group size is left open: the encoder does not read it. -/
structure PackedKVBlock.Laid (spec : CacheSpec) (block : PackedKVBlock) : Prop where
  keyScales : block.key.scales.shape = spec.scaleShape.map Int.toNat
  valueScales : block.value.scales.shape = spec.scaleShape.map Int.toNat
  keyPacked : block.key.packed.shape = spec.packedShape.map Int.toNat
  valuePacked : block.value.packed.shape = spec.packedShape.map Int.toNat
  keyShape : block.key.originalShape = spec.blockShape.map Int.toNat
  valueShape : block.value.originalShape = spec.blockShape.map Int.toNat

/-- The same layer, block, valid tokens, packed bytes and scales, with the bits and the
group size of the specification. -/
def PackedKVBlock.underSpec (block : PackedKVBlock) (spec : CacheSpec) : PackedKVBlock :=
  { block with
    key := { block.key with bits := spec.bits, groupSize := spec.groupSize }
    value := { block.value with bits := spec.bits, groupSize := spec.groupSize } }

section RoundTrip

variable {crc32 : Bytes → UInt32} {spec : CacheSpec} {block : PackedKVBlock}

theorem PackedKVBlock.Laid.underSpec (laid : block.Laid spec) :
    (block.underSpec spec).Shaped spec :=
  { keyScales := laid.keyScales
    valueScales := laid.valueScales
    keyPacked := laid.keyPacked
    valuePacked := laid.valuePacked
    keyShape := laid.keyShape
    valueShape := laid.valueShape
    keyBits := rfl
    valueBits := rfl
    keyGroup := rfl
    valueGroup := rfl }

theorem PackedKVBlock.Shaped.underSpec (shaped : block.Shaped spec) :
    block.underSpec spec = block := by
  obtain ⟨layer, index, validTokens, key, value⟩ := block
  unfold PackedKVBlock.underSpec
  simp only
  rw [← shaped.keyBits, ← shaped.keyGroup]
  congr 1
  rw [shaped.keyBits, shaped.keyGroup, ← shaped.valueBits, ← shaped.valueGroup]

theorem encodeRecord_underSpec :
    encodeRecord crc32 (block.underSpec spec) spec = encodeRecord crc32 block spec := rfl

theorem encodeRecord_padding {record : Bytes} {checksum : Int}
    (encoded : encodeRecord crc32 block spec = .ok (record, checksum)) :
    ∀ byte ∈ record.drop (Format.headerSize + (payload block).length), byte = 0 := by
  unfold encodeRecord at encoded
  split at encoded
  · cases encoded
  obtain ⟨fields, packed, encoded⟩ := bind_eq_ok.mp encoded
  obtain ⟨_, packedAgain, fieldsLength, _⟩ := packFields_of_fits (fits_of_packFields packed)
  obtain rfl := Except.ok.inj (packed.symm.trans packedAgain)
  simp only at encoded
  split at encoded
  · cases encoded
  split at encoded
  · cases encoded
  have written : (Format.magic ++ fields ++ payload block).length =
      Format.headerSize + (payload block).length := by
    rw [List.length_append, List.length_append, fieldsLength]
    rfl
  intro byte member
  rw [← (Prod.mk.inj (Except.ok.inj encoded)).1, List.drop_left' written] at member
  exact List.eq_of_mem_replicate member

end RoundTrip

/-- Encoding any block of a specification gives one record of the stated size that decodes
to the block.  No other block gives that record, and encoding what was decoded gives it
again. -/
theorem record_round_trip (crc32 : Bytes → UInt32) {spec : CacheSpec} {block : PackedKVBlock}
    (valid : spec.validate = .ok ()) (group : 0 < spec.groupSize) (laid : block.Laid spec)
    (specFits : spec.HeaderFits) (blockFits : block.HeaderFits) :
    ∃ record checksum, encodeRecord crc32 block spec = .ok (record, checksum) ∧
      (record.length : Int) = spec.recordBytes ∧ 4096 ∣ record.length ∧
      (∀ byte ∈ record.drop (Format.headerSize + (payload block).length), byte = 0) ∧
      decodeRecord crc32 record spec true = .ok (block.underSpec spec) ∧
      (∀ decoded, decodeRecord crc32 record spec true = .ok decoded →
        encodeRecord crc32 decoded spec = .ok (record, checksum)) ∧
      ∀ other : PackedKVBlock, other.Laid spec → other.HeaderFits → ∀ otherChecksum,
        encodeRecord crc32 other spec = .ok (record, otherChecksum) →
          other.underSpec spec = block.underSpec spec := by
  have nonnegative := Int.le_of_lt group
  have decodes {packed : PackedKVBlock} (packedLaid : packed.Laid spec)
      (packedFits : packed.HeaderFits) :
      ∃ record checksum, encodeRecord crc32 packed spec = .ok (record, checksum) ∧
        record.length = spec.recordSize ∧
        decodeRecord crc32 record spec true = .ok (packed.underSpec spec) := by
    obtain ⟨record, encoded, length, _, decoded⟩ := encodeRecord_spec crc32 valid nonnegative
      packedLaid.underSpec specFits ⟨packedFits.layer, packedFits.block, packedFits.validTokens⟩
    rw [encodeRecord_underSpec] at encoded
    have whole := decoded []
    rw [List.append_nil] at whole
    exact ⟨record, _, encoded, length, whole⟩
  obtain ⟨record, checksum, encoded, length, decoded⟩ := decodes laid blockFits
  obtain ⟨sizeCast, _, aligned⟩ := (CacheSpec.sized_of_validate valid nonnegative).recordSize
  refine ⟨record, checksum, encoded, ?_, ?_, encodeRecord_padding encoded, decoded, ?_, ?_⟩
  · rw [length, sizeCast]
  · rw [length]
    exact aligned
  · intro again decodedAgain
    obtain rfl := Except.ok.inj (decoded.symm.trans decodedAgain)
    rw [encodeRecord_underSpec, encoded]
  · intro other otherLaid otherFits otherChecksum otherEncoded
    obtain ⟨otherRecord, _, encodedAgain, _, otherDecoded⟩ := decodes otherLaid otherFits
    obtain rfl : otherRecord = record := by
      rw [otherEncoded] at encodedAgain
      exact (Prod.mk.inj (Except.ok.inj encodedAgain)).1.symm
    exact (Except.ok.inj (decoded.symm.trans otherDecoded)).symm

/-- One token of one head, with an infinite key scale. -/
def tokenBlock : PackedKVBlock :=
  { layer := 7
    block := 3
    validTokens := 1
    key := ⟨⟨[1, 1, 1], [255], rfl⟩, ⟨[1, 1, 1], [31744], rfl⟩, [1, 1, 2], 4, 2⟩
    value := ⟨⟨[1, 1, 1], [0], rfl⟩, ⟨[1, 1, 1], [1], rfl⟩, [1, 1, 2], 4, 2⟩ }

theorem record_round_trip_token :
    ∃ record checksum, encodeRecord Zlib.crc32 tokenBlock tinySpec = .ok (record, checksum) ∧
      record.length = 4096 ∧
      decodeRecord Zlib.crc32 record tinySpec true = .ok tokenBlock := by
  obtain ⟨record, checksum, encoded, length, _, _, decoded, _⟩ :=
    @record_round_trip Zlib.crc32 tinySpec tokenBlock (by decide) (by decide)
      ⟨rfl, rfl, rfl, rfl, rfl, rfl⟩
      ⟨by decide, by decide, by decide, by decide, by decide, by decide⟩
      ⟨by decide, by decide, by decide⟩
  have size : tinySpec.recordBytes = 4096 := by decide
  exact ⟨record, checksum, encoded, by omega, decoded⟩

end KVSSD

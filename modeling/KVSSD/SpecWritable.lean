import KVSSD.QuantError
import KVSSD.StoreRoundTrip

/-!
# Which specifications can be written

`CacheSpec.validate` asks that the group size divides the head dimension, the quantizer that it
is positive and pack-aligned as well, and the header that the number of every block fits its
field.  A validated specification can be written exactly when the latter hold.
-/

namespace KVSSD

open KVSSD.Python KVSSD.Struct KVSSD.Quant

/-- A specification that `validate` accepts, whose fields and payload are below `2 ^ 32`. -/
structure CacheSpec.Validated (spec : CacheSpec) : Prop where
  valid : spec.validate = .ok ()
  layers : spec.layers < 2 ^ 32
  kvHeads : spec.kvHeads < 2 ^ 32
  headDim : spec.headDim < 2 ^ 32
  blockTokens : spec.blockTokens < 2 ^ 32
  groupSize : spec.groupSize < 2 ^ 32
  payloadBytes : spec.payloadBytes < 2 ^ 32

/-- Float tensors of the shape that `create` asks for, with at least one token. -/
structure CacheSpec.WriteInput (F : Type) {α β : Type} [keyElement : TorchElement α F]
    [valueElement : TorchElement β F] (spec : CacheSpec) (keys : Tensor α) (values : Tensor β)
    (tokens : Nat) : Prop where
  keyFloating : keyElement.isFloatingPoint = true
  valueFloating : valueElement.isFloatingPoint = true
  keyShape : keys.shape =
    [spec.layers.toNat, tokens, spec.kvHeads.toNat, spec.headDim.toNat]
  valueShape : values.shape =
    [spec.layers.toNat, tokens, spec.kvHeads.toNat, spec.headDim.toNat]
  some_token : 0 < tokens

/-- No block of `create` raises, and the derived sizes are those of the payload. -/
structure CacheSpec.Writable (F : Type) [QuantArith F] {α β : Type} [TorchElement α F]
    [TorchElement β F] (crc32 : Bytes → UInt32) (spec : CacheSpec) (keys : Tensor α)
    (values : Tensor β) (tokens : Nat) : Prop where
  group_pos : 0 < spec.groupSize
  counts_pos : 0 < spec.groups ∧ 0 < spec.packedDim ∧ 0 < spec.scaleCount ∧
    0 < spec.packedCount ∧ 0 < spec.payloadBytes
  whole_bytes : spec.packedDim * 8 = spec.headDim * spec.bits
  blocks : ∀ index ∈ blockIndices spec.layers.toNat tokens spec.blockTokens.toNat,
    ∃ block record checksum, packBlock F keys values spec index = .ok block ∧
      encodeRecord crc32 block spec = .ok (record, checksum) ∧
      ((payload block).length : Int) = spec.payloadBytes

/-- The group size is positive and pack-aligned, and the number of the last block fits the
header. -/
structure CacheSpec.Packable (spec : CacheSpec) (tokens : Nat) : Prop where
  group_pos : 0 < spec.groupSize
  aligned : spec.groupSize.fmod (8 / spec.bits) = 0
  blocks : blockCount tokens spec.blockTokens.toNat ≤ 2 ^ 32

namespace CacheSpec

section Sufficient

variable {F : Type} [arith : QuantArith F] {α β : Type} [keyElement : TorchElement α F]
  [valueElement : TorchElement β F] {crc32 : Bytes → UInt32} {spec : CacheSpec}
  {keys : Tensor α} {values : Tensor β} {tokens : Nat}

/-- The counts of a specification that the quantizer accepts. -/
theorem Storable.counts (storable : spec.Storable) :
    (0 < spec.groups ∧ 0 < spec.packedDim ∧ 0 < spec.scaleCount ∧ 0 < spec.packedCount ∧
      0 < spec.payloadBytes) ∧ spec.packedDim * 8 = spec.headDim * spec.bits := by
  have dims := storable.dims
  obtain ⟨⟨_, heads, dim, tokens⟩, bits, _, divides⟩ :=
    CacheSpec.validate_eq_ok.mp storable.valid
  have group := storable.group_pos
  obtain ⟨count, groups⟩ := Int.dvd_of_fmod_eq_zero divides
  have groupsEq : spec.groups = count := by
    rw [CacheSpec.groups, groups, Int.mul_fdiv_cancel_left _ (by omega)]
  have groupsPos : 0 < spec.groups := by
    rw [groupsEq]
    by_contra negative
    have product : spec.groupSize * count ≤ 0 :=
      mul_nonpos_of_nonneg_of_nonpos group.le (by omega)
    omega
  obtain ⟨bytes, whole⟩ := dims.accepts.perByte_dvd
  have dimNat : spec.headDim = (spec.headDim.toNat : Int) := dims.dim_eq
  have exact : spec.packedDim * 8 = spec.headDim * spec.bits := by
    rw [CacheSpec.packedDim, Int.fdiv_eq_ediv_of_nonneg _ (by norm_num)]
    rcases bits with two | four
    · rw [two] at whole ⊢
      change spec.headDim.toNat = 4 * bytes at whole
      omega
    · rw [four] at whole ⊢
      change spec.headDim.toNat = 2 * bytes at whole
      omega
  have packedPos : 0 < spec.packedDim := by
    have total : 0 < spec.headDim * spec.bits := by
      apply mul_pos dim
      omega
    omega
  have scalePos : 0 < spec.scaleCount := mul_pos (mul_pos tokens heads) groupsPos
  have codePos : 0 < spec.packedCount := mul_pos (mul_pos tokens heads) packedPos
  refine ⟨⟨groupsPos, packedPos, scalePos, codePos, ?_⟩, exact⟩
  unfold CacheSpec.payloadBytes
  omega

/-- A validated specification that packs is storable. -/
theorem Validated.storable (validated : spec.Validated) (packable : spec.Packable tokens) :
    spec.Storable := by
  obtain ⟨⟨_, heads, dim, blockTokens⟩, bits, _, _⟩ :=
    CacheSpec.validate_eq_ok.mp validated.valid
  have group := packable.group_pos
  have nonnegative := CacheSpec.sized_of_validate validated.valid group.le
  have payload := nonnegative.payloadBytes
  constructor
  · exact validated.valid
  · exact group
  · exact packable.aligned
  · constructor
    · unfold FitsU32
      omega
    · exact ⟨blockTokens.le, validated.blockTokens⟩
    · exact ⟨heads.le, validated.kvHeads⟩
    · exact ⟨dim.le, validated.headDim⟩
    · exact ⟨group.le, validated.groupSize⟩
    · refine ⟨?_, validated.payloadBytes⟩
      omega

omit arith in
theorem WriteInput.storeInput (input : spec.WriteInput F keys values tokens)
    (validated : spec.Validated) (packable : spec.Packable tokens) :
    StoreInput F keys values spec tokens where
  storable := validated.storable packable
  keyFloating := input.keyFloating
  valueFloating := input.valueFloating
  keyShape := input.keyShape
  valueShape := input.valueShape
  blocksFit := packable.blocks
  layersFit := validated.layers.le

theorem writable_of_packable (input : spec.WriteInput F keys values tokens)
    (validated : spec.Validated) (packable : spec.Packable tokens) :
    spec.Writable F crc32 keys values tokens := by
  have storable := validated.storable packable
  obtain ⟨counts, whole⟩ := storable.counts
  have sized := CacheSpec.sized_of_validate validated.valid packable.group_pos.le
  constructor
  · exact packable.group_pos
  · exact counts
  · exact whole
  · intro index member
    obtain ⟨written, same, faithful⟩ :=
      (input.storeInput validated packable).produced crc32 index member
    obtain ⟨packed, encoded, _⟩ := faithful.produced
    rw [same] at packed
    refine ⟨written.block, written.record, _, packed, encoded, ?_⟩
    rw [faithful.stores.shaped.payloadLength, sized.payloadBytes]

end Sufficient

section Necessary

variable {F : Type} [arith : QuantArith F] {α β : Type} [keyElement : TorchElement α F]
  [valueElement : TorchElement β F] {crc32 : Bytes → UInt32} {spec : CacheSpec}
  {keys : Tensor α} {values : Tensor β} {tokens : Nat}

omit arith in
theorem shape_of_paddedBlock {tensor x : Tensor α} {valid : Int} {index : BlockIndex}
    (padded : paddedBlock F tensor spec valid index = .ok x) :
    x.shape = spec.blockShape.map Int.toNat := by
  obtain ⟨_, _, copied⟩ := bind_eq_ok.mp padded
  unfold Tensor.copyInto0 at copied
  split at copied
  · rw [← Except.ok.inj copied]
    rfl
  · cases copied

theorem accepts_of_packBlock {index : BlockIndex} {block : PackedKVBlock}
    (packed : packBlock F keys values spec index = .ok block) :
    Accepts spec.bits spec.groupSize spec.headDim.toNat ∧ block.block = index.block := by
  obtain ⟨k, padded, rest⟩ := bind_eq_ok.mp packed
  obtain ⟨_, _, rest⟩ := bind_eq_ok.mp rest
  obtain ⟨_, quantized, rest⟩ := bind_eq_ok.mp rest
  obtain ⟨_, _, rest⟩ := bind_eq_ok.mp rest
  have shape : k.shape = [spec.blockTokens.toNat, spec.kvHeads.toNat] ++
      [spec.headDim.toNat] := shape_of_paddedBlock padded
  obtain ⟨accepts, _⟩ := accepts_of_quantizeTensor shape quantized
  constructor
  · exact accepts
  · rw [← Except.ok.inj rest]

theorem block_lt_of_encodeRecord {block : PackedKVBlock} {record : Bytes} {checksum : Int}
    (encoded : encodeRecord crc32 block spec = .ok (record, checksum)) :
    block.block < 2 ^ 32 := by
  unfold encodeRecord at encoded
  split at encoded
  · cases encoded
  obtain ⟨_, packed, _⟩ := bind_eq_ok.mp encoded
  have fits := fits_of_packFields packed (4, block.block) (by
    simp [headerFields, Format.headerWidths, List.replicate])
  norm_num at fits ⊢
  exact fits.2

theorem packable_of_writable (input : spec.WriteInput F keys values tokens)
    (validated : spec.Validated) (writable : spec.Writable F crc32 keys values tokens) :
    spec.Packable tokens := by
  obtain ⟨⟨layers, _, _, blockTokens⟩, bits, _, _⟩ :=
    CacheSpec.validate_eq_ok.mp validated.valid
  have group := writable.group_pos
  have member : ∀ block < blockCount tokens spec.blockTokens.toNat,
      (⟨0, block, block * spec.blockTokens.toNat⟩ : BlockIndex) ∈
        blockIndices spec.layers.toNat tokens spec.blockTokens.toNat := by
    intro block inside
    rw [blockIndices_eq]
    apply List.mem_flatMap.mpr
    refine ⟨0, List.mem_range.mpr (by omega), ?_⟩
    exact List.mem_map.mpr ⟨block, List.mem_range.mpr inside, rfl⟩
  have first : 0 < blockCount tokens spec.blockTokens.toNat := by
    apply (lt_blockCount (by omega)).mpr
    rw [Nat.zero_mul]
    exact input.some_token
  constructor
  · exact group
  · obtain ⟨_, _, _, packed, _⟩ := writable.blocks _ (member 0 first)
    obtain ⟨accepts, _⟩ := accepts_of_packBlock packed
    have aligned : ((perByte spec.bits : Nat) : Int) ∣ spec.groupSize := by
      rw [← Int.toNat_of_nonneg group.le]
      exact_mod_cast accepts.aligned
    have width : ((perByte spec.bits : Nat) : Int) = 8 / spec.bits := by
      rcases bits with two | four
      · rw [two]
        decide
      · rw [four]
        decide
    rw [← width]
    exact Int.fmod_eq_zero_of_dvd aligned
  · by_contra many
    obtain ⟨_, _, _, packed, encoded, _⟩ := writable.blocks _ (member (2 ^ 32) (by omega))
    have below := block_lt_of_encodeRecord encoded
    rw [(accepts_of_packBlock packed).2] at below
    norm_num at below

/-- A validated specification can be written exactly when its group size is positive and
pack-aligned and the number of the last block fits the header. -/
theorem writable_iff_packable (input : spec.WriteInput F keys values tokens)
    (validated : spec.Validated) :
    spec.Writable F crc32 keys values tokens ↔ spec.Packable tokens := by
  constructor
  · exact packable_of_writable input validated
  · exact writable_of_packable input validated

end Necessary

/-- Two tokens of a specification with pack-aligned groups. -/
theorem writable_iff_packable_tiny : tinySpec.Writable ℚ Zlib.crc32 tinyKeys tinyKeys 2 := by
  have input : tinySpec.WriteInput ℚ tinyKeys tinyKeys 2 := by
    constructor <;> decide
  have validated : tinySpec.Validated := by
    constructor <;> decide
  apply (writable_iff_packable input validated).mpr
  constructor <;> decide

/-- Groups of one value, half a byte of codes. -/
def oddSpec : CacheSpec := ⟨1, 1, 2, 1, 4, 1⟩

def oddKeys : Tensor ℚ := ⟨[1, 1, 1, 2], [1, -1], rfl⟩

/-- `validate` accepts the specification, and the quantizer refuses its first block. -/
theorem oddSpec_not_writable :
    oddSpec.Validated ∧ oddSpec.WriteInput ℚ oddKeys oddKeys 1 ∧
      packBlock ℚ oddKeys oddKeys oddSpec ⟨0, 0, 0⟩ =
        .error (.valueError "group_size must be positive and pack-aligned") ∧
      ¬ oddSpec.Writable ℚ Zlib.crc32 oddKeys oddKeys 1 := by
  have validated : oddSpec.Validated := by
    constructor <;> decide
  have input : oddSpec.WriteInput ℚ oddKeys oddKeys 1 := by
    constructor <;> decide
  refine ⟨validated, input, rfl, ?_⟩
  intro writable
  have aligned := (packable_of_writable input validated writable).aligned
  revert aligned
  decide

end CacheSpec

end KVSSD

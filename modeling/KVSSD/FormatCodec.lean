import KVSSD.Format
import Mathlib.Algebra.BigOperators.Group.List.Lemmas
import Mathlib.Data.List.TakeWhile

/-!
# The record codec

What encoding writes and what decoding accepts, for every specification whose
sections have non-negative sizes.  `decodePayload_eq_ok` is the inversion lemma
of the decoder: a returned block is exactly the payload bytes cut at the sizes
the specification gives.  `encodeRecord_spec` and `decode_encode` are the two
halves of the round trip.
-/

namespace KVSSD

open KVSSD.Python KVSSD.Struct

theorem halfBytes_length (half : UInt16) : (halfBytes half).length = 2 :=
  leBytes_length 2 half.toNat

theorem ofNat_leNat_halfBytes (half : UInt16) :
    UInt16.ofNat (leNat (halfBytes half)) = half := by
  have small := half.toNat_lt
  rw [halfBytes, leNat_leBytes (by simpa using small), UInt16.ofNat_toNat]

theorem halfBytes_ofNat_leNat (low high : UInt8) :
    halfBytes (UInt16.ofNat (leNat [low, high])) = [low, high] := by
  have small := leNat_lt [low, high]
  have kept : (UInt16.ofNat (leNat [low, high])).toNat = leNat [low, high] := by
    rw [UInt16.toNat_ofNat']
    exact Nat.mod_eq_of_lt (by simpa using small)
  rw [halfBytes, kept]
  exact leBytes_leNat [low, high]

theorem halvesOf_flatMap (halves : List UInt16) :
    halvesOf (halves.flatMap halfBytes) = .ok halves := by
  induction halves with
  | nil => rfl
  | cons half halves induction =>
      obtain ⟨low, high, bytes⟩ : ∃ low high, halfBytes half = [low, high] :=
        List.length_eq_two.mp (halfBytes_length half)
      have restored := ofNat_leNat_halfBytes half
      rw [bytes] at restored
      rw [List.flatMap_cons, bytes]
      simp [halvesOf, induction, restored, pure, Except.pure]

theorem flatMap_halvesOf {bytes : Bytes} {halves : List UInt16}
    (viewed : halvesOf bytes = .ok halves) :
    halves.flatMap halfBytes = bytes := by
  induction bytes using halvesOf.induct generalizing halves with
  | case1 =>
      cases viewed
      rfl
  | case2 byte => cases viewed
  | case3 low high bytes induction =>
      obtain ⟨rest, restViewed, result⟩ := bind_eq_ok.mp viewed
      cases result
      rw [List.flatMap_cons, induction restViewed, halfBytes_ofNat_leNat]
      rfl

theorem length_flatMap_halfBytes (halves : List UInt16) :
    (halves.flatMap halfBytes).length = 2 * halves.length := by
  induction halves with
  | nil => rfl
  | cons half halves induction =>
      rw [List.flatMap_cons, List.length_append, induction, halfBytes_length,
        List.length_cons]
      ring

@[simp] theorem scalesBytes_length (scales : Tensor UInt16) :
    (scalesBytes scales).length = 2 * scales.shape.prod := by
  rw [scalesBytes, length_flatMap_halfBytes, scales.size_eq]

theorem reshapeInts_eq_ok {α : Type} {tensor result : Tensor α}
    {shape : List Int} (sized : ∀ size ∈ shape, 0 ≤ size) :
    tensor.reshapeInts shape = .ok result ↔
      result.shape = shape.map Int.toNat ∧ result.data = tensor.data := by
  have whole : shape.takeWhile (0 ≤ ·) = shape :=
    List.takeWhile_eq_self_iff.mpr fun size member => decide_eq_true (sized size member)
  simp only [Tensor.reshapeInts, whole, List.drop_length]
  exact Tensor.reshape_eq_ok

namespace CacheSpec

/-- Number of scales of one tensor of a block. -/
def scaleSize (spec : CacheSpec) : Nat := (spec.scaleShape.map Int.toNat).prod

/-- Number of packed bytes of one tensor of a block. -/
def packedSize (spec : CacheSpec) : Nat := (spec.packedShape.map Int.toNat).prod

/-- Number of payload bytes. -/
def payloadSize (spec : CacheSpec) : Nat :=
  2 * spec.scaleSize + 2 * spec.scaleSize + spec.packedSize + spec.packedSize

/-- Every dimension of a section is a size. -/
structure Sized (spec : CacheSpec) : Prop where
  groupSize : spec.groupSize ≠ 0
  tokens : 0 ≤ spec.blockTokens
  heads : 0 ≤ spec.kvHeads
  groups : 0 ≤ spec.groups
  packedDim : 0 ≤ spec.packedDim

variable {spec : CacheSpec}

theorem Sized.scaleShape (sized : spec.Sized) :
    ∀ size ∈ spec.scaleShape, 0 ≤ size := by
  simp [CacheSpec.scaleShape, sized.tokens, sized.heads, sized.groups]

theorem Sized.packedShape (sized : spec.Sized) :
    ∀ size ∈ spec.packedShape, 0 ≤ size := by
  simp [CacheSpec.packedShape, sized.tokens, sized.heads, sized.packedDim]

theorem Sized.scaleCount (sized : spec.Sized) :
    spec.scaleCount = (spec.scaleSize : Int) := by
  have tokens := Int.toNat_of_nonneg sized.tokens
  have heads := Int.toNat_of_nonneg sized.heads
  have groups := Int.toNat_of_nonneg sized.groups
  simp [CacheSpec.scaleCount, scaleSize, CacheSpec.scaleShape, tokens, heads,
    groups, Int.mul_assoc]

theorem Sized.packedCount (sized : spec.Sized) :
    spec.packedCount = (spec.packedSize : Int) := by
  have tokens := Int.toNat_of_nonneg sized.tokens
  have heads := Int.toNat_of_nonneg sized.heads
  have packedDim := Int.toNat_of_nonneg sized.packedDim
  simp [CacheSpec.packedCount, packedSize, CacheSpec.packedShape, tokens, heads,
    packedDim, Int.mul_assoc]

theorem Sized.payloadBytes (sized : spec.Sized) :
    spec.payloadBytes = (spec.payloadSize : Int) := by
  rw [CacheSpec.payloadBytes, sized.scaleCount, sized.packedCount, payloadSize]
  push_cast
  ring

end CacheSpec

section Payload

variable {spec : CacheSpec}

theorem scaleTensor_eq_ok (sized : spec.Sized) {bytes : Bytes}
    {scales : Tensor UInt16} :
    scaleTensor spec bytes = .ok scales ↔
      scales.shape = spec.scaleShape.map Int.toNat ∧
        scalesBytes scales = bytes := by
  constructor
  · intro success
    obtain ⟨halves, viewed, reshaped⟩ := bind_eq_ok.mp success
    obtain ⟨shape, items⟩ := (reshapeInts_eq_ok sized.scaleShape).mp reshaped
    refine ⟨shape, ?_⟩
    rw [scalesBytes, items]
    exact flatMap_halvesOf viewed
  · rintro ⟨shape, bytesEq⟩
    subst bytesEq
    refine bind_eq_ok.mpr ⟨scales.data, halvesOf_flatMap scales.data, ?_⟩
    exact (reshapeInts_eq_ok sized.scaleShape).mpr ⟨shape, rfl⟩

theorem codeTensor_eq_ok (sized : spec.Sized) {bytes : Bytes}
    {codes : Tensor UInt8} :
    codeTensor spec bytes = .ok codes ↔
      codes.shape = spec.packedShape.map Int.toNat ∧ codes.data = bytes :=
  reshapeInts_eq_ok sized.packedShape

/-- The shapes a decoded block has under a specification. -/
structure PackedKVBlock.Shaped (spec : CacheSpec) (block : PackedKVBlock) :
    Prop where
  keyScales : block.key.scales.shape = spec.scaleShape.map Int.toNat
  valueScales : block.value.scales.shape = spec.scaleShape.map Int.toNat
  keyPacked : block.key.packed.shape = spec.packedShape.map Int.toNat
  valuePacked : block.value.packed.shape = spec.packedShape.map Int.toNat
  keyShape : block.key.originalShape = spec.blockShape.map Int.toNat
  valueShape : block.value.originalShape = spec.blockShape.map Int.toNat
  keyBits : block.key.bits = spec.bits
  valueBits : block.value.bits = spec.bits
  keyGroup : block.key.groupSize = spec.groupSize
  valueGroup : block.value.groupSize = spec.groupSize

theorem PackedKVBlock.Shaped.scalesLength {block : PackedKVBlock}
    (shaped : block.Shaped spec) :
    (scalesBytes block.key.scales).length = 2 * spec.scaleSize ∧
      (scalesBytes block.value.scales).length = 2 * spec.scaleSize := by
  simp [shaped.keyScales, shaped.valueScales, CacheSpec.scaleSize]

theorem PackedKVBlock.Shaped.packedLength {block : PackedKVBlock}
    (shaped : block.Shaped spec) :
    block.key.packed.data.length = spec.packedSize ∧
      block.value.packed.data.length = spec.packedSize := by
  simp [Tensor.size_eq, shaped.keyPacked, shaped.valuePacked,
    CacheSpec.packedSize]

theorem PackedKVBlock.Shaped.payloadLength {block : PackedKVBlock}
    (shaped : block.Shaped spec) :
    (payload block).length = spec.payloadSize := by
  obtain ⟨keyScales, valueScales⟩ := shaped.scalesLength
  obtain ⟨keyPacked, valuePacked⟩ := shaped.packedLength
  simp only [payload, List.length_append, keyScales, valueScales, keyPacked,
    valuePacked, CacheSpec.payloadSize]

theorem take_drop_sections (raw : Bytes) (start first second : Nat) :
    (raw.drop start).take first ++ (raw.drop (start + first)).take second =
      (raw.drop start).take (first + second) := by
  rw [List.take_add, List.drop_drop]

theorem read_section {raw front back : Bytes} {start size : Nat}
    (layout : raw.drop start = front ++ back) (length : front.length = size) :
    (raw.drop start).take size = front ∧ raw.drop (start + size) = back := by
  constructor
  · rw [layout, List.take_left' length]
  · rw [← List.drop_drop, layout, List.drop_left' length]

private theorem rebuild {q : QuantizedTensor} {shape : List Nat}
    {bits groupSize : Int} (shapes : q.originalShape = shape)
    (widths : q.bits = bits) (groups : q.groupSize = groupSize) :
    QuantizedTensor.mk q.packed q.scales shape bits groupSize = q := by
  subst shapes
  subst widths
  subst groups
  rfl

/-- A block comes out of the decoder exactly when it has the shapes of the
specification and its payload is what stands behind the header. -/
theorem decodePayload_eq_ok (sized : spec.Sized) {raw : Bytes}
    {layer block valid : Int} {result : PackedKVBlock} :
    decodePayload raw spec layer block valid = .ok result ↔
      result.Shaped spec ∧ result.layer = layer ∧ result.block = block ∧
        result.validTokens = valid ∧
        payload result = (raw.drop Format.headerSize).take spec.payloadSize := by
  have scaleBytes : spec.scaleCount * 2 = ((2 * spec.scaleSize : Nat) : Int) := by
    rw [sized.scaleCount]
    push_cast
    ring
  unfold decodePayload
  rw [if_neg sized.groupSize]
  simp only [scaleBytes, sized.packedCount, ← Nat.cast_add, pySlice_natCast,
    Nat.add_sub_cancel_left]
  constructor
  · intro success
    obtain ⟨ks, ksOk, success⟩ := bind_eq_ok.mp success
    obtain ⟨vs, vsOk, success⟩ := bind_eq_ok.mp success
    obtain ⟨kp, kpOk, success⟩ := bind_eq_ok.mp success
    obtain ⟨vp, vpOk, success⟩ := bind_eq_ok.mp success
    cases success
    obtain ⟨ksShape, ksBytes⟩ := (scaleTensor_eq_ok sized).mp ksOk
    obtain ⟨vsShape, vsBytes⟩ := (scaleTensor_eq_ok sized).mp vsOk
    obtain ⟨kpShape, kpBytes⟩ := (codeTensor_eq_ok sized).mp kpOk
    obtain ⟨vpShape, vpBytes⟩ := (codeTensor_eq_ok sized).mp vpOk
    refine ⟨⟨ksShape, vsShape, kpShape, vpShape, rfl, rfl, rfl, rfl, rfl, rfl⟩,
      rfl, rfl, rfl, ?_⟩
    simp only [payload, ksBytes, vsBytes, kpBytes, vpBytes,
      CacheSpec.payloadSize]
    rw [take_drop_sections, Nat.add_assoc, take_drop_sections,
      Nat.add_assoc Format.headerSize, take_drop_sections]
  · rintro ⟨shaped, rfl, rfl, rfl, payloadEq⟩
    obtain ⟨keyScales, valueScales⟩ := shaped.scalesLength
    obtain ⟨keyPacked, valuePacked⟩ := shaped.packedLength
    obtain ⟨rest, layout⟩ : ∃ rest,
        raw.drop Format.headerSize = payload result ++ rest :=
      ⟨(raw.drop Format.headerSize).drop spec.payloadSize, by
        rw [payloadEq, List.take_append_drop]⟩
    simp only [payload, List.append_assoc] at layout
    obtain ⟨ksBytes, layout⟩ := read_section layout keyScales
    obtain ⟨vsBytes, layout⟩ := read_section layout valueScales
    obtain ⟨kpBytes, layout⟩ := read_section layout keyPacked
    obtain ⟨vpBytes, _⟩ := read_section layout valuePacked
    rw [ksBytes, vsBytes, kpBytes, vpBytes,
      (scaleTensor_eq_ok sized).mpr ⟨shaped.keyScales, rfl⟩, ok_bind,
      (scaleTensor_eq_ok sized).mpr ⟨shaped.valueScales, rfl⟩, ok_bind,
      (codeTensor_eq_ok sized).mpr ⟨shaped.keyPacked, rfl⟩, ok_bind,
      (codeTensor_eq_ok sized).mpr ⟨shaped.valuePacked, rfl⟩, ok_bind]
    rw [rebuild shaped.keyShape shaped.keyBits shaped.keyGroup,
      rebuild shaped.valueShape shaped.valueBits shaped.valueGroup]
    rfl

end Payload

/-- What `validate` accepts. -/
theorem CacheSpec.validate_eq_ok {spec : CacheSpec} :
    spec.validate = .ok () ↔
      (0 < spec.layers ∧ 0 < spec.kvHeads ∧ 0 < spec.headDim ∧
        0 < spec.blockTokens) ∧
      (spec.bits = 2 ∨ spec.bits = 4) ∧
      spec.groupSize ≠ 0 ∧ spec.headDim.fmod spec.groupSize = 0 := by
  unfold CacheSpec.validate
  by_cases dims :
      min (min spec.layers spec.kvHeads) (min spec.headDim spec.blockTokens) ≤ 0
  · rw [if_pos dims]
    constructor
    · intro impossible
      cases impossible
    · rintro ⟨positive, _⟩
      omega
  · rw [if_neg dims]
    have positive : 0 < spec.layers ∧ 0 < spec.kvHeads ∧ 0 < spec.headDim ∧
        0 < spec.blockTokens := by omega
    by_cases bits : spec.bits ≠ 2 ∧ spec.bits ≠ 4
    · rw [if_pos bits]
      constructor
      · intro impossible
        cases impossible
      · rintro ⟨_, cases, _⟩
        omega
    · rw [if_neg bits]
      have bitsCases : spec.bits = 2 ∨ spec.bits = 4 := by omega
      by_cases zero : spec.groupSize = 0
      · simp [pyMod, zero]
      · by_cases divides : spec.headDim.fmod spec.groupSize = 0
        · simp [pyMod, zero, divides, positive, bitsCases]
        · simp [pyMod, zero, divides]

theorem CacheSpec.sized_of_validate {spec : CacheSpec}
    (valid : spec.validate = .ok ()) (groupNonneg : 0 ≤ spec.groupSize) :
    spec.Sized := by
  obtain ⟨⟨_, heads, dim, tokens⟩, bits, group, _⟩ :=
    CacheSpec.validate_eq_ok.mp valid
  have bitsNonneg : 0 ≤ spec.bits := by omega
  exact
    { groupSize := group
      tokens := Int.le_of_lt tokens
      heads := Int.le_of_lt heads
      groups := Int.fdiv_nonneg (Int.le_of_lt dim) groupNonneg
      packedDim := Int.fdiv_nonneg
        (Int.mul_nonneg (Int.le_of_lt dim) bitsNonneg) (by norm_num) }

namespace Header

/-- The bytes the checksum of a record runs over: as many as the header
states, or as many as the buffer holds. -/
def checkedBytes (raw : Bytes) : Bytes :=
  (raw.drop Format.headerSize).take (Header.read raw).payloadLen

/-- The checks of `decode_record` before the checksum. -/
structure Accepts (raw : Bytes) (spec : CacheSpec) : Prop where
  whole : Format.headerSize ≤ raw.length
  magic : (Header.read raw).magic = Format.magic
  version : (Header.read raw).version = 1
  layout : (Header.read raw).Matches spec

theorem Matches.sized {header : Header} {spec : CacheSpec}
    (agrees : header.Matches spec) (valid : spec.validate = .ok ()) :
    spec.Sized := by
  refine CacheSpec.sized_of_validate valid ?_
  have group := agrees.2.2.2.2
  omega

end Header

/-- `decode_record` returns exactly when the header is accepted, the checksum
holds and the payload decodes. -/
theorem decodeRecord_eq_ok {crc32 : Bytes → UInt32} {raw : Bytes}
    {spec : CacheSpec} {verifyCrc : Bool} {result : PackedKVBlock} :
    decodeRecord crc32 raw spec verifyCrc = .ok result ↔
      Header.Accepts raw spec ∧
        (verifyCrc = true → (crc32 (Header.checkedBytes raw)).toNat =
          (Header.read raw).crc) ∧
        decodePayload raw spec (Header.read raw).layer (Header.read raw).block
          (Header.read raw).valid = .ok result := by
  have checked : pySlice raw (Format.headerSize : Int)
      ((Format.headerSize : Int) + ((Header.read raw).payloadLen : Int)) =
        Header.checkedBytes raw := pySlice_count raw _ _
  unfold decodeRecord unpackHeader
  by_cases short : raw.length < Format.headerSize
  · rw [if_pos short]
    constructor
    · intro impossible
      cases impossible
    · rintro ⟨accepted, _⟩
      exact absurd accepted.whole (Nat.not_le_of_lt short)
  · rw [if_neg short, ok_bind, checked]
    by_cases identity : (Header.read raw).magic ≠ Format.magic ∨
        (Header.read raw).version ≠ 1
    · rw [if_pos identity]
      constructor
      · intro impossible
        cases impossible
      · rintro ⟨accepted, _⟩
        rcases identity with other | other
        · exact absurd accepted.magic other
        · exact absurd accepted.version other
    · rw [if_neg identity]
      by_cases layout : (Header.read raw).Matches spec
      · have accepted : Header.Accepts raw spec :=
          { whole := Nat.le_of_not_lt short
            magic := by
              by_contra other
              exact identity (Or.inl other)
            version := by
              by_contra other
              exact identity (Or.inr other)
            layout := layout }
        rw [if_neg (not_not_intro layout)]
        by_cases mismatch : verifyCrc = true ∧
            (crc32 (Header.checkedBytes raw)).toNat ≠ (Header.read raw).crc
        · rw [if_pos mismatch]
          constructor
          · intro impossible
            cases impossible
          · rintro ⟨_, checksum, _⟩
            exact absurd (checksum mismatch.1) mismatch.2
        · rw [if_neg mismatch]
          have checksum : verifyCrc = true →
              (crc32 (Header.checkedBytes raw)).toNat =
                (Header.read raw).crc := by
            intro verify
            by_contra other
            exact mismatch ⟨verify, other⟩
          exact ⟨fun decoded => ⟨accepted, checksum, decoded⟩,
            fun facts => facts.2.2⟩
      · rw [if_pos layout]
        constructor
        · intro impossible
          cases impossible
        · rintro ⟨accepted, _⟩
          exact absurd accepted.layout layout

end KVSSD

import KVSSD.VllmConfig
import KVSSD.VllmRoundTrip
import KVSSD.VllmSlots

/-!
# Which configurations can store their blocks

The constructor of the tier checks the bit width and the alignment of the group size, the codec
asks in addition that a block consists of whole items in whole groups.  An accepted configuration
can store its blocks exactly when the stride of its primary cache has such a size.
-/

namespace KVSSD

open KVSSD.Python KVSSD.Struct KVSSD.Quant

namespace TierConfig

/-- Every slot of the cache encodes, whatever it holds, and its record decodes into every slot. -/
def StoresEvery (F : Type) [QuantArith F] [DtypeArith F] (crc32 : Bytes → UInt32)
    (config : TierConfig) (view : PrimaryView) : Prop :=
  ∀ primary : Bytes, primary.length = view.bytes.length →
    ∀ block, config.Fits primary.length block →
      ∃ record, encodeVllmBlock F crc32 (config.blockView primary block) config.bits
          config.groupSize config.dtype = .ok record ∧
        ∀ target : Bytes, target.length = view.bytes.length →
          ∀ slot, config.Fits target.length slot →
            ∃ result, decodeVllmBlock F crc32 record (config.blockView target slot) = .ok result

/-- A row consists of whole items in whole groups. -/
structure WholeGroups (config : TierConfig) : Prop where
  items : config.dtype.itemSize ∣ config.blockBytes
  groups : config.groupSize.toNat ∣ config.blockBytes / config.dtype.itemSize

variable {config : TierConfig}

section Accepted

variable {F : Type} [arith : QuantArith F] [formats : DtypeArith F] {crc32 : Bytes → UInt32}
  {view : PrimaryView} {options : TierOptions}

theorem Accepted.accepts (accepted : config.Accepted view options) (whole : config.WholeGroups) :
    Accepts config.bits config.groupSize (config.blockBytes / config.dtype.itemSize) := by
  constructor
  · exact accepted.bits_cases
  · exact accepted.group_pos
  · exact whole.groups
  · exact accepted.aligned

theorem Accepted.storesEvery (accepted : config.Accepted view options)
    (positive : 0 < config.blockBytes) (bound : config.blockBytes < 2 ^ 32)
    (whole : config.WholeGroups) : config.StoresEvery F crc32 view := by
  have accepts := accepted.accepts whole
  have rowLength := (Nat.div_mul_cancel whole.items).symm
  have items : 0 < config.blockBytes / config.dtype.itemSize := by
    apply Nat.div_pos
    · exact Nat.le_of_dvd positive whole.items
    · exact config.dtype.itemSize_pos
  have few : config.blockBytes / config.dtype.itemSize ≤ config.blockBytes := Nat.div_le_self _ _
  have groupFits : config.groupSize.toNat ≤ config.blockBytes / config.dtype.itemSize :=
    Nat.le_of_dvd items whole.groups
  intro primary _ block fits
  have viewLength := blockView_length fits
  have nonempty : config.blockView primary block ≠ [] := by
    apply List.ne_nil_of_length_pos
    rw [viewLength]
    exact positive
  obtain ⟨record, encoded, _, _⟩ := exists_encodeVllmBlock F crc32 accepts nonempty
    (viewLength.trans rowLength) (by omega) (by omega)
  refine ⟨record, encoded, ?_⟩
  intro target _ slot slotFits
  have same := (blockView_length slotFits).trans viewLength.symm
  obtain ⟨restored, info, _, _, decoded⟩ := decodeVllmBlock_encode encoded same
  exact ⟨_, decoded⟩

theorem StoresEvery.wholeGroups (stores : config.StoresEvery F crc32 view)
    (some_row : config.blockBytes ≤ view.bytes.length) : config.WholeGroups := by
  have fits : config.Fits view.bytes.length 0 := by
    constructor
    · exact Int.le_refl 0
    · simpa using some_row
  obtain ⟨record, encoded, _⟩ := stores view.bytes rfl 0 fits
  obtain ⟨items, values, q, fields, encodes⟩ := encodeVllmBlock_inv encoded
  have rowLength := (blockView_length fits).symm.trans encodes.length
  obtain ⟨accepts, _⟩ := quantizeTensor_flat encodes.shape encodes.quantized
  have quotient : config.blockBytes / config.dtype.itemSize = items := by
    rw [rowLength, Nat.mul_div_cancel _ config.dtype.itemSize_pos]
  constructor
  · exact ⟨items, rowLength.trans (Nat.mul_comm _ _)⟩
  · rw [quotient]
    exact accepts.group_dvd

end Accepted

/-- An accepted configuration stores every block of its cache exactly when the cache is empty or
its rows are whole groups of items. -/
theorem storesEvery_iff_wholeGroups {F : Type} [arith : QuantArith F] [formats : DtypeArith F]
    {crc32 : Bytes → UInt32} {vllmAvailable : Bool} {spec : OffloadingSpec} {view : PrimaryView}
    {options : TierOptions} {config : TierConfig}
    (accepted : TierConfig.init vllmAvailable spec view options = .ok config)
    (positive : 0 < config.blockBytes) (bound : config.blockBytes < 2 ^ 32)
    (wholeRows : config.blockBytes ∣ view.bytes.length) :
    config.StoresEvery F crc32 view ↔ view.bytes = [] ∨ config.WholeGroups := by
  constructor
  · intro stores
    by_cases empty : view.bytes = []
    · exact .inl empty
    · apply Or.inr
      apply stores.wholeGroups
      apply Nat.le_of_dvd
      · exact List.length_pos_iff.mpr empty
      · exact wholeRows
  · rintro (empty | whole)
    · intro primary length block fits
      obtain ⟨slot, rfl, within⟩ := fits.slot
      rw [length, empty, List.length_nil] at within
      omega
    · exact (accepted_of_init accepted).storesEvery positive bound whole

/-- Two rows of 64 items of float16. -/
theorem storesEvery_iff_wholeGroups_tiny : ∃ config,
    TierConfig.init true ⟨some "org/model", 1, 1⟩ ⟨[128, 2], List.replicate 256 0⟩
        { rootDir := "/mnt/nvme" } = .ok config ∧
      config.StoresEvery ℚ Zlib.crc32 ⟨[128, 2], List.replicate 256 0⟩ := by
  have accepted := @init_eq_ok ⟨some "org/model", 1, 1⟩ ⟨[128, 2], List.replicate 256 0⟩
    { rootDir := "/mnt/nvme" } .float16 128 [2] (Or.inr rfl) (by decide) (by decide) (by decide)
    rfl rfl
  have wholeRows : 128 ∣ (List.replicate 256 (0 : UInt8)).length := by
    rw [List.length_replicate]
    decide
  refine ⟨_, accepted, ?_⟩
  apply (storesEvery_iff_wholeGroups accepted (by decide) (by decide) wholeRows).mpr
  apply Or.inr
  constructor
  · decide
  · decide

/-- Rows of two items pass the constructor with the default group size and cannot be stored. -/
theorem smallRow_not_stored : ∃ config,
    TierConfig.init true ⟨some "org/model", 1, 1⟩ ⟨[4, 2], List.replicate 8 0⟩
        { rootDir := "/mnt/nvme" } = .ok config ∧
      config.Fits 8 0 ∧
      encodeVllmBlock ℚ Zlib.crc32 (config.blockView (List.replicate 8 0) 0) config.bits
          config.groupSize config.dtype =
        .error (.valueError "vLLM block has 2 values, not divisible by group_size=32") ∧
      ¬ config.StoresEvery ℚ Zlib.crc32 ⟨[4, 2], List.replicate 8 0⟩ := by
  have accepted := @init_eq_ok ⟨some "org/model", 1, 1⟩ ⟨[4, 2], List.replicate 8 0⟩
    { rootDir := "/mnt/nvme" } .float16 4 [2] (Or.inr rfl) (by decide) (by decide) (by decide)
    rfl rfl
  refine ⟨_, accepted, by decide, ?_, ?_⟩
  · rfl
  · intro stores
    have whole := stores.wholeGroups (by decide)
    exact absurd whole.groups (by decide)

end TierConfig

end KVSSD

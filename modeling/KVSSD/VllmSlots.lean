import KVSSD.Vllm

/-!
# Slots of the primary cache

A slot that lies in the cache can be read and overwritten without touching another.
-/

namespace KVSSD

open KVSSD.Python KVSSD.Struct

namespace TierConfig

/-- A slot lies in a cache of so many bytes. -/
def Fits (config : TierConfig) (length : Nat) (block : Int) : Prop :=
  0 ≤ block ∧ (block + 1) * config.blockBytes ≤ length

/-- A byte of the cache lies in a slot. -/
def Inside (config : TierConfig) (block : Int) (index : Nat) : Prop :=
  block * config.blockBytes ≤ index ∧ index < (block + 1) * config.blockBytes

instance {config : TierConfig} {length : Nat} {block : Int} :
    Decidable (config.Fits length block) :=
  inferInstanceAs (Decidable (_ ∧ _))

variable {config : TierConfig} {primary contents : Bytes} {block other : Int}

theorem Fits.slot {length : Nat} (fits : config.Fits length block) :
    ∃ slot : Nat, block = slot ∧ slot * config.blockBytes + config.blockBytes ≤ length := by
  obtain ⟨slot, rfl⟩ := Int.eq_ofNat_of_zero_le fits.1
  refine ⟨slot, rfl, ?_⟩
  have within : ((slot : Int) + 1) * config.blockBytes ≤ length := fits.2
  have cast : ((slot : Int) + 1) * config.blockBytes =
      ((slot * config.blockBytes + config.blockBytes : Nat) : Int) := by
    push_cast
    ring
  rw [cast] at within
  exact_mod_cast within

theorem inside_natCast {slot index : Nat} :
    config.Inside (slot : Int) index ↔
      slot * config.blockBytes ≤ index ∧ index < slot * config.blockBytes + config.blockBytes := by
  unfold Inside
  rw [add_mul, one_mul]
  norm_cast

theorem blockView_natCast (primary : Bytes) (slot : Nat) :
    config.blockView primary slot =
      (primary.drop (slot * config.blockBytes)).take config.blockBytes := by
  have counted := pySlice_count primary (slot * config.blockBytes) config.blockBytes
  unfold blockView
  push_cast at counted
  exact counted

theorem writeBlock_natCast {slot : Nat}
    (within : slot * config.blockBytes + config.blockBytes ≤ primary.length) :
    config.writeBlock primary slot contents =
      primary.take (slot * config.blockBytes) ++ contents ++
        primary.drop (slot * config.blockBytes + config.blockBytes) := by
  have start : config.slotStart primary slot = slot * config.blockBytes := by
    have clamped := sliceBound_natCast primary.length (slot * config.blockBytes)
    rw [Nat.min_eq_left (by omega)] at clamped
    unfold slotStart
    push_cast at clamped
    exact clamped
  have stop : config.slotStop primary slot = slot * config.blockBytes + config.blockBytes := by
    have clamped := sliceBound_natCast primary.length
      (slot * config.blockBytes + config.blockBytes)
    rw [Nat.min_eq_left within] at clamped
    unfold slotStop
    push_cast at clamped
    exact clamped
  rw [writeBlock, start, stop]

theorem blockView_length (fits : config.Fits primary.length block) :
    (config.blockView primary block).length = config.blockBytes := by
  obtain ⟨slot, rfl, within⟩ := fits.slot
  rw [blockView_natCast, List.length_take, List.length_drop]
  omega

theorem writeBlock_length (fits : config.Fits primary.length block)
    (length : contents.length = config.blockBytes) :
    (config.writeBlock primary block contents).length = primary.length := by
  obtain ⟨slot, rfl, within⟩ := fits.slot
  rw [writeBlock_natCast within]
  simp only [List.length_append, List.length_take, List.length_drop, length]
  omega

theorem blockView_writeBlock (fits : config.Fits primary.length block)
    (length : contents.length = config.blockBytes) :
    config.blockView (config.writeBlock primary block contents) block = contents := by
  obtain ⟨slot, rfl, within⟩ := fits.slot
  rw [writeBlock_natCast within, blockView_natCast, List.append_assoc,
    List.drop_left' (by rw [List.length_take]; omega), List.take_left' length]

theorem getElem?_writeBlock (fits : config.Fits primary.length block)
    (length : contents.length = config.blockBytes) {index : Nat}
    (outside : ¬ config.Inside block index) :
    (config.writeBlock primary block contents)[index]? = primary[index]? := by
  obtain ⟨slot, rfl, within⟩ := fits.slot
  rw [inside_natCast] at outside
  have start : (primary.take (slot * config.blockBytes)).length = slot * config.blockBytes := by
    rw [List.length_take]
    omega
  rw [writeBlock_natCast within, List.append_assoc]
  rcases Nat.lt_or_ge index (slot * config.blockBytes) with before | after
  · rw [List.getElem?_append_left (by omega), List.getElem?_take_of_lt before]
  · rw [List.getElem?_append_right (by omega), List.getElem?_append_right (by omega),
      List.getElem?_drop]
    congr 1
    omega

theorem blockView_congr {after : Bytes} (fits : config.Fits primary.length block)
    (same : ∀ index, config.Inside block index → after[index]? = primary[index]?) :
    config.blockView after block = config.blockView primary block := by
  obtain ⟨slot, rfl, within⟩ := fits.slot
  rw [blockView_natCast, blockView_natCast]
  apply List.ext_getElem?
  intro index
  rcases Nat.lt_or_ge index config.blockBytes with inside | outside
  · rw [List.getElem?_take_of_lt inside, List.getElem?_take_of_lt inside, List.getElem?_drop,
      List.getElem?_drop]
    apply same
    rw [inside_natCast]
    omega
  · rw [List.getElem?_take_eq_none outside, List.getElem?_take_eq_none outside]

theorem Inside.unique {index : Nat} (inside : config.Inside block index)
    (also : config.Inside other index) : block = other := by
  unfold Inside at inside also
  have sizes : (0 : Int) ≤ config.blockBytes := by omega
  rcases lt_trichotomy block other with less | same | more
  · have product := Int.mul_le_mul_of_nonneg_right (show block + 1 ≤ other by omega) sizes
    omega
  · exact same
  · have product := Int.mul_le_mul_of_nonneg_right (show other + 1 ≤ block by omega) sizes
    omega

theorem blockView_writeBlock_other (fits : config.Fits primary.length block)
    (otherFits : config.Fits primary.length other)
    (length : contents.length = config.blockBytes) (different : other ≠ block) :
    config.blockView (config.writeBlock primary block contents) other =
      config.blockView primary other := by
  apply blockView_congr otherFits
  intro index inside
  apply getElem?_writeBlock fits length
  exact fun also => different (inside.unique also)

end TierConfig

end KVSSD

import KVSSD.CudaOverflow
import KVSSD.TritonAttention

/-!
# When the Triton kernel is exact

The kernel computes the offsets of its rows in integers of a fixed width.  On a
well-formed batch it agrees with the reference if and only if the offsets of the last
rows are held: it visits every row, and the first one that is not held would be read
before its tensor.
-/

namespace KVSSD

open KVSSD.Python KVSSD.Quant KVSSD.Loops KVSSD.TwosComplement

theorem exists_rowOf {blocks tokens heads row : Nat} (inside : row < blocks * tokens * heads) :
    ∃ block < blocks, ∃ token < tokens, ∃ head < heads,
      rowOf tokens heads block token head = row := by
  have heads_pos : 0 < heads := by
    apply Nat.pos_of_ne_zero
    rintro rfl
    omega
  have outer : row / heads < blocks * tokens := by
    apply Nat.div_lt_of_lt_mul
    rwa [Nat.mul_comm]
  have tokens_pos : 0 < tokens := by
    apply Nat.pos_of_ne_zero
    rintro rfl
    omega
  refine ⟨row / heads / tokens, ?_, row / heads % tokens, Nat.mod_lt _ tokens_pos,
    row % heads, Nat.mod_lt _ heads_pos, ?_⟩
  · apply Nat.div_lt_of_lt_mul
    rwa [Nat.mul_comm]
  · unfold rowOf
    rw [Nat.div_add_mod', Nat.div_add_mod']

theorem exists_queryHead {queryHeads kvHeads kvHead : Nat} (shared : kvHeads ∣ queryHeads)
    (some_head : 0 < queryHeads) (own : kvHead < kvHeads) :
    ∃ head < queryHeads, head / (queryHeads / kvHeads) = kvHead := by
  obtain ⟨ratio, rfl⟩ := shared
  have ratioPos := Nat.pos_of_mul_pos_left some_head
  refine ⟨kvHead * ratio, ?_, ?_⟩
  · exact Nat.mul_lt_mul_of_pos_right own ratioPos
  · rw [Nat.mul_div_cancel_left _ (by omega), Nat.mul_div_cancel _ ratioPos]

theorem nonneg_of_load {α : Type} {items : List α} {index : Int} {item : α}
    (read : load items index = some item) : 0 ≤ index := by
  unfold load at read
  by_contra negative
  rw [if_pos (by omega)] at read
  cases read

namespace Triton

section Defined

variable {launch : Launch} {kvHead : Int} {block token width : Nat}

theorem nonneg_of_maskedLoad {α : Type} {other item : α} {items : List α} {index : Int}
    {active : Bool} (holds : active = true)
    (read : maskedLoad active other items index = some item) : 0 ≤ index := by
  unfold maskedLoad at read
  rw [if_pos holds] at read
  exact nonneg_of_load read

theorem bases_of_value {F : Type} [KernelArith F] {packed : Tensor UInt8}
    {scales : Tensor UInt16} {result : F} (nonempty : 0 < launch.headDim)
    (defined : value (wrapped width) launch packed scales kvHead block token 0 = some result) :
    0 ≤ wrapped width
        (((block * launch.tokens + token) * launch.kvHeads + kvHead) * launch.packedDim) ∧
      0 ≤ wrapped width
        (((block * launch.tokens + token) * launch.kvHeads + kvHead) * launch.groups) := by
  have active : decide (((0 : Nat) : Int) < launch.headDim) = true := by simpa using nonempty
  unfold value at defined
  rw [byteIndex_wrapped, Option.bind_eq_bind, Option.bind_some] at defined
  obtain ⟨_, byte, defined⟩ := Option.bind_eq_some_iff.mp defined
  obtain ⟨_, index, defined⟩ := Option.bind_eq_some_iff.mp defined
  obtain ⟨_, scale, _⟩ := Option.bind_eq_some_iff.mp defined
  have byteNonneg := nonneg_of_maskedLoad active byte
  have scaleNonneg := nonneg_of_maskedLoad active scale
  rw [scaleIndex_wrapped] at index
  obtain ⟨group, divided, rfl⟩ := Option.map_eq_some_iff.mp index
  have first : group = 0 := by
    unfold divide at divided
    by_cases zero : launch.groupSize = 0
    · rw [if_pos zero] at divided
      cases divided
    · rw [if_neg zero, Nat.cast_zero, Int.zero_tdiv] at divided
      exact (Option.some.inj divided).symm
  constructor
  · rwa [Nat.zero_div, Nat.cast_zero, Int.add_zero] at byteNonneg
  · rwa [first, Int.add_zero] at scaleNonneg

end Defined

section Overflow

variable {width : Nat} {batch : PackedBatch} {sizes : BatchSizes} {lanes head : Nat}
  {query : Tensor ℝ} {scale : ℝ}
  (formed : batch.WellFormed query sizes) (nonempty : 0 < sizes.headDim)
  (wide : sizes.headDim ≤ lanes)

include formed nonempty wide in
/-- The rows that a program visited, and its row of the query, have bases that are not
negative. -/
theorem bases_of_kernel (inside : head < sizes.queryHeads) {row : List Extended} {lse : Extended}
    (returned : fusedDecodeKernel (wrapped width) (query.map Extended.real) batch (.real scale)
      (sizes.launch lanes) head = some (row, lse)) :
    0 ≤ wrapped width ((head * sizes.headDim : Nat) : Int) ∧
      ∀ block < sizes.blocks, ∀ token < sizes.tokens,
        0 ≤ wrapped width
          ((sizes.row block token (sizes.kvHead head) * sizes.packedDim : Nat) : Int) ∧
        0 ≤ wrapped width
          ((sizes.row block token (sizes.kvHead head) * sizes.groups : Nat) : Int) := by
  have first : 0 ∈ List.range (sizes.launch lanes).lanes :=
    List.mem_range.mpr (Nat.lt_of_lt_of_le nonempty wide)
  have active : decide (((0 : Nat) : Int) < (sizes.launch lanes).headDim) = true :=
    (active_iff 0).mpr nonempty
  obtain ⟨_, loaded, returned⟩ := Option.bind_eq_some_iff.mp returned
  obtain ⟨_, own, returned⟩ := Option.bind_eq_some_iff.mp returned
  obtain rfl := Option.some.inj ((formed.kvHead_launch inside).symm.trans own)
  obtain ⟨_, run, _⟩ := Option.bind_eq_some_iff.mp returned
  constructor
  · obtain ⟨_, read⟩ := exists_of_mapM loaded first
    have index := nonneg_of_maskedLoad active read
    rw [Nat.cast_zero, Int.add_zero] at index
    rw [Nat.cast_mul]
    exact index
  · intro block present token valid
    have flat := (loops_launch formed _).symm.trans run
    obtain ⟨_, _, step⟩ :=
      exists_of_foldlM flat (@mem_rounds _ _ (block, token) |>.mpr ⟨present, valid⟩)
    obtain ⟨_, _, step⟩ := Option.bind_eq_some_iff.mp step
    obtain ⟨_, keys, _⟩ := Option.bind_eq_some_iff.mp step
    obtain ⟨_, key⟩ := exists_of_mapM keys first
    have dims : 0 < (sizes.launch lanes).headDim := Int.natCast_pos.mpr nonempty
    have bases := bases_of_value dims key
    unfold BatchSizes.row rowOf
    push_cast
    exact bases

omit nonempty in
include formed wide in
/-- If all programs return, the last rows are held. -/
theorem addressed_of_kernel (small : sizes.headDim ≤ 256) (held : 32 ≤ width)
    (some_head : 0 < sizes.queryHeads)
    (returned : ∀ head < sizes.queryHeads, ∃ row lse,
      fusedDecodeKernel (wrapped width) (query.map Extended.real) batch (.real scale)
        (sizes.launch lanes) head = some (row, lse)) :
    sizes.Addressed width := by
  rcases Nat.eq_zero_or_pos sizes.headDim with empty | nonempty
  · obtain ⟨packedDim, groups⟩ := formed.widths_eq_zero empty
    have positive := Nat.two_pow_pos (width - 1)
    constructor
    · rwa [packedDim, Nat.mul_zero]
    · rwa [groups, Nat.mul_zero]
    · rwa [empty, Nat.mul_zero]
  · have rows : ∀ row < sizes.blocks * sizes.tokens * sizes.kvHeads,
        0 ≤ wrapped width ((row * sizes.packedDim : Nat) : Int) ∧
          0 ≤ wrapped width ((row * sizes.groups : Nat) : Int) := by
      intro row inside
      obtain ⟨block, present, token, valid, kvHead, own, rfl⟩ := exists_rowOf inside
      obtain ⟨head, queried, rfl⟩ := exists_queryHead formed.shared some_head own
      obtain ⟨_, _, run⟩ := returned head queried
      exact (bases_of_kernel formed nonempty wide queried run).2 block present token valid
    have heads : ∀ head < sizes.queryHeads,
        0 ≤ wrapped width ((head * sizes.headDim : Nat) : Int) := by
      intro head queried
      obtain ⟨_, _, run⟩ := returned head queried
      exact (bases_of_kernel formed nonempty wide queried run).1
    have some_row : 0 < sizes.blocks * sizes.tokens * sizes.kvHeads := by
      obtain ⟨position, valid⟩ := formed.exists_position
      obtain ⟨present, token⟩ := formed.position_inside valid
      have last := rowOf_lt present token formed.heads_pos
      omega
    have wideEnough : sizes.headDim ≤ 2 ^ (width - 1) := by
      calc
        sizes.headDim ≤ 2 ^ 31 := by omega
        _ ≤ 2 ^ (width - 1) := Nat.pow_le_pow_right (by omega) (by omega)
    obtain ⟨packedDim, groups⟩ := formed.widths_le
    constructor
    · exact multiples_lt (by omega) (by omega) (fun row inside => (rows row inside).1) _
        (by omega)
    · exact multiples_lt (by omega) (by omega) (fun row inside => (rows row inside).2) _
        (by omega)
    · exact multiples_lt (by omega) wideEnough heads _ (by omega)

end Overflow

section Agree

variable {width : Nat} {batch : PackedBatch} {query : Tensor ℝ} {sizes : BatchSizes}

theorem addressed_of_agrees (formed : batch.WellFormed query sizes)
    (filled : ∀ valid ∈ batch.validTokens.data, 0 < valid) (small : sizes.headDim ≤ 256)
    (held : 32 ≤ width) {scale : ℝ} (agrees : Agrees width query batch scale sizes)
    (some_head : 0 < sizes.queryHeads) : sizes.Addressed width := by
  obtain ⟨launch, output, lse, launched, _, rows, _⟩ := agrees
  obtain ⟨wide, _⟩ := le_powerAtLeast sizes.headDim 0
  have mapped := formed.mapQuery Extended.real
  obtain rfl := Except.ok.inj ((run_launch mapped filled small).symm.trans launched)
  apply addressed_of_kernel formed wide small held some_head
  intro head inside
  exact ⟨_, _, rows head inside⟩

/-- Whatever the masked tokens hold, the kernel computes the attention of the reference
exactly when its integers, of 32 bits or more, hold the offsets of the last rows. -/
theorem triton_kernel_exact (formed : batch.WellFormed query sizes)
    (filled : ∀ valid ∈ batch.validTokens.data, 0 < valid) (small : sizes.headDim ≤ 256)
    (held : 32 ≤ width) (scale : ℝ) :
    Agrees width query batch scale sizes ↔
      (0 < sizes.queryHeads → sizes.Addressed width) := by
  constructor
  · exact addressed_of_agrees formed filled small held
  · intro addressed
    exact agrees_of_addressed formed filled small addressed scale

/-- Two tokens, one of them masked, with one head of six dimensions. -/
def paddedSizes : BatchSizes := ⟨1, 2, 1, 6, 1, 4, 3⟩

def paddedBatch : PackedBatch :=
  { packedK := Tensor.full [1, 2, 1, 3] 0x5A
    packedV := Tensor.full [1, 2, 1, 3] 0x7B
    scalesK := Tensor.full [1, 2, 1, 2] 0x3C00
    scalesV := Tensor.full [1, 2, 1, 2] 0x3C00
    validTokens := Tensor.ofList [1]
    bits := 4
    groupSize := 3 }

theorem triton_kernel_exact_padded :
    Agrees 32 (Tensor.full [1, 6] 3) paddedBatch 1 paddedSizes := by
  apply (triton_kernel_exact _ _ (by decide) (by decide) 1).mpr
  · intro _
    constructor <;> decide
  · constructor <;> simp [paddedBatch, paddedSizes, Tensor.full, Tensor.ofList,
      BatchSizes.packedDim, BatchSizes.groups]
  · intro valid member
    obtain rfl := List.mem_singleton.mp member
    decide

/-- The last row of the long batch has an offset of more than 31 bits. -/
theorem long_batch_wraps :
    Cuda.longBatch.WellFormed (Tensor.full [256, 256] (0 : ℝ)) Cuda.longSizes ∧
      (∀ valid ∈ Cuda.longBatch.validTokens.data, 0 < valid) ∧ Cuda.longSizes.headDim ≤ 256 ∧
      ¬ Agrees 32 (Tensor.full [256, 256] 0) Cuda.longBatch 1 Cuda.longSizes := by
  have filled : ∀ valid ∈ Cuda.longBatch.validTokens.data, 0 < valid := by
    intro valid member
    obtain rfl := List.mem_singleton.mp member
    decide
  refine ⟨Cuda.longBatch_wellFormed, filled, by decide, ?_⟩
  intro agrees
  have addressed := addressed_of_agrees Cuda.longBatch_wellFormed filled (by decide)
    (by decide) agrees (by decide)
  have packed := addressed.packed
  revert packed
  decide

end Agree

end Triton

end KVSSD

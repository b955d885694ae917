import KVSSD.BatchAttention
import KVSSD.Kernels
import KVSSD.Lib.OnlineSoftmax
import KVSSD.QuantBytes
import KVSSD.StreamingAttention

/-!
# What the kernels read

On a batch of consistent shapes a kernel whose integers hold its indices finds, in
the row of a block, token and head, the values that the reference dequantizes.  The
kernels are run over the real numbers with minus infinity.
-/

namespace KVSSD

open KVSSD.Quant

/-- The real numbers with minus infinity. -/
noncomputable instance : KernelArith Extended where
  ofInt value := .real value
  sub := Extended.sub
  mul := Extended.mul
  ofHalf bits := .real (Half.toRat bits)
  zero := .real 0
  add := Extended.add
  div := Extended.div
  exp := Extended.exp
  log := Extended.log
  negInf := .negInf
  max := Extended.max

/-- What the integers of a kernel make of a number below the limit is that number. -/
def Exact (wrap : Int → Option Int) (limit : Int) : Prop :=
  ∀ index, 0 ≤ index → index < limit → wrap index = some index

/-- The launch on a batch of these sizes. -/
def BatchSizes.launch (sizes : BatchSizes) (lanes : Nat) : Launch :=
  { blocks := sizes.blocks
    tokens := sizes.tokens
    queryHeads := sizes.queryHeads
    kvHeads := sizes.kvHeads
    headDim := sizes.headDim
    packedDim := sizes.packedDim
    groups := sizes.groups
    bits := sizes.bits
    groupSize := sizes.groupSize
    lanes := lanes }

theorem le_powerAtLeast (bound exponent : Nat) :
    bound ≤ powerAtLeast bound exponent ∧ ∃ power, powerAtLeast bound exponent = 2 ^ power := by
  induction exponent using powerAtLeast.induct bound with
  | case1 exponent below induction =>
      rw [powerAtLeast, if_pos below]
      exact induction
  | case2 exponent reached =>
      rw [powerAtLeast, if_neg reached]
      exact ⟨by omega, exponent, rfl⟩

theorem load_natCast {α : Type} (items : List α) (index : Nat) :
    load items (index : Int) = items[index]? := by
  rw [load, if_neg (by omega), Int.toNat_natCast]

theorem load_of_lt {α : Type} {items : List α} {index : Nat} (missing : α)
    (inside : index < items.length) :
    load items (index : Int) = some (items.getD index missing) := by
  rw [load_natCast, List.getD_eq_getElem?_getD, List.getElem?_eq_getElem inside,
    Option.getD_some]

theorem divide_natCast (dividend divisor : Nat) (positive : 0 < divisor) :
    divide dividend divisor = some ((dividend / divisor : Nat) : Int) := by
  rw [divide, if_neg (by omega)]
  congr 1

section Heads

variable {queryHeads kvHeads head : Nat}

theorem kvHead_lt (positive : 0 < kvHeads) (shared : kvHeads ∣ queryHeads)
    (inside : head < queryHeads) : head / (queryHeads / kvHeads) < kvHeads := by
  apply headMapping_lt positive shared
  exact List.mem_map.mpr ⟨head, List.mem_range.mpr inside, rfl⟩

theorem last_kvHead (positive : 0 < kvHeads) (shared : kvHeads ∣ queryHeads)
    (nonempty : 0 < queryHeads) : (queryHeads - 1) / (queryHeads / kvHeads) = kvHeads - 1 := by
  obtain ⟨ratio, rfl⟩ := shared
  have ratioPos := Nat.pos_of_mul_pos_left nonempty
  rw [Nat.mul_div_cancel_left _ positive]
  apply Nat.div_eq_of_lt_le
  · rw [Nat.sub_mul, Nat.one_mul]
    omega
  · rw [Nat.sub_add_cancel positive]
    omega

theorem Launch.kvHead_eq {launch : Launch} (queryEq : launch.queryHeads = queryHeads)
    (headsEq : launch.kvHeads = kvHeads) (positive : 0 < kvHeads)
    (shared : kvHeads ∣ queryHeads) (inside : head < queryHeads) :
    launch.kvHead head = some ((head / (queryHeads / kvHeads) : Nat) : Int) := by
  have ratio : 0 < queryHeads / kvHeads :=
    Nat.div_pos (Nat.le_of_dvd (by omega) shared) positive
  unfold Launch.kvHead
  rw [queryEq, headsEq, divide_natCast _ _ positive, Option.bind_eq_bind, Option.bind_some]
  exact divide_natCast _ _ ratio

end Heads

section Rows

variable {blocks tokens heads width limit block token head column : Nat}

theorem rowOf_lt (present : block < blocks) (valid : token < tokens) (own : head < heads) :
    rowOf tokens heads block token head < blocks * tokens * heads := by
  unfold rowOf
  calc
    (block * tokens + token) * heads + head < (block * tokens + token) * heads + heads := by
      omega
    _ = (block * tokens + token + 1) * heads := by ring
    _ ≤ (blocks * tokens) * heads := by
        apply Nat.mul_le_mul_right
        calc
          block * tokens + token + 1 ≤ block * tokens + tokens := by omega
          _ = (block + 1) * tokens := by ring
          _ ≤ blocks * tokens := Nat.mul_le_mul_right _ present

theorem rowOf_inside {α : Type} {tensor : Tensor α}
    (shape : tensor.shape = [blocks, tokens, heads, width]) (present : block < blocks)
    (valid : token < tokens) (own : head < heads) (narrow : column < width) :
    rowOf tokens heads block token head * width + column < tensor.data.length := by
  have row := rowOf_lt present valid own
  rw [tensor.size_eq, shape]
  simp only [List.prod_cons, List.prod_nil, Nat.mul_one]
  calc
    rowOf tokens heads block token head * width + column
        < rowOf tokens heads block token head * width + width := by omega
    _ = (rowOf tokens heads block token head + 1) * width := by ring
    _ ≤ (blocks * tokens * heads) * width := Nat.mul_le_mul_right _ row
    _ = blocks * (tokens * (heads * width)) := by ring

theorem BatchSizes.row_inside {α : Type} {tensor : Tensor α} {sizes : BatchSizes}
    (shape : tensor.shape = [sizes.blocks, sizes.tokens, sizes.kvHeads, width])
    (present : block < sizes.blocks) (valid : token < sizes.tokens)
    (own : head < sizes.kvHeads) (narrow : column < width) :
    sizes.row block token head * width + column < tensor.data.length :=
  rowOf_inside shape present valid own narrow

theorem index_lt (own : head < heads) (narrow : column < width)
    (bounded : (block * tokens + token + 1) * heads * width ≤ limit) :
    rowOf tokens heads block token head * width + column < limit := by
  calc
    rowOf tokens heads block token head * width + column
        < rowOf tokens heads block token head * width + width := by omega
    _ = (rowOf tokens heads block token head + 1) * width := by ring
    _ ≤ (block * tokens + token + 1) * heads * width := by
        apply Nat.mul_le_mul_right
        rw [Nat.add_mul, Nat.one_mul, rowOf]
        omega
    _ ≤ limit := bounded

theorem last_index (positive : 0 < heads) (wide : 0 < width)
    (bounded : rowOf tokens heads block token (heads - 1) * width + (width - 1) < limit) :
    (block * tokens + token + 1) * heads * width ≤ limit := by
  have rows : rowOf tokens heads block token (heads - 1) + 1 =
      (block * tokens + token + 1) * heads := by
    rw [Nat.add_mul, Nat.one_mul, rowOf]
    omega
  have items := congrArg (· * width) rows
  simp only [Nat.add_mul, Nat.one_mul] at items ⊢
  omega

theorem last_div {total count : Nat} (whole : total = count * width) (nonempty : 0 < total) :
    (total - 1) / width = count - 1 := by
  have countPos : 0 < count := by
    apply Nat.pos_of_ne_zero
    rintro rfl
    omega
  apply Nat.div_eq_of_lt_le
  · have widthPos : 0 < width := by
      apply Nat.pos_of_ne_zero
      rintro rfl
      omega
    rw [Nat.sub_mul, Nat.one_mul, ← whole]
    omega
  · rw [Nat.sub_add_cancel countPos, ← whole]
    omega

/-- The base of a row, when the integers hold it. -/
theorem Launch.rowBase_eq {launch : Launch} {wrap : Int → Option Int}
    (tokensEq : launch.tokens = tokens) (headsEq : launch.kvHeads = heads)
    (exact : Exact wrap limit) (own : head < heads)
    (rows : rowOf tokens heads block token head < limit)
    (items : rowOf tokens heads block token head * width < limit) :
    launch.rowBase wrap width block token head =
      some ((rowOf tokens heads block token head * width : Nat) : Int) := by
  have below_row : ∀ value : Nat, value ≤ rowOf tokens heads block token head →
      wrap (value : Int) = some (value : Int) := by
    intro value bounded
    apply exact
    · exact Int.natCast_nonneg _
    · exact_mod_cast Nat.lt_of_le_of_lt bounded rows
  have spread := Nat.le_mul_of_pos_right (block * tokens + token) (show 0 < heads by omega)
  have unfolded : rowOf tokens heads block token head =
      (block * tokens + token) * heads + head := rfl
  have first := below_row (block * tokens) (by omega)
  have second := below_row (block * tokens + token) (by omega)
  have third := below_row ((block * tokens + token) * heads) (by omega)
  have fourth := below_row _ (Nat.le_refl _)
  have fifth : wrap ((rowOf tokens heads block token head * width : Nat) : Int) =
      some ((rowOf tokens heads block token head * width : Nat) : Int) := by
    apply exact
    · exact Int.natCast_nonneg _
    · exact_mod_cast items
  rw [unfolded] at fourth fifth
  push_cast at first second third fourth fifth
  unfold Launch.rowBase
  rw [tokensEq, headsEq, unfolded]
  push_cast
  simp only [first, second, third, fourth, fifth, Option.bind_eq_bind, Option.bind_some]

theorem Launch.rowBase_of_index_lt {launch : Launch} {wrap : Int → Option Int}
    (tokensEq : launch.tokens = tokens) (headsEq : launch.kvHeads = heads)
    (exact : Exact wrap limit) (own : head < heads) (narrow : column < width)
    (below : rowOf tokens heads block token head * width + column < limit) :
    launch.rowBase wrap width block token head =
      some ((rowOf tokens heads block token head * width : Nat) : Int) := by
  have spread := Nat.le_mul_of_pos_right (rowOf tokens heads block token head)
    (show 0 < width by omega)
  exact Launch.rowBase_eq tokensEq headsEq exact own (by omega) (by omega)

end Rows

section Values

variable {F G : Type} {batch : PackedBatch} {query : Tensor G} {sizes : BatchSizes}
  {lanes block token head dim : Nat}

namespace PackedBatch.WellFormed

theorem dim_lt (formed : batch.WellFormed query sizes) (inside : dim < sizes.headDim) :
    dim / perByte sizes.bits < sizes.packedDim ∧ dim / sizes.groupSize < sizes.groups := by
  have bytes := formed.bytes
  have grouped := formed.grouped
  constructor
  · apply Nat.div_lt_of_lt_mul
    rwa [Nat.mul_comm, ← bytes]
  · apply Nat.div_lt_of_lt_mul
    rwa [Nat.mul_comm, ← grouped]

theorem widths_eq_zero (formed : batch.WellFormed query sizes) (empty : sizes.headDim = 0) :
    sizes.packedDim = 0 ∧ sizes.groups = 0 := by
  have perByte := formed.perByte_pos
  have group := formed.group_pos
  constructor
  · rcases Nat.mul_eq_zero.mp (formed.bytes.symm.trans empty) with zero | zero
    · exact zero
    · omega
  · rcases Nat.mul_eq_zero.mp (formed.grouped.symm.trans empty) with zero | zero
    · exact zero
    · omega

theorem widths_pos (formed : batch.WellFormed query sizes) (nonempty : 0 < sizes.headDim) :
    0 < sizes.packedDim ∧ 0 < sizes.groups := by
  obtain ⟨byte, group⟩ := formed.dim_lt nonempty
  constructor
  · exact Nat.lt_of_le_of_lt (Nat.zero_le _) byte
  · exact Nat.lt_of_le_of_lt (Nat.zero_le _) group

theorem widths_le (formed : batch.WellFormed query sizes) :
    sizes.packedDim ≤ sizes.headDim ∧ sizes.groups ≤ sizes.headDim := by
  constructor
  · rw [formed.bytes]
    exact Nat.le_mul_of_pos_right _ formed.perByte_pos
  · exact Nat.div_le_self _ _

/-- A value is the code in byte `row * packed_dim + dim / per_byte`, under the scale at
`row * groups + dim / group_size`. -/
theorem value_eq (formed : batch.WellFormed query sizes) [arith : DequantArith F]
    (packed : Tensor UInt8) (scales : Tensor UInt16) :
    sizes.value F packed scales block token head dim =
      arith.mul
        (arith.sub
          (arith.ofInt ((sizes.launch lanes).code
            (packed.data.getD (sizes.row block token head * sizes.packedDim +
              dim / perByte sizes.bits) 0) dim : Nat))
          (arith.ofInt (midpoint sizes.bits)))
        (arith.ofHalf (scales.data.getD (sizes.row block token head * sizes.groups +
          dim / sizes.groupSize) 0)) := by
  have perByte := formed.perByte_pos
  have groupPos := formed.group_pos
  have byteAt : (sizes.row block token head * sizes.headDim + dim) / Quant.perByte sizes.bits =
      sizes.row block token head * sizes.packedDim + dim / Quant.perByte sizes.bits := by
    rw [formed.bytes, ← Nat.mul_assoc, Nat.add_comm, Nat.add_mul_div_right _ _ perByte,
      Nat.add_comm]
  have place : (sizes.row block token head * sizes.headDim + dim) % Quant.perByte sizes.bits =
      dim % Quant.perByte sizes.bits := by
    rw [formed.bytes, ← Nat.mul_assoc, Nat.add_comm, Nat.add_mul_mod_self_right]
  have scaleAt : (sizes.row block token head * sizes.headDim + dim) / sizes.groupSize =
      sizes.row block token head * sizes.groups + dim / sizes.groupSize := by
    rw [formed.grouped, ← Nat.mul_assoc, Nat.add_comm, Nat.add_mul_div_right _ _ groupPos,
      Nat.add_comm]
  have small : dim % Quant.perByte sizes.bits * (sizes.bits : Int).toNat < 8 := by
    have below := Nat.mod_lt dim perByte
    rw [formed.perByte_eq] at below ⊢
    rw [Int.toNat_natCast]
    rcases formed.bits with two | four
    · rw [two] at below ⊢
      omega
    · rw [four] at below ⊢
      omega
  have narrow : 2 ^ (sizes.bits : Int).toNat - 1 < 256 := by
    rw [Int.toNat_natCast]
    rcases formed.bits with two | four
    · rw [two]
      norm_num
    · rw [four]
      norm_num
  unfold BatchSizes.value packedValue
  rw [byteAt, place, scaleAt, toNat_code _ small narrow]
  rfl

end PackedBatch.WellFormed

end Values

end KVSSD

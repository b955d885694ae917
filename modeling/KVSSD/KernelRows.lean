import KVSSD.HostChecks

/-!
# The rows of a batch that passes the checks

The checks leave open whether the scales have the blocks, tokens and heads of the packed
tensors, whether the codes of a head fill whole bytes, and whether a token that is read
exists.  A token is covered when all of these hold; its rows are then those that the
kernels number.
-/

namespace KVSSD

open KVSSD.Quant

section InRow

/-- `index` lies in a tensor of rank four, in the row of a block, token and head. -/
structure Tensor.InRow {α : Type} (tensor : Tensor α) (block token head : Nat) (index : Int) :
    Prop where
  present : block < tensor.shape.getD 0 0
  valid : token < tensor.shape.getD 1 0
  own : head < tensor.shape.getD 2 0
  lower : ((rowOf (tensor.shape.getD 1 0) (tensor.shape.getD 2 0) block token head *
    tensor.shape.getD 3 0 : Nat) : Int) ≤ index
  upper : index < ((rowOf (tensor.shape.getD 1 0) (tensor.shape.getD 2 0) block token head *
    tensor.shape.getD 3 0 + tensor.shape.getD 3 0 : Nat) : Int)
  inside : index < tensor.data.length

variable {α : Type} {tensor : Tensor α} {blocks tokens heads width : Nat}
  {block token head row column : Nat}

/-- An index of a row lies in that row and no other. -/
theorem Tensor.inRow_iff (shape : tensor.shape = [blocks, tokens, heads, width])
    (narrow : column < width) :
    tensor.InRow block token head ((row * width + column : Nat) : Int) ↔
      block < blocks ∧ token < tokens ∧ head < heads ∧
        row = rowOf tokens heads block token head := by
  constructor
  · intro inside
    have lower := inside.lower
    have upper := inside.upper
    have present := inside.present
    have valid := inside.valid
    have own := inside.own
    simp only [shape, List.getD_cons_zero, List.getD_cons_succ] at lower upper present valid own
    refine ⟨present, valid, own, ?_⟩
    have quotient : (row * width + column) / width = row := by
      rw [Nat.add_comm, Nat.add_mul_div_right _ _ (by omega), Nat.div_eq_of_lt narrow,
        Nat.zero_add]
    rw [← quotient]
    apply Nat.div_eq_of_lt_le
    · exact_mod_cast lower
    · rw [Nat.add_mul, Nat.one_mul]
      exact_mod_cast upper
  · rintro ⟨present, valid, own, rfl⟩
    have inside := rowOf_inside shape present valid own narrow
    constructor
    · rwa [shape]
    · rwa [shape]
    · rwa [shape]
    · simp only [shape, List.getD_cons_zero, List.getD_cons_succ]
      omega
    · simp only [shape, List.getD_cons_zero, List.getD_cons_succ]
      omega
    · exact_mod_cast inside

end InRow

/-- The bytes and the scales of a token are read inside their rows. -/
def PackedBatch.Reads (batch : PackedBatch) (block token kvHead : Nat)
    (byteIndex scaleIndex : Option Int) : Prop :=
  ∃ byteAt scaleAt, byteIndex = some byteAt ∧ scaleIndex = some scaleAt ∧
    batch.packedK.InRow block token kvHead byteAt ∧
    batch.packedV.InRow block token kvHead byteAt ∧
    batch.scalesK.InRow block token kvHead scaleAt ∧
    batch.scalesV.InRow block token kvHead scaleAt

/-- The tensors have the rows of a token: the codes of a head fill whole bytes, the scales
have its block, token and heads, and number its row as the packed tensors do. -/
structure BatchShapes.Covers (shapes : BatchShapes) (bits : Int) (block token : Nat) :
    Prop where
  bytes : perByte bits ∣ shapes.headDim
  valid : token < shapes.tokens
  scaleBlock : block < shapes.scaleBlocks
  scaleToken : token < shapes.scaleTokens
  heads : shapes.kvHeads ≤ shapes.scaleHeads
  row : (block * shapes.tokens + token) * shapes.kvHeads =
    (block * shapes.scaleTokens + token) * shapes.scaleHeads

section Covers

variable {batch : PackedBatch} {shapes : BatchShapes} {block token kvHead dim : Nat}

namespace PackedBatch.Validated

theorem perByte_pos (validated : batch.Validated shapes) : 0 < perByte batch.bits := by
  rcases validated.bits with two | four
  · rw [two]
    decide
  · rw [four]
    decide

theorem packedDim_eq (validated : batch.Validated shapes) :
    shapes.packedDim = shapes.headDim / perByte batch.bits := by
  have width := validated.width
  rw [Int.fdiv_eq_ediv_of_nonneg _ (by norm_num)] at width
  rcases validated.bits with two | four
  · rw [two] at width ⊢
    change shapes.packedDim = shapes.headDim / 4
    omega
  · rw [four] at width ⊢
    change shapes.packedDim = shapes.headDim / 2
    omega

theorem bytes_iff (validated : batch.Validated shapes) (nonempty : 0 < shapes.headDim) :
    perByte batch.bits ∣ shapes.headDim ↔
      (shapes.headDim - 1) / perByte batch.bits < shapes.packedDim := by
  have positive := validated.perByte_pos
  rw [validated.packedDim_eq]
  constructor
  · rintro ⟨count, whole⟩
    rw [whole, Nat.mul_div_cancel_left _ positive]
    apply Nat.div_lt_of_lt_mul
    omega
  · intro below
    have reached := Nat.lt_mul_of_div_lt below positive
    have rounded := Nat.div_mul_le_self shapes.headDim (perByte batch.bits)
    have split := Nat.div_add_mod shapes.headDim (perByte batch.bits)
    rw [Nat.mul_comm] at split
    apply Nat.dvd_of_mod_eq_zero
    omega

theorem byte_lt (validated : batch.Validated shapes) (covers : shapes.Covers batch.bits block token)
    (inside : dim < shapes.headDim) : dim / perByte batch.bits < shapes.packedDim := by
  have last := (validated.bytes_iff (by omega)).mp covers.bytes
  exact Nat.lt_of_le_of_lt (Nat.div_le_div_right (by omega)) last

end PackedBatch.Validated

theorem BatchShapes.Covers.rowOf_eq {bits : Int} (covers : shapes.Covers bits block token) :
    rowOf shapes.tokens shapes.kvHeads block token kvHead =
      rowOf shapes.scaleTokens shapes.scaleHeads block token kvHead := by
  unfold rowOf
  rw [covers.row]

/-- Indices in the row of a covered token are inside. -/
theorem BatchShapes.Covers.reads (covers : shapes.Covers batch.bits block token)
    (validated : batch.Validated shapes) (present : block < shapes.blocks)
    (own : kvHead < shapes.kvHeads) (inside : dim < shapes.headDim) {group : Nat}
    (narrow : group < shapes.groups) {byteIndex scaleIndex : Option Int}
    (byteAt : byteIndex = some ((rowOf shapes.tokens shapes.kvHeads block token kvHead *
      shapes.packedDim + dim / perByte batch.bits : Nat) : Int))
    (scaleAt : scaleIndex = some ((rowOf shapes.tokens shapes.kvHeads block token kvHead *
      shapes.groups + group : Nat) : Int)) :
    batch.Reads block token kvHead byteIndex scaleIndex := by
  have byte := validated.byte_lt covers inside
  have heads := covers.heads
  refine ⟨_, _, byteAt, scaleAt, ?_, ?_, ?_, ?_⟩
  · exact (Tensor.inRow_iff validated.packedK byte).mpr ⟨present, covers.valid, own, rfl⟩
  · exact (Tensor.inRow_iff validated.packedV byte).mpr ⟨present, covers.valid, own, rfl⟩
  · exact (Tensor.inRow_iff validated.scalesK narrow).mpr
      ⟨covers.scaleBlock, covers.scaleToken, by omega, covers.rowOf_eq⟩
  · exact (Tensor.inRow_iff validated.scalesV narrow).mpr
      ⟨covers.scaleBlock, covers.scaleToken, by omega, covers.rowOf_eq⟩

/-- A token is covered when the last dimension of its last head is read inside. -/
theorem covers_of_inRow (validated : batch.Validated shapes) (nonempty : 0 < shapes.headDim)
    {group : Nat} (narrow : group < shapes.groups)
    (byteIn : batch.packedK.InRow block token (shapes.kvHeads - 1)
      ((rowOf shapes.tokens shapes.kvHeads block token (shapes.kvHeads - 1) * shapes.packedDim +
        (shapes.headDim - 1) / perByte batch.bits : Nat) : Int))
    (scaleIn : batch.scalesK.InRow block token (shapes.kvHeads - 1)
      ((rowOf shapes.tokens shapes.kvHeads block token (shapes.kvHeads - 1) * shapes.groups +
        group : Nat) : Int)) :
    shapes.Covers batch.bits block token := by
  have headsPos := validated.heads_pos
  obtain ⟨scaleBlock, scaleToken, scaleHead, row⟩ :=
    (Tensor.inRow_iff validated.scalesK narrow).mp scaleIn
  have upper := byteIn.upper
  have valid := byteIn.valid
  simp only [validated.packedK, List.getD_cons_zero, List.getD_cons_succ] at upper valid
  constructor
  · apply (validated.bytes_iff nonempty).mpr
    have below : rowOf shapes.tokens shapes.kvHeads block token (shapes.kvHeads - 1) *
        shapes.packedDim + (shapes.headDim - 1) / perByte batch.bits <
      rowOf shapes.tokens shapes.kvHeads block token (shapes.kvHeads - 1) * shapes.packedDim +
        shapes.packedDim := by exact_mod_cast upper
    omega
  · exact valid
  · exact scaleBlock
  · exact scaleToken
  · omega
  · unfold rowOf at row
    omega

end Covers

end KVSSD

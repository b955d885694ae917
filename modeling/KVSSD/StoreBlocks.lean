import KVSSD.QuantLayout
import KVSSD.RecordRoundTrip
import KVSSD.Store
import Mathlib.Data.Nat.ModEq

/-!
# The blocks of a layer

`create` cuts the tokens of a layer into blocks, pads the last one and quantizes
every block on its own.  Packed bytes and scales of whole groups are additive
over concatenation, so the valid rows of all blocks together are the rows of
the quantized layer, whatever the block size is.
-/

namespace KVSSD

open KVSSD.Python KVSSD.Struct

/-- A map on lists that may be applied to pieces whose lengths are multiples of
a unit. -/
def Additive {α β : Type} (unit : Nat) (f : List α → List β) : Prop :=
  ∀ front back, unit ∣ front.length → f (front ++ back) = f front ++ f back

theorem Additive.nil {α β : Type} {unit : Nat} {f : List α → List β}
    (additive : Additive unit f) : f [] = [] := by
  have split := additive [] [] (by simp)
  rw [List.append_nil] at split
  have lengths := congrArg List.length split
  rw [List.length_append] at lengths
  exact List.eq_nil_of_length_eq_zero (by omega)

/-- The tokens of block `index`, as many of them as there are. -/
def tokenPiece {α : Type} (blockTokens tokens width : Nat) (items : List α)
    (index : Nat) : List α :=
  (items.drop (index * blockTokens * width)).take
    (min blockTokens (tokens - index * blockTokens) * width)

section Pieces

variable {α β : Type} {blockTokens tokens width : Nat} {items : List α}

theorem tokenPiece_length (exact : items.length = tokens * width) (index : Nat) :
    (tokenPiece blockTokens tokens width items index).length =
      min blockTokens (tokens - index * blockTokens) * width := by
  rw [tokenPiece, List.length_take, List.length_drop, exact, ← Nat.sub_mul,
    Nat.min_eq_left]
  exact Nat.mul_le_mul_right _ (Nat.min_le_right _ _)

/-- An additive map of all pieces up to a block is the map of the front of the
list. -/
theorem flatMap_tokenPiece {unit : Nat} {f : List α → List β}
    (additive : Additive unit f) (divides : unit ∣ width)
    (exact : items.length = tokens * width) (count : Nat) :
    (List.range count).flatMap
        (fun index => f (tokenPiece blockTokens tokens width items index)) =
      f (items.take (min (count * blockTokens) tokens * width)) := by
  induction count with
  | zero => simp [additive.nil]
  | succ count induction =>
      have fronts : min ((count + 1) * blockTokens) tokens =
          min (count * blockTokens) tokens +
            min blockTokens (tokens - count * blockTokens) := by
        rw [Nat.succ_mul]
        omega
      have frontLength :
          (items.take (min (count * blockTokens) tokens * width)).length =
            min (count * blockTokens) tokens * width := by
        rw [List.length_take, exact]
        exact Nat.min_eq_left (Nat.mul_le_mul_right _ (Nat.min_le_right _ _))
      have piece : tokenPiece blockTokens tokens width items count =
          (items.drop (min (count * blockTokens) tokens * width)).take
            (min blockTokens (tokens - count * blockTokens) * width) := by
        rw [tokenPiece]
        by_cases inside : count * blockTokens ≤ tokens
        · rw [Nat.min_eq_left inside]
        · have none : tokens - count * blockTokens = 0 := by omega
          simp [none]
      rw [List.range_succ, List.flatMap_append, induction, List.flatMap_singleton,
        fronts, Nat.add_mul, List.take_add, piece]
      refine (additive _ _ ?_).symm
      rw [frontLength]
      exact Dvd.dvd.mul_left divides _

theorem flatMap_tokenPieces {unit : Nat} {f : List α → List β}
    (additive : Additive unit f) (divides : unit ∣ width)
    (exact : items.length = tokens * width) (positive : 0 < blockTokens) :
    (List.range ((tokens + blockTokens - 1) / blockTokens)).flatMap
        (fun index => f (tokenPiece blockTokens tokens width items index)) =
      f items := by
  have covers : tokens ≤
      (tokens + blockTokens - 1) / blockTokens * blockTokens := by
    have remainder := Nat.mod_lt (tokens + blockTokens - 1) positive
    have division := Nat.div_add_mod (tokens + blockTokens - 1) blockTokens
    rw [Nat.mul_comm] at division
    omega
  rw [flatMap_tokenPiece additive divides exact, Nat.min_eq_right covers,
    ← exact, List.take_length]

end Pieces

namespace Quant

section Groups

variable (F : Type) [arith : QuantArith F] {α : Type} [element : TorchElement α F]

/-- The packed bytes of a list of whole groups. -/
def packedOf (bits : Int) (size : Nat) (items : List α) : List UInt8 :=
  (groupsOf F (items.length / size) size items).flatMap (packedGroup bits)

/-- The stored scales of a list of whole groups. -/
def scalesOf (bits : Int) (size : Nat) (items : List α) : List UInt16 :=
  (groupsOf F (items.length / size) size items).map (storedScale bits)

omit arith in
theorem groupsOf_append {size : Nat} (front back : List α)
    (whole : size ∣ front.length) :
    groupsOf F ((front ++ back).length / size) size (front ++ back) =
      groupsOf F (front.length / size) size front ++
        groupsOf F (back.length / size) size back := by
  have counts : (front ++ back).length / size =
      front.length / size + back.length / size := by
    rw [List.length_append, Nat.add_div_of_dvd_right whole]
  rw [groupsOf, groupsOf, groupsOf, List.map_append, counts]
  refine rows_append ?_
  rw [List.length_map, Nat.div_mul_cancel whole]

theorem packedOf_additive (bits : Int) (size : Nat) :
    Additive size (packedOf F bits size (α := α)) := by
  intro front back whole
  rw [packedOf, groupsOf_append F front back whole, List.flatMap_append]
  rfl

theorem scalesOf_additive (bits : Int) (size : Nat) :
    Additive size (scalesOf F bits size (α := α)) := by
  intro front back whole
  rw [scalesOf, groupsOf_append F front back whole, List.map_append]
  rfl

theorem packedOf_length {bits : Int} {size : Nat} {items : List α}
    (whole : size ∣ items.length) :
    (packedOf F bits size items).length =
      items.length / size * (size / perByte bits) := by
  have exact : items.length = items.length / size * size :=
    (Nat.div_mul_cancel whole).symm
  have wide : ∀ group ∈ groupsOf F (items.length / size) size items,
      (packedGroup bits group).length = size / perByte bits := by
    intro group member
    rw [packedGroup_length, length_of_mem_groupsOf exact member]
  rw [packedOf, length_flatMap_of_wide wide]
  simp [groupsOf]

theorem scalesOf_length {bits : Int} {size : Nat} {items : List α} :
    (scalesOf F bits size items).length = items.length / size := by
  simp [scalesOf, groupsOf]

/-- `quantize_tensor` in terms of the flat list of values. -/
theorem quantizeTensor_flat {x : Tensor α} {bits groupSize : Int}
    {front : List Nat} {width : Nat} (shape : x.shape = front ++ [width])
    (accepts : Accepts bits groupSize width)
    (floating : element.isFloatingPoint = true) (nonempty : front.prod ≠ 0) :
    ∃ q, quantizeTensor F x bits groupSize = .ok q ∧
      q.packed.shape = front ++ [width / perByte bits] ∧
      q.packed.data = packedOf F bits groupSize.toNat x.data ∧
      q.scales.shape = front ++ [width / groupSize.toNat] ∧
      q.scales.data = scalesOf F bits groupSize.toNat x.data ∧
      q.originalShape = x.shape ∧ q.bits = bits ∧ q.groupSize = groupSize := by
  have positive : 0 < groupSize.toNat := by
    have := accepts.group_pos
    omega
  have count : front.prod * (width / groupSize.toNat) =
      x.data.length / groupSize.toNat := by
    rw [x.size_eq, shape, List.prod_append, List.prod_singleton,
      Nat.mul_div_assoc _ accepts.group_dvd]
  obtain ⟨q, quantized, packedShape, packedData, scalesShape, scalesData, rest⟩ :=
    quantizeTensor_spec (F := F) shape accepts floating nonempty
  rw [count] at packedData scalesData
  exact ⟨q, quantized, packedShape, packedData, scalesShape, scalesData, rest⟩

end Groups

end Quant

/-- What the store requires of a specification: `validate` accepts it, the group
size is positive and pack-aligned, and the header can hold it. -/
structure CacheSpec.Storable (spec : CacheSpec) : Prop where
  valid : spec.validate = .ok ()
  group_pos : 0 < spec.groupSize
  aligned : spec.groupSize.fmod (8 / spec.bits) = 0
  fits : spec.HeaderFits

/-- The dimensions of an accepted specification as natural numbers. -/
structure CacheSpec.Dims (spec : CacheSpec) (blockTokens heads dim group : Nat) :
    Prop where
  tokens_eq : spec.blockTokens = blockTokens
  heads_eq : spec.kvHeads = heads
  dim_eq : spec.headDim = dim
  group_eq : spec.groupSize = group
  tokens_pos : 0 < blockTokens
  heads_pos : 0 < heads
  dim_pos : 0 < dim
  group_pos : 0 < group
  accepts : Quant.Accepts spec.bits spec.groupSize dim

namespace CacheSpec

variable {spec : CacheSpec}

theorem Storable.dims (storable : spec.Storable) :
    spec.Dims spec.blockTokens.toNat spec.kvHeads.toNat spec.headDim.toNat
      spec.groupSize.toNat := by
  obtain ⟨⟨_, heads, dim, tokens⟩, bits, _, divides⟩ :=
    CacheSpec.validate_eq_ok.mp storable.valid
  have group := storable.group_pos
  have dimNat := Int.toNat_of_nonneg (Int.le_of_lt dim)
  have groupNat := Int.toNat_of_nonneg (Int.le_of_lt group)
  have groupDvd : spec.groupSize.toNat ∣ spec.headDim.toNat := by
    rw [Int.fmod_eq_emod_of_nonneg _ (Int.le_of_lt group), ← dimNat, ← groupNat]
      at divides
    exact Nat.dvd_of_mod_eq_zero (by exact_mod_cast divides)
  have perByteNat : ((Quant.perByte spec.bits : Nat) : Int) = 8 / spec.bits := by
    rcases bits with two | four
    · rw [two]
      decide
    · rw [four]
      decide
  have aligned : Quant.perByte spec.bits ∣ spec.groupSize.toNat := by
    have remainder := storable.aligned
    rw [← perByteNat, Int.fmod_eq_emod_of_nonneg _ (Int.natCast_nonneg _),
      ← groupNat] at remainder
    exact Nat.dvd_of_mod_eq_zero (by exact_mod_cast remainder)
  exact
    { tokens_eq := by omega
      heads_eq := by omega
      dim_eq := by omega
      group_eq := by omega
      tokens_pos := by omega
      heads_pos := by omega
      dim_pos := by omega
      group_pos := by omega
      accepts := ⟨bits, group, groupDvd, aligned⟩ }

variable {blockTokens heads dim group : Nat}

theorem Dims.blockShape (dims : spec.Dims blockTokens heads dim group) :
    spec.blockShape.map Int.toNat = [blockTokens, heads, dim] := by
  simp [CacheSpec.blockShape, dims.tokens_eq, dims.heads_eq, dims.dim_eq]

theorem Dims.scaleShape (dims : spec.Dims blockTokens heads dim group) :
    spec.scaleShape.map Int.toNat = [blockTokens, heads, dim / group] := by
  have groups : spec.groups = ((dim / group : Nat) : Int) := by
    rw [CacheSpec.groups, dims.dim_eq, dims.group_eq,
      Int.fdiv_eq_ediv_of_nonneg _ (Int.natCast_nonneg _)]
    rfl
  simp only [CacheSpec.scaleShape, List.map_cons, List.map_nil, dims.tokens_eq,
    dims.heads_eq, groups, Int.toNat_natCast]

theorem Dims.packedShape (dims : spec.Dims blockTokens heads dim group) :
    spec.packedShape.map Int.toNat =
      [blockTokens, heads, dim / Quant.perByte spec.bits] := by
  have packed : spec.packedDim = ((dim / Quant.perByte spec.bits : Nat) : Int) := by
    rw [CacheSpec.packedDim, dims.dim_eq, Int.fdiv_eq_ediv_of_nonneg _ (by norm_num)]
    rcases dims.accepts.bits_cases with two | four
    · rw [two]
      have per : Quant.perByte 2 = 4 := by decide
      rw [per]
      omega
    · rw [four]
      have per : Quant.perByte 4 = 2 := by decide
      rw [per]
      omega
  simp only [CacheSpec.packedShape, List.map_cons, List.map_nil, dims.tokens_eq,
    dims.heads_eq, packed, Int.toNat_natCast]

end CacheSpec

/-- The values of one layer of a tensor of rank four. -/
def layerItems {α : Type} (tensor : Tensor α) (layer : Nat) : List α :=
  (tensor.data.drop (layer * tensor.shape.tail.prod)).take tensor.shape.tail.prod

section Block

variable {F : Type} [arith : QuantArith F] {α : Type} [element : TorchElement α F]
  {spec : CacheSpec} {blockTokens heads dim group layers tokens : Nat}

theorem select0_layer {tensor : Tensor α} {rest : List Nat}
    (shape : tensor.shape = layers :: rest) {layer : Nat} (inside : layer < layers) :
    ∃ selected, tensor.select0 layer = .ok selected ∧ selected.shape = rest ∧
      selected.data = layerItems tensor layer := by
  obtain ⟨selected, success, rest, data⟩ := Tensor.select0_inside shape inside
  refine ⟨selected, success, rest, ?_⟩
  rw [data, layerItems, shape]
  rfl

omit arith in
/-- A padded block starts with the tokens it stores. -/
theorem paddedBlock_spec {tensor : Tensor α} {index : BlockIndex}
    (dims : spec.Dims blockTokens heads dim group)
    (shape : tensor.shape = [layers, tokens, heads, dim])
    (layer : index.layer < layers) (start : index.start = index.block * blockTokens)
    (inside : index.start < tokens) :
    ∃ x, paddedBlock F tensor spec (validTokens spec tokens index.start) index =
        .ok x ∧
      x.shape = [blockTokens, heads, dim] ∧
      ∃ zeros, x.data = tokenPiece blockTokens tokens (heads * dim)
        (layerItems tensor index.layer) index.block ++ zeros := by
  obtain ⟨selected, selectedOk, selectedShape, selectedData⟩ :=
    select0_layer shape layer
  obtain ⟨valid, validEq⟩ : ∃ valid, valid = min blockTokens (tokens - index.start) :=
    ⟨_, rfl⟩
  have validCast : validTokens spec tokens index.start = (valid : Int) := by
    rw [validTokens, dims.tokens_eq, validEq]
    omega
  have room : index.start + valid ≤ tokens := by omega
  obtain ⟨sliceShape, sliceData⟩ := Tensor.slice0_inside selectedShape room
  obtain ⟨x, copied, xShape, xData⟩ :=
    Tensor.copyInto0_inside
      (by simp [Tensor.full] :
        (Tensor.full [blockTokens, heads, dim] element.zero).shape =
          [blockTokens, heads, dim])
      sliceShape (by omega)
  have piece : (selected.slice0 index.start (index.start + (valid : Int))).data =
      tokenPiece blockTokens tokens (heads * dim) (layerItems tensor index.layer)
        index.block := by
    rw [sliceData, selectedData, tokenPiece, validEq, start]
    simp only [List.prod_cons, List.prod_nil, Nat.mul_one]
  rw [piece] at xData
  refine ⟨x, ?_, xShape, ⟨_, xData⟩⟩
  rw [paddedBlock, selectedOk, ok_bind, dims.blockShape, validCast]
  exact copied

/-- Quantizing a padded block: the valid rows of its codes and scales are those
of the tokens it stores. -/
theorem quantizeTensor_padded {x : Tensor α} {piece zeros : List α} {valid : Nat}
    (dims : spec.Dims blockTokens heads dim group)
    (floating : element.isFloatingPoint = true)
    (shape : x.shape = [blockTokens, heads, dim]) (data : x.data = piece ++ zeros)
    (pieceLength : piece.length = valid * (heads * dim)) (inside : valid ≤ blockTokens) :
    ∃ q, quantizeTensor F x spec.bits spec.groupSize = .ok q ∧
      q.packed.shape = spec.packedShape.map Int.toNat ∧
      q.scales.shape = spec.scaleShape.map Int.toNat ∧
      q.originalShape = spec.blockShape.map Int.toNat ∧
      q.bits = spec.bits ∧ q.groupSize = spec.groupSize ∧
      (q.packed.slice0 0 valid).shape =
        [valid, heads, dim / Quant.perByte spec.bits] ∧
      (q.packed.slice0 0 valid).data = Quant.packedOf F spec.bits group piece ∧
      (q.scales.slice0 0 valid).shape = [valid, heads, dim / group] ∧
      (q.scales.slice0 0 valid).data = Quant.scalesOf F spec.bits group piece := by
  have groupNat : spec.groupSize.toNat = group := by
    rw [dims.group_eq]
    rfl
  have accepts := dims.accepts
  have groupDvd : group ∣ dim := groupNat ▸ accepts.group_dvd
  have aligned : Quant.perByte spec.bits ∣ group := groupNat ▸ accepts.aligned
  have nonempty : [blockTokens, heads].prod ≠ 0 := by
    have tokensPos := dims.tokens_pos
    have headsPos := dims.heads_pos
    simp only [List.prod_cons, List.prod_nil, Nat.mul_one, ne_eq, Nat.mul_eq_zero]
    omega
  obtain ⟨q, quantized, packedShape, packedData, scalesShape, scalesData,
      originalShape, bits, groupSize⟩ :=
    Quant.quantizeTensor_flat F
      (shape : x.shape = [blockTokens, heads] ++ [dim]) accepts floating nonempty
  rw [groupNat] at packedData scalesShape scalesData
  simp only [List.cons_append, List.nil_append] at packedShape scalesShape
  have pieceDvd : group ∣ piece.length := by
    rw [pieceLength]
    exact Dvd.dvd.mul_left (Dvd.dvd.mul_left groupDvd _) _
  have groupCount : piece.length / group = valid * (heads * (dim / group)) := by
    rw [pieceLength, ← Nat.mul_assoc, Nat.mul_div_assoc _ groupDvd, Nat.mul_assoc]
  have packedCount : (Quant.packedOf F spec.bits group piece).length =
      valid * (heads * (dim / Quant.perByte spec.bits)) := by
    rw [Quant.packedOf_length F pieceDvd, groupCount]
    have regroup : dim / group * (group / Quant.perByte spec.bits) =
        dim / Quant.perByte spec.bits := by
      rw [← Nat.mul_div_assoc _ aligned, Nat.div_mul_cancel groupDvd]
    calc
      valid * (heads * (dim / group)) * (group / Quant.perByte spec.bits) =
          valid * (heads * (dim / group * (group / Quant.perByte spec.bits))) := by
        ring
      _ = _ := by rw [regroup]
  have scalesCount : (Quant.scalesOf F spec.bits group piece).length =
      valid * (heads * (dim / group)) := by
    rw [Quant.scalesOf_length, groupCount]
  have room : 0 + valid ≤ blockTokens := by omega
  obtain ⟨packedWindow, packedRows⟩ := Tensor.slice0_inside packedShape room
  obtain ⟨scalesWindow, scalesRows⟩ := Tensor.slice0_inside scalesShape room
  simp only [Nat.cast_zero, zero_add, Nat.zero_mul, List.drop_zero, List.prod_cons,
    List.prod_nil, Nat.mul_one] at packedWindow packedRows scalesWindow scalesRows
  refine ⟨q, quantized, ?_, ?_, ?_, bits, groupSize, packedWindow, ?_,
    scalesWindow, ?_⟩
  · rw [dims.packedShape, packedShape]
  · rw [dims.scaleShape, scalesShape]
  · rw [dims.blockShape, originalShape, shape]
  · rw [packedRows, packedData, data,
      Quant.packedOf_additive F spec.bits group piece zeros pieceDvd,
      List.take_left' packedCount]
  · rw [scalesRows, scalesData, data,
      Quant.scalesOf_additive F spec.bits group piece zeros pieceDvd,
      List.take_left' scalesCount]

end Block

/-- The valid rows of a quantized tensor hold the codes and scales of a list of
tokens. -/
structure RowsOf (F : Type) [arith : QuantArith F] {α : Type}
    [element : TorchElement α F] (spec : CacheSpec) (heads dim group valid : Nat)
    (q : QuantizedTensor) (piece : List α) : Prop where
  packedShape : (q.packed.slice0 0 valid).shape =
    [valid, heads, dim / Quant.perByte spec.bits]
  packedRows : (q.packed.slice0 0 valid).data =
    Quant.packedOf F spec.bits group piece
  scalesShape : (q.scales.slice0 0 valid).shape = [valid, heads, dim / group]
  scalesRows : (q.scales.slice0 0 valid).data =
    Quant.scalesOf F spec.bits group piece

/-- A block that stores the tokens of an index. -/
structure Stores (F : Type) [arith : QuantArith F] {α β : Type}
    [keyElement : TorchElement α F] [valueElement : TorchElement β F]
    (spec : CacheSpec) (blockTokens heads dim group tokens : Nat)
    (keys : Tensor α) (values : Tensor β) (index : BlockIndex)
    (block : PackedKVBlock) : Prop where
  layer : block.layer = index.layer
  number : block.block = index.block
  valid : block.validTokens =
    ((min blockTokens (tokens - index.block * blockTokens) : Nat) : Int)
  shaped : block.Shaped spec
  keyRows : RowsOf F spec heads dim group
    (min blockTokens (tokens - index.block * blockTokens)) block.key
    (tokenPiece blockTokens tokens (heads * dim) (layerItems keys index.layer)
      index.block)
  valueRows : RowsOf F spec heads dim group
    (min blockTokens (tokens - index.block * blockTokens)) block.value
    (tokenPiece blockTokens tokens (heads * dim) (layerItems values index.layer)
      index.block)

section PackBlock

variable {F : Type} [arith : QuantArith F] {α β : Type}
  [keyElement : TorchElement α F] [valueElement : TorchElement β F]
  {spec : CacheSpec} {blockTokens heads dim group layers tokens : Nat}

omit arith in
theorem layerItems_length {tensor : Tensor α} {rest : List Nat}
    (shape : tensor.shape = layers :: rest) {layer : Nat} (inside : layer < layers) :
    (layerItems tensor layer).length = rest.prod := by
  have total := tensor.size_eq
  rw [shape, List.prod_cons] at total
  have room : (layer + 1) * rest.prod ≤ layers * rest.prod :=
    Nat.mul_le_mul_right _ inside
  rw [Nat.succ_mul] at room
  rw [layerItems, shape, List.tail_cons, List.length_take, List.length_drop, total]
  omega

/-- Every block of the two loops of `create` is packed without an error. -/
theorem packBlock_spec {keys : Tensor α} {values : Tensor β} {index : BlockIndex}
    (dims : spec.Dims blockTokens heads dim group)
    (keyFloating : keyElement.isFloatingPoint = true)
    (valueFloating : valueElement.isFloatingPoint = true)
    (keyShape : keys.shape = [layers, tokens, heads, dim])
    (valueShape : values.shape = [layers, tokens, heads, dim])
    (layer : index.layer < layers) (start : index.start = index.block * blockTokens)
    (inside : index.start < tokens) :
    ∃ block, packBlock F keys values spec index = .ok block ∧
      Stores F spec blockTokens heads dim group tokens keys values index block := by
  have room : min blockTokens (tokens - index.block * blockTokens) ≤ blockTokens :=
    Nat.min_le_left _ _
  have keyLength : (layerItems keys index.layer).length = tokens * (heads * dim) := by
    rw [layerItems_length keyShape layer]
    simp
  have valueLength :
      (layerItems values index.layer).length = tokens * (heads * dim) := by
    rw [layerItems_length valueShape layer]
    simp
  obtain ⟨k, kOk, kShape, kZeros, kData⟩ :=
    paddedBlock_spec (F := F) dims keyShape layer start inside
  obtain ⟨v, vOk, vShape, vZeros, vData⟩ :=
    paddedBlock_spec (F := F) dims valueShape layer start inside
  obtain ⟨key, keyOk, keyPacked, keyScales, keyOriginal, keyBits, keyGroup,
      keyRows⟩ :=
    quantizeTensor_padded (F := F) dims keyFloating kShape kData
      (tokenPiece_length keyLength index.block) room
  obtain ⟨value, valueOk, valuePacked, valueScales, valueOriginal, valueBits,
      valueGroup, valueRows⟩ :=
    quantizeTensor_padded (F := F) dims valueFloating vShape vData
      (tokenPiece_length valueLength index.block) room
  have count : tokenCount keys = tokens := by
    rw [tokenCount, keyShape]
    rfl
  have valid : validTokens spec tokens index.start =
      ((min blockTokens (tokens - index.block * blockTokens) : Nat) : Int) := by
    rw [validTokens, dims.tokens_eq, start]
    omega
  refine ⟨⟨index.layer, index.block, validTokens spec tokens index.start, key, value⟩,
    ?_, ?_⟩
  · rw [packBlock, count]
    simp only [kOk, vOk, ok_bind, keyOk, valueOk]
    rfl
  · obtain ⟨keyWindow, keyCodes, keyScaleWindow, keyScaleRows⟩ := keyRows
    obtain ⟨valueWindow, valueCodes, valueScaleWindow, valueScaleRows⟩ := valueRows
    exact
      { layer := rfl
        number := rfl
        valid := valid
        shaped := ⟨keyScales, valueScales, keyPacked, valuePacked, keyOriginal,
          valueOriginal, keyBits, valueBits, keyGroup, valueGroup⟩
        keyRows := ⟨keyWindow, keyCodes, keyScaleWindow, keyScaleRows⟩
        valueRows := ⟨valueWindow, valueCodes, valueScaleWindow, valueScaleRows⟩ }

end PackBlock

end KVSSD

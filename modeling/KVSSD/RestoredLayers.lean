import KVSSD.PackedAttention
import KVSSD.StoreRoundTrip

/-!
# Attention over restored layers

What the blocks of a created store stand for together: the layer, quantized and dequantized as a
whole.  Attention over some blocks of a layer is attention over their tokens of the restored layer,
whatever the block size is and however the last block was padded.
-/

namespace KVSSD

open KVSSD.Python KVSSD.Quant

/-- An additive map that keeps lengths maps a window of whole units to the same window. -/
theorem Additive.window {α β : Type} {unit start count : Nat} {f : List α → List β}
    {items : List α} (additive : Additive unit f)
    (keeps : ∀ piece : List α, unit ∣ piece.length → (f piece).length = piece.length)
    (aligned : unit ∣ start) (whole : unit ∣ count) (inside : start + count ≤ items.length) :
    ((f items).drop start).take count = f ((items.drop start).take count) := by
  have frontLength : (items.take start).length = start := by
    rw [List.length_take]
    omega
  have middleLength : ((items.drop start).take count).length = count := by
    rw [List.length_take, List.length_drop]
    omega
  have front : f items = f (items.take start) ++ f (items.drop start) := by
    rw [← additive _ _ (frontLength.symm ▸ aligned), List.take_append_drop]
  have middle : f (items.drop start) =
      f ((items.drop start).take count) ++ f ((items.drop start).drop count) := by
    rw [← additive _ _ (middleLength.symm ▸ whole), List.take_append_drop]
  have frontKept := keeps _ (frontLength.symm ▸ aligned)
  have middleKept := keeps _ (middleLength.symm ▸ whole)
  rw [front, List.drop_left' (frontKept.trans frontLength), middle,
    List.take_left' (middleKept.trans middleLength)]

section Restored

variable (F G : Type) [QuantArith F] [DequantArith G] {γ : Type} [TorchElement γ F]

/-- The values of whole groups after quantizing and dequantizing. -/
def restoredItems (bits : Int) (size : Nat) (items : List γ) : List G :=
  flatValues bits size (packedOf F bits size items) (scalesOf F bits size items)

variable {bits : Int} {size : Nat} (divides : perByte bits ∣ size)

include divides in
theorem packedOf_even {items : List γ} (whole : size ∣ items.length) :
    (packedOf F bits size items).length * perByte bits =
      (scalesOf F bits size items).length * size := by
  rw [packedOf_length F whole, scalesOf_length, Nat.mul_assoc, Nat.div_mul_cancel divides]

include divides in
theorem restoredItems_length {items : List γ} (whole : size ∣ items.length) :
    (restoredItems F G bits size items).length = items.length := by
  rw [restoredItems, flatValues_length (packedOf_even F divides whole),
    packedOf_even F divides whole, scalesOf_length, Nat.div_mul_cancel whole]

include divides in
theorem restoredItems_additive : Additive size (restoredItems F G bits size (γ := γ)) := by
  intro front back whole
  rw [restoredItems, packedOf_additive F bits size front back whole,
    scalesOf_additive F bits size front back whole,
    flatValues_append (packedOf_even F divides whole)]
  rfl

end Restored

section Layers

variable (F G : Type) [QuantArith F] [AttentionArith G] {γ : Type} [TorchElement γ F]

/-- A layer that is quantized and dequantized as a whole. -/
def restoredLayer (spec : CacheSpec) (tensor : Tensor γ) (layer : Nat) :
    Except PyError (Tensor G) := do
  let whole ← tensor.select0 layer
  let q ← quantizeTensor F whole spec.bits spec.groupSize
  dequantizeTensor G id q

/-- The tokens of some blocks, one block behind the other. -/
def selectTokens {α : Type} (spec : CacheSpec) (selected : List Int) (tensor : Tensor α) :
    Except PyError (Tensor α) :=
  Tensor.cat (selected.map fun block =>
    tensor.slice0 (block * spec.blockTokens) ((block + 1) * spec.blockTokens))

/-- Attention over the tokens of some blocks of a restored layer. -/
def restoredAttention {α β : Type} [TorchElement α F] [TorchElement β F] (spec : CacheSpec)
    (keys : Tensor α) (values : Tensor β) (layer : Nat) (selected : List Int) (query : Tensor G)
    (scale : G) : Except PyError (Tensor G) := do
  let restoredKeys ← restoredLayer F G spec keys layer
  let restoredValues ← restoredLayer F G spec values layer
  let keys ← selectTokens spec selected restoredKeys
  let values ← selectTokens spec selected restoredValues
  referenceAttention query keys values scale

variable {F G} {spec : CacheSpec} {blockTokens heads dim group layers tokens : Nat}
  (dims : spec.Dims blockTokens heads dim group)

include dims in
theorem CacheSpec.Dims.aligned : perByte spec.bits ∣ group := by
  have aligned := dims.accepts.aligned
  rwa [dims.group_eq, Int.toNat_natCast] at aligned

include dims in
theorem CacheSpec.Dims.group_dvd : group ∣ heads * dim := by
  have divides := dims.accepts.group_dvd
  rw [dims.group_eq, Int.toNat_natCast] at divides
  exact Dvd.dvd.mul_left divides heads

include dims in
/-- A restored layer holds the restored values of its items. -/
theorem restoredLayer_eq_ok {tensor : Tensor γ} {layer : Nat}
    (floating : TorchElement.isFloatingPoint γ F = true)
    (shape : tensor.shape = [layers, tokens, heads, dim]) (inside : layer < layers)
    (occupied : 0 < tokens) : ∃ restored : Tensor G,
      restoredLayer F G spec tensor layer = .ok restored ∧
        restored.shape = [tokens, heads, dim] ∧
        restored.data = restoredItems F G spec.bits group (layerItems tensor layer) := by
  have accepts := dims.accepts
  have groupNat : spec.groupSize.toNat = group := by rw [dims.group_eq, Int.toNat_natCast]
  have groupDvd := accepts.group_dvd
  rw [groupNat] at groupDvd
  obtain ⟨whole, selected, wholeShape, wholeData⟩ := select0_layer shape inside
  have nonempty : [tokens, heads].prod ≠ 0 := by
    simp [Nat.ne_of_gt occupied, Nat.ne_of_gt dims.heads_pos]
  obtain ⟨q, quantized, packedShape, packedData, scalesShape, scalesData, original, bits,
      groupSize⟩ :=
    quantizeTensor_flat F (wholeShape : whole.shape = [tokens, heads] ++ [dim]) accepts floating
      nonempty
  rw [groupNat] at scalesShape
  rw [groupNat, wholeData] at packedData scalesData
  obtain ⟨restored, restoredOk, restoredShape, restoredData⟩ := dequantizeTensor_spec (F := G)
    (bits ▸ accepts.bits_valid) nonempty packedShape scalesShape (original.trans wholeShape)
    (groupSize.trans dims.group_eq) dims.group_pos
    (by rw [bits, Nat.div_mul_cancel accepts.perByte_dvd]) (Nat.div_mul_cancel groupDvd).symm
  rw [bits, packedData, scalesData] at restoredData
  refine ⟨restored, ?_, restoredShape, restoredData⟩
  unfold restoredLayer
  rw [selected, ok_bind, quantized, ok_bind, restoredOk]

end Layers

section Chunks

variable {F G : Type} [QuantArith F] [AttentionArith G] {γ : Type} [TorchElement γ F]
  {spec : CacheSpec} {blockTokens heads dim width groups group layers tokens : Nat}
  (dims : spec.Dims blockTokens heads dim group)
  (cuts : spec.Cuts blockTokens heads dim width groups group)

include dims cuts in
/-- The valid tokens of a dequantized block are its tokens of the restored layer. -/
theorem RowsOf.chunk_eq {tensor : Tensor γ} {layer block : Nat} {q : QuantizedTensor}
    {restored : Tensor G} (shape : tensor.shape = [layers, tokens, heads, dim])
    (inside : layer < layers) (within : block * blockTokens < tokens)
    (restoredShape : restored.shape = [tokens, heads, dim])
    (restoredData : restored.data =
      restoredItems F G spec.bits group (layerItems tensor layer))
    (cut : q.Cut spec.bits blockTokens heads dim width groups group)
    (stored : RowsOf F spec heads dim group (min blockTokens (tokens - block * blockTokens)) q
      (tokenPiece blockTokens tokens (heads * dim) (layerItems tensor layer) block)) :
    (do
      let chunk ← dequantizeTensor G id q
      return chunk.slice0 0 ((min blockTokens (tokens - block * blockTokens) : Nat) : Int)) =
      Except.ok (restored.slice0 ((block : Int) * spec.blockTokens)
        (((block : Int) + 1) * spec.blockTokens)) := by
  obtain ⟨count, countEq⟩ : ∃ count, count = min blockTokens (tokens - block * blockTokens) :=
    ⟨_, rfl⟩
  rw [← countEq] at stored ⊢
  have room : count ≤ blockTokens := by omega
  have front : [blockTokens, heads].prod ≠ 0 := by
    simp [Nat.ne_of_gt cuts.tokens_pos, Nat.ne_of_gt cuts.heads_pos]
  obtain ⟨chunk, chunkOk, chunkShape, chunkData⟩ := dequantizeTensor_spec (F := G)
    (by rw [cut.bits_eq]; exact cuts.bits) front cut.packed cut.scales cut.original cut.group_eq
    cuts.group_pos (by rw [cut.bits_eq]; exact cuts.bytes) cuts.grouped
  have values : chunk.data = q.values G := by
    rw [chunkData, QuantizedTensor.values, cut.group_eq, Int.toNat_natCast]
  have sliced := @Tensor.slice0_inside _ _ blockTokens 0 count [heads, dim] chunkShape (by omega)
  simp only [Nat.cast_zero, Int.zero_add, Nat.zero_mul, List.drop_zero] at sliced
  have own : (chunk.slice0 0 (count : Int)).data = restoredItems F G spec.bits group
      (tokenPiece blockTokens tokens (heads * dim) (layerItems tensor layer) block) := by
    rw [sliced.2, values]
    simp only [List.prod_cons, List.prod_nil, Nat.mul_one]
    rw [cut.values_take cuts room, stored.packedRows, stored.scalesRows]
    rfl
  have low : sliceBound tokens ((block : Int) * spec.blockTokens) = block * blockTokens := by
    rw [dims.tokens_eq, ← Nat.cast_mul, sliceBound_natCast]
    omega
  have high : sliceBound tokens (((block : Int) + 1) * spec.blockTokens) =
      block * blockTokens + count := by
    have next : ((block : Int) + 1) * spec.blockTokens =
        ((block * blockTokens + blockTokens : Nat) : Int) := by
      rw [dims.tokens_eq]
      push_cast
      ring
    rw [next, sliceBound_natCast]
    omega
  have itemsLength : (layerItems tensor layer).length = tokens * (heads * dim) := by
    rw [layerItems_length shape inside]
    simp
  have windowed : ((restoredItems F G spec.bits group (layerItems tensor layer)).drop
      (block * blockTokens * (heads * dim))).take (count * (heads * dim)) =
        restoredItems F G spec.bits group
          (((layerItems tensor layer).drop (block * blockTokens * (heads * dim))).take
            (count * (heads * dim))) := by
    apply (restoredItems_additive F G dims.aligned).window
    · exact fun piece whole => restoredItems_length F G dims.aligned whole
    · exact Dvd.dvd.mul_left dims.group_dvd _
    · exact Dvd.dvd.mul_left dims.group_dvd _
    · rw [itemsLength, ← Nat.add_mul]
      exact Nat.mul_le_mul_right _ (by omega)
  rw [chunkOk, ok_bind]
  congr 1
  apply Tensor.ext
  · rw [Tensor.slice0_shape restoredShape, low, high, sliced.1, Nat.add_sub_cancel_left]
  · rw [Tensor.slice0_data restoredShape, low, high, own, Nat.add_sub_cancel_left, restoredData]
    simp only [List.prod_cons, List.prod_nil, Nat.mul_one]
    rw [windowed, tokenPiece, ← countEq]

end Chunks

section Attention

variable {F G : Type} [QuantArith F] [AttentionArith G] {α β : Type} [TorchElement α F]
  [TorchElement β F] {keys : Tensor α} {values : Tensor β} {spec : CacheSpec} {tokens : Nat}

/-- The block holds the tokens that the layer has at its place. -/
structure PackedKVBlock.Holds (F : Type) [QuantArith F] {α β : Type} [TorchElement α F]
    [TorchElement β F] (keys : Tensor α) (values : Tensor β) (spec : CacheSpec) (tokens layer : Nat)
    (blockId : Int) (block : PackedKVBlock) : Prop where
  placed : ∃ index : BlockIndex, index.layer = layer ∧ blockId = index.block ∧
    index.block * spec.blockTokens.toNat < tokens ∧
    Stores F spec spec.blockTokens.toNat spec.kvHeads.toNat spec.headDim.toNat
      spec.groupSize.toNat tokens keys values index block

theorem CacheSpec.Storable.packs (storable : spec.Storable) : spec.Packs := by
  have dims := storable.dims
  refine ⟨storable.valid, storable.group_pos, ?_⟩
  obtain ⟨width, wide⟩ := dims.accepts.perByte_dvd
  rw [dims.dim_eq, wide]
  rcases dims.accepts.bits_cases with two | four
  · rw [two]
    have per : perByte 2 = 4 := by decide
    rw [per]
    omega
  · rw [four]
    have per : perByte 4 = 2 := by decide
    rw [per]
    omega

theorem CacheSpec.Storable.cuts (storable : spec.Storable) : ∃ width groups,
    spec.Cuts spec.blockTokens.toNat spec.kvHeads.toNat spec.headDim.toNat width groups
      spec.groupSize.toNat := by
  obtain ⟨blockTokens, heads, dim, width, groups, groupSize, cuts, tokensEq, headsEq, dimEq⟩ :=
    storable.packs.cuts
  rw [tokensEq, headsEq, dimEq, cuts.group_eq]
  exact ⟨width, groups, cuts⟩

theorem CacheSpec.Storable.blockTokens_int32 (storable : spec.Storable) :
    spec.blockTokens < 2 ^ 31 := by
  obtain ⟨width, groups, cuts⟩ := storable.cuts
  have packedShape := cuts.packedShape
  have scaleShape := cuts.scaleShape
  simp only [CacheSpec.packedShape, CacheSpec.scaleShape, List.map_cons, List.map_nil,
    List.cons.injEq, and_true, Int.ofNat_eq_natCast] at packedShape scaleShape
  have wide : 0 < width := by
    have bytes := cuts.bytes
    have positive := cuts.dim_pos
    rcases Nat.eq_zero_or_pos width with rfl | wide
    · rw [Nat.zero_mul] at bytes
      omega
    · exact wide
  have codes : spec.blockTokens ≤ spec.packedCount := by
    rw [CacheSpec.packedCount, packedShape.1, packedShape.2.1, packedShape.2.2]
    exact_mod_cast Nat.le_trans (Nat.le_mul_of_pos_right _ cuts.heads_pos)
      (Nat.le_mul_of_pos_right _ wide)
  have scales : 0 ≤ spec.scaleCount := by
    rw [CacheSpec.scaleCount, scaleShape.1, scaleShape.2.1, scaleShape.2.2]
    exact_mod_cast Nat.zero_le _
  have fits := storable.fits.payloadBytes.2
  rw [CacheSpec.payloadBytes] at fits
  omega

theorem mapM_dequantize_holds (side : PackedKVBlock → QuantizedTensor) (restored : Tensor G)
    {layer : Nat} {selected : List Int} {blocks : List PackedKVBlock}
    (chunk : ∀ blockId block, block.Holds F keys values spec tokens layer blockId →
      (do
        let chunk ← dequantizeTensor G id (side block)
        return chunk.slice0 0 block.validTokens) =
        Except.ok (restored.slice0 (blockId * spec.blockTokens)
          ((blockId + 1) * spec.blockTokens)))
    (holds : List.Forall₂ (PackedKVBlock.Holds F keys values spec tokens layer) selected blocks) :
    (blocks.mapM fun block => do
      let chunk ← dequantizeTensor G id (side block)
      return chunk.slice0 0 block.validTokens) =
      Except.ok (selected.map fun block =>
        restored.slice0 (block * spec.blockTokens) ((block + 1) * spec.blockTokens)) := by
  induction holds with
  | nil => rfl
  | @cons blockId block selected blocks first _ induction =>
      rw [List.mapM_cons, chunk blockId block first, ok_bind, induction]
      rfl

/-- Attention over the blocks is attention over their tokens of the restored layer. -/
theorem packedAttentionReference_restored (input : StoreInput F keys values spec tokens)
    {layer : Nat} (inside : layer < spec.layers.toNat) {selected : List Int}
    {blocks : List PackedKVBlock} (nonempty : selected ≠ [])
    (holds : List.Forall₂ (PackedKVBlock.Holds F keys values spec tokens layer) selected blocks)
    (query : Tensor G) (scale : G) :
    packedAttentionReference query blocks scale =
      restoredAttention F G spec keys values layer selected query scale := by
  have dims := input.storable.dims
  obtain ⟨width, groups, cuts⟩ := input.storable.cuts
  have blocksNonempty : blocks ≠ [] := by
    rintro rfl
    exact nonempty (List.forall₂_nil_right_iff.mp holds)
  have occupied : 0 < tokens := by
    cases holds with
    | nil => exact absurd rfl nonempty
    | cons first _ =>
        obtain ⟨index, _, _, within, _⟩ := first.placed
        omega
  obtain ⟨restoredKeys, keysOk, keysShape, keysData⟩ :=
    restoredLayer_eq_ok (G := G) dims input.keyFloating input.keyShape inside occupied
  obtain ⟨restoredValues, valuesOk, valuesShape, valuesData⟩ :=
    restoredLayer_eq_ok (G := G) dims input.valueFloating input.valueShape inside occupied
  have keyChunks := mapM_dequantize_holds PackedKVBlock.key restoredKeys
    (by
      rintro _ block ⟨index, rfl, rfl, within, stores⟩
      rw [stores.valid]
      exact stores.keyRows.chunk_eq dims cuts input.keyShape inside within keysShape keysData
        (stores.shaped.cut cuts).1) holds
  have valueChunks := mapM_dequantize_holds PackedKVBlock.value restoredValues
    (by
      rintro _ block ⟨index, rfl, rfl, within, stores⟩
      rw [stores.valid]
      exact stores.valueRows.chunk_eq dims cuts input.valueShape inside within valuesShape
        valuesData (stores.shaped.cut cuts).2) holds
  unfold packedAttentionReference restoredAttention selectTokens
  rw [if_neg blocksNonempty, keyChunks, ok_bind, valueChunks, keysOk, ok_bind, valuesOk, ok_bind]
  rfl

end Attention

end KVSSD

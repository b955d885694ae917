import KVSSD.AttentionError
import KVSSD.QuantError
import KVSSD.RestoredLayers

/-!
# Attention over restored layers against the original

With exact arithmetic in quantization and attention: every item of a restored layer lies within half
a scale, and the error of the stored scale, of the item it was made from.  Attention over the
restored layer is therefore within a bound of attention over the original that does not depend on
the number of tokens.
-/

namespace KVSSD

open KVSSD.Python KVSSD.Quant

namespace Quant

/-- The largest scale of a group of values up to `largest`. -/
def largestScale (bits : Int) (largest : ℚ) : ℚ := max largest (1 / 10 ^ 8) / steps bits

/-- What quantization changes a value by at most. -/
def itemError (bits : Int) (largest : ℚ) : ℚ :=
  largestScale bits largest / 2 +
    steps bits * max (largestScale bits largest / 2 ^ 11) (1 / 2 ^ 25)

section Items

variable {bits : Int} {largest : ℚ} (widths : bits = 2 ∨ bits = 4)

include widths in
theorem itemError_nonneg : 0 ≤ itemError bits largest := by
  have positive := steps_pos widths
  have scale : 0 ≤ largestScale bits largest :=
    div_nonneg (le_max_of_le_right (by norm_num)) positive.le
  have rounding : (0 : ℚ) ≤ max (largestScale bits largest / 2 ^ 11) (1 / 2 ^ 25) :=
    le_max_of_le_right (by norm_num)
  exact add_nonneg (by linarith) (mul_nonneg positive.le rounding)

include widths in
theorem groupScale_le {group : List ℚ} (nonempty : group ≠ [])
    (bounded : ∀ value ∈ group, |value| ≤ largest) :
    groupScale bits group ≤ largestScale bits largest := by
  have largestMember : amax (group.map fun item => |item|) ≤ largest := by
    obtain ⟨value, member, equal⟩ := List.mem_map.mp
      (amax_mem (by simpa using nonempty : group.map (fun item => |item|) ≠ []))
    rw [← equal]
    exact bounded value member
  rw [groupScale_eq, largestScale]
  exact div_le_div_of_nonneg_right (max_le_max_right _ largestMember) (steps_pos widths).le

include widths in
theorem abs_sub_reconstruct_le_itemError {group : List ℚ}
    (bounded : ∀ value ∈ group, |value| ≤ largest) (small : largestScale bits largest < 65520)
    {value : ℚ} (member : value ∈ group) :
    |value - reconstruct bits group value| ≤ itemError bits largest := by
  have scale := groupScale_le widths (List.ne_nil_of_mem member) bounded
  have positive := steps_pos widths
  refine (abs_sub_reconstruct_le widths member (scale.trans_lt small)).trans ?_
  unfold itemError
  gcongr

theorem flatValues_zipWith {F : Type} [arith : DequantArith F] (bits : Int) (size : Nat)
    (packed : List UInt8) (scales : List UInt16) :
    flatValues (F := F) bits size packed scales =
      List.zipWith
        (fun code scale => arith.mul
          (arith.sub (arith.ofInt code.toNat) (arith.ofInt (midpoint bits))) (arith.ofHalf scale))
        (packed.flatMap (unpackByte bits.toNat (perByte bits)))
        (scales.flatMap fun scale => List.replicate size scale) := by
  have repeated : ((scales.map arith.ofHalf).flatMap fun scale => List.replicate size scale) =
      (scales.flatMap fun scale => List.replicate size scale).map arith.ofHalf := by
    simp [List.map_flatMap, List.flatMap_map]
  rw [flatValues, repeated, List.zipWith_map]

theorem flatValues_real (bits : Int) (size : Nat) (packed : List UInt8) (scales : List UInt16) :
    flatValues (F := ℝ) bits size packed scales =
      List.map (fun value : ℚ => (value : ℝ)) (flatValues bits size packed scales) := by
  rw [flatValues_zipWith, flatValues_zipWith, List.map_zipWith]
  congr 1
  funext code scale
  change ((code.toNat : ℤ) - (midpoint bits : ℤ) : ℝ) * ((Half.toRat scale : ℚ) : ℝ) =
    ((((code.toNat : ℤ) - (midpoint bits : ℤ) : ℚ) * Half.toRat scale : ℚ) : ℝ)
  push_cast
  rfl

variable {γ : Type} [element : TorchElement γ ℚ] {size : Nat} {items : List γ}

theorem length_of_mem_wholeGroups (whole : size ∣ items.length) {group : List ℚ}
    (member : group ∈ groupsOf ℚ (items.length / size) size items) : group.length = size :=
  length_of_mem_groupsOf (Nat.div_mul_cancel whole).symm member

include widths in
theorem restoredItems_eq (divides : perByte bits ∣ size) (whole : size ∣ items.length) :
    restoredItems ℚ ℚ bits size items =
      (groupsOf ℚ (items.length / size) size items).flatMap fun group =>
        group.map (reconstruct bits group) := by
  have scales : scalesOf ℚ bits size items =
      (groupsOf ℚ (items.length / size) size items).flatMap fun group =>
        [storedScale bits group] := by
    rw [scalesOf, ← List.map_eq_flatMap]
  rw [restoredItems, packedOf, scales, flatValues_flatMap]
  · apply List.flatMap_congr
    intro group member
    have sized := length_of_mem_wholeGroups whole member
    rw [← map_codeValue widths, ← flatValues_packedGroup widths (sized.symm ▸ divides)
      (codesFit widths group), sized]
  · intro group member
    rw [packedGroup_length, length_of_mem_wholeGroups whole member, List.length_singleton,
      Nat.one_mul, Nat.div_mul_cancel divides]

include widths in
/-- Every item against the value it is restored to. -/
theorem restoredItems_close (divides : perByte bits ∣ size) (whole : size ∣ items.length)
    (bounded : ∀ item ∈ items, |element.toFloat item| ≤ largest)
    (small : largestScale bits largest < 65520) :
    List.Forall₂ (fun item value : ℝ => |item - value| ≤ itemError bits largest)
      (items.map fun item => ((element.toFloat item : ℚ) : ℝ))
      (restoredItems ℚ ℝ bits size items) := by
  have total : (items.map element.toFloat).length = items.length / size * size := by
    rw [List.length_map, Nat.div_mul_cancel whole]
  have cut : (groupsOf ℚ (items.length / size) size items).flatMap id =
      items.map element.toFloat := by
    rw [List.flatMap_id]
    exact rows_flatten total
  have known : ∀ group ∈ groupsOf ℚ (items.length / size) size items, ∀ value ∈ group,
      |value| ≤ largest := by
    intro group member value inside
    have present : value ∈ items.map element.toFloat := by
      rw [← cut]
      exact List.mem_flatMap.mpr ⟨group, member, inside⟩
    obtain ⟨item, itemMember, rfl⟩ := List.mem_map.mp present
    exact bounded item itemMember
  have values : List.Forall₂ (fun item value : ℚ => |item - value| ≤ itemError bits largest)
      (items.map element.toFloat) (restoredItems ℚ ℚ bits size items) := by
    rw [restoredItems_eq widths divides whole, ← cut]
    have same : List.Forall₂
        (fun group other => group = other ∧ group ∈ groupsOf ℚ (items.length / size) size items)
        (groupsOf ℚ (items.length / size) size items)
        (groupsOf ℚ (items.length / size) size items) :=
      List.forall₂_same.mpr fun group member => ⟨rfl, member⟩
    refine List.rel_flatMap same ?_
    rintro group _ ⟨rfl, member⟩
    rw [List.forall₂_map_right_iff]
    exact List.forall₂_same.mpr fun value inside =>
      abs_sub_reconstruct_le_itemError widths (known group member) small inside
  have real : restoredItems ℚ ℝ bits size items =
      List.map (fun value : ℚ => (value : ℝ)) (restoredItems ℚ ℚ bits size items) :=
    flatValues_real ..
  rw [real, List.forall₂_map_right_iff, ← Function.comp_def (fun value : ℚ => (value : ℝ)),
    ← List.map_map, List.forall₂_map_left_iff]
  exact values.imp fun item value close => by exact_mod_cast close

end Items

end Quant

section Layers

variable {γ : Type} [element : TorchElement γ ℚ]

/-- A layer as it is, over the reals. -/
noncomputable def originalLayer (tensor : Tensor γ) (layer : Nat) : Except PyError (Tensor ℝ) := do
  let whole ← tensor.select0 layer
  return whole.map fun item => ((element.toFloat item : ℚ) : ℝ)

/-- Attention over the tokens of some blocks of a layer as it is. -/
noncomputable def originalAttention {α β : Type} [TorchElement α ℚ] [TorchElement β ℚ]
    (spec : CacheSpec)
    (keys : Tensor α) (values : Tensor β) (layer : Nat) (selected : List Int) (query : Tensor ℝ)
    (scale : ℝ) : Except PyError (Tensor ℝ) := do
  let originalKeys ← originalLayer keys layer
  let originalValues ← originalLayer values layer
  let keys ← selectTokens spec selected originalKeys
  let values ← selectTokens spec selected originalValues
  referenceAttention query keys values scale

variable {spec : CacheSpec} {blockTokens heads dim group layers tokens : Nat}
  (dims : spec.Dims blockTokens heads dim group) {tensor : Tensor γ} {largest : ℚ}

include dims in
theorem originalLayer_within (floating : TorchElement.isFloatingPoint γ ℚ = true)
    (shape : tensor.shape = [layers, tokens, heads, dim]) {layer : Nat} (inside : layer < layers)
    (occupied : 0 < tokens) (bounded : ∀ item ∈ tensor.data, |element.toFloat item| ≤ largest)
    (small : largestScale spec.bits largest < 65520) :
    ∃ original restored : Tensor ℝ, originalLayer tensor layer = .ok original ∧
      restoredLayer ℚ ℝ spec tensor layer = .ok restored ∧
      original.shape = [tokens, heads, dim] ∧
      original.Within (itemError spec.bits largest) restored ∧
      ∀ item ∈ original.data, |item| ≤ largest := by
  obtain ⟨restored, restoredOk, restoredShape, restoredData⟩ :=
    restoredLayer_eq_ok (F := ℚ) (G := ℝ) dims floating shape inside occupied
  obtain ⟨whole, selected, wholeShape, wholeData⟩ := select0_layer shape inside
  have known : ∀ item ∈ layerItems tensor layer, |element.toFloat item| ≤ largest :=
    fun item member => bounded item (List.mem_of_mem_drop (List.mem_of_mem_take member))
  have whole_groups : group ∣ (layerItems tensor layer).length := by
    rw [layerItems_length shape inside]
    simpa [List.prod_cons] using Dvd.dvd.mul_left dims.group_dvd tokens
  refine ⟨_, restored, by rw [originalLayer, selected]; rfl, restoredOk, wholeShape, ?_, ?_⟩
  · refine ⟨restoredShape.trans wholeShape.symm, ?_⟩
    change List.Forall₂ _ (whole.data.map _) _
    rw [wholeData, restoredData]
    exact restoredItems_close dims.accepts.bits_cases dims.aligned whole_groups known small
  · intro item member
    change item ∈ whole.data.map _ at member
    obtain ⟨value, present, rfl⟩ := List.mem_map.mp member
    rw [wholeData] at present
    exact_mod_cast known value present

theorem inside_of_restoredLayer (shape : tensor.shape = [layers, tokens, heads, dim]) {layer : Nat}
    {restored : Tensor ℝ} (success : restoredLayer ℚ ℝ spec tensor layer = .ok restored) :
    layer < layers ∧ 0 < tokens := by
  obtain ⟨whole, selected, rest⟩ := bind_eq_ok.mp success
  obtain ⟨q, quantized, _⟩ := bind_eq_ok.mp rest
  by_cases inside : layer < layers
  · refine ⟨inside, ?_⟩
    obtain ⟨other, otherOk, wholeShape, _⟩ := select0_layer shape inside
    obtain rfl := Except.ok.inj (otherOk.symm.trans selected)
    have cut : other.shape = [tokens, heads] ++ [dim] := wholeShape
    obtain ⟨_, _, occupied⟩ := accepts_of_quantizeTensor cut quantized
    apply Nat.pos_of_ne_zero
    rintro rfl
    simp at occupied
  · obtain ⟨tensorShape, items, exact⟩ := tensor
    obtain rfl := shape
    have refused : Tensor.select0 ⟨_, items, exact⟩ layer = .error .indexError := dif_neg inside
    cases refused.symm.trans selected

/-- How many of `tokens` tokens lie in some blocks. -/
def selectedCount (spec : CacheSpec) (tokens : Nat) (selected : List Int) : Nat :=
  (selected.map fun block => sliceBound tokens ((block + 1) * spec.blockTokens) -
    sliceBound tokens (block * spec.blockTokens)).sum

/-- The tokens of some blocks. -/
theorem selectTokens_within {error : ℝ} {original restored chosen : Tensor ℝ} {rest : List Nat}
    {count : Nat} {selected : List Int} (nonempty : selected ≠ [])
    (shape : original.shape = count :: rest) (close : original.Within error restored)
    (success : selectTokens spec selected restored = .ok chosen) :
    ∃ plain, selectTokens spec selected original = .ok plain ∧
      plain.shape = selectedCount spec count selected :: rest ∧ plain.Within error chosen ∧
      ∀ item ∈ plain.data, item ∈ original.data := by
  have each : List.Forall₂ (Tensor.Rel fun item other : ℝ => |other - item| ≤ error)
      (selected.map fun block => restored.slice0 (block * spec.blockTokens)
        ((block + 1) * spec.blockTokens))
      (selected.map fun block => original.slice0 (block * spec.blockTokens)
        ((block + 1) * spec.blockTokens)) := by
    rw [List.forall₂_map_left_iff, List.forall₂_map_right_iff]
    exact List.forall₂_same.mpr fun block _ => close.flip.slice0 _ _
  obtain ⟨plain, plainOk, plainClose⟩ := Tensor.Rel.cat each success
  have shapes : ∀ tensor ∈ selected.map fun block => original.slice0
      (block * spec.blockTokens) ((block + 1) * spec.blockTokens),
      ∃ count, tensor.shape = count :: rest := by
    intro tensor member
    obtain ⟨block, _, rfl⟩ := List.mem_map.mp member
    exact ⟨_, Tensor.slice0_shape shape _ _⟩
  obtain ⟨joined, joinedOk, joinedShape, joinedData⟩ :=
    Tensor.cat_total (by simpa using nonempty) shapes
  obtain rfl := Except.ok.inj (joinedOk.symm.trans plainOk)
  refine ⟨joined, joinedOk, ?_, plainClose.flip, ?_⟩
  · rw [joinedShape, List.map_map, selectedCount]
    congr 2
    refine List.map_congr_left fun block _ => ?_
    rw [Function.comp_apply, Tensor.slice0_shape shape, List.headD_cons]
  intro item member
  rw [joinedData] at member
  obtain ⟨part, partMember, inside⟩ := List.mem_flatMap.mp member
  obtain ⟨block, _, rfl⟩ := List.mem_map.mp partMember
  rw [Tensor.slice0_data shape] at inside
  exact List.mem_of_mem_drop (List.mem_of_mem_take inside)

end Layers

/-- What quantization changes an output by at most, where the absolute values of a row of the query
add up to at most `size`. -/
noncomputable def attentionError (bits : Int) (keyLargest valueLargest : ℚ) (size scale : ℝ) : ℝ :=
  itemError bits valueLargest + size * itemError bits keyLargest * |scale| * valueLargest

/-- Attention over the restored layer is within the error of attention over the original. -/
theorem originalAttention_within {α β : Type} [keyElement : TorchElement α ℚ]
    [valueElement : TorchElement β ℚ] {keys : Tensor α} {values : Tensor β} {spec : CacheSpec}
    {tokens : Nat} (input : StoreInput ℚ keys values spec tokens) {keyLargest valueLargest : ℚ}
    (keyBounded : ∀ item ∈ keys.data, |keyElement.toFloat item| ≤ keyLargest)
    (valueBounded : ∀ item ∈ values.data, |valueElement.toFloat item| ≤ valueLargest)
    (keySmall : largestScale spec.bits keyLargest < 65520)
    (valueSmall : largestScale spec.bits valueLargest < 65520) {layer : Nat} {selected : List Int}
    (nonempty : selected ≠ []) {query output : Tensor ℝ} {queryHeads : Nat}
    (queryShape : query.shape = [queryHeads, spec.headDim.toNat])
    (divides : spec.kvHeads.toNat ∣ queryHeads) {scale : ℝ}
    (success : restoredAttention ℚ ℝ spec keys values layer selected query scale = .ok output) :
    ∃ plain, originalAttention spec keys values layer selected query scale = .ok plain ∧
      ∀ size, (∀ row ∈ query.matrix queryHeads spec.headDim.toNat, rowNorm row ≤ size) →
        plain.Within (attentionError spec.bits keyLargest valueLargest size scale) output := by
  have dims := input.storable.dims
  have widths := dims.accepts.bits_cases
  obtain ⟨inside, occupied⟩ : layer < spec.layers.toNat ∧ 0 < tokens := by
    obtain ⟨_, restored, _⟩ := bind_eq_ok.mp success
    exact inside_of_restoredLayer input.keyShape restored
  obtain ⟨originalKeys, restoredKeys, originalKeysOk, restoredKeysOk, keysShape, keysClose, _⟩ :=
    originalLayer_within dims input.keyFloating input.keyShape inside occupied keyBounded keySmall
  obtain ⟨originalValues, restoredValues, originalValuesOk, restoredValuesOk, valuesShape,
      valuesClose, valuesBounded⟩ :=
    originalLayer_within dims input.valueFloating input.valueShape inside occupied valueBounded
      valueSmall
  unfold restoredAttention at success
  rw [restoredKeysOk, ok_bind, restoredValuesOk, ok_bind] at success
  obtain ⟨chosenKeys, chosenKeysOk, rest⟩ := bind_eq_ok.mp success
  obtain ⟨chosenValues, chosenValuesOk, attended⟩ := bind_eq_ok.mp rest
  obtain ⟨plainKeys, plainKeysOk, plainKeysShape, plainKeysClose, _⟩ :=
    selectTokens_within nonempty keysShape keysClose chosenKeysOk
  obtain ⟨plainValues, plainValuesOk, plainValuesShape, plainValuesClose, valuesKnown⟩ :=
    selectTokens_within nonempty valuesShape valuesClose chosenValuesOk
  have radiusNonneg : (0 : ℝ) ≤ valueLargest := by
    have some_item : originalValues.data ≠ [] := by
      apply List.ne_nil_of_length_pos
      rw [originalValues.size_eq, valuesShape]
      simp [occupied, dims.heads_pos, dims.dim_pos]
    obtain ⟨item, member⟩ := List.exists_mem_of_ne_nil _ some_item
    exact (abs_nonneg item).trans (valuesBounded item member)
  have attends (size : ℝ)
      (sizes : ∀ row ∈ query.matrix queryHeads spec.headDim.toNat, rowNorm row ≤ size) :=
    referenceAttention_within queryShape plainKeysShape plainValuesShape dims.heads_pos divides
      (by exact_mod_cast itemError_nonneg widths) (by exact_mod_cast itemError_nonneg widths)
      radiusNonneg plainKeysClose plainValuesClose
      (fun value member => valuesBounded value (valuesKnown value member)) sizes scale
  have original : originalAttention spec keys values layer selected query scale =
      referenceAttention query plainKeys plainValues scale := by
    unfold originalAttention
    rw [originalKeysOk, ok_bind, originalValuesOk, ok_bind, plainKeysOk, ok_bind, plainValuesOk,
      ok_bind]
  obtain ⟨plain, lse, plainOk, _⟩ := referenceAttention_attends queryShape plainKeysShape
    plainValuesShape dims.heads_pos divides scale
  refine ⟨plain, original.trans plainOk, ?_⟩
  intro size sizes
  obtain ⟨same, other, sameOk, otherOk, close⟩ := attends size sizes
  obtain rfl := Except.ok.inj (plainOk.symm.trans sameOk)
  obtain rfl := Except.ok.inj (attended.symm.trans otherOk)
  exact close

end KVSSD

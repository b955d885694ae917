import KVSSD.Attention

/-!
# The layout of dequantization

Both dequantizers, the one of `quant.py` and the one of the reference backend, compute the same flat
list of values: code `i` times the scale of the group it lies in.  The values of stacked tensors are
those of the parts one behind the other.
-/

namespace KVSSD

open KVSSD.Python KVSSD.Quant

section Values

variable {F : Type} [arith : DequantArith F]

/-- The values of packed codes and scales, for all groups in order. -/
def flatValues (bits : Int) (groupSize : Nat) (packed : List UInt8) (scales : List UInt16) :
    List F :=
  List.zipWith
    (fun item scale => arith.mul (arith.sub item (arith.ofInt (midpoint bits))) scale)
    ((packed.flatMap (unpackByte bits.toNat (perByte bits))).map fun item =>
      arith.ofInt item.toNat)
    ((scales.map arith.ofHalf).flatMap fun scale => List.replicate groupSize scale)

theorem length_flatMap_const {α β : Type} {image : α → List β} {width : Nat}
    (wide : ∀ item, (image item).length = width) (items : List α) :
    (items.flatMap image).length = items.length * width :=
  length_flatMap_of_wide fun item _ => wide item

theorem flatValues_length {bits : Int} {groupSize : Nat} {packed : List UInt8}
    {scales : List UInt16}
    (even : packed.length * perByte bits = scales.length * groupSize) :
    (flatValues (F := F) bits groupSize packed scales).length =
      packed.length * perByte bits := by
  rw [flatValues, List.length_zipWith, List.length_map,
    length_flatMap_const (unpackByte_length _ _),
    length_flatMap_const (fun scale => List.length_replicate), List.length_map, even,
    Nat.min_self]

/-- The value at one place: the code in byte `index / perByte`, times the scale of group
`index / groupSize`. -/
def packedValue (bits : Int) (groupSize : Nat) (packed : List UInt8) (scales : List UInt16)
    (index : Nat) : F :=
  arith.mul
    (arith.sub
      (arith.ofInt ((packed.getD (index / perByte bits) 0 >>>
        UInt8.ofNat (index % perByte bits * bits.toNat)) &&&
          UInt8.ofNat (2 ^ bits.toNat - 1)).toNat)
      (arith.ofInt (midpoint bits)))
    (arith.ofHalf (scales.getD (index / groupSize) 0))

theorem flatValues_eq_map {bits : Int} {groupSize : Nat} {packed : List UInt8}
    {scales : List UInt16}
    (even : packed.length * perByte bits = scales.length * groupSize) :
    flatValues (F := F) bits groupSize packed scales =
      (List.range (scales.length * groupSize)).map
        (packedValue bits groupSize packed scales) := by
  have codes := flatMap_eq_map_range
    (fun byte place => (byte >>> UInt8.ofNat (place * bits.toNat)) &&&
      UInt8.ofNat (2 ^ bits.toNat - 1))
    (fun byte => (rfl : unpackByte bits.toNat (perByte bits) byte = _)) 0 packed
  have constant (scale : UInt16) :
      List.replicate groupSize scale = (List.range groupSize).map fun _ => scale := by
    rw [List.map_const', List.length_range]
  have repeated := flatMap_eq_map_range (fun (scale : UInt16) (_ : Nat) => scale) constant 0
    scales
  rw [flatValues, codes, even, List.flatMap_map]
  have scaled : (scales.flatMap fun scale => List.replicate groupSize (arith.ofHalf scale)) =
      (scales.flatMap fun scale => List.replicate groupSize scale).map arith.ofHalf := by
    simp [List.map_flatMap]
  rw [scaled, repeated, List.map_map, List.map_map, List.zipWith_map, List.zipWith_self]
  rfl

theorem flatValues_append {bits : Int} {groupSize : Nat} {packed more : List UInt8}
    {scales moreScales : List UInt16}
    (even : packed.length * perByte bits = scales.length * groupSize) :
    flatValues (F := F) bits groupSize (packed ++ more) (scales ++ moreScales) =
      flatValues bits groupSize packed scales ++ flatValues bits groupSize more moreScales := by
  have front : ((packed.flatMap (unpackByte bits.toNat (perByte bits))).map fun item =>
        arith.ofInt item.toNat).length =
      ((scales.map arith.ofHalf).flatMap fun scale => List.replicate groupSize scale).length := by
    rw [List.length_map, length_flatMap_const (unpackByte_length _ _),
      length_flatMap_const (fun scale => List.length_replicate), List.length_map, even]
  simp only [flatValues, List.flatMap_append, List.map_append]
  exact List.zipWith_append front

theorem flatValues_flatMap {ι : Type} {bits : Int} {groupSize : Nat} {items : List ι}
    {packed : ι → List UInt8} {scales : ι → List UInt16}
    (even : ∀ item ∈ items,
      (packed item).length * perByte bits = (scales item).length * groupSize) :
    flatValues (F := F) bits groupSize (items.flatMap packed) (items.flatMap scales) =
      items.flatMap fun item => flatValues bits groupSize (packed item) (scales item) := by
  induction items with
  | nil => rfl
  | cons item items induction =>
      rw [List.flatMap_cons, List.flatMap_cons, List.flatMap_cons,
        flatValues_append (even item (by simp)),
        induction fun other member => even other (by simp [member])]

end Values

theorem Tensor.lastRows_flatten {α : Type} (tensor : Tensor α) :
    tensor.lastRows.flatten = tensor.data :=
  rows_flatten tensor.size_eq_rows

theorem Tensor.mapLast_fixed {α : Type} {tensor : Tensor α} {width : Nat}
    {image : List α → List α}
    {wide : ∀ row, row.length = Tensor.lastDim tensor.shape → (image row).length = width}
    (fixed : ∀ row, row.length = Tensor.lastDim tensor.shape → image row = row) :
    (tensor.mapLast width image wide).data = tensor.data := by
  change tensor.lastRows.flatMap image = tensor.data
  have same : tensor.lastRows.flatMap image = tensor.lastRows.flatMap id :=
    List.flatMap_congr fun row member => fixed row (Tensor.length_of_mem_lastRows member)
  rw [same, List.flatMap_id, tensor.lastRows_flatten]

theorem unpackCodes_spec {packed : Tensor UInt8} {bits : Int} {front : List Nat}
    {width elements : Nat} (valid : ¬ (bits ≠ 2 ∧ bits ≠ 4))
    (shape : packed.shape = front ++ [width]) (positive : front.prod ≠ 0)
    (whole : elements = width * perByte bits) :
    ∃ codes, unpackCodes packed bits elements = .ok codes ∧
      codes.shape = front ++ [elements] ∧
      codes.data = packed.data.flatMap (unpackByte bits.toNat (perByte bits)) := by
  unfold unpackCodes
  rw [if_neg valid]
  have dropped : packed.shape.dropLast = front := by rw [shape, List.dropLast_concat]
  have size : (packed.data.flatMap (unpackByte bits.toNat (perByte bits))).length =
      (front ++ elements :: []).prod := by
    rw [length_flatMap_const (unpackByte_length _ _), packed.size_eq, shape, whole]
    simp only [List.prod_append, List.prod_cons, List.prod_nil]
    ring
  have flat := @Tensor.reshapeInfer_of_size _ (packed.expandLast (perByte bits)
    (unpackByte bits.toNat (perByte bits)) (unpackByte_length _ _)) front [] elements
    (by simpa using positive) size
  rw [dropped]
  simp only [flat, ok_bind]
  refine ⟨_, rfl, ?_, ?_⟩
  · simp [Tensor.mapLast, Tensor.lastDim]
  · refine Tensor.mapLast_fixed ?_
    intro row length
    refine List.take_of_length_le (Nat.le_of_eq ?_)
    simpa [Tensor.lastDim] using length

theorem Tensor.repeatInterleave_spec {α : Type} {tensor : Tensor α} {front : List Nat}
    {width : Nat} (repeats : Nat) (shape : tensor.shape = front ++ [width]) :
    ∃ expanded, tensor.repeatInterleave repeats = .ok expanded ∧
      expanded.shape = front ++ [width * repeats] ∧
      expanded.data = tensor.data.flatMap fun item => List.replicate repeats item := by
  unfold Tensor.repeatInterleave
  rw [if_neg (by omega)]
  refine ⟨_, rfl, ?_, ?_⟩
  · simp [Tensor.mapLast, shape]
  · change (tensor.lastRows.flatMap fun row => row.flatMap fun item =>
      List.replicate ((repeats : Int)).toNat item) = _
    rw [← List.flatMap_assoc, List.flatMap_id', tensor.lastRows_flatten]
    rfl

theorem flatten_zipWith_rows {α β γ : Type} {f : β → α → γ} {width : Nat}
    {parameters : List β} {items : List α}
    (exact : items.length = parameters.length * width) :
    (List.zipWith (fun parameter row => row.map (f parameter)) parameters
        (rows parameters.length width items)).flatten =
      List.zipWith (fun item parameter => f parameter item) items
        (parameters.flatMap fun parameter => List.replicate width parameter) := by
  induction parameters generalizing items with
  | nil => simp
  | cons parameter parameters induction =>
      have total : items.length = width + parameters.length * width := by
        rw [exact, List.length_cons]
        ring
      have front : (items.take width).length = (List.replicate width parameter).length := by
        rw [List.length_take, List.length_replicate]
        omega
      have tail := @induction (items.drop width) (by
        rw [List.length_drop]
        omega)
      have head : List.zipWith (fun item parameter => f parameter item) (items.take width)
          (List.replicate width parameter) = (items.take width).map (f parameter) := by
        refine List.ext_getElem (by simp) ?_
        intro index _ _
        simp
      rw [List.length_cons, rows, List.zipWith_cons_cons, List.flatten_cons, tail,
        List.flatMap_cons, ← head, ← List.zipWith_append front, List.take_append_drop]

section Dequantize

variable {F : Type} {packed : Tensor UInt8} {scales : Tensor UInt16} {bits : Int}
  {front : List Nat} {width groups groupSize dim : Nat}

theorem dequantizePacked_spec [arith : AttentionArith F]
    (valid : ¬ (bits ≠ 2 ∧ bits ≠ 4)) (positive : front.prod ≠ 0)
    (packedShape : packed.shape = front ++ [width])
    (scalesShape : scales.shape = front ++ [groups])
    (bytes : dim = width * perByte bits) (grouped : dim = groups * groupSize) :
    ∃ values : Tensor F, dequantizePacked bits groupSize dim packed scales = .ok values ∧
      values.shape = front ++ [dim] ∧
      values.data = flatValues bits groupSize packed.data scales.data := by
  obtain ⟨codes, codesOk, codesShape, codesData⟩ :=
    unpackCodes_spec valid packedShape positive bytes
  obtain ⟨expanded, expandedOk, expandedShape, expandedData⟩ :=
    Tensor.repeatInterleave_spec groupSize
      (show (scales.map arith.ofHalf).shape = front ++ [groups] from scalesShape)
  have shapes : (codes.map fun item => arith.ofInt item.toNat).shape = expanded.shape := by
    rw [expandedShape, ← grouped]
    exact codesShape
  unfold dequantizePacked
  rw [codesOk, ok_bind, expandedOk, ok_bind, Tensor.zipWith, dif_pos shapes]
  refine ⟨_, rfl, codesShape, ?_⟩
  simp only [Tensor.map, codesData, expandedData, flatValues]

/-- `dequantize_tensor`. -/
theorem dequantizeTensor_spec [arith : DequantArith F] {q : QuantizedTensor}
    (valid : ¬ (q.bits ≠ 2 ∧ q.bits ≠ 4)) (positive : front.prod ≠ 0)
    (packedShape : q.packed.shape = front ++ [width])
    (scalesShape : q.scales.shape = front ++ [groups])
    (original : q.originalShape = front ++ [dim]) (size : q.groupSize = groupSize)
    (nonempty : 0 < groupSize) (bytes : dim = width * perByte q.bits)
    (grouped : dim = groups * groupSize) :
    ∃ values : Tensor F, dequantizeTensor F id q = .ok values ∧
      values.shape = front ++ [dim] ∧
      values.data = flatValues q.bits groupSize q.packed.data q.scales.data := by
  obtain ⟨codes, codesOk, codesShape, codesData⟩ :=
    unpackCodes_spec valid packedShape positive bytes
  have lastDim : Tensor.lastDim q.originalShape = dim := by rw [original]; simp
  have dropped : q.originalShape.dropLast = front := by rw [original, List.dropLast_concat]
  have positions : q.scales.data.length = front.prod * groups := by
    rw [q.scales.size_eq, scalesShape]
    simp
  have codesLength : codes.data.length = front.prod * dim := by
    rw [codes.size_eq, codesShape]
    simp
  obtain ⟨items, itemsEq⟩ : ∃ items : Tensor F, items =
      codes.map fun item => arith.ofInt item.toNat := ⟨_, rfl⟩
  have itemsData : items.data = codes.data.map fun item => arith.ofInt item.toNat := by
    rw [itemsEq]
    rfl
  have size_eq : items.data.length = (front ++ groups :: [groupSize]).prod := by
    rw [itemsData, List.length_map, codesLength, grouped]
    simp [List.prod_append]
  have regrouped := @Tensor.reshapeInfer_of_size _ items front [groupSize] groups
    (by simp [positive, Nat.ne_of_gt nonempty]) size_eq
  have grouping : q.groupSize.toNat = groupSize := by rw [size, Int.toNat_natCast]
  unfold dequantizeTensor
  rw [lastDim, codesOk, ok_bind, dropped, grouping, ← itemsEq, regrouped, ok_bind]
  have shapes : (q.scales.map arith.ofHalf).shape =
      (front ++ groups :: [groupSize]).dropLast := by
    change q.scales.shape = _
    rw [scalesShape, List.dropLast_append_of_ne_nil (by simp)]
    rfl
  unfold Tensor.zipLast
  rw [dif_pos shapes, ok_bind]
  have total : front.prod * groups * groupSize = q.originalShape.prod := by
    rw [original, grouped]
    simp [Nat.mul_assoc]
  rw [Tensor.reshape_of_size (by
    rw [Tensor.size_eq, ← total]
    simp [List.prod_append, Nat.mul_assoc]), ok_bind]
  refine ⟨_, rfl, original, ?_⟩
  have lastRows : Tensor.lastRows ⟨front ++ groups :: [groupSize], items.data, size_eq⟩ =
      rows (q.scales.data.map arith.ofHalf).length groupSize items.data := by
    have split : (front ++ groups :: [groupSize]).dropLast = front ++ [groups] := by
      rw [List.dropLast_append_of_ne_nil (by simp)]
      rfl
    have last : Tensor.lastDim (front ++ groups :: [groupSize]) = groupSize := by
      simp [Tensor.lastDim, List.getLast?_append]
    simp only [Tensor.lastRows, split, last]
    congr 1
    simp [positions]
  simp only [Tensor.map, List.map_id]
  rw [lastRows, flatten_zipWith_rows]
  · simp only [itemsData, codesData, flatValues]
  · simp [itemsData, codesLength, positions, grouped, Nat.mul_assoc]

end Dequantize

end KVSSD

import KVSSD.StoreBlocks
import KVSSD.Loader
import KVSSD.Exact
import KVSSD.Lib.Zlib

/-!
# Round trip of a store

A created store holds every token of every layer exactly once.  The records tile
the data file, each record reads back as the block that was written, and the
valid rows of the blocks of a layer are the quantized layer.
-/

namespace KVSSD

open KVSSD.Python KVSSD.Struct

/-- No call to the file system fails. -/
def noFaults : Faults := fun _ => none

@[simp] theorem attempt_noFaults (call : FileCall) :
    FileCall.attempt noFaults call = pure () := rfl

@[simp] theorem closeData_noFaults {α : Type} (body : RootM α) :
    closeData noFaults body = body := rfl

theorem save_noFaults (manifest : Manifest) (root : Root) :
    manifest.save noFaults root =
      .ok () { root with manifest := some (.saved manifest) } := rfl

section Indices

variable {layers tokens blockTokens : Nat}

/-- The number of blocks of a layer. -/
def blockCount (tokens blockTokens : Nat) : Nat :=
  (tokens + blockTokens - 1) / blockTokens

theorem blockIndices_eq :
    blockIndices layers tokens blockTokens =
      (List.range layers).flatMap fun layer =>
        (List.range (blockCount tokens blockTokens)).map fun block =>
          ⟨layer, block, block * blockTokens⟩ := by
  unfold blockIndices
  apply List.flatMap_congr
  intro layer _
  rw [pyRange, List.zipIdx_map, ← blockCount]
  have numbered : (List.range (blockCount tokens blockTokens)).zipIdx =
      (List.range (blockCount tokens blockTokens)).map fun block => (block, block) := by
    apply List.ext_getElem
    · simp
    · intro index _ _
      simp
  rw [numbered, List.map_map, List.map_map]
  rfl

theorem lt_blockCount {block : Nat} (positive : 0 < blockTokens) :
    block < blockCount tokens blockTokens ↔ block * blockTokens < tokens := by
  rw [blockCount, Nat.lt_div_iff_mul_lt positive]
  omega

theorem mem_blockIndices {index : BlockIndex} (positive : 0 < blockTokens)
    (member : index ∈ blockIndices layers tokens blockTokens) :
    index.layer < layers ∧ index.start = index.block * blockTokens ∧
      index.start < tokens := by
  rw [blockIndices_eq] at member
  simp only [List.mem_flatMap, List.mem_range, List.mem_map] at member
  obtain ⟨layer, layerInside, block, blockInside, rfl⟩ := member
  exact ⟨layerInside, rfl, (lt_blockCount positive).mp blockInside⟩

theorem blockIndices_nodup : (blockIndices layers tokens blockTokens).Nodup := by
  rw [blockIndices_eq, List.nodup_flatMap]
  constructor
  · intro layer _
    refine List.Nodup.map ?_ List.nodup_range
    intro left right same
    simpa using congrArg BlockIndex.block same
  · refine List.Pairwise.imp ?_ (List.nodup_range (n := layers))
    intro left right different
    simp only [Function.onFun, List.disjoint_left, List.mem_map]
    rintro index ⟨block, _, rfl⟩ ⟨other, _, same⟩
    exact different (congrArg BlockIndex.layer same).symm

theorem flatMap_range_single {α : Type} {f : Nat → List α} {count index : Nat}
    (inside : index < count)
    (others : ∀ other, other ≠ index → f other = []) :
    (List.range count).flatMap f = f index := by
  induction count with
  | zero => omega
  | succ count induction =>
      rw [List.range_succ, List.flatMap_append, List.flatMap_singleton]
      by_cases last : index = count
      · subst last
        have none : (List.range index).flatMap f = [] := by
          rw [List.flatMap_eq_nil_iff]
          intro other member
          exact others other (Nat.ne_of_lt (List.mem_range.mp member))
        rw [none, List.nil_append]
      · rw [induction (by omega), others count (by omega), List.append_nil]

theorem blockIndices_filter {layer : Nat} (inside : layer < layers) :
    (blockIndices layers tokens blockTokens).filter (fun index => index.layer = layer) =
      (List.range (blockCount tokens blockTokens)).map fun block =>
        ⟨layer, block, block * blockTokens⟩ := by
  rw [blockIndices_eq, List.filter_flatMap, flatMap_range_single inside]
  · rw [List.filter_eq_self]
    simp
  · intro other different
    rw [List.filter_eq_nil_iff]
    simp [different]

end Indices

/-- A block that was packed and encoded at its place in the loops. -/
structure Written where
  index : BlockIndex
  block : PackedKVBlock
  record : Bytes

section Writer

variable {F : Type} [arith : QuantArith F] {α β : Type}
  [keyElement : TorchElement α F] [valueElement : TorchElement β F]
  {crc32 : Bytes → UInt32} {keys : Tensor α} {values : Tensor β} {spec : CacheSpec}

variable (F crc32 keys values spec) in
/-- What the loop body produces at an index. -/
structure Written.Produced (written : Written) : Prop where
  packed : packBlock F keys values spec written.index = .ok written.block
  encoded : encodeRecord crc32 written.block spec =
    .ok (written.record, ((crc32 (payload written.block)).toNat : Int))
  length : written.record.length = spec.recordSize

variable (crc32 spec) in
/-- The manifest entry of the record at a position of the file. -/
def Written.entry (written : Written) (position : Nat) : BlockEntry :=
  { layer := written.index.layer
    block := written.index.block
    offset := ((position * spec.recordSize : Nat) : Int)
    length := (spec.recordSize : Int)
    validTokens := written.block.validTokens
    crc32 := ((crc32 (payload written.block)).toNat : Int) }

theorem writeBlock_ok {written : Written} {entries : List BlockEntry} {root : Root}
    {file : Bytes} (produced : written.Produced F crc32 keys values spec)
    (contents : root.blocks = some file)
    (aligned : file.length = entries.length * spec.recordSize) :
    writeBlock F crc32 noFaults keys values spec entries written.index root =
      .ok (entries ++ [written.entry crc32 spec entries.length])
        { root with blocks := some (file ++ written.record) } := by
  have entry : written.entry crc32 spec entries.length =
      ⟨written.index.layer, written.index.block, file.length, written.record.length,
        written.block.validTokens, ((crc32 (payload written.block)).toNat : Int)⟩ := by
    rw [Written.entry, aligned, produced.length]
  have appended : writeRecord noFaults entries.length written.record root =
      .ok ⟨⟩ { root with blocks := some (file ++ written.record) } := by
    rw [writeRecord, RootM.run_bind (RootM.run_get root)]
    simp [noFaults, contents]
  rw [entry, writeBlock, produced.packed, RootM.run_bind (RootM.run_lift_ok _ root),
    produced.encoded, RootM.run_bind (RootM.run_lift_ok _ root)]
  dsimp only
  rw [RootM.run_bind (RootM.run_get root), RootM.run_bind appended, RootM.run_pure, contents]
  rfl

/-- The loop writes the records one behind the other. -/
theorem foldlM_writeBlock {writtens : List Written} {entries : List BlockEntry}
    {root : Root} {file : Bytes}
    (produced : ∀ written ∈ writtens, written.Produced F crc32 keys values spec)
    (contents : root.blocks = some file)
    (aligned : file.length = entries.length * spec.recordSize) :
    (writtens.map Written.index).foldlM
        (writeBlock F crc32 noFaults keys values spec) entries root =
      .ok (entries ++ (writtens.zipIdx entries.length).map fun (written, position) =>
          written.entry crc32 spec position)
        { root with blocks := some (file ++ writtens.flatMap Written.record) } := by
  induction writtens generalizing entries root file with
  | nil =>
      simp [← contents]
  | cons written writtens induction =>
      have head := produced written (by simp)
      have step := writeBlock_ok head contents aligned
      have longer : (file ++ written.record).length =
          (entries ++ [written.entry crc32 spec entries.length]).length *
            spec.recordSize := by
        rw [List.length_append, List.length_append, aligned, head.length]
        simp only [List.length_singleton]
        ring
      have rest := @induction (entries ++ [written.entry crc32 spec entries.length])
        { root with blocks := some (file ++ written.record) } (file ++ written.record)
        (fun other member => produced other (by simp [member])) rfl longer
      rw [List.map_cons, List.foldlM_cons]
      rw [RootM.run_bind step, rest]
      simp

theorem exists_list {γ δ : Type} {image : δ → γ} {holds : δ → Prop} {items : List γ}
    (each : ∀ item ∈ items, ∃ witness, image witness = item ∧ holds witness) :
    ∃ witnesses : List δ, witnesses.map image = items ∧
      ∀ witness ∈ witnesses, holds witness := by
  induction items with
  | nil => exact ⟨[], rfl, by simp⟩
  | cons item items induction =>
      obtain ⟨witness, head, good⟩ := each item (by simp)
      obtain ⟨witnesses, tail, rest⟩ := induction
        (fun other member => each other (by simp [member]))
      refine ⟨witness :: witnesses, by simp [head, tail], ?_⟩
      intro other member
      rcases List.mem_cons.mp member with rfl | member
      · exact good
      · exact rest other member

end Writer

section Create

variable (F : Type) [arith : QuantArith F] {α β : Type}
  [keyElement : TorchElement α F] [valueElement : TorchElement β F]

/-- Tensors and a specification that `create` stores completely. -/
structure StoreInput (keys : Tensor α) (values : Tensor β) (spec : CacheSpec)
    (tokens : Nat) : Prop where
  storable : spec.Storable
  keyFloating : keyElement.isFloatingPoint = true
  valueFloating : valueElement.isFloatingPoint = true
  keyShape : keys.shape =
    [spec.layers.toNat, tokens, spec.kvHeads.toNat, spec.headDim.toNat]
  valueShape : values.shape =
    [spec.layers.toNat, tokens, spec.kvHeads.toNat, spec.headDim.toNat]
  /-- The last block number and the last layer fit the header. -/
  blocksFit : blockCount tokens spec.blockTokens.toNat ≤ 2 ^ 32
  layersFit : spec.layers ≤ 2 ^ 32

variable {F} {crc32 : Bytes → UInt32} {keys : Tensor α} {values : Tensor β}
  {spec : CacheSpec} {tokens : Nat}

omit arith in
theorem StoreInput.arguments (input : StoreInput F keys values spec tokens) :
    checkArguments keys values spec = .ok () := by
  have valid := input.storable.valid
  obtain ⟨⟨layers, heads, dim, _⟩, _⟩ := CacheSpec.validate_eq_ok.mp valid
  have layersNat := Int.toNat_of_nonneg (Int.le_of_lt layers)
  have headsNat := Int.toNat_of_nonneg (Int.le_of_lt heads)
  have dimNat := Int.toNat_of_nonneg (Int.le_of_lt dim)
  unfold checkArguments
  rw [valid, ok_bind, if_neg (by simp [input.keyShape, input.valueShape]),
    if_neg (by simp [input.keyShape, layersNat, headsNat, dimNat])]

variable (F crc32 keys values spec tokens) in
/-- A written block stores the tokens of its index and reads back from its
record. -/
structure Written.Faithful (written : Written) : Prop where
  produced : written.Produced F crc32 keys values spec
  stores : Stores F spec spec.blockTokens.toNat spec.kvHeads.toNat spec.headDim.toNat
    spec.groupSize.toNat tokens keys values written.index written.block
  decodes : ∀ more, decodeRecord crc32 (written.record ++ more) spec true =
    .ok written.block
  behind : ∃ zeros, written.record.drop Format.headerSize =
    payload written.block ++ zeros

variable (crc32) in
/-- Every block of the loops is packed and encoded. -/
theorem StoreInput.produced (input : StoreInput F keys values spec tokens)
    (index : BlockIndex)
    (member : index ∈ blockIndices spec.layers.toNat tokens spec.blockTokens.toNat) :
    ∃ written : Written, written.index = index ∧
      written.Faithful F crc32 keys values spec tokens := by
  have dims := input.storable.dims
  obtain ⟨layer, start, inside⟩ := mem_blockIndices dims.tokens_pos member
  obtain ⟨block, packed, stores⟩ :=
    packBlock_spec (F := F) dims input.keyFloating input.valueFloating input.keyShape
      input.valueShape layer start inside
  have blockInside : index.block < blockCount tokens spec.blockTokens.toNat := by
    rw [start] at inside
    exact (lt_blockCount dims.tokens_pos).mpr inside
  have blockFits : block.HeaderFits :=
    { layer := by
        have fits := input.layersFit
        rw [stores.layer]
        unfold FitsU32
        omega
      block := by
        have fits := input.blocksFit
        rw [stores.number]
        unfold FitsU32
        omega
      validTokens := by
        have fits := input.storable.fits.blockTokens
        rw [stores.valid]
        unfold FitsU32 at fits ⊢
        omega }
  obtain ⟨record, encoded, length, payloadBehind, decoded⟩ :=
    encodeRecord_spec crc32 input.storable.valid
      (Int.le_of_lt input.storable.group_pos) stores.shaped input.storable.fits blockFits
  exact ⟨⟨index, block, record⟩, rfl, ⟨packed, encoded, length⟩, stores, decoded,
    payloadBehind⟩

variable (F crc32 keys values spec tokens) in
/-- A created store over the blocks that were written, in the order of the
loops. -/
structure Created (writtens : List Written) (store : KVCacheStore) (root : Root) :
    Prop where
  indices : writtens.map Written.index =
    blockIndices spec.layers.toNat tokens spec.blockTokens.toNat
  faithful : ∀ written ∈ writtens, written.Faithful F crc32 keys values spec tokens
  manifest : store.manifest = ⟨spec, writtens.zipIdx.map fun (written, position) =>
    written.entry crc32 spec position, 1⟩
  saved : root.manifest = some (.saved store.manifest)
  file : root.blocks = some (writtens.flatMap Written.record)

variable (crc32) in
/-- `create` succeeds on every such input when no call to the file system fails
and a storage backend is available. -/
theorem create_ok (input : StoreInput F keys values spec tokens)
    {platform : Platform} {requested : Option String} {kind : StorageKind}
    (resolves : resolveStorageBackend platform true requested = .ok kind) (root : Root) :
    ∃ writtens store root',
      KVCacheStore.create F crc32 noFaults platform keys values spec requested root =
        .ok store root' ∧
      store.kind = kind ∧ Created F crc32 keys values spec tokens writtens store root' := by
  obtain ⟨writtens, indices, faithful⟩ := exists_list
    (fun index member => input.produced crc32 index member)
  have count : tokenCount keys = tokens := by
    rw [tokenCount, input.keyShape]
    rfl
  have loop := foldlM_writeBlock
    (fun written member => (faithful written member).produced)
    (rfl : ({ root with blocks := some [] } : Root).blocks = some [])
    (by simp : ([] : Bytes).length = ([] : List BlockEntry).length * spec.recordSize)
  rw [indices] at loop
  simp only [List.nil_append, List.length_nil] at loop
  refine ⟨writtens, ⟨⟨spec, writtens.zipIdx.map fun (written, position) =>
      written.entry crc32 spec position, 1⟩, kind⟩,
    ⟨some (.saved ⟨spec, writtens.zipIdx.map fun (written, position) =>
      written.entry crc32 spec position, 1⟩), some (writtens.flatMap Written.record)⟩,
    ?_, rfl, indices, faithful, rfl, rfl, rfl⟩
  rw [KVCacheStore.create, input.arguments, count, attempt_noFaults, attempt_noFaults,
    closeData_noFaults, RootM.run_bind (RootM.run_lift_ok _ _),
    RootM.run_bind (RootM.run_pure _ _), RootM.run_bind (RootM.run_pure _ _),
    RootM.run_bind (RootM.run_modify _ _), RootM.run_bind loop, RootM.run_bind (save_noFaults _ _),
    RootM.run_bind (RootM.run_get _)]
  simp [KVCacheStore.construct, resolves]

variable (F) in
/-- The valid rows of the given blocks are the codes and scales of the quantized
layer of a tensor. -/
def ConcatenatesTo {γ : Type} [element : TorchElement γ F] (spec : CacheSpec)
    (tensor : Tensor γ) (layer : Nat) (parts : List (QuantizedTensor × Int)) : Prop :=
  ∃ whole q, tensor.select0 layer = .ok whole ∧
    quantizeTensor F whole spec.bits spec.groupSize = .ok q ∧
    Tensor.cat (parts.map fun (part, valid) => part.packed.slice0 0 valid) =
      .ok q.packed ∧
    Tensor.cat (parts.map fun (part, valid) => part.scales.slice0 0 valid) = .ok q.scales

namespace Created

variable {writtens : List Written} {store : KVCacheStore} {root : Root}

theorem entries_eq (created : Created F crc32 keys values spec tokens writtens store root) :
    store.manifest.entries = writtens.zipIdx.map fun (written, position) =>
      written.entry crc32 spec position := by
  rw [created.manifest]

theorem entries_filter
    (created : Created F crc32 keys values spec tokens writtens store root) (layer : Nat)
    {γ : Type} {image : BlockEntry → γ} {source : Written → γ}
    (agrees : ∀ written ∈ writtens, ∀ position,
      image (written.entry crc32 spec position) = source written) :
    (store.manifest.entries.filter fun item => item.layer == (layer : Int)).map image =
      (writtens.filter fun written => written.index.layer = layer).map source := by
  rw [created.entries_eq]
  clear created
  generalize 0 = first
  induction writtens generalizing first with
  | nil => rfl
  | cons written writtens induction =>
      have tail := induction
        (fun other member => agrees other (by simp [member])) (first + 1)
      have head := agrees written (by simp) first
      simp only [List.zipIdx_cons, List.map_cons]
      by_cases here : written.index.layer = layer
      · rw [List.filter_cons_of_pos (by simp [Written.entry, here]),
          List.filter_cons_of_pos (by simp [here])]
        simp [head, tail]
      · rw [List.filter_cons_of_neg (by simp [Written.entry, here]),
          List.filter_cons_of_neg (by simp [here])]
        exact tail

theorem written_filter
    (created : Created F crc32 keys values spec tokens writtens store root) {layer : Nat}
    (inside : layer < spec.layers.toNat) :
    (writtens.filter fun written => written.index.layer = layer).map Written.index =
      (List.range (blockCount tokens spec.blockTokens.toNat)).map fun block =>
        ⟨layer, block, block * spec.blockTokens.toNat⟩ := by
  rw [← blockIndices_filter inside, ← created.indices, List.filter_map]
  rfl

theorem blocksForLayer_eq
    (created : Created F crc32 keys values spec tokens writtens store root) {layer : Nat}
    (inside : layer < spec.layers.toNat) :
    store.blocksForLayer layer =
      (List.range (blockCount tokens spec.blockTokens.toNat)).map Int.ofNat := by
  have numbers : (store.manifest.entries.filter fun item =>
      item.layer == (layer : Int)).map (fun item => item.block) =
        (List.range (blockCount tokens spec.blockTokens.toNat)).map Int.ofNat := by
    have agrees : ∀ written ∈ writtens, ∀ position,
        (written.entry crc32 spec position).block = (written.index.block : Int) :=
      fun _ _ _ => rfl
    rw [created.entries_filter layer agrees]
    have blocks := congrArg (List.map fun index => (index.block : Int))
      (created.written_filter inside)
    rw [List.map_map, List.map_map] at blocks
    exact blocks
  rw [KVCacheStore.blocksForLayer, numbers]
  apply List.mergeSort_of_pairwise
  rw [List.pairwise_map]
  refine List.Pairwise.imp ?_ (List.pairwise_lt_range)
  intro left right before
  simp
  omega

theorem sum_valid (blockTokens tokens count : Nat) :
    ((List.range count).map fun block =>
        ((min blockTokens (tokens - block * blockTokens) : Nat) : Int)).sum =
      ((min (count * blockTokens) tokens : Nat) : Int) := by
  induction count with
  | zero => simp
  | succ count induction =>
      rw [List.range_succ, List.map_append, List.sum_append, induction, Nat.succ_mul]
      simp only [List.map_cons, List.map_nil, List.sum_singleton]
      omega

theorem sum_validTokens (input : StoreInput F keys values spec tokens)
    (created : Created F crc32 keys values spec tokens writtens store root) {layer : Nat}
    (inside : layer < spec.layers.toNat) :
    ((store.manifest.entries.filter fun item => item.layer == (layer : Int)).map
      fun item => item.validTokens).sum = (tokens : Int) := by
  have positive := input.storable.dims.tokens_pos
  have agrees : ∀ written ∈ writtens, ∀ position,
      (written.entry crc32 spec position).validTokens =
        ((min spec.blockTokens.toNat
          (tokens - written.index.block * spec.blockTokens.toNat) : Nat) : Int) :=
    fun written member _ => (created.faithful written member).stores.valid
  rw [created.entries_filter layer agrees]
  have blocks := congrArg (List.map fun index =>
      ((min spec.blockTokens.toNat (tokens - index.block * spec.blockTokens.toNat) : Nat) : Int))
    (created.written_filter inside)
  rw [List.map_map, List.map_map] at blocks
  have covers : tokens ≤ blockCount tokens spec.blockTokens.toNat * spec.blockTokens.toNat := by
    by_contra short
    exact absurd ((lt_blockCount positive).mpr (Nat.lt_of_not_le short))
      (Nat.lt_irrefl _)
  have total := sum_valid spec.blockTokens.toNat tokens
    (blockCount tokens spec.blockTokens.toNat)
  rw [Nat.min_eq_right covers] at total
  exact (congrArg List.sum blocks).trans total

theorem getElem?_entries
    (created : Created F crc32 keys values spec tokens writtens store root)
    (position : Nat) :
    store.manifest.entries[position]? =
      writtens[position]?.map fun written => written.entry crc32 spec position := by
  rw [created.entries_eq, List.getElem?_map, List.getElem?_zipIdx, Option.map_map]
  simp only [Nat.zero_add]
  rfl

theorem record_length
    (created : Created F crc32 keys values spec tokens writtens store root)
    {written : Written} (member : written ∈ writtens) :
    written.record.length = spec.recordSize :=
  (created.faithful written member).produced.length

theorem recordAt_entry
    (created : Created F crc32 keys values spec tokens writtens store root)
    {written : Written} {position : Nat} (place : writtens[position]? = some written) :
    recordAt (writtens.flatMap Written.record) (written.entry crc32 spec position) =
      written.record := by
  have cut := rows_flatMap (fun (written : Written) (member : written ∈ writtens) =>
    created.record_length member)
  have inside : position < writtens.length := by
    by_contra outside
    rw [List.getElem?_eq_none (Nat.le_of_not_lt outside)] at place
    cases place
  have row := @rows_getElem? _ _ spec.recordSize _ (writtens.flatMap Written.record) inside
  rw [cut, List.getElem?_map, place] at row
  simp only [recordAt, Written.entry, Int.toNat_natCast]
  exact (Option.some.inj row).symm

theorem mem_entries
    (created : Created F crc32 keys values spec tokens writtens store root)
    {entry : BlockEntry} (member : entry ∈ store.manifest.entries) :
    ∃ position written, writtens[position]? = some written ∧ written ∈ writtens ∧
      entry = written.entry crc32 spec position := by
  obtain ⟨position, place⟩ := List.mem_iff_getElem?.mp member
  rw [created.getElem?_entries, Option.map_eq_some_iff] at place
  obtain ⟨written, here, entryEq⟩ := place
  exact ⟨position, written, here, List.mem_of_getElem? here, entryEq.symm⟩

/-- No two entries have the same layer and block. -/
theorem entry_unique (input : StoreInput F keys values spec tokens)
    (created : Created F crc32 keys values spec tokens writtens store root)
    {left right : BlockEntry} (leftMember : left ∈ store.manifest.entries)
    (rightMember : right ∈ store.manifest.entries) (layers : left.layer = right.layer)
    (blocks : left.block = right.block) : left = right := by
  obtain ⟨i, first, iPlace, firstMember, rfl⟩ := created.mem_entries leftMember
  obtain ⟨j, second, jPlace, secondMember, rfl⟩ := created.mem_entries rightMember
  have positive := input.storable.dims.tokens_pos
  have known : ∀ written ∈ writtens, written.index ∈
      blockIndices spec.layers.toNat tokens spec.blockTokens.toNat := by
    intro written member
    rw [← created.indices]
    exact List.mem_map_of_mem member
  have layerEq : first.index.layer = second.index.layer := Int.natCast_inj.mp layers
  have blockEq : first.index.block = second.index.block := Int.natCast_inj.mp blocks
  have startEq : first.index.start = second.index.start := by
    rw [(mem_blockIndices positive (known first firstMember)).2.1,
      (mem_blockIndices positive (known second secondMember)).2.1, blockEq]
  have indexEq : first.index = second.index := by
    cases firstIndex : first.index
    cases secondIndex : second.index
    simp_all
  have nodup : (writtens.map Written.index).Nodup := by
    rw [created.indices]
    exact blockIndices_nodup
  have positions : i = j := by
    refine (List.getElem?_inj ?_ nodup).mp ?_
    · rw [List.length_map]
      exact (List.getElem?_eq_some_iff.mp iPlace).1
    · rw [List.getElem?_map, List.getElem?_map, iPlace, jPlace]
      simp [indexEq]
  subst positions
  rw [iPlace] at jPlace
  cases jPlace
  rfl

theorem entry_eq_ok (input : StoreInput F keys values spec tokens)
    (created : Created F crc32 keys values spec tokens writtens store root)
    {entry : BlockEntry} (member : entry ∈ store.manifest.entries) :
    store.entry entry.layer entry.block = .ok entry := by
  unfold KVCacheStore.entry
  cases found : store.manifest.entries.reverse.find? fun item =>
      item.layer == entry.layer && item.block == entry.block with
  | none =>
      have missing := List.find?_eq_none.mp found entry (List.mem_reverse.mpr member)
      simp at missing
  | some other =>
      have otherMember := List.mem_reverse.mp (List.mem_of_find?_eq_some found)
      have same := List.find?_some found
      simp only [Bool.and_eq_true, beq_iff_eq] at same
      rw [created.entry_unique input otherMember member same.1 same.2]

/-- Every entry can be read by every backend that moves records as a whole. -/
theorem readable (input : StoreInput F keys values spec tokens)
    (created : Created F crc32 keys values spec tokens writtens store root)
    {kind : StorageKind} (moves : kind.MovesRecords spec) {written : Written} {position : Nat}
    (place : writtens[position]? = some written) :
    kind.Readable (writtens.flatMap Written.record)
      (written.entry crc32 spec position) := by
  have sized := CacheSpec.sized_of_validate input.storable.valid
    (Int.le_of_lt input.storable.group_pos)
  have aligned : (4096 : Int) ∣ (spec.recordSize : Int) := by
    exact_mod_cast sized.recordSize.2.2
  refine ⟨Int.natCast_nonneg _, ?_, ?_, ?_⟩
  · rw [created.recordAt_entry place, created.record_length (List.mem_of_getElem? place)]
    rfl
  · intro _
    refine ⟨?_, aligned⟩
    simp only [Written.entry, Nat.cast_mul]
    exact Dvd.dvd.mul_left aligned _
  · intro other
    exact sized.recordSize.1.trans_le (moves other)

theorem spec_eq (created : Created F crc32 keys values spec tokens writtens store root) :
    store.spec = spec := by
  rw [KVCacheStore.spec, created.manifest]

theorem stored_entry (input : StoreInput F keys values spec tokens)
    (created : Created F crc32 keys values spec tokens writtens store root) {written : Written}
    {position : Nat} (place : writtens[position]? = some written) :
    store.stored crc32 (writtens.flatMap Written.record) written.index.layer
      written.index.block = .ok written.block := by
  have member : written.entry crc32 spec position ∈ store.manifest.entries := by
    refine @List.mem_of_getElem? _ _ position _ ?_
    rw [created.getElem?_entries, place]
    rfl
  have found : store.entry written.index.layer written.index.block =
      .ok (written.entry crc32 spec position) := created.entry_eq_ok input member
  have decodes := (created.faithful written (List.mem_of_getElem? place)).decodes []
  rw [List.append_nil] at decodes
  rw [KVCacheStore.stored, found, ok_bind, created.recordAt_entry place, created.spec_eq]
  exact decodes

theorem read_eq_stored (input : StoreInput F keys values spec tokens)
    (created : Created F crc32 keys values spec tokens writtens store root)
    (moves : store.kind.MovesRecords spec) (memory : Memory) (position : Nat)
    (layer block : Int) :
    store.read crc32 memory root position layer block true =
      store.stored crc32 (writtens.flatMap Written.record) layer block := by
  rw [KVCacheStore.read, KVCacheStore.stored]
  cases listed : store.entry layer block with
  | error raised => rfl
  | ok entry =>
      have member : entry ∈ store.manifest.entries := entry_mem listed
      obtain ⟨number, written, place, _, rfl⟩ := created.mem_entries member
      have readable := created.readable input moves place
      obtain ⟨buffer, fetched, bytes⟩ :=
        (@StorageKind.fetch_bytes store.kind memory _ _ position _).mpr
          ⟨by rw [StorageKind.place_of_nonneg readable.offset]; exact readable, rfl⟩
      rw [StorageKind.place_of_nonneg readable.offset] at bytes
      rw [ok_bind, ok_bind, KVCacheStore.backend, created.file]
      simp only [ok_bind, fetched, bytes]

theorem decodeDeviceRecord_record (input : StoreInput F keys values spec tokens)
    (created : Created F crc32 keys values spec tokens writtens store root) {written : Written}
    (member : written ∈ writtens) (position : Nat) (rest : Bytes) :
    decodeDeviceRecord spec (written.record ++ rest) (written.entry crc32 spec position) =
      .ok written.block := by
  have sized := CacheSpec.sized_of_validate input.storable.valid
    (Int.le_of_lt input.storable.group_pos)
  have faithful := created.faithful written member
  have stores := faithful.stores
  obtain ⟨zeros, behind⟩ := faithful.behind
  refine (decodePayload_eq_ok sized).mpr
    ⟨stores.shaped, stores.layer, stores.number, rfl, ?_⟩
  have header : Format.headerSize ≤ written.record.length := by
    rw [faithful.produced.length]
    have := sized.recordSize.2.1
    omega
  rw [List.drop_append_of_le_length header, behind, List.append_assoc,
    List.take_left' stores.shaped.payloadLength]

theorem decodeDeviceRecord_entry (input : StoreInput F keys values spec tokens)
    (created : Created F crc32 keys values spec tokens writtens store root)
    (moves : store.kind.MovesRecords spec) (memory : Memory) {written : Written} {number : Nat}
    (place : writtens[number]? = some written) (position : Nat) {slot : Buffer}
    (serves : slot.Serves store.kind spec.recordBytes) :
    ∃ filled,
      (store.kind.backend memory (writtens.flatMap Written.record)).readInto position
        (written.entry crc32 spec number) slot = (filled, .ok ()) ∧
      decodeDeviceRecord spec filled.bytes (written.entry crc32 spec number) =
        .ok written.block := by
  have sized := CacheSpec.sized_of_validate input.storable.valid
    (Int.le_of_lt input.storable.group_pos)
  have fits : slot.Serves store.kind (written.entry crc32 spec number).length := by
    have length : (written.entry crc32 spec number).length = spec.recordBytes :=
      sized.recordSize.1
    rw [length]
    exact serves
  have readable := created.readable input moves place
  have reads := (@StorageKind.readInto_eq_ok store.kind memory _ position _ _ _ fits
    (Int.natCast_nonneg _)).mpr
      ⟨by rw [StorageKind.place_of_nonneg readable.offset]; exact readable, rfl⟩
  rw [StorageKind.place_of_nonneg readable.offset, created.recordAt_entry place] at reads
  exact ⟨_, reads,
    created.decodeDeviceRecord_record input (List.mem_of_getElem? place) number _⟩

/-- The blocks of a layer as the store holds them. -/
theorem mapM_stored (input : StoreInput F keys values spec tokens)
    (created : Created F crc32 keys values spec tokens writtens store root)
    {layer : Nat} (inside : layer < spec.layers.toNat) :
    (store.blocksForLayer layer).mapM
        (fun block => store.stored crc32 (writtens.flatMap Written.record) layer block) =
      .ok ((writtens.filter fun written => written.index.layer = layer).map
        Written.block) := by
  have numbers : store.blocksForLayer layer =
      (writtens.filter fun written => written.index.layer = layer).map
        fun written => (written.index.block : Int) := by
    have blocks := congrArg (List.map fun index => (index.block : Int))
      (created.written_filter inside)
    rw [List.map_map, List.map_map] at blocks
    rw [created.blocksForLayer_eq inside]
    exact blocks.symm
  have reads : ∀ written ∈ writtens.filter fun written => written.index.layer = layer,
      store.stored crc32 (writtens.flatMap Written.record) layer written.index.block =
        .ok written.block := by
    intro written member
    obtain ⟨known, here⟩ := List.mem_filter.mp member
    obtain ⟨position, place⟩ := List.mem_iff_getElem?.mp known
    have read := created.stored_entry input place
    rw [of_decide_eq_true here] at read
    exact read
  rw [numbers]
  generalize writtens.filter (fun written => written.index.layer = layer) = blocks at reads
  induction blocks with
  | nil => rfl
  | cons written blocks induction =>
      rw [List.map_cons, List.mapM_cons, reads written (by simp), ok_bind,
        induction (fun other member => reads other (by simp [member]))]
      rfl

/-- Windows on the blocks of a layer that show an additive image of their tokens
concatenate to the image of the layer. -/
theorem cat_windows {γ δ : Type} (input : StoreInput F keys values spec tokens)
    (created : Created F crc32 keys values spec tokens writtens store root)
    {layer : Nat} (inside : layer < spec.layers.toNat) (occupied : 0 < tokens)
    {items : List γ}
    (exact : items.length = tokens * (spec.kvHeads.toNat * spec.headDim.toNat))
    {f : List γ → List δ} (additive : Additive spec.groupSize.toNat f)
    {window : Written → Tensor δ} {result : Tensor δ} {size : Nat} {rest : List Nat}
    (positive : 0 < rest.prod) (shape : result.shape = size :: rest)
    (data : result.data = f items)
    (shows : ∀ written ∈ writtens, written.index.layer = layer →
      (∃ count, (window written).shape = count :: rest) ∧
      (window written).data = f (tokenPiece spec.blockTokens.toNat tokens
        (spec.kvHeads.toNat * spec.headDim.toNat) items written.index.block)) :
    Tensor.cat ((writtens.filter fun written => written.index.layer = layer).map window) =
      .ok result := by
  have dims := input.storable.dims
  have divides : spec.groupSize.toNat ∣ spec.kvHeads.toNat * spec.headDim.toNat :=
    Dvd.dvd.mul_left dims.accepts.group_dvd _
  have blocks := congrArg (List.flatMap fun index => f (tokenPiece spec.blockTokens.toNat
      tokens (spec.kvHeads.toNat * spec.headDim.toNat) items index.block))
    (created.written_filter inside)
  rw [List.flatMap_map, List.flatMap_map] at blocks
  have pieces := flatMap_tokenPieces additive divides exact dims.tokens_pos
  have counted : 0 < blockCount tokens spec.blockTokens.toNat :=
    (lt_blockCount dims.tokens_pos).mpr (by omega)
  refine Tensor.cat_eq_of_data ?_ positive ?_ shape ?_
  · intro empty
    have lengths := congrArg List.length (created.written_filter inside)
    rw [List.length_map, List.length_map, List.length_range,
      List.map_eq_nil_iff.mp empty, List.length_nil] at lengths
    omega
  · intro tensor member
    obtain ⟨written, known, rfl⟩ := List.mem_map.mp member
    obtain ⟨known, here⟩ := List.mem_filter.mp known
    exact (shows written known (of_decide_eq_true here)).1
  · rw [data, ← pieces, List.flatMap_map]
    refine blocks.symm.trans (List.flatMap_congr ?_)
    intro written member
    obtain ⟨known, here⟩ := List.mem_filter.mp member
    exact (shows written known (of_decide_eq_true here)).2.symm

/-- The valid rows of the blocks of a layer, one behind the other, are the codes
and scales of the quantized layer. -/
theorem cat_rows {γ : Type} [element : TorchElement γ F]
    (input : StoreInput F keys values spec tokens)
    (created : Created F crc32 keys values spec tokens writtens store root)
    {tensor : Tensor γ} {part : PackedKVBlock → QuantizedTensor}
    (floating : element.isFloatingPoint = true)
    (shape : tensor.shape =
      [spec.layers.toNat, tokens, spec.kvHeads.toNat, spec.headDim.toNat])
    (stored : ∀ written ∈ writtens, RowsOf F spec spec.kvHeads.toNat spec.headDim.toNat
      spec.groupSize.toNat
      (min spec.blockTokens.toNat (tokens - written.index.block * spec.blockTokens.toNat))
      (part written.block)
      (tokenPiece spec.blockTokens.toNat tokens (spec.kvHeads.toNat * spec.headDim.toNat)
        (layerItems tensor written.index.layer) written.index.block))
    {layer : Nat} (inside : layer < spec.layers.toNat) (occupied : 0 < tokens) :
    ConcatenatesTo F spec tensor layer
      (((writtens.filter fun written => written.index.layer = layer).map
        Written.block).map fun block => (part block, block.validTokens)) := by
  have dims := input.storable.dims
  have accepts := dims.accepts
  have headsPos := dims.heads_pos
  obtain ⟨whole, selected, wholeShape, wholeData⟩ := select0_layer shape inside
  have nonempty : [tokens, spec.kvHeads.toNat].prod ≠ 0 := by
    simp only [List.prod_cons, List.prod_nil, Nat.mul_one, ne_eq, Nat.mul_eq_zero]
    omega
  obtain ⟨q, quantized, packedShape, packedData, scalesShape, scalesData, _⟩ :=
    Quant.quantizeTensor_flat F
      (wholeShape : whole.shape = [tokens, spec.kvHeads.toNat] ++ [spec.headDim.toNat])
      accepts floating nonempty
  rw [wholeData] at packedData scalesData
  have exact : (layerItems tensor layer).length =
      tokens * (spec.kvHeads.toNat * spec.headDim.toNat) := by
    rw [layerItems_length shape inside]
    simp
  have packedPos : 0 < [spec.kvHeads.toNat,
      spec.headDim.toNat / Quant.perByte spec.bits].prod := by
    have divided := Nat.div_pos (Nat.le_of_dvd dims.dim_pos accepts.perByte_dvd)
      accepts.perByte_pos
    simp only [List.prod_cons, List.prod_nil, Nat.mul_one]
    exact Nat.mul_pos headsPos divided
  have scalesPos : 0 < [spec.kvHeads.toNat,
      spec.headDim.toNat / spec.groupSize.toNat].prod := by
    have divided := Nat.div_pos (Nat.le_of_dvd dims.dim_pos accepts.group_dvd)
      dims.group_pos
    simp only [List.prod_cons, List.prod_nil, Nat.mul_one]
    exact Nat.mul_pos headsPos divided
  refine ⟨whole, q, selected, quantized, ?_, ?_⟩
  · rw [List.map_map, List.map_map]
    refine created.cat_windows input inside occupied exact
      (Quant.packedOf_additive F spec.bits spec.groupSize.toNat) packedPos packedShape
      packedData ?_
    intro written member here
    have rows := stored written member
    have valid := (created.faithful written member).stores.valid
    rw [here] at rows
    simp only [Function.comp, valid]
    exact ⟨⟨_, rows.packedShape⟩, rows.packedRows⟩
  · rw [List.map_map, List.map_map]
    refine created.cat_windows input inside occupied exact
      (Quant.scalesOf_additive F spec.bits spec.groupSize.toNat) scalesPos scalesShape
      scalesData ?_
    intro written member here
    have rows := stored written member
    have valid := (created.faithful written member).stores.valid
    rw [here] at rows
    simp only [Function.comp, valid]
    exact ⟨⟨_, rows.scalesShape⟩, rows.scalesRows⟩

end Created

/-- The ranges of the entries stand one behind the other, at aligned places, from
the start of the file to its end. -/
structure EntriesTile (entries : List BlockEntry) (file : Bytes) : Prop where
  consecutive : ∀ position entry, entries[position]? = some entry →
    entry.offset = ((entries.take position).map BlockEntry.length).sum
  aligned : ∀ entry ∈ entries,
    0 < entry.length ∧ (4096 : Int) ∣ entry.offset ∧ (4096 : Int) ∣ entry.length
  disjoint : entries.Pairwise fun left right => left.offset + left.length ≤ right.offset
  covers : (entries.map BlockEntry.length).sum = file.length

theorem Created.entriesTile (input : StoreInput F keys values spec tokens)
    {writtens : List Written} {store : KVCacheStore} {root : Root}
    (created : Created F crc32 keys values spec tokens writtens store root) :
    EntriesTile store.manifest.entries (writtens.flatMap Written.record) := by
  have sized := CacheSpec.sized_of_validate input.storable.valid
    (Int.le_of_lt input.storable.group_pos)
  obtain ⟨_, lower, divides⟩ := sized.recordSize
  have positive : 0 < spec.recordSize := by
    have header : Format.headerSize = 52 := rfl
    omega
  have aligned : (4096 : Int) ∣ (spec.recordSize : Int) := by exact_mod_cast divides
  have lengths : store.manifest.entries.map BlockEntry.length =
      List.replicate writtens.length (spec.recordSize : Int) := by
    rw [created.entries_eq, List.map_map, List.eq_replicate_iff]
    refine ⟨by simp, ?_⟩
    intro length member
    obtain ⟨_, _, rfl⟩ := List.mem_map.mp member
    rfl
  have placed : ∀ position entry, store.manifest.entries[position]? = some entry →
      entry.offset = ((position * spec.recordSize : Nat) : Int) ∧
        entry.length = (spec.recordSize : Int) ∧ position < writtens.length := by
    intro position entry place
    rw [created.getElem?_entries, Option.map_eq_some_iff] at place
    obtain ⟨written, here, rfl⟩ := place
    exact ⟨rfl, rfl, (List.getElem?_eq_some_iff.mp here).1⟩
  refine ⟨?_, ?_, ?_, ?_⟩
  · intro position entry place
    obtain ⟨offset, _, inside⟩ := placed position entry place
    rw [offset, List.map_take, lengths, List.take_replicate,
      Nat.min_eq_left (Nat.le_of_lt inside), List.sum_replicate]
    simp
  · intro entry member
    obtain ⟨position, place⟩ := List.mem_iff_getElem?.mp member
    obtain ⟨offset, length, _⟩ := placed position entry place
    rw [offset, length]
    refine ⟨by omega, ?_, aligned⟩
    rw [Nat.cast_mul]
    exact Dvd.dvd.mul_left aligned _
  · rw [List.pairwise_iff_getElem]
    intro i j iInside jInside before
    obtain ⟨iOffset, iLength, _⟩ := placed i _ (List.getElem?_eq_getElem iInside)
    obtain ⟨jOffset, _, _⟩ := placed j _ (List.getElem?_eq_getElem jInside)
    have next : (i + 1) * spec.recordSize ≤ j * spec.recordSize :=
      Nat.mul_le_mul_right _ before
    rw [Nat.succ_mul] at next
    rw [iOffset, iLength, jOffset]
    exact_mod_cast next
  · rw [lengths, List.sum_replicate,
      length_flatMap_of_wide fun written member => created.record_length member]
    simp

variable (F crc32 keys values spec tokens) in
/-- What a created store holds. -/
structure RoundTrips (store : KVCacheStore) (root : Root) : Prop where
  blocks : ∀ layer < spec.layers.toNat, store.blocksForLayer layer =
    (List.range (blockCount tokens spec.blockTokens.toNat)).map Int.ofNat
  tiles : ∃ file, root.blocks = some file ∧ EntriesTile store.manifest.entries file
  total : ∀ layer < spec.layers.toNat,
    ((store.manifest.entries.filter fun item => item.layer == (layer : Int)).map
      fun item => item.validTokens).sum = (tokens : Int)
  rows : ∃ file, root.blocks = some file ∧ ∀ layer < spec.layers.toNat, ∃ blocks,
    (store.blocksForLayer layer).mapM
        (fun block => store.stored crc32 file layer block) = .ok blocks ∧
      (0 < tokens →
        ConcatenatesTo F spec keys layer
          (blocks.map fun block => (block.key, block.validTokens)) ∧
        ConcatenatesTo F spec values layer
          (blocks.map fun block => (block.value, block.validTokens))) ∧
      (tokens = 0 → blocks = [] ∧ ∃ whole raised, keys.select0 layer = .ok whole ∧
        quantizeTensor F whole spec.bits spec.groupSize = .error raised)
  reads : store.kind.MovesRecords spec → ∃ file, root.blocks = some file ∧
    ∀ memory position layer block, store.read crc32 memory root position layer block true =
      store.stored crc32 file layer block
  paths : ∃ file, root.blocks = some file ∧ ∀ entry ∈ store.manifest.entries, ∃ block,
    store.stored crc32 file entry.layer entry.block = .ok block ∧
      decodeDeviceRecord spec (recordAt file entry) entry = .ok block ∧
      (store.kind.MovesRecords spec → ∀ memory position, ∀ slot : Buffer,
        slot.Serves store.kind spec.recordBytes → ∃ backend filled,
          store.backend memory root = .ok backend ∧
          backend.readInto position entry slot = (filled, .ok ()) ∧
          decodeDeviceRecord spec filled.bytes entry = .ok block)

/-- Creating a store from tensors of any length succeeds, and the store holds the
quantized tensors whatever the block size is. -/
theorem createdStore_roundTrips (input : StoreInput F keys values spec tokens)
    {platform : Platform} {requested : Option String} {kind : StorageKind}
    (resolves : resolveStorageBackend platform true requested = .ok kind) (root : Root) :
    ∃ store root',
      KVCacheStore.create F crc32 noFaults platform keys values spec requested root =
        .ok store root' ∧
      store.kind = kind ∧ RoundTrips F crc32 keys values spec tokens store root' := by
  obtain ⟨writtens, store, root', createdOk, resolved, created⟩ :=
    create_ok crc32 input resolves root
  refine ⟨store, root', createdOk, resolved, ?_⟩
  exact
    { blocks := fun layer inside => created.blocksForLayer_eq inside
      tiles := ⟨_, created.file, created.entriesTile input⟩
      total := fun layer inside => created.sum_validTokens input inside
      rows := by
        refine ⟨_, created.file, ?_⟩
        intro layer inside
        refine ⟨_, created.mapM_stored input inside, ?_, ?_⟩
        · intro occupied
          exact ⟨created.cat_rows input input.keyFloating input.keyShape
              (fun written member => (created.faithful written member).stores.keyRows)
              inside occupied,
            created.cat_rows input input.valueFloating input.valueShape
              (fun written member => (created.faithful written member).stores.valueRows)
              inside occupied⟩
        · intro none
          obtain ⟨whole, selected, wholeShape, _⟩ := select0_layer input.keyShape inside
          have rowShape : whole.shape =
              [tokens, spec.kvHeads.toNat] ++ [spec.headDim.toNat] := wholeShape
          obtain ⟨raised, refused⟩ := quantizeTensor_empty (F := F) spec.bits
            spec.groupSize rowShape (by simp [none])
          have empty : writtens.filter (fun written => written.index.layer = layer) = [] := by
            rw [← List.map_eq_nil_iff (f := Written.index), created.written_filter inside]
            have positive := input.storable.dims.tokens_pos
            have count : blockCount tokens spec.blockTokens.toNat = 0 := by
              rw [blockCount, none]
              exact Nat.div_eq_of_lt (by omega)
            simp [count]
          exact ⟨by rw [empty]; rfl, whole, raised, selected, refused⟩
      reads := fun moves =>
        ⟨_, created.file, fun memory position layer block =>
          created.read_eq_stored input moves memory position layer block⟩
      paths := by
        refine ⟨_, created.file, ?_⟩
        intro entry member
        obtain ⟨number, written, place, known, rfl⟩ := created.mem_entries member
        have whole := created.decodeDeviceRecord_record input known number []
        rw [List.append_nil] at whole
        refine ⟨_, created.stored_entry input place, ?_, ?_⟩
        · rw [created.recordAt_entry place]
          exact whole
        · intro moves memory position slot serves
          obtain ⟨filled, read, decoded⟩ :=
            created.decodeDeviceRecord_entry input moves memory place position serves
          exact ⟨_, filled, by rw [KVCacheStore.backend, created.file], read, decoded⟩ }

end Create

/-- Allocations that are zeroed and aligned. -/
def zeroMemory : Memory := ⟨.cpu, fun _ => 0, fun size => List.replicate size 0, by simp⟩

theorem tinySpec_storable : tinySpec.Storable :=
  ⟨by decide, by decide, by decide,
    ⟨by decide, by decide, by decide, by decide, by decide, by decide⟩⟩

/-- A block of one token with a given count of valid tokens. -/
def tinyBlock (valid : Int) : PackedKVBlock :=
  let part : QuantizedTensor :=
    ⟨⟨[1, 1, 1], [0], by decide⟩, ⟨[1, 1, 1], [0], by decide⟩, [1, 1, 2], 4, 2⟩
  ⟨0, 0, valid, part, part⟩

/-- The same block under another number. -/
def numberedBlock (number : Int) : PackedKVBlock := { tinyBlock 1 with block := number }

/-- A record of the tiny specification that holds a given block. -/
structure TinyRecord (crc32 : Bytes → UInt32) (block : PackedKVBlock) (record : Bytes) :
    Prop where
  length : record.length = 4096
  decodes : decodeRecord crc32 record tinySpec true = .ok block

theorem record_exists (crc32 : Bytes → UInt32) {block : PackedKVBlock}
    (shaped : block.Shaped tinySpec) (layer : FitsU32 block.layer) (number : FitsU32 block.block)
    (valid : FitsU32 block.validTokens) : ∃ record, TinyRecord crc32 block record := by
  obtain ⟨record, _, length, _, decodes⟩ := encodeRecord_spec crc32
    tinySpec_storable.valid (by decide) shaped tinySpec_storable.fits ⟨layer, number, valid⟩
  have whole := decodes []
  rw [List.append_nil] at whole
  exact ⟨record, length, whole⟩

theorem tinyRecord_exists (crc32 : Bytes → UInt32) {valid : Int} (fits : FitsU32 valid) :
    ∃ record, TinyRecord crc32 (tinyBlock valid) record :=
  record_exists crc32 ⟨rfl, rfl, rfl, rfl, rfl, rfl, rfl, rfl, rfl, rfl⟩ (by decide : FitsU32 0)
    (by decide : FitsU32 0) fits

theorem numberedRecord_exists (crc32 : Bytes → UInt32) {number : Int} (fits : FitsU32 number) :
    ∃ record, TinyRecord crc32 (numberedBlock number) record :=
  record_exists crc32 ⟨rfl, rfl, rfl, rfl, rfl, rfl, rfl, rfl, rfl, rfl⟩ (by decide : FitsU32 0)
    fits (by decide : FitsU32 1)

/-- Two tokens of one head of dimension two. -/
def tinyKeys : Tensor ℚ := ⟨[1, 2, 1, 2], [1, -1, 0, 1 / 2], by decide⟩

/-- A layer without tokens. -/
def emptyKeys : Tensor ℚ := ⟨[1, 0, 1, 2], [], by decide⟩

theorem createdStore_roundTrips_tiny :
    ∃ store root',
      KVCacheStore.create ℚ Zlib.crc32 noFaults portablePlatform tinyKeys
          tinyKeys tinySpec none ⟨none, none⟩ = .ok store root' ∧
        store.kind.MovesRecords tinySpec ∧
        RoundTrips ℚ Zlib.crc32 tinyKeys tinyKeys tinySpec 2 store root' := by
  obtain ⟨store, root', created, resolved, roundTrips⟩ := @createdStore_roundTrips ℚ _ _ _ _ _
    Zlib.crc32 tinyKeys tinyKeys tinySpec 2
    ⟨tinySpec_storable, rfl, rfl, rfl, rfl, by decide, by decide⟩ _ _ _
    (rfl : resolveStorageBackend portablePlatform true none = .ok .buffered) ⟨none, none⟩
  exact ⟨store, root', created, by rw [resolved]; decide, roundTrips⟩

/-- A store of a layer without tokens is created, but `quantize_tensor` refuses
that layer, so there is nothing its blocks could concatenate to. -/
theorem emptyLayer_not_quantized :
    StoreInput ℚ emptyKeys emptyKeys tinySpec 0 ∧
      (∃ store root', KVCacheStore.create ℚ Zlib.crc32 noFaults
        portablePlatform emptyKeys emptyKeys tinySpec none ⟨none, none⟩ =
          .ok store root') ∧
      ∀ parts, ¬ ConcatenatesTo ℚ tinySpec emptyKeys 0 parts := by
  have input : StoreInput ℚ emptyKeys emptyKeys tinySpec 0 :=
    ⟨tinySpec_storable, rfl, rfl, rfl, rfl, by decide, by decide⟩
  obtain ⟨_, store, root', created, _⟩ := create_ok Zlib.crc32 input
    (rfl : resolveStorageBackend portablePlatform true none = .ok .buffered)
    ⟨none, none⟩
  refine ⟨input, ⟨store, root', created⟩, ?_⟩
  rintro parts ⟨whole, q, selected, quantized, _⟩
  have shape : whole.shape = [0, 1] ++ [2] := by
    cases selected
    rfl
  obtain ⟨raised, refused⟩ := quantizeTensor_empty (F := ℚ) tinySpec.bits
    tinySpec.groupSize shape (by decide)
  rw [refused] at quantized
  cases quantized

end KVSSD

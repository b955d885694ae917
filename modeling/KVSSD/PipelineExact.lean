import KVSSD.PipelineDecode
import KVSSD.RestoredLayers

/-!
# Pipelines over created stores

From the tensors a store is created from to what `decode` returns.  Every block that is listed can
be read and holds its tokens of the layer, so every call is attention over the blocks its selector
chooses, of the layer that is quantized and dequantized as a whole.
-/

namespace KVSSD

open KVSSD.Python KVSSD.Struct KVSSD.Quant

section Created

variable {F : Type} [QuantArith F] {α β : Type} [TorchElement α F] [TorchElement β F]
  {crc32 : Bytes → UInt32} {keys : Tensor α} {values : Tensor β} {spec : CacheSpec} {tokens : Nat}
  {writtens : List Written} {store : KVCacheStore} {root : Root}

namespace Created

/-- Every listed block can be read and holds its tokens. -/
theorem readsAs (input : StoreInput F keys values spec tokens)
    (created : Created F crc32 keys values spec tokens writtens store root)
    (moves : store.kind.MovesRecords spec) {device : Option Device}
    (accepts : store.kind.Accepts device) (memory : Memory) {layer blockId : Int}
    (listed : blockId ∈ store.blocksForLayer layer) :
    ∃ (place : Nat) (block : PackedKVBlock), layer = place ∧ place < spec.layers.toNat ∧
      block.Holds F keys values spec tokens place blockId ∧
      (⟨crc32, memory, writtens.flatMap Written.record, store, device⟩ : LoaderStore).ReadsAs
        layer blockId block := by
  rw [KVCacheStore.blocksForLayer, List.mem_mergeSort] at listed
  obtain ⟨entry, filtered, rfl⟩ := List.mem_map.mp listed
  obtain ⟨known, here⟩ := List.mem_filter.mp filtered
  obtain rfl : entry.layer = layer := eq_of_beq here
  have lookup := created.entry_eq_ok input known
  obtain ⟨position, written, position_eq, member, rfl⟩ := created.mem_entries known
  have faithful := created.faithful written member
  have dims := input.storable.dims
  have sized := CacheSpec.sized_of_validate input.storable.valid
    (Int.le_of_lt input.storable.group_pos)
  have specEq : store.spec = spec := by rw [KVCacheStore.spec, created.manifest]
  have indexed : written.index ∈
      blockIndices spec.layers.toNat tokens spec.blockTokens.toNat := by
    rw [← created.indices]
    exact List.mem_map_of_mem member
  obtain ⟨inside, start, within⟩ := mem_blockIndices dims.tokens_pos indexed
  refine ⟨written.index.layer, written.block, rfl, inside,
    ⟨written.index, rfl, rfl, start ▸ within, faithful.stores⟩, ?_⟩
  refine LoaderStore.readsAs_of_record accepts lookup ?_
    (created.readable input moves position_eq) ?_
  · rw [LoaderStore.spec, specEq]
    exact sized.recordSize.1
  · rw [LoaderStore.spec, specEq, created.recordAt_entry position_eq]
    split
    · have decodes := created.decodeDeviceRecord_record input member position []
      rwa [List.append_nil] at decodes
    · have decodes := faithful.decodes []
      rwa [List.append_nil] at decodes

/-- Blocks of a layer that are read hold their tokens. -/
theorem holds (input : StoreInput F keys values spec tokens)
    (created : Created F crc32 keys values spec tokens writtens store root)
    (moves : store.kind.MovesRecords spec) {device : Option Device}
    (accepts : store.kind.Accepts device) {memory : Memory} {raw : Buffer} {layer : Int}
    {selected : List Int} {blocks : List PackedKVBlock}
    (slot : (⟨crc32, memory, writtens.flatMap Written.record, store, device⟩ :
      LoaderStore).SlotBuffer raw)
    (nonempty : selected ≠ []) (listed : ∀ blockId ∈ selected, blockId ∈ store.blocksForLayer layer)
    (reads : List.Forall₂
      ((⟨crc32, memory, writtens.flatMap Written.record, store, device⟩ :
        LoaderStore).ReadsAs layer) selected blocks) :
    ∃ place : Nat, layer = place ∧ place < spec.layers.toNat ∧
      List.Forall₂ (PackedKVBlock.Holds F keys values spec tokens place) selected blocks := by
  obtain ⟨first, some_id⟩ := List.exists_mem_of_ne_nil selected nonempty
  obtain ⟨place, _, rfl, inside, _⟩ :=
    created.readsAs input moves accepts memory (listed first some_id)
  refine ⟨place, rfl, inside, ?_⟩
  clear nonempty some_id
  induction reads with
  | nil => exact .nil
  | @cons blockId block selected blocks reads _ induction =>
      obtain ⟨other, same, here, _, held, readsSame⟩ :=
        created.readsAs input moves accepts memory (listed blockId (by simp))
      obtain rfl := Int.ofNat.inj here
      obtain rfl := reads.unique slot readsSame
      exact .cons held (induction fun id member => listed id (by simp [member]))

end Created

theorem PackedKVBlock.Holds.counted (input : StoreInput F keys values spec tokens) {layer : Nat}
    {blockId : Int} {block : PackedKVBlock}
    (holds : block.Holds F keys values spec tokens layer blockId) : block.Counted spec := by
  obtain ⟨index, _, _, within, stores⟩ := holds.placed
  have dims := input.storable.dims
  have positive := dims.tokens_pos
  have tokensEq := dims.tokens_eq
  have valid := stores.valid
  have int32 := input.storable.blockTokens_int32
  exact ⟨stores.shaped, by omega, by omega, by omega, by omega⟩

theorem counted_of_holds (input : StoreInput F keys values spec tokens) {layer : Nat}
    {selected : List Int} {blocks : List PackedKVBlock} (nonempty : selected ≠ [])
    (holds : List.Forall₂ (PackedKVBlock.Holds F keys values spec tokens layer) selected blocks) :
    blocks ≠ [] ∧ ∀ block ∈ blocks, block.Counted spec := by
  constructor
  · rintro rfl
    exact nonempty (List.forall₂_nil_right_iff.mp holds)
  · intro block member
    obtain ⟨position, within, rfl⟩ := List.getElem_of_mem member
    exact ((List.forall₂_iff_get.mp holds).2 position (by rw [holds.length_eq]; exact within)
      within).counted input

end Created

theorem KVSSDPipeline.slot_of_init {G : Type} {pipeline : KVSSDPipeline G} {depth : Int}
    {first : PipelineState G} (made : pipeline.init depth = .ok first) :
    ∃ raw, pipeline.source.SlotBuffer raw := by
  obtain ⟨loader, created, _⟩ := bind_eq_ok.mp made
  obtain ⟨atLeast, _, _, slots⟩ := Loader.init_cases created
  obtain ⟨raw, _, slot⟩ := slots 0 (by omega)
  exact ⟨raw, slot⟩

section Restores

variable {F G : Type} [QuantArith F] [AttentionArith G] {α β : Type} [TorchElement α F]
  [TorchElement β F]

/-- A call for a query of whole groups of heads, over blocks that were selected, returns attention
over the tokens of these blocks, of the layer as it is restored. -/
def KVSSDPipeline.Restores (F : Type) [QuantArith F] {α β : Type} [TorchElement α F]
    [TorchElement β F] (pipeline : KVSSDPipeline G) (keys : Tensor α) (values : Tensor β)
    (call : DecodeCall G) (result : Except PyError (Tensor G)) : Prop :=
  ∀ selected, selectBlocks pipeline.source.store call.layer call.selector = .ok selected →
    ∀ queryHeads, call.query.shape = [queryHeads, pipeline.spec.headDim.toNat] →
      pipeline.spec.kvHeads.toNat ∣ queryHeads →
        ∃ (layer : Nat) (output : Tensor G), call.layer = layer ∧ result = .ok output ∧
          restoredAttention F G pipeline.spec keys values layer selected call.query
            (pipeline.smScale call.query) = .ok output

variable {crc32 : Bytes → UInt32} {keys : Tensor α} {values : Tensor β} {spec : CacheSpec}
  {tokens : Nat} {writtens : List Written} {store : KVCacheStore} {root : Root} {memory : Memory}
  {device : Option Device} {pipeline : KVSSDPipeline G}
  (input : StoreInput F keys values spec tokens)
  (created : Created F crc32 keys values spec tokens writtens store root)
  (moves : store.kind.MovesRecords spec) (accepts : store.kind.Accepts device)
  (backed : pipeline.source = ⟨crc32, memory, writtens.flatMap Written.record, store, device⟩)

include input created moves accepts backed in
omit [AttentionArith G] in
theorem Created.pipeline_readable : pipeline.Readable := by
  intro layer selector selected selects blockId member
  rw [backed] at selects ⊢
  have listed := (KVSSDPipeline.mem_of_selectBlocks selects).2 blockId member
  obtain ⟨_, block, _, _, _, reads⟩ := created.readsAs input moves accepts memory listed
  exact ⟨block, reads⟩

include created backed in
omit [AttentionArith G] in
theorem Created.pipeline_spec : pipeline.spec = spec := by
  rw [KVSSDPipeline.spec, backed, LoaderStore.spec, KVCacheStore.spec, created.manifest]

include input created moves accepts backed in
/-- Where the answers for blocks are attention over them, a call returns attention over the restored
layer. -/
theorem Created.restored {call : DecodeCall G} {result : Except PyError (Tensor G)}
    {selected : List Int} {raw : Buffer} (slot : pipeline.source.SlotBuffer raw)
    (answers : pipeline.Answers call result)
    (selects : KVSSDPipeline.selectBlocks pipeline.source.store call.layer call.selector =
      .ok selected)
    (computes : ∀ blocks, blocks ≠ [] → (∀ block ∈ blocks, block.Counted spec) →
      ∃ output, pipeline.answer call.query blocks = .ok output ∧
        packedAttentionReference call.query blocks (pipeline.smScale call.query) = .ok output) :
    ∃ (layer : Nat) (output : Tensor G), call.layer = layer ∧ result = .ok output ∧
      restoredAttention F G pipeline.spec keys values layer selected call.query
        (pipeline.smScale call.query) = .ok output := by
  obtain ⟨blocks, reads, returned⟩ := answers.2 selected selects
  rw [backed] at slot selects reads
  obtain ⟨nonempty, listed⟩ := KVSSDPipeline.mem_of_selectBlocks selects
  obtain ⟨layer, layerEq, inside, holds⟩ :=
    created.holds input moves accepts slot nonempty listed reads
  obtain ⟨some_block, counted⟩ := counted_of_holds input nonempty holds
  obtain ⟨output, answered, reference⟩ := computes blocks some_block counted
  refine ⟨layer, output, layerEq, returned.trans answered, ?_⟩
  rw [created.pipeline_spec backed, ← packedAttentionReference_restored input inside nonempty holds,
    reference]

end Restores

section Portable

variable {F G : Type} [QuantArith F] [AttentionArith G] {α β : Type} [TorchElement α F]
  [TorchElement β F] {crc32 : Bytes → UInt32} {keys : Tensor α} {values : Tensor β}
  {spec : CacheSpec} {tokens : Nat} {writtens : List Written} {store : KVCacheStore} {root : Root}
  (input : StoreInput F keys values spec tokens)
  (created : Created F crc32 keys values spec tokens writtens store root)
  (moves : store.kind.MovesRecords spec)

include input created moves in
theorem Created.portable_restores (memory : Memory) {device : Device}
    (accepts : store.kind.Accepts (some device)) (stageBlocks : Int) (scale : Nat → G)
    (depth : Int) (first state : PipelineState G) (events : List (PipelineEvent G)) :
    let pipeline : KVSSDPipeline G :=
      ⟨⟨crc32, memory, writtens.flatMap Written.record, store, some device⟩,
        ReferenceAttentionBackend.run, false, stageBlocks, scale⟩
    pipeline.init depth = .ok first →
    Transition.run pipeline.step first events = some state →
      ∀ entry ∈ state.returned, pipeline.Restores F keys values entry.1 entry.2 := by
  intro pipeline made reached entry member selected selects queryHeads shape divides
  have readable : pipeline.Readable := created.pipeline_readable input moves accepts rfl
  have inv := KVSSDPipeline.inv_of_reachable made readable nofun
    (fun event _ => by cases event <;> simp [KVSSDPipeline.Allowed, pipeline]) reached
  obtain ⟨raw, slot⟩ := KVSSDPipeline.slot_of_init made
  obtain ⟨width, groups, cuts⟩ := input.storable.cuts
  rw [created.pipeline_spec rfl] at shape divides
  apply created.restored input moves accepts rfl slot (inv.answered entry member) selects
  intro blocks nonempty counted
  have filled : ∀ block ∈ blocks, block.Filled spec :=
    fun block member => (counted block member).filled
  obtain ⟨output, _, outputOk, _⟩ :=
    packedAttention_attends cuts nonempty filled shape divides (pipeline.smScale entry.1.query)
  refine ⟨output, outputOk, ?_⟩
  rw [← packedAttention_eq_reference cuts nonempty filled shape divides, outputOk]

end Portable

/-- Over a created store whose backend accepts its slots, the portable pipeline returns attention
over the restored layers, whatever the block size and the number of slots are and in whatever order
the reads end. -/
theorem portablePipeline_exact {F G : Type} [QuantArith F] [AttentionArith G] {α β : Type}
    [TorchElement α F] [TorchElement β F] (crc32 : Bytes → UInt32) {keys : Tensor α}
    {values : Tensor β} {spec : CacheSpec} {tokens : Nat}
    (input : StoreInput F keys values spec tokens) {platform : Platform}
    {requested : Option String} {kind : StorageKind}
    (resolves : resolveStorageBackend platform true requested = .ok kind)
    (moves : kind.MovesRecords spec) {device : Device} (accepts : kind.Accepts (some device))
    (root : Root) :
    ∃ store root' file,
      KVCacheStore.create F crc32 noFaults platform keys values spec requested root =
        .ok store root' ∧
      root'.blocks = some file ∧
      ∀ (memory : Memory) (stageBlocks : Int) (scale : Nat → G) (depth : Int)
        (first state : PipelineState G) (events : List (PipelineEvent G)),
        let pipeline : KVSSDPipeline G := ⟨⟨crc32, memory, file, store, some device⟩,
          ReferenceAttentionBackend.run, false, stageBlocks, scale⟩
        pipeline.init depth = .ok first →
        Transition.run pipeline.step first events = some state →
          ∀ entry ∈ state.returned, pipeline.Restores F keys values entry.1 entry.2 := by
  obtain ⟨writtens, store, root', createdOk, rfl, created⟩ := create_ok crc32 input resolves root
  refine ⟨store, root', _, createdOk, created.file, ?_⟩
  exact fun memory => created.portable_restores input moves memory accepts

theorem portablePipeline_exact_tiny : ∃ store root' file,
    KVCacheStore.create ℚ Zlib.crc32 noFaults portablePlatform tinyKeys tinyKeys
        tinySpec none ⟨none, none⟩ = .ok store root' ∧
      root'.blocks = some file ∧
      ∀ (memory : Memory) (stageBlocks : Int) (scale : Nat → ℝ) (depth : Int)
        (first state : PipelineState ℝ) (events : List (PipelineEvent ℝ)),
        let pipeline : KVSSDPipeline ℝ := ⟨⟨Zlib.crc32, memory, file, store, some .cpu⟩,
          ReferenceAttentionBackend.run, false, stageBlocks, scale⟩
        pipeline.init depth = .ok first →
        Transition.run pipeline.step first events = some state →
          ∀ entry ∈ state.returned, pipeline.Restores ℚ tinyKeys tinyKeys entry.1 entry.2 :=
  portablePipeline_exact Zlib.crc32
    ⟨tinySpec_storable, rfl, rfl, rfl, rfl, by decide, by decide⟩
    (rfl : resolveStorageBackend portablePlatform true none = .ok .buffered)
    (by decide) (by decide) ⟨none, none⟩

end KVSSD

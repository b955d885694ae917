import KVSSD.CudaOverflow
import KVSSD.PipelineExact

/-!
# The pipeline on the CUDA kernel

The pipeline whose chunks are staged on a GPU and run by `fused_decode_kernel`.  Where the sizes of
a full chunk are `int`s, every chunk passes the host checks, no index of the kernel overflows, and
the merged chunks are attention over the restored layer.  The slots lie on the host: a chunk of
blocks that lie on the GPU already is stacked without waiting for them.
-/

namespace KVSSD

open KVSSD.Python KVSSD.Struct KVSSD.Quant KVSSD.Loops

/-- A value that is a number. -/
def Extended.number : Extended → Option ℝ
  | .real value => some value
  | _ => none

namespace Cuda

/-- The tensors that `fused_decode` returns, where the kernel stays inside its arrays and stores
numbers only. -/
noncomputable def fusedDecodeTensors (query : Tensor ℝ) (batch : PackedBatch) (scale : ℝ) :
    Except PyError (Tensor ℝ × Tensor ℝ) := do
  let launch ← CudaExtensionBackend.run (query.map Extended.real) batch
  let stored := (List.range launch.queryHeads.toNat).mapM fun head => do
    let (row, lse) ←
      fusedDecodeKernel (query.map Extended.real) batch (.real scale) launch head
    return (← row.mapM Extended.number, ← lse.number)
  match stored with
  | none => .error (.runtimeError "CUDA error")
  | some stored => do
      let items := stored.flatMap Prod.fst
      let output ← (Tensor.mk [items.length] items (by simp)).reshape
        [launch.queryHeads.toNat, launch.headDim.toNat]
      return (output, Tensor.ofList (stored.map Prod.snd))

section Launch

variable {batch : PackedBatch} {query : Tensor ℝ} {sizes : BatchSizes} {scale : ℝ}
  (formed : batch.WellFormed query sizes) (sized : Sized sizes) (small : sizes.headDim ≤ 256)
  (indexed : 0 < sizes.queryHeads → Indexed batch sizes)

theorem number_real (items : List ℝ) :
    (items.map Extended.real).mapM Extended.number = some items := by
  induction items with
  | nil => rfl
  | cons item items induction =>
      rw [List.map_cons, List.mapM_cons, induction]
      rfl

include formed sized small indexed in
/-- What the kernel stores is what the reference returns. -/
theorem fusedDecodeTensors_eq :
    fusedDecodeTensors query batch scale = ReferenceAttentionBackend.run query batch scale := by
  obtain ⟨lanes, launched⟩ : ∃ lanes, CudaExtensionBackend.run (query.map Extended.real) batch =
      .ok (sizes.launch lanes) := ⟨_, run_launch (formed.mapQuery Extended.real) sized small⟩
  obtain ⟨launch, output, lse, sameLaunch, reference, rows⟩ :=
    @agrees_of_indexed batch query sizes scale formed sized small indexed
  obtain rfl := Except.ok.inj (launched.symm.trans sameLaunch)
  obtain ⟨sameOutput, sameLse, sameReference, attends⟩ := formed.run scale
  obtain ⟨rfl, rfl⟩ := Prod.mk.inj (Except.ok.inj (reference.symm.trans sameReference))
  let row (head : Nat) : List ℝ :=
    (output.matrix sizes.queryHeads sizes.headDim).getD head []
  have table : output.IsTable sizes.queryHeads sizes.headDim row := by
    refine attends.output.congr fun head inside => ?_
    simp only [row, Tensor.matrix, attends.output.matrix_eq]
    simp [inside]
  have column : lse.IsColumn sizes.queryHeads fun head => lse.data.getD head 0 := by
    refine ⟨attends.lse.shape, attends.lse.data.trans (List.map_congr_left fun head member => ?_)⟩
    rw [attends.lse.data]
    simp [List.mem_range.mp member]
  have stored : ((List.range sizes.queryHeads).mapM fun head => do
      let (row, lse) ← fusedDecodeKernel (query.map Extended.real) batch (.real scale)
        (sizes.launch lanes) head
      return (← row.mapM Extended.number, ← lse.number)) =
        some ((List.range sizes.queryHeads).map fun head => (row head, lse.data.getD head 0)) := by
    apply mapM_eq_some
    intro head member
    rw [rows head (List.mem_range.mp member)]
    change (do return (← ((row head).map Extended.real).mapM Extended.number, _)) = _
    rw [number_real]
    rfl
  have filled : ((List.range sizes.queryHeads).map fun head =>
      (row head, lse.data.getD head 0)).flatMap Prod.fst =
        (List.range sizes.queryHeads).flatMap row := List.flatMap_map ..
  obtain ⟨other, reshaped, otherTable⟩ := Tensor.IsTable.of_reshape table.wide filled
  obtain rfl := table.unique otherTable
  have last : Tensor.ofList (((List.range sizes.queryHeads).map fun head =>
      (row head, lse.data.getD head 0)).map Prod.snd) = lse := by
    rw [List.map_map]
    exact Tensor.ext (by simp [Tensor.ofList, column.shape]) column.data.symm
  have heads : (sizes.launch lanes).queryHeads.toNat = sizes.queryHeads := Int.toNat_natCast _
  have dims : (sizes.launch lanes).headDim.toNat = sizes.headDim := Int.toNat_natCast _
  unfold fusedDecodeTensors
  rw [launched, ok_bind, reference]
  simp only [heads, dims, stored, reshaped, ok_bind, last]
  rfl

end Launch

/-- Batches of these sizes are launched, and the indices of their items are `int`s. -/
structure FitsKernel (sizes : BatchSizes) : Prop where
  sized : Sized sizes
  small : sizes.headDim ≤ 256
  packed : sizes.blocks * sizes.tokens * sizes.kvHeads * sizes.packedDim ≤ 2 ^ 31
  scales : sizes.blocks * sizes.tokens * sizes.kvHeads * sizes.groups ≤ 2 ^ 31
  query : sizes.queryHeads * sizes.headDim ≤ 2 ^ 31

namespace FitsKernel

variable {sizes : BatchSizes} (fits : FitsKernel sizes)

include fits in
theorem of_le {blocks : Nat} (fewer : blocks ≤ sizes.blocks) :
    FitsKernel { sizes with blocks := blocks } where
  sized :=
    { blocks := Nat.lt_of_le_of_lt fewer fits.sized.blocks
      tokens := fits.sized.tokens
      kvHeads := fits.sized.kvHeads
      queryHeads := fits.sized.queryHeads
      groupSize := fits.sized.groupSize }
  small := fits.small
  packed := by
    refine le_trans ?_ fits.packed
    exact Nat.mul_le_mul_right _ (Nat.mul_le_mul_right _ (Nat.mul_le_mul_right _ fewer))
  scales := by
    refine le_trans ?_ fits.scales
    exact Nat.mul_le_mul_right _ (Nat.mul_le_mul_right _ (Nat.mul_le_mul_right _ fewer))
  query := fits.query

include fits in
theorem indexed {F : Type} {batch : PackedBatch} {query : Tensor F}
    (formed : batch.WellFormed query sizes) : Indexed batch sizes where
  rows := by
    intro position valid
    obtain ⟨block, token⟩ := PackedBatch.mem_validPositions.mp valid
    have room := (formed.validAt_eq block).2
    have row : position.1 * sizes.tokens + position.2 + 1 ≤ sizes.blocks * sizes.tokens := by
      calc position.1 * sizes.tokens + position.2 + 1
        _ ≤ position.1 * sizes.tokens + sizes.tokens := by omega
        _ = (position.1 + 1) * sizes.tokens := (Nat.succ_mul _ _).symm
        _ ≤ sizes.blocks * sizes.tokens := Nat.mul_le_mul_right _ block
    constructor
    · exact le_trans (Nat.mul_le_mul_right _ (Nat.mul_le_mul_right _ row)) fits.packed
    · exact le_trans (Nat.mul_le_mul_right _ (Nat.mul_le_mul_right _ row)) fits.scales
  query := fits.query

end FitsKernel

end Cuda

/-- The sizes of a batch of some blocks of the specification. -/
def CacheSpec.batchSizes (spec : CacheSpec) (blocks queryHeads : Nat) : BatchSizes :=
  ⟨blocks, spec.blockTokens.toNat, spec.kvHeads.toNat, spec.headDim.toNat, queryHeads,
    spec.bits.toNat, spec.groupSize.toNat⟩

section Staged

variable {spec : CacheSpec} {width groups : Nat}
  (cuts : spec.Cuts spec.blockTokens.toNat spec.kvHeads.toNat spec.headDim.toNat width groups
    spec.groupSize.toNat)
  {blocks : List PackedKVBlock} (nonempty : blocks ≠ [])
  (counted : ∀ block ∈ blocks, block.Counted spec) {F : Type} {query : Tensor F} {queryHeads : Nat}
  (queryShape : query.shape = [queryHeads, spec.headDim.toNat])
  (divides : spec.kvHeads.toNat ∣ queryHeads)

include cuts nonempty counted queryShape divides in
/-- A staged chunk is a batch of its sizes. -/
theorem PackedBatch.Stages.wellFormed {batch : PackedBatch} (stages : batch.Stages spec blocks) :
    batch.WellFormed query (spec.batchSizes blocks.length queryHeads) := by
  have cut := fun block member => (counted block member).shaped.cut cuts
  have own : ∀ {α : Type} {part : PackedKVBlock → Tensor α} {shape : List Nat}
      {stacked : Tensor α}, (∀ block ∈ blocks, (part block).shape = shape) →
      Tensor.stack (blocks.map part) = .ok stacked → stacked.shape = blocks.length :: shape := by
    intro α part shape stacked each success
    obtain ⟨_, other, result⟩ := stack_part part nonempty each
    obtain rfl := Except.ok.inj (other.symm.trans success)
    exact result
  have counts : batch.validTokens.data = blocks.map PackedKVBlock.validTokens := by
    rw [stages.counts]
    rfl
  obtain ⟨bits, bitsEq, known, per⟩ : ∃ bits : Nat, spec.bits = bits ∧ (bits = 2 ∨ bits = 4) ∧
      perByte spec.bits = 8 / bits := by
    have bits := cuts.bits
    rcases (by omega : spec.bits = 2 ∨ spec.bits = 4) with two | four
    · exact ⟨2, two, .inl rfl, by rw [two]; rfl⟩
    · exact ⟨4, four, .inr rfl, by rw [four]; rfl⟩
  have bitsNat : spec.bits.toNat = bits := by omega
  have bytes := cuts.bytes
  rw [per] at bytes
  have packedDim : (spec.batchSizes blocks.length queryHeads).packedDim = width := by
    change spec.headDim.toNat * spec.bits.toNat / 8 = width
    rw [bitsNat, bytes]
    rcases known with rfl | rfl <;> omega
  have groupsEq : (spec.batchSizes blocks.length queryHeads).groups = groups := by
    rw [BatchSizes.groups, CacheSpec.batchSizes, cuts.grouped]
    exact Nat.mul_div_cancel _ cuts.group_pos
  obtain ⟨first, some_block⟩ := List.exists_mem_of_ne_nil blocks nonempty
  exact
    { query := queryShape
      packedK := packedDim ▸ own (fun block member => (cut block member).1.packed) stages.packedK
      packedV := packedDim ▸ own (fun block member => (cut block member).2.packed) stages.packedV
      scalesK := groupsEq ▸ own (fun block member => (cut block member).1.scales) stages.scalesK
      scalesV := groupsEq ▸ own (fun block member => (cut block member).2.scales) stages.scalesV
      validTokens := by
        rw [stages.counts]
        simp [Tensor.ofList, CacheSpec.batchSizes]
      bits_eq := by rw [stages.bits, CacheSpec.batchSizes, bitsNat, bitsEq]
      groupSize_eq := stages.groupSize.trans cuts.group_eq
      bits := by rw [CacheSpec.batchSizes, bitsNat]; exact known
      whole_bytes := by
        rw [CacheSpec.batchSizes, bitsNat]
        exact ⟨width, by rw [Nat.mul_comm]; exact bytes⟩
      group_pos := cuts.group_pos
      whole_groups := ⟨groups, by rw [Nat.mul_comm]; exact cuts.grouped⟩
      heads_pos := cuts.heads_pos
      shared := divides
      counts := by
        intro valid member
        rw [counts] at member
        obtain ⟨block, known, rfl⟩ := List.mem_map.mp member
        have own := counted block known
        have bound := own.valid_le
        have positive := own.valid_pos
        simp only [CacheSpec.batchSizes]
        omega
      some_valid := by
        refine ⟨first.validTokens, ?_, ?_⟩
        · rw [counts]
          exact List.mem_map_of_mem some_block
        · have positive := (counted first some_block).valid_pos
          omega }

end Staged

namespace KVSSDPipeline

theorem length_le_of_mem_fillChunks {α : Type} {size : Int} {chunk source part : List α}
    (room : (chunk.length : Int) < size) (member : part ∈ fillChunks size chunk source) :
    (part.length : Int) ≤ size := by
  induction source generalizing chunk with
  | nil =>
      rw [fillChunks] at member
      split at member
      · cases member
      · rw [List.mem_singleton.mp member]
        omega
  | cons block source induction =>
      have longer : (chunk ++ [block]).length = chunk.length + 1 := by simp
      rw [fillChunks] at member
      split at member
      · rename_i full
        rcases List.mem_cons.mp member with rfl | later
        · omega
        · exact induction (by simp; omega) later
      · rename_i short
        exact induction (by omega) member

theorem length_le_of_mem_chunks {α : Type} {size : Int} {source part : List α}
    (positive : 1 ≤ size) (member : part ∈ chunks source size) : (part.length : Int) ≤ size :=
  length_le_of_mem_fillChunks (by simp; omega) member

section Kernel

variable {pipeline : KVSSDPipeline ℝ} {spec : CacheSpec} {width groups queryHeads : Nat}
  (own : pipeline.spec = spec)
  (cuts : spec.Cuts spec.blockTokens.toNat spec.kvHeads.toNat spec.headDim.toNat width groups
    spec.groupSize.toNat)
  (atLeast : 1 ≤ pipeline.stageBlocks) (divides : spec.kvHeads.toNat ∣ queryHeads)
  (fits : Cuda.FitsKernel (spec.batchSizes pipeline.stageBlocks.toNat queryHeads))
  {query : Tensor ℝ} (shape : query.shape = [queryHeads, spec.headDim.toNat])
  {blocks : List PackedKVBlock} (counted : ∀ block ∈ blocks, block.Counted spec)

include cuts atLeast divides fits shape counted

theorem kernel_chunk {part : List PackedKVBlock}
    (member : part ∈ chunks blocks pipeline.stageBlocks) {batch : PackedBatch}
    (stages : batch.Stages spec part) (scale : ℝ) :
    Cuda.fusedDecodeTensors query batch scale =
      ReferenceAttentionBackend.run query batch scale := by
  have short := length_le_of_mem_chunks atLeast member
  have partCounted : ∀ block ∈ part, block.Counted spec := by
    intro block inside
    refine counted block ?_
    rw [← flatten_chunks blocks pipeline.stageBlocks]
    exact List.mem_flatten.mpr ⟨part, member, inside⟩
  have formed := stages.wellFormed cuts (ne_nil_of_mem_chunks member) partCounted shape divides
  have partFits : Cuda.FitsKernel (spec.batchSizes part.length queryHeads) := by
    apply fits.of_le
    change part.length ≤ pipeline.stageBlocks.toNat
    omega
  exact Cuda.fusedDecodeTensors_eq formed partFits.sized partFits.small
    fun _ => partFits.indexed formed

include own in
/-- The pipeline on the kernel answers with the attention of the reference. -/
theorem kernel_answer (kernel : pipeline.run = Cuda.fusedDecodeTensors)
    (streamed : pipeline.streamed = true) (nonempty : blocks ≠ []) :
    ∃ output, pipeline.answer query blocks = .ok output ∧
      packedAttentionReference query blocks (pipeline.smScale query) = .ok output := by
  subst own
  obtain ⟨output, _, outputOk, attends⟩ := decodeCudaStreamed_attends cuts shape divides
    pipeline.device (pipeline.smScale query) nonempty counted
    fun part member batch stages => kernel_chunk cuts atLeast divides fits shape counted member
      stages (pipeline.smScale query)
  obtain ⟨other, _, otherOk, otherAttends⟩ := packedAttentionReference_attends cuts nonempty
    (fun block member => (counted block member).filled) shape divides (pipeline.smScale query)
  refine ⟨output, ?_, otherOk.trans (by rw [attends.output.unique otherAttends.output])⟩
  rw [answer, if_pos streamed, kernel]
  exact outputOk

end Kernel

end KVSSDPipeline

section Cuda

variable {F : Type} [QuantArith F] {α β : Type} [TorchElement α F] [TorchElement β F]
  {crc32 : Bytes → UInt32} {keys : Tensor α} {values : Tensor β} {spec : CacheSpec} {tokens : Nat}
  {writtens : List Written} {store : KVCacheStore} {root : Root}
  (input : StoreInput F keys values spec tokens)
  (created : Created F crc32 keys values spec tokens writtens store root)
  (moves : store.kind.MovesRecords spec) (host : store.kind ≠ .gds)

include input created moves host in
/-- What the pipeline on the kernel returns over a created store, and that a call can go on. -/
theorem Created.cuda_restores {stageBlocks : Int} {queryHeads : Nat}
    (divides : spec.kvHeads.toNat ∣ queryHeads)
    (fits : Cuda.FitsKernel (spec.batchSizes stageBlocks.toNat queryHeads)) (memory : Memory)
    (scale : Nat → ℝ) (depth : Int) (first state : PipelineState ℝ)
    (events : List (PipelineEvent ℝ)) :
    let pipeline : KVSSDPipeline ℝ :=
      ⟨⟨crc32, memory, writtens.flatMap Written.record, store, some .cuda⟩,
        Cuda.fusedDecodeTensors, true, stageBlocks, scale⟩
    pipeline.init depth = .ok first →
    (∀ call, .decode call ∈ events → call.query.shape = [queryHeads, spec.headDim.toNat]) →
    Transition.run pipeline.step first events = some state →
      (∀ entry ∈ state.returned, pipeline.Restores F keys values entry.1 entry.2) ∧
        (state.current ≠ none →
          ∃ event next, event.busy = true ∧ pipeline.step state event = some next) := by
  intro pipeline made shapes reached
  obtain ⟨_, atLeast, _, idle, none_returned⟩ := KVSSDPipeline.init_cases made
  change 1 ≤ stageBlocks at atLeast
  obtain ⟨raw, slot⟩ := KVSSDPipeline.slot_of_init made
  obtain ⟨width, groups, cuts⟩ := input.storable.cuts
  have accepts : store.kind.Accepts (some .cuda) := fun gds => absurd gds host
  have readable : pipeline.Readable := created.pipeline_readable input moves accepts rfl
  have ordered : pipeline.Ordered := fun _ => if_neg host
  have computes {query : Tensor ℝ} (shape : query.shape = [queryHeads, spec.headDim.toNat])
      (blocks : List PackedKVBlock) (nonempty : blocks ≠ [])
      (counted : ∀ block ∈ blocks, block.Counted spec) :
      ∃ output, pipeline.answer query blocks = .ok output ∧
        packedAttentionReference query blocks (pipeline.smScale query) = .ok output :=
    KVSSDPipeline.kernel_answer (created.pipeline_spec rfl) cuts atLeast divides fits shape counted
      rfl rfl nonempty
  have allowed : ∀ event ∈ events, pipeline.Allowed event := by
    intro event member
    cases event with
    | decode call =>
        intro _ selected blocks selects reads
        obtain ⟨nonempty, listed⟩ := KVSSDPipeline.mem_of_selectBlocks selects
        obtain ⟨layer, _, _, holds⟩ := created.holds input moves accepts slot nonempty listed reads
        obtain ⟨some_block, counted⟩ := counted_of_holds input nonempty holds
        obtain ⟨output, answered, _⟩ := computes (shapes call member) blocks some_block counted
        exact ⟨output, answered⟩
    | _ => trivial
  have inv := KVSSDPipeline.inv_of_reachable made readable ordered allowed reached
  refine ⟨?_, fun current => ?_⟩
  · intro entry member selected selects otherHeads shape _
    have called : entry.1 ∈ state.calls :=
      List.mem_append_left _ (List.mem_map_of_mem member)
    rw [KVSSDPipeline.run_calls reached, PipelineState.calls, idle, none_returned] at called
    obtain ⟨event, happened, begins⟩ := List.mem_filterMap.mp called
    cases event with
    | decode call =>
        obtain rfl := Option.some.inj begins
        exact created.restored input moves accepts rfl slot (inv.answered entry member) selects
          (computes (shapes _ happened))
    | loader event => cases begins
    | chunk => cases begins
    | answer => cases begins
  · obtain ⟨decode, present⟩ := Option.ne_none_iff_exists'.mp current
    exact inv.progress present

end Cuda

end KVSSD

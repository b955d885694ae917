import KVSSD.PipelineRun
import KVSSD.StreamingAttention

/-!
# Every call returns its answer

The answer to a call is what it would return if it had all of its blocks from the start: one run of
the backend on all of them, or the chunks one after the other.  The invariant of a run says of the
call under way that what is left to do leads to its answer.
-/

namespace KVSSD

open KVSSD.Python KVSSD.Struct

namespace KVSSDPipeline

section Chunks

variable {α : Type} {size : Int} {chunk part more : List α}

theorem fillChunks_full (nonempty : part ≠ [])
    (full : ((chunk ++ part).length : Int) = size) :
    fillChunks size chunk (part ++ more) = (chunk ++ part) :: fillChunks size [] more := by
  induction part generalizing chunk with
  | nil => exact absurd rfl nonempty
  | cons block part induction =>
      rw [List.cons_append, fillChunks]
      by_cases last : part = []
      · subst last
        rw [List.nil_append]
        exact if_pos full
      · have longer : ((chunk ++ [block] ++ part).length : Int) = size := by
          rw [List.append_assoc]
          exact full
        have short : ¬ ((chunk ++ [block]).length : Int) = size := by
          have positive := List.length_pos_iff.mpr last
          rw [List.length_append] at longer
          omega
        rw [if_neg short, induction last longer, List.append_assoc]
        rfl

theorem fillChunks_rest (nonempty : chunk ++ part ≠ [])
    (room : ((chunk ++ part).length : Int) < size) :
    fillChunks size chunk part = [chunk ++ part] := by
  induction part generalizing chunk with
  | nil =>
      rw [List.append_nil] at nonempty
      rw [fillChunks, if_neg nonempty, List.append_nil]
  | cons block part induction =>
      have regroup : chunk ++ [block] ++ part = chunk ++ block :: part := by simp
      have short : ¬ ((chunk ++ [block]).length : Int) = size := by
        rw [← regroup, List.length_append] at room
        omega
      rw [fillChunks]
      rw [if_neg short, induction (by simp) (by rw [regroup]; exact room), regroup]

theorem chunks_full (positive : 1 ≤ size) (full : (part.length : Int) = size) :
    chunks (part ++ more) size = part :: chunks more size := by
  apply fillChunks_full
  · rintro rfl
    simp only [List.length_nil, Nat.cast_zero] at full
    omega
  · exact full

theorem chunks_rest (nonempty : part ≠ []) (room : (part.length : Int) < size) :
    chunks part size = [part] :=
  fillChunks_rest nonempty room

end Chunks

section Answers

variable {F : Type} [AttentionArith F] (pipeline : KVSSDPipeline F)

/-- What `decode` returns for these blocks. -/
def answer (query : Tensor F) (blocks : List PackedKVBlock) : Except PyError (Tensor F) :=
  if pipeline.streamed then
    decodeCudaStreamed pipeline.run pipeline.spec pipeline.device query (pipeline.smScale query)
      blocks pipeline.stageBlocks
  else packedAttentionWith pipeline.run query blocks (pipeline.smScale query)

/-- The call returns what its selector raises, or the answer for the blocks it selects. -/
def Answers (call : DecodeCall F) (result : Except PyError (Tensor F)) : Prop :=
  (∀ raised, selectBlocks pipeline.source.store call.layer call.selector = .error raised →
    result = .error raised) ∧
  ∀ selected, selectBlocks pipeline.source.store call.layer call.selector = .ok selected →
    ∃ blocks, List.Forall₂ (pipeline.source.ReadsAs call.layer) selected blocks ∧
      result = pipeline.answer call.query blocks

/-- What is left of a streamed call that has merged some chunks already. -/
def remaining (query : Tensor F) (merged : Option (Tensor F × Tensor F))
    (blocks : List PackedKVBlock) : Except PyError (Tensor F) :=
  match chunks blocks pipeline.stageBlocks with
  | [] =>
      match merged with
      | none => .error (.valueError "selector returned no blocks")
      | some (output, _) => .ok output
  | chunk :: rest => do
      let current ← stage pipeline.spec pipeline.device chunk
      streamChunks pipeline.run pipeline.spec pipeline.device query (pipeline.smScale query)
        current merged rest

theorem remaining_none (query : Tensor F) (blocks : List PackedKVBlock) :
    pipeline.remaining query none blocks =
      decodeCudaStreamed pipeline.run pipeline.spec pipeline.device query
        (pipeline.smScale query) blocks pipeline.stageBlocks := by
  unfold remaining decodeCudaStreamed
  cases chunks blocks pipeline.stageBlocks with
  | nil => rfl
  | cons chunk rest => rfl

theorem remaining_chunk {decode : Decode F} {blocks part more : List PackedKVBlock}
    (cut : chunks blocks pipeline.stageBlocks = part :: chunks more pipeline.stageBlocks) :
    pipeline.remaining decode.call.query decode.merged blocks = (do
      let merged ← pipeline.runChunk decode part
      pipeline.remaining decode.call.query (some merged) more) := by
  unfold remaining runChunk
  simp only [cut]
  cases stage pipeline.spec pipeline.device part with
  | error raised => rfl
  | ok current =>
      simp only [ok_bind]
      cases chunks more pipeline.stageBlocks with
      | nil =>
          simp only [streamChunks]
          rfl
      | cons next rest => simp only [streamChunks]

/-- A call that cannot fail while its generator is under way. -/
def Allowed : PipelineEvent F → Prop
  | .decode call => pipeline.streamed = true → ∀ selected blocks,
      selectBlocks pipeline.source.store call.layer call.selector = .ok selected →
      List.Forall₂ (pipeline.source.ReadsAs call.layer) selected blocks →
        ∃ output, pipeline.answer call.query blocks = .ok output
  | _ => True

theorem Allowed.of_call {pipeline : KVSSDPipeline F} {event : PipelineEvent F}
    (own : event.call = none) : pipeline.Allowed event := by
  cases event with
  | decode call => cases own
  | _ => trivial

end Answers

section Workers

variable {source : LoaderStore} {depth index : Nat} {layer : Int} {blockIds : List Int}
  {loader next : Loader} {event : LoaderEvent}

theorem slot_of_read
    (reads : (∃ index read bytes, event = .scribble index read bytes) ∨
      ∃ index read position, event = .finish index read position)
    (happens : loader.step source event = some next) :
    ∃ own iteration slot, event.drives own = true ∧
      loader.iterations[own]? = some iteration ∧ slot ∈ iteration.slots := by
  rcases reads with ⟨own, read, bytes, rfl⟩ | ⟨own, read, position, rfl⟩
  · obtain ⟨iteration, here, happens⟩ := Option.bind_eq_some_iff.mp happens
    obtain ⟨pending, under, _⟩ := Option.bind_eq_some_iff.mp happens
    exact ⟨own, iteration, pending.slot, by simp [LoaderEvent.drives], here,
      List.mem_append_left _ (List.mem_map_of_mem (List.mem_of_getElem? under))⟩
  · obtain ⟨iteration, here, happens⟩ := Option.bind_eq_some_iff.mp happens
    obtain ⟨pending, under, _⟩ := Option.bind_eq_some_iff.mp happens
    exact ⟨own, iteration, pending.slot, by simp [LoaderEvent.drives], here,
      List.mem_append_left _ (List.mem_map_of_mem (List.mem_of_getElem? under))⟩

theorem no_read_of_free (invariant : loader.Inv source depth)
    (free : loader.free.Perm (List.range depth))
    (reads : (∃ index read bytes, event = .scribble index read bytes) ∨
      ∃ index read position, event = .finish index read position) :
    loader.step source event = none := by
  cases happens : loader.step source event with
  | none => rfl
  | some next =>
      obtain ⟨own, iteration, slot, _, here, held⟩ := slot_of_read reads happens
      have taken : slot ∈ loader.iterations.flatMap Iteration.slots :=
        List.mem_flatMap.mpr ⟨iteration, List.mem_of_getElem? here, held⟩
      have inside := invariant.inside slot (List.mem_append_right _ taken)
      have unused := free.mem_iff.mpr (List.mem_range.mpr inside)
      exact absurd rfl ((List.nodup_append.mp invariant.distinct).2.2 slot unused slot taken)

theorem drives_of_read (driven : Driven source depth layer blockIds index loader)
    (reads : (∃ index read bytes, event = .scribble index read bytes) ∨
      ∃ index read position, event = .finish index read position)
    (happens : loader.step source event = some next) : event.drives index = true := by
  obtain ⟨own, iteration, slot, drives, here, held⟩ := slot_of_read reads happens
  obtain ⟨invariant, current, there, piped⟩ := driven
  by_cases same : own = index
  · exact same ▸ drives
  · have distinct := invariant.distinct
    have apart := (flatMap_eraseIdx (f := Iteration.slots) there).append_left loader.free
    have nodup := apart.nodup_iff.mp distinct
    rw [← List.append_assoc] at nodup
    have other : slot ∈ (loader.iterations.eraseIdx index).flatMap Iteration.slots := by
      refine List.mem_flatMap.mpr ⟨iteration, ?_, held⟩
      exact List.mem_eraseIdx_iff_getElem?.mpr ⟨own, same, here⟩
    have inside := invariant.inside slot (List.mem_append_right _
      (List.mem_flatMap.mpr ⟨iteration, List.mem_of_getElem? here, held⟩))
    have owned := piped.full.mem_iff.mpr (List.mem_range.mpr inside)
    exact absurd rfl ((List.nodup_append.mp nodup).2.2 slot owned slot other)

theorem received_step {iteration : Iteration} (own : event.drives index = true)
    (here : loader.iterations[index]? = some iteration) (sound : iteration.Sound source loader.heap)
    (happens : loader.step source event = some next) :
    ∃ after, next.iterations[index]? = some after ∧
      ((∃ block, event = .take index ∧ after.received = iteration.received ++ [block]) ∨
        after.received = iteration.received) := by
  rcases Loader.step_cases happens with ⟨_, _, rfl, _⟩ |
    ⟨other, moving, after, heap, free, moves, advance, rfl⟩
  · simp [LoaderEvent.drives] at own
  · cases advance.index_eq own
    rw [here] at moves
    cases moves
    refine ⟨after, Transition.party_set here after, ?_⟩
    cases advance with
    | start created started =>
        exact .inr (Iteration.start_submits created (sound.fresh created).1 started).received
    | resume yielded resumed => exact .inr (Iteration.resume_submits resumed).received
    | take waiting taken =>
        rcases Iteration.take_cases taken with ⟨_, rfl, _⟩ |
          ⟨front, rest, outcome, raw, _, _, _, ⟨raised, _, rfl, _⟩ |
            ⟨viewed, block, _, _, _, rfl⟩⟩
        · exact .inr rfl
        · exact .inr rfl
        · exact .inl ⟨block, rfl, rfl⟩
    | close suspended => simp [LoaderEvent.drives] at own
    | scribble here running slot sized => exact .inr rfl
    | finish here running slot ended => exact .inr rfl

end Workers

section Invariant

variable {F : Type} [AttentionArith F]

/-- A call under way over the blocks that it selects. -/
structure Underway (pipeline : KVSSDPipeline F) (depth : Nat) (loader : Loader)
    (decode : Decode F) (blocks : List PackedKVBlock) : Prop where
  selects : selectBlocks pipeline.source.store decode.call.layer decode.call.selector =
    .ok decode.selected
  driven : Driven pipeline.source depth decode.call.layer decode.selected decode.index loader
  reads : List.Forall₂ (pipeline.source.ReadsAs decode.call.layer) decode.selected blocks
  /-- What is staged has been received, and at most one chunk is not. -/
  staged : ∀ iteration, loader.iterations[decode.index]? = some iteration →
    decode.staged ≤ iteration.received.length ∧ (pipeline.streamed = true →
      ((iteration.received.drop decode.staged).length : Int) ≤ pipeline.stageBlocks)
  /-- What is left to do leads to the answer. -/
  leads : pipeline.streamed = true → pipeline.remaining decode.call.query decode.merged
    (blocks.drop decode.staged) = pipeline.answer decode.call.query blocks
  succeeds : pipeline.streamed = true →
    ∃ output, pipeline.answer decode.call.query blocks = .ok output

structure Inv (pipeline : KVSSDPipeline F) (depth : Nat) (state : PipelineState F) : Prop where
  loader : state.loader.Inv pipeline.source depth
  idle : state.current = none → state.loader.free.Perm (List.range depth)
  underway : ∀ decode, state.current = some decode →
    ∃ blocks, pipeline.Underway depth state.loader decode blocks
  answered : ∀ entry ∈ state.returned, pipeline.Answers entry.1 entry.2

/-- A selector chooses from the blocks of the layer. -/
theorem mem_of_selectBlocks {store : KVCacheStore} {layer : Int}
    {selector : Option BlockSelector} {selected : List Int}
    (selects : selectBlocks store layer selector = .ok selected) :
    selected ≠ [] ∧ ∀ blockId ∈ selected, blockId ∈ store.blocksForLayer layer := by
  obtain ⟨chosen, choice, checked⟩ := bind_eq_ok.mp selects
  obtain ⟨nonempty, result⟩ := passes_of_check checked
  obtain rfl := Except.ok.inj result
  refine ⟨nonempty, fun blockId member => ?_⟩
  cases kind : selector.getD (.all {}) with
  | all selector =>
      rw [kind] at choice
      obtain rfl := Except.ok.inj choice
      exact member
  | recentSink selector =>
      rw [kind] at choice
      obtain ⟨_, result⟩ := passes_of_check choice
      obtain rfl := Except.ok.inj result
      rcases List.mem_append.mp (mem_of_pyFromKeys member) with front | back
      · exact List.mem_of_mem_drop (List.mem_of_mem_take front)
      · split at back
        · cases back
        · exact List.mem_of_mem_drop (List.mem_of_mem_take back)

/-- Every block that a selector may choose can be read. -/
def Readable (pipeline : KVSSDPipeline F) : Prop :=
  ∀ layer selector selected, selectBlocks pipeline.source.store layer selector = .ok selected →
    ∀ blockId ∈ selected, pipeline.source.Readable layer blockId

variable {pipeline : KVSSDPipeline F} {depth : Nat} {state next : PipelineState F}
  {loader moved : Loader} {decode : Decode F} {blocks : List PackedKVBlock}
  (positive : 0 < depth)

omit [AttentionArith F] in
theorem Readable.reads (readable : pipeline.Readable) {layer : Int}
    {selector : Option BlockSelector} {selected : List Int}
    (selects : selectBlocks pipeline.source.store layer selector = .ok selected) :
    ∃ blocks, List.Forall₂ (pipeline.source.ReadsAs layer) selected blocks := by
  have each := readable layer selector selected selects
  clear selects
  induction selected with
  | nil => exact ⟨[], .nil⟩
  | cons blockId selected induction =>
      obtain ⟨block, reads⟩ := each blockId (by simp)
      obtain ⟨blocks, rest⟩ := induction fun other member => each other (by simp [member])
      exact ⟨block :: blocks, .cons reads rest⟩

theorem Underway.readable (underway : pipeline.Underway depth loader decode blocks) :
    ∀ blockId ∈ decode.selected, pipeline.source.Readable decode.call.layer blockId := by
  intro blockId member
  obtain ⟨position, inside, rfl⟩ := List.getElem_of_mem member
  exact ⟨_, (List.forall₂_iff_get.mp underway.reads).2 position inside
    (by rw [← underway.reads.length_eq]; exact inside)⟩

include positive in
theorem Underway.deref (underway : pipeline.Underway depth loader decode blocks)
    {iteration : Iteration} (here : loader.iterations[decode.index]? = some iteration)
    (skipped : Nat) :
    pipeline.deref loader.heap (iteration.received.drop skipped) =
      .ok ((blocks.take iteration.received.length).drop skipped) := by
  obtain ⟨_, same, pipe⟩ := underway.driven.pipe underway.reads positive
  obtain rfl := Option.some.inj (here.symm.trans same)
  have denoted := congrArg (List.drop skipped) pipe.received
  rw [← List.map_drop, ← List.map_drop] at denoted
  exact mapM_of_map_ok denoted

include positive in
/-- The generator goes on, and the call with it. -/
theorem Underway.advance (underway : pipeline.Underway depth loader decode blocks)
    {iteration : Iteration} (here : loader.iterations[decode.index]? = some iteration)
    {event : LoaderEvent} (own : event.drives decode.index = true)
    (room : event = .take decode.index → ¬ pipeline.full decode iteration)
    (happens : loader.step pipeline.source event = some moved) :
    pipeline.Underway depth moved decode blocks := by
  have sound := underway.driven.invariant.sound _ (List.mem_of_getElem? here)
  obtain ⟨after, there, received⟩ := received_step own here sound happens
  obtain ⟨staged, few⟩ := underway.staged iteration here
  refine ⟨underway.selects, (underway.driven.step underway.readable positive own happens).1,
    underway.reads, ?_, underway.leads, underway.succeeds⟩
  intro same present
  obtain rfl := Option.some.inj (there.symm.trans present)
  rcases received with ⟨block, takes, longer⟩ | same
  · rw [longer, List.length_append]
    refine ⟨by omega, fun streams => ?_⟩
    have bound := few streams
    have short : ¬ ((iteration.received.drop decode.staged).length : Int) = pipeline.stageBlocks :=
      fun full => room takes ⟨streams, full⟩
    rw [List.drop_append_of_le_length staged, List.length_append, List.length_singleton]
    omega
  · rw [same]
    exact ⟨staged, few⟩

/-- A call begins with all slots free. -/
theorem Inv.begin (inv : pipeline.Inv depth state) (readable : pipeline.Readable)
    {call : DecodeCall F} {selected : List Int} (idle : state.current = none)
    (allowed : pipeline.Allowed (.decode call))
    (selects : selectBlocks pipeline.source.store call.layer call.selector = .ok selected)
    (atLeast : 1 ≤ pipeline.stageBlocks)
    (creates : state.loader.step pipeline.source (.iterBlocks call.layer selected) =
      some loader) :
    ∃ blocks, pipeline.Underway depth loader
      ⟨call, selected, state.loader.iterations.length, 0, none⟩ blocks := by
  have invariant := inv.loader.step creates
  obtain ⟨blocks, reads⟩ := readable.reads selects
  cases creates
  refine ⟨blocks, selects, ⟨invariant, _, List.getElem?_concat_length .., ?_,
    .inl ⟨rfl, rfl, rfl⟩⟩, reads, ?_, ?_, fun streams => allowed streams selected blocks selects
      reads⟩
  · simpa [Iteration.slots] using inv.idle idle
  · intro iteration here
    obtain rfl := Option.some.inj ((List.getElem?_concat_length ..).symm.trans here)
    exact ⟨Nat.zero_le _, fun _ => by simp; omega⟩
  · intro streams
    rw [List.drop_zero, remaining_none, answer, if_pos streams]

include positive in
/-- A staged chunk is the next part of the blocks, and what is left is shorter by it. -/
theorem Underway.chunk (underway : pipeline.Underway depth loader decode blocks)
    {iteration : Iteration} (here : loader.iterations[decode.index]? = some iteration)
    (stages : pipeline.Stages decode iteration) (atLeast : 1 ≤ pipeline.stageBlocks) :
    ∃ merged, (pipeline.deref loader.heap (iteration.received.drop decode.staged)).bind
        (pipeline.runChunk decode) = .ok merged ∧
      pipeline.Underway depth loader { decode with
        staged := iteration.received.length
        merged := some merged } blocks := by
  obtain ⟨_, same, pipe⟩ := underway.driven.pipe underway.reads positive
  obtain rfl := Option.some.inj (here.symm.trans same)
  obtain ⟨staged, few⟩ := underway.staged iteration here
  have streams : pipeline.streamed = true := by
    rcases stages with full | ended
    · exact full.1
    · exact ended.1
  have inside : iteration.received.length ≤ blocks.length := by
    have lengths := congrArg List.length pipe.received
    simp only [List.length_map, List.length_take] at lengths
    omega
  obtain ⟨part, partEq⟩ : ∃ part, part =
      (blocks.take iteration.received.length).drop decode.staged := ⟨_, rfl⟩
  have partLength : part.length = (iteration.received.drop decode.staged).length := by
    rw [partEq, List.length_drop, List.length_drop, List.length_take, Nat.min_eq_left inside]
  have split : blocks.drop decode.staged = part ++ blocks.drop iteration.received.length := by
    rw [partEq, ← List.drop_append_of_le_length, List.take_append_drop]
    rw [List.length_take, Nat.min_eq_left inside]
    exact staged
  have cut : chunks (blocks.drop decode.staged) pipeline.stageBlocks =
      part :: chunks (blocks.drop iteration.received.length) pipeline.stageBlocks := by
    rw [split]
    by_cases full : (part.length : Int) = pipeline.stageBlocks
    · exact chunks_full atLeast full
    · rcases stages with ⟨_, whole⟩ | ⟨_, ended, left⟩
      · exact absurd (partLength ▸ whole) full
      · have none : blocks.drop iteration.received.length = [] := by
          rw [(pipe.exhausted ended).1, List.drop_length]
        have bound := few streams
        rw [← partLength] at bound
        have nonempty : part ≠ [] := by
          rintro rfl
          rw [List.length_drop, List.length_nil] at partLength
          omega
        rw [none, List.append_nil, chunks_rest nonempty (by omega)]
        rfl
  have continues := underway.leads streams
  rw [pipeline.remaining_chunk cut] at continues
  obtain ⟨output, success⟩ := underway.succeeds streams
  rw [success] at continues
  obtain ⟨merged, runs, rest⟩ := bind_eq_ok.mp continues
  refine ⟨merged, ?_, underway.selects, underway.driven, underway.reads, ?_, ?_,
    underway.succeeds⟩
  · rw [underway.deref positive here, ← partEq]
    exact runs
  · intro other there
    obtain rfl := Option.some.inj (here.symm.trans there)
    refine ⟨Nat.le_refl _, fun _ => ?_⟩
    rw [List.drop_length, List.length_nil]
    omega
  · intro _
    exact rest.trans success.symm

include positive in
/-- A call whose generator has ended returns its answer. -/
theorem Underway.returns (underway : pipeline.Underway depth loader decode blocks)
    {iteration : Iteration} (here : loader.iterations[decode.index]? = some iteration)
    (ended : iteration.phase = .finished)
    (staged : pipeline.streamed = true → decode.staged = iteration.received.length) :
    pipeline.result decode (pipeline.deref loader.heap iteration.received) =
        pipeline.answer decode.call.query blocks ∧
      loader.free.Perm (List.range depth) := by
  obtain ⟨_, same, pipe⟩ := underway.driven.pipe underway.reads positive
  obtain rfl := Option.some.inj (here.symm.trans same)
  obtain ⟨all, free⟩ := pipe.exhausted ended
  refine ⟨?_, free⟩
  by_cases streams : pipeline.streamed = true
  · have continues := underway.leads streams
    rw [staged streams, all, List.drop_length] at continues
    rw [← continues, result, if_pos streams]
    rfl
  · have denoted := underway.deref positive here 0
    rw [List.drop_zero, List.drop_zero, all, List.take_length] at denoted
    rw [result, if_neg streams, denoted, answer, if_neg streams, ok_bind]

omit [AttentionArith F] in
theorem stacked_of_ordered (ordered : pipeline.Ordered) {iteration : Iteration}
    (stages : pipeline.Stages decode iteration) {torn : Option (List PackedKVBlock)}
    (tears : torn ≠ none → pipeline.device = .cuda) (heap : List Buffer) (refs : List BlockRef) :
    pipeline.stacked torn heap refs = pipeline.deref heap refs := by
  have streams : pipeline.streamed = true := by
    rcases stages with full | ended
    · exact full.1
    · exact ended.1
  cases torn with
  | none => rfl
  | some blocks =>
      have host := ordered streams
      rw [tears (by simp)] at host
      cases host

theorem close_of_finished {source : LoaderStore} {index : Nat} {iteration : Iteration}
    (here : loader.iterations[index]? = some iteration) (ended : iteration.phase = .finished) :
    (loader.step source (.close index)).getD loader = loader := by
  simp [Loader.step, here, ended]

include positive in
theorem Inv.step (inv : pipeline.Inv depth state) (readable : pipeline.Readable)
    (ordered : pipeline.Ordered) (atLeast : 1 ≤ pipeline.stageBlocks) {event : PipelineEvent F}
    (allowed : pipeline.Allowed event) (happens : pipeline.step state event = some next) :
    pipeline.Inv depth next := by
  cases step_cases happens with
  | @refuse call raised idle refused =>
      refine ⟨inv.loader, inv.idle, inv.underway, ?_⟩
      intro entry member
      rcases List.mem_append.mp member with old | new
      · exact inv.answered entry old
      · obtain rfl := List.mem_singleton.mp new
        constructor
        · intro other same
          rw [refused] at same
          cases same
          rfl
        · intro selected selects
          rw [refused] at selects
          cases selects
  | @begin call selected loader idle selects creates =>
      have begun := inv.begin readable idle allowed selects atLeast creates
      refine ⟨inv.loader.step creates, ?_, ?_, inv.answered⟩
      · intro idle
        cases idle
      · intro decode current
        cases current
        exact begun
  | @consume decode iteration event loader current here own room moves =>
      have drives : event.drives decode.index = true := by
        rcases own with rfl | rfl
        · simp [LoaderEvent.drives]
        · simp [LoaderEvent.drives]
      refine ⟨inv.loader.step moves, fun idle => by simp [current] at idle, ?_, inv.answered⟩
      intro other present
      obtain rfl := Option.some.inj (current.symm.trans present)
      obtain ⟨blocks, underway⟩ := inv.underway decode current
      exact ⟨blocks, underway.advance positive here drives (fun _ => room) moves⟩
  | @work event loader reads moves =>
      refine ⟨inv.loader.step moves, ?_, ?_, inv.answered⟩
      · intro idle
        rw [no_read_of_free inv.loader (inv.idle idle) reads] at moves
        cases moves
      · intro decode current
        obtain ⟨blocks, underway⟩ := inv.underway decode current
        obtain ⟨iteration, here, _⟩ := underway.driven.current
        refine ⟨blocks, underway.advance positive here
          (drives_of_read underway.driven reads moves) ?_ moves⟩
        rintro rfl
        rcases reads with ⟨_, _, _, other⟩ | ⟨_, _, _, other⟩
        · cases other
        · cases other
  | @merge decode iteration merged torn current here stages tears merges =>
      rw [stacked_of_ordered ordered stages tears] at merges
      refine ⟨inv.loader, fun idle => (by cases idle), ?_, inv.answered⟩
      intro other present
      cases present
      obtain ⟨blocks, underway⟩ := inv.underway decode current
      obtain ⟨same, runs, after⟩ := underway.chunk positive here stages atLeast
      rw [merges] at runs
      cases runs
      exact ⟨blocks, after⟩
  | @fail decode iteration raised torn current here stages tears fails =>
      rw [stacked_of_ordered ordered stages tears] at fails
      obtain ⟨blocks, underway⟩ := inv.underway decode current
      obtain ⟨same, runs, _⟩ := underway.chunk positive here stages atLeast
      rw [fails] at runs
      cases runs
  | @raise decode iteration raised current here phase =>
      obtain ⟨blocks, underway⟩ := inv.underway decode current
      obtain ⟨_, same, pipe⟩ := underway.driven.pipe underway.reads positive
      obtain rfl := Option.some.inj (here.symm.trans same)
      exact absurd phase (pipe.quiet raised)
  | @returns decode iteration current here phase staged =>
      obtain ⟨blocks, underway⟩ := inv.underway decode current
      obtain ⟨answers, free⟩ := underway.returns positive here phase staged
      have kept := @close_of_finished state.loader pipeline.source _ _ here phase
      refine ⟨?_, fun _ => ?_, fun _ current => (by cases current), ?_⟩
      · rw [finish, kept]
        exact inv.loader
      · rw [finish, kept]
        exact free
      · intro entry member
        rcases List.mem_append.mp member with old | new
        · exact inv.answered entry old
        · obtain rfl := List.mem_singleton.mp new
          constructor
          · intro raised refused
            rw [underway.selects] at refused
            cases refused
          · intro selected selects
            rw [underway.selects] at selects
            cases selects
            exact ⟨blocks, underway.reads, answers⟩

theorem step_calls {event : PipelineEvent F} (happens : pipeline.step state event = some next) :
    next.calls = state.calls ++ event.call.toList := by
  unfold PipelineState.calls
  cases step_cases happens with
  | refuse idle refused => simp [idle, PipelineEvent.call]
  | begin idle selects creates => simp [idle, PipelineEvent.call]
  | consume current here own room moves => simp [PipelineEvent.call]
  | work reads moves => simp [PipelineEvent.call]
  | merge current here stages tears merges => simp [current, PipelineEvent.call]
  | fail current here stages tears fails => simp [current, finish, PipelineEvent.call]
  | raise current here phase => simp [current, finish, PipelineEvent.call]
  | returns current here phase staged => simp [current, finish, PipelineEvent.call]

theorem run_calls {events : List (PipelineEvent F)}
    (reached : Transition.run pipeline.step state events = some next) :
    next.calls = state.calls ++ events.filterMap PipelineEvent.call := by
  induction events generalizing state with
  | nil =>
      cases reached
      simp
  | cons event events induction =>
      obtain ⟨middle, happens, rest⟩ := Transition.run_cons.mp reached
      rw [induction rest, step_calls happens, List.filterMap_cons]
      cases event.call with
      | none => simp
      | some call => simp

/-- A bound on the busy events to come before the call returns. -/
def work (state : PipelineState F) : Nat :=
  match state.current with
  | none => 0
  | some decode =>
      state.loader.work decode.index + (decode.selected.length - decode.staged) + 1

/-- The busy events that a call may take. -/
def credit (pipeline : KVSSDPipeline F) : PipelineEvent F → Nat
  | .decode call =>
      match selectBlocks pipeline.source.store call.layer call.selector with
      | .ok selected => 4 * selected.length + 3
      | .error _ => 0
  | _ => 0

omit [AttentionArith F] in
theorem credit_of_call {event : PipelineEvent F} (own : event.call = none) :
    pipeline.credit event = 0 := by
  cases event with
  | decode call => cases own
  | _ => rfl

include positive in
theorem Underway.received_le (underway : pipeline.Underway depth loader decode blocks)
    {iteration : Iteration} (here : loader.iterations[decode.index]? = some iteration) :
    iteration.received.length ≤ decode.selected.length := by
  obtain ⟨_, same, pipe⟩ := underway.driven.pipe underway.reads positive
  obtain rfl := Option.some.inj (here.symm.trans same)
  have lengths := congrArg List.length pipe.received
  simp only [List.length_map, List.length_take] at lengths
  have count := underway.reads.length_eq
  omega

include positive in
theorem Inv.work (inv : pipeline.Inv depth state) (atLeast : 1 ≤ pipeline.stageBlocks)
    {event : PipelineEvent F} (happens : pipeline.step state event = some next) :
    KVSSDPipeline.work next + (if event.busy then 1 else 0) ≤
      KVSSDPipeline.work state + pipeline.credit event := by
  cases step_cases happens with
  | refuse idle refused => simp [KVSSDPipeline.work, idle, PipelineEvent.busy]
  | @begin call selected loader idle selects creates =>
      cases creates
      have fresh : Loader.work state.loader.iterations.length ⟨state.loader.heap,
          state.loader.free, state.loader.iterations ++
            [⟨call.layer, selected, selected, [], .created, []⟩]⟩ = 3 * selected.length + 2 := by
        simp [Loader.work, Iteration.work, Phase.nextIds]
      simp only [KVSSDPipeline.work, idle, credit, selects, PipelineEvent.busy, fresh]
      simp
      omega
  | @consume decode iteration event loader current here own room moves =>
      have drives : event.drives decode.index = true := by
        rcases own with rfl | rfl
        · simp [LoaderEvent.drives]
        · simp [LoaderEvent.drives]
      obtain ⟨blocks, underway⟩ := inv.underway decode current
      have less := (underway.driven.step underway.readable positive drives moves).2
      change _ + (if event.busy = true then 1 else 0) ≤ _
      simp only [KVSSDPipeline.work, current]
      omega
  | @work event loader reads moves =>
      cases current : state.current with
      | none =>
          rw [no_read_of_free inv.loader (inv.idle current) reads] at moves
          cases moves
      | some decode =>
          obtain ⟨blocks, underway⟩ := inv.underway decode current
          have less := (underway.driven.step underway.readable positive
            (drives_of_read underway.driven reads moves) moves).2
          change _ + (if event.busy = true then 1 else 0) ≤ _
          simp only [KVSSDPipeline.work, current]
          omega
  | @merge decode iteration merged torn current here stages tears merges =>
      obtain ⟨blocks, underway⟩ := inv.underway decode current
      have inside := underway.received_le positive here
      have longer : decode.staged < iteration.received.length := by
        rcases stages with ⟨_, full⟩ | ⟨_, _, left⟩
        · rw [List.length_drop] at full
          omega
        · exact left
      simp only [KVSSDPipeline.work, current, credit, PipelineEvent.busy, if_true]
      omega
  | fail current here stages tears fails =>
      simp only [KVSSDPipeline.work, current, finish, PipelineEvent.busy, if_true]
      omega
  | raise current here phase =>
      simp only [KVSSDPipeline.work, current, finish, PipelineEvent.busy, if_true]
      omega
  | returns current here phase staged =>
      simp only [KVSSDPipeline.work, current, finish, PipelineEvent.busy, if_true]
      omega

/-- As long as a call is under way, something can happen. -/
theorem Inv.progress (inv : pipeline.Inv depth state) (current : state.current = some decode) :
    ∃ event next, event.busy = true ∧ pipeline.step state event = some next := by
  obtain ⟨blocks, underway⟩ := inv.underway decode current
  obtain ⟨iteration, here, _⟩ := underway.driven.current
  by_cases stages : pipeline.Stages decode iteration
  · cases runs : (pipeline.deref state.loader.heap (iteration.received.drop decode.staged)).bind
        (pipeline.runChunk decode) with
    | error raised =>
        refine ⟨.chunk none, pipeline.finish state decode (.error raised), rfl, ?_⟩
        simp [KVSSDPipeline.step, current, here, stages, stacked, runs]
    | ok merged =>
        refine ⟨.chunk none, { state with current := some { decode with
          staged := iteration.received.length
          merged := some merged } }, rfl, ?_⟩
        simp [KVSSDPipeline.step, current, here, stages, stacked, runs]
  · by_cases ended : iteration.phase = .finished
    · have staged : pipeline.streamed = true → decode.staged = iteration.received.length := by
        intro streams
        have bound := (underway.staged iteration here).1
        by_contra different
        exact stages (.inr ⟨streams, ended, by omega⟩)
      refine ⟨.answer, pipeline.finish state decode (pipeline.result decode
        (pipeline.deref state.loader.heap iteration.received)), rfl, ?_⟩
      simp [KVSSDPipeline.step, current, here, ended]
      exact staged
    · obtain ⟨event, loader, own, busy, happens⟩ := underway.driven.progress here ended
      have room : ¬ pipeline.full decode iteration := fun full => stages (.inl full)
      refine ⟨.loader event, { state with loader := loader }, busy, ?_⟩
      cases event with
      | iterBlocks layer blockIds => simp [LoaderEvent.drives] at own
      | close index => simp [LoaderEvent.drives] at own
      | next index =>
          obtain rfl : index = decode.index := by simpa [LoaderEvent.drives] using own
          simp [KVSSDPipeline.step, KVSSDPipeline.step.consume, KVSSDPipeline.step.work,
            current, here, room, happens]
      | take index =>
          obtain rfl : index = decode.index := by simpa [LoaderEvent.drives] using own
          simp [KVSSDPipeline.step, KVSSDPipeline.step.consume, KVSSDPipeline.step.work,
            current, here, room, happens]
      | scribble index read bytes => simp [KVSSDPipeline.step, KVSSDPipeline.step.work, happens]
      | finish index read position => simp [KVSSDPipeline.step, KVSSDPipeline.step.work, happens]

include positive in
/-- A call under way can be brought to its end. -/
theorem Inv.finishes (inv : pipeline.Inv depth state) (readable : pipeline.Readable)
    (ordered : pipeline.Ordered) (atLeast : 1 ≤ pipeline.stageBlocks) :
    ∃ events final, (∀ event ∈ events, event.call = none) ∧
      Transition.run pipeline.step state events = some final ∧ final.current = none := by
  obtain ⟨events, final, own, reached, _, ended⟩ := @Transition.exists_run_until _ _
    pipeline.step (pipeline.Inv depth) (fun state => state.current = none)
    (fun event => event.call = none) KVSSDPipeline.work
    (fun state event next own inv happens =>
      inv.step positive readable ordered atLeast (Allowed.of_call own) happens)
    (by
      intro state inv
      cases current : state.current with
      | none => exact Or.inl rfl
      | some decode =>
          obtain ⟨event, next, busy, happens⟩ := inv.progress current
          have own : event.call = none := by
            cases event with
            | decode call => cases busy
            | _ => rfl
          have less := inv.work positive atLeast happens
          rw [busy, if_pos rfl, credit_of_call own] at less
          exact Or.inr ⟨event, next, own, happens, less⟩)
    state inv
  exact ⟨events, final, own, reached, ended⟩

theorem init_cases {depth : Int} {first : PipelineState F}
    (made : pipeline.init depth = .ok first) : 1 ≤ depth ∧ 1 ≤ pipeline.stageBlocks ∧
      pipeline.Inv depth.toNat first ∧ first.current = none ∧ first.returned = [] := by
  obtain ⟨loader, created, made⟩ := bind_eq_ok.mp made
  obtain ⟨staged, made⟩ := passes_of_check made
  cases made
  obtain ⟨atLeast, free, _, _⟩ := Loader.init_cases created
  have invariant := Loader.inv_of_reachable created
    (rfl : Transition.run (Loader.step pipeline.source) loader [] = some loader)
  refine ⟨atLeast, by omega, ⟨invariant, fun _ => ?_, nofun, by simp⟩, rfl, rfl⟩
  rw [free]

theorem inv_of_reachable {depth : Int} {first : PipelineState F}
    {events : List (PipelineEvent F)} (made : pipeline.init depth = .ok first)
    (readable : pipeline.Readable) (ordered : pipeline.Ordered)
    (allowed : ∀ event ∈ events, pipeline.Allowed event)
    (reached : Transition.run pipeline.step first events = some state) :
    pipeline.Inv depth.toNat state := by
  obtain ⟨positive, atLeast, invariant, _⟩ := init_cases made
  exact Transition.invariant_of_allowed_run
    (fun _ _ _ permitted inv happens =>
      inv.step (by omega) readable ordered atLeast permitted happens) allowed invariant reached

end Invariant

end KVSSDPipeline

/-- In every run of calls that cannot fail, over readable blocks, however the reads go on, every
call returns its answer, in order, and within a bounded number of events; the next one finds all
slots free. -/
theorem calls_answered {F : Type} [AttentionArith F] {pipeline : KVSSDPipeline F} {depth : Int}
    {first state : PipelineState F} {events : List (PipelineEvent F)}
    (made : pipeline.init depth = .ok first) (readable : pipeline.Readable)
    (ordered : pipeline.Ordered) (allowed : ∀ event ∈ events, pipeline.Allowed event)
    (reached : Transition.run pipeline.step first events = some state) :
    (∀ entry ∈ state.returned, pipeline.Answers entry.1 entry.2) ∧
      state.calls = events.filterMap PipelineEvent.call ∧
      (state.current = none → state.loader.free.Perm (List.range depth.toNat)) ∧
      (state.current ≠ none →
        ∃ event next, event.busy = true ∧ pipeline.step state event = some next) ∧
      events.countP PipelineEvent.busy ≤ (events.map pipeline.credit).sum := by
  obtain ⟨positive, atLeast, invariant, idle, none_returned⟩ := KVSSDPipeline.init_cases made
  have inv := KVSSDPipeline.inv_of_reachable made readable ordered allowed reached
  refine ⟨inv.answered, ?_, inv.idle, ?_, ?_⟩
  · rw [KVSSDPipeline.run_calls reached, PipelineState.calls, idle, none_returned]
    rfl
  · intro current
    obtain ⟨decode, present⟩ := Option.ne_none_iff_exists'.mp current
    exact inv.progress present
  · have bound := Transition.busy_le_credit PipelineEvent.busy KVSSDPipeline.work pipeline.credit
      (fun _ _ _ permitted inv happens =>
        KVSSDPipeline.Inv.step (by omega) inv readable ordered atLeast permitted happens)
      (fun _ _ _ _ inv happens => KVSSDPipeline.Inv.work (by omega) inv atLeast happens)
      allowed invariant reached
    simp only [KVSSDPipeline.work, idle] at bound
    omega

/-- A pipeline over two records that stages every block by itself. -/
noncomputable def pairPipeline (first second : Bytes) : KVSSDPipeline ℝ :=
  ⟨pairSource (some .cuda) first second, ReferenceAttentionBackend.run, true, 1, fun _ => 1⟩

def pairCall : DecodeCall ℝ := ⟨⟨[2, 2], [1, 0, 0, 1], rfl⟩, 0, none⟩

section Pair

variable {first second : Bytes}

theorem blocksForLayer_pairSource (device : Option Device) :
    (pairSource device first second).store.blocksForLayer 0 = [0, 1] := by
  change ([0, 1] : List Int).mergeSort = [0, 1]
  exact List.mergeSort_of_pairwise (by decide)

theorem selectBlocks_pairSource (device : Option Device) :
    KVSSDPipeline.selectBlocks (pairSource device first second).store 0 none = .ok [0, 1] := by
  rw [KVSSDPipeline.selectBlocks, Option.getD_none, BlockSelector.select,
    blocksForLayer_pairSource]
  rfl

variable (zero : TinyRecord Zlib.crc32 (numberedBlock 0) first)
  (one : TinyRecord Zlib.crc32 (numberedBlock 1) second)

include zero one

theorem pairPipeline_readable : (pairPipeline first second).Readable := by
  intro layer selector selected selects blockId member
  obtain ⟨readsZero, readsOne⟩ := readsAs_pairSource (some .cuda) zero one
  have listed := (KVSSDPipeline.mem_of_selectBlocks selects).2 blockId member
  rw [KVCacheStore.blocksForLayer, List.mem_mergeSort] at listed
  obtain ⟨entry, known, rfl⟩ := List.mem_map.mp listed
  obtain ⟨known, here⟩ := List.mem_filter.mp known
  have front : entry = ⟨0, 0, 0, 4096, 1, 0⟩ ∨ entry = ⟨0, 1, 4096, 4096, 1, 0⟩ := by
    simpa [pairPipeline, pairSource] using known
  obtain rfl : entry.layer = layer := eq_of_beq here
  rcases front with rfl | rfl
  · exact ⟨_, readsZero⟩
  · exact ⟨_, readsOne⟩

theorem pairPipeline_reads {selected : List Int}
    (known : ∀ blockId ∈ selected, blockId = 0 ∨ blockId = 1) :
    List.Forall₂ ((pairPipeline first second).source.ReadsAs 0) selected
      (selected.map numberedBlock) := by
  obtain ⟨readsZero, readsOne⟩ := readsAs_pairSource (some .cuda) zero one
  rw [List.forall₂_map_right_iff, List.forall₂_same]
  intro blockId member
  rcases known blockId member with rfl | rfl
  · exact readsZero
  · exact readsOne

theorem pairPipeline_blocks {selected : List Int} {blocks : List PackedKVBlock}
    (known : ∀ blockId ∈ selected, blockId = 0 ∨ blockId = 1)
    (reads : List.Forall₂ ((pairPipeline first second).source.ReadsAs 0) selected blocks) :
    blocks = selected.map numberedBlock := by
  obtain ⟨_, _, _, slots⟩ := Loader.init_cases (init_pairSource (some .cuda) first second)
  obtain ⟨raw, _, slot⟩ := slots 0 (by decide)
  have own := pairPipeline_reads zero one known
  refine List.ext_get (by rw [← reads.length_eq, List.length_map]) fun index inside other => ?_
  have selectedInside : index < selected.length := by rwa [reads.length_eq]
  exact ((List.forall₂_iff_get.mp reads).2 index selectedInside inside).unique slot
    ((List.forall₂_iff_get.mp own).2 index selectedInside other)

omit zero one in
theorem pairPipeline_succeeds {selected : List Int} (nonempty : selected ≠ []) : ∃ output,
    (pairPipeline first second).answer pairCall.query (selected.map numberedBlock) =
      .ok output := by
  obtain ⟨tokens, heads, dim, width, groups, groupSize, cuts, _, headsEq, dimEq⟩ :=
    (⟨rfl, by decide, by decide⟩ : tinySpec.Packs).cuts
  obtain rfl : heads = 1 := Int.ofNat.inj headsEq.symm
  obtain rfl : dim = 2 := Int.ofNat.inj dimEq.symm
  have counted : ∀ block ∈ selected.map numberedBlock, block.Counted tinySpec := by
    intro block member
    obtain ⟨_, _, rfl⟩ := List.mem_map.mp member
    exact ⟨⟨rfl, rfl, rfl, rfl, rfl, rfl, rfl, rfl, rfl, rfl⟩, by change (0 : Int) < 1; decide,
      by change (1 : Int) ≤ 1; decide, by change FitsInt32 1; decide⟩
  obtain ⟨output, _, outputOk, _⟩ := decodeCudaStreamed_attends cuts
    (rfl : pairCall.query.shape = [2, 2]) (by decide) .cpu 1 (by simpa using nonempty) counted
    fun part (_ : part ∈ KVSSDPipeline.chunks _ 1) _ _ => rfl
  exact ⟨output, outputOk⟩

end Pair

/-- A streamed call over two slots that has returned. -/
theorem calls_answered_pair :
    ∃ pipeline : KVSSDPipeline ℝ, pipeline.streamed = true ∧ ∃ events state result,
      Transition.run pipeline.step ⟨⟨[tinySlot, tinySlot], [0, 1], []⟩, none, []⟩
        (.decode pairCall :: events) = some state ∧
      state.returned = [(pairCall, result)] ∧
      result = pipeline.answer pairCall.query [numberedBlock 0, numberedBlock 1] ∧
      state.loader.free.Perm [0, 1] ∧ events.countP PipelineEvent.busy ≤ 11 := by
  obtain ⟨first, zero⟩ := numberedRecord_exists Zlib.crc32 (by decide : FitsU32 0)
  obtain ⟨second, one⟩ := numberedRecord_exists Zlib.crc32 (by decide : FitsU32 1)
  have made : (pairPipeline first second).init 2 =
      .ok ⟨⟨[tinySlot, tinySlot], [0, 1], []⟩, none, []⟩ := rfl
  have readable := pairPipeline_readable zero one
  have ordered : (pairPipeline first second).Ordered := fun _ => rfl
  have selects := @selectBlocks_pairSource first second (some .cuda)
  have own : (pairPipeline first second).Allowed (.decode pairCall) := by
    intro _ selected blocks chosen reads
    obtain rfl := Except.ok.inj (selects.symm.trans chosen)
    rw [pairPipeline_blocks zero one (by decide) reads]
    exact pairPipeline_succeeds (by decide)
  have begins : (pairPipeline first second).step ⟨⟨[tinySlot, tinySlot], [0, 1], []⟩, none, []⟩
      (.decode pairCall) = some ⟨⟨[tinySlot, tinySlot], [0, 1],
        [⟨0, [0, 1], [0, 1], [], .created, []⟩]⟩, some ⟨pairCall, [0, 1], 0, 0, none⟩, []⟩ := by
    simp only [KVSSDPipeline.step, pairPipeline, pairCall, selects]
    rfl
  obtain ⟨_, atLeast, invariant, _⟩ := KVSSDPipeline.init_cases made
  obtain ⟨events, state, others, reached, idle⟩ := KVSSDPipeline.Inv.finishes (by decide)
    (invariant.step (by decide) readable ordered atLeast own begins) readable ordered atLeast
  have whole := Transition.run_cons.mpr ⟨_, begins, reached⟩
  obtain ⟨answered, calls, free, _, bound⟩ := calls_answered made readable ordered
    (by
      intro event member
      rcases List.mem_cons.mp member with rfl | member
      · exact own
      · exact .of_call (others event member)) whole
  have none_called : events.filterMap PipelineEvent.call = [] :=
    List.filterMap_eq_nil_iff.mpr others
  have none_credited : (events.map (pairPipeline first second).credit).sum = 0 :=
    List.sum_eq_zero fun credit member => by
      obtain ⟨event, known, rfl⟩ := List.mem_map.mp member
      exact KVSSDPipeline.credit_of_call (others event known)
  have spent : (pairPipeline first second).credit (.decode pairCall) = 11 := by
    simp only [KVSSDPipeline.credit, pairPipeline, pairCall, selects]
    rfl
  have one_call : state.returned.map Prod.fst = [pairCall] := by
    rw [PipelineState.calls, idle] at calls
    calc state.returned.map Prod.fst
      _ = state.returned.map Prod.fst ++ ([] : List (Decode ℝ)).map Decode.call :=
        (List.append_nil _).symm
      _ = pairCall :: events.filterMap PipelineEvent.call := calls
      _ = [pairCall] := by rw [none_called]
  obtain ⟨⟨call, result⟩, entries, same⟩ := List.map_eq_singleton_iff.mp one_call
  cases same
  have answers := answered (pairCall, result) (by rw [entries]; exact List.mem_singleton_self _)
  obtain ⟨blocks, reads, answer⟩ := answers.2 [0, 1] selects
  rw [pairPipeline_blocks zero one (by decide) reads] at answer
  refine ⟨pairPipeline first second, rfl, events, state, result, whole, entries, answer,
    free idle, ?_⟩
  rw [List.map_cons, List.sum_cons, none_credited, spent] at bound
  exact bound

end KVSSD

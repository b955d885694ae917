import KVSSD.AttentionRun
import KVSSD.LoaderPipe
import KVSSD.Pipeline
import KVSSD.Selectors

/-!
# Runs of the pipeline

`KVSSDPipeline.decode`, call after call.  A call selects blocks and takes them from a generator
whose reads run and end in any order meanwhile.  On a GPU every chunk is staged and merged as soon
as it is full, otherwise the backend runs once on all blocks.  Blocks whose slots lie on the GPU may
not be there yet when they are staged, so that such a call may stack anything.
-/

namespace KVSSD

open KVSSD.Python

/-- The loader of a pipeline allocates on `self.device`, which is `source.device`. -/
structure KVSSDPipeline (F : Type) where
  source : LoaderStore
  /-- `attention_backend.run`. -/
  run : Tensor F → PackedBatch → F → Except PyError (Tensor F × Tensor F)
  /-- The device is a GPU on which the backend is accelerated. -/
  streamed : Bool
  stageBlocks : Int
  /-- `1.0 / math.sqrt(head_dim)`. -/
  scale : Nat → F

/-- The arguments of a call of `decode`. -/
structure DecodeCall (F : Type) where
  query : Tensor F
  layer : Int
  selector : Option BlockSelector

/-- A call under way. `index` is the place of its generator, and `staged` says how many of the
blocks it was given have been staged. -/
structure Decode (F : Type) where
  call : DecodeCall F
  selected : List Int
  index : Nat
  staged : Nat
  merged : Option (Tensor F × Tensor F)

structure PipelineState (F : Type) where
  loader : Loader
  current : Option (Decode F)
  returned : List (DecodeCall F × Except PyError (Tensor F))

inductive PipelineEvent (F : Type) where
  | decode (call : DecodeCall F)
  /-- The consumer asks for a block or takes it, or a read goes on. -/
  | loader (event : LoaderEvent)
  /-- A chunk is staged, run and merged. On a GPU whose slots lie there too, the stack on the
  transfer stream does not wait for the last blocks to be detached, and may find other ones. -/
  | chunk (torn : Option (List PackedKVBlock))
  /-- The generator has ended, and the call returns. -/
  | answer

/-- The call that an event begins. -/
def PipelineEvent.call {F : Type} : PipelineEvent F → Option (DecodeCall F)
  | .decode call => some call
  | _ => none

/-- Every event of a call under way but a partial write of a read. -/
def PipelineEvent.busy {F : Type} : PipelineEvent F → Bool
  | .decode _ => false
  | .loader event => event.busy
  | .chunk _ => true
  | .answer => true

/-- The calls that were made, the one under way last. -/
def PipelineState.calls {F : Type} (state : PipelineState F) : List (DecodeCall F) :=
  state.returned.map Prod.fst ++ state.current.toList.map Decode.call

/-- `packed_attention` with a backend and a given scale. -/
def packedAttentionWith {F : Type}
    (run : Tensor F → PackedBatch → F → Except PyError (Tensor F × Tensor F)) (query : Tensor F)
    (blocks : List PackedKVBlock) (scale : F) : Except PyError (Tensor F) :=
  match blocks with
  | [] => .error (.valueError "at least one block is required")
  | first :: _ => do
      let batch ← stackBlocks blocks first.key.bits first.key.groupSize
      let (output, _) ← run query batch scale
      return output

namespace KVSSDPipeline

section Step

variable {F : Type} [AttentionArith F] (pipeline : KVSSDPipeline F)

def spec : CacheSpec := pipeline.source.spec

/-- The device of the blocks that the loader delivers. -/
def device : Device := pipeline.source.slotDevice

/-- Whatever is staged is there. -/
def Ordered : Prop := pipeline.streamed = true → pipeline.device = .cpu

/-- `1.0 / math.sqrt(query.shape[-1])`. -/
def smScale (query : Tensor F) : F := pipeline.scale (Tensor.lastDim query.shape)

/-- `__init__`. -/
def init (depth : Int) : Except PyError (PipelineState F) := do
  let loader ← Loader.init pipeline.source depth
  if pipeline.stageBlocks < 1 then .error (.valueError "stage_blocks must be positive")
  else return ⟨loader, none, []⟩

/-- The consumer has a chunk to stage before it asks for the next block. -/
def full (decode : Decode F) (iteration : Iteration) : Prop :=
  pipeline.streamed = true ∧
    ((iteration.received.drop decode.staged).length : Int) = pipeline.stageBlocks

instance (decode : Decode F) (iteration : Iteration) :
    Decidable (pipeline.full decode iteration) :=
  inferInstanceAs (Decidable (_ ∧ _))

/-- A chunk is full, or the generator has ended and left one. -/
def Stages (decode : Decode F) (iteration : Iteration) : Prop :=
  pipeline.full decode iteration ∨ pipeline.streamed = true ∧ iteration.phase = .finished ∧
    decode.staged < iteration.received.length

instance (decode : Decode F) (iteration : Iteration) :
    Decidable (pipeline.Stages decode iteration) :=
  inferInstanceAs (Decidable (_ ∨ _))

/-- The blocks of some references, as they are now. -/
def deref (heap : List Buffer) (refs : List BlockRef) : Except PyError (List PackedKVBlock) :=
  refs.mapM (BlockRef.deref pipeline.spec heap)

/-- The blocks that a chunk is staged from. -/
def stacked (torn : Option (List PackedKVBlock)) (heap : List Buffer) (refs : List BlockRef) :
    Except PyError (List PackedKVBlock) :=
  match torn with
  | none => pipeline.deref heap refs
  | some blocks => .ok blocks

/-- The call returns, and its generator is dropped. -/
def finish (state : PipelineState F) (decode : Decode F) (result : Except PyError (Tensor F)) :
    PipelineState F :=
  { loader := (state.loader.step pipeline.source (.close decode.index)).getD state.loader
    current := none
    returned := state.returned ++ [(decode.call, result)] }

/-- `_stage` on these blocks, the backend and the merge. -/
def runChunk (decode : Decode F) (blocks : List PackedKVBlock) :
    Except PyError (Tensor F × Tensor F) := do
  let current ← stage pipeline.spec pipeline.device blocks
  streamChunks.step pipeline.run decode.call.query (pipeline.smScale decode.call.query) current
    decode.merged

/-- What the call returns when its generator has ended. -/
def result (decode : Decode F) (blocks : Except PyError (List PackedKVBlock)) :
    Except PyError (Tensor F) :=
  if pipeline.streamed then
    match decode.merged with
    | none => .error (.valueError "selector returned no blocks")
    | some (output, _) => .ok output
  else do
    let blocks ← blocks
    packedAttentionWith pipeline.run decode.call.query blocks (pipeline.smScale decode.call.query)

def step (state : PipelineState F) : PipelineEvent F → Option (PipelineState F)
  | .decode call =>
      match state.current, selectBlocks pipeline.source.store call.layer call.selector with
      | some _, _ => none
      | none, .error raised =>
          some { state with returned := state.returned ++ [(call, .error raised)] }
      | none, .ok selected => do
          let loader ← state.loader.step pipeline.source (.iterBlocks call.layer selected)
          return { state with
            loader
            current := some ⟨call, selected, state.loader.iterations.length, 0, none⟩ }
  | .loader (.next index) => consume state index (.next index)
  | .loader (.take index) => consume state index (.take index)
  | .loader (.scribble index read bytes) => work state (.scribble index read bytes)
  | .loader (.finish index read position) => work state (.finish index read position)
  | .loader _ => none
  | .chunk torn => do
      let decode ← state.current
      let iteration ← state.loader.iterations[decode.index]?
      if pipeline.Stages decode iteration ∧ (torn ≠ none → pipeline.device = .cuda) then
        match (pipeline.stacked torn state.loader.heap
            (iteration.received.drop decode.staged)).bind (pipeline.runChunk decode) with
        | .error raised => some (pipeline.finish state decode (.error raised))
        | .ok merged => some { state with
            current := some { decode with
              staged := iteration.received.length
              merged := some merged } }
      else none
  | .answer => do
      let decode ← state.current
      let iteration ← state.loader.iterations[decode.index]?
      match iteration.phase with
      | .raised raised => some (pipeline.finish state decode (.error raised))
      | .finished =>
          if pipeline.streamed = true → decode.staged = iteration.received.length then
            some (pipeline.finish state decode (pipeline.result decode
              (pipeline.deref state.loader.heap iteration.received)))
          else none
      | _ => none
where
  /-- A worker goes on with a read. -/
  work (state : PipelineState F) (event : LoaderEvent) : Option (PipelineState F) := do
    let loader ← state.loader.step pipeline.source event
    return { state with loader }
  /-- The call goes on with its own generator, unless it has a chunk to stage. -/
  consume (state : PipelineState F) (index : Nat) (event : LoaderEvent) :
      Option (PipelineState F) := do
    let decode ← state.current
    let iteration ← state.loader.iterations[decode.index]?
    if index = decode.index ∧ ¬ pipeline.full decode iteration then work state event else none

end Step

section Cases

variable {F : Type} [AttentionArith F] {pipeline : KVSSDPipeline F} {state next : PipelineState F}

inductive Proceeds (pipeline : KVSSDPipeline F) (state : PipelineState F) :
    PipelineEvent F → PipelineState F → Prop where
  | refuse {call : DecodeCall F} {raised : PyError} (idle : state.current = none)
      (refused : selectBlocks pipeline.source.store call.layer call.selector = .error raised) :
      Proceeds pipeline state (.decode call)
        { state with returned := state.returned ++ [(call, .error raised)] }
  | begin {call : DecodeCall F} {selected : List Int} {loader : Loader}
      (idle : state.current = none)
      (selects : selectBlocks pipeline.source.store call.layer call.selector = .ok selected)
      (creates : state.loader.step pipeline.source (.iterBlocks call.layer selected) =
        some loader) :
      Proceeds pipeline state (.decode call) { state with
        loader := loader
        current := some ⟨call, selected, state.loader.iterations.length, 0, none⟩ }
  | consume {decode : Decode F} {iteration : Iteration} {event : LoaderEvent} {loader : Loader}
      (current : state.current = some decode)
      (here : state.loader.iterations[decode.index]? = some iteration)
      (own : event = .next decode.index ∨ event = .take decode.index)
      (room : ¬ pipeline.full decode iteration)
      (happens : state.loader.step pipeline.source event = some loader) :
      Proceeds pipeline state (.loader event) { state with loader := loader }
  | work {event : LoaderEvent} {loader : Loader}
      (reads : (∃ index read bytes, event = .scribble index read bytes) ∨
        ∃ index read position, event = .finish index read position)
      (happens : state.loader.step pipeline.source event = some loader) :
      Proceeds pipeline state (.loader event) { state with loader := loader }
  | merge {decode : Decode F} {iteration : Iteration} {merged : Tensor F × Tensor F}
      {torn : Option (List PackedKVBlock)}
      (current : state.current = some decode)
      (here : state.loader.iterations[decode.index]? = some iteration)
      (stages : pipeline.Stages decode iteration)
      (tears : torn ≠ none → pipeline.device = .cuda)
      (merges : (pipeline.stacked torn state.loader.heap
        (iteration.received.drop decode.staged)).bind (pipeline.runChunk decode) = .ok merged) :
      Proceeds pipeline state (.chunk torn) { state with current := some { decode with
        staged := iteration.received.length
        merged := some merged } }
  | fail {decode : Decode F} {iteration : Iteration} {raised : PyError}
      {torn : Option (List PackedKVBlock)}
      (current : state.current = some decode)
      (here : state.loader.iterations[decode.index]? = some iteration)
      (stages : pipeline.Stages decode iteration)
      (tears : torn ≠ none → pipeline.device = .cuda)
      (fails : (pipeline.stacked torn state.loader.heap
        (iteration.received.drop decode.staged)).bind (pipeline.runChunk decode) =
          .error raised) :
      Proceeds pipeline state (.chunk torn) (pipeline.finish state decode (.error raised))
  | raise {decode : Decode F} {iteration : Iteration} {raised : PyError}
      (current : state.current = some decode)
      (here : state.loader.iterations[decode.index]? = some iteration)
      (phase : iteration.phase = .raised raised) :
      Proceeds pipeline state .answer (pipeline.finish state decode (.error raised))
  | returns {decode : Decode F} {iteration : Iteration} (current : state.current = some decode)
      (here : state.loader.iterations[decode.index]? = some iteration)
      (phase : iteration.phase = .finished)
      (staged : pipeline.streamed = true → decode.staged = iteration.received.length) :
      Proceeds pipeline state .answer (pipeline.finish state decode (pipeline.result decode
        (pipeline.deref state.loader.heap iteration.received)))

theorem step_cases {event : PipelineEvent F} (happens : pipeline.step state event = some next) :
    pipeline.Proceeds state event next := by
  have consumes : ∀ {index : Nat} {event : LoaderEvent},
      (event = .next index ∨ event = .take index) →
      step.consume pipeline state index event = some next →
      pipeline.Proceeds state (.loader event) next := by
    intro index event own happens
    obtain ⟨decode, current, happens⟩ := Option.bind_eq_some_iff.mp happens
    obtain ⟨iteration, here, happens⟩ := Option.bind_eq_some_iff.mp happens
    obtain ⟨⟨rfl, room⟩, takes⟩ := Option.ite_none_right_eq_some.mp happens
    obtain ⟨loader, moves, result⟩ := Option.bind_eq_some_iff.mp takes
    cases result
    exact .consume current here own room moves
  have works : ∀ {event : LoaderEvent},
      ((∃ index read bytes, event = .scribble index read bytes) ∨
        ∃ index read position, event = .finish index read position) →
      step.work pipeline state event = some next →
      pipeline.Proceeds state (.loader event) next := by
    intro event reads happens
    obtain ⟨loader, moves, result⟩ := Option.bind_eq_some_iff.mp happens
    cases result
    exact .work reads moves
  cases event with
  | decode call =>
      simp only [step] at happens
      split at happens
      · cases happens
      · rename_i idle refused
        cases happens
        exact .refuse idle refused
      · rename_i selected idle selects
        obtain ⟨loader, creates, result⟩ := Option.bind_eq_some_iff.mp happens
        cases result
        exact .begin idle selects creates
  | loader event =>
      cases event with
      | iterBlocks layer blockIds => cases happens
      | next index => exact consumes (.inl rfl) happens
      | take index => exact consumes (.inr rfl) happens
      | close index => cases happens
      | scribble index read bytes => exact works (.inl ⟨index, read, bytes, rfl⟩) happens
      | finish index read position =>
          exact works (.inr ⟨index, read, position, rfl⟩) happens
  | chunk torn =>
      obtain ⟨decode, current, happens⟩ := Option.bind_eq_some_iff.mp happens
      obtain ⟨iteration, here, happens⟩ := Option.bind_eq_some_iff.mp happens
      obtain ⟨⟨stages, tears⟩, happens⟩ := Option.ite_none_right_eq_some.mp happens
      split at happens
      · rename_i raised fails
        cases happens
        exact .fail current here stages tears fails
      · rename_i merged merges
        cases happens
        exact .merge current here stages tears merges
  | answer =>
      obtain ⟨decode, current, happens⟩ := Option.bind_eq_some_iff.mp happens
      obtain ⟨iteration, here, happens⟩ := Option.bind_eq_some_iff.mp happens
      split at happens
      · rename_i raised phase
        cases happens
        exact .raise current here phase
      · rename_i phase
        obtain ⟨staged, happens⟩ := Option.ite_none_right_eq_some.mp happens
        cases happens
        exact .returns current here phase staged
      · cases happens

end Cases

end KVSSDPipeline

end KVSSD

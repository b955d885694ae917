import KVSSD.Lib.Streams
import KVSSD.PipelineDecode

/-!
# The streams of a streamed decode

What `_decode_cuda_streamed`, `_stage` and `iter_blocks` put on the streams of a GPU, call after
call.  Reads run on worker threads, blocks are detached by the host or on the stream of the caller,
chunks are staged on the transfer stream and run and merged on the compute stream, and only events
hold them back.  `_stage` asks for the current stream where that is the transfer stream already, so
this stream waits for itself.  Every tensor has memory of its own, except that detached blocks lie
where the allocator puts them.
-/

namespace KVSSD

open KVSSD.Python KVSSD.Struct KVSSD.Streams

namespace DecodeStreams

/-- The streams, and the worker threads as one queue for each slot. -/
inductive Queue where
  | caller
  | transfer
  | compute
  | reads (slot : Nat)
  deriving DecidableEq

/-- What the host issues. Blocks are numbered through all calls, and a chunk has the number of its
last block. -/
inductive Command where
  /-- `query.to(self.device)`. -/
  | query (call : Nat)
  /-- `store.read_into` into the slot of the block. -/
  | read (block : Nat)
  /-- `future.result()`. -/
  | result (block : Nat)
  /-- The record is decoded, and its four payloads are cloned. -/
  | detach (block : Nat)
  /-- `slot.reuse_event.record`. -/
  | reuse (block : Nat)
  /-- `slot.reuse_event.synchronize()`. -/
  | synchronize (block : Nat)
  /-- The two halves of `self.transfer_stream.wait_stream`, whose argument is that stream itself. -/
  | mark (chunk : Nat)
  | follow (chunk : Nat)
  /-- The copies into pinned memory. -/
  | gather (first chunk : Nat)
  /-- `torch.stack` on the device, or the copies from pinned memory. -/
  | transfer (first chunk : Nat)
  /-- `event.record(self.transfer_stream)`. -/
  | ready (chunk : Nat)
  | callerReady (call : Nat)
  /-- `self.compute_stream.wait_event(caller_ready)`. -/
  | begin (call : Nat)
  /-- `self.compute_stream.wait_event(ready)`. -/
  | proceed (chunk : Nat)
  /-- `self.attention_backend.run` and the merge. -/
  | attend (call first chunk : Nat)
  | done (call : Nat)
  /-- `caller.wait_event(done)`. -/
  | join (call : Nat)
  /-- `merged_out.to(query.dtype)`. -/
  | output (call : Nat)
  deriving DecidableEq

/-- One block of a call: the number of the call, its first block, how many blocks it has, and the
place of this one. -/
structure Spot where
  call : Nat
  start : Nat
  count : Nat
  index : Nat
  deriving DecidableEq

namespace Spot

def block (spot : Spot) : Nat := spot.start + spot.index

/-- The first block of the chunk. -/
def first (size : Nat) (spot : Spot) : Nat := spot.start + spot.index / size * size

/-- A chunk ends here. -/
def Ends (size : Nat) (spot : Spot) : Prop := size ∣ spot.index + 1 ∨ spot.index + 1 = spot.count

instance (size : Nat) (spot : Spot) : Decidable (spot.Ends size) :=
  inferInstanceAs (Decidable (_ ∨ _))

/-- The call returns. -/
def epilogue (spot : Spot) : List Command :=
  if spot.index + 1 = spot.count then [.done spot.call, .join spot.call, .output spot.call] else []

end Spot

/-- The blocks of all calls, from the number of blocks of each. -/
def spots (call start : Nat) : List Nat → List Spot
  | [] => []
  | count :: counts =>
      (List.range count).map (⟨call, start, count, ·⟩) ++ spots (call + 1) (start + count) counts

/-- `io_depth`, `stage_blocks`, and whether the slots lie on the device. -/
structure Layout where
  depth : Nat
  size : Nat
  device : Bool

namespace Layout

variable (layout : Layout)

/-- `submit`. The slots are a queue, so a block gets the slot of the block `depth` places before. -/
def submit (block : Nat) : List Command :=
  (if layout.device ∧ layout.depth ≤ block then [.synchronize (block - layout.depth)] else []) ++
    [.read block]

/-- The call begins, and its generator submits the first reads. -/
def prologue (spot : Spot) : List Command :=
  if spot.index = 0 then
    .query spot.call :: (List.range (min layout.depth spot.count)).flatMap fun index =>
      layout.submit (spot.start + index)
  else []

/-- The generator takes a block from its slot. -/
def take (spot : Spot) : List Command :=
  [.result spot.block, .detach spot.block] ++
    if layout.device then [.reuse spot.block] else []

/-- `_stage`. -/
def stage (spot : Spot) : List Command :=
  (if layout.device then [.mark spot.block, .follow spot.block]
    else [.gather (spot.first layout.size) spot.block]) ++
    [.transfer (spot.first layout.size) spot.block, .ready spot.block]

/-- A full chunk is staged, and run and merged. -/
def chunk (spot : Spot) : List Command :=
  if spot.Ends layout.size then
    layout.stage spot ++
      (if spot.index / layout.size = 0 then [.callerReady spot.call, .begin spot.call] else []) ++
        [.proceed spot.block, .attend spot.call (spot.first layout.size) spot.block]
  else []

/-- The generator goes on behind its `yield`. -/
def refill (spot : Spot) : List Command :=
  if spot.index + layout.depth < spot.count then layout.submit (spot.block + layout.depth) else []

def commands (spot : Spot) : List Command :=
  layout.prologue spot ++ (layout.take spot ++ (layout.chunk spot ++
    (layout.refill spot ++ spot.epilogue)))

/-- The commands of calls with these numbers of blocks. -/
def order (counts : List Nat) : List Command := (spots 0 0 counts).flatMap layout.commands

/-- Where a command is put. -/
def queue : Command → Option Queue
  | .query _ => some .caller
  | .read block => some (.reads (block % layout.depth))
  | .result _ => none
  | .detach _ => if layout.device then some .caller else none
  | .reuse _ => some .caller
  | .synchronize _ => none
  | .mark _ => some .transfer
  | .follow _ => some .transfer
  | .gather _ _ => none
  | .transfer _ _ => some .transfer
  | .ready _ => some .transfer
  | .callerReady _ => some .caller
  | .begin _ => some .compute
  | .proceed _ => some .compute
  | .attend _ _ _ => some .compute
  | .done _ => some .compute
  | .join _ => some .caller
  | .output _ => some .caller

end Layout

/-- The event that a command waits for: a read, or the record of an event. -/
def waits : Command → List Command
  | .result block => [.read block]
  | .synchronize block => [.reuse block]
  | .follow chunk => [.mark chunk]
  | .begin call => [.callerReady call]
  | .proceed chunk => [.ready chunk]
  | .join call => [.done call]
  | _ => []

inductive Place where
  | query (call : Nat)
  | slot (slot : Nat)
  | block (address : Nat)
  | pinned (chunk : Nat)
  | staged (chunk : Nat)
  | merged (call : Nat)
  | output (call : Nat)
  deriving DecidableEq

/-- What lies in a place. Memory that is not filled yet holds nothing, and what an operation raises
is a value. -/
abbrev Content (F : Type) : Place → Type
  | .query _ => Option (Tensor F)
  | .slot _ => Buffer
  | .block _ => Option PackedKVBlock
  | .pinned _ => Option (Except PyError PackedBatch)
  | .staged _ => Option (Except PyError PackedBatch)
  | .merged _ => Option (Except PyError (Tensor F × Tensor F))
  | .output _ => Option (Except PyError (Tensor F))

abbrev Cells (F : Type) : Type := (place : Place) → Content F place

/-- Before the first call only the slots are there. -/
def Cells.initial {F : Type} (buffer : Buffer) : Cells F
  | .query _ => none
  | .slot _ => buffer
  | .block _ => none
  | .pinned _ => none
  | .staged _ => none
  | .merged _ => none
  | .output _ => none

/-- A call of `_decode_cuda_streamed`. -/
structure StreamCall (F : Type) where
  query : Tensor F
  layer : Int
  selected : List Int

/-- The calls of a pipeline, where the allocator puts the blocks that are detached, and where the
position of the descriptor is when a block is read. -/
structure Setting (F : Type) where
  pipeline : KVSSDPipeline F
  depth : Nat
  calls : List (StreamCall F)
  address : Nat → Nat
  position : Nat → Nat

namespace Setting

variable {F : Type} [AttentionArith F] (setting : Setting F)

def layout : Layout :=
  ⟨setting.depth, setting.pipeline.stageBlocks.toNat, setting.pipeline.device = .cuda⟩

/-- The layer and the id of every block, in order. -/
def blocks : List (Int × Int) :=
  setting.calls.flatMap fun call => call.selected.map (call.layer, ·)

def entry (block : Nat) : Option BlockEntry := do
  let (layer, blockId) ← setting.blocks[block]?
  (setting.pipeline.source.store.entry layer blockId).toOption

def load (block : Nat) (raw : Buffer) : Buffer :=
  match setting.entry block with
  | some entry => (setting.pipeline.source.backend.readInto (setting.position block) entry raw).1
  | none => raw

def decode (block : Nat) (raw : Buffer) : Option PackedKVBlock := do
  let entry ← setting.entry block
  (decodeSlot setting.pipeline.source.crc32 setting.pipeline.spec raw entry).toOption

/-- The batch of the blocks from `first` to `chunk`. -/
def batch (cells : Cells F) (first chunk : Nat) : Option (Except PyError PackedBatch) := do
  let blocks ← (List.range (chunk + 1 - first)).mapM fun index =>
    cells (.block (setting.address (first + index)))
  return KVSSDPipeline.stage setting.pipeline.spec setting.pipeline.device blocks

/-- One chunk, merged with what was there before. -/
def merge (query : Tensor F) (current : Except PyError PackedBatch)
    (merged : Option (Except PyError (Tensor F × Tensor F))) :
    Except PyError (Tensor F × Tensor F) := do
  let current ← current
  let merged ← merged.mapM id
  KVSSDPipeline.streamChunks.step setting.pipeline.run query (setting.pipeline.smScale query)
    current merged

def effect (command : Command) (cells : Cells F) : Cells F :=
  match command with
  | .query call =>
      Function.update cells (.query call) (setting.calls[call]?.map StreamCall.query)
  | .read block =>
      let slot := Place.slot (block % setting.depth)
      Function.update cells slot (setting.load block (cells slot))
  | .detach block =>
      Function.update cells (.block (setting.address block))
        (setting.decode block (cells (.slot (block % setting.depth))))
  | .gather first chunk =>
      Function.update cells (.pinned chunk) (setting.batch cells first chunk)
  | .transfer first chunk =>
      Function.update cells (.staged chunk)
        (if setting.layout.device then setting.batch cells first chunk else cells (.pinned chunk))
  | .attend call _ chunk =>
      Function.update cells (.merged call) (do
        let query ← cells (.query call)
        let current ← cells (.staged chunk)
        return setting.merge query current (cells (.merged call)))
  | .output call =>
      Function.update cells (.output call)
        ((cells (.merged call)).map fun merged => merged.map Prod.fst)
  | _ => cells

/-- How many blocks every call has. -/
def counts : List Nat := setting.calls.map fun call => call.selected.length

/-- The program of the host. -/
def program : Program Command Queue (Cells F) where
  order := setting.layout.order setting.counts
  stream := setting.layout.queue
  waits := waits
  effect := setting.effect

end Setting

end DecodeStreams

end KVSSD

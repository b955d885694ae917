import KVSSD.Store

/-!
# The block loader

`AsyncBlockLoader`: a bounded queue of I/O slots shared by all iterations, reads
that run on worker threads, and the generator `iter_blocks`.  Tensors are
locations in a heap of storages, so that a block that is a view into a slot and a
block that owns its bytes are different things.

A step is one event: the consumer creates an iteration, runs a generator up to
the next point where it waits or yields, or closes it, and a worker overwrites a
part of its slot or finishes its read.  Events may come in any order.
-/

namespace KVSSD

open KVSSD.Python KVSSD.Struct

/-- A range of one storage. -/
structure Location where
  address : Nat
  start : Int
  stop : Int
  deriving DecidableEq

/-- A block whose four tensors are locations. -/
structure BlockRef where
  layer : Int
  block : Int
  validTokens : Int
  keyScales : Location
  valueScales : Location
  keyPacked : Location
  valuePacked : Location
  deriving DecidableEq

/-- The bytes at a location. -/
def Location.bytes (location : Location) (heap : List Buffer) : Bytes :=
  match heap[location.address]? with
  | some storage => pySlice storage.bytes location.start location.stop
  | none => []

/-- The block a reference denotes. -/
def BlockRef.deref (spec : CacheSpec) (heap : List Buffer) (ref : BlockRef) :
    Except PyError PackedKVBlock := do
  let ks ← scaleTensor spec (ref.keyScales.bytes heap)
  let vs ← scaleTensor spec (ref.valueScales.bytes heap)
  let kp ← codeTensor spec (ref.keyPacked.bytes heap)
  let vp ← codeTensor spec (ref.valuePacked.bytes heap)
  let shape := spec.blockShape.map Int.toNat
  return ⟨ref.layer, ref.block, ref.validTokens,
    ⟨kp, ks, shape, spec.bits, spec.groupSize⟩,
    ⟨vp, vs, shape, spec.bits, spec.groupSize⟩⟩

/-- The views into a slot that a decoded block consists of. -/
def viewRecord (spec : CacheSpec) (slot : Nat) (viewed : PackedKVBlock) : BlockRef :=
  let scaleBytes := spec.scaleCount * 2
  let packedBytes := spec.packedCount
  let start : Int := Format.headerSize
  { layer := viewed.layer
    block := viewed.block
    validTokens := viewed.validTokens
    keyScales := ⟨slot, start, start + scaleBytes⟩
    valueScales := ⟨slot, start + scaleBytes, start + scaleBytes + scaleBytes⟩
    keyPacked := ⟨slot, start + scaleBytes + scaleBytes,
      start + scaleBytes + scaleBytes + packedBytes⟩
    valuePacked := ⟨slot, start + scaleBytes + scaleBytes + packedBytes,
      start + scaleBytes + scaleBytes + packedBytes + packedBytes⟩ }

/-- `tensor.clone()`: a fresh storage on the same device with the bytes of the
tensor. -/
def clone (memory : Memory) (heap : List Buffer) (location : Location) :
    List Buffer × Location :=
  let bytes := location.bytes heap
  let device := (heap[location.address]?.map Buffer.device).getD .cpu
  (heap ++ [⟨device, memory.address bytes.length, bytes⟩],
    ⟨heap.length, 0, bytes.length⟩)

/-- The detached copy of a block. -/
def cloneBlock (memory : Memory) (heap : List Buffer) (viewed : BlockRef) :
    List Buffer × BlockRef :=
  let (heap, keyPacked) := clone memory heap viewed.keyPacked
  let (heap, keyScales) := clone memory heap viewed.keyScales
  let (heap, valuePacked) := clone memory heap viewed.valuePacked
  let (heap, valueScales) := clone memory heap viewed.valueScales
  (heap, { viewed with keyScales, valueScales, keyPacked, valuePacked })

/-- `_decode_device_record`: views into the payload, with the identity taken from
the manifest. -/
def decodeDeviceRecord (spec : CacheSpec) (raw : Bytes) (entry : BlockEntry) :
    Except PyError PackedKVBlock :=
  decodePayload raw spec entry.layer entry.block entry.validTokens

/-- How `iter_blocks` decodes a slot. -/
def decodeSlot (crc32 : Bytes → UInt32) (spec : CacheSpec) (raw : Buffer)
    (entry : BlockEntry) : Except PyError PackedKVBlock :=
  if raw.device = .cpu then decodeRecord crc32 raw.bytes spec true
  else decodeDeviceRecord spec raw.bytes entry

/-- An entry of `pending`: the slot, the future of its read and the entry.  The
future is `none` while the read runs. -/
structure Pending where
  slot : Nat
  entry : BlockEntry
  future : Option (Except PyError Unit)
  deriving DecidableEq

/-- Where a generator stands. -/
inductive Phase where
  | created
  /-- Inside `next`, at the head of the `while` loop. -/
  | waiting
  /-- At the `yield`, with the slot of the yielded block and `next_id`. -/
  | yielded (slot : Nat) (nextId : Option Int)
  | finished
  | raised (error : PyError)
  | closed
  deriving DecidableEq

/-- One run of `iter_blocks`. `received` is what its consumer was given. -/
structure Iteration where
  layer : Int
  blockIds : List Int
  source : List Int
  pending : List Pending
  phase : Phase
  received : List BlockRef
  deriving DecidableEq

/-- The slots are the first storages of the heap; `free` is the queue of the
slots nobody uses. -/
structure Loader where
  heap : List Buffer
  free : List Nat
  iterations : List Iteration
  deriving DecidableEq

/-- What the loader uses of its store, and its argument `device`. -/
structure LoaderStore where
  crc32 : Bytes → UInt32
  memory : Memory
  file : Bytes
  store : KVCacheStore
  device : Option Device

namespace LoaderStore

def spec (source : LoaderStore) : CacheSpec := source.store.spec

def backend (source : LoaderStore) : StorageBackend :=
  source.store.kind.backend source.memory source.file

/-- The device of the slots. -/
def slotDevice (source : LoaderStore) : Device :=
  source.store.kind.bufferDevice source.device

end LoaderStore

namespace Loader

/-- `AsyncBlockLoader.__init__`. -/
def init (source : LoaderStore) (depth : Int) : Except PyError Loader :=
  if depth < 1 then .error (.valueError "depth must be positive")
  else do
    let slots ← (List.range depth.toNat).mapM fun _ =>
      source.backend.allocateBuffer source.device source.spec.recordBytes
    return ⟨slots, List.range depth.toNat, []⟩

end Loader

section Generator

variable (source : LoaderStore)

/-- `submit(block_id)`.  The slot is taken before the entry is looked up; `none`
stands for a `free.get()` that waits. -/
def Iteration.submit (iteration : Iteration) (blockId : Int) (free : List Nat) :
    Option (Iteration × List Nat) :=
  match free with
  | [] => none
  | slot :: free =>
      match source.store.entry iteration.layer blockId with
      | .error raised => some ({ iteration with phase := .raised raised }, free)
      | .ok entry =>
          some ({ iteration with pending := iteration.pending ++ [⟨slot, entry, none⟩] },
            free)

/-- The priming loop, with the number of rounds left. -/
def Iteration.prime : Nat → Iteration → List Nat → Option (Iteration × List Nat)
  | 0, iteration, free => some ({ iteration with phase := .waiting }, free)
  | count + 1, iteration, free =>
      match iteration.source with
      | [] =>
          some ({ iteration with
            phase := .raised (.runtimeError "generator raised StopIteration") }, free)
      | blockId :: rest => do
          let (iteration, free) ←
            { iteration with source := rest }.submit source blockId free
          match iteration.phase with
          | .raised _ => some (iteration, free)
          | _ => Iteration.prime count iteration free

/-- The first `next`: prime the reads and enter the loop. -/
def Iteration.start (iteration : Iteration) (free : List Nat) :
    Option (Iteration × List Nat) :=
  iteration.prime source (min free.length iteration.blockIds.length) free

/-- A later `next`: give the slot back, submit `next_id` and enter the loop. -/
def Iteration.resume (iteration : Iteration) (slot : Nat) (nextId : Option Int)
    (free : List Nat) : Option (Iteration × List Nat) :=
  let iteration := { iteration with phase := .waiting }
  match nextId with
  | none => some (iteration, free ++ [slot])
  | some blockId => iteration.submit source blockId (free ++ [slot])

/-- The body of the loop up to the `yield`; `none` stands for a
`future.result()` that waits. -/
def Iteration.take (iteration : Iteration) (heap : List Buffer) :
    Option (Iteration × List Buffer) :=
  match iteration.pending with
  | [] => some ({ iteration with phase := .finished }, heap)
  | front :: rest =>
      let iteration := { iteration with pending := rest }
      match front.future, heap[front.slot]? with
      | none, _ => none
      | _, none => none
      | some (.error raised), _ => some ({ iteration with phase := .raised raised }, heap)
      | some (.ok ()), some raw =>
          match decodeSlot source.crc32 source.spec raw front.entry with
          | .error raised => some ({ iteration with phase := .raised raised }, heap)
          | .ok viewed =>
              let (heap, block) := cloneBlock source.memory heap
                (viewRecord source.spec front.slot viewed)
              some ({ iteration with
                source := iteration.source.tail
                phase := .yielded front.slot iteration.source.head?
                received := iteration.received ++ [block] }, heap)

inductive LoaderEvent where
  /-- Create a generator. -/
  | iterBlocks (layer : Int) (blockIds : List Int)
  /-- `next` up to the head of the loop. -/
  | next (iteration : Nat)
  /-- From the head of the loop to the `yield`, the end or an exception. -/
  | take (iteration : Nat)
  /-- `close`, or the generator is dropped. -/
  | close (iteration : Nat)
  /-- A running read overwrites bytes of its slot. -/
  | scribble (iteration read : Nat) (bytes : Bytes)
  /-- A running read ends, with the descriptor at some position. -/
  | finish (iteration read position : Nat)

/-- Set the outcome of one read. -/
def Iteration.settle (iteration : Iteration) (read : Nat) (pending : Pending)
    (outcome : Except PyError Unit) : Iteration :=
  { iteration with
    pending := iteration.pending.set read { pending with future := some outcome } }

/-- One event; `none` when it cannot happen in this state. -/
def Loader.step (loader : Loader) : LoaderEvent → Option Loader
  | .iterBlocks layer blockIds =>
      some { loader with
        iterations := loader.iterations ++ [⟨layer, blockIds, blockIds, [], .created, []⟩] }
  | .next index => do
      let iteration ← loader.iterations[index]?
      let (iteration, free) ← match iteration.phase with
        | .created => iteration.start source loader.free
        | .yielded slot nextId => iteration.resume source slot nextId loader.free
        | _ => none
      return { loader with free, iterations := loader.iterations.set index iteration }
  | .take index => do
      let iteration ← loader.iterations[index]?
      let (iteration, heap) ← match iteration.phase with
        | .waiting => iteration.take source loader.heap
        | _ => none
      return { loader with heap, iterations := loader.iterations.set index iteration }
  | .close index => do
      let iteration ← loader.iterations[index]?
      match iteration.phase with
      | .created | .yielded _ _ =>
          return { loader with
            iterations := loader.iterations.set index { iteration with phase := .closed } }
      | _ => none
  | .scribble index read bytes => do
      let iteration ← loader.iterations[index]?
      let pending ← iteration.pending[read]?
      let raw ← loader.heap[pending.slot]?
      if pending.future = none ∧ bytes.length = raw.bytes.length then
        return { loader with heap := loader.heap.set pending.slot { raw with bytes } }
      else none
  | .finish index read position => do
      let iteration ← loader.iterations[index]?
      let pending ← iteration.pending[read]?
      let raw ← loader.heap[pending.slot]?
      if pending.future = none then
        let (raw, outcome) := source.backend.readInto position pending.entry raw
        return { loader with
          heap := loader.heap.set pending.slot raw
          iterations := loader.iterations.set index (iteration.settle read pending outcome) }
      else none

end Generator

end KVSSD

import KVSSD.VllmCodec
import KVSSD.VllmFiles
import KVSSD.Lib.Transition

/-!
# The vLLM tier

`KVSSDSecondaryTierManager` as an event-driven system: the calls of its methods, the jobs and
lookups its thread pool runs, and the files and primary slots they work on. What a method does under
the lock is one event, except for `get_finished_jobs`, whose loop tests one future after the other
while jobs go on, and `drain_jobs`, which holds the lock only in parts.  The pool accepts every
submission and may run its jobs in any order.
-/

namespace KVSSD

open KVSSD.Python KVSSD.Struct

/-- `collections.Counter`: a key without an entry counts zero. -/
abbrev Counter := List (Bytes × Int)

namespace Counter

def count (counter : Counter) (key : Bytes) : Int := (counter.lookup key).getD 0

def add (counter : Counter) (key : Bytes) (amount : Int) : Counter :=
  match counter with
  | [] => [(key, amount)]
  | (other, count) :: counter =>
      if other = key then (other, count + amount) :: counter
      else (other, count) :: add counter key amount

/-- `counter.update(keys)`. -/
def update (counter : Counter) (keys : List Bytes) : Counter :=
  keys.foldl (fun counter key => counter.add key 1) counter

/-- `counter.subtract(keys)`. -/
def subtract (counter : Counter) (keys : List Bytes) : Counter :=
  keys.foldl (fun counter key => counter.add key (-1)) counter

/-- `counter += Counter()`, which drops what is not positive. -/
def keepPositive (counter : Counter) : Counter := counter.filter fun entry => 0 < entry.2

end Counter

inductive LookupResult where
  | hit
  | miss
  | retry
  deriving DecidableEq, Repr

structure JobResult where
  jobId : Int
  success : Bool
  deriving DecidableEq, Repr

/-- An entry of `_futures`. -/
structure JobEntry where
  future : Nat
  jobId : Int
  keys : List Bytes
  deriving DecidableEq, Repr

/-- An entry of `_lookup_futures`. -/
structure LookupEntry where
  request : String
  key : Bytes
  future : Nat
  deriving DecidableEq, Repr

structure JobMetadata where
  jobId : Int
  keys : List Bytes
  blockIds : List Int
  deriving DecidableEq, Repr

structure Manager where
  futures : List JobEntry
  lookupFutures : List LookupEntry
  inflightKeys : Counter
  deriving DecidableEq, Repr

namespace Manager

variable (manager : Manager)

/-- `_submit`, with the future the pool returns. -/
def submit (future : Nat) (job : JobMetadata) : Manager :=
  { manager with
    inflightKeys := manager.inflightKeys.update job.keys
    futures := manager.futures ++ [⟨future, job.jobId, job.keys⟩] }

/-- The cached lookup of a key for a request. -/
def cached (key : Bytes) (request : String) : Option LookupEntry :=
  manager.lookupFutures.find? fun entry => entry.request = request ∧ entry.key = key

/-- `lookup`, with the answers of the lookups that have run and the future the pool
returns for a new one. The last component says whether there is a new one. -/
def lookup (answers : Nat → Option Bool) (future : Nat) (key : Bytes) (request : String) :
    Manager × LookupResult × Bool :=
  if 0 < manager.inflightKeys.count key then (manager, .retry, false)
  else
    match manager.cached key request with
    | none =>
        ({ manager with lookupFutures := manager.lookupFutures ++ [⟨request, key, future⟩] },
          .retry, true)
    | some entry =>
        match answers entry.future with
        | none => (manager, .retry, false)
        | some found =>
            ({ manager with lookupFutures := manager.lookupFutures.erase entry },
              if found then .hit else .miss, false)

/-- One round of the loop of `get_finished_jobs`: the outcome of a job is there
when its future is done. -/
def reapOne (entry : JobEntry) (outcome : Option Bool) : Manager × List JobResult :=
  match outcome with
  | none => (manager, [])
  | some success =>
      ({ manager with
          futures := manager.futures.filter fun other => other.future ≠ entry.future
          inflightKeys := (manager.inflightKeys.subtract entry.keys).keepPositive },
        [⟨entry.jobId, success⟩])

def onRequestFinished (request : String) : Manager :=
  { manager with
    lookupFutures := manager.lookupFutures.filter fun entry => entry.request ≠ request }

/-- `_lookup_futures.clear()`. -/
def clearLookups : Manager := { manager with lookupFutures := [] }

/-- `has_pending_work`, with the answers of the lookups that have run. -/
def hasPendingWork (answers : Nat → Option Bool) : Bool :=
  !manager.futures.isEmpty ||
    manager.lookupFutures.any fun entry => (answers entry.future).isNone

end Manager

/-- The configuration of a tier: where its records lie, how blocks are encoded, and
the size of a primary slot. -/
structure TierConfig where
  root : List String
  space : String
  bits : Int
  groupSize : Int
  dtype : Dtype
  blockBytes : Nat

/-- What jobs work on: the files, the primary cache, and for the record the slot
contents that store jobs have encoded for each key. -/
structure TierData where
  files : FileSystem
  primary : Bytes
  encoded : List (Bytes × Bytes)

namespace TierConfig

variable (config : TierConfig)

/-- `_path`. -/
def path (key : Bytes) : Except PyError FilePath := recordPath config.root key config.space

/-- The bounds of a slot in the primary cache. -/
def slotStart (primary : Bytes) (block : Int) : Nat :=
  sliceBound primary.length (block * config.blockBytes)

def slotStop (primary : Bytes) (block : Int) : Nat :=
  sliceBound primary.length (block * config.blockBytes + config.blockBytes)

/-- `_block_view`, read. -/
def blockView (primary : Bytes) (block : Int) : Bytes :=
  pySlice primary (block * config.blockBytes) (block * config.blockBytes + config.blockBytes)

/-- `_block_view`, overwritten. -/
def writeBlock (primary : Bytes) (block : Int) (contents : Bytes) : Bytes :=
  primary.take (config.slotStart primary block) ++ contents ++
    primary.drop (config.slotStop primary block)

end TierConfig

inductive Transfer where
  | store
  | load
  deriving DecidableEq, Repr

/-- Where a job stands inside its loop: between two rounds, in a call of
`store_record_atomic`, or between reading a record and decoding it into a slot. -/
inductive Place where
  | next
  | publishing (publication : Publication)
  | loading (raw : Bytes) (block : Int)
  deriving DecidableEq, Repr

/-- A future of the pool: it waits for a worker, runs there with the rounds that are
left, or has returned or raised. -/
inductive Work where
  | queued
  | running (worker : Worker) (items : List (Bytes × Int)) (place : Place)
  | done (success : Bool)
  deriving DecidableEq, Repr

structure Task where
  transfer : Transfer
  job : JobMetadata
  work : Work
  deriving DecidableEq, Repr

namespace Work

def onWorker (worker : Worker) : Work → Bool
  | .running own _ _ => own = worker
  | _ => false

/-- The outcome of a future that is done: whether its function returned. -/
def outcome : Work → Option Bool
  | .done success => some success
  | _ => none

end Work

/-- Where a job stands after an operation of its publication. -/
def Outcome.work (worker : Worker) (items : List (Bytes × Int)) : Outcome → Work
  | .going after => .running worker items (.publishing after)
  | .returned => .running worker items .next
  | .raised => .done false

section Jobs

variable (F : Type) [arith : QuantArith F] [formats : DtypeArith F] (crc32 : Bytes → UInt32)
  (config : TierConfig)

/-- The head of a round of `_store_job`, up to the call of `store_record_atomic`. -/
def storeRound (worker : Worker) (items : List (Bytes × Int)) (key : Bytes) (block : Int)
    (data : TierData) : TierData × Work :=
  match config.path key with
  | .error _ => (data, .done false)
  | .ok path =>
      let view := config.blockView data.primary block
      match encodeVllmBlock F crc32 view config.bits config.groupSize config.dtype with
      | .error _ => (data, .done false)
      | .ok record =>
          ({ data with encoded := data.encoded ++ [(key, view)] },
            .running worker items (.publishing ⟨path, record, .entered⟩))

/-- The head of a round of `_load_job`: the record is read. -/
def loadRound (worker : Worker) (items : List (Bytes × Int)) (key : Bytes) (block : Int)
    (data : TierData) : TierData × Work :=
  match config.path key with
  | .error _ => (data, .done false)
  | .ok path =>
      match data.files path with
      | none => (data, .done false)
      | some raw => (data, .running worker items (.loading raw block))

/-- What is left of a round of `_load_job`: the record is decoded into the slot. -/
def loadBlock (worker : Worker) (items : List (Bytes × Int)) (raw : Bytes) (block : Int)
    (data : TierData) : TierData × Work :=
  match decodeVllmBlock F crc32 raw (config.blockView data.primary block) with
  | .error _ => (data, .done false)
  | .ok (contents, _) =>
      ({ data with primary := config.writeBlock data.primary block contents },
        .running worker items .next)

/-- One operation of a call of `store_record_atomic`. -/
def publishStep (worker : Worker) (items : List (Bytes × Int)) (publication : Publication)
    (size : Nat) (data : TierData) : TierData × Work :=
  let (files, outcome) := publication.step worker size data.files
  ({ data with files := files }, outcome.work worker items)

/-- The next step of a job that runs. -/
def Task.step (task : Task) (size : Nat) (data : TierData) : Option (TierData × Work) :=
  match task.work with
  | .running _ [] .next => some (data, .done true)
  | .running worker ((key, block) :: items) .next =>
      match task.transfer with
      | .store => some (storeRound F crc32 config worker items key block data)
      | .load => some (loadRound config worker items key block data)
  | .running worker items (.publishing publication) =>
      some (publishStep worker items publication size data)
  | .running worker items (.loading raw block) =>
      some (loadBlock F crc32 config worker items raw block data)
  | .queued | .done _ => none

/-- An exception in a job that runs. -/
def Task.fault (task : Task) : Option Work :=
  match task.work with
  | .running worker items (.publishing publication) =>
      some (publication.fault.work worker items)
  | .running _ _ .next | .running _ _ (.loading _ _) => some (.done false)
  | .queued | .done _ => none

end Jobs

/-- Where a lookup in the pool stands: it waits for a worker, `is_file` has returned there, or its
future is done. -/
inductive Look where
  | queued
  | looked (found : Bool)
  | done (found : Bool)
  deriving DecidableEq, Repr

/-- A lookup in the pool: `is_file` of a path. -/
structure Probe where
  path : FilePath
  look : Look
  deriving DecidableEq, Repr

namespace Probe

/-- What `is_file` has returned. -/
def seen (probe : Probe) : Option Bool :=
  match probe.look with
  | .queued => none
  | .looked found | .done found => some found

/-- The result of the future when it is done. -/
def answer (probe : Probe) : Option Bool :=
  match probe.look with
  | .done found => some found
  | .queued | .looked _ => none

end Probe

/-- A result of `get_finished_jobs`, with the future it is about. -/
structure Report where
  future : Nat
  result : JobResult
  deriving DecidableEq, Repr

def Report.jobId (report : Report) : Int := report.result.jobId

/-- A call of `get_finished_jobs`: the call of `drain_jobs` it belongs to, the futures
still to test and the results so far. -/
structure Reap where
  drain : Option Nat
  pending : List JobEntry
  finished : List Report
  deriving DecidableEq, Repr

/-- Where a call of `drain_jobs` stands. -/
inductive Drain where
  | looping
  | waiting (futures lookups : List Nat)
  | reaping
  | clearing
  | returned
  deriving DecidableEq, Repr

/-- What a call of `lookup` has answered. -/
structure Answer where
  key : Bytes
  request : String
  result : LookupResult
  deriving DecidableEq, Repr

/-- The state of the tier. A future of a job is its place among the tasks, a future of
a lookup its place among the probes. The lock is held while there is a reap. -/
structure Tier where
  manager : Manager
  tasks : List Task
  probes : List Probe
  reap : Option Reap
  drains : List Drain
  data : TierData
  returned : List Report
  answers : List Answer

namespace Tier

def outcome (tier : Tier) (future : Nat) : Option Bool :=
  tier.tasks[future]?.bind fun task => task.work.outcome

def answered (tier : Tier) (future : Nat) : Option Bool :=
  tier.probes[future]?.bind Probe.answer

/-- What the lookup of a future has seen, done or not. -/
def looked (tier : Tier) (future : Nat) : Option Bool :=
  tier.probes[future]?.bind Probe.seen

/-- A task moves on. -/
def setWork (tier : Tier) (future : Nat) (work : Work) : Tier :=
  { tier with tasks := tier.tasks.modify future fun task => { task with work := work } }

def setDrain (tier : Tier) (call : Nat) (stage : Drain) : Tier :=
  { tier with drains := tier.drains.set call stage }

end Tier

inductive Event where
  /-- `submit_store` or `submit_load`. -/
  | submit (transfer : Transfer) (job : JobMetadata)
  /-- The pool gives a job to a worker. -/
  | start (future : Nat) (worker : Worker)
  | work (future : Nat) (size : Nat)
  | fault (future : Nat)
  | lookup (key : Bytes) (request : String)
  /-- A worker runs a lookup, and its future gets the result. -/
  | probe (future : Nat)
  | answer (future : Nat)
  | requestFinished (request : String)
  /-- `get_finished_jobs` is called, tests a future, and returns. -/
  | getFinished
  | reapOne
  | release
  /-- `drain_jobs` is called, and moves on. -/
  | drain
  | drainStep (call : Nat)
  /-- Another manager of the same configuration stores a block under a key. -/
  | foreign (key contents : Bytes)
  /-- The engine changes the primary cache. -/
  | modify (primary : Bytes)
  deriving DecidableEq, Repr

namespace Tier

variable (F : Type) [arith : QuantArith F] [formats : DtypeArith F] (crc32 : Bytes → UInt32)
  (config : TierConfig)

/-- A call of `lookup`. The path is computed only for a new lookup, and a key that is
too short raises there. -/
def lookup (tier : Tier) (key : Bytes) (request : String) : Tier :=
  let (manager, result, fresh) :=
    tier.manager.lookup tier.answered tier.probes.length key request
  let answered := tier.answers ++ [⟨key, request, result⟩]
  if fresh then
    match config.path key with
    | .error _ => tier
    | .ok path =>
        { tier with
          manager := manager, answers := answered, probes := tier.probes ++ [⟨path, .queued⟩] }
  else { tier with manager := manager, answers := answered }

/-- The next step of a call of `drain_jobs`. -/
def drainStep (tier : Tier) (call : Nat) : Drain → Option Tier
  | .looping =>
      if tier.manager.futures = [] ∧ tier.manager.lookupFutures = [] then
        some (tier.setDrain call .returned)
      else
        some (tier.setDrain call (.waiting (tier.manager.futures.map JobEntry.future)
          (tier.manager.lookupFutures.map LookupEntry.future)))
  | .waiting futures lookups =>
      if (∀ future ∈ futures, (tier.outcome future).isSome) ∧
          ∀ future ∈ lookups, (tier.answered future).isSome then
        some (tier.setDrain call .reaping)
      else none
  | .reaping => some { tier with reap := some ⟨some call, tier.manager.futures, []⟩ }
  | .clearing =>
      some { tier with manager := tier.manager.clearLookups
                       drains := tier.drains.set call .looping }
  | .returned => none

def step (tier : Tier) : Event → Option Tier
  | .submit transfer job =>
      if tier.reap = none then
        some { tier with
          manager := tier.manager.submit tier.tasks.length job
          tasks := tier.tasks ++ [⟨transfer, job, .queued⟩] }
      else none
  | .start future worker =>
      match tier.tasks[future]? with
      | some ⟨_, job, .queued⟩ =>
          if ∀ other ∈ tier.tasks, other.work.onWorker worker = false then
            some (tier.setWork future (.running worker (job.keys.zip job.blockIds) .next))
          else none
      | _ => none
  | .work future size => do
      let task ← tier.tasks[future]?
      let (data, work) ← task.step F crc32 config size tier.data
      return { tier.setWork future work with data := data }
  | .fault future => do
      let task ← tier.tasks[future]?
      let work ← task.fault
      return tier.setWork future work
  | .lookup key request =>
      if tier.reap = none then some (tier.lookup config key request) else none
  | .probe future =>
      match tier.probes[future]? with
      | some ⟨path, .queued⟩ =>
          some { tier with
            probes := tier.probes.set future ⟨path, .looked (tier.data.files path).isSome⟩ }
      | _ => none
  | .answer future =>
      match tier.probes[future]? with
      | some ⟨path, .looked found⟩ =>
          some { tier with probes := tier.probes.set future ⟨path, .done found⟩ }
      | _ => none
  | .requestFinished request =>
      if tier.reap = none then
        some { tier with manager := tier.manager.onRequestFinished request }
      else none
  | .getFinished =>
      if tier.reap = none then
        some { tier with reap := some ⟨none, tier.manager.futures, []⟩ }
      else none
  | .reapOne =>
      match tier.reap with
      | some ⟨drain, entry :: pending, finished⟩ =>
          let (manager, results) := tier.manager.reapOne entry (tier.outcome entry.future)
          some { tier with
            manager := manager
            reap := some ⟨drain, pending, finished ++ results.map (Report.mk entry.future)⟩ }
      | _ => none
  | .release =>
      match tier.reap with
      | some ⟨none, [], finished⟩ =>
          some { tier with reap := none, returned := tier.returned ++ finished }
      | some ⟨some call, [], _⟩ =>
          -- `drain_jobs` drops the results.
          some { tier with reap := none, drains := tier.drains.set call .clearing }
      | _ => none
  | .drain => some { tier with drains := tier.drains ++ [.looping] }
  | .drainStep call => do
      let stage ← tier.drains[call]?
      match stage with
      | .waiting _ _ => tier.drainStep call stage
      | _ => if tier.reap = none then tier.drainStep call stage else none
  | .foreign key contents =>
      match config.path key,
          encodeVllmBlock F crc32 contents config.bits config.groupSize config.dtype with
      | .ok path, .ok record =>
          if contents.length = config.blockBytes then
            some { tier with
              data := { tier.data with
                files := tier.data.files.put path (some record)
                encoded := tier.data.encoded ++ [(key, contents)] } }
          else none
      | _, _ => none
  | .modify primary =>
      if primary.length = tier.data.primary.length then
        some { tier with data := { tier.data with primary := primary } }
      else none

/-- The tier before the first call. -/
def initial (data : TierData) : Tier :=
  { manager := ⟨[], [], []⟩, tasks := [], probes := [], reap := none, drains := [],
    data := data, returned := [], answers := [] }

end Tier

/-- Slots of two half-precision values. -/
def tinyTier : TierConfig := ⟨["root"], "space", 4, 2, .float16, 4⟩

/-- Two slots of zeros and no record. -/
def tinyData : TierData := ⟨fun _ => none, List.replicate 8 0, []⟩

def tinyKey : Bytes := [1, 2, 3, 4, 5]

def tinyWorker : Worker := ⟨1, 1⟩

/-- A load of a record that does not exist runs and raises. -/
def missedLoad : List Event :=
  [.submit .load ⟨11, [tinyKey], [0]⟩, .start 0 tinyWorker, .work 0 0]

/-- A store and a load of one key, under a call of `drain_jobs`, until both are done. -/
def sharedJobs : List Event :=
  [.submit .store ⟨7, [tinyKey], [0]⟩, .submit .load ⟨8, [tinyKey], [1]⟩, .drain, .drainStep 0,
    .start 0 tinyWorker, .work 0 0, .work 0 0, .work 0 0, .work 0 5000, .work 0 0, .work 0 0,
    .work 0 0, .start 1 tinyWorker, .work 1 0, .work 1 0, .work 1 0]

/-- A store of the first slot that runs and returns. -/
def tinyStore : List Event :=
  [.submit .store ⟨7, [tinyKey], [0]⟩, .start 0 tinyWorker, .work 0 0, .work 0 0, .work 0 0,
    .work 0 5000, .work 0 0, .work 0 0, .work 0 0]

end KVSSD

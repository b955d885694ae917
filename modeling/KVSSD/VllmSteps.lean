import KVSSD.Vllm

/-!
# The steps of the tier

What an event can do, one case for each branch of the tier that takes it.  The effects
on jobs, lookups and reports are read off these cases.
-/

namespace KVSSD

open KVSSD.Python KVSSD.Struct

section Steps

variable (F : Type) [arith : QuantArith F] [formats : DtypeArith F] (crc32 : Bytes → UInt32)
  (config : TierConfig)

/-- What an event makes of the tier. -/
inductive Tier.Steps (tier : Tier) : Event → Tier → Prop where
  | submit {transfer : Transfer} {job : JobMetadata} (free : tier.reap = none) :
      Steps tier (.submit transfer job)
        { tier with
          manager := tier.manager.submit tier.tasks.length job
          tasks := tier.tasks ++ [⟨transfer, job, .queued⟩] }
  | start {future : Nat} {worker : Worker} {transfer : Transfer} {job : JobMetadata}
      (present : tier.tasks[future]? = some ⟨transfer, job, .queued⟩)
      (idle : ∀ other ∈ tier.tasks, other.work.onWorker worker = false) :
      Steps tier (.start future worker)
        (tier.setWork future (.running worker (job.keys.zip job.blockIds) .next))
  | work {future size : Nat} {task : Task} {data : TierData} {work : Work}
      (present : tier.tasks[future]? = some task)
      (moved : task.step F crc32 config size tier.data = some (data, work)) :
      Steps tier (.work future size) { tier.setWork future work with data := data }
  | fault {future : Nat} {task : Task} {work : Work}
      (present : tier.tasks[future]? = some task) (moved : task.fault = some work) :
      Steps tier (.fault future) (tier.setWork future work)
  | lookup {key : Bytes} {request : String} (free : tier.reap = none) :
      Steps tier (.lookup key request) (tier.lookup config key request)
  | probe {future : Nat} {path : FilePath}
      (present : tier.probes[future]? = some ⟨path, .queued⟩) :
      Steps tier (.probe future)
        { tier with
          probes := tier.probes.set future ⟨path, .looked (tier.data.files path).isSome⟩ }
  | answer {future : Nat} {path : FilePath} {found : Bool}
      (present : tier.probes[future]? = some ⟨path, .looked found⟩) :
      Steps tier (.answer future)
        { tier with probes := tier.probes.set future ⟨path, .done found⟩ }
  | requestFinished {request : String} (free : tier.reap = none) :
      Steps tier (.requestFinished request)
        { tier with manager := tier.manager.onRequestFinished request }
  | getFinished (free : tier.reap = none) :
      Steps tier .getFinished { tier with reap := some ⟨none, tier.manager.futures, []⟩ }
  | reapOne {drain : Option Nat} {entry : JobEntry} {pending : List JobEntry}
      {finished : List Report} (before : tier.reap = some ⟨drain, entry :: pending, finished⟩) :
      Steps tier .reapOne
        { tier with
          manager := (tier.manager.reapOne entry (tier.outcome entry.future)).1
          reap := some ⟨drain, pending, finished ++
            (tier.manager.reapOne entry (tier.outcome entry.future)).2.map
              (Report.mk entry.future)⟩ }
  | returns {finished : List Report} (before : tier.reap = some ⟨none, [], finished⟩) :
      Steps tier .release
        { tier with reap := none, returned := tier.returned ++ finished }
  | drops {call : Nat} {finished : List Report}
      (before : tier.reap = some ⟨some call, [], finished⟩) :
      Steps tier .release
        { tier with reap := none, drains := tier.drains.set call .clearing }
  | drain : Steps tier .drain { tier with drains := tier.drains ++ [.looping] }
  /-- `drain_jobs` leaves its loop. -/
  | leaves {call : Nat} (stage : tier.drains[call]? = some .looping) (free : tier.reap = none)
      (jobs : tier.manager.futures = []) (lookups : tier.manager.lookupFutures = []) :
      Steps tier (.drainStep call) (tier.setDrain call .returned)
  /-- It begins to wait for the futures it finds. -/
  | waits {call : Nat} (stage : tier.drains[call]? = some .looping) (free : tier.reap = none) :
      Steps tier (.drainStep call)
        (tier.setDrain call (.waiting (tier.manager.futures.map JobEntry.future)
          (tier.manager.lookupFutures.map LookupEntry.future)))
  /-- They are done. -/
  | wakes {call : Nat} {futures lookups : List Nat}
      (stage : tier.drains[call]? = some (.waiting futures lookups))
      (done : ∀ future ∈ futures, (tier.outcome future).isSome)
      (answered : ∀ future ∈ lookups, (tier.answered future).isSome) :
      Steps tier (.drainStep call) (tier.setDrain call .reaping)
  /-- It calls `get_finished_jobs`. -/
  | reaps {call : Nat} (stage : tier.drains[call]? = some .reaping) (free : tier.reap = none) :
      Steps tier (.drainStep call)
        { tier with reap := some ⟨some call, tier.manager.futures, []⟩ }
  /-- It drops the cached lookups. -/
  | clears {call : Nat} (stage : tier.drains[call]? = some .clearing)
      (free : tier.reap = none) :
      Steps tier (.drainStep call)
        { tier with manager := tier.manager.clearLookups
                    drains := tier.drains.set call .looping }
  | foreign {key contents record : Bytes} {path : FilePath}
      (located : config.path key = .ok path)
      (encoded : encodeVllmBlock F crc32 contents config.bits config.groupSize config.dtype =
        .ok record) (length : contents.length = config.blockBytes) :
      Steps tier (.foreign key contents)
        { tier with
          data := { tier.data with
            files := tier.data.files.put path (some record)
            encoded := tier.data.encoded ++ [(key, contents)] } }
  | modify {primary : Bytes} (length : primary.length = tier.data.primary.length) :
      Steps tier (.modify primary) { tier with data := { tier.data with primary := primary } }

variable {F crc32 config} {tier next : Tier}

/-- A call of `drain_jobs` moves on as its stage says. -/
theorem Tier.drainStep_steps {call : Nat} {stage : Drain}
    (present : tier.drains[call]? = some stage)
    (free : (∀ futures lookups, stage ≠ .waiting futures lookups) → tier.reap = none)
    (happens : tier.drainStep call stage = some next) :
    tier.Steps F crc32 config (.drainStep call) next := by
  unfold Tier.drainStep at happens
  cases stage with
  | looping =>
      simp only at happens
      split at happens
      · rename_i empty
        cases happens
        exact .leaves present (free fun _ _ => Drain.noConfusion) empty.1 empty.2
      · cases happens
        exact .waits present (free fun _ _ => Drain.noConfusion)
  | waiting futures lookups =>
      simp only at happens
      split at happens
      · rename_i done
        cases happens
        exact .wakes present done.1 done.2
      · cases happens
  | reaping =>
      cases happens
      exact .reaps present (free fun _ _ => Drain.noConfusion)
  | clearing =>
      cases happens
      exact .clears present (free fun _ _ => Drain.noConfusion)
  | returned => cases happens

/-- Every step of the tier is one of these. -/
theorem Tier.step_steps {event : Event} (happens : tier.step F crc32 config event = some next) :
    tier.Steps F crc32 config event next := by
  cases event with
  | submit transfer job =>
      simp only [Tier.step] at happens
      split at happens
      · rename_i free
        cases happens
        exact .submit free
      · cases happens
  | start future worker =>
      simp only [Tier.step] at happens
      split at happens
      · rename_i transfer job present
        split at happens
        · rename_i idle
          cases happens
          exact .start present idle
        · cases happens
      · cases happens
  | work future size =>
      simp only [Tier.step, Option.bind_eq_bind, Option.bind_eq_some_iff] at happens
      obtain ⟨task, present, ⟨data, work⟩, moved, result⟩ := happens
      cases result
      exact .work present moved
  | fault future =>
      simp only [Tier.step, Option.bind_eq_bind, Option.bind_eq_some_iff] at happens
      obtain ⟨task, present, work, moved, result⟩ := happens
      cases result
      exact .fault present moved
  | lookup key request =>
      simp only [Tier.step] at happens
      split at happens
      · rename_i free
        cases happens
        exact .lookup free
      · cases happens
  | probe future =>
      simp only [Tier.step] at happens
      split at happens
      · rename_i path present
        cases happens
        exact .probe present
      · cases happens
  | answer future =>
      simp only [Tier.step] at happens
      split at happens
      · rename_i path found present
        cases happens
        exact .answer present
      · cases happens
  | requestFinished request =>
      simp only [Tier.step] at happens
      split at happens
      · rename_i free
        cases happens
        exact .requestFinished free
      · cases happens
  | getFinished =>
      simp only [Tier.step] at happens
      split at happens
      · rename_i free
        cases happens
        exact .getFinished free
      · cases happens
  | reapOne =>
      simp only [Tier.step] at happens
      split at happens
      · rename_i drain entry pending finished before
        cases happens
        exact .reapOne before
      · cases happens
  | release =>
      simp only [Tier.step] at happens
      split at happens
      · rename_i finished before
        cases happens
        exact .returns before
      · rename_i call finished before
        cases happens
        exact .drops before
      · cases happens
  | drain =>
      cases happens
      exact .drain
  | drainStep call =>
      simp only [Tier.step, Option.bind_eq_bind, Option.bind_eq_some_iff] at happens
      obtain ⟨stage, present, moved⟩ := happens
      cases stage with
      | waiting futures lookups =>
          exact Tier.drainStep_steps present (fun other => absurd rfl (other _ _)) moved
      | looping | reaping | clearing | returned =>
          simp only at moved
          split at moved
          · rename_i free
            exact Tier.drainStep_steps present (fun _ => free) moved
          · cases moved
  | foreign key contents =>
      simp only [Tier.step] at happens
      split at happens
      · rename_i path record located encoded
        split at happens
        · rename_i length
          cases happens
          exact .foreign located encoded length
        · cases happens
      · cases happens
  | modify primary =>
      simp only [Tier.step] at happens
      split at happens
      · rename_i length
        cases happens
        exact .modify length
      · cases happens

end Steps

end KVSSD

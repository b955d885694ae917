import KVSSD.VllmLookups
import KVSSD.VllmReporting

/-!
# Lookups after a store

When `lookup` does not miss a key whose store has been reported as a success: a cached lookup that
looked before the record existed keeps what it has seen until a call of `lookup` takes it.
-/

namespace KVSSD

open KVSSD.Python KVSSD.Struct KVSSD.Transition

/-- The record of a key exists, and no cached lookup of it has looked and not seen it. -/
structure Tier.Settled (config : TierConfig) (tier : Tier) (key : Bytes) : Prop where
  present : ∃ path, config.path key = .ok path ∧ (tier.data.files path).isSome
  seen : ∀ entry ∈ tier.manager.lookupFutures, entry.key = key →
    tier.looked entry.future ≠ some false

/-- The results for a caller of `get_finished_jobs`, returned or held. -/
def Tier.reported (tier : Tier) : List Report :=
  tier.returned ++
    match tier.reap with
    | some ⟨none, _, finished⟩ => finished
    | _ => []

/-- If a report is about a store job that succeeded, the keys of the job are settled. -/
def Tier.Stored (config : TierConfig) (tier : Tier) (report : Report) : Prop :=
  ∃ task, tier.tasks[report.future]? = some task ∧
    (report.result.success = true → task.transfer = .store →
      ∀ key ∈ task.job.keys, tier.Settled config key)

/-- A store job has a block for every key. -/
def Task.Paired (task : Task) : Prop :=
  task.transfer = .store → task.job.keys.length ≤ task.job.blockIds.length

/-- Lookups, jobs and reports agree. -/
structure Tier.Fresh (F : Type) [arith : QuantArith F] [formats : DtypeArith F]
    (crc32 : Bytes → UInt32) (config : TierConfig) (tier : Tier) : Prop where
  sound : tier.Sound F crc32 config
  asked : tier.Asked config
  paired : ∀ task ∈ tier.tasks, task.Paired
  stored : ∀ report ∈ tier.reported, tier.Stored config report

/-- A store job is submitted with a block for every key. -/
def Tier.PairsKeys (_ : Tier) : Event → Prop
  | .submit transfer job => Task.Paired ⟨transfer, job, .queued⟩
  | _ => True

/-- When a caller's `get_finished_jobs` takes the success of a store job, no cached
lookup of a key of the job has looked before the record was there, done or not. -/
def Tier.AnswersFresh (tier : Tier) : Event → Prop
  | .reapOne => ∀ entry pending finished task,
      tier.reap = some ⟨none, entry :: pending, finished⟩ →
      tier.tasks[entry.future]? = some task → task.work = .done true →
      task.transfer = .store → ∀ key ∈ task.job.keys,
        ∀ cached ∈ tier.manager.lookupFutures, cached.key = key →
          tier.looked cached.future ≠ some false
  | _ => True

section Fresh

variable {F : Type} [arith : QuantArith F] [formats : DtypeArith F] {crc32 : Bytes → UInt32}
  {config : TierConfig} {tier next : Tier} {event : Event}

theorem Tier.fresh_initial (data : TierData) : (Tier.initial data).Fresh F crc32 config where
  sound := Tier.sound_initial data
  asked := Tier.asked_initial data
  paired := by simp [Tier.initial]
  stored := by simp [Tier.initial, Tier.reported]

/-- A settled key stays settled: a lookup that runs now finds the record. -/
theorem Tier.Settled.step {key : Bytes} (settled : tier.Settled config key)
    (asked : tier.Asked config) (looks : tier.Looks config next event)
    (grows : tier.data.Grows config next.data) : next.Settled config key := by
  obtain ⟨path, located, exists_⟩ := settled.present
  constructor
  · exact ⟨path, located, grows.records key path located exists_⟩
  · intro entry member same no
    obtain ⟨probe, present, own, answer⟩ := asked.answer looks member
    have now : probe.seen = some false := by simpa [Tier.looked, present] using no
    rcases answer with none_ | ⟨old, before | sees⟩
    · rw [now] at none_
      cases none_
    · exact settled.seen entry old same (before.trans now)
    · rw [same, located] at own
      cases own
      rw [now, exists_] at sees
      cases sees

theorem Tier.Stored.step {report : Report} (stored : tier.Stored config report)
    (reports : tier.Reports next event) (asked : tier.Asked config)
    (looks : tier.Looks config next event) (grows : tier.data.Grows config next.data) :
    next.Stored config report := by
  obtain ⟨task, present, settled⟩ := stored
  obtain ⟨after, found, sameJob, sameTransfer, _⟩ := reports.task present
  refine ⟨after, found, ?_⟩
  intro success stores key member
  rw [sameTransfer] at stores
  rw [sameJob] at member
  exact (settled success stores key member).step asked looks grows

theorem Tier.Fresh.present (fresh : tier.Fresh F crc32 config) {task : Task}
    (inside : task ∈ tier.tasks) (done : task.work = .done true) (stores : task.transfer = .store)
    {key : Bytes} (member : key ∈ task.job.keys) :
    ∃ path, config.path key = .ok path ∧ (tier.data.files path).isSome := by
  have placed := fresh.sound.placed task inside
  unfold Task.Placed at placed
  rw [done] at placed
  have keys : task.rounds.map Prod.fst = task.job.keys :=
    List.map_fst_zip (fresh.paired task inside stores)
  rw [← keys] at member
  obtain ⟨item, round, rfl⟩ := List.mem_map.mp member
  exact placed stores item round

/-- The reports after an event: those before, and the one that is taken. -/
theorem Tier.Reports.reported (reports : tier.Reports next event) {report : Report}
    (member : report ∈ next.reported) :
    report ∈ tier.reported ∨ ∃ entry pending finished success,
      event = .reapOne ∧ tier.reap = some ⟨none, entry :: pending, finished⟩ ∧
        tier.outcome entry.future = some success ∧
          report = ⟨entry.future, ⟨entry.jobId, success⟩⟩ := by
  unfold Tier.reported at member
  cases reports with
  | quiet tasks futures reap returned =>
      left
      rw [reap, returned] at member
      exact member
  | submit free tasks futures reap returned =>
      left
      rw [reap, returned] at member
      unfold Tier.reported
      rw [free]
      exact member
  | @begins _ drain free tasks futures reap returned =>
      left
      rw [reap, returned] at member
      unfold Tier.reported
      rw [free]
      cases drain with
      | none => exact member
      | some call => exact member
  | @passes drain entry pending finished before open_ tasks futures reap returned =>
      left
      rw [reap, returned] at member
      unfold Tier.reported
      rw [before]
      cases drain with
      | none => exact member
      | some call => exact member
  | @takes drain entry pending finished success before done tasks futures reap returned =>
      rw [reap, returned] at member
      unfold Tier.reported
      rw [before]
      cases drain with
      | some call => exact .inl member
      | none =>
          rw [← List.append_assoc] at member
          rcases List.mem_append.mp member with old | new
          · exact .inl old
          · exact .inr ⟨entry, pending, finished, success, rfl, rfl, done,
              List.mem_singleton.mp new⟩
  | returns before tasks futures reap returned =>
      left
      rw [reap, returned, List.append_nil] at member
      unfold Tier.reported
      rw [before]
      exact member
  | drops before tasks futures reap returned =>
      left
      rw [reap, returned] at member
      unfold Tier.reported
      rw [before]
      exact member

/-- The step lemma. -/
theorem Tier.Fresh.step (fresh : tier.Fresh F crc32 config)
    (happens : tier.step F crc32 config event = some next) (pairs : tier.PairsKeys event)
    (answers : tier.AnswersFresh event) : next.Fresh F crc32 config := by
  have moves := Tier.step_moves happens
  have looks := Tier.step_looks happens
  have reports := Tier.step_reports happens
  have grows := fresh.sound.grows moves
  constructor
  · exact fresh.sound.step moves
  · exact fresh.asked.step looks grows
  · intro after inside
    rcases reports.origin inside with ⟨task, member, sameJob, sameTransfer, _⟩ | rfl
    · unfold Task.Paired
      rw [sameJob, sameTransfer]
      exact fresh.paired task member
    · exact pairs
  · intro report member
    rcases reports.reported member with old |
      ⟨entry, pending, finished, success, rfl, reap, done, rfl⟩
    · exact (fresh.stored report old).step reports fresh.asked looks grows
    · obtain ⟨task, present, work⟩ := Tier.done_of_outcome done
      obtain ⟨after, found, sameJob, sameTransfer, _⟩ := reports.task present
      refine ⟨after, found, ?_⟩
      intro succeeded stores key asks
      rw [sameTransfer] at stores
      rw [sameJob] at asks
      rw [show success = true from succeeded] at work
      have settled : tier.Settled config key :=
        { present := fresh.present (List.mem_of_getElem? present) work stores asks
          seen := answers entry pending finished task reap present work stores key asks }
      exact settled.step fresh.asked looks grows

theorem Tier.Settled.not_miss {key : Bytes} {request : String}
    (settled : tier.Settled config key)
    (happens : tier.step F crc32 config (.lookup key request) = some next) :
    next.answers ≠ tier.answers ++ [⟨key, request, .miss⟩] := by
  intro missed
  obtain ⟨entry, member, _, same, answer⟩ := Tier.lookup_answer false happens missed
  exact settled.seen entry member same (Tier.looked_of_answered answer)

end Fresh

/-- In every run in which store jobs have a block for every key, and in which no cached
lookup of a key has looked before its record was there when `get_finished_jobs` takes the success of
the store: once that success is returned, no call of `lookup` misses the key. -/
theorem lookups_fresh (F : Type) [arith : QuantArith F] [formats : DtypeArith F]
    (crc32 : Bytes → UInt32) (config : TierConfig) (data : TierData) {events : List Event}
    {tier : Tier}
    (permitted : Permitted (Tier.step F crc32 config)
      (fun tier event => tier.PairsKeys event ∧ tier.AnswersFresh event)
      (Tier.initial data) events)
    (reached : run (Tier.step F crc32 config) (Tier.initial data) events = some tier) :
    ∀ report ∈ tier.returned, report.result.success = true →
      ∀ task, tier.tasks[report.future]? = some task → task.transfer = .store →
        ∀ key ∈ task.job.keys, ∀ request next,
          tier.step F crc32 config (.lookup key request) = some next →
            next.answers ≠ tier.answers ++ [⟨key, request, .miss⟩] := by
  have fresh : tier.Fresh F crc32 config := by
    apply invariant_of_permitted_run _ permitted (Tier.fresh_initial data) reached
    intro state event next allowed before happens
    exact before.step happens allowed.1 allowed.2
  intro report member success task present stores key asks request next happens
  obtain ⟨other, found, settled⟩ := fresh.stored report (List.mem_append_left _ member)
  rw [present] at found
  cases found
  exact (settled success stores key asks).not_miss happens

/-- Two lookups that are cached before a store: one looks when the record is there, and the other
has not looked when the success is taken. -/
def freshLookups : List Event :=
  [.lookup tinyKey "request", .lookup tinyKey "other"] ++ tinyStore ++ [.probe 0, .getFinished]

theorem lookups_fresh_tiny :
    ∃ tier, run (Tier.step ℚ Zlib.crc32 tinyTier) (Tier.initial tinyData)
        (freshLookups ++ [.reapOne, .release]) = some tier ∧
      tier.returned = [⟨0, ⟨7, true⟩⟩] ∧
      tier.tasks = [⟨.store, ⟨7, [tinyKey], [0]⟩, .done true⟩] ∧
      tier.manager.lookupFutures = [⟨"request", tinyKey, 0⟩, ⟨"other", tinyKey, 1⟩] ∧
      ∀ request next, tier.step ℚ Zlib.crc32 tinyTier (.lookup tinyKey request) = some next →
        next.answers ≠ tier.answers ++ [⟨tinyKey, request, .miss⟩] := by
  have computed : (do
      let middle ← run (Tier.step ℚ Zlib.crc32 tinyTier) (Tier.initial tinyData) freshLookups
      let tier ← run (Tier.step ℚ Zlib.crc32 tinyTier) middle [.reapOne, .release]
      some (middle.manager.lookupFutures.map fun entry => middle.looked entry.future,
        tier.returned, tier.tasks, tier.manager.lookupFutures)) =
      some ([some true, none], [⟨0, ⟨7, true⟩⟩], [⟨.store, ⟨7, [tinyKey], [0]⟩, .done true⟩],
        [⟨"request", tinyKey, 0⟩, ⟨"other", tinyKey, 1⟩]) := by
    decide +kernel
  simp only [Option.bind_eq_bind, Option.bind_eq_some_iff, Option.some.injEq,
    Prod.mk.injEq] at computed
  obtain ⟨middle, first, tier, last, seen, returned, tasks, cached⟩ := computed
  have reached := run_append.mpr ⟨middle, first, last⟩
  have permitted : Permitted (Tier.step ℚ Zlib.crc32 tinyTier)
      (fun tier event => tier.PairsKeys event ∧ tier.AnswersFresh event)
      (Tier.initial tinyData) (freshLookups ++ [.reapOne, .release]) := by
    apply (permitted_append first).mpr
    constructor
    · apply permitted_of_always
      simp [freshLookups, tinyStore, Tier.PairsKeys, Tier.AnswersFresh, Task.Paired]
    · refine ⟨⟨trivial, ?_⟩, fun _ _ => ⟨⟨trivial, trivial⟩, fun _ _ => trivial⟩⟩
      intro entry pending finished task _ _ _ _ key _ cached member _ missed
      have known : some false ∈ [some true, none] :=
        seen ▸ missed ▸ List.mem_map_of_mem member
      simp at known
  refine ⟨tier, reached, returned, tasks, cached, ?_⟩
  intro request next
  apply lookups_fresh ℚ Zlib.crc32 tinyTier tinyData permitted reached ⟨0, ⟨7, true⟩⟩ _ rfl
    ⟨.store, ⟨7, [tinyKey], [0]⟩, .done true⟩ _ rfl
  · exact List.mem_singleton_self _
  · rw [returned]
    exact List.mem_singleton_self _
  · rw [tasks]
    rfl

/-- A cached lookup that ran before the store misses after its success was returned. -/
theorem staleLookup_misses :
    ∃ tier next, run (Tier.step ℚ Zlib.crc32 tinyTier) (Tier.initial tinyData)
        ([.lookup tinyKey "request", .probe 0, .answer 0] ++ tinyStore ++
          [.getFinished, .reapOne, .release]) = some tier ∧
      tier.step ℚ Zlib.crc32 tinyTier (.lookup tinyKey "request") = some next ∧
      tier.returned = [⟨0, ⟨7, true⟩⟩] ∧
      tier.tasks = [⟨.store, ⟨7, [tinyKey], [0]⟩, .done true⟩] ∧
      tier.answers = [⟨tinyKey, "request", .retry⟩] ∧
      next.answers = tier.answers ++ [⟨tinyKey, "request", .miss⟩] := by
  have computed : (do
      let tier ← run (Tier.step ℚ Zlib.crc32 tinyTier) (Tier.initial tinyData)
        ([.lookup tinyKey "request", .probe 0, .answer 0] ++ tinyStore ++
          [.getFinished, .reapOne, .release])
      let next ← tier.step ℚ Zlib.crc32 tinyTier (.lookup tinyKey "request")
      some (tier.returned, tier.tasks, tier.answers, next.answers)) =
      some ([⟨0, ⟨7, true⟩⟩], [⟨.store, ⟨7, [tinyKey], [0]⟩, .done true⟩],
        [⟨tinyKey, "request", .retry⟩],
        [⟨tinyKey, "request", .retry⟩, ⟨tinyKey, "request", .miss⟩]) := by
    decide +kernel
  simp only [Option.bind_eq_bind, Option.bind_eq_some_iff, Option.some.injEq,
    Prod.mk.injEq] at computed
  obtain ⟨tier, reached, next, happens, returned, tasks, answers, missed⟩ := computed
  exact ⟨tier, next, reached, happens, returned, tasks, answers, by rw [missed, answers]; rfl⟩

end KVSSD

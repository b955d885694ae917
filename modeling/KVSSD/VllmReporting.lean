import KVSSD.VllmSteps
import KVSSD.Lib.Zlib

/-!
# Reports of finished jobs

What the calls of the manager do to the reports of jobs.  As long as no call of
`drain_jobs` meets a finished job, every job is reported exactly once.
-/

namespace KVSSD

open KVSSD.Python KVSSD.Struct KVSSD.Transition

/-- A job keeps its metadata, and once done its outcome. -/
def Task.Continues (task next : Task) : Prop :=
  next.job = task.job ∧ next.transfer = task.transfer ∧
    ∀ success, task.work = .done success → next.work = .done success

theorem Task.continues_refl (task : Task) : task.Continues task := ⟨rfl, rfl, fun _ done => done⟩

theorem Task.Continues.trans {task next last : Task} (first : task.Continues next)
    (second : next.Continues last) : task.Continues last :=
  ⟨second.1.trans first.1, second.2.1.trans first.2.1,
    fun success done => second.2.2 success (first.2.2 success done)⟩

theorem forall₂_refl_of {α : Type} {relation : α → α → Prop}
    (reflexive : ∀ item, relation item item)
    (items : List α) : List.Forall₂ relation items items := by
  induction items with
  | nil => exact .nil
  | cons item items induction => exact .cons (reflexive item) induction

theorem forall₂_modify {α : Type} {relation : α → α → Prop} {change : α → α}
    (reflexive : ∀ item, relation item item) {items : List α} {index : Nat}
    (changed : ∀ item, items[index]? = some item → relation item (change item)) :
    List.Forall₂ relation items (items.modify index change) := by
  induction items generalizing index with
  | nil => simp
  | cons item items induction =>
      cases index with
      | zero =>
          rw [List.modify_zero_cons]
          exact .cons (changed item rfl) (forall₂_refl_of reflexive items)
      | succ index =>
          rw [List.modify_succ_cons]
          exact .cons (reflexive item) (induction changed)

theorem continues_setWork {tasks : List Task} {future : Nat} {work : Work}
    (open_ : ∀ task, tasks[future]? = some task → ∀ success, task.work ≠ .done success) :
    List.Forall₂ Task.Continues tasks
      (tasks.modify future fun task => { task with work := work }) := by
  apply forall₂_modify Task.continues_refl
  intro task present
  exact ⟨rfl, rfl, fun success done => absurd done (open_ task present success)⟩

/-- The results of the call of `get_finished_jobs` that is under way. -/
def Tier.held (tier : Tier) : List Report :=
  match tier.reap with
  | none => []
  | some reap => reap.finished

/-- What an event does to the jobs and their reports. -/
inductive Tier.Reports (tier next : Tier) : Event → Prop where
  /-- Jobs go on; nothing is reported. -/
  | quiet {event : Event} (tasks : List.Forall₂ Task.Continues tier.tasks next.tasks)
      (futures : next.manager.futures = tier.manager.futures) (reap : next.reap = tier.reap)
      (returned : next.returned = tier.returned) : Reports tier next event
  | submit {transfer : Transfer} {job : JobMetadata} (free : tier.reap = none)
      (tasks : next.tasks = tier.tasks ++ [⟨transfer, job, .queued⟩])
      (futures : next.manager.futures =
        tier.manager.futures ++ [⟨tier.tasks.length, job.jobId, job.keys⟩])
      (reap : next.reap = none) (returned : next.returned = tier.returned) :
      Reports tier next (.submit transfer job)
  /-- A call of `get_finished_jobs` takes the lock. -/
  | begins {event : Event} {drain : Option Nat} (free : tier.reap = none)
      (tasks : next.tasks = tier.tasks) (futures : next.manager.futures = tier.manager.futures)
      (reap : next.reap = some ⟨drain, tier.manager.futures, []⟩)
      (returned : next.returned = tier.returned) : Reports tier next event
  /-- It meets a job that goes on. -/
  | passes {drain : Option Nat} {entry : JobEntry} {pending : List JobEntry}
      {finished : List Report} (before : tier.reap = some ⟨drain, entry :: pending, finished⟩)
      (open_ : tier.outcome entry.future = none) (tasks : next.tasks = tier.tasks)
      (futures : next.manager.futures = tier.manager.futures)
      (reap : next.reap = some ⟨drain, pending, finished⟩)
      (returned : next.returned = tier.returned) : Reports tier next .reapOne
  /-- It meets a job that is done. -/
  | takes {drain : Option Nat} {entry : JobEntry} {pending : List JobEntry}
      {finished : List Report} {success : Bool}
      (before : tier.reap = some ⟨drain, entry :: pending, finished⟩)
      (done : tier.outcome entry.future = some success) (tasks : next.tasks = tier.tasks)
      (futures : next.manager.futures =
        tier.manager.futures.filter fun other => other.future ≠ entry.future)
      (reap : next.reap = some
        ⟨drain, pending, finished ++ [⟨entry.future, ⟨entry.jobId, success⟩⟩]⟩)
      (returned : next.returned = tier.returned) : Reports tier next .reapOne
  /-- It returns its results to a caller. -/
  | returns {finished : List Report} (before : tier.reap = some ⟨none, [], finished⟩)
      (tasks : next.tasks = tier.tasks) (futures : next.manager.futures = tier.manager.futures)
      (reap : next.reap = none) (returned : next.returned = tier.returned ++ finished) :
      Reports tier next .release
  /-- It returns its results to `drain_jobs`, which drops them. -/
  | drops {call : Nat} {finished : List Report}
      (before : tier.reap = some ⟨some call, [], finished⟩) (tasks : next.tasks = tier.tasks)
      (futures : next.manager.futures = tier.manager.futures) (reap : next.reap = none)
      (returned : next.returned = tier.returned) : Reports tier next .release

section Step

variable {F : Type} [arith : QuantArith F] [formats : DtypeArith F] {crc32 : Bytes → UInt32}
  {config : TierConfig} {tier next : Tier}

theorem Tier.Reports.of_same {event : Event} (tasks : next.tasks = tier.tasks)
    (futures : next.manager.futures = tier.manager.futures) (reap : next.reap = tier.reap)
    (returned : next.returned = tier.returned) : tier.Reports next event := by
  apply Tier.Reports.quiet _ futures reap returned
  rw [tasks]
  exact forall₂_refl_of Task.continues_refl _

theorem Task.open_of_step {task : Task} {size : Nat} {data : TierData} {result : TierData × Work}
    (happens : task.step F crc32 config size data = some result) (success : Bool) :
    task.work ≠ .done success := by
  intro done
  simp [Task.step, done] at happens

theorem Task.open_of_fault {task : Task} {work : Work} (happens : task.fault = some work)
    (success : Bool) : task.work ≠ .done success := by
  intro done
  simp [Task.fault, done] at happens

theorem Manager.lookup_futures (manager : Manager) (answers : Nat → Option Bool) (future : Nat)
    (key : Bytes) (request : String) :
    (manager.lookup answers future key request).1.futures = manager.futures := by
  unfold Manager.lookup
  split
  · rfl
  · split
    · rfl
    · split <;> rfl

theorem Tier.lookup_reports (key : Bytes) (request : String) :
    tier.Reports (tier.lookup config key request) (.lookup key request) := by
  have futures := tier.manager.lookup_futures tier.answered tier.probes.length key request
  unfold Tier.lookup
  simp only
  split
  · split
    · exact .of_same rfl rfl rfl rfl
    · exact .of_same rfl futures rfl rfl
  · exact .of_same rfl futures rfl rfl

/-- Every event is of one of these kinds. -/
theorem Tier.step_reports {event : Event}
    (happens : tier.step F crc32 config event = some next) : tier.Reports next event := by
  cases Tier.step_steps happens with
  | submit free => exact .submit free rfl rfl free rfl
  | start present idle =>
      refine .quiet ?_ rfl rfl rfl
      apply continues_setWork
      intro task found success done
      rw [present] at found
      cases found
      cases done
  | work present moved =>
      refine .quiet ?_ rfl rfl rfl
      apply continues_setWork
      intro other found
      rw [present] at found
      cases found
      exact Task.open_of_step moved
  | fault present moved =>
      refine .quiet ?_ rfl rfl rfl
      apply continues_setWork
      intro other found
      rw [present] at found
      cases found
      exact Task.open_of_fault moved
  | lookup free => exact Tier.lookup_reports _ _
  | probe | answer | requestFinished => exact .of_same rfl rfl rfl rfl
  | getFinished free => exact .begins free rfl rfl rfl rfl
  | @reapOne drain entry pending finished before =>
      cases outcome : tier.outcome entry.future with
      | none => exact .passes before outcome rfl rfl (by simp [Manager.reapOne]) rfl
      | some success => exact .takes before outcome rfl rfl rfl rfl
  | returns before => exact .returns before rfl rfl rfl rfl
  | drops before => exact .drops before rfl rfl rfl rfl
  | drain | leaves | waits | wakes => exact .of_same rfl rfl rfl rfl
  | reaps stage free => exact .begins free rfl rfl rfl rfl
  | clears | foreign | modify => exact .of_same rfl rfl rfl rfl

end Step

theorem continues_jobIds {tasks next : List Task}
    (continues : List.Forall₂ Task.Continues tasks next) :
    next.map (fun task => task.job.jobId) = tasks.map fun task => task.job.jobId := by
  induction continues with
  | nil => rfl
  | cons head _ induction => rw [List.map_cons, List.map_cons, induction, head.1]

theorem continues_getElem? {tasks next : List Task}
    (continues : List.Forall₂ Task.Continues tasks next) {future : Nat} {task : Task}
    (present : tasks[future]? = some task) :
    ∃ after, next[future]? = some after ∧ task.Continues after := by
  induction continues generalizing future with
  | nil => simp at present
  | cons head _ induction =>
      cases future with
      | zero =>
          cases present
          exact ⟨_, rfl, head⟩
      | succ future => exact induction (by simpa using present)

theorem continues_getElem?_mp {tasks next : List Task}
    (continues : List.Forall₂ Task.Continues tasks next) {future : Nat} {after : Task}
    (found : next[future]? = some after) :
    ∃ task, tasks[future]? = some task ∧ task.Continues after := by
  induction continues generalizing future with
  | nil => simp at found
  | cons head _ induction =>
      cases future with
      | zero =>
          cases found
          exact ⟨_, rfl, head⟩
      | succ future => exact induction (by simpa using found)

theorem continues_mem {tasks next : List Task}
    (continues : List.Forall₂ Task.Continues tasks next) {after : Task} (inside : after ∈ next) :
    ∃ task ∈ tasks, task.Continues after := by
  obtain ⟨future, found⟩ := List.getElem?_of_mem inside
  obtain ⟨task, present, goes⟩ := continues_getElem?_mp continues found
  exact ⟨task, List.mem_of_getElem? present, goes⟩

section Tasks

variable {tier next : Tier} {event : Event}

theorem Tier.Reports.task (reports : tier.Reports next event) {future : Nat} {task : Task}
    (present : tier.tasks[future]? = some task) :
    ∃ after, next.tasks[future]? = some after ∧ task.Continues after := by
  cases reports with
  | quiet tasks => exact continues_getElem? tasks present
  | submit free tasks =>
      rw [tasks]
      exact ⟨task, Transition.party_append present _, task.continues_refl⟩
  | begins free tasks | passes before open_ tasks | takes before done tasks
    | returns before tasks | drops before tasks =>
      exact ⟨task, by rw [tasks]; exact present, task.continues_refl⟩

/-- A job of the next state is one of this state or the one submitted. -/
theorem Tier.Reports.origin (reports : tier.Reports next event) {after : Task}
    (inside : after ∈ next.tasks) :
    (∃ task ∈ tier.tasks, task.Continues after) ∨
      event = .submit after.transfer after.job := by
  cases reports with
  | quiet tasks => exact .inl (continues_mem tasks inside)
  | @submit transfer job free tasks =>
      rw [tasks] at inside
      rcases List.mem_append.mp inside with old | new
      · exact .inl ⟨after, old, after.continues_refl⟩
      · rw [List.mem_singleton.mp new]
        exact .inr rfl
  | begins free tasks | passes before open_ tasks | takes before done tasks
    | returns before tasks | drops before tasks =>
      rw [tasks] at inside
      exact .inl ⟨after, inside, after.continues_refl⟩

theorem Tier.task_of_run {F : Type} [arith : QuantArith F] [formats : DtypeArith F]
    {crc32 : Bytes → UInt32} {config : TierConfig} {events : List Event}
    (reached : run (Tier.step F crc32 config) tier events = some next) {future : Nat} {task : Task}
    (present : tier.tasks[future]? = some task) :
    ∃ after, next.tasks[future]? = some after ∧ task.Continues after := by
  apply invariant_of_run (fun state => ∃ after, state.tasks[future]? = some after ∧
    task.Continues after) _ ⟨task, present, task.continues_refl⟩ reached
  rintro state event last ⟨after, found, continues⟩ happens
  obtain ⟨final, there, goes⟩ := (Tier.step_reports happens).task found
  exact ⟨final, there, continues.trans goes⟩

end Tasks

/-- Where the report of every submitted job is: returned to a caller, held by the call
of `get_finished_jobs` under way, or still to be made. -/
structure Tier.Accounting (tier : Tier) : Prop where
  distinct : (tier.tasks.map fun task => task.job.jobId).Nodup
  futures : (tier.manager.futures.map JobEntry.future).Nodup
  entries : ∀ entry ∈ tier.manager.futures,
    ∃ task, tier.tasks[entry.future]? = some task ∧ task.job.jobId = entry.jobId
  pending : ∀ reap, tier.reap = some reap → reap.pending.Sublist tier.manager.futures
  dropped : ∀ reap, tier.reap = some reap → reap.drain ≠ none → reap.finished = []
  results : ∀ report ∈ tier.returned ++ tier.held, ∃ task,
    tier.tasks[report.future]? = some task ∧ task.job.jobId = report.jobId ∧
      task.work = .done report.result.success
  conserved : ((tier.returned ++ tier.held).map Report.jobId ++
    tier.manager.futures.map JobEntry.jobId).Perm (tier.tasks.map fun task => task.job.jobId)

/-- The ids of submitted jobs are distinct. -/
def Tier.DistinctJobs (tier : Tier) : Event → Prop
  | .submit _ job => ∀ task ∈ tier.tasks, task.job.jobId ≠ job.jobId
  | _ => True

/-- No call of `drain_jobs` tests a job that is done. -/
def Tier.KeepsReports (tier : Tier) : Event → Prop
  | .reapOne => ∀ call entry pending finished,
      tier.reap = some ⟨some call, entry :: pending, finished⟩ →
        tier.outcome entry.future = none
  | _ => True

instance {tier : Tier} {event : Event} : Decidable (tier.DistinctJobs event) :=
  match event with
  | .submit _ _ => inferInstanceAs (Decidable (∀ task ∈ tier.tasks, _))
  | .start _ _ | .work _ _ | .fault _ | .lookup _ _ | .probe _ | .answer _ | .requestFinished _
  | .getFinished | .reapOne | .release | .drain | .drainStep _ | .foreign _ _ | .modify _ =>
      isTrue trivial

theorem Tier.keepsReports_reapOne {tier : Tier} : tier.KeepsReports .reapOne ↔
    ∀ reap ∈ tier.reap, reap.drain ≠ none →
      ∀ entry ∈ reap.pending.head?, tier.outcome entry.future = none := by
  constructor
  · rintro keeps ⟨drain, pending, finished⟩ present drains entry first
    obtain ⟨call, rfl⟩ := Option.ne_none_iff_exists'.mp drains
    obtain ⟨rest, rfl⟩ := List.head?_eq_some_iff.mp first
    exact keeps call entry rest finished present
  · intro keeps call entry pending finished present
    exact keeps _ present (by simp) entry rfl

instance {tier : Tier} {event : Event} : Decidable (tier.KeepsReports event) :=
  match event with
  | .reapOne => decidable_of_iff _ Tier.keepsReports_reapOne.symm
  | .submit _ _ | .start _ _ | .work _ _ | .fault _ | .lookup _ _ | .probe _ | .answer _
  | .requestFinished _ | .getFinished | .release | .drain | .drainStep _ | .foreign _ _
  | .modify _ => isTrue trivial

theorem accounting_initial (data : TierData) : (Tier.initial data).Accounting where
  distinct := by simp [Tier.initial]
  futures := by simp [Tier.initial]
  entries := by simp [Tier.initial]
  pending := by simp [Tier.initial]
  dropped := by simp [Tier.initial]
  results := by simp [Tier.initial, Tier.held]
  conserved := by simp [Tier.initial, Tier.held]

theorem filter_future_head {entry : JobEntry} {entries : List JobEntry}
    (distinct : ((entry :: entries).map JobEntry.future).Nodup) :
    (entry :: entries).filter (fun other => other.future ≠ entry.future) = entries := by
  rw [List.filter_cons_of_neg (by simp)]
  apply List.filter_eq_self.mpr
  intro other inside
  have different : other.future ≠ entry.future := fun same =>
    (List.nodup_cons.mp distinct).1 (same ▸ List.mem_map_of_mem inside)
  simpa using different

theorem sublist_filter_future {entry : JobEntry} {pending entries : List JobEntry}
    (distinct : (entries.map JobEntry.future).Nodup)
    (sublist : (entry :: pending).Sublist entries) :
    pending.Sublist (entries.filter fun other => other.future ≠ entry.future) := by
  have filtered := sublist.filter fun other => other.future ≠ entry.future
  rwa [filter_future_head (distinct.sublist (sublist.map _))] at filtered

theorem perm_filter_future {entries : List JobEntry} {entry : JobEntry}
    (distinct : (entries.map JobEntry.future).Nodup) (member : entry ∈ entries) :
    (entry :: entries.filter fun other => other.future ≠ entry.future).Perm entries := by
  induction entries with
  | nil => cases member
  | cons head entries induction =>
      obtain ⟨fresh, rest⟩ := List.nodup_cons.mp distinct
      rcases List.mem_cons.mp member with rfl | later
      · rw [filter_future_head distinct]
      · have different : head.future ≠ entry.future := fun same =>
          fresh (same ▸ List.mem_map_of_mem later)
        rw [List.filter_cons_of_pos (by simpa using different)]
        exact (List.Perm.swap head entry _).trans ((induction rest later).cons head)

section Accounting

variable {tier next : Tier} {event : Event}

theorem Tier.done_of_outcome {future : Nat} {success : Bool}
    (done : tier.outcome future = some success) :
    ∃ task, tier.tasks[future]? = some task ∧ task.work = .done success := by
  unfold Tier.outcome at done
  obtain ⟨task, present, outcome⟩ := Option.bind_eq_some_iff.mp done
  refine ⟨task, present, ?_⟩
  cases work : task.work with
  | done other =>
      rw [work] at outcome
      cases outcome
      rfl
  | queued =>
      rw [work] at outcome
      cases outcome
  | running worker items place =>
      rw [work] at outcome
      cases outcome

theorem Tier.Accounting.task_of_outcome (accounting : tier.Accounting) {entry : JobEntry}
    {success : Bool} (member : entry ∈ tier.manager.futures)
    (done : tier.outcome entry.future = some success) :
    ∃ task, tier.tasks[entry.future]? = some task ∧ task.job.jobId = entry.jobId ∧
      task.work = .done success := by
  obtain ⟨task, present, same⟩ := accounting.entries entry member
  obtain ⟨other, found, work⟩ := Tier.done_of_outcome done
  rw [present] at found
  cases found
  exact ⟨task, present, same, work⟩

/-- Moving reports between the hands of the manager and those of a caller. -/
theorem Tier.Accounting.regroup (accounting : tier.Accounting) (tasks : next.tasks = tier.tasks)
    (futures : next.manager.futures = tier.manager.futures)
    (reports : next.returned ++ next.held = tier.returned ++ tier.held)
    (pending : ∀ reap, next.reap = some reap → reap.pending.Sublist next.manager.futures)
    (dropped : ∀ reap, next.reap = some reap → reap.drain ≠ none → reap.finished = []) :
    next.Accounting where
  distinct := by
    rw [tasks]
    exact accounting.distinct
  futures := by
    rw [futures]
    exact accounting.futures
  entries := by
    rw [tasks, futures]
    exact accounting.entries
  pending := pending
  dropped := dropped
  results := by
    rw [reports, tasks]
    exact accounting.results
  conserved := by
    rw [reports, tasks, futures]
    exact accounting.conserved

theorem Tier.Accounting.goOn (accounting : tier.Accounting)
    (tasks : List.Forall₂ Task.Continues tier.tasks next.tasks)
    (futures : next.manager.futures = tier.manager.futures) (reap : next.reap = tier.reap)
    (returned : next.returned = tier.returned) : next.Accounting := by
  have held : next.held = tier.held := by rw [Tier.held, Tier.held, reap]
  constructor
  · rw [continues_jobIds tasks]
    exact accounting.distinct
  · rw [futures]
    exact accounting.futures
  · intro entry member
    rw [futures] at member
    obtain ⟨task, present, same⟩ := accounting.entries entry member
    obtain ⟨after, found, continues⟩ := continues_getElem? tasks present
    exact ⟨after, found, by rw [continues.1, same]⟩
  · rw [reap, futures]
    exact accounting.pending
  · rw [reap]
    exact accounting.dropped
  · intro report member
    rw [returned, held] at member
    obtain ⟨task, present, same, done⟩ := accounting.results report member
    obtain ⟨after, found, continues⟩ := continues_getElem? tasks present
    exact ⟨after, found, by rw [continues.1, same], continues.2.2 _ done⟩
  · rw [returned, held, futures, continues_jobIds tasks]
    exact accounting.conserved

/-- A submitted job is one that is still to be reported. -/
theorem Tier.Accounting.submit (accounting : tier.Accounting) {transfer : Transfer}
    {job : JobMetadata} (fresh : ∀ task ∈ tier.tasks, task.job.jobId ≠ job.jobId)
    (free : tier.reap = none) (tasks : next.tasks = tier.tasks ++ [⟨transfer, job, .queued⟩])
    (futures : next.manager.futures =
      tier.manager.futures ++ [⟨tier.tasks.length, job.jobId, job.keys⟩])
    (reap : next.reap = none) (returned : next.returned = tier.returned) :
    next.Accounting := by
  have held : next.held = [] := by rw [Tier.held, reap]
  have before : tier.held = [] := by rw [Tier.held, free]
  have conserved := accounting.conserved
  rw [before, List.append_nil] at conserved
  constructor
  · rw [tasks, List.map_append, List.map_singleton]
    apply List.Nodup.append accounting.distinct (List.nodup_singleton _)
    intro jobId old new
    obtain ⟨task, inside, rfl⟩ := List.mem_map.mp old
    exact fresh task inside (List.mem_singleton.mp new)
  · rw [futures, List.map_append, List.map_singleton]
    apply List.Nodup.append accounting.futures (List.nodup_singleton _)
    intro future old new
    obtain ⟨entry, inside, rfl⟩ := List.mem_map.mp old
    obtain ⟨task, present, _⟩ := accounting.entries entry inside
    obtain ⟨bound, _⟩ := List.getElem?_eq_some_iff.mp present
    have same := List.mem_singleton.mp new
    simp only at same
    omega
  · intro entry member
    rw [futures] at member
    rw [tasks]
    rcases List.mem_append.mp member with old | new
    · obtain ⟨task, present, same⟩ := accounting.entries entry old
      exact ⟨task, Transition.party_append present _, same⟩
    · rw [List.mem_singleton.mp new]
      exact ⟨⟨transfer, job, .queued⟩, by simp, rfl⟩
  · intro other present
    rw [reap] at present
    cases present
  · intro other present
    rw [reap] at present
    cases present
  · intro report member
    rw [returned, held, List.append_nil] at member
    obtain ⟨task, present, same, done⟩ :=
      accounting.results report (List.mem_append_left _ member)
    rw [tasks]
    exact ⟨task, Transition.party_append present _, same, done⟩
  · rw [returned, held, futures, tasks, List.append_nil, List.map_append, List.map_append,
      ← List.append_assoc]
    exact conserved.append_right _

/-- The report of a job that is done passes from the futures to the call that tests it. -/
theorem Tier.Accounting.take (accounting : tier.Accounting) {entry : JobEntry}
    {pending : List JobEntry} {finished : List Report} {success : Bool}
    (before : tier.reap = some ⟨none, entry :: pending, finished⟩)
    (done : tier.outcome entry.future = some success) (tasks : next.tasks = tier.tasks)
    (futures : next.manager.futures =
      tier.manager.futures.filter fun other => other.future ≠ entry.future)
    (reap : next.reap =
      some ⟨none, pending, finished ++ [⟨entry.future, ⟨entry.jobId, success⟩⟩]⟩)
    (returned : next.returned = tier.returned) : next.Accounting := by
  have held : next.held = tier.held ++ [⟨entry.future, ⟨entry.jobId, success⟩⟩] := by
    rw [Tier.held, Tier.held, reap, before]
  have sublist := accounting.pending _ before
  have member : entry ∈ tier.manager.futures := sublist.subset (by simp)
  constructor
  · rw [tasks]
    exact accounting.distinct
  · rw [futures]
    exact accounting.futures.sublist (List.filter_sublist.map _)
  · intro other inside
    rw [futures] at inside
    rw [tasks]
    exact accounting.entries other (List.mem_of_mem_filter inside)
  · intro other present
    rw [reap] at present
    cases present
    rw [futures]
    exact sublist_filter_future accounting.futures sublist
  · intro other present drained
    rw [reap] at present
    cases present
    exact absurd rfl drained
  · intro report inside
    rw [returned, held, ← List.append_assoc] at inside
    rw [tasks]
    rcases List.mem_append.mp inside with old | new
    · exact accounting.results report old
    · rw [List.mem_singleton.mp new]
      exact accounting.task_of_outcome member done
  · have whole := (perm_filter_future accounting.futures member).map JobEntry.jobId
    rw [returned, held, tasks, futures, ← List.append_assoc, List.map_append,
      List.append_assoc]
    exact (whole.append_left _).trans accounting.conserved

/-- The step lemma. -/
theorem Tier.Accounting.step (accounting : tier.Accounting) (reports : tier.Reports next event)
    (distinctJobs : tier.DistinctJobs event) (keeps : tier.KeepsReports event) :
    next.Accounting := by
  cases reports with
  | quiet tasks futures reap returned => exact accounting.goOn tasks futures reap returned
  | submit free tasks futures reap returned =>
      exact accounting.submit distinctJobs free tasks futures reap returned
  | @begins _ drain free tasks futures reap returned =>
      apply accounting.regroup tasks futures
      · rw [returned, Tier.held, Tier.held, reap, free]
      · intro other present
        rw [reap] at present
        cases present
        rw [futures]
      · intro other present _
        rw [reap] at present
        cases present
        rfl
  | @passes drain entry pending finished before open_ tasks futures reap returned =>
      apply accounting.regroup tasks futures
      · rw [returned, Tier.held, Tier.held, reap, before]
      · intro other present
        rw [reap] at present
        cases present
        rw [futures]
        exact (List.sublist_cons_self _ _).trans (accounting.pending _ before)
      · intro other present
        rw [reap] at present
        cases present
        exact accounting.dropped ⟨drain, entry :: pending, finished⟩ before
  | @takes drain entry pending finished success before done tasks futures reap returned =>
      -- Only a caller's own reap meets a job that is done.
      cases drain with
      | none => exact accounting.take before done tasks futures reap returned
      | some call =>
          rw [keeps call entry pending finished before] at done
          cases done
  | @returns finished before tasks futures reap returned =>
      apply accounting.regroup tasks futures
      · rw [returned, Tier.held, Tier.held, reap, before, List.append_nil]
      · intro other present
        rw [reap] at present
        cases present
      · intro other present
        rw [reap] at present
        cases present
  | @drops call finished before tasks futures reap returned =>
      have empty : finished = [] := accounting.dropped _ before (by simp)
      apply accounting.regroup tasks futures
      · rw [returned, Tier.held, Tier.held, reap, before, empty]
      · intro other present
        rw [reap] at present
        cases present
      · intro other present
        rw [reap] at present
        cases present

end Accounting

section Collect

variable {F : Type} [arith : QuantArith F] [formats : DtypeArith F] {crc32 : Bytes → UInt32}
  {config : TierConfig} {tier next : Tier} {event : Event}

/-- A caller is collecting the reports of jobs that are all done. -/
structure Tier.Collecting (tier : Tier) : Prop where
  accounting : tier.Accounting
  done : ∀ task ∈ tier.tasks, ∃ success, task.work = .done success
  reap : ∃ finished, tier.reap = some ⟨none, tier.manager.futures, finished⟩

theorem Tier.Collecting.outcome (collecting : tier.Collecting) {entry : JobEntry}
    (member : entry ∈ tier.manager.futures) : tier.outcome entry.future ≠ none := by
  obtain ⟨task, present, _⟩ := collecting.accounting.entries entry member
  obtain ⟨success, done⟩ := collecting.done task (List.mem_of_getElem? present)
  rw [Tier.outcome, present, Option.bind_some, done]
  exact Option.some_ne_none success

/-- Nothing but the call itself touches the reports while it holds the lock. -/
theorem Tier.Collecting.step (collecting : tier.Collecting)
    (happens : tier.step F crc32 config event = some next) (open_ : event ≠ .release) :
    next.Collecting := by
  obtain ⟨results, held⟩ := collecting.reap
  have distinctJobs : tier.DistinctJobs event := by
    cases event with
    | submit transfer job =>
        cases Tier.step_steps happens with
        | submit free =>
            rw [held] at free
            cases free
    | _ => trivial
  have keeps : tier.KeepsReports event := by
    cases event with
    | reapOne =>
        intro call entry pending finished drained
        rw [held] at drained
        cases drained
    | _ => trivial
  have reports := Tier.step_reports happens
  have accounting := collecting.accounting.step reports distinctJobs keeps
  cases reports with
  | quiet tasks futures reap returned =>
      refine ⟨accounting, ?_, results, by rw [reap, futures, held]⟩
      intro after inside
      obtain ⟨future, present⟩ := List.getElem?_of_mem inside
      obtain ⟨bound, _⟩ := List.getElem?_eq_some_iff.mp present
      rw [← tasks.length_eq] at bound
      obtain ⟨task, found, continues⟩ := continues_getElem? tasks (List.getElem?_eq_getElem bound)
      rw [present] at found
      cases found
      obtain ⟨success, done⟩ := collecting.done _ (List.getElem_mem bound)
      exact ⟨success, continues.2.2 success done⟩
  | submit free tasks futures reap returned =>
      rw [held] at free
      cases free
  | begins free tasks futures reap returned =>
      rw [held] at free
      cases free
  | @passes drain entry pending finished before running tasks futures reap returned =>
      simp only [held, Option.some.injEq, Reap.mk.injEq] at before
      have member : entry ∈ tier.manager.futures := by rw [before.2.1]; simp
      exact absurd running (collecting.outcome member)
  | @takes drain entry pending finished success before done tasks futures reap returned =>
      simp only [held, Option.some.injEq, Reap.mk.injEq] at before
      obtain ⟨own, whole, rest⟩ := before
      have distinct := collecting.accounting.futures
      rw [whole] at distinct futures
      rw [filter_future_head distinct] at futures
      refine ⟨accounting, ?_, _, by rw [reap, futures, ← own]⟩
      rw [tasks]
      exact collecting.done
  | returns before tasks futures reap returned => exact absurd rfl open_
  | drops before tasks futures reap returned => exact absurd rfl open_

theorem Tier.Collecting.run {events : List Event} (collecting : tier.Collecting)
    (reached : run (Tier.step F crc32 config) tier events = some next)
    (open_ : Event.release ∉ events) : next.Collecting := by
  have permitted : ∀ event ∈ events, event ≠ Event.release :=
    fun event member same => open_ (same ▸ member)
  apply invariant_of_allowed_run _ permitted collecting reached
  intro state event after other before happens
  exact before.step happens other

theorem Tier.Collecting.released (collecting : tier.Collecting)
    (happens : tier.step F crc32 config .release = some next) :
    ∀ task ∈ next.tasks, (next.returned.map Report.jobId).count task.job.jobId = 1 := by
  obtain ⟨results, held⟩ := collecting.reap
  have accounting := collecting.accounting.step (Tier.step_reports happens) trivial trivial
  have empty : tier.manager.futures = [] ∧ next.manager.futures = tier.manager.futures ∧
      next.reap = none := by
    cases Tier.step_steps happens with
    | returns before =>
        rw [held] at before
        obtain ⟨_, futures, _⟩ := Reap.mk.inj (Option.some.inj before)
        exact ⟨futures, rfl, rfl⟩
    | drops before =>
        rw [held] at before
        cases before
  obtain ⟨none_left, same, free⟩ := empty
  have conserved := accounting.conserved
  rw [same, none_left, Tier.held, free, List.append_nil, List.map_nil, List.append_nil] at conserved
  intro task inside
  rw [conserved.count_eq]
  exact List.count_eq_one_of_mem accounting.distinct (List.mem_map_of_mem inside)

end Collect

/-- In every run with distinct job ids in which no call of `drain_jobs` meets a finished
job: reports go to distinct jobs and tell their outcomes, the outcome of every finished
job has been reported or is still held for a caller, and a call of
`get_finished_jobs` after all jobs are done leaves every job reported exactly once. -/
theorem jobs_reported (F : Type) [arith : QuantArith F] [formats : DtypeArith F]
    (crc32 : Bytes → UInt32) (config : TierConfig) (data : TierData) {events : List Event}
    {tier : Tier}
    (permitted : Permitted (Tier.step F crc32 config)
      (fun tier event => tier.DistinctJobs event ∧ tier.KeepsReports event)
      (Tier.initial data) events)
    (reached : run (Tier.step F crc32 config) (Tier.initial data) events = some tier) :
    (tier.returned.map Report.jobId).Nodup ∧
      (∀ report ∈ tier.returned, ∃ task, tier.tasks[report.future]? = some task ∧
        task.job.jobId = report.jobId ∧ task.work = .done report.result.success) ∧
      (∀ task ∈ tier.tasks, ∀ success, task.work = .done success →
        (∃ report ∈ tier.returned ++ tier.held,
          report.result = ⟨task.job.jobId, success⟩) ∨
        ∃ entry ∈ tier.manager.futures, entry.jobId = task.job.jobId) ∧
      ∀ opened middle closing after,
        (∀ task ∈ tier.tasks, ∃ success, task.work = .done success) →
        tier.step F crc32 config .getFinished = some opened →
        run (Tier.step F crc32 config) opened middle = some closing →
        Event.release ∉ middle →
        closing.step F crc32 config .release = some after →
        ∀ task ∈ after.tasks, (after.returned.map Report.jobId).count task.job.jobId = 1 := by
  have accounting : tier.Accounting := by
    apply invariant_of_permitted_run _ permitted (accounting_initial data) reached
    intro state event next allowed before happens
    exact before.step (Tier.step_reports happens) allowed.1 allowed.2
  have unique : ∀ task ∈ tier.tasks, ∀ other ∈ tier.tasks,
      task.job.jobId = other.job.jobId → task = other :=
    fun task inside other member => List.inj_on_of_nodup_map accounting.distinct inside member
  refine ⟨?_, ?_, ?_, ?_⟩
  · have whole := accounting.conserved.nodup_iff.mpr accounting.distinct
    have reports := (List.nodup_append.mp whole).1
    rw [List.map_append] at reports
    exact (List.nodup_append.mp reports).1
  · intro report member
    exact accounting.results report (List.mem_append_left _ member)
  · intro task inside success done
    have somewhere := accounting.conserved.mem_iff.mpr (List.mem_map_of_mem inside)
    rcases List.mem_append.mp somewhere with reported | waiting
    · left
      obtain ⟨report, member, same⟩ := List.mem_map.mp reported
      obtain ⟨other, present, otherSame, otherDone⟩ := accounting.results report member
      obtain rfl := unique other (List.mem_of_getElem? present) task inside
        (otherSame.trans same)
      rw [done] at otherDone
      refine ⟨report, member, ?_⟩
      rw [Work.done.inj otherDone, ← same]
      rfl
    · right
      obtain ⟨entry, member, same⟩ := List.mem_map.mp waiting
      exact ⟨entry, member, same⟩
  · intro opened middle closing after done called goes open_ closes
    have collecting : opened.Collecting := by
      have openedAccounting := accounting.step (Tier.step_reports called) trivial trivial
      cases Tier.step_steps called with
      | getFinished free => exact ⟨openedAccounting, done, [], rfl⟩
    exact (collecting.run goes open_).released closes

/-- Two jobs of one key that a caller takes before a call of `drain_jobs` that waits for them. -/
theorem jobs_reported_tiny :
    ∃ tier, run (Tier.step ℚ Zlib.crc32 tinyTier) (Tier.initial tinyData)
        (sharedJobs ++ [.getFinished, .reapOne, .reapOne, .release, .drainStep 0, .drainStep 0,
          .release, .drainStep 0, .drainStep 0]) = some tier ∧
      tier.drains = [.returned] ∧ tier.returned = [⟨0, ⟨7, true⟩⟩, ⟨1, ⟨8, true⟩⟩] ∧
      (tier.returned.map Report.jobId).Nodup := by
  have computed : (run (Tier.step ℚ Zlib.crc32 tinyTier) (Tier.initial tinyData)
      (sharedJobs ++ [.getFinished, .reapOne, .reapOne, .release, .drainStep 0, .drainStep 0,
        .release, .drainStep 0, .drainStep 0])).map (fun tier => (tier.drains, tier.returned)) =
      some ([.returned], [⟨0, ⟨7, true⟩⟩, ⟨1, ⟨8, true⟩⟩]) := by
    decide +kernel
  have permitted : Permitted (Tier.step ℚ Zlib.crc32 tinyTier)
      (fun tier event => tier.DistinctJobs event ∧ tier.KeepsReports event)
      (Tier.initial tinyData) (sharedJobs ++ [.getFinished, .reapOne, .reapOne, .release,
        .drainStep 0, .drainStep 0, .release, .drainStep 0, .drainStep 0]) := by
    decide +kernel
  obtain ⟨tier, reached, values⟩ := Option.map_eq_some_iff.mp computed
  obtain ⟨drains, returned⟩ := Prod.mk.inj values
  exact ⟨tier, reached, drains, returned,
    (jobs_reported ℚ Zlib.crc32 tinyTier tinyData permitted reached).1⟩

/-- A failed job that a call of `drain_jobs` meets is never reported. -/
theorem drainedJob_not_reported :
    ∃ tier, run (Tier.step ℚ Zlib.crc32 tinyTier) (Tier.initial tinyData)
        (missedLoad ++ [.drain, .drainStep 0, .drainStep 0, .drainStep 0, .reapOne, .release,
          .drainStep 0, .drainStep 0, .getFinished, .release]) = some tier ∧
      tier.tasks = [⟨.load, ⟨11, [tinyKey], [0]⟩, .done false⟩] ∧
      tier.manager.futures = [] ∧ tier.reap = none ∧
      (tier.returned.map Report.jobId).count 11 = 0 :=
  ⟨_, rfl, rfl, rfl, rfl, rfl⟩

end KVSSD

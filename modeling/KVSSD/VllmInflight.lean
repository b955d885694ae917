import KVSSD.VllmReporting
import KVSSD.VllmLookups

/-!
# Keys in flight

`_inflight_keys` counts how often a key occurs among the jobs in `_futures`.
-/

namespace KVSSD

open KVSSD.Python KVSSD.Struct KVSSD.Transition

namespace Counter

theorem count_add (counter : Counter) (key other : Bytes) (amount : Int) :
    (counter.add key amount).count other =
      counter.count other + if other = key then amount else 0 := by
  unfold count
  induction counter with
  | nil =>
      by_cases same : other = key
      · simp [add, same]
      · simp [add, same, List.lookup_cons, beq_eq_false_iff_ne.mpr same]
  | cons entry counter induction =>
      obtain ⟨own, amountBefore⟩ := entry
      rw [add]
      by_cases found : own = key
      · rw [if_pos found, found]
        by_cases same : other = key
        · simp [same]
        · simp [List.lookup_cons, same, beq_eq_false_iff_ne.mpr same]
      · rw [if_neg found]
        by_cases same : other = own
        · rw [same] at *
          simp [found]
        · simpa [List.lookup_cons, beq_eq_false_iff_ne.mpr same] using induction

theorem count_update (counter : Counter) (keys : List Bytes) (key : Bytes) :
    (counter.update keys).count key = counter.count key + (keys.count key : Int) := by
  unfold update
  induction keys generalizing counter with
  | nil => simp
  | cons other keys induction =>
      rw [List.foldl_cons, induction, count_add, List.count_cons]
      by_cases same : key = other
      · simp [same]
        omega
      · simp [same, Ne.symm same]

theorem count_subtract (counter : Counter) (keys : List Bytes) (key : Bytes) :
    (counter.subtract keys).count key = counter.count key - (keys.count key : Int) := by
  unfold subtract
  induction keys generalizing counter with
  | nil => simp
  | cons other keys induction =>
      rw [List.foldl_cons, induction, count_add, List.count_cons]
      by_cases same : key = other
      · simp [same]
        omega
      · simp [same, Ne.symm same]

/-- Every key has one entry. -/
def Distinct (counter : Counter) : Prop := (counter.map Prod.fst).Nodup

theorem mem_keys_add {counter : Counter} {key other : Bytes} {amount : Int}
    (member : other ∈ (counter.add key amount).map Prod.fst) :
    other = key ∨ other ∈ counter.map Prod.fst := by
  induction counter with
  | nil => simpa [add] using member
  | cons entry counter induction =>
      rw [add] at member
      by_cases found : entry.1 = key
      · rw [if_pos found] at member
        exact .inr member
      · rw [if_neg found, List.map_cons, List.mem_cons] at member
        rcases member with same | later
        · exact .inr (same ▸ List.mem_cons_self)
        · rcases induction later with same | old
          · exact .inl same
          · exact .inr (List.mem_cons_of_mem _ old)

theorem Distinct.add {counter : Counter} (distinct : counter.Distinct) (key : Bytes)
    (amount : Int) : (counter.add key amount).Distinct := by
  induction counter with
  | nil => simp [Counter.add, Distinct]
  | cons entry counter induction =>
      obtain ⟨fresh, rest⟩ := List.nodup_cons.mp distinct
      rw [Counter.add]
      by_cases found : entry.1 = key
      · rw [if_pos found]
        exact List.nodup_cons.mpr ⟨fresh, rest⟩
      · rw [if_neg found]
        apply List.nodup_cons.mpr
        constructor
        · intro member
          rcases mem_keys_add member with same | old
          · exact found same
          · exact fresh old
        · exact induction rest

theorem Distinct.fold {counter : Counter} (distinct : counter.Distinct) (keys : List Bytes)
    (amount : Int) :
    (keys.foldl (fun counter key => counter.add key amount) counter).Distinct := by
  induction keys generalizing counter with
  | nil => exact distinct
  | cons key keys induction => exact induction (distinct.add key amount)

theorem Distinct.keepPositive {counter : Counter} (distinct : counter.Distinct) :
    counter.keepPositive.Distinct :=
  distinct.sublist (List.filter_sublist.map Prod.fst)

theorem Distinct.count_of_mem {counter : Counter} (distinct : counter.Distinct)
    {entry : Bytes × Int} (member : entry ∈ counter) : counter.count entry.1 = entry.2 := by
  unfold count
  induction counter with
  | nil => cases member
  | cons head counter induction =>
      obtain ⟨fresh, rest⟩ := List.nodup_cons.mp distinct
      rcases List.mem_cons.mp member with same | later
      · obtain ⟨key, amount⟩ := entry
        rw [← same]
        simp
      · have different : entry.1 ≠ head.1 := fun same =>
          fresh (same ▸ List.mem_map_of_mem later)
        rw [List.lookup_cons, beq_eq_false_iff_ne.mpr different]
        exact induction rest later

theorem count_eq_zero {counter : Counter} {key : Bytes} (absent : key ∉ counter.map Prod.fst) :
    counter.count key = 0 := by
  unfold count
  induction counter with
  | nil => rfl
  | cons entry counter induction =>
      rw [List.map_cons, List.mem_cons, not_or] at absent
      rw [List.lookup_cons, beq_eq_false_iff_ne.mpr absent.1]
      exact induction absent.2

/-- Dropping what is not positive changes no count that is not negative. -/
theorem Distinct.count_keepPositive {counter : Counter} (distinct : counter.Distinct)
    {key : Bytes} (nonnegative : 0 ≤ counter.count key) :
    counter.keepPositive.count key = counter.count key := by
  induction counter with
  | nil => rfl
  | cons entry counter induction =>
      obtain ⟨own, amount⟩ := entry
      obtain ⟨fresh, rest⟩ := List.nodup_cons.mp distinct
      by_cases same : key = own
      · subst same
        have here : count ((key, amount) :: counter) key = amount := by
          simp [count]
        rw [here] at nonnegative ⊢
        by_cases positive : 0 < amount
        · rw [Counter.keepPositive, List.filter_cons_of_pos (by simpa using positive)]
          simp [count]
        · rw [Counter.keepPositive, List.filter_cons_of_neg (by simpa using positive)]
          have absent : key ∉ (counter.filter fun entry => 0 < entry.2).map Prod.fst := by
            intro member
            exact fresh ((List.filter_sublist.map Prod.fst).subset member)
          rw [count_eq_zero absent]
          omega
      · have skip : ∀ tail : Counter, count ((own, amount) :: tail) key = count tail key := by
          intro tail
          simp [count, List.lookup_cons, beq_eq_false_iff_ne.mpr same]
        rw [skip] at nonnegative ⊢
        have kept := induction rest nonnegative
        unfold Counter.keepPositive at kept ⊢
        by_cases positive : 0 < amount
        · rw [List.filter_cons_of_pos (by simpa using positive), skip]
          exact kept
        · rw [List.filter_cons_of_neg (by simpa using positive)]
          exact kept

end Counter

/-- The method of the manager an event runs. -/
inductive Tier.Calls (tier next : Tier) : Event → Prop where
  | none {event : Event} (manager : next.manager = tier.manager) : Calls tier next event
  | submit {transfer : Transfer} {job : JobMetadata}
      (manager : next.manager = tier.manager.submit tier.tasks.length job) :
      Calls tier next (.submit transfer job)
  | lookup {key : Bytes} {request : String}
      (manager : next.manager =
        (tier.manager.lookup tier.answered tier.probes.length key request).1) :
      Calls tier next (.lookup key request)
  | requestFinished {request : String}
      (manager : next.manager = tier.manager.onRequestFinished request) :
      Calls tier next (.requestFinished request)
  | reapOne {drain : Option Nat} {entry : JobEntry} {pending : List JobEntry}
      {finished : List Report} (before : tier.reap = some ⟨drain, entry :: pending, finished⟩)
      (manager : next.manager =
        (tier.manager.reapOne entry (tier.outcome entry.future)).1) : Calls tier next .reapOne
  | clear {call : Nat} (manager : next.manager = tier.manager.clearLookups) :
      Calls tier next (.drainStep call)

section Step

variable {F : Type} [arith : QuantArith F] [formats : DtypeArith F] {crc32 : Bytes → UInt32}
  {config : TierConfig} {tier next : Tier}

theorem Tier.lookup_calls (key : Bytes) (request : String) :
    tier.Calls (tier.lookup config key request) (.lookup key request) := by
  unfold Tier.lookup
  simp only
  split
  · split
    · exact .none rfl
    · exact .lookup rfl
  · exact .lookup rfl

theorem Tier.step_calls {event : Event} (happens : tier.step F crc32 config event = some next) :
    tier.Calls next event := by
  cases Tier.step_steps happens with
  | submit free => exact .submit rfl
  | start | work | fault | probe | answer | getFinished | returns | drops => exact .none rfl
  | lookup free => exact Tier.lookup_calls _ _
  | requestFinished free => exact .requestFinished rfl
  | reapOne before => exact .reapOne before rfl
  | drain | leaves | waits | wakes | reaps => exact .none rfl
  | clears => exact .clear rfl
  | foreign | modify => exact .none rfl

end Step

/-- How often a key occurs among the jobs in `_futures`. -/
def Manager.occurrences (manager : Manager) (key : Bytes) : Nat :=
  (manager.futures.flatMap JobEntry.keys).count key

/-- The counter of a manager is that of its jobs. -/
structure Manager.Counts (manager : Manager) : Prop where
  distinct : manager.inflightKeys.Distinct
  positive : ∀ entry ∈ manager.inflightKeys, 0 < entry.2
  counts : ∀ key, manager.inflightKeys.count key = manager.occurrences key
  futures : (manager.futures.map JobEntry.future).Nodup

/-- The counter of a manager is that of its jobs and of stray keys. -/
structure Manager.CountsBeside (manager : Manager) (stray : List Bytes) : Prop where
  distinct : manager.inflightKeys.Distinct
  positive : ∀ entry ∈ manager.inflightKeys, 0 < entry.2
  counts : ∀ key, manager.inflightKeys.count key =
    manager.occurrences key + (stray.count key : Int)
  futures : (manager.futures.map JobEntry.future).Nodup

theorem Manager.countsBeside_nil {manager : Manager} :
    manager.CountsBeside [] ↔ manager.Counts := by
  constructor
  · intro beside
    constructor
    · exact beside.distinct
    · exact beside.positive
    · intro key
      simpa using beside.counts key
    · exact beside.futures
  · intro counts
    constructor
    · exact counts.distinct
    · exact counts.positive
    · intro key
      simpa using counts.counts key
    · exact counts.futures

section Counts

variable {manager next : Manager} {stray : List Bytes}

theorem Manager.CountsBeside.of_same (counts : manager.CountsBeside stray)
    (futures : next.futures = manager.futures)
    (inflight : next.inflightKeys = manager.inflightKeys) : next.CountsBeside stray where
  distinct := by rw [inflight]; exact counts.distinct
  positive := by rw [inflight]; exact counts.positive
  counts := by
    intro key
    rw [inflight, occurrences, futures]
    exact counts.counts key
  futures := by rw [futures]; exact counts.futures

theorem Counter.update_positive {counter : Counter} (positive : ∀ entry ∈ counter, 0 < entry.2)
    (keys : List Bytes) : ∀ entry ∈ counter.update keys, 0 < entry.2 := by
  have addition : ∀ {counter : Counter} (key : Bytes), (∀ entry ∈ counter, 0 < entry.2) →
      ∀ entry ∈ counter.add key 1, 0 < entry.2 := by
    intro counter key positive
    induction counter with
    | nil => simp [Counter.add]
    | cons head counter induction =>
        have own := positive head List.mem_cons_self
        have rest := induction fun entry member => positive entry (List.mem_cons_of_mem _ member)
        intro entry member
        rw [Counter.add] at member
        split at member
        · rcases List.mem_cons.mp member with rfl | later
          · change 0 < head.2 + 1
            omega
          · exact positive entry (List.mem_cons_of_mem _ later)
        · rcases List.mem_cons.mp member with rfl | later
          · exact own
          · exact rest entry later
  unfold Counter.update
  induction keys generalizing counter with
  | nil => exact positive
  | cons key keys induction => exact induction (addition key positive)

theorem Manager.CountsBeside.update (counts : manager.CountsBeside stray) (keys : List Bytes) :
    ({ manager with inflightKeys := manager.inflightKeys.update keys } : Manager).CountsBeside
      (stray ++ keys) where
  distinct := counts.distinct.fold keys 1
  positive := Counter.update_positive counts.positive keys
  counts := by
    intro key
    change (manager.inflightKeys.update keys).count key = manager.occurrences key + _
    rw [Counter.count_update, counts.counts, List.count_append]
    push_cast
    ring
  futures := counts.futures

/-- `_submit` counts every key of the job. -/
theorem Manager.CountsBeside.submit (counts : manager.CountsBeside stray) {future : Nat}
    (fresh : ∀ entry ∈ manager.futures, entry.future ≠ future) (job : JobMetadata) :
    (manager.submit future job).CountsBeside stray where
  distinct := counts.distinct.fold job.keys 1
  positive := Counter.update_positive counts.positive job.keys
  counts := by
    intro key
    have added : (manager.submit future job).occurrences key =
        manager.occurrences key + job.keys.count key := by
      simp [occurrences, Manager.submit]
    change (manager.inflightKeys.update job.keys).count key = _
    rw [Counter.count_update, counts.counts, added]
    push_cast
    ring
  futures := by
    change ((manager.futures ++ _).map JobEntry.future).Nodup
    rw [List.map_append, List.nodup_append]
    refine ⟨counts.futures, List.nodup_singleton _, ?_⟩
    intro first inside second new
    obtain ⟨entry, member, rfl⟩ := List.mem_map.mp inside
    rw [List.mem_singleton.mp new]
    exact fresh entry member

/-- A job that is reaped takes its keys out of the counter. -/
theorem Manager.CountsBeside.reapOne (counts : manager.CountsBeside stray) {entry : JobEntry}
    (member : entry ∈ manager.futures) (outcome : Option Bool) :
    (manager.reapOne entry outcome).1.CountsBeside stray := by
  cases outcome with
  | none => exact counts
  | some success =>
      have split := perm_filter_future counts.futures member
      have occurs : ∀ key, (entry.keys.count key : Int) +
          ((manager.futures.filter fun other => other.future ≠ entry.future).flatMap
            JobEntry.keys).count key = manager.occurrences key := by
        intro key
        have whole := (split.flatMap_right JobEntry.keys).count_eq key
        rw [List.flatMap_cons, List.count_append] at whole
        rw [occurrences, ← whole]
        push_cast
        rfl
      have rest : ∀ key, (manager.inflightKeys.subtract entry.keys).count key =
          (((manager.futures.filter fun other => other.future ≠ entry.future).flatMap
            JobEntry.keys).count key : Int) + (stray.count key : Int) := by
        intro key
        rw [Counter.count_subtract, counts.counts, ← occurs]
        ring
      have distinct : (manager.inflightKeys.subtract entry.keys).Distinct :=
        counts.distinct.fold entry.keys (-1)
      constructor
      · exact distinct.keepPositive
      · intro other inside
        exact of_decide_eq_true (List.mem_filter.mp inside).2
      · intro key
        change ((manager.inflightKeys.subtract entry.keys).keepPositive).count key = _
        rw [distinct.count_keepPositive, rest]
        · rfl
        · rw [rest]
          apply Int.add_nonneg
          · exact Int.natCast_nonneg _
          · exact Int.natCast_nonneg _
      · exact counts.futures.sublist (List.filter_sublist.map JobEntry.future)

end Counts

/-- The counter is that of the jobs in `_futures` and of stray keys, and the jobs have the keys
they were submitted with. -/
structure Tier.Accounts (tier : Tier) (stray : List Bytes) : Prop where
  counts : tier.manager.CountsBeside stray
  entries : ∀ entry ∈ tier.manager.futures, ∃ task, tier.tasks[entry.future]? = some task ∧
    task.job.jobId = entry.jobId ∧ task.job.keys = entry.keys
  pending : ∀ reap, tier.reap = some reap → reap.pending.Sublist tier.manager.futures

/-- The counter is that of the jobs in `_futures`, which have the keys they were submitted
with, and every job that is not done is among them. -/
structure Tier.Inflight (tier : Tier) : Prop where
  counts : tier.manager.Counts
  entries : ∀ entry ∈ tier.manager.futures, ∃ task, tier.tasks[entry.future]? = some task ∧
    task.job.jobId = entry.jobId ∧ task.job.keys = entry.keys
  pending : ∀ reap, tier.reap = some reap → reap.pending.Sublist tier.manager.futures
  waiting : ∀ (future : Nat) (task : Task), tier.tasks[future]? = some task →
    task.work.outcome = none → ∃ entry ∈ tier.manager.futures, entry.future = future

theorem Tier.accounts_initial (data : TierData) : (Tier.initial data).Accounts [] where
  counts :=
    { distinct := List.nodup_nil
      positive := by simp [Tier.initial]
      counts := fun _ => rfl
      futures := List.nodup_nil }
  entries := by simp [Tier.initial]
  pending := by simp [Tier.initial]

theorem Tier.Inflight.accounts {tier : Tier} (inflight : tier.Inflight) : tier.Accounts [] where
  counts := Manager.countsBeside_nil.mpr inflight.counts
  entries := inflight.entries
  pending := inflight.pending

theorem Tier.inflight_initial (data : TierData) : (Tier.initial data).Inflight where
  counts := Manager.countsBeside_nil.mp (Tier.accounts_initial data).counts
  entries := (Tier.accounts_initial data).entries
  pending := (Tier.accounts_initial data).pending
  waiting := by simp [Tier.initial]

section Accounting

variable {tier next : Tier} {event : Event} {stray : List Bytes}

theorem Tier.Accounts.counts_step (accounts : tier.Accounts stray)
    (calls : tier.Calls next event) : next.manager.CountsBeside stray := by
  have counts := accounts.counts
  cases calls with
  | none manager =>
      rw [manager]
      exact counts
  | @submit transfer job manager =>
      rw [manager]
      apply counts.submit
      intro entry member same
      obtain ⟨task, present, _⟩ := accounts.entries entry member
      rw [same, List.getElem?_eq_none (Nat.le_refl _)] at present
      cases present
  | @lookup key request manager =>
      rw [manager]
      rcases tier.manager.lookup_cases tier.answered tier.probes.length key request with
        retries | asks | ⟨entry, found, _, _, _, _, takes⟩
      · rw [retries]
        exact counts
      · rw [asks]
        exact counts.of_same rfl rfl
      · rw [takes]
        exact counts.of_same rfl rfl
  | requestFinished manager =>
      rw [manager]
      exact counts.of_same rfl rfl
  | @reapOne drain entry pending finished before manager =>
      rw [manager]
      exact counts.reapOne ((accounts.pending _ before).subset List.mem_cons_self) _
  | clear manager =>
      rw [manager]
      exact counts.of_same rfl rfl

theorem Tier.Accounts.entry (accounts : tier.Accounts stray) (reports : tier.Reports next event)
    {entry : JobEntry} (member : entry ∈ tier.manager.futures) :
    ∃ task, next.tasks[entry.future]? = some task ∧ task.job.jobId = entry.jobId ∧
      task.job.keys = entry.keys := by
  obtain ⟨task, present, sameId, sameKeys⟩ := accounts.entries entry member
  obtain ⟨after, found, sameJob, _⟩ := reports.task present
  refine ⟨after, found, ?_, ?_⟩
  · rw [sameJob]
    exact sameId
  · rw [sameJob]
    exact sameKeys

/-- The step lemma. -/
theorem Tier.Accounts.step (accounts : tier.Accounts stray) (calls : tier.Calls next event)
    (reports : tier.Reports next event) : next.Accounts stray := by
  have counts := accounts.counts_step calls
  have entry := fun (entry : JobEntry) (member : entry ∈ tier.manager.futures) =>
    accounts.entry reports member
  cases reports with
  | quiet tasks futures reap returned =>
      refine ⟨counts, ?_, ?_⟩
      · rw [futures]
        exact entry
      · rw [reap, futures]
        exact accounts.pending
  | @submit transfer job free tasks futures reap returned =>
      refine ⟨counts, ?_, ?_⟩
      · rw [futures]
        intro own member
        rcases List.mem_append.mp member with old | new
        · exact entry own old
        · rw [List.mem_singleton.mp new, tasks]
          exact ⟨_, List.getElem?_concat_length, rfl, rfl⟩
      · rw [reap]
        rintro _ ⟨⟩
  | begins free tasks futures reap returned =>
      refine ⟨counts, ?_, ?_⟩
      · rw [futures]
        exact entry
      · rw [reap, futures]
        rintro _ ⟨⟩
        exact List.Sublist.refl _
  | @passes drain own pending finished before open_ tasks futures reap returned =>
      refine ⟨counts, ?_, ?_⟩
      · rw [futures]
        exact entry
      · rw [reap, futures]
        rintro _ ⟨⟩
        exact (List.sublist_cons_self own pending).trans (accounts.pending _ before)
  | @takes drain own pending finished success before done tasks futures reap returned =>
      have sublist := accounts.pending _ before
      refine ⟨counts, ?_, ?_⟩
      · rw [futures]
        intro other member
        exact entry other (List.mem_of_mem_filter member)
      · rw [reap, futures]
        rintro _ ⟨⟩
        exact sublist_filter_future accounts.counts.futures sublist
  | returns before tasks futures reap returned | drops before tasks futures reap returned =>
      refine ⟨counts, ?_, ?_⟩
      · rw [futures]
        exact entry
      · rw [reap]
        rintro _ ⟨⟩

theorem Task.Continues.outcome_none {task after : Task} (continues : task.Continues after)
    (open_ : after.work.outcome = none) : task.work.outcome = none := by
  cases work : task.work with
  | queued => rfl
  | running worker items place => rfl
  | done success =>
      rw [continues.2.2 success work] at open_
      cases open_

/-- A job that is not done stays among the entries. -/
theorem Tier.Inflight.waiting_step (inflight : tier.Inflight) (reports : tier.Reports next event) :
    ∀ (future : Nat) (task : Task), next.tasks[future]? = some task →
      task.work.outcome = none → ∃ entry ∈ next.manager.futures, entry.future = future := by
  have still : next.tasks = tier.tasks → next.manager.futures = tier.manager.futures →
      ∀ (future : Nat) (task : Task), next.tasks[future]? = some task →
        task.work.outcome = none → ∃ entry ∈ next.manager.futures, entry.future = future := by
    intro tasks futures
    rw [tasks, futures]
    exact inflight.waiting
  cases reports with
  | quiet tasks futures reap returned =>
      rw [futures]
      intro future after found open_
      obtain ⟨task, present, continues⟩ := continues_getElem?_mp tasks found
      exact inflight.waiting future task present (continues.outcome_none open_)
  | @submit transfer job free tasks futures reap returned =>
      rw [tasks, futures]
      intro future task found open_
      rcases Transition.party_of_append found with old | ⟨last, _⟩
      · obtain ⟨own, member, same⟩ := inflight.waiting future task old open_
        exact ⟨own, List.mem_append_left _ member, same⟩
      · exact ⟨_, List.mem_append_right _ (List.mem_singleton_self _), last.symm⟩
  | @takes drain own pending finished success before done tasks futures reap returned =>
      rw [tasks, futures]
      intro future task found open_
      obtain ⟨other, member, same⟩ := inflight.waiting future task found open_
      refine ⟨other, List.mem_filter.mpr ⟨member, ?_⟩, same⟩
      apply decide_eq_true
      intro equal
      rw [← equal, same, Tier.outcome, found, Option.bind_some, open_] at done
      cases done
  | begins free tasks futures | passes before open_ tasks futures | returns before tasks futures
    | drops before tasks futures => exact still tasks futures

theorem Tier.Inflight.step (inflight : tier.Inflight) (calls : tier.Calls next event)
    (reports : tier.Reports next event) : next.Inflight := by
  have accounts := inflight.accounts.step calls reports
  constructor
  · exact Manager.countsBeside_nil.mp accounts.counts
  · exact accounts.entries
  · exact accounts.pending
  · exact inflight.waiting_step reports

end Accounting

section Lookup

variable {F : Type} [arith : QuantArith F] [formats : DtypeArith F] {crc32 : Bytes → UInt32}
  {config : TierConfig} {tier next : Tier} {key : Bytes} {request : String}

theorem Tier.lookup_counted (counted : 0 < tier.manager.inflightKeys.count key)
    (happens : tier.step F crc32 config (.lookup key request) = some next) :
    next.manager = tier.manager ∧ next.answers = tier.answers ++ [⟨key, request, .retry⟩] := by
  cases Tier.step_steps happens with
  | lookup free =>
      unfold Tier.lookup Manager.lookup
      rw [if_pos counted]
      exact ⟨rfl, rfl⟩

theorem Tier.lookup_uncounted (uncounted : ¬ 0 < tier.manager.inflightKeys.count key)
    (happens : tier.step F crc32 config (.lookup key request) = some next)
    (retried : next.answers = tier.answers ++ [⟨key, request, .retry⟩]) :
    ∀ entry, tier.manager.cached key request = some entry →
      tier.answered entry.future = none := by
  intro entry cached
  cases Tier.step_steps happens with
  | lookup free =>
      cases answer : tier.answered entry.future with
      | none => rfl
      | some found =>
          simp only [Tier.lookup, Manager.lookup, if_neg uncounted, cached, answer] at retried
          cases found with
          | true => simp at retried
          | false => simp at retried

end Lookup

/-- In every state of every run: `_inflight_keys` counts the occurrences of every key among
the jobs in `_futures`, which have the keys they were submitted with and contain every job
that is not done, and it has no entry that is not positive; `lookup` retries a key of such
a job, and otherwise retries only for a lookup of its own; and without pending work no key
is counted. -/
theorem inflight_accounting (F : Type) [arith : QuantArith F] [formats : DtypeArith F]
    (crc32 : Bytes → UInt32) (config : TierConfig) (data : TierData) {events : List Event}
    {tier : Tier}
    (reached : run (Tier.step F crc32 config) (Tier.initial data) events = some tier) :
    (∀ key, tier.manager.inflightKeys.count key = tier.manager.occurrences key) ∧
      (∀ entry ∈ tier.manager.inflightKeys, 0 < entry.2) ∧
      (∀ entry ∈ tier.manager.futures, ∃ task, tier.tasks[entry.future]? = some task ∧
        task.job.jobId = entry.jobId ∧ task.job.keys = entry.keys) ∧
      (∀ (future : Nat) (task : Task), tier.tasks[future]? = some task →
        task.work.outcome = none → ∃ entry ∈ tier.manager.futures, entry.future = future) ∧
      (∀ key request next, tier.step F crc32 config (.lookup key request) = some next →
        ((∃ entry ∈ tier.manager.futures, key ∈ entry.keys) →
          next.manager = tier.manager ∧
            next.answers = tier.answers ++ [⟨key, request, .retry⟩]) ∧
        ((∀ entry ∈ tier.manager.futures, key ∉ entry.keys) →
          next.answers = tier.answers ++ [⟨key, request, .retry⟩] →
            ∀ entry, tier.manager.cached key request = some entry →
              tier.answered entry.future = none)) ∧
      (tier.manager.hasPendingWork tier.answered = false → tier.manager.inflightKeys = []) := by
  have inflight : tier.Inflight := by
    apply invariant_of_run Tier.Inflight _ (Tier.inflight_initial data) reached
    intro state event next before happens
    exact before.step (Tier.step_calls happens) (Tier.step_reports happens)
  have counts := inflight.counts
  have occurs : ∀ key, 0 < tier.manager.inflightKeys.count key ↔
      ∃ entry ∈ tier.manager.futures, key ∈ entry.keys := by
    intro key
    rw [counts.counts, Manager.occurrences, Int.natCast_pos, List.count_pos_iff,
      List.mem_flatMap]
  refine ⟨counts.counts, counts.positive, inflight.entries, inflight.waiting, ?_, ?_⟩
  · intro key request next happens
    constructor
    · intro busy
      exact Tier.lookup_counted ((occurs key).mpr busy) happens
    · intro idle retried
      apply Tier.lookup_uncounted _ happens retried
      intro counted
      obtain ⟨entry, member, asks⟩ := (occurs key).mp counted
      exact idle entry member asks
  · intro idle
    have empty : tier.manager.futures = [] := by
      cases futures : tier.manager.futures with
      | nil => rfl
      | cons entry rest => simp [Manager.hasPendingWork, futures] at idle
    apply List.eq_nil_iff_forall_not_mem.mpr
    intro entry member
    have positive := counts.positive entry member
    have none_ := counts.counts entry.1
    rw [Manager.occurrences, empty, counts.distinct.count_of_mem member] at none_
    simp at none_
    omega

/-- Of two jobs of one key that are done, one has been reaped. -/
theorem inflight_accounting_tiny :
    ∃ tier, run (Tier.step ℚ Zlib.crc32 tinyTier) (Tier.initial tinyData)
        (sharedJobs ++ [.getFinished, .reapOne]) = some tier ∧
      tier.drains = [.waiting [0, 1] []] ∧ tier.manager.futures = [⟨1, 8, [tinyKey]⟩] ∧
      tier.manager.inflightKeys.count tinyKey = 1 := by
  have computed : (run (Tier.step ℚ Zlib.crc32 tinyTier) (Tier.initial tinyData)
      (sharedJobs ++ [.getFinished, .reapOne])).map
        (fun tier => (tier.drains, tier.manager.futures)) =
      some ([.waiting [0, 1] []], [⟨1, 8, [tinyKey]⟩]) := by
    decide +kernel
  obtain ⟨tier, reached, values⟩ := Option.map_eq_some_iff.mp computed
  obtain ⟨drains, futures⟩ := Prod.mk.inj values
  have counts := (inflight_accounting ℚ Zlib.crc32 tinyTier tinyData reached).1 tinyKey
  rw [Manager.occurrences, futures] at counts
  exact ⟨tier, reached, drains, futures, counts⟩

end KVSSD

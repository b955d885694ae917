import KVSSD.VllmInflight

/-!
# Refused submissions

The tier with a pool that can be shut down and can refuse work, and with jobs whose fields
cannot be read.  `_submit` counts the keys of a job before it asks the pool: when the pool
refuses, they stay counted.
-/

namespace KVSSD

open KVSSD.Python KVSSD.Struct KVSSD.Transition

/-- A job as the engine hands it over.  A field is `none` where reading or converting it
raises. -/
structure JobFields where
  jobId : Option Int
  keys : Option (List Bytes)
  blockIds : Option (List Int)
  deriving DecidableEq, Repr

/-- `ThreadPoolExecutor.submit`: it returns a future, it raises and queues nothing, or it raises
because no thread starts, with the work already in its queue. -/
inductive PoolAnswer where
  | accepts
  | refuses
  | stalls
  deriving DecidableEq, Repr

/-- What a call of `_submit` leaves: the manager, whether it raised, and the work it queued. -/
structure Attempt where
  manager : Manager
  raised : Bool
  queued : Option JobMetadata

/-- The keys a call of `_submit` counts: none when the keys or the block ids cannot be
converted. -/
def JobFields.counted (job : JobFields) : List Bytes :=
  match job.keys, job.blockIds with
  | some keys, some _ => keys
  | _, _ => []

/-- `_submit`. -/
def Manager.trySubmit (manager : Manager) (future : Nat) (answer : PoolAnswer) (job : JobFields) :
    Attempt :=
  match job.keys, job.blockIds with
  | some keys, some blockIds =>
      let counted := { manager with inflightKeys := manager.inflightKeys.update keys }
      -- The pool does not see the id, which is read after it has answered.
      let queued : JobMetadata := ⟨job.jobId.getD 0, keys, blockIds⟩
      match answer, job.jobId with
      | .refuses, _ => ⟨counted, true, none⟩
      | .stalls, _ => ⟨counted, true, some queued⟩
      | .accepts, none => ⟨counted, true, some queued⟩
      | .accepts, some jobId =>
          ⟨manager.submit future ⟨jobId, keys, blockIds⟩, false, some queued⟩
  | _, _ => ⟨manager, true, none⟩

theorem Manager.trySubmit_cases (manager : Manager) (future : Nat) (answer : PoolAnswer)
    (job : JobFields) :
    ((manager.trySubmit future answer job).raised = true ∧
      (manager.trySubmit future answer job).manager =
        { manager with inflightKeys := manager.inflightKeys.update job.counted }) ∨
    ∃ submitted : JobMetadata, manager.trySubmit future answer job =
      ⟨manager.submit future submitted, false, some submitted⟩ := by
  unfold trySubmit JobFields.counted
  cases job.keys with
  | none => exact .inl ⟨rfl, rfl⟩
  | some keys =>
      cases job.blockIds with
      | none => exact .inl ⟨rfl, rfl⟩
      | some blockIds =>
          cases answer with
          | refuses => exact .inl ⟨rfl, rfl⟩
          | stalls => exact .inl ⟨rfl, rfl⟩
          | accepts =>
              cases job.jobId with
              | none => exact .inl ⟨rfl, rfl⟩
              | some jobId => exact .inr ⟨⟨jobId, keys, blockIds⟩, rfl⟩

theorem Counter.update_eq_self {counter : Counter} {keys : List Bytes} :
    counter.update keys = counter ↔ keys = [] := by
  constructor
  · intro same
    by_contra some_key
    obtain ⟨key, rest, rfl⟩ := List.exists_cons_of_ne_nil some_key
    have counted := counter.count_update (key :: rest) key
    rw [same, List.count_cons_self] at counted
    omega
  · rintro rfl
    rfl

/-- The tier, whether its pool is shut down, and for the record the keys that calls of `_submit`
counted before they raised. -/
structure Service where
  tier : Tier
  closed : Bool
  stray : List Bytes

namespace Service

inductive Call where
  /-- `submit_store` or `submit_load`, with the answer of the pool. -/
  | submit (transfer : Transfer) (job : JobFields) (answer : PoolAnswer)
  | lookup (key : Bytes) (request : String) (answer : PoolAnswer)
  | shutdown
  /-- Any other event of the tier. -/
  | event (event : Event)
  deriving DecidableEq, Repr

/-- A pool that is shut down refuses. -/
def Allows (service : Service) (answer : PoolAnswer) : Prop :=
  service.closed = true → answer = .refuses

instance {service : Service} {answer : PoolAnswer} : Decidable (service.Allows answer) :=
  inferInstanceAs (Decidable (_ → _))

def attempt (service : Service) (job : JobFields) (answer : PoolAnswer) : Attempt :=
  service.tier.manager.trySubmit service.tier.tasks.length answer job

/-- A call of `submit_store` or `submit_load` raises. -/
def Raises (service : Service) (job : JobFields) (answer : PoolAnswer) : Prop :=
  (service.attempt job answer).raised = true

instance {service : Service} {job : JobFields} {answer : PoolAnswer} :
    Decidable (service.Raises job answer) :=
  inferInstanceAs (Decidable (_ = _))

def submit (service : Service) (transfer : Transfer) (job : JobFields) (answer : PoolAnswer) :
    Service :=
  { tier :=
      { service.tier with
        manager := (service.attempt job answer).manager
        tasks := service.tier.tasks ++
          (service.attempt job answer).queued.toList.map fun job => ⟨transfer, job, .queued⟩ }
    closed := service.closed
    stray := service.stray ++ if service.Raises job answer then job.counted else [] }

/-- A lookup that asks the pool. -/
def Asks (service : Service) (key : Bytes) (request : String) : Prop :=
  (service.tier.manager.lookup service.tier.answered service.tier.probes.length key
    request).2.2 = true

instance {service : Service} {key : Bytes} {request : String} :
    Decidable (service.Asks key request) :=
  inferInstanceAs (Decidable (_ = _))

variable (F : Type) [arith : QuantArith F] [formats : DtypeArith F] (crc32 : Bytes → UInt32)
  (config : TierConfig)

def step (service : Service) : Call → Option Service
  | .submit transfer job answer =>
      -- Fields that cannot be converted raise before the lock is taken.
      if service.Allows answer ∧
          (job.keys.isSome → job.blockIds.isSome → service.tier.reap = none) then
        some (service.submit transfer job answer)
      else none
  | .lookup key request answer =>
      if service.Allows answer then
        if service.Asks key request ∧ answer ≠ .accepts then
          -- The pool raises, and no lookup is cached.
          if service.tier.reap = none then some service else none
        else
          (service.tier.step F crc32 config (.lookup key request)).map fun tier =>
            { service with tier := tier }
      else none
  | .shutdown => some { service with closed := true }
  | .event (.submit _ _) | .event (.lookup _ _) => none
  | .event event =>
      (service.tier.step F crc32 config event).map fun tier => { service with tier := tier }

/-- A service before the first call. -/
def initial (data : TierData) : Service := ⟨.initial data, false, []⟩

/-- A submission that raises has counted no key. -/
def Traceless (service : Service) : Call → Prop
  | .submit _ job answer => service.Raises job answer → job.counted = []
  | _ => True

/-- What a call makes of the service. -/
inductive Steps (service : Service) : Call → Service → Prop where
  | raises {transfer : Transfer} {job : JobFields} {answer : PoolAnswer} {lost : List Task}
      (raised : service.Raises job answer) :
      Steps service (.submit transfer job answer)
        { service with
          tier := { service.tier with
            manager := { service.tier.manager with
              inflightKeys := service.tier.manager.inflightKeys.update job.counted }
            tasks := service.tier.tasks ++ lost }
          stray := service.stray ++ job.counted }
  | submits {transfer : Transfer} {job : JobFields} {answer : PoolAnswer}
      {submitted : JobMetadata} {tier : Tier} (returns : ¬ service.Raises job answer)
      (happens : service.tier.step F crc32 config (.submit transfer submitted) = some tier) :
      Steps service (.submit transfer job answer) { service with tier := tier }
  | refuses {key : Bytes} {request : String} {answer : PoolAnswer}
      (asks : service.Asks key request) : Steps service (.lookup key request answer) service
  | looksUp {key : Bytes} {request : String} {answer : PoolAnswer} {tier : Tier}
      (happens : service.tier.step F crc32 config (.lookup key request) = some tier) :
      Steps service (.lookup key request answer) { service with tier := tier }
  | shutdown : Steps service .shutdown { service with closed := true }
  | event {event : Event} {tier : Tier}
      (happens : service.tier.step F crc32 config event = some tier) :
      Steps service (.event event) { service with tier := tier }

variable {F crc32 config} {service next : Service}

theorem submit_steps {transfer : Transfer} {job : JobFields} {answer : PoolAnswer}
    (locks : job.keys.isSome → job.blockIds.isSome → service.tier.reap = none) :
    service.Steps F crc32 config (.submit transfer job answer)
      (service.submit transfer job answer) := by
  rcases service.tier.manager.trySubmit_cases service.tier.tasks.length answer job with
    ⟨raised, counted⟩ | ⟨submitted, whole⟩
  · have raises : service.Raises job answer := raised
    unfold submit
    rw [if_pos raises, attempt, counted]
    exact .raises raises
  · have returns : ¬ service.Raises job answer := by
      unfold Raises attempt
      rw [whole]
      exact Bool.false_ne_true
    have free : service.tier.reap = none := by
      apply locks
      · cases keys : job.keys with
        | none => simp [Manager.trySubmit, keys] at whole
        | some keys => rfl
      · cases keys : job.keys with
        | none => simp [Manager.trySubmit, keys] at whole
        | some keys =>
            cases blockIds : job.blockIds with
            | none => simp [Manager.trySubmit, keys, blockIds] at whole
            | some blockIds => rfl
    unfold submit
    rw [if_neg returns, attempt, whole, List.append_nil]
    apply Steps.submits returns
    exact if_pos free

theorem step_steps {call : Call} (happens : service.step F crc32 config call = some next) :
    service.Steps F crc32 config call next := by
  cases call with
  | submit transfer job answer =>
      obtain ⟨⟨_, locks⟩, ⟨⟩⟩ := Option.ite_none_right_eq_some.mp happens
      exact submit_steps locks
  | lookup key request answer =>
      obtain ⟨_, happens⟩ := Option.ite_none_right_eq_some.mp happens
      by_cases refused : service.Asks key request ∧ answer ≠ .accepts
      · rw [if_pos refused] at happens
        obtain ⟨_, ⟨⟩⟩ := Option.ite_none_right_eq_some.mp happens
        exact .refuses refused.1
      · rw [if_neg refused] at happens
        obtain ⟨tier, moved, rfl⟩ := Option.map_eq_some_iff.mp happens
        exact .looksUp moved
  | shutdown =>
      cases happens
      exact .shutdown
  | event event =>
      cases event with
      | submit transfer job => cases happens
      | lookup key request => cases happens
      | start | work | fault | probe | answer | requestFinished | getFinished | reapOne | release
        | drain | drainStep | foreign | modify =>
          simp only [step] at happens
          obtain ⟨tier, moved, rfl⟩ := Option.map_eq_some_iff.mp happens
          exact .event moved

theorem accounts_count {tier : Tier} {stray : List Bytes} (accounts : tier.Accounts stray)
    (keys : List Bytes) (lost : List Task) :
    ({ tier with
        manager := { tier.manager with inflightKeys := tier.manager.inflightKeys.update keys }
        tasks := tier.tasks ++ lost } : Tier).Accounts (stray ++ keys) where
  counts := accounts.counts.update keys
  entries := by
    intro entry member
    obtain ⟨task, present, same⟩ := accounts.entries entry member
    exact ⟨task, Transition.party_append present _, same⟩
  pending := accounts.pending

theorem accounts_step {call : Call} (accounts : service.tier.Accounts service.stray)
    (happens : service.step F crc32 config call = some next) :
    next.tier.Accounts next.stray := by
  cases step_steps happens with
  | raises raised => exact accounts_count accounts _ _
  | submits returns moved => exact accounts.step (Tier.step_calls moved) (Tier.step_reports moved)
  | refuses asks => exact accounts
  | looksUp moved => exact accounts.step (Tier.step_calls moved) (Tier.step_reports moved)
  | shutdown => exact accounts
  | event moved => exact accounts.step (Tier.step_calls moved) (Tier.step_reports moved)

theorem accounts_of_run {data : TierData} {calls : List Call}
    (reached : run (Service.step F crc32 config) (Service.initial data) calls = some service) :
    service.tier.Accounts service.stray := by
  apply invariant_of_run (fun state : Service => state.tier.Accounts state.stray) _
    (Tier.accounts_initial data) reached
  intro state call next accounts happens
  exact accounts_step accounts happens

theorem stray_step {call : Call} (happens : service.step F crc32 config call = some next) :
    ∃ added, next.stray = service.stray ++ added ∧ (service.Traceless call ↔ added = []) := by
  cases step_steps happens with
  | @raises transfer job answer lost raised =>
      refine ⟨job.counted, rfl, ?_⟩
      constructor
      · intro traceless
        exact traceless raised
      · intro empty _
        exact empty
  | submits returns moved =>
      refine ⟨[], (List.append_nil _).symm, ?_⟩
      constructor
      · intro _
        rfl
      · intro _ raised
        exact absurd raised returns
  | refuses | looksUp | shutdown | event =>
      refine ⟨[], (List.append_nil _).symm, ?_⟩
      constructor
      · intro _
        rfl
      · intro _
        trivial

theorem stray_run {calls : List Call} {final : Service}
    (reached : run (Service.step F crc32 config) service calls = some final) :
    ∃ added, final.stray = service.stray ++ added ∧
      (Permitted (Service.step F crc32 config) Traceless service calls ↔ added = []) := by
  induction calls generalizing service with
  | nil =>
      cases reached
      refine ⟨[], (List.append_nil _).symm, ?_⟩
      simp [Permitted]
  | cons call calls induction =>
      obtain ⟨next, happens, rest⟩ := run_cons.mp reached
      obtain ⟨first, grown, here⟩ := stray_step happens
      obtain ⟨later, whole, there⟩ := induction rest
      refine ⟨first ++ later, ?_, ?_⟩
      · rw [whole, grown, List.append_assoc]
      · rw [List.append_eq_nil_iff, ← here, ← there]
        simp only [Permitted, happens, Option.some.injEq, forall_eq']

theorem manager_of_raises {transfer : Transfer} {job : JobFields} {answer : PoolAnswer}
    (happens : service.step F crc32 config (.submit transfer job answer) = some next)
    (raised : service.Raises job answer) :
    next.tier.manager = { service.tier.manager with
      inflightKeys := service.tier.manager.inflightKeys.update job.counted } := by
  cases step_steps happens with
  | raises raised => rfl
  | submits returns moved => exact absurd raised returns

theorem retries_of_counted {key : Bytes} {request : String} {answer : PoolAnswer}
    (counted : 0 < service.tier.manager.inflightKeys.count key)
    (happens : service.step F crc32 config (.lookup key request answer) = some next) :
    next.tier.manager = service.tier.manager ∧
      next.tier.answers = service.tier.answers ++ [⟨key, request, .retry⟩] := by
  cases step_steps happens with
  | refuses asks =>
      unfold Asks Manager.lookup at asks
      rw [if_pos counted] at asks
      cases asks
  | looksUp moved => exact Tier.lookup_counted counted moved

theorem counted_of_stray {tier : Tier} {stray : List Bytes} (accounts : tier.Accounts stray)
    {key : Bytes} (member : key ∈ stray) : 0 < tier.manager.inflightKeys.count key := by
  have counts := accounts.counts.counts key
  have present := List.count_pos_iff.mpr member
  omega

theorem inflight_eq_nil_iff {tier : Tier} {stray : List Bytes} (accounts : tier.Accounts stray)
    (idle : tier.manager.futures = []) : tier.manager.inflightKeys = [] ↔ stray = [] := by
  constructor
  · intro empty
    apply List.eq_nil_iff_forall_not_mem.mpr
    intro key member
    have counted := counted_of_stray accounts member
    rw [empty] at counted
    exact absurd counted (Int.lt_irrefl 0)
  · intro empty
    apply List.eq_nil_iff_forall_not_mem.mpr
    intro entry member
    have positive := accounts.counts.positive entry member
    have counts := accounts.counts.counts entry.1
    rw [Manager.occurrences, idle, empty, accounts.counts.distinct.count_of_mem member] at counts
    simp at counts
    omega

end Service

/-- In every state of every run: a submission that raises leaves the manager as it was exactly
when it has counted no key, because its keys or its block ids cannot be converted or because
there are no keys.  Without pending work no key is in flight exactly when every submission so far
that raised was one of these; the keys of the others are retried by every later lookup. -/
theorem refused_submissions_traceless (F : Type) [arith : QuantArith F] [formats : DtypeArith F]
    (crc32 : Bytes → UInt32) (config : TierConfig) (data : TierData) {calls : List Service.Call}
    {service : Service}
    (reached : run (Service.step F crc32 config) (Service.initial data) calls = some service) :
    (∀ transfer job answer next,
      service.step F crc32 config (.submit transfer job answer) = some next →
        service.Raises job answer →
          (next.tier.manager = service.tier.manager ↔ job.counted = [])) ∧
      (Permitted (Service.step F crc32 config) Service.Traceless (Service.initial data) calls ↔
        service.stray = []) ∧
      (service.tier.manager.hasPendingWork service.tier.answered = false →
        (service.tier.manager.inflightKeys = [] ↔ service.stray = [])) ∧
      ∀ key ∈ service.stray, ∀ more later,
        run (Service.step F crc32 config) service more = some later →
          ∀ request answer next,
            later.step F crc32 config (.lookup key request answer) = some next →
              next.tier.manager = later.tier.manager ∧
                next.tier.answers = later.tier.answers ++ [⟨key, request, .retry⟩] := by
  have accounts := Service.accounts_of_run reached
  refine ⟨?_, ?_, ?_, ?_⟩
  · intro transfer job answer next happens raised
    rw [Service.manager_of_raises happens raised, ← Counter.update_eq_self]
    constructor
    · intro same
      exact congrArg Manager.inflightKeys same
    · intro same
      rw [same]
  · obtain ⟨added, grown, permitted⟩ := Service.stray_run reached
    rw [permitted, grown]
    rfl
  · intro idle
    apply Service.inflight_eq_nil_iff accounts
    cases futures : service.tier.manager.futures with
    | nil => rfl
    | cons entry rest => simp [Manager.hasPendingWork, futures] at idle
  · intro key member more later goes request answer next happens
    have whole := run_append.mpr ⟨service, reached, goes⟩
    obtain ⟨added, grown, _⟩ := Service.stray_run goes
    apply Service.retries_of_counted _ happens
    apply Service.counted_of_stray (Service.accounts_of_run whole)
    rw [grown]
    exact List.mem_append_left _ member

/-- A store of a key that the pool refuses after it was shut down. -/
def refusedStore : List Service.Call :=
  [.shutdown, .submit .store ⟨some 7, some [tinyKey], some [0]⟩ .refuses]

/-- The key stays in flight. -/
theorem refused_submissions_traceless_tiny : ∃ service,
    run (Service.step ℚ Zlib.crc32 tinyTier) (Service.initial tinyData) refusedStore =
        some service ∧
      service.tier.manager.hasPendingWork service.tier.answered = false ∧
      service.tier.manager.inflightKeys ≠ [] := by
  obtain ⟨service, reached, stray, idle⟩ : ∃ service,
      run (Service.step ℚ Zlib.crc32 tinyTier) (Service.initial tinyData) refusedStore =
          some service ∧
        service.stray = [tinyKey] ∧
        service.tier.manager.hasPendingWork service.tier.answered = false := ⟨_, rfl, rfl, rfl⟩
  obtain ⟨_, _, inflight, _⟩ := refused_submissions_traceless ℚ Zlib.crc32 tinyTier tinyData reached
  refine ⟨service, reached, idle, ?_⟩
  intro empty
  rw [(inflight idle).mp empty] at stray
  cases stray

/-- The store raises and changes the counter, and no job can ever change it back: the key is
retried by lookups, there is no job and no lookup. -/
theorem refusedStore_leaves_key : ∃ closed refused last,
    run (Service.step ℚ Zlib.crc32 tinyTier) (Service.initial tinyData) [.shutdown] =
        some closed ∧
      closed.step ℚ Zlib.crc32 tinyTier
        (.submit .store ⟨some 7, some [tinyKey], some [0]⟩ .refuses) = some refused ∧
      closed.Raises ⟨some 7, some [tinyKey], some [0]⟩ .refuses ∧
      refused.tier.manager ≠ closed.tier.manager ∧
      refused.tier.manager.futures = [] ∧
      refused.tier.manager.hasPendingWork refused.tier.answered = false ∧
      refused.step ℚ Zlib.crc32 tinyTier (.lookup tinyKey "request" .refuses) = some last ∧
      last.tier.answers = [⟨tinyKey, "request", .retry⟩] := by
  refine ⟨_, _, _, rfl, rfl, rfl, ?_, rfl, rfl, rfl, rfl⟩
  decide

end KVSSD

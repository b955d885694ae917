import KVSSD.VllmIntegrity
import KVSSD.Lib.Zlib

/-!
# Loads

What a load has done to its slots, and what it needs to return.
-/

namespace KVSSD

open KVSSD.Python KVSSD.Struct KVSSD.Transition

section Loads

variable (F : Type) [arith : QuantArith F] [formats : DtypeArith F] {crc32 : Bytes → UInt32}
  (config : TierConfig)

/-- The slot of a round is as in an earlier cache. -/
def TierConfig.Unchanged (before primary : Bytes) (round : Bytes × Int) : Prop :=
  config.blockView primary round.2 = config.blockView before round.2

/-- What a load has done since it started with a cache: the slots of the rounds behind it
are restored, those of the others unchanged. -/
def Task.Loaded (before : Bytes) (data : TierData) (task : Task) : Prop :=
  match task.work with
  | .running _ items .next => ∃ past, task.rounds = past ++ items ∧
      (∀ round ∈ past, data.Restored F config round) ∧
      ∀ round ∈ items, config.Unchanged before data.primary round
  | .running _ items (.loading _ block) => ∃ past key, task.rounds = past ++ (key, block) :: items ∧
      (∀ round ∈ past, data.Restored F config round) ∧
      ∀ round ∈ (key, block) :: items, config.Unchanged before data.primary round
  | .done true => ∀ round ∈ task.rounds, data.Restored F config round
  | .done false => ∀ round ∈ task.rounds, data.Restored F config round ∨
      config.Unchanged before data.primary round
  | .queued | .running _ _ (.publishing _) => True

variable {F} {config}

theorem TierData.Restored.keep {data next : TierData} {round : Bytes × Int}
    (restored : data.Restored F config round)
    (grows : ∀ entry ∈ data.encoded, entry ∈ next.encoded)
    (same : config.blockView next.primary round.2 = config.blockView data.primary round.2) :
    next.Restored F config round := by
  obtain ⟨view, member, requantizedOk⟩ := restored
  exact ⟨view, grows _ member, by rw [same]; exact requantizedOk⟩

section Task

variable {task : Task} {data next : TierData} {work : Work} {before : Bytes}

theorem Task.rounds_apart {length : Nat} {past items : List (Bytes × Int)} {key : Bytes}
    {block : Int} (fitting : config.Fitting length task.job)
    (rounds : task.rounds = past ++ (key, block) :: items) :
    (∀ round ∈ past, round.2 ≠ block) ∧ ∀ round ∈ items, round.2 ≠ block := by
  have blocks : task.rounds.map Prod.snd = task.job.blockIds :=
    List.map_snd_zip (Nat.le_of_eq fitting.1.symm)
  have distinct := fitting.2.1
  rw [← blocks, rounds, List.map_append, List.map_cons, List.nodup_middle, List.nodup_cons,
    List.mem_append] at distinct
  constructor
  · rintro round member rfl
    have again := List.mem_map_of_mem (f := Prod.snd) member
    exact distinct.1 (.inl again)
  · rintro round member rfl
    have again := List.mem_map_of_mem (f := Prod.snd) member
    exact distinct.1 (.inr again)

theorem Task.fits_of_round {length : Nat} {round : Bytes × Int}
    (fitting : config.Fitting length task.job) (member : round ∈ task.rounds) :
    config.Fits length round.2 :=
  fitting.2.2 _ (List.of_mem_zip (show (round.1, round.2) ∈ task.rounds from member)).2

/-- What others do to a load. -/
theorem Task.Loaded.keep (loaded : task.Loaded F config before data)
    (grows : ∀ entry ∈ data.encoded, entry ∈ next.encoded)
    (same : ∀ block ∈ task.job.blockIds,
      config.blockView next.primary block = config.blockView data.primary block) :
    task.Loaded F config before next := by
  have slots : ∀ round ∈ task.rounds,
      config.blockView next.primary round.2 = config.blockView data.primary round.2 := by
    intro round member
    exact same _ (List.of_mem_zip (show (round.1, round.2) ∈ task.rounds from member)).2
  unfold Task.Loaded at loaded ⊢
  cases place : task.work with
  | queued => trivial
  | running worker items stage =>
      rw [place] at loaded
      cases stage with
      | next =>
          obtain ⟨past, rounds, restored, unchanged⟩ := loaded
          rw [rounds] at slots
          refine ⟨past, rounds, ?_, ?_⟩
          · intro round member
            exact (restored round member).keep grows (slots round (List.mem_append_left _ member))
          · intro round member
            exact (slots round (List.mem_append_right _ member)).trans (unchanged round member)
      | publishing publication => trivial
      | loading raw block =>
          obtain ⟨past, key, rounds, restored, unchanged⟩ := loaded
          rw [rounds] at slots
          refine ⟨past, key, rounds, ?_, ?_⟩
          · intro round member
            exact (restored round member).keep grows (slots round (List.mem_append_left _ member))
          · intro round member
            exact (slots round (List.mem_append_right _ member)).trans (unchanged round member)
  | done success =>
      rw [place] at loaded
      cases success with
      | true =>
          intro round member
          exact (loaded round member).keep grows (slots round member)
      | false =>
          intro round member
          rcases loaded round member with restored | unchanged
          · exact .inl (restored.keep grows (slots round member))
          · exact .inr ((slots round member).trans unchanged)

theorem Task.Placed.stores {worker : Worker} {items : List (Bytes × Int)}
    {publication : Publication} (placed : task.Placed F crc32 config data)
    (place : task.work = .running worker items (.publishing publication)) :
    task.transfer = .store := by
  unfold Task.Placed at placed
  rw [place] at placed
  obtain ⟨past, key, block, view, publishes⟩ := placed
  exact publishes.stores

/-- Wherever a load fails, each of its slots is restored or unchanged. -/
theorem Task.Loaded.failed (loaded : task.Loaded F config before data)
    (runs : ∃ worker items place, task.work = .running worker items place)
    (loads : task.transfer = .load) (placed : task.Placed F crc32 config data) :
    ∀ round ∈ task.rounds, data.Restored F config round ∨
      config.Unchanged before data.primary round := by
  obtain ⟨worker, items, stage, place⟩ := runs
  unfold Task.Loaded at loaded
  rw [place] at loaded
  intro round member
  cases stage with
  | next =>
      obtain ⟨past, rounds, restored, unchanged⟩ := loaded
      rw [rounds] at member
      rcases List.mem_append.mp member with behind | ahead
      · exact .inl (restored round behind)
      · exact .inr (unchanged round ahead)
  | publishing publication =>
      have stores := placed.stores place
      simp [loads] at stores
  | loading raw block =>
      obtain ⟨past, key, rounds, restored, unchanged⟩ := loaded
      rw [rounds] at member
      rcases List.mem_append.mp member with behind | ahead
      · exact .inl (restored round behind)
      · exact .inr (unchanged round ahead)

/-- A round of a load: its slot is restored, the others stay. -/
theorem Task.Steps.loaded (steps : task.Steps F crc32 config data next work)
    (loaded : task.Loaded F config before data) (loads : task.transfer = .load)
    (placed : task.Placed F crc32 config data) (reading : task.Reading F crc32 config data)
    (recorded : data.Recorded F crc32 config)
    (fitting : config.Fitting data.primary.length task.job) :
    Task.Loaded F config before next { task with work := work } := by
  cases steps with
  | ends place =>
      unfold Task.Loaded at loaded
      rw [place] at loaded
      obtain ⟨past, rounds, restored, _⟩ := loaded
      rw [List.append_nil] at rounds
      intro round member
      change round ∈ task.rounds at member
      rw [rounds] at member
      exact restored round member
  | raises place missing => exact loaded.failed ⟨_, _, _, place⟩ loads placed
  | encodes stores => simp [loads] at stores
  | @reads worker items key block path raw _ place located present =>
      unfold Task.Loaded at loaded
      rw [place] at loaded
      obtain ⟨past, rounds, restored, unchanged⟩ := loaded
      exact ⟨past, key, rounds, restored, unchanged⟩
  | publishes place happens =>
      have stores := placed.stores place
      simp [loads] at stores
  | @decodes worker items raw contents block info place decoded =>
      obtain ⟨fits, length, behind, key, view, rounds, member, requantizedOk⟩ :=
        reading.decodes recorded fitting place decoded
      unfold Task.Loaded at loaded
      rw [place] at loaded
      obtain ⟨past, other, split, restored, unchanged⟩ := loaded
      obtain ⟨rfl, same⟩ := List.append_inj' (split.symm.trans rounds) rfl
      cases same
      obtain ⟨apartBehind, apartAhead⟩ := task.rounds_apart fitting rounds
      have others : ∀ round ∈ task.rounds, round.2 ≠ block →
          config.blockView (config.writeBlock data.primary block contents) round.2 =
            config.blockView data.primary round.2 := by
        intro round inside different
        exact TierConfig.blockView_writeBlock_other fits (task.fits_of_round fitting inside) length
          different
      rw [rounds] at others
      refine ⟨past ++ [(key, block)], ?_, ?_, ?_⟩
      · change task.rounds = _
        rw [rounds]
        simp
      · intro round inside
        rcases List.mem_append.mp inside with old | new
        · exact (restored round old).keep (fun _ member => member)
            (others round (List.mem_append_left _ old) (apartBehind round old))
        · rw [List.mem_singleton.mp new]
          refine ⟨view, member, ?_⟩
          rw [TierConfig.blockView_writeBlock fits length]
          exact requantizedOk
      · intro round ahead
        have old := unchanged round (List.mem_cons_of_mem _ ahead)
        exact (others round (List.mem_append_right _ (List.mem_cons_of_mem _ ahead))
          (apartAhead round ahead)).trans old
  | refuses place refused => exact loaded.failed ⟨_, _, _, place⟩ loads placed

/-- A load whose records exist does not fail by itself. -/
theorem Task.Steps.returns (steps : task.Steps F crc32 config data next work)
    (loads : task.transfer = .load) (placed : task.Placed F crc32 config data)
    (reading : task.Reading F crc32 config data) (recorded : data.Recorded F crc32 config)
    (fitting : config.Fitting data.primary.length task.job)
    (exist : ∀ key ∈ task.job.keys, ∃ path, config.path key = .ok path ∧ (data.files path).isSome) :
    work ≠ .done false := by
  intro failed
  cases steps with
  | ends place => cases failed
  | @raises worker items key block place missing =>
      unfold Task.Placed at placed
      rw [place] at placed
      obtain ⟨past, rounds, _⟩ := placed
      have member : (key, block) ∈ task.rounds := by simp [rounds]
      obtain ⟨path, located, present⟩ := exist key (List.of_mem_zip member).1
      simp [missing loads path located] at present
  | encodes stores => simp [loads] at stores
  | reads => cases failed
  | publishes place happens =>
      have stores := placed.stores place
      simp [loads] at stores
  | decodes => cases failed
  | @refuses worker items raw block error place refused =>
      obtain ⟨past, key, rounds, encoding⟩ := reading worker items raw block place
      obtain ⟨view, restored, info, _, _, _, decoded⟩ :=
        encoding.decode recorded (fitting.2.2 block (Task.mem_blockIds rounds))
      rw [decoded] at refused
      cases refused

/-- The steps a load has left. -/
def Task.left (task : Task) : Nat :=
  match task.work with
  | .running _ items .next => 2 * items.length + 1
  | .running _ items (.loading _ _) => 2 * items.length + 2
  | .queued | .running _ _ (.publishing _) | .done _ => 0

theorem Task.Steps.left_lt (steps : task.Steps F crc32 config data next work)
    (loads : task.transfer = .load) (placed : task.Placed F crc32 config data) :
    Task.left { task with work := work } < task.left := by
  cases steps with
  | ends place => simp [Task.left, place]
  | raises place => simp [Task.left, place]
  | encodes stores => simp [loads] at stores
  | reads _ place =>
      simp only [Task.left, place, List.length_cons]
      omega
  | publishes place happens =>
      have stores := placed.stores place
      simp [loads] at stores
  | decodes place => simp [Task.left, place]
  | refuses place => simp [Task.left, place]

theorem Task.step_isSome {worker : Worker} {items : List (Bytes × Int)} {place : Place}
    (runs : task.work = .running worker items place) (size : Nat) :
    (task.step F crc32 config size data).isSome := by
  unfold Task.step
  rw [runs]
  cases place with
  | next =>
      cases items with
      | nil => rfl
      | cons round items =>
          cases transfer : task.transfer with
          | store => rfl
          | load => rfl
  | publishing publication => simp
  | loading raw block => simp

/-- A job runs on a worker. -/
def Task.Runs (task : Task) : Prop := ∃ worker items place, task.work = .running worker items place

theorem Task.Steps.runs (steps : task.Steps F crc32 config data next work) :
    Task.Runs { task with work := work } ∨ ∃ success, work = .done success := by
  cases steps with
  | ends => exact .inr ⟨true, rfl⟩
  | raises | refuses => exact .inr ⟨false, rfl⟩
  | encodes | reads | decodes => exact .inl ⟨_, _, _, rfl⟩
  | @publishes worker items publication files outcome size place happens =>
      cases outcome with
      | going after => exact .inl ⟨_, _, _, rfl⟩
      | returned => exact .inl ⟨_, _, _, rfl⟩
      | raised => exact .inr ⟨false, rfl⟩

end Task

section Tier

variable {tier next : Tier} {event : Event} {before : Bytes} {future : Nat} {task : Task}

/-- Nothing but its own steps changes the slots of a job that runs. -/
theorem Tier.Intact.slots (intact : tier.Intact F crc32 config)
    (moves : tier.Moves F crc32 config next event) (respects : tier.Respects config event)
    (present : tier.tasks[future]? = some task) (runs : task.Runs)
    (elsewhere : (∃ size, event = .work future size) ∨ event = .fault future →
      next.data = tier.data) :
    ∀ block ∈ task.job.blockIds,
      config.blockView next.data.primary block = config.blockView tier.data.primary block := by
  have busy : (tier.tasks[future]?).elim [] Task.busy = task.job.blockIds := by
    obtain ⟨worker, items, place, work⟩ := runs
    rw [present, Option.elim_some, Task.busy, work]
  have inside : future < tier.tasks.length := (List.getElem?_eq_some_iff.mp present).1
  intro block member
  cases moves with
  | still tasks data | submit tasks data | start found queued free tasks data
    | fault found moved tasks data | foreign located encoded length tasks data =>
      rw [data]
  | @work other size otherTask data work found steps tasks nextData =>
      by_cases same : future = other
      · rw [elsewhere (.inl ⟨size, same ▸ rfl⟩)]
      rw [nextData]
      cases steps with
      | ends | raises | encodes | reads | publishes | refuses => rfl
      | @decodes worker items raw contents written info place decoded =>
          have otherInside := List.mem_of_getElem? found
          obtain ⟨fits, length, _⟩ := (intact.reading otherTask otherInside).decodes
            intact.recorded (intact.fitting otherTask otherInside) place decoded
          have apart := respects written (by simp [found, Task.writing, place]) future inside
            same
          rw [busy] at apart
          apply TierConfig.blockView_writeBlock_other fits _ length
          · rintro rfl
            exact apart member
          · exact (intact.fitting task (List.mem_of_getElem? present)).2.2 block member
  | modify length tasks data =>
      rw [data]
      apply respects future inside
      rw [busy]
      exact member

/-- A load goes on with restored and unchanged slots until it is done. -/
theorem Tier.Intact.loaded_step (intact : tier.Intact F crc32 config)
    (happens : tier.step F crc32 config event = some next) (respects : tier.Respects config event)
    (present : tier.tasks[future]? = some task) (runs : task.Runs)
    (loads : task.transfer = .load) (loaded : task.Loaded F config before tier.data) :
    ∃ after, next.tasks[future]? = some after ∧ after.transfer = .load ∧ after.job = task.job ∧
      (after.Runs ∨ ∃ success, after.work = .done success) ∧
      after.Loaded F config before next.data := by
  have moves := Tier.step_moves happens
  have grows := (intact.sound.grows moves).encoded
  have member := List.mem_of_getElem? present
  have placed := intact.sound.placed task member
  cases moves.turns present with
  | stays found elsewhere =>
      refine ⟨task, found, loads, rfl, .inl runs, ?_⟩
      exact loaded.keep grows (intact.slots moves respects present runs elsewhere)
  | starts queued =>
      obtain ⟨_, _, _, work⟩ := runs
      rw [queued] at work
      cases work
  | works own steps found data =>
      refine ⟨_, found, loads, rfl, steps.runs, ?_⟩
      rw [data]
      exact steps.loaded loaded loads placed (intact.reading task member) intact.recorded
        (intact.fitting task member)
  | @faults work own moved found data =>
      have failed : work = .done false := by
        rcases Task.fault_cases moved with failed | ⟨worker, items, publication, place, _⟩
        · exact failed
        · have stores := placed.stores place
          simp [loads] at stores
      subst failed
      refine ⟨_, found, loads, rfl, .inr ⟨false, rfl⟩, ?_⟩
      rw [data]
      exact loaded.failed runs loads placed

/-- A load since it started with a cache: done, or with restored and unchanged slots. -/
def Tier.Transferring (F : Type) [arith : QuantArith F] [formats : DtypeArith F]
    (config : TierConfig) (before : Bytes) (future : Nat) (job : JobMetadata) (tier : Tier) :
    Prop :=
  ∃ task, tier.tasks[future]? = some task ∧ task.transfer = .load ∧ task.job = job ∧
    ((∃ success, task.work = .done success) ∨
      (task.Runs ∧ task.Loaded F config before tier.data))

theorem Tier.Transferring.step {job : JobMetadata}
    (transferring : tier.Transferring F config before future job)
    (intact : tier.Intact F crc32 config)
    (happens : tier.step F crc32 config event = some next)
    (respects : tier.Respects config event) :
    next.Transferring F config before future job := by
  obtain ⟨task, present, loads, rfl, ⟨success, done⟩ | ⟨runs, loaded⟩⟩ := transferring
  · obtain ⟨after, found, sameJob, sameTransfer, stays⟩ :=
      (Tier.step_reports happens).task present
    exact ⟨after, found, sameTransfer.trans loads, sameJob, .inl ⟨success, stays success done⟩⟩
  · obtain ⟨after, found, stillLoads, sameJob, goes, afterLoaded⟩ :=
      intact.loaded_step happens respects present runs loads loaded
    refine ⟨after, found, stillLoads, sameJob, ?_⟩
    rcases goes with stillRuns | done
    · exact .inr ⟨stillRuns, afterLoaded⟩
    · exact .inl done

theorem Tier.transferring_start {worker : Worker}
    (happens : tier.step F crc32 config (.start future worker) = some next) :
    ∃ task, tier.tasks[future]? = some task ∧ (task.transfer = .load →
      next.Transferring F config tier.data.primary future task.job) := by
  cases Tier.step_steps happens with
  | @start _ _ transfer job present idle =>
      refine ⟨_, present, fun loads => ?_⟩
      refine ⟨⟨transfer, job, .running worker (job.keys.zip job.blockIds) .next⟩,
        by simp [Tier.setWork, present], loads, rfl, .inr ⟨⟨_, _, _, rfl⟩, [], rfl, ?_, ?_⟩⟩
      · intro round member
        cases member
      · intro round _
        rfl

/-- A load that has not failed, and whose records exist. -/
def Tier.Hitting (config : TierConfig) (future : Nat) (job : JobMetadata) (tier : Tier) : Prop :=
  ∃ task, tier.tasks[future]? = some task ∧ task.transfer = .load ∧ task.job = job ∧
    task.work ≠ .done false ∧
    ∀ key ∈ job.keys, ∃ path, config.path key = .ok path ∧ (tier.data.files path).isSome

/-- It fails at no step but an exception of its own. -/
theorem Tier.Hitting.step {job : JobMetadata} (hitting : tier.Hitting config future job)
    (intact : tier.Intact F crc32 config)
    (happens : tier.step F crc32 config event = some next) (quiet : event ≠ .fault future) :
    next.Hitting config future job := by
  obtain ⟨task, present, loads, rfl, fine, exist⟩ := hitting
  have moves := Tier.step_moves happens
  have grows := intact.sound.grows moves
  have member := List.mem_of_getElem? present
  have still : ∀ key ∈ task.job.keys,
      ∃ path, config.path key = .ok path ∧ (next.data.files path).isSome := by
    intro key asks
    obtain ⟨path, located, exists_⟩ := exist key asks
    exact ⟨path, located, grows.records key path located exists_⟩
  cases moves.turns present with
  | stays found => exact ⟨task, found, loads, rfl, fine, still⟩
  | starts queued found => exact ⟨_, found, loads, rfl, Work.noConfusion, still⟩
  | works own steps found =>
      refine ⟨_, found, loads, rfl, ?_, still⟩
      exact steps.returns loads (intact.sound.placed task member) (intact.reading task member)
        intact.recorded (intact.fitting task member) exist
  | faults own => exact absurd own quiet

theorem Tier.step_work (F : Type) [arith : QuantArith F] [formats : DtypeArith F]
    (crc32 : Bytes → UInt32) (config : TierConfig) (present : tier.tasks[future]? = some task)
    (runs : task.Runs) (size : Nat) :
    ∃ data work next, task.Steps F crc32 config tier.data data work ∧
      tier.step F crc32 config (.work future size) = some next ∧
      next.tasks[future]? = some { task with work := work } := by
  obtain ⟨worker, items, place, work⟩ := runs
  have moves : (task.step F crc32 config size tier.data).isSome := Task.step_isSome work size
  obtain ⟨⟨data, after⟩, moved⟩ := Option.isSome_iff_exists.mp moves
  refine ⟨data, after, { tier.setWork future after with data := data }, Task.step_steps moved,
    ?_, ?_⟩
  · simp [Tier.step, present, moved]
  · simp [Tier.setWork, present]

/-- With the steps it has left, it returns. -/
theorem Tier.Hitting.returns {job : JobMetadata} (hitting : tier.Hitting config future job)
    (intact : tier.Intact F crc32 config) (present : tier.tasks[future]? = some task)
    (runs : task.Runs) :
    ∃ count final, run (Tier.step F crc32 config) tier
        (List.replicate count (.work future 0)) = some final ∧
      final.outcome future = some true := by
  induction measure : task.left using Nat.strong_induction_on generalizing tier task with
  | _ left induction =>
      have member := List.mem_of_getElem? present
      have loads : task.transfer = .load := by
        obtain ⟨own, found, loads, _⟩ := hitting
        rw [present] at found
        cases found
        exact loads
      obtain ⟨data, work, next, steps, happens, found⟩ :=
        Tier.step_work F crc32 config present runs 0
      have after := hitting.step intact happens Event.noConfusion
      have afterIntact := intact.step happens fun _ _ => Event.noConfusion
      rcases steps.runs with stillRuns | ⟨success, done⟩
      · have less := steps.left_lt loads (intact.sound.placed task member)
        rw [measure] at less
        obtain ⟨count, final, rest, returned⟩ :=
          induction _ less after afterIntact found stillRuns rfl
        refine ⟨count + 1, final, ?_, returned⟩
        rw [List.replicate_succ]
        exact run_cons.mpr ⟨next, happens, rest⟩
      · subst done
        have succeeded : success = true := by
          obtain ⟨own, again, _, _, fine, _⟩ := after
          rw [found] at again
          cases again
          cases success with
          | true => rfl
          | false => exact absurd rfl fine
        subst succeeded
        refine ⟨1, next, run_cons.mpr ⟨next, happens, rfl⟩, ?_⟩
        rw [Tier.outcome, found]
        rfl

theorem Tier.intact_of_run {data : TierData} (recorded : data.Recorded F crc32 config)
    {events : List Event}
    (permitted : Permitted (Tier.step F crc32 config) (Tier.Respects config)
      (Tier.initial data) events)
    (reached : run (Tier.step F crc32 config) (Tier.initial data) events = some tier) :
    tier.Intact F crc32 config := by
  apply invariant_of_permitted_run _ permitted (Tier.intact_initial recorded) reached
  intro state event next respects before happens
  exact before.step happens respects.submits

theorem Tier.Intact.hitting_submit {job : JobMetadata} (intact : tier.Intact F crc32 config)
    (happens : tier.step F crc32 config (.submit .load job) = some next)
    (hits : ∀ key ∈ job.keys, ∃ request, ⟨key, request, .hit⟩ ∈ tier.answers) :
    next.Hitting config tier.tasks.length job := by
  cases Tier.step_steps happens with
  | submit free =>
      refine ⟨⟨.load, job, .queued⟩, by simp, rfl, rfl, Work.noConfusion, ?_⟩
      intro key asks
      obtain ⟨request, member⟩ := hits key asks
      exact intact.asked.hits _ member rfl

/-- It does not fail unless it raises at a file operation of its own, and returns with
the steps it has left. -/
theorem Tier.load_returns {data : TierData} (recorded : data.Recorded F crc32 config)
    {earlier later : List Event} {job : JobMetadata} {first : Tier}
    (permitted : Permitted (Tier.step F crc32 config) (Tier.Respects config)
      (Tier.initial data) (earlier ++ .submit .load job :: later))
    (arrived : run (Tier.step F crc32 config) (Tier.initial data) earlier = some first)
    (reached : run (Tier.step F crc32 config) (Tier.initial data)
      (earlier ++ .submit .load job :: later) = some tier)
    (hits : ∀ key ∈ job.keys, ∃ request, ⟨key, request, .hit⟩ ∈ first.answers)
    (quiet : Event.fault first.tasks.length ∉ later) :
    ∃ task, tier.tasks[first.tasks.length]? = some task ∧ task.transfer = .load ∧
      task.job = job ∧ task.work ≠ .done false ∧
      (task.Runs → ∃ count final, run (Tier.step F crc32 config) tier
          (List.replicate count (.work first.tasks.length 0)) = some final ∧
        final.outcome first.tasks.length = some true) := by
  obtain ⟨middle, again, rest⟩ := run_append.mp reached
  rw [arrived] at again
  cases again
  obtain ⟨allowedFirst, allowedRest⟩ := (permitted_append arrived).mp permitted
  obtain ⟨submitted, happens, goes⟩ := run_cons.mp rest
  have firstIntact := Tier.intact_of_run recorded allowedFirst arrived
  have intact := firstIntact.step happens allowedRest.1.submits
  have hitting := firstIntact.hitting_submit happens hits
  have allowed : Permitted (Tier.step F crc32 config)
      (fun tier event => tier.Respects config event ∧ event ≠ .fault first.tasks.length)
      submitted later := by
    apply (allowedRest.2 submitted happens).mono
    exact fun event member _ respects => ⟨respects, fun same => quiet (same ▸ member)⟩
  have both : tier.Intact F crc32 config ∧ tier.Hitting config first.tasks.length job := by
    apply invariant_of_permitted_run _ allowed ⟨intact, hitting⟩ goes
    intro state event next respects before moved
    exact ⟨before.1.step moved respects.1.submits, before.2.step before.1 moved respects.2⟩
  obtain ⟨task, present, loads, same, fine, _⟩ := both.2
  exact ⟨task, present, loads, same, fine, fun runs => both.2.returns both.1 present runs⟩

/-- What a load that is done has made of its slots. -/
theorem Tier.load_slots {data : TierData} (recorded : data.Recorded F crc32 config)
    {earlier later : List Event} {worker : Worker} {last : Event} {first middle : Tier}
    {success : Bool}
    (permitted : Permitted (Tier.step F crc32 config) (Tier.Respects config)
      (Tier.initial data) (earlier ++ .start future worker :: later ++ [last]))
    (arrived : run (Tier.step F crc32 config) (Tier.initial data) earlier = some first)
    (goes : run (Tier.step F crc32 config) (Tier.initial data)
      (earlier ++ .start future worker :: later) = some middle)
    (reached : run (Tier.step F crc32 config) (Tier.initial data)
      (earlier ++ .start future worker :: later ++ [last]) = some tier)
    (open_ : middle.outcome future = none) (present : tier.tasks[future]? = some task)
    (loads : task.transfer = .load) (done : task.work = .done success) :
    ∀ round ∈ task.rounds, tier.data.Restored F config round ∨
      (success = false ∧ config.Unchanged first.data.primary tier.data.primary round) := by
  obtain ⟨allowed, allowedLast⟩ := (permitted_append goes).mp permitted
  obtain ⟨_, again, lastRun⟩ := run_append.mp reached
  rw [goes] at again
  cases again
  obtain ⟨final, ends, same⟩ := run_cons.mp lastRun
  cases same
  obtain ⟨_, again, rest⟩ := run_append.mp goes
  rw [arrived] at again
  cases again
  obtain ⟨allowedFirst, allowedRest⟩ := (permitted_append arrived).mp allowed
  obtain ⟨started, happens, continues⟩ := run_cons.mp rest
  have firstIntact := Tier.intact_of_run recorded allowedFirst arrived
  have startedIntact := firstIntact.step happens allowedRest.1.submits
  obtain ⟨origin, found, transfers⟩ := Tier.transferring_start happens
  have whole : run (Tier.step F crc32 config) first
      (.start future worker :: later ++ [last]) = some tier := by
    rw [run_append]
    exact ⟨middle, rest, run_cons.mpr ⟨tier, ends, rfl⟩⟩
  obtain ⟨_, again, sameJob, sameTransfer, _⟩ := Tier.task_of_run whole found
  rw [present] at again
  cases again
  have transferring := transfers (sameTransfer.symm.trans loads)
  have both : middle.Intact F crc32 config ∧
      middle.Transferring F config first.data.primary future origin.job := by
    apply invariant_of_permitted_run _ (allowedRest.2 started happens)
      ⟨startedIntact, transferring⟩ continues
    intro state event next respects before moved
    exact ⟨before.1.step moved respects.submits, before.2.step before.1 moved respects⟩
  obtain ⟨running, there, runningLoads, _, ⟨other, over_⟩ | ⟨runs, loaded⟩⟩ := both.2
  · rw [Tier.outcome, there, Option.bind_some, over_] at open_
    cases open_
  · obtain ⟨after, now, _, _, _, result⟩ :=
      both.1.loaded_step ends allowedLast.1 there runs runningLoads loaded
    rw [present] at now
    cases now
    unfold Task.Loaded at result
    rw [done] at result
    intro round member
    cases success with
    | true => exact .inl (result round member)
    | false =>
        rcases result round member with restored | unchanged
        · exact .inl restored
        · exact .inr ⟨rfl, unchanged⟩

/-- Bytes outside the slots of a job. -/
theorem Tier.Intact.outside (intact : tier.Intact F crc32 config)
    (happens : tier.step F crc32 config event = some next)
    (own : (∃ size, event = .work future size) ∨ event = .fault future)
    (present : tier.tasks[future]? = some task) :
    (task.transfer = .store → next.data.primary = tier.data.primary) ∧
      ∀ index, (∀ block ∈ task.job.blockIds, ¬ config.Inside block index) →
        next.data.primary[index]? = tier.data.primary[index]? := by
  have member := List.mem_of_getElem? present
  have still : next.data = tier.data →
      (task.transfer = .store → next.data.primary = tier.data.primary) ∧
        ∀ index, (∀ block ∈ task.job.blockIds, ¬ config.Inside block index) →
          next.data.primary[index]? = tier.data.primary[index]? := by
    intro data
    rw [data]
    exact ⟨fun _ => rfl, fun _ _ => rfl⟩
  cases (Tier.step_moves happens).turns present with
  | stays found elsewhere => exact still (elsewhere own)
  | starts queued found data => exact still data
  | works same steps found data =>
      rw [data]
      exact steps.outside (intact.sound.placed task member) (intact.reading task member)
        intact.recorded (intact.fitting task member)
  | faults same moved found data => exact still data

end Tier

end Loads

/-- Integrity of the tier. Every record is an encoding of a slot for its key at first; jobs
have parallel keys and distinct blocks of the cache, and nothing else changes their slots
while they run. Then along every run: a load submitted after hits for all its keys does
not fail unless it raises at a file operation of its own, and returns with the steps it
has left; when a load returns, the slot of every key holds a requantized block that was
encoded for that key; when it raises, every slot holds such a block or what it held when
the load started; and a job changes no byte outside its slots, a store none at all. -/
theorem tier_integrity (F : Type) [arith : QuantArith F] [formats : DtypeArith F]
    (crc32 : Bytes → UInt32) (config : TierConfig) (data : TierData)
    (recorded : data.Recorded F crc32 config) {events : List Event} {tier : Tier}
    (permitted : Permitted (Tier.step F crc32 config) (Tier.Respects config)
      (Tier.initial data) events)
    (reached : run (Tier.step F crc32 config) (Tier.initial data) events = some tier) :
    (∀ earlier later job before, events = earlier ++ .submit .load job :: later →
      run (Tier.step F crc32 config) (Tier.initial data) earlier = some before →
      (∀ key ∈ job.keys, ∃ request, ⟨key, request, .hit⟩ ∈ before.answers) →
      Event.fault before.tasks.length ∉ later →
      ∃ task, tier.tasks[before.tasks.length]? = some task ∧ task.transfer = .load ∧
        task.job = job ∧ task.work ≠ .done false ∧
        (task.Runs → ∃ count final, run (Tier.step F crc32 config) tier
            (List.replicate count (.work before.tasks.length 0)) = some final ∧
          final.outcome before.tasks.length = some true)) ∧
    (∀ earlier later future worker last before middle task success,
      events = earlier ++ .start future worker :: later ++ [last] →
      run (Tier.step F crc32 config) (Tier.initial data) earlier = some before →
      run (Tier.step F crc32 config) (Tier.initial data)
        (earlier ++ .start future worker :: later) = some middle →
      middle.outcome future = none → tier.tasks[future]? = some task →
      task.transfer = .load → task.work = .done success →
      ∀ round ∈ task.rounds, tier.data.Restored F config round ∨
        (success = false ∧
          config.Unchanged before.data.primary tier.data.primary round)) ∧
    ∀ event future task next, tier.step F crc32 config event = some next →
      ((∃ size, event = .work future size) ∨ event = .fault future) →
      tier.tasks[future]? = some task →
      (task.transfer = .store → next.data.primary = tier.data.primary) ∧
        ∀ index, (∀ block ∈ task.job.blockIds, ¬ config.Inside block index) →
          next.data.primary[index]? = tier.data.primary[index]? := by
  have intact := Tier.intact_of_run recorded permitted reached
  refine ⟨?_, ?_, ?_⟩
  · rintro earlier later job before rfl arrived hits quiet
    exact Tier.load_returns recorded permitted arrived reached hits quiet
  · rintro earlier later future worker last before middle task success rfl arrived goes open_
      present loads done
    exact Tier.load_slots recorded permitted arrived goes reached open_ present loads done
  · intro event future task next happens own present
    exact intact.outside happens own present

/-- Two ones in the first slot. -/
def tinyOnes : TierData := { tinyData with primary := [0, 60, 0, 60, 0, 0, 0, 0] }

/-- The first slot is stored, and its key looked up until it hits. -/
def tinyHit : List Event :=
  tinyStore ++ [.getFinished, .reapOne, .release, .lookup tinyKey "request", .probe 0, .answer 0,
    .lookup tinyKey "request"]

/-- A load into the second slot after the hit. -/
theorem tier_integrity_tiny :
    ∃ tier, run (Tier.step ℚ Zlib.crc32 tinyTier) (Tier.initial tinyOnes)
        (tinyHit ++ [.submit .load ⟨8, [tinyKey], [1]⟩] ++
          .start 1 tinyWorker :: [.work 1 0, .work 1 0] ++ [.work 1 0]) = some tier ∧
      tier.tasks[1]? = some ⟨.load, ⟨8, [tinyKey], [1]⟩, .done true⟩ ∧
      tier.data.Restored ℚ tinyTier (tinyKey, 1) := by
  have computed : (do
      let first ← run (Tier.step ℚ Zlib.crc32 tinyTier) (Tier.initial tinyOnes)
        (tinyHit ++ [.submit .load ⟨8, [tinyKey], [1]⟩])
      let middle ← run (Tier.step ℚ Zlib.crc32 tinyTier) first
        (.start 1 tinyWorker :: [.work 1 0, .work 1 0])
      let tier ← run (Tier.step ℚ Zlib.crc32 tinyTier) middle [.work 1 0]
      some (middle.outcome 1, tier.tasks[1]?)) =
      some (none, some ⟨.load, ⟨8, [tinyKey], [1]⟩, .done true⟩) := by
    decide +kernel
  have permitted : Permitted (Tier.step ℚ Zlib.crc32 tinyTier) (Tier.Respects tinyTier)
      (Tier.initial tinyOnes) (tinyHit ++ [.submit .load ⟨8, [tinyKey], [1]⟩] ++
        .start 1 tinyWorker :: [.work 1 0, .work 1 0] ++ [.work 1 0]) := by
    decide +kernel
  simp only [Option.bind_eq_bind, Option.bind_eq_some_iff, Option.some.injEq,
    Prod.mk.injEq] at computed
  obtain ⟨first, arrived, middle, goes, tier, ends, open_, present⟩ := computed
  have toMiddle := run_append.mpr ⟨first, arrived, goes⟩
  have reached := run_append.mpr ⟨middle, toMiddle, ends⟩
  have recorded : tinyOnes.Recorded ℚ Zlib.crc32 tinyTier := by
    constructor
    · rintro key path raw _ ⟨⟩
    · intro entry member
      cases member
  have integrity := tier_integrity ℚ Zlib.crc32 tinyTier tinyOnes recorded permitted reached
  have slots := integrity.2.1 (tinyHit ++ [.submit .load ⟨8, [tinyKey], [1]⟩])
    [.work 1 0, .work 1 0] 1 tinyWorker (.work 1 0) first middle
    ⟨.load, ⟨8, [tinyKey], [1]⟩, .done true⟩ true rfl
  rcases slots arrived toMiddle open_ present rfl rfl (tinyKey, 1) (List.mem_singleton_self _) with
    restored | ⟨impossible, _⟩
  · exact ⟨tier, reached, present, restored⟩
  · cases impossible

end KVSSD

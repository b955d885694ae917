import KVSSD.VllmSteps

/-!
# Jobs and their files

What an event does to jobs, files and slots, and where the jobs stand: the rounds a
store job has finished have left a record, and the temporary of a publication is
that of its worker alone.
-/

namespace KVSSD

open KVSSD.Python KVSSD.Struct KVSSD.Transition

section Jobs

variable (F : Type) [arith : QuantArith F] [formats : DtypeArith F] (crc32 : Bytes → UInt32)
  (config : TierConfig)

/-- What a step of a job does. -/
inductive Task.Steps (task : Task) (data : TierData) : TierData → Work → Prop where
  | ends {worker : Worker} (place : task.work = .running worker [] .next) :
      Steps task data data (.done true)
  /-- The head of a round raises: for a load, because there is no record. -/
  | raises {worker : Worker} {items : List (Bytes × Int)} {key : Bytes} {block : Int}
      (place : task.work = .running worker ((key, block) :: items) .next)
      (missing : task.transfer = .load → ∀ path, config.path key = .ok path →
        data.files path = none) : Steps task data data (.done false)
  | encodes {worker : Worker} {items : List (Bytes × Int)} {key : Bytes} {block : Int}
      {path : FilePath} {record : Bytes} (stores : task.transfer = .store)
      (place : task.work = .running worker ((key, block) :: items) .next)
      (located : config.path key = .ok path)
      (encoded : encodeVllmBlock F crc32 (config.blockView data.primary block) config.bits
        config.groupSize config.dtype = .ok record) :
      Steps task data
        { data with encoded := data.encoded ++ [(key, config.blockView data.primary block)] }
        (.running worker items (.publishing ⟨path, record, .entered⟩))
  | reads {worker : Worker} {items : List (Bytes × Int)} {key : Bytes} {block : Int}
      {path : FilePath} {raw : Bytes} (loads : task.transfer = .load)
      (place : task.work = .running worker ((key, block) :: items) .next)
      (located : config.path key = .ok path) (present : data.files path = some raw) :
      Steps task data data (.running worker items (.loading raw block))
  | publishes {worker : Worker} {items : List (Bytes × Int)} {publication : Publication}
      {files : FileSystem} {outcome : Outcome} {size : Nat}
      (place : task.work = .running worker items (.publishing publication))
      (happens : publication.step worker size data.files = (files, outcome)) :
      Steps task data { data with files := files } (outcome.work worker items)
  | decodes {worker : Worker} {items : List (Bytes × Int)} {raw contents : Bytes} {block : Int}
      {info : VLLMRecordInfo} (place : task.work = .running worker items (.loading raw block))
      (decoded : decodeVllmBlock F crc32 raw (config.blockView data.primary block) =
        .ok (contents, info)) :
      Steps task data
        { data with primary := config.writeBlock data.primary block contents }
        (.running worker items .next)
  | refuses {worker : Worker} {items : List (Bytes × Int)} {raw : Bytes} {block : Int}
      {error : PyError} (place : task.work = .running worker items (.loading raw block))
      (refused : decodeVllmBlock F crc32 raw (config.blockView data.primary block) =
        .error error) :
      Steps task data data (.done false)

variable {F} {crc32} {config}

theorem Task.step_steps {task : Task} {size : Nat} {data next : TierData} {work : Work}
    (happens : task.step F crc32 config size data = some (next, work)) :
    task.Steps F crc32 config data next work := by
  unfold Task.step at happens
  split at happens
  · rename_i worker place
    cases happens
    exact .ends place
  · rename_i worker key block items place
    split at happens
    · rename_i stores
      unfold storeRound at happens
      split at happens
      · cases happens
        exact .raises place fun loads => by simp [stores] at loads
      · rename_i path located
        simp only at happens
        split at happens
        · cases happens
          exact .raises place fun loads => by simp [stores] at loads
        · rename_i record encoded
          cases happens
          exact .encodes stores place located encoded
    · rename_i loads
      unfold loadRound at happens
      split at happens
      · rename_i error refused
        cases happens
        exact .raises place fun _ path located => by simp [refused] at located
      · rename_i path located
        split at happens
        · rename_i absent
          cases happens
          refine .raises place fun _ other otherLocated => ?_
          rw [located] at otherLocated
          cases otherLocated
          exact absent
        · rename_i raw present
          cases happens
          exact .reads loads place located present
  · rename_i worker items publication place
    unfold publishStep at happens
    cases result : publication.step worker size data.files with
    | mk files outcome =>
        rw [result] at happens
        cases happens
        exact .publishes place result
  · rename_i worker items raw block place
    unfold loadBlock at happens
    split at happens
    · rename_i error refused
      cases happens
      exact .refuses place refused
    · rename_i contents info decoded
      cases happens
      exact .decodes place decoded
  · cases happens
  · cases happens

theorem Task.fault_cases {task : Task} {work : Work} (happens : task.fault = some work) :
    work = .done false ∨ ∃ worker items publication,
      task.work = .running worker items (.publishing publication) ∧
        work = publication.fault.work worker items := by
  unfold Task.fault at happens
  split at happens
  · rename_i worker items publication place
    cases happens
    exact .inr ⟨worker, items, publication, place, rfl⟩
  · cases happens
    exact .inl rfl
  · cases happens
    exact .inl rfl
  · cases happens
  · cases happens

/-- What an event does to jobs, files and slots. -/
inductive Tier.Moves (F : Type) [arith : QuantArith F] [formats : DtypeArith F]
    (crc32 : Bytes → UInt32) (config : TierConfig) (tier next : Tier) : Event → Prop where
  | still {event : Event} (tasks : next.tasks = tier.tasks) (data : next.data = tier.data) :
      Moves F crc32 config tier next event
  | submit {transfer : Transfer} {job : JobMetadata}
      (tasks : next.tasks = tier.tasks ++ [⟨transfer, job, .queued⟩])
      (data : next.data = tier.data) : Moves F crc32 config tier next (.submit transfer job)
  | start {future : Nat} {worker : Worker} {task : Task}
      (present : tier.tasks[future]? = some task) (queued : task.work = .queued)
      (free : ∀ other ∈ tier.tasks, other.work.onWorker worker = false)
      (tasks : next.tasks = tier.tasks.modify future fun own =>
        { own with work := .running worker (task.job.keys.zip task.job.blockIds) .next })
      (data : next.data = tier.data) : Moves F crc32 config tier next (.start future worker)
  | work {future size : Nat} {task : Task} {data : TierData} {work : Work}
      (present : tier.tasks[future]? = some task)
      (steps : task.Steps F crc32 config tier.data data work)
      (tasks : next.tasks = tier.tasks.modify future fun task => { task with work := work })
      (data : next.data = data) : Moves F crc32 config tier next (.work future size)
  | fault {future : Nat} {task : Task} {work : Work}
      (present : tier.tasks[future]? = some task) (moved : task.fault = some work)
      (tasks : next.tasks = tier.tasks.modify future fun task => { task with work := work })
      (data : next.data = tier.data) : Moves F crc32 config tier next (.fault future)
  | foreign {key contents record : Bytes} {path : FilePath}
      (located : config.path key = .ok path)
      (encoded : encodeVllmBlock F crc32 contents config.bits config.groupSize config.dtype =
        .ok record) (length : contents.length = config.blockBytes)
      (tasks : next.tasks = tier.tasks)
      (data : next.data = { tier.data with
        files := tier.data.files.put path (some record)
        encoded := tier.data.encoded ++ [(key, contents)] }) :
      Moves F crc32 config tier next (.foreign key contents)
  | modify {primary : Bytes} (length : primary.length = tier.data.primary.length)
      (tasks : next.tasks = tier.tasks) (data : next.data = { tier.data with primary := primary }) :
      Moves F crc32 config tier next (.modify primary)

theorem Tier.lookup_still (tier : Tier) (key : Bytes) (request : String) :
    (tier.lookup config key request).tasks = tier.tasks ∧
      (tier.lookup config key request).data = tier.data := by
  unfold Tier.lookup
  simp only
  split
  · split
    · exact ⟨rfl, rfl⟩
    · exact ⟨rfl, rfl⟩
  · exact ⟨rfl, rfl⟩

theorem Tier.step_moves {tier next : Tier} {event : Event}
    (happens : tier.step F crc32 config event = some next) :
    tier.Moves F crc32 config next event := by
  cases Tier.step_steps happens with
  | submit free => exact .submit rfl rfl
  | start present idle => exact .start present rfl idle rfl rfl
  | work present moved => exact .work present (Task.step_steps moved) rfl rfl
  | fault present moved => exact .fault present moved rfl rfl
  | lookup free =>
      exact .still (Tier.lookup_still tier _ _).1 (Tier.lookup_still tier _ _).2
  | probe | answer | requestFinished | getFinished | reapOne | returns | drops =>
      exact .still rfl rfl
  | drain | leaves | waits | wakes | reaps | clears => exact .still rfl rfl
  | foreign located encoded length => exact .foreign located encoded length rfl rfl
  | modify length => exact .modify length rfl rfl

/-- The rounds of the loop of a job. -/
def Task.rounds (task : Task) : List (Bytes × Int) := task.job.keys.zip task.job.blockIds

/-- A job stays as it is, starts, works or raises. -/
inductive Tier.Turns (F : Type) [arith : QuantArith F] [formats : DtypeArith F]
    (crc32 : Bytes → UInt32) (config : TierConfig) (tier next : Tier) (event : Event)
    (future : Nat) (task : Task) : Prop where
  | stays (found : next.tasks[future]? = some task)
      (elsewhere : (∃ size, event = .work future size) ∨ event = .fault future →
        next.data = tier.data) : Turns F crc32 config tier next event future task
  | starts {worker : Worker} (queued : task.work = .queued)
      (found : next.tasks[future]? =
        some { task with work := .running worker task.rounds .next })
      (data : next.data = tier.data) : Turns F crc32 config tier next event future task
  | works {size : Nat} {data : TierData} {work : Work} (own : event = .work future size)
      (steps : task.Steps F crc32 config tier.data data work)
      (found : next.tasks[future]? = some { task with work := work }) (data : next.data = data) :
      Turns F crc32 config tier next event future task
  | faults {work : Work} (own : event = .fault future) (moved : task.fault = some work)
      (found : next.tasks[future]? = some { task with work := work })
      (data : next.data = tier.data) : Turns F crc32 config tier next event future task

theorem Tier.Moves.turns {tier next : Tier} {event : Event} {future : Nat} {task : Task}
    (moves : tier.Moves F crc32 config next event) (present : tier.tasks[future]? = some task) :
    tier.Turns F crc32 config next event future task := by
  have modified : ∀ {other : Nat} {change : Task → Task},
      next.tasks = tier.tasks.modify other change →
      next.tasks[future]? = some (if other = future then change task else task) := by
    intro other change tasks
    rw [tasks, List.getElem?_modify, present]
    rfl
  cases moves with
  | still tasks data =>
      exact .stays (by rw [tasks]; exact present) fun _ => data
  | submit tasks data =>
      apply Tier.Turns.stays _ fun _ => data
      rw [tasks]
      exact Transition.party_append present _
  | @start other worker otherTask found queued free tasks data =>
      have after := modified tasks
      by_cases same : other = future
      · subst same
        rw [present] at found
        cases found
        rw [if_pos rfl] at after
        exact .starts queued after data
      · rw [if_neg same] at after
        exact .stays after fun _ => data
  | @work other size otherTask data work found steps tasks nextData =>
      have after := modified tasks
      by_cases same : other = future
      · subst same
        rw [present] at found
        cases found
        rw [if_pos rfl] at after
        exact .works rfl steps after nextData
      · rw [if_neg same] at after
        apply Tier.Turns.stays after
        rintro (⟨_, ⟨⟩⟩ | ⟨⟨⟩⟩)
        exact absurd rfl same
  | @fault other otherTask work found faults tasks data =>
      have after := modified tasks
      by_cases same : other = future
      · subst same
        rw [present] at found
        cases found
        rw [if_pos rfl] at after
        exact .faults rfl faults after data
      · rw [if_neg same] at after
        exact .stays after fun _ => data
  | foreign located encoded length tasks data | modify length tasks data =>
      apply Tier.Turns.stays
      · rw [tasks]
        exact present
      · rintro (⟨_, ⟨⟩⟩ | ⟨⟨⟩⟩)

/-- The records of some rounds exist. -/
def TierConfig.Present (config : TierConfig) (files : FileSystem) (items : List (Bytes × Int)) :
    Prop :=
  ∀ item ∈ items, ∃ path, config.path item.1 = .ok path ∧ (files path).isSome

/-- A store job in a call of `store_record_atomic`: it stores an encoding of a slot for
the key of this round. -/
structure Task.Publishes (F : Type) [arith : QuantArith F] [formats : DtypeArith F]
    (crc32 : Bytes → UInt32) (config : TierConfig) (data : TierData) (task : Task)
    (worker : Worker) (items : List (Bytes × Int)) (publication : Publication)
    (past : List (Bytes × Int)) (key : Bytes) (block : Int) (view : Bytes) : Prop where
  stores : task.transfer = .store
  rounds : task.rounds = past ++ (key, block) :: items
  present : config.Present data.files past
  located : config.path key = .ok publication.path
  sound : publication.Sound worker data.files
  viewed : (key, view) ∈ data.encoded
  encoded : encodeVllmBlock F crc32 view config.bits config.groupSize config.dtype =
    .ok publication.record

/-- Where a job stands. -/
def Task.Placed (F : Type) [arith : QuantArith F] [formats : DtypeArith F]
    (crc32 : Bytes → UInt32) (config : TierConfig) (data : TierData) (task : Task) : Prop :=
  match task.work with
  | .queued | .done false => True
  | .running _ items .next =>
      ∃ past, task.rounds = past ++ items ∧
        (task.transfer = .store → config.Present data.files past)
  | .running worker items (.publishing publication) => ∃ past key block view,
      task.Publishes F crc32 config data worker items publication past key block view
  | .running _ items (.loading _ block) =>
      task.transfer = .load ∧ ∃ past key, task.rounds = past ++ (key, block) :: items
  | .done true => task.transfer = .store → config.Present data.files task.rounds

/-- Records stay, and what was encoded is not forgotten. -/
structure TierData.Grows (config : TierConfig) (data next : TierData) : Prop where
  records : ∀ key path, config.path key = .ok path → (data.files path).isSome →
    (next.files path).isSome
  encoded : ∀ entry ∈ data.encoded, entry ∈ next.encoded

/-- The temporaries of a worker are as before. -/
def TierData.Spares (worker : Worker) (data next : TierData) : Prop :=
  ∀ path, next.files (temporary path worker) = data.files (temporary path worker)

theorem TierData.grows_of_files {data next : TierData} (files : next.files = data.files)
    (encoded : ∀ entry ∈ data.encoded, entry ∈ next.encoded) : data.Grows config next :=
  ⟨fun _ _ _ present => by rwa [files], encoded⟩

theorem TierData.Grows.present {data next : TierData} (grows : data.Grows config next)
    {items : List (Bytes × Int)} (present : config.Present data.files items) :
    config.Present next.files items := by
  intro item member
  obtain ⟨path, located, exists_⟩ := present item member
  exact ⟨path, located, grows.records _ path located exists_⟩

theorem Present.concat {files : FileSystem} {items : List (Bytes × Int)} {key : Bytes}
    {block : Int} {path : FilePath} (present : config.Present files items)
    (located : config.path key = .ok path) (stored : (files path).isSome) :
    config.Present files (items ++ [(key, block)]) := by
  intro item member
  rcases List.mem_append.mp member with old | new
  · exact present item old
  · rw [List.mem_singleton.mp new]
    exact ⟨path, located, stored⟩

section Placed

variable {task : Task} {data next : TierData} {work : Work}

/-- A job that does not move stays where it is when others work. -/
theorem Task.Placed.grows (placed : task.Placed F crc32 config data)
    (grows : data.Grows config next)
    (spares : ∀ worker, task.work.onWorker worker = true → data.Spares worker next) :
    task.Placed F crc32 config next := by
  unfold Task.Placed at placed ⊢
  cases place : task.work with
  | queued => trivial
  | running worker items stage =>
      rw [place] at placed
      have own := spares worker (by simp [place, Work.onWorker])
      cases stage with
      | next =>
          obtain ⟨past, rounds, present⟩ := placed
          exact ⟨past, rounds, fun stores => grows.present (present stores)⟩
      | publishing publication =>
          obtain ⟨past, key, block, view, publishes⟩ := placed
          exact ⟨past, key, block, view,
            { publishes with
              present := grows.present publishes.present
              sound := publishes.sound.congr (own _)
                (grows.records key _ publishes.located)
              viewed := grows.encoded _ publishes.viewed }⟩
      | loading raw block => exact placed
  | done success =>
      rw [place] at placed
      cases success with
      | true => exact fun stores => grows.present (placed stores)
      | false => trivial

/-- A job touches only its own temporaries. -/
theorem Task.Steps.grows (steps : task.Steps F crc32 config data next work)
    (placed : task.Placed F crc32 config data) :
    data.Grows config next ∧ ∀ worker other, task.work.onWorker worker = true → other ≠ worker →
      data.Spares other next := by
  cases steps with
  | ends place => exact ⟨TierData.grows_of_files rfl fun _ member => member, fun _ _ _ _ _ => rfl⟩
  | raises place => exact ⟨TierData.grows_of_files rfl fun _ member => member, fun _ _ _ _ _ => rfl⟩
  | encodes stores place located encoded =>
      exact ⟨TierData.grows_of_files rfl fun _ member => List.mem_append_left _ member,
        fun _ _ _ _ _ => rfl⟩
  | reads loads place located present =>
      exact ⟨TierData.grows_of_files rfl fun _ member => member, fun _ _ _ _ _ => rfl⟩
  | @publishes worker items publication files outcome size place happens =>
      unfold Task.Placed at placed
      rw [place] at placed
      obtain ⟨past, key, block, view, publishes⟩ := placed
      have advances := Publication.advances_step publishes.sound happens
      constructor
      · refine ⟨fun other path located present => ?_, fun _ member => member⟩
        exact advances.isSome (temporary_ne_recordPath located _ _).symm present
      · intro own other on different path
        have same : own = worker := by
          rw [place] at on
          simpa [Work.onWorker, eq_comm] using on
        apply advances.frame
        · intro temporaries
          exact different ((temporary_injective temporaries).2.trans same.symm)
        · exact temporary_ne_recordPath publishes.located _ _
  | decodes place decoded =>
      exact ⟨TierData.grows_of_files rfl fun _ member => member, fun _ _ _ _ _ => rfl⟩
  | refuses place refused =>
      exact ⟨TierData.grows_of_files rfl fun _ member => member, fun _ _ _ _ _ => rfl⟩

/-- A publication that goes on, returns or raises leaves its job in place. -/
theorem Task.Publishes.outcome {worker : Worker} {items past : List (Bytes × Int)}
    {publication : Publication} {key view : Bytes} {block : Int} {files : FileSystem}
    {outcome : Outcome}
    (publishes : task.Publishes F crc32 config data worker items publication past key block view)
    (advances : publication.Advances worker data.files files outcome)
    (grows : data.Grows config { data with files := files }) :
    Task.Placed F crc32 config { data with files := files }
      { task with work := outcome.work worker items } := by
  cases outcome with
  | going after =>
      obtain ⟨samePath, sameRecord, sound⟩ := advances.going after rfl
      exact ⟨past, key, block, view,
        { stores := publishes.stores
          rounds := publishes.rounds
          present := grows.present publishes.present
          located := by rw [samePath]; exact publishes.located
          sound := sound
          viewed := publishes.viewed
          encoded := by rw [sameRecord]; exact publishes.encoded }⟩
  | returned =>
      refine ⟨past ++ [(key, block)], ?_, fun _ => ?_⟩
      · change task.rounds = _
        rw [publishes.rounds]
        simp
      · exact Present.concat (grows.present publishes.present) publishes.located
          (advances.returned rfl)
  | raised => trivial

/-- A job that moves is in place again. -/
theorem Task.Steps.placed (steps : task.Steps F crc32 config data next work)
    (placed : task.Placed F crc32 config data) :
    Task.Placed F crc32 config next { task with work := work } := by
  have grows := (steps.grows placed).1
  unfold Task.Placed at placed
  cases steps with
  | ends place =>
      rw [place] at placed
      obtain ⟨past, rounds, present⟩ := placed
      rw [List.append_nil] at rounds
      intro stores
      change config.Present data.files task.rounds
      rw [rounds]
      exact present stores
  | raises place => trivial
  | @encodes worker items key block path record stores place located encoded =>
      rw [place] at placed
      obtain ⟨past, rounds, present⟩ := placed
      exact ⟨past, key, block, config.blockView data.primary block,
        { stores := stores
          rounds := rounds
          present := present stores
          located := located
          sound := trivial
          viewed := List.mem_append_right _ (List.mem_singleton.mpr rfl)
          encoded := encoded }⟩
  | @reads worker items key block path raw loads place located present =>
      rw [place] at placed
      obtain ⟨past, rounds, _⟩ := placed
      exact ⟨loads, past, key, rounds⟩
  | publishes place happens =>
      rw [place] at placed
      obtain ⟨past, key, block, view, publishes⟩ := placed
      exact publishes.outcome (Publication.advances_step publishes.sound happens) grows
  | @decodes worker items raw contents block info place decoded =>
      rw [place] at placed
      obtain ⟨loads, past, key, rounds⟩ := placed
      refine ⟨past ++ [(key, block)], ?_, ?_⟩
      · change task.rounds = _
        rw [rounds]
        simp
      · intro stores
        change task.transfer = .store at stores
        rw [loads] at stores
        cases stores
  | refuses place refused => trivial

theorem Task.Placed.fault (placed : task.Placed F crc32 config data)
    (moved : task.fault = some work) :
    Task.Placed F crc32 config data { task with work := work } := by
  rcases Task.fault_cases moved with rfl | ⟨worker, items, publication, place, rfl⟩
  · trivial
  · unfold Task.Placed at placed
    rw [place] at placed
    obtain ⟨past, key, block, view, publishes⟩ := placed
    exact publishes.outcome Publication.advances_fault
      (TierData.grows_of_files rfl fun _ member => member)

theorem Outcome.onWorker_work {worker own : Worker} {items : List (Bytes × Int)}
    {outcome : Outcome} (on : (outcome.work own items).onWorker worker = true) : own = worker := by
  cases outcome with
  | going after => exact of_decide_eq_true on
  | returned => exact of_decide_eq_true on
  | raised => cases on

theorem Task.Steps.onWorker (steps : task.Steps F crc32 config data next work) {worker : Worker}
    (on : work.onWorker worker = true) : task.work.onWorker worker = true := by
  cases steps with
  | ends place => cases on
  | raises place => cases on
  | encodes stores place located encoded =>
      rw [place]
      exact on
  | reads loads place located present =>
      rw [place]
      exact on
  | publishes place happens =>
      rw [place]
      simpa [Work.onWorker] using Outcome.onWorker_work on
  | decodes place decoded =>
      rw [place]
      exact on
  | refuses place refused => cases on

theorem Task.onWorker_fault (moved : task.fault = some work) {worker : Worker}
    (on : work.onWorker worker = true) : task.work.onWorker worker = true := by
  rcases Task.fault_cases moved with rfl | ⟨own, items, publication, place, rfl⟩
  · cases on
  · rw [place]
    simpa [Work.onWorker] using Outcome.onWorker_work on

end Placed

/-- Every job is in place, and no two run on one worker. -/
structure Tier.Sound (F : Type) [arith : QuantArith F] [formats : DtypeArith F]
    (crc32 : Bytes → UInt32) (config : TierConfig) (tier : Tier) : Prop where
  apart : ∀ (future other : Nat) (task otherTask : Task) (worker : Worker),
    tier.tasks[future]? = some task →
    tier.tasks[other]? = some otherTask → task.work.onWorker worker = true →
    otherTask.work.onWorker worker = true → future = other
  placed : ∀ task ∈ tier.tasks, task.Placed F crc32 config tier.data

theorem Tier.sound_initial (data : TierData) : (Tier.initial data).Sound F crc32 config where
  apart := by simp [Tier.initial]
  placed := by simp [Tier.initial]

theorem getElem?_setWork {tasks : List Task} {future other : Nat} {work : Work} {task : Task}
    (present : (tasks.modify future fun task => { task with work := work })[other]? = some task) :
    (future = other ∧ ∃ before, tasks[other]? = some before ∧
      task = { before with work := work }) ∨
    (future ≠ other ∧ tasks[other]? = some task) := by
  rw [List.getElem?_modify] at present
  obtain ⟨before, found, changed⟩ := Option.map_eq_some_iff.mp present
  by_cases same : future = other
  · rw [if_pos same] at changed
    exact .inl ⟨same, before, found, changed.symm⟩
  · rw [if_neg same] at changed
    exact .inr ⟨same, by rw [found, ← changed]⟩

section All

variable {tier next : Tier} {event : Event}

/-- Moving one job, while the others are spared. -/
theorem Tier.Sound.setWork (sound : tier.Sound F crc32 config) {future : Nat} {task : Task}
    {work : Work} {data : TierData} (present : tier.tasks[future]? = some task)
    (tasks : next.tasks = tier.tasks.modify future fun task => { task with work := work })
    (nextData : next.data = data) (grows : tier.data.Grows config data)
    (spares : ∀ (other : Nat) (otherTask : Task) (worker : Worker), other ≠ future →
      tier.tasks[other]? = some otherTask → otherTask.work.onWorker worker = true →
        tier.data.Spares worker data)
    (placed : Task.Placed F crc32 config data { task with work := work })
    (alone : ∀ (other : Nat) (otherTask : Task) (worker : Worker), other ≠ future →
      tier.tasks[other]? = some otherTask → work.onWorker worker = true →
        otherTask.work.onWorker worker = false) :
    next.Sound F crc32 config := by
  constructor
  · intro first second firstTask secondTask worker firstPresent secondPresent firstOn secondOn
    rw [tasks] at firstPresent secondPresent
    rcases getElem?_setWork firstPresent with ⟨rfl, before, found, rfl⟩ | ⟨apart, found⟩
    · rcases getElem?_setWork secondPresent with ⟨same, _⟩ | ⟨otherApart, otherFound⟩
      · exact same
      · have off := alone second secondTask worker (Ne.symm otherApart) otherFound firstOn
        rw [secondOn] at off
        cases off
    · rcases getElem?_setWork secondPresent with ⟨rfl, before, _, rfl⟩ | ⟨_, otherFound⟩
      · have off := alone first firstTask worker (Ne.symm apart) found secondOn
        rw [firstOn] at off
        cases off
      · exact sound.apart first second firstTask secondTask worker found otherFound firstOn
          secondOn
  · intro other inside
    obtain ⟨index, otherPresent⟩ := List.getElem?_of_mem inside
    rw [tasks] at otherPresent
    rw [nextData]
    rcases getElem?_setWork otherPresent with ⟨rfl, before, found, rfl⟩ | ⟨apart, found⟩
    · rw [present] at found
      cases found
      exact placed
    · apply (sound.placed other (List.mem_of_getElem? found)).grows grows
      intro worker on
      exact spares index other worker (Ne.symm apart) found on

theorem Tier.Sound.setData (sound : tier.Sound F crc32 config) {data : TierData}
    (tasks : next.tasks = tier.tasks) (nextData : next.data = data)
    (grows : tier.data.Grows config data) (spares : ∀ worker, tier.data.Spares worker data) :
    next.Sound F crc32 config := by
  constructor
  · rw [tasks]
    exact sound.apart
  · intro task inside
    rw [tasks] at inside
    rw [nextData]
    exact (sound.placed task inside).grows grows fun worker _ => spares worker

/-- No event removes a record. -/
theorem Tier.Sound.grows (sound : tier.Sound F crc32 config)
    (moves : tier.Moves F crc32 config next event) : tier.data.Grows config next.data := by
  have unchanged : tier.data.Grows config tier.data :=
    TierData.grows_of_files rfl fun _ member => member
  cases moves with
  | still tasks data | submit tasks data | start present queued free tasks data
    | fault present moved tasks data =>
      rw [data]
      exact unchanged
  | work present steps tasks data =>
      rw [data]
      exact (steps.grows (sound.placed _ (List.mem_of_getElem? present))).1
  | @foreign key contents record path located encoded length tasks data =>
      rw [data]
      refine ⟨?_, fun _ member => List.mem_append_left _ member⟩
      intro otherKey other otherLocated present
      change (tier.data.files.put path (some record) other).isSome
      by_cases same : other = path
      · simp [same]
      · rwa [FileSystem.put_other same]
  | modify length tasks data =>
      rw [data]
      exact TierData.grows_of_files rfl fun _ member => member

/-- The step lemma. -/
theorem Tier.Sound.step (sound : tier.Sound F crc32 config)
    (moves : tier.Moves F crc32 config next event) : next.Sound F crc32 config := by
  have grows := sound.grows moves
  have unchanged : tier.data.Grows config tier.data :=
    TierData.grows_of_files rfl fun _ member => member
  cases moves with
  | still tasks data => exact sound.setData tasks data unchanged fun _ _ => rfl
  | @submit transfer job tasks data =>
      constructor
      · intro first second firstTask secondTask worker firstPresent secondPresent firstOn secondOn
        have before : ∀ {index : Nat} {task : Task}, next.tasks[index]? = some task →
            task.work.onWorker worker = true → tier.tasks[index]? = some task := by
          intro index task found on
          rw [tasks] at found
          rcases Transition.party_of_append found with old | ⟨_, rfl⟩
          · exact old
          · cases on
        exact sound.apart first second firstTask secondTask worker (before firstPresent firstOn)
          (before secondPresent secondOn) firstOn secondOn
      · intro task inside
        rw [tasks] at inside
        rw [data]
        rcases List.mem_append.mp inside with old | new
        · exact sound.placed task old
        · rw [List.mem_singleton.mp new]
          trivial
  | @start future worker task present queued free tasks data =>
      apply sound.setWork present tasks data unchanged
      · exact fun _ _ _ _ _ _ _ => rfl
      · refine ⟨[], rfl, ?_⟩
        intro _ item member
        cases member
      · intro other otherTask otherWorker _ found on
        have same : worker = otherWorker := of_decide_eq_true on
        rw [← same]
        exact free otherTask (List.mem_of_getElem? found)
  | @work future size task data work present steps tasks nextData =>
      have inPlace := sound.placed task (List.mem_of_getElem? present)
      have grows := steps.grows inPlace
      have runs : ∃ worker, task.work.onWorker worker = true := by
        cases steps with
        | ends place | raises place | encodes _ place | reads _ place | publishes place
          | decodes place | refuses place =>
            rw [place]
            exact ⟨_, decide_eq_true rfl⟩
      obtain ⟨own, on⟩ := runs
      apply sound.setWork present tasks nextData grows.1
      · intro other otherTask worker different found otherOn
        apply grows.2 own worker on
        rintro rfl
        exact different (sound.apart other future otherTask task worker found present otherOn on)
      · exact steps.placed inPlace
      · intro other otherTask worker different found moved
        cases off : otherTask.work.onWorker worker with
        | false => rfl
        | true =>
            exact absurd (sound.apart other future otherTask task worker found present off
              (steps.onWorker moved)) different
  | @fault future task work present moved tasks data =>
      have inPlace := sound.placed task (List.mem_of_getElem? present)
      apply sound.setWork present tasks data unchanged
      · exact fun _ _ _ _ _ _ _ => rfl
      · exact inPlace.fault moved
      · intro other otherTask worker different found on
        cases off : otherTask.work.onWorker worker with
        | false => rfl
        | true =>
            exact absurd (sound.apart other future otherTask task worker found present off
              (Task.onWorker_fault moved on)) different
  | @foreign key contents record path located encoded length tasks data =>
      apply sound.setData tasks data (data ▸ grows)
      · intro worker other
        exact FileSystem.put_other (temporary_ne_recordPath located other worker) _
  | modify length tasks data =>
      exact sound.setData tasks data (TierData.grows_of_files rfl fun _ member => member)
        fun _ _ => rfl

theorem Tier.sound_of_run {data : TierData} {events : List Event}
    (reached : run (Tier.step F crc32 config) (Tier.initial data) events = some tier) :
    tier.Sound F crc32 config :=
  invariant_of_run _ (fun _ _ _ sound happens => sound.step (Tier.step_moves happens))
    (Tier.sound_initial data) reached

end All

end Jobs

end KVSSD

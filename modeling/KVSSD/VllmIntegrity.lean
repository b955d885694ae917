import KVSSD.VllmLookups
import KVSSD.VllmReporting
import KVSSD.VllmSlots

/-!
# Integrity of the tier

Records hold what was encoded for their keys, and a load puts what its record holds into
its slot.  A load that was submitted after hits for all its keys does not fail.
-/

namespace KVSSD

open KVSSD.Python KVSSD.Struct KVSSD.Transition

/-- The slots a job works on while it runs. -/
def Task.busy (task : Task) : List Int :=
  match task.work with
  | .running _ _ _ => task.job.blockIds
  | .queued | .done _ => []

/-- The slot a job overwrites next. -/
def Task.writing (task : Task) : List Int :=
  match task.work with
  | .running _ _ (.loading _ block) => [block]
  | _ => []

/-- Keys and distinct block ids are parallel, and the slots lie in the cache. -/
def TierConfig.Fitting (config : TierConfig) (length : Nat) (job : JobMetadata) : Prop :=
  job.keys.length = job.blockIds.length ∧ job.blockIds.Nodup ∧
    ∀ block ∈ job.blockIds, config.Fits length block

/-- Jobs are submitted with parallel lists of keys and distinct blocks of the cache, and
while a job runs nothing else changes its slots. -/
def Tier.Respects (config : TierConfig) (tier : Tier) : Event → Prop
  | .submit _ job => config.Fitting tier.data.primary.length job
  | .work future _ => ∀ block ∈ (tier.tasks[future]?).elim [] Task.writing,
      ∀ other < tier.tasks.length, other ≠ future →
        block ∉ (tier.tasks[other]?).elim [] Task.busy
  | .modify primary => ∀ other < tier.tasks.length,
      ∀ block ∈ (tier.tasks[other]?).elim [] Task.busy,
        config.blockView primary block = config.blockView tier.data.primary block
  | _ => True

instance {config : TierConfig} {tier : Tier} {event : Event} :
    Decidable (tier.Respects config event) :=
  match event with
  | .submit _ _ => inferInstanceAs (Decidable (_ ∧ _ ∧ _))
  | .work _ _ => inferInstanceAs (Decidable (∀ block ∈ _, ∀ other < _, other ≠ _ → block ∉ _))
  | .modify _ => inferInstanceAs (Decidable (∀ other < _, ∀ block ∈ _, _ = _))
  | .start _ _ | .fault _ | .lookup _ _ | .probe _ | .answer _ | .requestFinished _ | .getFinished
  | .reapOne | .release | .drain | .drainStep _ | .foreign _ _ => inferInstanceAs (Decidable True)

section Integrity

variable (F : Type) [arith : QuantArith F] [formats : DtypeArith F] (crc32 : Bytes → UInt32)
  (config : TierConfig)

/-- A record of a block that was encoded for a key. -/
def TierData.Encoding (data : TierData) (key raw : Bytes) : Prop :=
  ∃ view, (key, view) ∈ data.encoded ∧
    encodeVllmBlock F crc32 view config.bits config.groupSize config.dtype = .ok raw

/-- Every record was encoded for its key, from the contents of a slot. -/
structure TierData.Recorded (data : TierData) : Prop where
  records : ∀ key path raw, config.path key = .ok path → data.files path = some raw →
    data.Encoding F crc32 config key raw
  lengths : ∀ entry ∈ data.encoded, entry.2.length = config.blockBytes

/-- A load that has read a record decodes it for the key of its round. -/
def Task.Reading (data : TierData) (task : Task) : Prop :=
  ∀ worker items raw block, task.work = .running worker items (.loading raw block) →
    ∃ past key, task.rounds = past ++ (key, block) :: items ∧
      data.Encoding F crc32 config key raw

/-- The slot of a round holds a requantized block that was encoded for its key. -/
def TierData.Restored (data : TierData) (round : Bytes × Int) : Prop :=
  ∃ view, (round.1, view) ∈ data.encoded ∧
    requantized F view config.bits config.groupSize config.dtype =
      .ok (config.blockView data.primary round.2)

variable {F} {crc32} {config}

theorem TierData.Encoding.mono {data next : TierData} {key raw : Bytes}
    (encoding : data.Encoding F crc32 config key raw)
    (grows : ∀ entry ∈ data.encoded, entry ∈ next.encoded) :
    next.Encoding F crc32 config key raw := by
  obtain ⟨view, member, encoded⟩ := encoding
  exact ⟨view, grows _ member, encoded⟩

theorem Task.Reading.mono {data next : TierData} {task : Task}
    (reading : task.Reading F crc32 config data)
    (grows : ∀ entry ∈ data.encoded, entry ∈ next.encoded) :
    task.Reading F crc32 config next := by
  intro worker items raw block place
  obtain ⟨past, key, rounds, encoding⟩ := reading worker items raw block place
  exact ⟨past, key, rounds, encoding.mono grows⟩

theorem TierData.Recorded.mono {data next : TierData}
    (recorded : data.Recorded F crc32 config)
    (grows : ∀ entry ∈ data.encoded, entry ∈ next.encoded)
    (lengths : ∀ entry ∈ next.encoded, entry.2.length = config.blockBytes)
    (records : ∀ key path raw, config.path key = .ok path → next.files path = some raw →
      data.files path = some raw ∨ next.Encoding F crc32 config key raw) :
    next.Recorded F crc32 config := by
  constructor
  · intro key path raw located present
    rcases records key path raw located present with old | new
    · exact (recorded.records key path raw located old).mono grows
    · exact new
  · exact lengths

theorem TierData.Encoding.decode {data : TierData} {key raw : Bytes} {block : Int}
    (encoding : data.Encoding F crc32 config key raw)
    (recorded : data.Recorded F crc32 config) (fits : config.Fits data.primary.length block) :
    ∃ view restored info, (key, view) ∈ data.encoded ∧
      requantized F view config.bits config.groupSize config.dtype = .ok restored ∧
      restored.length = config.blockBytes ∧
      decodeVllmBlock F crc32 raw (config.blockView data.primary block) = .ok (restored, info) := by
  obtain ⟨view, member, encoded⟩ := encoding
  have length := recorded.lengths _ member
  have whole : (config.blockView data.primary block).length = view.length :=
    (TierConfig.blockView_length fits).trans length.symm
  obtain ⟨restored, info, requantizedOk, same, decoded⟩ := decodeVllmBlock_encode encoded whole
  exact ⟨view, restored, info, member, requantizedOk, same.trans length, decoded⟩

theorem Task.mem_blockIds {task : Task} {past items : List (Bytes × Int)} {key : Bytes}
    {block : Int} (rounds : task.rounds = past ++ (key, block) :: items) :
    block ∈ task.job.blockIds := by
  have member : (key, block) ∈ task.rounds := by simp [rounds]
  exact (List.of_mem_zip member).2

/-- What a load writes into its slot. -/
theorem Task.Reading.decodes {data : TierData} {task : Task} {worker : Worker}
    {items : List (Bytes × Int)} {raw contents : Bytes} {block : Int} {info : VLLMRecordInfo}
    (reading : task.Reading F crc32 config data) (recorded : data.Recorded F crc32 config)
    (fitting : config.Fitting data.primary.length task.job)
    (place : task.work = .running worker items (.loading raw block))
    (decoded : decodeVllmBlock F crc32 raw (config.blockView data.primary block) =
      .ok (contents, info)) :
    config.Fits data.primary.length block ∧ contents.length = config.blockBytes ∧
      ∃ past key view, task.rounds = past ++ (key, block) :: items ∧
        (key, view) ∈ data.encoded ∧
        requantized F view config.bits config.groupSize config.dtype = .ok contents := by
  obtain ⟨past, key, rounds, encoding⟩ := reading worker items raw block place
  have fits := fitting.2.2 block (Task.mem_blockIds rounds)
  obtain ⟨view, restored, info, member, requantizedOk, length, again⟩ :=
    encoding.decode recorded fits
  rw [decoded] at again
  cases again
  exact ⟨fits, length, past, key, view, rounds, member, requantizedOk⟩

section Steps

variable {task : Task} {data next : TierData} {work : Work}

/-- A job that moves leaves records that were encoded for their keys. -/
theorem Task.Steps.recorded (steps : task.Steps F crc32 config data next work)
    (placed : task.Placed F crc32 config data) (recorded : data.Recorded F crc32 config)
    (fitting : config.Fitting data.primary.length task.job) :
    next.Recorded F crc32 config := by
  have grows := (steps.grows placed).1.encoded
  unfold Task.Placed at placed
  cases steps with
  | ends place | raises place | reads _ place | refuses place => exact recorded
  | @encodes worker items key block path record stores place located encoded =>
      rw [place] at placed
      obtain ⟨past, rounds, _⟩ := placed
      apply recorded.mono grows
      · intro entry member
        rcases List.mem_append.mp member with old | new
        · exact recorded.lengths entry old
        · rw [List.mem_singleton.mp new]
          exact TierConfig.blockView_length (fitting.2.2 block (Task.mem_blockIds rounds))
      · intro other file raw _ present
        exact .inl present
  | @publishes worker items publication files outcome size place happens =>
      rw [place] at placed
      obtain ⟨past, key, block, view, publishes⟩ := placed
      have advances := Publication.advances_step publishes.sound happens
      apply recorded.mono grows recorded.lengths
      intro other path raw located present
      change files path = some raw at present
      by_cases same : path = publication.path
      · have keys : other = key := recordPath_injective located (same ▸ publishes.located)
        rcases advances.path with kept | replaced
        · left
          rw [same, ← kept, ← same]
          exact present
        · right
          rw [same, replaced] at present
          cases present
          exact ⟨view, keys ▸ publishes.viewed, publishes.encoded⟩
      · left
        rw [← advances.frame path (temporary_ne_recordPath located _ _).symm same]
        exact present
  | decodes place decoded =>
      exact ⟨fun key path raw located present => recorded.records key path raw located present,
        recorded.lengths⟩

theorem Task.Steps.reading (steps : task.Steps F crc32 config data next work)
    (placed : task.Placed F crc32 config data) (recorded : data.Recorded F crc32 config) :
    Task.Reading F crc32 config next { task with work := work } := by
  intro worker items raw block place
  unfold Task.Placed at placed
  cases steps with
  | ends before | raises before | encodes _ before | decodes before | refuses before => cases place
  | @reads own left key slot path contents loads before located present =>
      cases place
      rw [before] at placed
      obtain ⟨past, rounds, _⟩ := placed
      exact ⟨past, key, rounds, recorded.records key path raw located present⟩
  | @publishes own left publication files outcome size before happens =>
      cases outcome with
      | going after => cases place
      | returned => cases place
      | raised => cases place

theorem Task.Steps.length (steps : task.Steps F crc32 config data next work)
    (reading : task.Reading F crc32 config data) (recorded : data.Recorded F crc32 config)
    (fitting : config.Fitting data.primary.length task.job) :
    next.primary.length = data.primary.length := by
  cases steps with
  | ends | raises | encodes | reads | publishes | refuses => rfl
  | decodes place decoded =>
      obtain ⟨fits, length, _⟩ := reading.decodes recorded fitting place decoded
      exact TierConfig.writeBlock_length fits length

/-- A job changes no byte outside its slots, and a store none at all. -/
theorem Task.Steps.outside (steps : task.Steps F crc32 config data next work)
    (placed : task.Placed F crc32 config data) (reading : task.Reading F crc32 config data)
    (recorded : data.Recorded F crc32 config)
    (fitting : config.Fitting data.primary.length task.job) :
    (task.transfer = .store → next.primary = data.primary) ∧
      ∀ index, (∀ block ∈ task.job.blockIds, ¬ config.Inside block index) →
        next.primary[index]? = data.primary[index]? := by
  cases steps with
  | ends | raises | encodes | reads | publishes | refuses => exact ⟨fun _ => rfl, fun _ _ => rfl⟩
  | @decodes worker items raw contents block info place decoded =>
      obtain ⟨fits, length, past, key, view, rounds, _⟩ :=
        reading.decodes recorded fitting place decoded
      unfold Task.Placed at placed
      rw [place] at placed
      constructor
      · intro stores
        rw [placed.1] at stores
        cases stores
      · intro index outside
        exact TierConfig.getElem?_writeBlock fits length (outside block (Task.mem_blockIds rounds))

end Steps

/-- Jobs and lookups are sound, records hold what was encoded for their keys, and jobs
work on slots of the cache. -/
structure Tier.Intact (F : Type) [arith : QuantArith F] [formats : DtypeArith F]
    (crc32 : Bytes → UInt32) (config : TierConfig) (tier : Tier) : Prop where
  sound : tier.Sound F crc32 config
  asked : tier.Asked config
  recorded : tier.data.Recorded F crc32 config
  fitting : ∀ task ∈ tier.tasks, config.Fitting tier.data.primary.length task.job
  reading : ∀ task ∈ tier.tasks, task.Reading F crc32 config tier.data

theorem Tier.intact_initial {data : TierData} (recorded : data.Recorded F crc32 config) :
    (Tier.initial data).Intact F crc32 config where
  sound := Tier.sound_initial data
  asked := Tier.asked_initial data
  recorded := recorded
  fitting := by simp [Tier.initial]
  reading := by simp [Tier.initial]

section Tier

variable {tier next : Tier} {event : Event}

/-- An event leaves records that were encoded for their keys. -/
theorem Tier.Intact.recorded_step (intact : tier.Intact F crc32 config)
    (moves : tier.Moves F crc32 config next event) : next.data.Recorded F crc32 config := by
  have grows := (intact.sound.grows moves).encoded
  cases moves with
  | still tasks data | submit tasks data | start present queued free tasks data
    | fault present moved tasks data =>
      rw [data]
      exact intact.recorded
  | @work future size task data work present steps tasks nextData =>
      have inside := List.mem_of_getElem? present
      rw [nextData]
      exact steps.recorded (intact.sound.placed task inside) intact.recorded
        (intact.fitting task inside)
  | @foreign key contents record path located encoded length tasks data =>
      apply intact.recorded.mono grows
      · intro entry member
        rw [data] at member
        rcases List.mem_append.mp member with old | new
        · exact intact.recorded.lengths entry old
        · rw [List.mem_singleton.mp new]
          exact length
      · intro other file raw otherLocated present
        rw [data] at present ⊢
        change (tier.data.files.put path (some record)) file = some raw at present
        by_cases same : file = path
        · rw [same] at otherLocated
          rw [same, FileSystem.put_same] at present
          cases present
          have keys : other = key := recordPath_injective otherLocated located
          refine .inr ⟨contents, ?_, encoded⟩
          rw [keys]
          exact List.mem_append_right _ (List.mem_singleton_self _)
        · rw [FileSystem.put_other same] at present
          exact .inl present
  | modify length tasks data =>
      rw [data]
      exact ⟨intact.recorded.records, intact.recorded.lengths⟩

theorem Tier.Intact.length_step (intact : tier.Intact F crc32 config)
    (moves : tier.Moves F crc32 config next event) :
    next.data.primary.length = tier.data.primary.length := by
  cases moves with
  | still tasks data | submit tasks data | start present queued free tasks data
    | fault present moved tasks data | foreign located encoded length tasks data =>
      rw [data]
  | @work future size task data work present steps tasks nextData =>
      have inside := List.mem_of_getElem? present
      rw [nextData]
      exact steps.length (intact.reading task inside) intact.recorded (intact.fitting task inside)
  | modify length tasks data =>
      rw [data]
      exact length

/-- A job of the next state is one of this state, or it is new, starts or moves. -/
theorem Tier.Intact.reading_step (intact : tier.Intact F crc32 config)
    (moves : tier.Moves F crc32 config next event) :
    ∀ task ∈ next.tasks, task.Reading F crc32 config next.data := by
  have grows := (intact.sound.grows moves).encoded
  have moved : ∀ {future : Nat} {work : Work} {data : TierData} {task : Task},
      tier.tasks[future]? = some task → next.data = data →
      next.tasks = (tier.tasks.modify future fun task => { task with work := work }) →
      Task.Reading F crc32 config data { task with work := work } →
      ∀ task ∈ next.tasks, task.Reading F crc32 config next.data := by
    intro future work data task present nextData tasks reading after inside
    obtain ⟨index, found⟩ := List.getElem?_of_mem inside
    rw [tasks] at found
    rcases getElem?_setWork found with ⟨rfl, before, same, rfl⟩ | ⟨_, other⟩
    · rw [present] at same
      cases same
      rw [nextData]
      exact reading
    · exact (intact.reading after (List.mem_of_getElem? other)).mono grows
  cases moves with
  | still tasks data | foreign located encoded length tasks data | modify length tasks data =>
      intro task inside
      rw [tasks] at inside
      exact (intact.reading task inside).mono grows
  | submit tasks data =>
      intro task inside
      rw [tasks] at inside
      rcases List.mem_append.mp inside with old | new
      · exact (intact.reading task old).mono grows
      · rw [List.mem_singleton.mp new]
        rintro worker items raw block ⟨⟩
  | start present queued free tasks data =>
      apply moved present data tasks
      rintro worker items raw block ⟨⟩
  | @work future size task data work present steps tasks nextData =>
      exact moved present nextData tasks
        (steps.reading (intact.sound.placed task (List.mem_of_getElem? present)) intact.recorded)
  | @fault future task work present faults tasks data =>
      apply moved present data tasks
      intro worker items raw block place
      rcases Task.fault_cases faults with rfl | ⟨own, left, publication, before, rfl⟩
      · cases place
      · change publication.fault.work own left = _ at place
        cases outcome : publication.fault with
        | going after =>
            rw [outcome] at place
            cases place
        | returned =>
            rw [outcome] at place
            cases place
        | raised =>
            rw [outcome] at place
            cases place

/-- The step lemma. -/
theorem Tier.Intact.step (intact : tier.Intact F crc32 config)
    (happens : tier.step F crc32 config event = some next)
    (submits : ∀ transfer job, event = .submit transfer job →
      config.Fitting tier.data.primary.length job) : next.Intact F crc32 config := by
  have moves := Tier.step_moves happens
  constructor
  · exact intact.sound.step moves
  · exact intact.asked.step (Tier.step_looks happens) (intact.sound.grows moves)
  · exact intact.recorded_step moves
  · intro after inside
    rw [intact.length_step moves]
    rcases (Tier.step_reports happens).origin inside with ⟨task, member, sameJob, _⟩ | new
    · rw [sameJob]
      exact intact.fitting task member
    · exact submits _ _ new
  · exact intact.reading_step moves

theorem Tier.Respects.submits (respects : tier.Respects config event) (transfer : Transfer)
    (job : JobMetadata) (same : event = .submit transfer job) :
    config.Fitting tier.data.primary.length job := by
  subst same
  exact respects

end Tier

end Integrity

end KVSSD

import KVSSD.VllmFiles
import KVSSD.Lib.Transition
import Mathlib.Data.List.Nodup

/-!
# Writers of records

Any number of calls of `store_record_atomic` on one host, with crashes.  A worker that
has crashed leaves its temporary behind, and another may run under its name.
-/

namespace KVSSD

open KVSSD.Python KVSSD.Struct KVSSD.Transition

/-- A call of `store_record_atomic` that runs. -/
structure Call where
  worker : Worker
  publication : Publication
  deriving DecidableEq, Repr

/-- The files of a host, the calls that run, and for the record the paths and records of
all calls so far. -/
structure Host where
  files : FileSystem
  calls : List Call
  passed : List (FilePath × Bytes)

inductive HostEvent where
  | call (worker : Worker) (path : FilePath) (record : Bytes)
  /-- The next file operation of a call. -/
  | step (index size : Nat)
  /-- A file operation raises, in place of its effect. -/
  | fault (index : Nat)
  | crash (index : Nat)
  deriving DecidableEq, Repr

namespace Host

/-- A call goes on or ends. -/
def settle (host : Host) (index : Nat) (worker : Worker) : Outcome → List Call
  | .going after => host.calls.set index ⟨worker, after⟩
  | .returned | .raised => host.calls.eraseIdx index

def step (host : Host) : HostEvent → Option Host
  | .call worker path record =>
      if ∀ call ∈ host.calls, call.worker ≠ worker then
        some { host with
          calls := host.calls ++ [⟨worker, ⟨path, record, .entered⟩⟩]
          passed := host.passed ++ [(path, record)] }
      else none
  | .step index size => do
      let call ← host.calls[index]?
      let (files, outcome) := call.publication.step call.worker size host.files
      return { host with files := files, calls := host.settle index call.worker outcome }
  | .fault index => do
      let call ← host.calls[index]?
      match call.publication.stage with
      -- `unlink` raises nothing but the exception that the call catches.
      | .cleanup _ => none
      | _ => return { host with calls := host.settle index call.worker call.publication.fault }
  | .crash index => do
      let _ ← host.calls[index]?
      return { host with calls := host.calls.eraseIdx index }

end Host

section Publication

variable {publication : Publication} {worker : Worker} {files next : FileSystem} {size : Nat}
  {outcome : Outcome}

/-- A call that ends has removed its temporary, or has made none. -/
theorem Publication.step_ends
    (happens : publication.step worker size files = (next, outcome))
    (ends : ∀ after, outcome ≠ .going after) :
    next (temporary publication.path worker) = none ∨
      (publication.stage = .entered ∧ next = files) := by
  unfold Publication.step at happens
  cases stage : publication.stage with
  | entered =>
      simp only [stage] at happens
      split at happens
      · cases happens
        exact .inr ⟨rfl, rfl⟩
      · cases happens
        exact absurd rfl (ends _)
  | absent =>
      simp only [stage] at happens
      split at happens
      · cases happens
        exact absurd rfl (ends _)
      · cases happens
        exact absurd rfl (ends _)
  | writing written =>
      simp only [stage] at happens
      cases happens
      exact absurd rfl (ends _)
  | written =>
      simp only [stage] at happens
      split at happens
      · cases happens
        exact absurd rfl (ends _)
      · cases happens
        exact absurd rfl (ends _)
  | cleanup raised =>
      simp only [stage] at happens
      cases happens
      exact .inl (FileSystem.put_same _ _ _)

theorem Publication.fault_ends (early : ∀ raised, publication.stage ≠ .cleanup raised)
    (ends : ∀ after, publication.fault ≠ .going after) : publication.stage = .entered := by
  unfold Publication.fault at ends
  cases stage : publication.stage with
  | entered => rfl
  | absent | writing written | written =>
      rw [stage] at ends
      exact absurd rfl (ends _)
  | cleanup raised => exact absurd stage (early raised)

end Publication

/-- What a step of the host does. -/
inductive Host.Moves (host next : Host) : HostEvent → Prop where
  | call {worker : Worker} {path : FilePath} {record : Bytes}
      (free : ∀ call ∈ host.calls, call.worker ≠ worker) (files : next.files = host.files)
      (calls : next.calls = host.calls ++ [⟨worker, ⟨path, record, .entered⟩⟩])
      (passed : next.passed = host.passed ++ [(path, record)]) :
      Moves host next (.call worker path record)
  | step {index size : Nat} {call : Call} {files : FileSystem} {outcome : Outcome}
      (present : host.calls[index]? = some call)
      (happens : call.publication.step call.worker size host.files = (files, outcome))
      (nextFiles : next.files = files) (calls : next.calls = host.settle index call.worker outcome)
      (passed : next.passed = host.passed) : Moves host next (.step index size)
  | fault {index : Nat} {call : Call} (present : host.calls[index]? = some call)
      (early : ∀ raised, call.publication.stage ≠ .cleanup raised)
      (files : next.files = host.files)
      (calls : next.calls = host.settle index call.worker call.publication.fault)
      (passed : next.passed = host.passed) : Moves host next (.fault index)
  | crash {index : Nat} {call : Call} (present : host.calls[index]? = some call)
      (files : next.files = host.files) (calls : next.calls = host.calls.eraseIdx index)
      (passed : next.passed = host.passed) : Moves host next (.crash index)

section Host

variable {host next : Host} {event : HostEvent}

theorem Host.step_moves (happens : host.step event = some next) : host.Moves next event := by
  cases event with
  | call worker path record =>
      simp only [Host.step] at happens
      split at happens
      · rename_i free
        cases happens
        exact .call free rfl rfl rfl
      · cases happens
  | step index size =>
      simp only [Host.step, Option.bind_eq_bind, Option.bind_eq_some_iff] at happens
      obtain ⟨call, present, result⟩ := happens
      cases result
      exact .step present rfl rfl rfl rfl
  | fault index =>
      simp only [Host.step, Option.bind_eq_bind, Option.bind_eq_some_iff] at happens
      obtain ⟨call, present, result⟩ := happens
      cases stage : call.publication.stage with
      | cleanup raised =>
          rw [stage] at result
          cases result
      | entered | absent | writing written | written =>
          rw [stage] at result
          cases result
          exact .fault present (by simp [stage]) rfl rfl rfl
  | crash index =>
      simp only [Host.step, Option.bind_eq_bind, Option.bind_eq_some_iff] at happens
      obtain ⟨call, present, result⟩ := happens
      cases result
      exact .crash present rfl rfl rfl

/-- The paths of records: none of them is the temporary of one of them. -/
def FinalPaths (final : FilePath → Prop) : Prop :=
  ∀ path other worker, final path → final other → temporary path worker ≠ other

theorem finalPaths_recordPath (root : List String) (space : String) :
    FinalPaths fun path => ∃ key, recordPath root key space = .ok path := by
  rintro path other worker _ ⟨key, located⟩
  exact temporary_ne_recordPath located path worker

/-- Every record was passed as a whole, and every call is at its place. -/
structure Host.Sound (final : FilePath → Prop) (host : Host) : Prop where
  complete : ∀ path contents, final path → host.files path = some contents →
    (path, contents) ∈ host.passed
  passed : ∀ entry ∈ host.passed, final entry.1
  calls : ∀ call ∈ host.calls, call.publication.Sound call.worker host.files ∧
    (call.publication.path, call.publication.record) ∈ host.passed
  apart : (host.calls.map Call.worker).Nodup

/-- Calls are made with paths of records only. -/
def HostEvent.Final (final : FilePath → Prop) : HostEvent → Prop
  | .call _ path _ => final path
  | _ => True

variable {final : FilePath → Prop}

theorem Host.Sound.path_final (sound : host.Sound final) {call : Call}
    (member : call ∈ host.calls) :
    final call.publication.path :=
  sound.passed _ (sound.calls call member).2

theorem Host.workers_apart {calls : List Call} (apart : (calls.map Call.worker).Nodup)
    {index other : Nat} {call otherCall : Call} (present : calls[index]? = some call)
    (found : calls[other]? = some otherCall) (different : other ≠ index) :
    otherCall.worker ≠ call.worker := by
  intro same
  obtain ⟨inside, rfl⟩ := List.getElem?_eq_some_iff.mp present
  obtain ⟨otherInside, rfl⟩ := List.getElem?_eq_some_iff.mp found
  have first : other < (calls.map Call.worker).length := by simpa using otherInside
  have second : index < (calls.map Call.worker).length := by simpa using inside
  have workers : (calls.map Call.worker)[other] = (calls.map Call.worker)[index] := by
    simpa using same
  exact different ((List.Nodup.getElem_inj_iff apart).mp workers)

theorem Host.mem_settle {index : Nat} {worker : Worker} {outcome : Outcome} {call other : Call}
    (apart : (host.calls.map Call.worker).Nodup) (present : host.calls[index]? = some call)
    (member : other ∈ host.settle index worker outcome) :
    outcome = .going other.publication ∧ other.worker = worker ∨
      (other ∈ host.calls ∧ other.worker ≠ call.worker) := by
  have erased : other ∈ host.calls.eraseIdx index →
      other ∈ host.calls ∧ other.worker ≠ call.worker := by
    intro inside
    obtain ⟨place, different, found⟩ := List.mem_eraseIdx_iff_getElem?.mp inside
    exact ⟨List.mem_of_getElem? found, Host.workers_apart apart present found different⟩
  cases outcome with
  | going after =>
      obtain ⟨place, found⟩ := List.getElem?_of_mem member
      rcases Transition.party_of_set found with ⟨_, rfl⟩ | ⟨different, old⟩
      · exact .inl ⟨rfl, rfl⟩
      · exact .inr ⟨List.mem_of_getElem? old, Host.workers_apart apart present old different⟩
  | returned => exact .inr (erased member)
  | raised => exact .inr (erased member)

theorem Host.settle_apart {index : Nat} {call : Call} {outcome : Outcome}
    (apart : (host.calls.map Call.worker).Nodup) (present : host.calls[index]? = some call) :
    ((host.settle index call.worker outcome).map Call.worker).Nodup := by
  have sublist : ((host.calls.eraseIdx index).map Call.worker).Nodup :=
    apart.sublist ((List.eraseIdx_sublist _ _).map Call.worker)
  cases outcome with
  | going after =>
      obtain ⟨inside, rfl⟩ := List.getElem?_eq_some_iff.mp present
      have same : (host.calls.set index ⟨host.calls[index].worker, after⟩).map Call.worker =
          host.calls.map Call.worker := by
        have wide : index < (host.calls.map Call.worker).length := by simpa using inside
        have worker : host.calls[index].worker = (host.calls.map Call.worker)[index] := by simp
        rw [List.map_set, worker]
        exact List.set_getElem_self wide
      rw [Host.settle, same]
      exact apart
  | returned => exact sublist
  | raised => exact sublist

/-- A call that moves leaves whole records, and the other calls at their places. -/
theorem Host.Sound.advance (finals : FinalPaths final) (sound : host.Sound final) {index : Nat}
    {call : Call} {files : FileSystem} {outcome : Outcome}
    (present : host.calls[index]? = some call)
    (advances : call.publication.Advances call.worker host.files files outcome)
    (nextFiles : next.files = files) (calls : next.calls = host.settle index call.worker outcome)
    (passed : next.passed = host.passed) : next.Sound final := by
  have member := List.mem_of_getElem? present
  have own := sound.path_final member
  obtain ⟨_, stored⟩ := sound.calls call member
  constructor
  · intro path contents isFinal found
    rw [nextFiles] at found
    rw [passed]
    by_cases same : path = call.publication.path
    · rw [same] at found ⊢
      rcases advances.path with kept | replaced
      · rw [kept] at found
        exact sound.complete _ contents own found
      · rw [replaced] at found
        cases found
        exact stored
    · apply sound.complete path contents isFinal
      rw [← advances.frame path (finals _ _ _ own isFinal).symm same]
      exact found
  · rw [passed]
    exact sound.passed
  · intro other inside
    rw [calls] at inside
    rw [nextFiles, passed]
    rcases Host.mem_settle sound.apart present inside with ⟨goes, worker⟩ | ⟨old, different⟩
    · obtain ⟨samePath, sameRecord, otherSound⟩ := advances.going _ goes
      rw [worker, samePath, sameRecord]
      exact ⟨otherSound, stored⟩
    · obtain ⟨otherSound, otherStored⟩ := sound.calls other old
      have otherFinal := sound.path_final old
      refine ⟨otherSound.congr ?_ ?_, otherStored⟩
      · apply advances.frame
        · intro same
          exact different (temporary_injective same).2
        · exact finals _ _ _ otherFinal own
      · exact advances.isSome (finals _ _ _ own otherFinal).symm
  · rw [calls]
    exact Host.settle_apart sound.apart present

/-- The step lemma. -/
theorem Host.Sound.step (finals : FinalPaths final) (sound : host.Sound final)
    (allowed : event.Final final) (moves : host.Moves next event) : next.Sound final := by
  cases moves with
  | @call worker path record free files calls passed =>
      constructor
      · intro other contents isFinal found
        rw [files] at found
        rw [passed]
        exact List.mem_append_left _ (sound.complete other contents isFinal found)
      · intro entry member
        rw [passed] at member
        rcases List.mem_append.mp member with old | new
        · exact sound.passed entry old
        · rw [List.mem_singleton.mp new]
          exact allowed
      · intro other member
        rw [calls] at member
        rw [files, passed]
        rcases List.mem_append.mp member with old | new
        · obtain ⟨otherSound, stored⟩ := sound.calls other old
          exact ⟨otherSound, List.mem_append_left _ stored⟩
        · rw [List.mem_singleton.mp new]
          exact ⟨trivial, List.mem_append_right _ (List.mem_singleton_self _)⟩
      · rw [calls, List.map_append, List.nodup_append]
        refine ⟨sound.apart, List.nodup_singleton _, ?_⟩
        intro first inside second new
        obtain ⟨other, member, rfl⟩ := List.mem_map.mp inside
        rw [List.mem_singleton.mp new]
        exact free other member
  | @step index size call files outcome present happens nextFiles calls passed =>
      have placed := (sound.calls call (List.mem_of_getElem? present)).1
      exact sound.advance finals present (Publication.advances_step placed happens) nextFiles calls
        passed
  | fault present early files calls passed =>
      exact sound.advance finals present Publication.advances_fault files calls passed
  | @crash index call present files calls passed =>
      constructor
      · rw [files, passed]
        exact sound.complete
      · rw [passed]
        exact sound.passed
      · intro other member
        rw [calls] at member
        rw [files, passed]
        exact sound.calls other (List.mem_of_mem_eraseIdx member)
      · rw [calls]
        exact sound.apart.sublist ((List.eraseIdx_sublist _ _).map Call.worker)

theorem Host.Sound.stays (finals : FinalPaths final) (sound : host.Sound final)
    (moves : host.Moves next event) {path : FilePath} (isFinal : final path)
    (present : (host.files path).isSome) : (next.files path).isSome := by
  cases moves with
  | call free files | fault _ _ files | crash _ files =>
      rw [files]
      exact present
  | @step index size call files outcome found happens nextFiles =>
      have member := List.mem_of_getElem? found
      have advances := Publication.advances_step (sound.calls call member).1 happens
      rw [nextFiles]
      exact advances.isSome (finals _ _ _ (sound.path_final member) isFinal).symm present

end Host

/-- A host before the first call, with the records of earlier calls. -/
def Host.initial (files : FileSystem) (passed : List (FilePath × Bytes)) : Host :=
  ⟨files, [], passed⟩

/-- In every run of calls on paths none of which is the temporary of one of them: a path
has no file or a whole record that was passed for it, and no step removes it; a call that
returns leaves its path there, and a call that ends leaves no temporary, unless it ends
before it makes one. -/
theorem publications_atomic (final : FilePath → Prop) (finals : FinalPaths final)
    (files : FileSystem) (passed : List (FilePath × Bytes))
    (passedFinal : ∀ entry ∈ passed, final entry.1)
    (complete : ∀ path contents, final path → files path = some contents →
      (path, contents) ∈ passed)
    {events : List HostEvent} (calls : ∀ event ∈ events, event.Final final) {host : Host}
    (reached : run Host.step (Host.initial files passed) events = some host) :
    (∀ path, final path → host.files path = none ∨
      ∃ record, host.files path = some record ∧ (path, record) ∈ host.passed) ∧
    (∀ event next, host.step event = some next → ∀ path, final path →
      (host.files path).isSome → (next.files path).isSome) ∧
    (∀ index size call next, host.calls[index]? = some call →
      host.step (.step index size) = some next →
      ∀ outcome, call.publication.step call.worker size host.files = (next.files, outcome) →
        (outcome = .returned → (next.files call.publication.path).isSome) ∧
        ((∀ after, outcome ≠ .going after) →
          next.files (temporary call.publication.path call.worker) = none ∨
            (call.publication.stage = .entered ∧ next.files = host.files))) ∧
    ∀ index call next, host.calls[index]? = some call → host.step (.fault index) = some next →
      (∀ after, call.publication.fault ≠ .going after) →
        call.publication.stage = .entered ∧ next.files = host.files := by
  have sound : host.Sound final := by
    apply invariant_of_allowed_run _ calls _ reached
    · intro state event next allowed before happens
      exact before.step finals allowed (Host.step_moves happens)
    · exact ⟨complete, passedFinal, by simp [Host.initial], by simp [Host.initial]⟩
  refine ⟨?_, ?_, ?_, ?_⟩
  · intro path isFinal
    cases found : host.files path with
    | none => exact .inl rfl
    | some record => exact .inr ⟨record, rfl, sound.complete path record isFinal found⟩
  · intro event next happens path isFinal present
    exact sound.stays finals (Host.step_moves happens) isFinal present
  · intro index size call next present _ outcome moves
    constructor
    · exact (Publication.advances_step
        (sound.calls call (List.mem_of_getElem? present)).1 moves).returned
    · exact Publication.step_ends moves
  · intro index call next present happens ends
    cases Host.step_moves happens with
    | @fault _ other found early files calls passed =>
        rw [present] at found
        cases found
        exact ⟨Publication.fault_ends early ends, files⟩

/-- Two calls for one path: the first crashes while it writes, the second finds the
temporary under its own name, raises and removes it. -/
def crashedCall : List HostEvent :=
  [.call ⟨1, 1⟩ ⟨[], "a"⟩ [1, 2], .step 0 0, .step 0 0, .step 0 0, .crash 0,
    .call ⟨1, 1⟩ ⟨[], "a"⟩ [1, 2], .step 0 0, .step 0 0, .step 0 0]

theorem publications_atomic_crashed :
    ∃ host, run Host.step (Host.initial (fun _ => none) []) crashedCall = some host ∧
      host.calls = [] ∧ host.files (temporary ⟨[], "a"⟩ ⟨1, 1⟩) = none ∧
      (host.files ⟨[], "a"⟩ = none ∨ ∃ record, host.files ⟨[], "a"⟩ = some record ∧
        (⟨[], "a"⟩, record) ∈ host.passed) := by
  have finals : FinalPaths fun path => path = ⟨[], "a"⟩ := by
    rintro path other worker rfl rfl
    exact temporary_ne_self _ worker
  have calls : ∀ event ∈ crashedCall, event.Final fun path => path = ⟨[], "a"⟩ := by
    simp [crashedCall, HostEvent.Final]
  have computed : (run Host.step (Host.initial (fun _ => none) []) crashedCall).map
      (fun host => (host.calls, host.files (temporary ⟨[], "a"⟩ ⟨1, 1⟩))) = some ([], none) := by
    decide +kernel
  obtain ⟨host, reached, result⟩ := Option.map_eq_some_iff.mp computed
  obtain ⟨ended, removed⟩ := Prod.mk.inj result
  have atomic := publications_atomic (fun path => path = ⟨[], "a"⟩) finals (fun _ => none) []
    (by simp) (by simp) calls reached
  exact ⟨host, reached, ended, removed, atomic.1 _ rfl⟩

/-- A path that is the temporary of another call: it holds a part of that call's record,
and is gone after that call has returned. -/
theorem temporaryPath_not_atomic :
    (∃ host, run Host.step (Host.initial (fun _ => none) [])
        [.call ⟨1, 1⟩ ⟨[], "a"⟩ [1, 2], .step 0 0, .step 0 0,
          .call ⟨2, 2⟩ ⟨[], ".a.1.1.tmp"⟩ [9]] = some host ∧
      host.files ⟨[], ".a.1.1.tmp"⟩ = some [] ∧
      host.passed = [(⟨[], "a"⟩, [1, 2]), (⟨[], ".a.1.1.tmp"⟩, [9])]) ∧
    ∃ host, run Host.step (Host.initial (fun _ => none) [])
        [.call ⟨1, 1⟩ ⟨[], "a"⟩ [1, 2], .step 0 0, .step 0 0,
          .call ⟨2, 2⟩ ⟨[], ".a.1.1.tmp"⟩ [9], .step 1 0, .step 0 1, .step 0 0] = some host ∧
      host.files ⟨[], ".a.1.1.tmp"⟩ = none := by
  constructor
  · have computed : (run Host.step (Host.initial (fun _ => none) [])
        [.call ⟨1, 1⟩ ⟨[], "a"⟩ [1, 2], .step 0 0, .step 0 0,
          .call ⟨2, 2⟩ ⟨[], ".a.1.1.tmp"⟩ [9]]).map
        (fun host => (host.files ⟨[], ".a.1.1.tmp"⟩, host.passed)) =
        some (some [], [(⟨[], "a"⟩, [1, 2]), (⟨[], ".a.1.1.tmp"⟩, [9])]) := by
      decide +kernel
    obtain ⟨host, reached, result⟩ := Option.map_eq_some_iff.mp computed
    obtain ⟨file, passed⟩ := Prod.mk.inj result
    exact ⟨host, reached, file, passed⟩
  · have computed : (run Host.step (Host.initial (fun _ => none) [])
        [.call ⟨1, 1⟩ ⟨[], "a"⟩ [1, 2], .step 0 0, .step 0 0,
          .call ⟨2, 2⟩ ⟨[], ".a.1.1.tmp"⟩ [9], .step 1 0, .step 0 1, .step 0 0]).map
        (fun host => host.files ⟨[], ".a.1.1.tmp"⟩) = some none := by
      decide +kernel
    obtain ⟨host, reached, file⟩ := Option.map_eq_some_iff.mp computed
    exact ⟨host, reached, file⟩

end KVSSD

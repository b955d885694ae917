import KVSSD.Lib.Transition
import Mathlib.Logic.Function.Basic

/-!
# Descriptors of a storage backend

`_file_descriptor`, `read_into` and `close` of the buffered and of the direct backend in a process
whose other code opens and closes descriptors too.  Fetching the descriptor and closing it happen
under a lock, a positioned read does not: it comes later, on the number that was fetched.
-/

namespace KVSSD

open KVSSD.Transition

/-- What a descriptor is open on, and whether it was opened with `O_DIRECT`. -/
structure OpenFile where
  path : String
  direct : Bool
  deriving DecidableEq, Repr

/-- What `BufferedStorageBackend` opens. -/
def bufferedFile (path : String) : OpenFile := ⟨path, false⟩

/-- What `DirectIOStorageBackend` opens. -/
def directFile (path : String) : OpenFile := ⟨path, true⟩

/-- A positioned read: the descriptor, and what it is open on when the read is issued. -/
structure PositionedRead where
  number : Nat
  found : Option OpenFile
  deriving DecidableEq, Repr

/-- The descriptor table of the process, `_fd`, the descriptor each thread has fetched in a call of
`read_into` that will still read, and for the record the descriptors that the backend has opened
and not closed and the positioned reads. -/
structure Process where
  table : Nat → Option OpenFile
  fd : Option Nat
  holding : Nat → Option Nat
  opened : List Nat
  reads : List PositionedRead

inductive DescriptorEvent where
  /-- A thread in `read_into` gets the descriptor.  When there is none the kernel opens one, with
  any number that is free. -/
  | fetch (thread number : Nat)
  /-- The same, and `os.open` raises. -/
  | openFails (thread : Nat)
  /-- A positioned read with the descriptor that was fetched. -/
  | read (thread : Nat)
  /-- The call of `read_into` is done with the descriptor. -/
  | finish (thread : Nat)
  | close
  /-- Other code opens a file, and closes a descriptor of its own. -/
  | openOther (number : Nat) (file : OpenFile)
  | closeOther (number : Nat)
  deriving DecidableEq, Repr

namespace Process

/-- The process before the first call, with descriptors of other code. -/
def initial (others : Nat → Option OpenFile) : Process := ⟨others, none, fun _ => none, [], []⟩

/-- One step of a process with a backend that opens a file. -/
def step (file : OpenFile) (process : Process) : DescriptorEvent → Option Process
  | .fetch thread number =>
      if process.holding thread = none then
        match process.fd with
        | some own =>
            some { process with holding := Function.update process.holding thread (some own) }
        | none =>
            if process.table number = none then
              some { process with
                table := Function.update process.table number (some file)
                fd := some number
                holding := Function.update process.holding thread (some number)
                opened := number :: process.opened }
            else none
      else none
  | .openFails thread =>
      if process.holding thread = none ∧ process.fd = none then some process else none
  | .read thread =>
      match process.holding thread with
      | some number =>
          some { process with
            reads := process.reads ++ [⟨number, process.table number⟩] }
      | none => none
  | .finish thread =>
      match process.holding thread with
      | some _ => some { process with holding := Function.update process.holding thread none }
      | none => none
  | .close =>
      match process.fd with
      | some own =>
          some { process with
            table := Function.update process.table own none
            fd := none
            opened := process.opened.erase own }
      | none => some process
  | .openOther number other =>
      if process.table number = none then
        some { process with table := Function.update process.table number (some other) }
      else none
  | .closeOther number =>
      if process.table number ≠ none ∧ number ∉ process.opened then
        some { process with table := Function.update process.table number none }
      else none

/-- `close` is called while no call of `read_into` holds the descriptor. -/
def QuietClose (process : Process) : DescriptorEvent → Prop
  | .close => ∀ thread, process.holding thread = none
  | _ => True

/-- What an event makes of the process. -/
inductive Steps (file : OpenFile) (process : Process) : DescriptorEvent → Process → Prop where
  | fetches {thread number own : Nat} (cached : process.fd = some own) :
      Steps file process (.fetch thread number)
        { process with holding := Function.update process.holding thread (some own) }
  | opens {thread number : Nat} (none_cached : process.fd = none)
      (free : process.table number = none) :
      Steps file process (.fetch thread number)
        { process with
          table := Function.update process.table number (some file)
          fd := some number
          holding := Function.update process.holding thread (some number)
          opened := number :: process.opened }
  | openFails {thread : Nat} : Steps file process (.openFails thread) process
  | read {thread number : Nat} (held : process.holding thread = some number) :
      Steps file process (.read thread)
        { process with reads := process.reads ++ [⟨number, process.table number⟩] }
  | finish {thread : Nat} :
      Steps file process (.finish thread)
        { process with holding := Function.update process.holding thread none }
  | closes {own : Nat} (cached : process.fd = some own) :
      Steps file process .close
        { process with
          table := Function.update process.table own none
          fd := none
          opened := process.opened.erase own }
  | stays (none_cached : process.fd = none) : Steps file process .close process
  | openOther {number : Nat} {other : OpenFile} (free : process.table number = none) :
      Steps file process (.openOther number other)
        { process with table := Function.update process.table number (some other) }
  | closeOther {number : Nat} (others : number ∉ process.opened) :
      Steps file process (.closeOther number)
        { process with table := Function.update process.table number none }

section Steps

variable {file : OpenFile} {process next : Process} {event : DescriptorEvent}

theorem step_steps (happens : process.step file event = some next) :
    process.Steps file event next := by
  cases event with
  | fetch thread number =>
      obtain ⟨_, happens⟩ := Option.ite_none_right_eq_some.mp happens
      split at happens
      · rename_i own cached
        cases happens
        exact .fetches cached
      · rename_i none_cached
        obtain ⟨free, ⟨⟩⟩ := Option.ite_none_right_eq_some.mp happens
        exact .opens none_cached free
  | openFails thread =>
      obtain ⟨_, ⟨⟩⟩ := Option.ite_none_right_eq_some.mp happens
      exact .openFails
  | read thread =>
      simp only [step] at happens
      split at happens
      · rename_i number held
        cases happens
        exact .read held
      · cases happens
  | finish thread =>
      simp only [step] at happens
      split at happens
      · cases happens
        exact .finish
      · cases happens
  | close =>
      simp only [step] at happens
      split at happens
      · rename_i own cached
        cases happens
        exact .closes cached
      · rename_i none_cached
        cases happens
        exact .stays none_cached
  | openOther number other =>
      obtain ⟨free, ⟨⟩⟩ := Option.ite_none_right_eq_some.mp happens
      exact .openOther free
  | closeOther number =>
      obtain ⟨⟨_, others⟩, ⟨⟩⟩ := Option.ite_none_right_eq_some.mp happens
      exact .closeOther others

end Steps

/-- The backend has the descriptor in `_fd` open on its file, and no other. -/
structure Sound (file : OpenFile) (process : Process) : Prop where
  opened : process.opened = process.fd.toList
  table : ∀ number, process.fd = some number → process.table number = some file

/-- Threads hold the descriptor in `_fd`, and have read from it. -/
structure Current (file : OpenFile) (process : Process) : Prop where
  held : ∀ thread number, process.holding thread = some number → process.fd = some number
  reads : ∀ read ∈ process.reads, read.found = some file

section Invariants

variable {file : OpenFile} {process next : Process} {event : DescriptorEvent}

/-- The step lemma, for any order of the calls. -/
theorem Sound.step (sound : process.Sound file) (happens : process.step file event = some next) :
    next.Sound file := by
  have opened := sound.opened
  cases step_steps happens with
  | fetches | openFails | read | finish | stays => exact ⟨sound.opened, sound.table⟩
  | @opens thread number none_cached free =>
      constructor
      · rw [opened, none_cached]
        rfl
      · rintro _ ⟨⟩
        exact Function.update_self _ _ _
  | @closes own cached =>
      constructor
      · change process.opened.erase own = []
        rw [opened, cached]
        exact List.erase_cons_head (a := own) (l := [])
      · intro number cleared
        cases cleared
  | @openOther number other free =>
      constructor
      · exact opened
      · intro own cached
        have different : own ≠ number := by
          rintro rfl
          rw [sound.table own cached] at free
          cases free
        exact (Function.update_of_ne different _ _).trans (sound.table own cached)
  | @closeOther number others =>
      constructor
      · exact opened
      · intro own cached
        have different : own ≠ number := by
          rintro rfl
          apply others
          rw [opened, show process.fd = some own from cached]
          exact List.mem_singleton_self own
        exact (Function.update_of_ne different _ _).trans (sound.table own cached)

theorem held_of_update {holding : Nat → Option Nat} {fd : Option Nat} {thread own : Nat}
    (cached : fd = some own)
    (held : ∀ other number, holding other = some number → fd = some number) :
    ∀ other number, Function.update holding thread (some own) other = some number →
      fd = some number := by
  intro other number fetched
  by_cases same : other = thread
  · rw [same, Function.update_self] at fetched
    rw [cached]
    exact fetched
  · rw [Function.update_of_ne same] at fetched
    exact held other number fetched

/-- The step lemma, where the descriptor is not closed under a thread that holds it. -/
theorem Current.step (current : process.Current file) (sound : process.Sound file)
    (quiet : process.QuietClose event) (happens : process.step file event = some next) :
    next.Current file := by
  cases step_steps happens with
  | @fetches thread number own cached =>
      constructor
      · exact held_of_update cached current.held
      · exact current.reads
  | @opens thread number none_cached free =>
      constructor
      · apply held_of_update rfl
        intro other own held
        have cached := current.held other own held
        rw [none_cached] at cached
        cases cached
      · exact current.reads
  | openFails | stays | openOther | closeOther => exact ⟨current.held, current.reads⟩
  | @read thread number held =>
      constructor
      · exact current.held
      · intro read member
        rcases List.mem_append.mp member with old | new
        · exact current.reads read old
        · rw [List.mem_singleton.mp new]
          exact sound.table number (current.held thread number held)
  | @finish thread =>
      constructor
      · intro other number held
        by_cases same : other = thread
        · have dropped : Function.update process.holding thread none other = none := by
            rw [same]
            exact Function.update_self _ _ _
          exact absurd (dropped.symm.trans held) (Option.some_ne_none number).symm
        · apply current.held other number
          exact (Function.update_of_ne same _ _).symm.trans held
      · exact current.reads
  | @closes own cached =>
      constructor
      · intro thread number held
        exact absurd ((quiet thread).symm.trans held) (Option.some_ne_none number).symm
      · exact current.reads

theorem sound_initial (file : OpenFile) (others : Nat → Option OpenFile) :
    (initial others).Sound file := by
  constructor
  · rfl
  · intro number cached
    cases cached

theorem current_initial (file : OpenFile) (others : Nat → Option OpenFile) :
    (initial others).Current file := by
  constructor
  · intro thread number held
    cases held
  · intro read member
    cases member

theorem fd_none_step (closed : process.fd = none)
    (quiet : ∀ thread number, event ≠ .fetch thread number)
    (happens : process.step file event = some next) : next.fd = none := by
  cases step_steps happens with
  | fetches | opens => exact absurd rfl (quiet _ _)
  | openFails | read | finish | stays | openOther | closeOther => exact closed
  | closes => rfl

end Invariants

section Run

variable {file : OpenFile} {others : Nat → Option OpenFile} {events : List DescriptorEvent}
  {process : Process}

theorem sound_of_run (reached : run (step file) (initial others) events = some process) :
    process.Sound file := by
  apply invariant_of_run (Sound file) _ (sound_initial file others) reached
  intro state event next sound happens
  exact sound.step happens

theorem current_of_run
    (permitted : Permitted (step file) QuietClose (initial others) events)
    (reached : run (step file) (initial others) events = some process) :
    process.Current file := by
  have both : process.Sound file ∧ process.Current file := by
    apply invariant_of_permitted_run _ permitted
      ⟨sound_initial file others, current_initial file others⟩ reached
    rintro state event next quiet ⟨sound, current⟩ happens
    exact ⟨sound.step happens, current.step sound quiet happens⟩
  exact both.2

theorem read_after_close {thread number : Nat} (current : process.Current file)
    (held : process.holding thread = some number) :
    ∃ closed next, process.step file .close = some closed ∧
      closed.step file (.read thread) = some next ∧
      next.reads = process.reads ++ [⟨number, none⟩] := by
  have cached := current.held thread number held
  have closes : process.step file .close = some
      { process with
        table := Function.update process.table number none
        fd := none
        opened := process.opened.erase number } := by
    simp only [step, cached]
  refine ⟨_, { process with
    table := Function.update process.table number none
    fd := none
    opened := process.opened.erase number
    reads := process.reads ++ [⟨number, none⟩] }, closes, ?_, rfl⟩
  simp only [step, held, Function.update_self]

theorem opened_of_last_close {before rest : List DescriptorEvent}
    (reached : run (step file) (initial others) (before ++ .close :: rest) = some process)
    (last : ∀ thread number, .fetch thread number ∉ rest) : process.opened = [] := by
  obtain ⟨middle, _, tail⟩ := run_append.mp reached
  obtain ⟨closed, closes, goes⟩ := run_cons.mp tail
  have cleared : closed.fd = none := by
    cases step_steps closes with
    | closes => rfl
    | stays none_cached => exact none_cached
  have still : process.fd = none := by
    apply @invariant_of_allowed_run _ _ _ (fun state => state.fd = none)
      (fun event => ∀ thread number, event ≠ .fetch thread number) _ _ _ _ _ cleared goes
    · intro state event next quiet closed happens
      exact fd_none_step closed quiet happens
    · rintro event member thread number rfl
      exact last thread number member
  rw [(sound_of_run reached).opened, still]
  rfl

end Run

end Process

/-- For every order of the calls of any threads on a backend, and whatever other code opens and
closes: where the descriptor is never closed under a call that has fetched it and will still read,
every read finds it open on the file of the backend; a close under such a call makes its next read
one on a closed descriptor.  The backend never has more than one descriptor open, and none when the
last of its calls to take the lock was a close. -/
theorem descriptors_current (file : OpenFile) (others : Nat → Option OpenFile)
    {events : List DescriptorEvent} {process : Process}
    (reached : run (Process.step file) (Process.initial others) events = some process) :
    (Permitted (Process.step file) Process.QuietClose (Process.initial others) events →
      (∀ read ∈ process.reads, read.found = some file) ∧
      ∀ thread number, process.holding thread = some number →
        ∃ closed next, process.step file .close = some closed ∧
          closed.step file (.read thread) = some next ∧
          next.reads = process.reads ++ [⟨number, none⟩]) ∧
      process.opened.length ≤ 1 ∧
      (∀ number ∈ process.opened, process.table number = some file) ∧
      ∀ before rest, events = before ++ .close :: rest →
        (∀ thread number, .fetch thread number ∉ rest) → process.opened = [] := by
  have sound := Process.sound_of_run reached
  refine ⟨?_, ?_, ?_, ?_⟩
  · intro permitted
    have current := Process.current_of_run permitted reached
    constructor
    · exact current.reads
    · intro thread number held
      exact Process.read_after_close current held
  · rw [sound.opened]
    exact Option.length_toList_le
  · intro number member
    rw [sound.opened] at member
    exact sound.table number (Option.mem_toList.mp member)
  · rintro before rest rfl last
    exact Process.opened_of_last_close reached last

/-- A thread reads, and the backend is closed behind it. -/
theorem descriptors_current_tiny : ∃ process,
    run (Process.step (directFile "blocks.kvssd")) (Process.initial fun _ => none)
        [.fetch 1 3, .read 1, .finish 1, .close] = some process ∧
      (∀ read ∈ process.reads, read.found = some (directFile "blocks.kvssd")) ∧
      process.opened = [] := by
  obtain ⟨process, reached⟩ : ∃ process,
      run (Process.step (directFile "blocks.kvssd")) (Process.initial fun _ => none)
        [.fetch 1 3, .read 1, .finish 1, .close] = some process := ⟨_, rfl⟩
  obtain ⟨reads, _, _, last⟩ := descriptors_current _ _ reached
  have permitted : Permitted (Process.step (directFile "blocks.kvssd")) Process.QuietClose
      (Process.initial fun _ => none) [.fetch 1 3, .read 1, .finish 1, .close] := by
    refine ⟨trivial, ?_⟩
    rintro _ ⟨⟩
    refine ⟨trivial, ?_⟩
    rintro _ ⟨⟩
    refine ⟨trivial, ?_⟩
    rintro _ ⟨⟩
    constructor
    · intro thread
      by_cases same : thread = 1
      · simp [same]
      · simp [Process.initial, Function.update_of_ne same]
    · intro _ _
      trivial
  refine ⟨process, reached, (reads permitted).1, ?_⟩
  exact last [.fetch 1 3, .read 1, .finish 1] [] rfl (by simp)

/-- The run of a read that was in flight when the store was closed and another file opened. -/
def foreignRead : List DescriptorEvent :=
  [.fetch 1 3, .close, .openOther 3 ⟨"other", false⟩, .read 1]

/-- The read is issued on the descriptor of the other file. -/
theorem foreignRead_finds_other : ∃ process,
    run (Process.step (bufferedFile "blocks.kvssd")) (Process.initial fun _ => none) foreignRead =
        some process ∧
      process.reads = [⟨3, some ⟨"other", false⟩⟩] ∧
      ¬ ∀ read ∈ process.reads, read.found = some (bufferedFile "blocks.kvssd") := by
  refine ⟨_, rfl, rfl, ?_⟩
  intro reads
  have found := reads _ List.mem_cons_self
  revert found
  decide

end KVSSD

import KVSSD.Lib.Transition
import KVSSD.Storage

/-!
# Concurrent buffered reads

`BufferedStorageBackend.read_into` step by step, for any number of calls at a time that share one
descriptor.  With `preadv` a call reads once at its own offset, or at the file position where that
is -1.  Without it a call takes the fallback lock, seeks, and reads until it has the record or the
file ends; the file position belongs to the descriptor, so it is shared.  The operating system
chooses how much a read returns.
-/

namespace KVSSD

open KVSSD.Python KVSSD.Struct KVSSD.Transition

/-- What a read of up to `asked` bytes at a position may return: a non-empty front part of them
while there is data, and nothing at the end of the file. -/
def ReadReturns (file : Bytes) (position asked count : Nat) : Prop :=
  count ≤ ((file.drop position).take asked).length ∧
    (((file.drop position).take asked).length ≠ 0 → count ≠ 0)

instance (file : Bytes) (position asked count : Nat) :
    Decidable (ReadReturns file position asked count) :=
  inferInstanceAs (Decidable (_ ∧ _))

/-- `target[start : start + len(chunk)] = chunk`, where the target views the buffer. -/
def Buffer.write (buffer : Buffer) (start : Nat) (chunk : Bytes) : Buffer :=
  { buffer with
    bytes := buffer.bytes.take start ++ chunk ++ buffer.bytes.drop (start + chunk.length) }

/-- Where a call of `read_into` stands. -/
inductive ReadStage where
  /-- Before the checks of the destination. -/
  | entered
  /-- Before `_file_descriptor`. -/
  | checked
  /-- It has the descriptor. -/
  | opened
  /-- It has taken the fallback lock and has not called `lseek`. -/
  | locked
  /-- At the condition of the loop. -/
  | looping (total : Nat)
  /-- Before the comparison of `total` with the length. -/
  | counted (total : Nat)
  | ended (outcome : Except PyError Unit)

/-- The stages between taking and releasing the fallback lock. -/
def ReadStage.InLock : ReadStage → Prop
  | .locked | .looping _ => True
  | _ => False

/-- A call of `read_into`; `given` is the destination when it was called. -/
structure ReadCall where
  entry : BlockEntry
  given : Buffer
  destination : Buffer
  stage : ReadStage

/-- `_fd` with the position of its file, `_fallback_lock` with the call that holds it, and all
calls so far. -/
structure BufferedBackend where
  position : Option Nat
  lock : Option Nat
  calls : List ReadCall

/-- What `read_into` makes of the number of bytes it has read. -/
def shortRead (entry : BlockEntry) (total : Nat) : Except PyError Unit :=
  if (total : Int) ≠ entry.length then
    .error (.eofError
      (s!"short read for layer={entry.layer}, block={entry.block}: " ++
        s!"expected {entry.length}, got {total}"))
  else .ok ()

/-- The next step of a call, with the position of the file and the lock before and after it.
`count` is what the operating system returns where the call reads. -/
def ReadCall.step (file : Bytes) (hasPreadv : Bool) (own count : Nat) (call : ReadCall)
    (position lock : Option Nat) : Option (ReadCall × Option Nat × Option Nat) :=
  let entry := call.entry
  match call.stage with
  | .entered =>
      if call.destination.device ≠ .cpu then
        some ({ call with stage := .ended (.error (.valueError
          "buffered backend requires a CPU destination tensor")) }, position, lock)
      else if (call.destination.bytes.length : Int) < entry.length then
        some ({ call with stage := .ended (.error (.valueError
          "destination must be a sufficiently large uint8 tensor")) }, position, lock)
      else some ({ call with stage := .checked }, position, lock)
  | .checked => some ({ call with stage := .opened }, some (position.getD 0), lock)
  | .opened =>
      if hasPreadv then
        let target := pySlice call.destination.bytes 0 entry.length
        let start := seekTarget (position.getD 0) entry.offset
        if start < 0 then
          some ({ call with stage := .ended (.error (.osError "Invalid argument")) }, position,
            lock)
        else if ReadReturns file start.toNat target.length count then
          some ({ call with
            destination := call.destination.fill ((file.drop start.toNat).take count)
            stage := .counted count },
            if entry.offset = -1 then some (start.toNat + count) else position, lock)
        else none
      else if lock = none then some ({ call with stage := .locked }, position, some own)
      else none
  | .locked =>
      if entry.offset < 0 then
        some ({ call with stage := .ended (.error (.osError "Invalid argument")) }, position, none)
      else some ({ call with stage := .looping 0 }, some entry.offset.toNat, lock)
  | .looping total =>
      if (total : Int) < entry.length then
        match position with
        | none => none
        | some place =>
            if ReadReturns file place (entry.length - total).toNat count then
              let chunk := (file.drop place).take count
              if chunk = [] then some ({ call with stage := .counted total }, position, none)
              else
                some ({ call with
                  destination := call.destination.write total chunk
                  stage := .looping (total + chunk.length) }, some (place + chunk.length), lock)
            else none
      else some ({ call with stage := .counted total }, position, none)
  | .counted total => some ({ call with stage := .ended (shortRead entry total) }, position, lock)
  | .ended _ => none

inductive ReadEvent where
  | call (entry : BlockEntry) (destination : Buffer)
  | advance (own count : Nat)
  deriving DecidableEq

namespace BufferedBackend

/-- Before the first call. -/
def initial : BufferedBackend := ⟨none, none, []⟩

def step (file : Bytes) (hasPreadv : Bool) (backend : BufferedBackend) :
    ReadEvent → Option BufferedBackend
  | .call entry destination =>
      some { backend with calls := backend.calls ++ [⟨entry, destination, destination, .entered⟩] }
  | .advance own count => do
      let call ← backend.calls[own]?
      let (next, position, lock) ←
        call.step file hasPreadv own count backend.position backend.lock
      return ⟨position, lock, backend.calls.set own next⟩

end BufferedBackend

/-- What a step makes of a call, of the position and of the lock. -/
inductive ReadCall.Steps (file : Bytes) (hasPreadv : Bool) (own : Nat) (call : ReadCall)
    (position lock : Option Nat) : ReadCall → Option Nat → Option Nat → Prop where
  | wrongDevice (entered : call.stage = .entered) (device : call.destination.device ≠ .cpu) :
      Steps file hasPreadv own call position lock
        { call with stage := .ended (.error (.valueError
          "buffered backend requires a CPU destination tensor")) } position lock
  | tooSmall (entered : call.stage = .entered) (device : call.destination.device = .cpu)
      (small : (call.destination.bytes.length : Int) < call.entry.length) :
      Steps file hasPreadv own call position lock
        { call with stage := .ended (.error (.valueError
          "destination must be a sufficiently large uint8 tensor")) } position lock
  | checks (entered : call.stage = .entered) (device : call.destination.device = .cpu)
      (room : call.entry.length ≤ call.destination.bytes.length) :
      Steps file hasPreadv own call position lock { call with stage := .checked } position lock
  | opens (checked : call.stage = .checked) :
      Steps file hasPreadv own call position lock { call with stage := .opened }
        (some (position.getD 0)) lock
  | preadvRaises (opened : call.stage = .opened) (positioned : hasPreadv = true)
      (negative : call.entry.offset < -1) :
      Steps file hasPreadv own call position lock
        { call with stage := .ended (.error (.osError "Invalid argument")) } position lock
  | preadv {count : Nat} (opened : call.stage = .opened) (positioned : hasPreadv = true)
      (offset : 0 ≤ call.entry.offset)
      (returns : ReadReturns file call.entry.offset.toNat
        (pySlice call.destination.bytes 0 call.entry.length).length count) :
      Steps file hasPreadv own call position lock
        { call with
          destination := call.destination.fill ((file.drop call.entry.offset.toNat).take count)
          stage := .counted count } position lock
  | preadvHere {count : Nat} (opened : call.stage = .opened) (positioned : hasPreadv = true)
      (here : call.entry.offset = -1)
      (returns : ReadReturns file (position.getD 0)
        (pySlice call.destination.bytes 0 call.entry.length).length count) :
      Steps file hasPreadv own call position lock
        { call with
          destination := call.destination.fill ((file.drop (position.getD 0)).take count)
          stage := .counted count } (some (position.getD 0 + count)) lock
  | locks (opened : call.stage = .opened) (fallback : hasPreadv = false) (free : lock = none) :
      Steps file hasPreadv own call position lock { call with stage := .locked } position (some own)
  | seekRaises (locked : call.stage = .locked) (negative : call.entry.offset < 0) :
      Steps file hasPreadv own call position lock
        { call with stage := .ended (.error (.osError "Invalid argument")) } position none
  | seeks (locked : call.stage = .locked) (offset : 0 ≤ call.entry.offset) :
      Steps file hasPreadv own call position lock { call with stage := .looping 0 }
        (some call.entry.offset.toNat) lock
  | reads {total place count : Nat} (looping : call.stage = .looping total)
      (more : (total : Int) < call.entry.length) (here : position = some place)
      (returns : ReadReturns file place (call.entry.length - total).toNat count)
      (nonempty : (file.drop place).take count ≠ []) :
      Steps file hasPreadv own call position lock
        { call with
          destination := call.destination.write total ((file.drop place).take count)
          stage := .looping (total + ((file.drop place).take count).length) }
        (some (place + ((file.drop place).take count).length)) lock
  | stops {total place count : Nat} (looping : call.stage = .looping total)
      (more : (total : Int) < call.entry.length) (here : position = some place)
      (returns : ReadReturns file place (call.entry.length - total).toNat count)
      (empty : (file.drop place).take count = []) :
      Steps file hasPreadv own call position lock { call with stage := .counted total } position
        none
  | leaves {total : Nat} (looping : call.stage = .looping total)
      (done : call.entry.length ≤ total) :
      Steps file hasPreadv own call position lock { call with stage := .counted total } position
        none
  | compares {total : Nat} (counted : call.stage = .counted total) :
      Steps file hasPreadv own call position lock
        { call with stage := .ended (shortRead call.entry total) } position lock

section Steps

variable {file : Bytes} {hasPreadv : Bool} {own count : Nat} {call next : ReadCall}
  {position lock nextPosition nextLock : Option Nat}

theorem ReadCall.step_steps
    (happens : call.step file hasPreadv own count position lock =
      some (next, nextPosition, nextLock)) :
    call.Steps file hasPreadv own position lock next nextPosition nextLock := by
  unfold ReadCall.step at happens
  cases stage : call.stage with
  | entered =>
      simp only [stage] at happens
      split at happens
      · rename_i device
        cases happens
        exact .wrongDevice stage device
      · rename_i device
        split at happens
        · rename_i small
          cases happens
          exact .tooSmall stage (not_not.mp device) small
        · rename_i room
          cases happens
          exact .checks stage (not_not.mp device) (not_lt.mp room)
  | checked =>
      simp only [stage] at happens
      cases happens
      exact .opens stage
  | opened =>
      simp only [stage] at happens
      split at happens
      · rename_i positioned
        by_cases here : call.entry.offset = -1
        · have start : seekTarget (position.getD 0) call.entry.offset =
              ((position.getD 0 : Nat) : Int) := if_pos here
          rw [start, if_neg (by omega), if_pos here, Int.toNat_natCast] at happens
          obtain ⟨returns, ⟨⟩⟩ := Option.ite_none_right_eq_some.mp happens
          exact .preadvHere stage positioned here returns
        · have start : seekTarget (position.getD 0) call.entry.offset = call.entry.offset :=
            if_neg here
          rw [start, if_neg here] at happens
          split at happens
          · rename_i negative
            cases happens
            exact .preadvRaises stage positioned (by omega)
          · rename_i offset
            obtain ⟨returns, ⟨⟩⟩ := Option.ite_none_right_eq_some.mp happens
            exact .preadv stage positioned (not_lt.mp offset) returns
      · rename_i fallback
        obtain ⟨free, ⟨⟩⟩ := Option.ite_none_right_eq_some.mp happens
        exact .locks stage (Bool.eq_false_iff.mpr fallback) free
  | locked =>
      simp only [stage] at happens
      split at happens
      · rename_i negative
        cases happens
        exact .seekRaises stage negative
      · rename_i offset
        cases happens
        exact .seeks stage (not_lt.mp offset)
  | looping total =>
      simp only [stage] at happens
      split at happens
      · rename_i more
        split at happens
        · cases happens
        · rename_i place
          obtain ⟨returns, happens⟩ := Option.ite_none_right_eq_some.mp happens
          split at happens
          · rename_i empty
            cases happens
            exact .stops stage more rfl returns empty
          · rename_i nonempty
            cases happens
            exact .reads stage more rfl returns nonempty
      · rename_i done
        cases happens
        exact .leaves stage (not_lt.mp done)
  | counted total =>
      simp only [stage] at happens
      cases happens
      exact .compares stage
  | ended outcome =>
      simp only [stage] at happens
      cases happens

theorem ReadCall.Steps.entry
    (steps : call.Steps file hasPreadv own position lock next nextPosition nextLock) :
    next.entry = call.entry := by
  cases steps <;> rfl

end Steps

section Chunks

variable {file : Bytes} {position asked count : Nat}

theorem ReadReturns.le_present (returns : ReadReturns file position asked count) :
    count ≤ (file.drop position).length := by
  have bound := returns.1
  rw [List.length_take] at bound
  exact le_trans bound (Nat.min_le_right _ _)

theorem ReadReturns.le_asked (returns : ReadReturns file position asked count) :
    count ≤ asked := by
  have bound := returns.1
  rw [List.length_take] at bound
  exact le_trans bound (Nat.min_le_left _ _)

theorem ReadReturns.chunk_length (returns : ReadReturns file position asked count) :
    ((file.drop position).take count).length = count := by
  rw [List.length_take]
  exact Nat.min_eq_left returns.le_present

theorem ReadReturns.at_end (returns : ReadReturns file position asked count) (positive : 0 < asked)
    (empty : (file.drop position).take count = []) : (file.drop position).length = 0 := by
  have none : count = 0 := by
    rw [← returns.chunk_length, empty]
    rfl
  by_contra present
  apply returns.2 _ none
  rw [List.length_take]
  omega

theorem exists_readReturns (file : Bytes) (position asked : Nat) :
    ∃ count, ReadReturns file position asked count :=
  ⟨_, le_refl _, id⟩

theorem Buffer.fill_write (buffer : Buffer) (read chunk : Bytes) :
    (buffer.fill read).write read.length chunk = buffer.fill (read ++ chunk) := by
  unfold Buffer.fill Buffer.write
  congr 1
  rw [List.take_left' rfl, List.drop_append, List.drop_eq_nil_of_le (by omega), List.nil_append,
    List.drop_drop, List.length_append]
  congr 2
  omega

end Chunks

/-- The front of the destination holds `total` bytes of the file from the offset on. -/
structure Buffer.Filled (given destination : Buffer) (file : Bytes) (entry : BlockEntry)
    (total : Nat) : Prop where
  offset : 0 ≤ entry.offset
  present : total ≤ (file.drop entry.offset.toNat).length
  destination : destination = given.fill ((file.drop entry.offset.toNat).take total)

/-- The next chunk goes behind what is there. -/
theorem Buffer.Filled.write {given destination : Buffer} {file : Bytes} {entry : BlockEntry}
    {total asked count : Nat} (filled : given.Filled destination file entry total)
    (returns : ReadReturns file (entry.offset.toNat + total) asked count) :
    given.Filled
      (destination.write total ((file.drop (entry.offset.toNat + total)).take count)) file entry
      (total + ((file.drop (entry.offset.toNat + total)).take count).length) := by
  have before : ((file.drop entry.offset.toNat).take total).length = total := by
    rw [List.length_take]
    exact Nat.min_eq_left filled.present
  constructor
  · exact filled.offset
  · have old := filled.present
    have present := returns.le_present
    rw [returns.chunk_length]
    rw [List.length_drop] at old present ⊢
    omega
  · have written := given.fill_write ((file.drop entry.offset.toNat).take total)
      ((file.drop (entry.offset.toNat + total)).take count)
    rw [before] at written
    rw [returns.chunk_length, filled.destination, written, List.take_add, List.drop_drop]

/-- How many bytes a call reads in all: with `preadv` what one read returns, without it the record
as far as the file has it. -/
def ReadsInAll (file : Bytes) (hasPreadv : Bool) (entry : BlockEntry) (given : Buffer)
    (total : Nat) : Prop :=
  if hasPreadv then
    ReadReturns file entry.offset.toNat (pySlice given.bytes 0 entry.length).length total
  else total = min entry.length.toNat (file.drop entry.offset.toNat).length

theorem readsInAll_fallback {file : Bytes} {hasPreadv : Bool} {entry : BlockEntry}
    {given : Buffer} {total : Nat} (fallback : hasPreadv = false) :
    ReadsInAll file hasPreadv entry given total ↔
      total = min entry.length.toNat (file.drop entry.offset.toNat).length := by
  rw [ReadsInAll, fallback, if_neg Bool.false_ne_true]

theorem readsInAll_of_fallback {file : Bytes} {hasPreadv : Bool} {entry : BlockEntry}
    {given : Buffer} {total : Nat} (fallback : hasPreadv = false)
    (present : total ≤ (file.drop entry.offset.toNat).length) (bound : total ≤ entry.length.toNat)
    (whole : entry.length ≤ total ∨ (file.drop (entry.offset.toNat + total)).length = 0) :
    ReadsInAll file hasPreadv entry given total := by
  apply (readsInAll_fallback fallback).mpr
  rw [List.length_drop] at present whole ⊢
  omega

/-- The destination and the outcome of a call that has ended.  A call that reads nothing raises
what `bufferedReadInto` raises. -/
inductive ReadEnds (file : Bytes) (hasPreadv : Bool) (entry : BlockEntry)
    (given destination : Buffer) : Except PyError Unit → Prop where
  | refused {raised : PyError}
      (refused : ¬ given.Serves .buffered entry.length ∨ entry.offset < 0)
      (untouched : destination = given)
      (alone : entry.offset ≠ -1 → ∀ position,
        bufferedReadInto file position entry given = (given, .error raised)) :
      ReadEnds file hasPreadv entry given destination (.error raised)
  | counted {total : Nat} (serves : given.Serves .buffered entry.length)
      (filled : given.Filled destination file entry total)
      (all : ReadsInAll file hasPreadv entry given total) :
      ReadEnds file hasPreadv entry given destination (shortRead entry total)

/-- The call reads at its own offset: `preadv` takes -1 for the file position. -/
def ReadCall.AtOffset (hasPreadv : Bool) (call : ReadCall) : Prop :=
  hasPreadv = true → call.entry.offset ≠ -1

/-- What holds of a call that reads at its own offset, at every stage. -/
def ReadCall.Sound (file : Bytes) (hasPreadv : Bool) (call : ReadCall) : Prop :=
  match call.stage with
  | .entered => call.destination = call.given
  | .checked | .opened =>
      call.given.Serves .buffered call.entry.length ∧ call.destination = call.given
  | .locked =>
      hasPreadv = false ∧ call.given.Serves .buffered call.entry.length ∧
        call.destination = call.given
  | .looping total =>
      hasPreadv = false ∧ call.given.Serves .buffered call.entry.length ∧
        call.given.Filled call.destination file call.entry total ∧ total ≤ call.entry.length.toNat
  | .counted total =>
      call.given.Serves .buffered call.entry.length ∧
        call.given.Filled call.destination file call.entry total ∧
        ReadsInAll file hasPreadv call.entry call.given total
  | .ended outcome => ReadEnds file hasPreadv call.entry call.given call.destination outcome

section Sound

variable {file : Bytes} {hasPreadv : Bool} {own : Nat} {call next : ReadCall}
  {position lock nextPosition nextLock : Option Nat}

/-- A call reads at the place of the next byte it needs. -/
def ReadCall.Placed (call : ReadCall) (position : Option Nat) : Prop :=
  ∀ total, call.stage = .looping total →
    position = some (call.entry.offset.toNat + total)

theorem bufferedReadInto_negative {file : Bytes} {position : Nat} {entry : BlockEntry}
    {given : Buffer} (serves : given.Serves .buffered entry.length)
    (negative : entry.offset < -1) :
    bufferedReadInto file position entry given =
      (given, .error (.osError "Invalid argument")) := by
  have device : given.device = .cpu := serves.device
  have start : seekTarget position entry.offset < 0 := by
    rw [seekTarget, if_neg (by omega)]
    omega
  unfold bufferedReadInto
  rw [if_neg (not_not_intro device), if_neg (not_lt.mpr serves.room)]
  simp only [preadv, if_pos start]

/-- The step lemma of a call that reads at its own place. -/
theorem ReadCall.Sound.step (sound : call.Sound file hasPreadv)
    (own_offset : call.AtOffset hasPreadv) (placed : call.Placed position)
    (steps : call.Steps file hasPreadv own position lock next nextPosition nextLock) :
    next.Sound file hasPreadv := by
  cases steps with
  | wrongDevice entered device =>
      rw [ReadCall.Sound, entered] at sound
      rw [sound] at device
      refine .refused (Or.inl fun serves => device serves.device) sound ?_
      intro _ place
      rw [bufferedReadInto, if_pos device]
  | tooSmall entered device small =>
      rw [ReadCall.Sound, entered] at sound
      rw [sound] at device small
      refine .refused (Or.inl fun serves => absurd serves.room (not_le.mpr small)) sound ?_
      intro _ place
      rw [bufferedReadInto, if_neg (not_not_intro device), if_pos small]
  | checks entered device room =>
      rw [ReadCall.Sound, entered] at sound
      rw [sound] at device room
      exact ⟨⟨device, room, fun other => absurd rfl other⟩, sound⟩
  | opens checked =>
      rw [ReadCall.Sound, checked] at sound
      exact sound
  | preadvRaises opened positioned negative =>
      rw [ReadCall.Sound, opened] at sound
      have outside : call.entry.offset < 0 := by omega
      exact .refused (Or.inr outside) sound.2
        fun _ _ => bufferedReadInto_negative sound.1 negative
  | preadvHere opened positioned here returns => exact absurd here (own_offset positioned)
  | preadv opened positioned offset returns =>
      rw [ReadCall.Sound, opened] at sound
      obtain ⟨serves, untouched⟩ := sound
      rw [untouched] at returns
      refine ⟨serves, ⟨offset, returns.le_present, ?_⟩, ?_⟩
      · rw [← untouched]
      · rw [ReadsInAll, if_pos positioned]
        exact returns
  | locks opened fallback free =>
      rw [ReadCall.Sound, opened] at sound
      exact ⟨fallback, sound⟩
  | seekRaises locked negative =>
      rw [ReadCall.Sound, locked] at sound
      obtain ⟨_, serves, untouched⟩ := sound
      refine .refused (Or.inr negative) untouched ?_
      intro other _
      have below : call.entry.offset < -1 := lt_of_le_of_ne (Int.le_sub_one_of_lt negative) other
      exact bufferedReadInto_negative serves below
  | seeks locked offset =>
      rw [ReadCall.Sound, locked] at sound
      obtain ⟨fallback, serves, untouched⟩ := sound
      exact ⟨fallback, serves, ⟨offset, Nat.zero_le _, untouched⟩, Nat.zero_le _⟩
  | @reads total place count looping more here returns nonempty =>
      have place : place = call.entry.offset.toNat + total :=
        Option.some.inj (here.symm.trans (placed total looping))
      rw [ReadCall.Sound, looping] at sound
      obtain ⟨fallback, serves, filled, bound⟩ := sound
      subst place
      have asked := returns.le_asked
      have length := returns.chunk_length
      refine ⟨fallback, serves, filled.write returns, ?_⟩
      change total + _ ≤ call.entry.length.toNat
      omega
  | @stops total place count looping more here returns empty =>
      have place : place = call.entry.offset.toNat + total :=
        Option.some.inj (here.symm.trans (placed total looping))
      rw [ReadCall.Sound, looping] at sound
      obtain ⟨fallback, serves, filled, bound⟩ := sound
      subst place
      exact ⟨serves, filled, readsInAll_of_fallback fallback filled.present bound
        (Or.inr (returns.at_end (by omega) empty))⟩
  | @leaves total looping done =>
      rw [ReadCall.Sound, looping] at sound
      obtain ⟨fallback, serves, filled, bound⟩ := sound
      exact ⟨serves, filled,
        readsInAll_of_fallback fallback filled.present bound (Or.inl done)⟩
  | compares counted =>
      rw [ReadCall.Sound, counted] at sound
      exact .counted sound.1 sound.2.1 sound.2.2

/-- What a step does to the position and to the lock: the position is moved only by a call that
holds the lock, by opening the file, or by a `preadv` at -1, and the lock is taken when it is free
and there is no `preadv`. -/
inductive ReadCall.Shares (hasPreadv : Bool) (own : Nat) (call next : ReadCall)
    (position lock : Option Nat) : Option Nat → Option Nat → Prop where
  | outside (out : ¬ call.stage.InLock) (stays : ¬ next.stage.InLock) :
      Shares hasPreadv own call next position lock position lock
  | opens (out : ¬ call.stage.InLock) (stays : ¬ next.stage.InLock) :
      Shares hasPreadv own call next position lock (some (position.getD 0)) lock
  | drifts {place : Option Nat} (positioned : hasPreadv = true) (out : ¬ call.stage.InLock)
      (stays : ¬ next.stage.InLock) : Shares hasPreadv own call next position lock place lock
  | takes (fallback : hasPreadv = false) (out : ¬ call.stage.InLock) (free : lock = none)
      (inside : next.stage = .locked) :
      Shares hasPreadv own call next position lock position (some own)
  | moves {place : Option Nat} (inside : call.stage.InLock) (stays : next.stage.InLock)
      (placed : next.Placed place) : Shares hasPreadv own call next position lock place lock
  | releases (inside : call.stage.InLock) (out : ¬ next.stage.InLock) :
      Shares hasPreadv own call next position lock position none

theorem ReadCall.inLock_of_looping {total : Nat} (looping : call.stage = .looping total) :
    call.stage.InLock := by
  rw [looping]
  trivial

theorem ReadCall.placed_of_out (out : ¬ call.stage.InLock) : call.Placed position :=
  fun _ looping => absurd (inLock_of_looping looping) out

namespace ReadCall.Shares

theorem own_holder (shares : call.Shares hasPreadv own next position lock nextPosition nextLock)
    (holds : call.stage.InLock ↔ lock = some own) :
    next.stage.InLock ↔ nextLock = some own := by
  cases shares with
  | outside out stays | opens out stays | drifts positioned out stays =>
      exact ⟨fun inside => absurd inside stays, fun held => absurd (holds.mpr held) out⟩
  | takes fallback out free inside =>
      rw [inside]
      exact ⟨fun _ => rfl, fun _ => trivial⟩
  | moves inside stays => exact ⟨fun _ => holds.mp inside, fun _ => stays⟩
  | releases inside out => exact ⟨fun stays => absurd stays out, fun held => nomatch held⟩

theorem own_placed (shares : call.Shares hasPreadv own next position lock nextPosition nextLock) :
    next.Placed nextPosition := by
  cases shares with
  | outside out stays | opens out stays | drifts positioned out stays => exact placed_of_out stays
  | takes fallback out free inside =>
      intro total looping
      rw [inside] at looping
      cases looping
  | moves inside stays placed => exact placed
  | releases inside out => exact placed_of_out out

theorem other_holder (shares : call.Shares hasPreadv own next position lock nextPosition nextLock)
    (holds : call.stage.InLock ↔ lock = some own) {other : Nat} (different : other ≠ own) :
    nextLock = some other ↔ lock = some other := by
  cases shares with
  | outside | opens | drifts | moves => rfl
  | takes fallback out free inside =>
      rw [free]
      constructor
      · intro held
        exact absurd (Option.some.inj held).symm different
      · intro held
        cases held
  | releases inside out =>
      rw [holds.mp inside]
      constructor
      · intro held
        cases held
      · intro held
        exact absurd (Option.some.inj held).symm different

theorem other_placed (shares : call.Shares hasPreadv own next position lock nextPosition nextLock)
    (holds : call.stage.InLock ↔ lock = some own) {other : Nat} (different : other ≠ own)
    {otherCall : ReadCall} (otherHolds : otherCall.stage.InLock ↔ lock = some other)
    (fallback : otherCall.stage.InLock → hasPreadv = false)
    (placed : otherCall.Placed position) : otherCall.Placed nextPosition := by
  cases shares with
  | outside | takes | releases => exact placed
  | opens out stays =>
      intro total looping
      rw [placed total looping]
      rfl
  | drifts positioned out stays =>
      intro total looping
      rw [fallback (inLock_of_looping looping)] at positioned
      cases positioned
  | moves inside stays _ =>
      intro total looping
      have both := (holds.mp inside).symm.trans (otherHolds.mp (inLock_of_looping looping))
      exact absurd (Option.some.inj both).symm different

theorem own_fallback
    (shares : call.Shares hasPreadv own next position lock nextPosition nextLock)
    (fallback : call.stage.InLock → hasPreadv = false) : next.stage.InLock → hasPreadv = false := by
  cases shares with
  | outside out stays | opens out stays | drifts positioned out stays | releases inside stays =>
      exact fun inside => absurd inside stays
  | takes without => exact fun _ => without
  | moves inside => exact fun _ => fallback inside

end ReadCall.Shares

theorem ReadCall.Steps.shares (placed : call.Placed position)
    (steps : call.Steps file hasPreadv own position lock next nextPosition nextLock) :
    call.Shares hasPreadv own next position lock nextPosition nextLock := by
  cases steps with
  | wrongDevice entered => exact .outside (by rw [entered]; exact id) id
  | tooSmall entered => exact .outside (by rw [entered]; exact id) id
  | checks entered => exact .outside (by rw [entered]; exact id) id
  | opens checked => exact .opens (by rw [checked]; exact id) id
  | preadvRaises opened => exact .outside (by rw [opened]; exact id) id
  | preadv opened => exact .outside (by rw [opened]; exact id) id
  | preadvHere opened positioned => exact .drifts positioned (by rw [opened]; exact id) id
  | locks opened fallback free => exact .takes fallback (by rw [opened]; exact id) free rfl
  | seekRaises locked => exact .releases (by rw [locked]; trivial) id
  | seeks locked offset =>
      refine .moves (by rw [locked]; trivial) trivial ?_
      intro total looping
      cases looping
      rfl
  | @reads total place count looping more here =>
      refine .moves (by rw [looping]; trivial) trivial ?_
      intro later loops
      cases loops
      have place : place = call.entry.offset.toNat + total :=
        Option.some.inj (here.symm.trans (placed total looping))
      rw [place, Nat.add_assoc]
  | stops looping => exact .releases (by rw [looping]; trivial) id
  | leaves looping => exact .releases (by rw [looping]; trivial) id
  | compares counted => exact .outside (by rw [counted]; exact id) id

end Sound

/-- Every call that reads at its own offset is sound and reads at its own place, and the calls
between taking and releasing the lock are the one that holds it. -/
structure BufferedBackend.Sound (file : Bytes) (hasPreadv : Bool) (backend : BufferedBackend) :
    Prop where
  calls : ∀ (own : Nat) (call : ReadCall), backend.calls[own]? = some call →
    call.AtOffset hasPreadv → call.Sound file hasPreadv
  holder : ∀ (own : Nat) (call : ReadCall), backend.calls[own]? = some call →
    (call.stage.InLock ↔ backend.lock = some own)
  fallback : ∀ (own : Nat) (call : ReadCall), backend.calls[own]? = some call →
    call.stage.InLock → hasPreadv = false
  known : ∀ own, backend.lock = some own → ∃ call, backend.calls[own]? = some call
  placed : ∀ (own : Nat) (call : ReadCall), backend.calls[own]? = some call →
    call.Placed backend.position

namespace BufferedBackend

section Invariant

variable {file : Bytes} {hasPreadv : Bool} {backend next : BufferedBackend}

/-- What an event makes of the backend. -/
inductive Steps (file : Bytes) (hasPreadv : Bool) (backend : BufferedBackend) :
    ReadEvent → BufferedBackend → Prop where
  | call {entry : BlockEntry} {destination : Buffer} :
      Steps file hasPreadv backend (.call entry destination)
        { backend with
          calls := backend.calls ++ [⟨entry, destination, destination, .entered⟩] }
  | advance {own count : Nat} {before after : ReadCall} {position lock : Option Nat}
      (present : backend.calls[own]? = some before)
      (steps : before.Steps file hasPreadv own backend.position backend.lock after position
        lock) :
      Steps file hasPreadv backend (.advance own count)
        ⟨position, lock, backend.calls.set own after⟩

theorem step_steps {event : ReadEvent} (happens : backend.step file hasPreadv event = some next) :
    backend.Steps file hasPreadv event next := by
  cases event with
  | call entry destination =>
      cases happens
      exact .call
  | advance own count =>
      simp only [step, Option.bind_eq_bind, Option.bind_eq_some_iff] at happens
      obtain ⟨before, present, ⟨after, position, lock⟩, steps, result⟩ := happens
      cases result
      exact .advance present (ReadCall.step_steps steps)

/-- The step lemma. -/
theorem Sound.step (sound : backend.Sound file hasPreadv) {event : ReadEvent}
    (happens : backend.step file hasPreadv event = some next) : next.Sound file hasPreadv := by
  cases step_steps happens with
  | @call entry destination =>
      constructor
      · intro own call present
        rcases Transition.party_of_append present with old | ⟨_, rfl⟩
        · exact sound.calls own call old
        · exact fun _ => rfl
      · intro own call present
        rcases Transition.party_of_append present with old | ⟨last, rfl⟩
        · exact sound.holder own call old
        · constructor
          · intro inside
            cases inside
          · intro held
            obtain ⟨holder, here⟩ := sound.known own held
            rw [last, List.getElem?_length] at here
            cases here
      · intro own call present
        rcases Transition.party_of_append present with old | ⟨_, rfl⟩
        · exact sound.fallback own call old
        · intro inside
          cases inside
      · intro own held
        obtain ⟨holder, here⟩ := sound.known own held
        exact ⟨holder, Transition.party_append here _⟩
      · intro own call present
        rcases Transition.party_of_append present with old | ⟨_, rfl⟩
        · exact sound.placed own call old
        · intro total looping
          cases looping
  | @advance own count before after position lock present steps =>
      have shares := steps.shares (sound.placed own before present)
      have holds := sound.holder own before present
      constructor
      · intro other call here
        rcases Transition.party_of_set here with ⟨_, rfl⟩ | ⟨_, old⟩
        · intro own_offset
          have kept : before.AtOffset hasPreadv := by
            rwa [ReadCall.AtOffset, ← steps.entry]
          exact (sound.calls own before present kept).step kept (sound.placed own before present)
            steps
        · exact sound.calls other call old
      · intro other call here
        rcases Transition.party_of_set here with ⟨rfl, rfl⟩ | ⟨different, old⟩
        · exact shares.own_holder holds
        · exact (sound.holder other call old).trans (shares.other_holder holds different).symm
      · intro other call here
        rcases Transition.party_of_set here with ⟨_, rfl⟩ | ⟨_, old⟩
        · exact shares.own_fallback (sound.fallback own before present)
        · exact sound.fallback other call old
      · intro other held
        by_cases same : other = own
        · subst same
          exact ⟨after, Transition.party_set present after⟩
        · obtain ⟨holder, old⟩ := sound.known other ((shares.other_holder holds same).mp held)
          exact ⟨holder, Transition.party_set_other same old after⟩
      · intro other call here
        rcases Transition.party_of_set here with ⟨rfl, rfl⟩ | ⟨different, old⟩
        · exact shares.own_placed
        · exact shares.other_placed holds different (sound.holder other call old)
            (sound.fallback other call old) (sound.placed other call old)

theorem sound_initial : initial.Sound file hasPreadv := by
  constructor
  · intro own call present
    cases present
  · intro own call present
    cases present
  · intro own call present
    cases present
  · intro own held
    cases held
  · intro own call present
    cases present

theorem sound_of_run {events : List ReadEvent}
    (reached : run (BufferedBackend.step file hasPreadv) initial events = some backend) :
    backend.Sound file hasPreadv := by
  apply invariant_of_run (BufferedBackend.Sound file hasPreadv) _ sound_initial reached
  intro state event next sound happens
  exact sound.step happens

end Invariant

end BufferedBackend

end KVSSD

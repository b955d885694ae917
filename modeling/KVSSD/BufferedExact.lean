import KVSSD.BufferedReads

/-!
# Exact buffered reads

A call of `read_into` that reads at its own offset and returns has put the range of the file into
its destination, whatever the other calls did meanwhile.  Every call comes to its end after a
bounded number of steps, and only the fallback lock makes it wait, for a call that can go on.
-/

namespace KVSSD

open KVSSD.Python KVSSD.Struct KVSSD.Transition

/-- What the destination and the outcome of a call that has ended say about the file. -/
structure ReadCall.Exact (file : Bytes) (hasPreadv : Bool) (call : ReadCall)
    (outcome : Except PyError Unit) : Prop where
  /-- A call that returns has put the range of the file into the front of the destination and has
  left the rest as it was. -/
  returned : outcome = .ok () →
    pySlice call.destination.bytes 0 call.entry.length =
        pySlice file call.entry.offset (call.entry.offset + call.entry.length) ∧
      pySlice call.destination.bytes call.entry.length call.destination.bytes.length =
        pySlice call.given.bytes call.entry.length call.given.bytes.length ∧
      call.destination.bytes.length = call.given.bytes.length ∧
      call.destination.device = call.given.device ∧ call.destination.address = call.given.address
  /-- Unless there is nothing to read, a call raises where the file ends before the range. -/
  past_end : (file.length : Int) < call.entry.offset + call.entry.length →
    call.entry.length ≠ 0 → ∃ raised, outcome = .error raised
  /-- The fallback returns where the range lies in the file. -/
  inside : hasPreadv = false → call.given.Serves .buffered call.entry.length →
    0 ≤ call.entry.offset → 0 ≤ call.entry.length →
      call.entry.offset + call.entry.length ≤ file.length → outcome = .ok ()
  /-- For what one call of `preadv` moves, the fallback ends as a `preadv` that nothing disturbs. -/
  undisturbed : hasPreadv = false → call.entry.offset ≠ -1 → 0 ≤ call.entry.length →
    call.entry.length ≤ maxTransfer → ∀ position,
      (call.destination, outcome) = bufferedReadInto file position call.entry call.given

section Exact

variable {file : Bytes} {hasPreadv : Bool} {call : ReadCall} {outcome : Except PyError Unit}

theorem shortRead_eq_ok {entry : BlockEntry} {total : Nat} :
    shortRead entry total = .ok () ↔ (total : Int) = entry.length := by
  by_cases same : (total : Int) = entry.length
  · simp [shortRead, same]
  · simp [shortRead, same]

theorem exists_error_of_ne_ok (fails : outcome ≠ .ok ()) : ∃ raised, outcome = .error raised := by
  cases outcome with
  | error raised => exact ⟨raised, rfl⟩
  | ok value => exact absurd rfl fails

/-- The destination after a whole record was put into its front. -/
theorem Buffer.Filled.exact {given destination : Buffer} {entry : BlockEntry} {total : Nat}
    (filled : given.Filled destination file entry total) (whole : (total : Int) = entry.length)
    (room : entry.length ≤ given.bytes.length) :
    pySlice destination.bytes 0 entry.length =
        pySlice file entry.offset (entry.offset + entry.length) ∧
      pySlice destination.bytes entry.length destination.bytes.length =
        pySlice given.bytes entry.length given.bytes.length ∧
      destination.bytes.length = given.bytes.length := by
  obtain ⟨place, placeEq⟩ := Int.eq_ofNat_of_zero_le filled.offset
  have present := filled.present
  have destinationEq := filled.destination
  rw [placeEq, Int.toNat_natCast] at present destinationEq
  rw [← whole] at room ⊢
  have read : ((file.drop place).take total).length = total := by
    rw [List.length_take]
    exact Nat.min_eq_left present
  have bytes : destination.bytes = (file.drop place).take total ++ given.bytes.drop total := by
    rw [destinationEq, Buffer.fill, read]
  have same : destination.bytes.length = given.bytes.length := by
    rw [bytes, List.length_append, read, List.length_drop]
    omega
  refine ⟨?_, ?_, same⟩
  · rw [placeEq, pySlice_count, pySlice_zero, bytes, List.take_left' read]
  · rw [same, pySlice_natCast, pySlice_natCast, bytes, List.drop_left' read]

/-- Without `preadv` a call ends as one read of the whole record does that nothing disturbs. -/
theorem ReadEnds.undisturbed (fallback : hasPreadv = false) (own_offset : call.entry.offset ≠ -1)
    (sized : 0 ≤ call.entry.length) (short : call.entry.length ≤ maxTransfer)
    (ends : ReadEnds file hasPreadv call.entry call.given call.destination outcome)
    (position : Nat) :
    (call.destination, outcome) = bufferedReadInto file position call.entry call.given := by
  cases ends with
  | refused refused untouched alone => rw [untouched, alone own_offset position]
  | @counted total serves filled all =>
      have device : call.given.device = .cpu := serves.device
      have room := serves.room
      have inside := filled.offset
      have whole := (readsInAll_fallback fallback).mp all
      have read : preadv file position call.entry.offset call.entry.length.toNat =
          .ok ((file.drop call.entry.offset.toNat).take total) := by
        simp only [preadv, seekTarget_of_nonneg inside, if_neg (not_lt.mpr inside)]
        rw [Nat.min_eq_left (by omega), whole, ← List.take_eq_take_min]
      have length : ((file.drop call.entry.offset.toNat).take total).length = total := by
        rw [List.length_take]
        exact Nat.min_eq_left filled.present
      unfold bufferedReadInto
      rw [if_neg (not_not_intro device), if_neg (not_lt.mpr room)]
      simp only [pySlice_front_length sized room, read, length]
      rw [filled.destination]
      rfl

/-- A call that has ended is exact. -/
theorem ReadEnds.exact
    (ends : ReadEnds file hasPreadv call.entry call.given call.destination outcome) :
    call.Exact file hasPreadv outcome := by
  have undisturbed : hasPreadv = false → call.entry.offset ≠ -1 → 0 ≤ call.entry.length →
      call.entry.length ≤ maxTransfer → ∀ position,
        (call.destination, outcome) = bufferedReadInto file position call.entry call.given :=
    fun fallback own_offset sized short => ends.undisturbed fallback own_offset sized short
  cases ends with
  | refused refused untouched =>
      refine ⟨nofun, fun _ _ => ⟨_, rfl⟩, ?_, undisturbed⟩
      intro _ serves offset _ _
      rcases refused with unfit | negative
      · exact absurd serves unfit
      · exact absurd offset (not_le.mpr negative)
  | @counted total serves filled all =>
      have present := filled.present
      rw [List.length_drop] at present
      refine ⟨?_, ?_, ?_, undisturbed⟩
      · intro returned
        obtain ⟨front, rest, length⟩ := filled.exact (shortRead_eq_ok.mp returned) serves.room
        refine ⟨front, rest, length, ?_, ?_⟩
        · rw [filled.destination]
          rfl
        · rw [filled.destination]
          rfl
      · intro past nonempty
        apply exists_error_of_ne_ok
        intro returned
        have whole := shortRead_eq_ok.mp returned
        have offset := filled.offset
        omega
      · intro fallback _ offset sized inside
        have whole := (readsInAll_fallback fallback).mp all
        rw [List.length_drop] at whole
        apply shortRead_eq_ok.mpr
        omega

end Exact

/-- How many steps a call still takes at most. -/
def ReadCall.stepsLeft (call : ReadCall) : Nat :=
  match call.stage with
  | .entered => call.entry.length.toNat + 6
  | .checked => call.entry.length.toNat + 5
  | .opened => call.entry.length.toNat + 4
  | .locked => call.entry.length.toNat + 3
  | .looping total => call.entry.length.toNat - total + 2
  | .counted _ => 1
  | .ended _ => 0

/-- The event is a step of this call. -/
def ReadEvent.advances (own : Nat) : ReadEvent → Bool
  | .call _ _ => false
  | .advance other _ => other == own

section Termination

variable {file : Bytes} {hasPreadv : Bool} {own : Nat} {call next : ReadCall}
  {position lock nextPosition nextLock : Option Nat}

theorem ReadCall.stepsLeft_le (call : ReadCall) :
    call.stepsLeft ≤ call.entry.length.toNat + 6 := by
  unfold ReadCall.stepsLeft
  split <;> omega

theorem ReadCall.Steps.stepsLeft
    (steps : call.Steps file hasPreadv own position lock next nextPosition nextLock) :
    next.stepsLeft + 1 ≤ call.stepsLeft := by
  cases steps with
  | wrongDevice stage | tooSmall stage | checks stage | opens stage | preadvRaises stage
    | preadv stage | preadvHere stage | locks stage | seekRaises stage | seeks stage | stops stage
    | leaves stage | compares stage =>
      simp only [ReadCall.stepsLeft, stage]
      omega
  | reads looping more here returns nonempty =>
      have read := List.length_pos_iff.mpr nonempty
      simp only [ReadCall.stepsLeft, looping]
      omega

/-- A call that has not ended can step, or waits for the lock. -/
theorem ReadCall.can_step (placed : call.Placed position)
    (running : ∀ outcome, call.stage ≠ .ended outcome) :
    (∃ count after, call.step file hasPreadv own count position lock = some after) ∨
      hasPreadv = false ∧ call.stage = .opened ∧ lock ≠ none := by
  unfold ReadCall.step
  cases stage : call.stage with
  | entered =>
      left
      refine ⟨0, ?_⟩
      simp only
      split
      · exact ⟨_, rfl⟩
      · split
        · exact ⟨_, rfl⟩
        · exact ⟨_, rfl⟩
  | checked => exact Or.inl ⟨0, _, rfl⟩
  | opened =>
      cases hasPreadv with
      | true =>
          obtain ⟨count, returns⟩ := exists_readReturns file
            (seekTarget (position.getD 0) call.entry.offset).toNat
            (pySlice call.destination.bytes 0 call.entry.length).length
          left
          refine ⟨count, ?_⟩
          simp only [if_true, if_pos returns]
          split
          · exact ⟨_, rfl⟩
          · exact ⟨_, rfl⟩
      | false =>
          by_cases free : lock = none
          · left
            refine ⟨0, ?_⟩
            simp only [Bool.false_eq_true, if_false, if_pos free]
            exact ⟨_, rfl⟩
          · exact Or.inr ⟨rfl, rfl, free⟩
  | locked =>
      left
      refine ⟨0, ?_⟩
      simp only
      split
      · exact ⟨_, rfl⟩
      · exact ⟨_, rfl⟩
  | looping total =>
      left
      obtain ⟨count, returns⟩ := exists_readReturns file (call.entry.offset.toNat + total)
        (call.entry.length - total).toNat
      refine ⟨count, ?_⟩
      simp only [placed total stage, if_pos returns]
      split
      · split
        · exact ⟨_, rfl⟩
        · exact ⟨_, rfl⟩
      · exact ⟨_, rfl⟩
  | counted total => exact Or.inl ⟨0, _, rfl⟩
  | ended outcome => exact absurd stage (running outcome)

end Termination

namespace BufferedBackend

/-- The call can take a step, for some result of the operating system. -/
def CanAdvance (file : Bytes) (hasPreadv : Bool) (backend : BufferedBackend) (own : Nat) : Prop :=
  ∃ count next, backend.step file hasPreadv (.advance own count) = some next

section Runs

variable {file : Bytes} {hasPreadv : Bool} {backend : BufferedBackend} {own : Nat}
  {call : ReadCall}

theorem canAdvance_of_step {count : Nat} {after : ReadCall × Option Nat × Option Nat}
    (present : backend.calls[own]? = some call)
    (steps : call.step file hasPreadv own count backend.position backend.lock = some after) :
    backend.CanAdvance file hasPreadv own := by
  refine ⟨count, ⟨after.2.1, after.2.2, backend.calls.set own after.1⟩, ?_⟩
  simp only [step, present, Option.bind_eq_bind, Option.bind_some, steps]
  rfl

/-- A call that has not ended can go on, or waits for another one that holds the lock and can go
on. -/
theorem Sound.progress (sound : backend.Sound file hasPreadv)
    (present : backend.calls[own]? = some call)
    (running : ∀ outcome, call.stage ≠ .ended outcome) :
    backend.CanAdvance file hasPreadv own ∨
      hasPreadv = false ∧ ∃ other, other ≠ own ∧ backend.lock = some other ∧
        backend.CanAdvance file hasPreadv other := by
  rcases ReadCall.can_step (sound.placed own call present) running with
    ⟨count, after, steps⟩ | ⟨fallback, opened, held⟩
  · exact Or.inl (canAdvance_of_step present steps)
  · obtain ⟨other, holds⟩ := Option.ne_none_iff_exists'.mp held
    obtain ⟨holder, here⟩ := sound.known other holds
    have inside := (sound.holder other holder here).mpr holds
    refine Or.inr ⟨fallback, other, ?_, holds, ?_⟩
    · rintro rfl
      rw [present] at here
      cases here
      rw [opened] at inside
      exact inside
    · rcases ReadCall.can_step (sound.placed other holder here) (fun outcome ended => by
        rw [ended] at inside
        exact inside) with ⟨count, after, steps⟩ | ⟨_, waiting, _⟩
      · exact canAdvance_of_step here steps
      · rw [waiting] at inside
        exact absurd inside id

/-- How many steps the call at an index still takes at most. -/
def stepsLeft (own : Nat) (backend : BufferedBackend) : Nat :=
  match backend.calls[own]? with
  | some call => call.stepsLeft
  | none => 0

theorem stepsLeft_step {event : ReadEvent} {next : BufferedBackend}
    (known : own < backend.calls.length)
    (happens : backend.step file hasPreadv event = some next) :
    own < next.calls.length ∧
      stepsLeft own next + (if event.advances own then 1 else 0) ≤ stepsLeft own backend := by
  cases step_steps happens with
  | @call entry destination =>
      constructor
      · rw [List.length_append]
        exact Nat.lt_add_right _ known
      · have same : stepsLeft own { backend with
            calls := backend.calls ++ [⟨entry, destination, destination, .entered⟩] } =
              stepsLeft own backend := by
          simp only [stepsLeft, List.getElem?_append_left known]
        rw [same]
        exact Nat.le_refl _
  | @advance moved count before after position lock present steps =>
      constructor
      · rw [List.length_set]
        exact known
      · by_cases same : moved = own
        · subst same
          have replaced : (backend.calls.set moved after)[moved]? = some after :=
            List.getElem?_set_self known
          simp only [stepsLeft, replaced, present, ReadEvent.advances, beq_self_eq_true, if_true]
          exact steps.stepsLeft
        · have kept : (backend.calls.set moved after)[own]? = backend.calls[own]? :=
            List.getElem?_set_ne same
          have idle : (moved == own) = false := beq_eq_false_iff_ne.mpr same
          simp only [stepsLeft, kept, ReadEvent.advances, idle, Bool.false_eq_true, if_false]
          exact Nat.le_refl _

theorem steps_bounded (present : backend.calls[own]? = some call) {later : List ReadEvent}
    {final : BufferedBackend}
    (reached : run (BufferedBackend.step file hasPreadv) backend later = some final) :
    later.countP (ReadEvent.advances own) ≤ call.entry.length.toNat + 6 := by
  have bound := @busy_le_measure _ _ (BufferedBackend.step file hasPreadv)
    (fun state => own < state.calls.length) (fun _ => True) (ReadEvent.advances own)
    (stepsLeft own)
    (fun state event next _ known happens => (stepsLeft_step known happens).1)
    (fun state event next _ known happens => (stepsLeft_step known happens).2)
    later backend final (fun _ _ => trivial) (List.getElem?_eq_some_iff.mp present).1 reached
  have first : stepsLeft own backend = call.stepsLeft := by
    simp only [stepsLeft, present]
  have left := call.stepsLeft_le
  omega

end Runs

end BufferedBackend

/-- In every run of any number of calls, whatever part of what was asked for a read returns: a call
that reads at its own offset and has ended is exact.  A call in the loop of the fallback reads at
the place of its next byte, and no other call stands between taking and releasing the lock.  A call
that has not ended can go on, or waits for the one that holds the lock, which can; and it takes a
bounded number of steps. -/
theorem bufferedReads_exact {file : Bytes} {hasPreadv : Bool} {events : List ReadEvent}
    {backend : BufferedBackend}
    (reached : run (BufferedBackend.step file hasPreadv) BufferedBackend.initial events =
      some backend)
    {own : Nat} {call : ReadCall} (present : backend.calls[own]? = some call) :
    (∀ outcome, call.stage = .ended outcome → call.AtOffset hasPreadv →
        call.Exact file hasPreadv outcome) ∧
      (∀ total, call.stage = .looping total →
        backend.position = some (call.entry.offset.toNat + total) ∧
          ∀ (other : Nat) (otherCall : ReadCall), backend.calls[other]? = some otherCall →
            otherCall.stage.InLock → other = own) ∧
      ((∀ outcome, call.stage ≠ .ended outcome) →
        backend.CanAdvance file hasPreadv own ∨
          hasPreadv = false ∧ ∃ other, other ≠ own ∧ backend.lock = some other ∧
            backend.CanAdvance file hasPreadv other) ∧
      ∀ later final, run (BufferedBackend.step file hasPreadv) backend later = some final →
        later.countP (ReadEvent.advances own) ≤ call.entry.length.toNat + 6 := by
  have sound := BufferedBackend.sound_of_run reached
  refine ⟨?_, ?_, sound.progress present, fun later final => BufferedBackend.steps_bounded present⟩
  · intro outcome ended own_offset
    have ends := sound.calls own call present own_offset
    rw [ReadCall.Sound, ended] at ends
    exact ReadEnds.exact ends
  · intro total looping
    refine ⟨sound.placed own call present total looping, ?_⟩
    intro other otherCall here inside
    have held := (sound.holder own call present).mp (ReadCall.inLock_of_looping looping)
    have otherHeld := (sound.holder other otherCall here).mp inside
    exact Option.some.inj (otherHeld.symm.trans held)

/-- Two calls share the descriptor of a file of four bytes; the first one reads a byte at a time and
the second one waits for the lock. -/
def twoReads : List ReadEvent :=
  [.call ⟨0, 0, 0, 2, 1, 0⟩ ⟨.cpu, 0, [0, 0, 0]⟩, .call ⟨0, 1, 2, 2, 1, 0⟩ ⟨.cpu, 8, [0, 0]⟩,
    .advance 0 0, .advance 0 0, .advance 1 0, .advance 1 0, .advance 0 0, .advance 0 0,
    .advance 0 1, .advance 0 1, .advance 0 0, .advance 1 0, .advance 0 0, .advance 1 0,
    .advance 1 2, .advance 1 0, .advance 1 0]

theorem bufferedReads_exact_two :
    ∃ backend call, run (BufferedBackend.step [10, 20, 30, 40] false) BufferedBackend.initial
        twoReads = some backend ∧
      backend.calls[0]? = some call ∧ call.stage = .ended (.ok ()) ∧
      pySlice call.destination.bytes 0 2 = [10, 20] := by
  refine ⟨_, _, rfl, rfl, rfl, ?_⟩
  have exact := (@bufferedReads_exact [10, 20, 30, 40] false twoReads _ rfl 0 _ rfl).1 _ rfl nofun
  exact (exact.returned rfl).1

/-- An empty range behind the end of the file is no error, with `preadv` and without; and `preadv`
at -1 returns what lies at the file position. -/
theorem bufferedReads_inexact :
    (∃ backend call, run (BufferedBackend.step [] true) BufferedBackend.initial
        [.call ⟨0, 0, 1, 0, 1, 0⟩ ⟨.cpu, 0, []⟩, .advance 0 0, .advance 0 0, .advance 0 0,
          .advance 0 0] = some backend ∧ backend.calls[0]? = some call ∧
      (([] : Bytes).length : Int) < call.entry.offset + call.entry.length ∧
      call.stage = .ended (.ok ())) ∧
    (∃ backend call, run (BufferedBackend.step [] false) BufferedBackend.initial
        [.call ⟨0, 0, 1, 0, 1, 0⟩ ⟨.cpu, 0, []⟩, .advance 0 0, .advance 0 0, .advance 0 0,
          .advance 0 0, .advance 0 0, .advance 0 0] = some backend ∧
      backend.calls[0]? = some call ∧
      (([] : Bytes).length : Int) < call.entry.offset + call.entry.length ∧
      call.stage = .ended (.ok ())) ∧
    ∃ backend call, run (BufferedBackend.step [10, 20, 30, 40] true) BufferedBackend.initial
        [.call ⟨0, 0, -1, 2, 1, 0⟩ ⟨.cpu, 0, [0, 0]⟩, .advance 0 0, .advance 0 0, .advance 0 2,
          .advance 0 0] = some backend ∧ backend.calls[0]? = some call ∧
      call.stage = .ended (.ok ()) ∧ backend.position = some 2 ∧
      pySlice call.destination.bytes 0 2 ≠ pySlice [10, 20, 30, 40] (-1) (-1 + 2) := by
  refine ⟨⟨_, _, rfl, rfl, ?_, rfl⟩, ⟨_, _, rfl, rfl, ?_, rfl⟩, _, _, rfl, rfl, rfl, rfl, ?_⟩
  · decide
  · decide
  · decide

end KVSSD

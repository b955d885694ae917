import KVSSD.Lib.Transition
import Mathlib.Algebra.BigOperators.Fin
import Mathlib.Algebra.Order.BigOperators.Group.Finset
import Mathlib.Logic.Function.Basic

/-!
# Threads that meet at barriers

A group of threads shares a memory.  A thread is the tree of its accesses: what it does after a read
depends on the value read.  Between two barriers the accesses of the threads interleave in any
order.  When every cell has at most one thread that may write it before the next barrier, and no
other thread reads it, a thread gets as far as it would get alone, and the memory at the barrier is
put together from what each thread leaves in its own cells.
-/

namespace KVSSD.Barriers

variable {ι ν ρ τ : Type}

/-- A thread. `fault` is a thread whose behaviour is undefined. -/
inductive Thread (ι ν ρ : Type) where
  | done (result : ρ)
  | fault
  | read (cell : ι) (next : ν → Thread ι ν ρ)
  | write (cell : ι) (value : ν) (next : Thread ι ν ρ)
  | sync (next : Thread ι ν ρ)

namespace Thread

def bind : Thread ι ν ρ → (ρ → Thread ι ν τ) → Thread ι ν τ
  | done result, rest => rest result
  | fault, _ => fault
  | read cell next, rest => read cell fun value => (next value).bind rest
  | write cell value next, rest => write cell value (next.bind rest)
  | sync next, rest => sync (next.bind rest)

instance : Monad (Thread ι ν) where
  pure := done
  bind := bind

/-- A result that is missing where the behaviour is undefined. -/
def ofOption : Option ρ → Thread ι ν ρ
  | some result => done result
  | none => fault

/-- `__syncthreads()`. -/
def barrier : Thread ι ν Unit := sync (done ())

@[simp] theorem pure_eq (result : ρ) : (pure result : Thread ι ν ρ) = done result := rfl

@[simp] theorem done_bind (result : ρ) (rest : ρ → Thread ι ν τ) :
    (done result >>= rest) = rest result := rfl

@[simp] theorem read_bind (cell : ι) (next : ν → Thread ι ν ρ) (rest : ρ → Thread ι ν τ) :
    (read cell next >>= rest) = read cell fun value => next value >>= rest := rfl

@[simp] theorem write_bind (cell : ι) (value : ν) (next : Thread ι ν ρ)
    (rest : ρ → Thread ι ν τ) :
    (write cell value next >>= rest) = write cell value (next >>= rest) := rfl

@[simp] theorem sync_bind (next : Thread ι ν ρ) (rest : ρ → Thread ι ν τ) :
    (sync next >>= rest) = sync (next >>= rest) := rfl

@[simp] theorem ofOption_some (result : ρ) :
    (ofOption (some result) : Thread ι ν ρ) = done result := rfl

end Thread

variable {count : Nat} [DecidableEq ι]

/-- The threads of a group and their memory. A cell that was never written holds nothing. -/
structure Group (ι ν ρ : Type) (count : Nat) where
  threads : Fin count → Thread ι ν ρ
  memory : ι → Option ν

inductive Event (count : Nat) where
  /-- One access of a thread. -/
  | access (self : Fin count)
  /-- All threads leave the barrier. -/
  | release
  deriving DecidableEq

/-- One access. Reading a cell that was never written is undefined. -/
def Thread.access : Thread ι ν ρ → (ι → Option ν) → Option (Thread ι ν ρ × (ι → Option ν))
  | .read cell next, memory =>
      match memory cell with
      | some value => some (next value, memory)
      | none => some (.fault, memory)
  | .write cell value next, memory => some (next, Function.update memory cell (some value))
  | _, _ => none

/-- A thread behind the barrier at which it waits. -/
def Thread.released : Thread ι ν ρ → Option (Thread ι ν ρ)
  | .sync next => some next
  | _ => none

/-- One event. A barrier is left when all threads have come to it. -/
def Group.step (group : Group ι ν ρ count) : Event count → Option (Group ι ν ρ count)
  | .access self => do
      let (thread, memory) ← (group.threads self).access group.memory
      return ⟨Function.update group.threads self thread, memory⟩
  | .release =>
      if 0 < count ∧ ∀ self, (group.threads self).released.isSome then
        some ⟨fun self => (group.threads self).released.getD .fault, group.memory⟩
      else none

/-- However the accesses of the threads interleave, the number of events is bounded, no thread gets
into undefined behaviour or waits forever, and a thread that has come to its end has its result. -/
def Group.EndsIn (start : Group ι ν ρ count) (results : Fin count → ρ) : Prop :=
  ∃ bound, ∀ events group, Transition.run Group.step start events = some group →
    events.length ≤ bound ∧ (∀ self, group.threads self ≠ .fault) ∧
      (∀ self result, group.threads self = .done result → result = results self) ∧
      ((∃ self, ∀ result, group.threads self ≠ .done result) →
        ∃ event next, group.step event = some next)

/-- What a thread does up to its next stop when no other thread writes: it reads cells that it owns
or that nobody owns, and writes cells that it owns. The number is that of its accesses. -/
inductive Segment (owner : ι → Option (Fin count)) (self : Fin count) :
    Thread ι ν ρ → (ι → Option ν) → Thread ι ν ρ → (ι → Option ν) → Nat → Prop where
  | done {result : ρ} {memory : ι → Option ν} :
      Segment owner self (.done result) memory (.done result) memory 0
  | sync {next : Thread ι ν ρ} {memory : ι → Option ν} :
      Segment owner self (.sync next) memory (.sync next) memory 0
  | read {cell : ι} {value : ν} {next : ν → Thread ι ν ρ} {stop : Thread ι ν ρ}
      {memory final : ι → Option ν} {length : Nat}
      (allowed : ∀ other, owner cell = some other → other = self)
      (present : memory cell = some value)
      (rest : Segment owner self (next value) memory stop final length) :
      Segment owner self (.read cell next) memory stop final (length + 1)
  | write {cell : ι} {value : ν} {next : Thread ι ν ρ} {stop : Thread ι ν ρ}
      {memory final : ι → Option ν} {length : Nat} (own : owner cell = some self)
      (rest : Segment owner self next (Function.update memory cell (some value)) stop final
        length) :
      Segment owner self (.write cell value next) memory stop final (length + 1)

section Alone

variable {owner : ι → Option (Fin count)} {self : Fin count} {thread stop : Thread ι ν ρ}
  {memory final other : ι → Option ν} {length : Nat}

theorem Segment.unchanged (segment : Segment owner self thread memory stop final length)
    {cell : ι} (foreign : owner cell ≠ some self) : final cell = memory cell := by
  induction segment with
  | done => rfl
  | sync => rfl
  | read _ _ _ induction => exact induction
  | @write written value next stop memory final length own rest induction =>
      have different : cell ≠ written := by
        rintro rfl
        exact foreign own
      rw [induction, Function.update_of_ne different]

theorem Segment.transport (segment : Segment owner self thread memory stop final length)
    (agrees : ∀ cell, (∀ holder, owner cell = some holder → holder = self) →
      other cell = memory cell) :
    ∃ otherFinal, Segment owner self thread other stop otherFinal length ∧
      ∀ cell, owner cell = some self → otherFinal cell = final cell := by
  have readable : ∀ {cell}, owner cell = some self →
      ∀ holder, owner cell = some holder → holder = self := by
    intro cell own holder held
    rw [own] at held
    exact (Option.some.inj held).symm
  induction segment generalizing other with
  | done => exact ⟨other, .done, fun cell own => agrees cell (readable own)⟩
  | sync => exact ⟨other, .sync, fun cell own => agrees cell (readable own)⟩
  | @read cell value next stop memory final length allowed present rest induction =>
      obtain ⟨otherFinal, moved, same⟩ := induction agrees
      exact ⟨otherFinal, .read allowed ((agrees cell allowed).trans present) moved, same⟩
  | @write written value next stop memory final length own rest induction =>
      have after : ∀ cell, (∀ holder, owner cell = some holder → holder = self) →
          Function.update other written (some value) cell =
            Function.update memory written (some value) cell := by
        intro cell allowed
        by_cases same : cell = written
        · rw [same, Function.update_self, Function.update_self]
        · rw [Function.update_of_ne same, Function.update_of_ne same, agrees cell allowed]
      obtain ⟨otherFinal, moved, same⟩ := induction after
      exact ⟨otherFinal, .write own moved, same⟩

theorem Segment.bind {next : Thread ι ν ρ} {rest : ρ → Thread ι ν τ}
    (segment : Segment owner self thread memory (.sync next) final length) :
    Segment owner self (thread >>= rest) memory (.sync (next >>= rest)) final length := by
  generalize stops : Thread.sync next = stop at segment
  induction segment with
  | done => cases stops
  | sync =>
      cases stops
      exact .sync
  | read allowed present _ induction => exact .read allowed present (induction stops)
  | write own _ induction => exact .write own (induction stops)

theorem Segment.access (segment : Segment owner self thread memory stop final length)
    {after : Thread ι ν ρ} {changed : ι → Option ν}
    (accesses : thread.access memory = some (after, changed)) :
    ∃ left, length = left + 1 ∧ Segment owner self after changed stop final left ∧
      ∀ cell, owner cell ≠ some self → changed cell = memory cell := by
  cases segment with
  | done => cases accesses
  | sync => cases accesses
  | @read cell value next _ _ _ left allowed present rest =>
      simp only [Thread.access, present, Option.some.injEq, Prod.mk.injEq] at accesses
      obtain ⟨rfl, rfl⟩ := accesses
      exact ⟨left, rfl, rest, fun _ _ => rfl⟩
  | @write written value next _ _ _ left own rest =>
      simp only [Thread.access, Option.some.injEq, Prod.mk.injEq] at accesses
      obtain ⟨rfl, rfl⟩ := accesses
      refine ⟨left, rfl, rest, ?_⟩
      intro cell foreign
      apply Function.update_of_ne
      rintro rfl
      exact foreign own

theorem Segment.progress (segment : Segment owner self thread memory stop final length) :
    thread = stop ∧ final = memory ∧ length = 0 ∨
      ∃ after changed, thread.access memory = some (after, changed) := by
  cases segment with
  | done => exact .inl ⟨rfl, rfl, rfl⟩
  | sync => exact .inl ⟨rfl, rfl, rfl⟩
  | @read cell value next _ _ _ left allowed present rest =>
      exact .inr ⟨next value, memory, by rw [Thread.access, present]⟩
  | @write written value next _ _ _ left own rest => exact .inr ⟨_, _, rfl⟩

theorem Segment.released (segment : Segment owner self thread memory stop final length)
    (waits : thread.released.isSome) : thread = stop ∧ final = memory ∧ length = 0 := by
  cases segment with
  | done => cases waits
  | sync => exact ⟨rfl, rfl, rfl⟩
  | read allowed present rest => cases waits
  | write own rest => cases waits

theorem Segment.not_fault (segment : Segment owner self thread memory stop final length) :
    thread ≠ .fault := by
  cases segment <;> simp

end Alone

/-- What the threads leave behind: each its own cells, and nobody the others. -/
def merge (owner : ι → Option (Fin count)) (memory : ι → Option ν)
    (finals : Fin count → ι → Option ν) : ι → Option ν := fun cell =>
  match owner cell with
  | some self => finals self cell
  | none => memory cell

/-- Threads that get through barriers to later threads and a later memory, in so many events. -/
inductive Passes : (Fin count → Thread ι ν ρ) → (ι → Option ν) → (Fin count → Thread ι ν ρ) →
    (ι → Option ν) → Nat → Prop where
  | refl {threads : Fin count → Thread ι ν ρ} {memory : ι → Option ν} :
      Passes threads memory threads memory 0
  | phase {threads stops later : Fin count → Thread ι ν ρ} {memory final : ι → Option ν}
      {finals : Fin count → ι → Option ν} {lengths : Fin count → Nat} {total : Nat}
      (owner : ι → Option (Fin count))
      (segments : ∀ self, Segment owner self (threads self) memory (.sync (stops self))
        (finals self) (lengths self))
      (rest : Passes stops (merge owner memory finals) later final total) :
      Passes threads memory later final (∑ self, lengths self + 1 + total)

/-- Threads that come to these results, in so many events. -/
inductive Finishes (results : Fin count → ρ) :
    (Fin count → Thread ι ν ρ) → (ι → Option ν) → Nat → Prop where
  | last {threads : Fin count → Thread ι ν ρ} {memory : ι → Option ν}
      {finals : Fin count → ι → Option ν} {lengths : Fin count → Nat}
      (owner : ι → Option (Fin count))
      (segments : ∀ self, Segment owner self (threads self) memory (.done (results self))
        (finals self) (lengths self)) :
      Finishes results threads memory (∑ self, lengths self)
  | phase {threads stops : Fin count → Thread ι ν ρ} {memory : ι → Option ν}
      {finals : Fin count → ι → Option ν} {lengths : Fin count → Nat} {total : Nat}
      (owner : ι → Option (Fin count))
      (segments : ∀ self, Segment owner self (threads self) memory (.sync (stops self))
        (finals self) (lengths self))
      (rest : Finishes results stops (merge owner memory finals) total) :
      Finishes results threads memory (∑ self, lengths self + 1 + total)

section Passing

variable {threads middle later : Fin count → Thread ι ν ρ} {memory between final : ι → Option ν}
  {first second : Nat}

theorem Passes.trans (passes : Passes threads memory middle between first)
    (more : Passes middle between later final second) :
    ∃ total, Passes threads memory later final total := by
  induction passes with
  | refl => exact ⟨second, more⟩
  | phase owner segments _ induction =>
      obtain ⟨total, rest⟩ := induction more
      exact ⟨_, .phase owner segments rest⟩

theorem Passes.finishes {results : Fin count → ρ}
    (passes : Passes threads memory middle between first)
    (finishes : Finishes results middle between second) :
    ∃ total, Finishes results threads memory total := by
  induction passes with
  | refl => exact ⟨second, finishes⟩
  | phase owner segments _ induction =>
      obtain ⟨total, rest⟩ := induction finishes
      exact ⟨_, .phase owner segments rest⟩

theorem Passes.bind {results : Fin count → ρ} {rest : Fin count → ρ → Thread ι ν τ}
    (passes : Passes threads memory (fun self => .done (results self)) final first) :
    Passes (fun self => threads self >>= rest self) memory
      (fun self => rest self (results self)) final first := by
  generalize ends : (fun self => Thread.done (results self)) = later at passes
  induction passes with
  | refl =>
      subst ends
      exact .refl
  | phase owner segments _ induction =>
      exact .phase owner (fun self => (segments self).bind) (induction ends)

theorem passes_foldlM {α σ : Type} (round : Fin count → ρ → α → Thread ι ν ρ)
    {holds : σ → (Fin count → ρ) → (ι → Option ν) → Prop} {step : σ → α → Option σ}
    (each : ∀ state locals memory item next, holds state locals memory →
      step state item = some next → ∃ after final total,
        Passes (fun self => round self (locals self) item) memory
          (fun self => .done (after self)) final total ∧ holds next after final)
    {items : List α} {state result : σ} {locals : Fin count → ρ} {memory : ι → Option ν}
    (initially : holds state locals memory) (returns : items.foldlM step state = some result) :
    ∃ after final total,
      Passes (fun self => items.foldlM (round self) (locals self)) memory
        (fun self => .done (after self)) final total ∧ holds result after final := by
  induction items generalizing state locals memory with
  | nil =>
      cases returns
      exact ⟨locals, memory, 0, .refl, initially⟩
  | cons item items induction =>
      obtain ⟨next, happens, rest⟩ := Option.bind_eq_some_iff.mp returns
      obtain ⟨locals', memory', first, head, kept⟩ := each _ _ _ _ _ initially happens
      obtain ⟨after, final, _, tail, ends⟩ := induction kept rest
      have joined : Passes (fun self => (item :: items).foldlM (round self) (locals self)) memory
          (fun self => items.foldlM (round self) (locals' self)) memory' first := head.bind
      obtain ⟨total, whole⟩ := joined.trans tail
      exact ⟨after, final, total, whole, ends⟩

end Passing

section Runs

variable {results : Fin count → ρ}

/-- In the middle of a phase every thread is somewhere on its segment. -/
structure Between (owner : ι → Option (Fin count)) (start : ι → Option ν)
    (stops : Fin count → Thread ι ν ρ) (finals : Fin count → ι → Option ν)
    (lengths : Fin count → Nat) (group : Group ι ν ρ count) : Prop where
  segments : ∀ self, ∃ final, Segment owner self (group.threads self) group.memory (stops self)
    final (lengths self) ∧ ∀ cell, owner cell = some self → final cell = finals self cell
  shared : ∀ cell, owner cell = none → group.memory cell = start cell

section Phase

variable {owner : ι → Option (Fin count)} {start : ι → Option ν}
  {stops : Fin count → Thread ι ν ρ} {finals : Fin count → ι → Option ν}
  {lengths : Fin count → Nat} {group next : Group ι ν ρ count}

theorem Between.access (between : Between owner start stops finals lengths group)
    {self : Fin count} (happens : group.step (.access self) = some next) :
    ∃ left, Between owner start stops finals left next ∧
      ∑ other, lengths other = ∑ other, left other + 1 := by
  obtain ⟨⟨thread, memory⟩, accesses, result⟩ := Option.bind_eq_some_iff.mp happens
  cases result
  obtain ⟨final, segment, ownCells⟩ := between.segments self
  obtain ⟨left, length, rest, foreign⟩ := segment.access accesses
  refine ⟨Function.update lengths self left, ⟨?_, ?_⟩, ?_⟩
  · intro other
    dsimp only
    by_cases same : other = self
    · subst same
      refine ⟨final, ?_, ownCells⟩
      rw [Function.update_self, Function.update_self]
      exact rest
    · rw [Function.update_of_ne same, Function.update_of_ne same]
      obtain ⟨otherFinal, otherSegment, otherCells⟩ := between.segments other
      -- The cell that was written belongs to `self`, so the other thread does not read it.
      have agrees : ∀ cell, (∀ holder, owner cell = some holder → holder = other) →
          memory cell = group.memory cell := by
        intro cell allowed
        apply foreign
        intro own
        exact same (allowed self own).symm
      obtain ⟨movedFinal, moved, sameCells⟩ := otherSegment.transport agrees
      exact ⟨movedFinal, moved, fun cell own => (sameCells cell own).trans (otherCells cell own)⟩
  · intro cell unowned
    have foreignCell : owner cell ≠ some self := by simp [unowned]
    exact (foreign cell foreignCell).trans (between.shared cell unowned)
  · have before := Finset.add_sum_erase Finset.univ lengths (Finset.mem_univ self)
    have after := Finset.add_sum_erase Finset.univ (Function.update lengths self left)
      (Finset.mem_univ self)
    have others : ∑ other ∈ Finset.univ.erase self, Function.update lengths self left other =
        ∑ other ∈ Finset.univ.erase self, lengths other :=
      Finset.sum_congr rfl fun other member =>
        Function.update_of_ne (Finset.ne_of_mem_erase member) _ _
    rw [Function.update_self, others] at after
    omega

/-- All threads have come to their stops, or some thread can make an access. -/
theorem Between.progress (between : Between owner start stops finals lengths group) :
    group.threads = stops ∧ group.memory = merge owner start finals ∨
      ∃ self next, group.step (.access self) = some next := by
  by_cases stopped : ∀ self, group.threads self = stops self ∧
      ∀ cell, owner cell = some self → group.memory cell = finals self cell
  · left
    refine ⟨funext fun self => (stopped self).1, ?_⟩
    funext cell
    unfold merge
    cases owned : owner cell with
    | some self => exact (stopped self).2 cell owned
    | none => exact between.shared cell owned
  · right
    obtain ⟨self, moving⟩ := not_forall.mp stopped
    obtain ⟨final, segment, ownCells⟩ := between.segments self
    rcases segment.progress with ⟨arrived, rfl, _⟩ | ⟨after, changed, accesses⟩
    · exact absurd ⟨arrived, ownCells⟩ moving
    · exact ⟨self, _, by rw [Group.step, accesses]; rfl⟩

theorem Between.not_fault (between : Between owner start stops finals lengths group)
    (self : Fin count) : group.threads self ≠ .fault := by
  obtain ⟨final, segment, _⟩ := between.segments self
  exact segment.not_fault

end Phase

/-- On the way to the results, with so many events left at most. -/
inductive Underway (results : Fin count → ρ) : Group ι ν ρ count → Nat → Prop where
  | last {group : Group ι ν ρ count} {start : ι → Option ν} {finals : Fin count → ι → Option ν}
      {lengths : Fin count → Nat} {owner : ι → Option (Fin count)}
      (between : Between owner start (fun self => .done (results self)) finals lengths group) :
      Underway results group (∑ self, lengths self)
  | phase {group : Group ι ν ρ count} {start : ι → Option ν} {finals : Fin count → ι → Option ν}
      {lengths : Fin count → Nat} {owner : ι → Option (Fin count)}
      {stops : Fin count → Thread ι ν ρ} {total : Nat}
      (between : Between owner start (fun self => .sync (stops self)) finals lengths group)
      (rest : Finishes results stops (merge owner start finals) total) :
      Underway results group (∑ self, lengths self + 1 + total)

variable {threads : Fin count → Thread ι ν ρ} {memory : ι → Option ν} {total : Nat}
  {group next : Group ι ν ρ count}

theorem Finishes.underway (finishes : Finishes results threads memory total) :
    Underway results ⟨threads, memory⟩ total := by
  cases finishes with
  | last owner segments =>
      exact .last ⟨fun self => ⟨_, segments self, fun _ _ => rfl⟩, fun _ _ => rfl⟩
  | phase owner segments rest =>
      exact .phase ⟨fun self => ⟨_, segments self, fun _ _ => rfl⟩, fun _ _ => rfl⟩ rest

theorem Underway.step (underway : Underway results group total) {event : Event count}
    (happens : group.step event = some next) :
    ∃ left, Underway results next left ∧ left < total := by
  cases event with
  | access self =>
      cases underway with
      | last between =>
          obtain ⟨left, moved, sum⟩ := between.access happens
          exact ⟨_, .last moved, by omega⟩
      | phase between rest =>
          obtain ⟨left, moved, sum⟩ := between.access happens
          exact ⟨_, .phase moved rest, by omega⟩
  | release =>
      obtain ⟨waiting, result⟩ := Option.ite_none_right_eq_some.mp happens
      cases result
      obtain ⟨inhabited, arrived⟩ := waiting
      cases underway with
      | last between =>
          obtain ⟨final, segment, _⟩ := between.segments ⟨0, inhabited⟩
          have waits := arrived ⟨0, inhabited⟩
          rw [(segment.released waits).1] at waits
          cases waits
      | @phase start finals lengths owner stops total between rest =>
          have stopped : group.threads = fun self => .sync (stops self) := by
            funext self
            obtain ⟨final, segment, _⟩ := between.segments self
            exact (segment.released (arrived self)).1
          have merged : group.memory = merge owner start finals := by
            rcases between.progress with ⟨_, memory⟩ | ⟨self, next, moves⟩
            · exact memory
            · simp only [Group.step, stopped, Thread.access] at moves
              cases moves
          refine ⟨total, ?_, by omega⟩
          simp only [stopped, Thread.released, Option.getD_some, merged]
          exact rest.underway

theorem Underway.not_fault (underway : Underway results group total) (self : Fin count) :
    group.threads self ≠ .fault := by
  cases underway with
  | last between => exact between.not_fault self
  | phase between rest => exact between.not_fault self

/-- A thread that has come to its end has its result. -/
theorem Underway.result (underway : Underway results group total) {self : Fin count} {result : ρ}
    (ended : group.threads self = .done result) : result = results self := by
  have stop : ∀ {owner : ι → Option (Fin count)} {stop : Thread ι ν ρ} {final : ι → Option ν}
      {length : Nat}, Segment owner self (group.threads self) group.memory stop final length →
        stop = .done result := by
    intro owner stop final length segment
    rw [ended] at segment
    cases segment
    rfl
  cases underway with
  | last between =>
      obtain ⟨final, segment, _⟩ := between.segments self
      cases stop segment
      rfl
  | phase between rest =>
      obtain ⟨final, segment, _⟩ := between.segments self
      cases stop segment

/-- Something can happen as long as a thread has not come to its end. -/
theorem Underway.progress (underway : Underway results group total)
    (unfinished : ∃ self, ∀ result, group.threads self ≠ .done result) :
    ∃ event next, group.step event = some next := by
  obtain ⟨self, going⟩ := unfinished
  cases underway with
  | last between =>
      rcases between.progress with ⟨stopped, _⟩ | ⟨other, next, happens⟩
      · exact absurd (congrFun stopped self) (going _)
      · exact ⟨.access other, next, happens⟩
  | phase between rest =>
      rcases between.progress with ⟨stopped, _⟩ | ⟨other, next, happens⟩
      · have arrived : ∀ other, (group.threads other).released.isSome := by
          intro other
          rw [stopped]
          rfl
        exact ⟨.release, _, if_pos ⟨self.pos, arrived⟩⟩
      · exact ⟨.access other, next, happens⟩

theorem Finishes.endsIn (finishes : Finishes results threads memory total) :
    Group.EndsIn ⟨threads, memory⟩ results := by
  refine ⟨total, fun events group reached => ?_⟩
  have underway : ∃ left, Underway results group left ∧ events.length + left ≤ total := by
    have initially := finishes.underway
    generalize (⟨threads, memory⟩ : Group ι ν ρ count) = start at initially reached
    clear finishes
    induction events generalizing start total with
    | nil =>
        cases reached
        exact ⟨total, initially, by simp⟩
    | cons event events induction =>
        obtain ⟨next, happens, rest⟩ := Transition.run_cons.mp reached
        obtain ⟨left, moved, less⟩ := initially.step happens
        obtain ⟨final, ends, bound⟩ := induction next moved rest
        exact ⟨final, ends, by rw [List.length_cons]; omega⟩
  obtain ⟨left, underway, bound⟩ := underway
  exact ⟨by omega, underway.not_fault, fun self result => underway.result, underway.progress⟩

end Runs

end KVSSD.Barriers

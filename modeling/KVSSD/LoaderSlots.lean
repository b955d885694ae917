import KVSSD.LoaderHeap
import KVSSD.Lib.Transition
import Mathlib.Data.List.Perm.Basic

/-!
# Who holds a slot

Every slot is in the free queue, under a read of one iteration, or held for the
block one iteration has yielded, and in no two of these places.  Iterations that
fail or are closed lose slots; nothing ever duplicates one.
-/

namespace KVSSD

open KVSSD.Python KVSSD.Struct

/-- The slot held for the block at the `yield`. -/
def Phase.held : Phase → List Nat
  | .yielded slot _ => [slot]
  | _ => []

/-- The generator ended with an exception or was closed. -/
def Phase.failed : Phase → Bool
  | .raised _ => true
  | .closed => true
  | _ => false

@[simp] theorem Phase.held_created : Phase.created.held = [] := rfl
@[simp] theorem Phase.held_waiting : Phase.waiting.held = [] := rfl
@[simp] theorem Phase.held_yielded (slot : Nat) (nextId : Option Int) :
    (Phase.yielded slot nextId).held = [slot] := rfl
@[simp] theorem Phase.held_finished : Phase.finished.held = [] := rfl
@[simp] theorem Phase.held_raised (raised : PyError) :
    (Phase.raised raised).held = [] := rfl
@[simp] theorem Phase.held_closed : Phase.closed.held = [] := rfl

theorem Phase.failed_eq_false {phase : Phase} :
    phase.failed = false ↔ (∀ raised, phase ≠ .raised raised) ∧ phase ≠ .closed := by
  cases phase <;> simp [Phase.failed]

/-- The slots an iteration holds. -/
def Iteration.slots (iteration : Iteration) : List Nat :=
  iteration.pending.map Pending.slot ++ iteration.phase.held

/-- All places a slot can be in. -/
def Loader.slots (loader : Loader) : List Nat :=
  loader.free ++ loader.iterations.flatMap Iteration.slots

section Replace

variable {α : Type} {f : α → List Nat}

theorem flatMap_eraseIdx {items : List α} {index : Nat} {item : α}
    (here : items[index]? = some item) :
    (items.flatMap f).Perm (f item ++ (items.eraseIdx index).flatMap f) := by
  induction items generalizing index with
  | nil => simp at here
  | cons head items induction =>
      cases index with
      | zero =>
          cases here
          exact List.Perm.refl _
      | succ index =>
          have tail := induction (show items[index]? = some item by simpa using here)
          rw [List.flatMap_cons, List.eraseIdx_cons_succ, List.flatMap_cons]
          refine (List.Perm.append_left _ tail).trans ?_
          rw [← List.append_assoc, ← List.append_assoc]
          exact List.Perm.append_right _ List.perm_append_comm

theorem flatMap_set {items : List α} {index : Nat} (inside : index < items.length)
    (item : α) :
    ((items.set index item).flatMap f).Perm
      (f item ++ (items.eraseIdx index).flatMap f) := by
  have erased : (items.set index item).eraseIdx index = items.eraseIdx index :=
    List.eraseIdx_set_eq
  rw [← erased]
  exact flatMap_eraseIdx (by simp [inside])

end Replace

/-- An operation takes the slots of one iteration and the free queue to new ones;
only a failing iteration loses any. -/
def Moves (iteration next : Iteration) (free nextFree : List Nat) : Prop :=
  ∃ lost, (nextFree ++ next.slots ++ lost).Perm (free ++ iteration.slots) ∧
    (next.phase.failed = false → lost = [])

namespace Moves

theorem refl (iteration : Iteration) (free : List Nat) :
    Moves iteration iteration free free :=
  ⟨[], by simp, fun _ => rfl⟩

theorem trans {first second third : Iteration} {free nextFree finalFree : List Nat}
    (one : Moves first second free nextFree) (active : second.phase.failed = false)
    (two : Moves second third nextFree finalFree) :
    Moves first third free finalFree := by
  obtain ⟨none, one, nothing⟩ := one
  obtain ⟨lost, two, loses⟩ := two
  rw [nothing active, List.append_nil] at one
  exact ⟨lost, two.trans one, loses⟩

end Moves

section Operations

variable {source : LoaderStore} {iteration next : Iteration} {free nextFree : List Nat}

theorem Iteration.submit_cases {blockId : Int}
    (submitted : iteration.submit source blockId free = some (next, nextFree)) :
    ∃ slot, free = slot :: nextFree ∧
      ((∃ raised, source.store.entry iteration.layer blockId = .error raised ∧
          next = { iteration with phase := .raised raised }) ∨
        ∃ entry, source.store.entry iteration.layer blockId = .ok entry ∧
          next = { iteration with
            pending := iteration.pending ++ [⟨slot, entry, none⟩] }) := by
  unfold Iteration.submit at submitted
  cases free with
  | nil => cases submitted
  | cons slot rest =>
      cases listed : source.store.entry iteration.layer blockId with
      | error raised =>
          simp only [listed, Option.some.injEq, Prod.mk.injEq] at submitted
          obtain ⟨rfl, rfl⟩ := submitted
          exact ⟨slot, rfl, Or.inl ⟨raised, rfl, rfl⟩⟩
      | ok entry =>
          simp only [listed, Option.some.injEq, Prod.mk.injEq] at submitted
          obtain ⟨rfl, rfl⟩ := submitted
          exact ⟨slot, rfl, Or.inr ⟨entry, rfl, rfl⟩⟩

theorem Iteration.submit_moves {blockId : Int} (idle : iteration.phase.held = [])
    (submitted : iteration.submit source blockId free = some (next, nextFree)) :
    Moves iteration next free nextFree := by
  obtain ⟨slot, rfl, ⟨raised, _, rfl⟩ | ⟨entry, _, rfl⟩⟩ :=
    Iteration.submit_cases submitted
  · refine ⟨[slot], ?_, by simp [Phase.failed]⟩
    rw [List.perm_iff_count]
    intro other
    simp only [Iteration.slots, idle, Phase.held_raised, List.count_append, List.count_cons,
      List.count_nil]
    omega
  · refine ⟨[], ?_, fun _ => rfl⟩
    rw [List.perm_iff_count]
    intro other
    simp only [Iteration.slots, idle, List.map_append, List.map_cons, List.map_nil,
      List.count_append, List.count_cons, List.count_nil]
    omega

/-- One round of the priming loop. -/
theorem Iteration.prime_succ {count : Nat}
    (primed : iteration.prime source (count + 1) free = some (next, nextFree)) :
    (iteration.source = [] ∧ next = { iteration with
      phase := .raised (.runtimeError "generator raised StopIteration") } ∧
      nextFree = free) ∨
    ∃ blockId rest middle middleFree, iteration.source = blockId :: rest ∧
      { iteration with source := rest }.submit source blockId free =
        some (middle, middleFree) ∧
      ((∃ raised, middle.phase = .raised raised ∧ next = middle ∧
          nextFree = middleFree) ∨
        (∀ raised, middle.phase ≠ .raised raised) ∧
          middle.prime source count middleFree = some (next, nextFree)) := by
  rw [Iteration.prime] at primed
  cases ids : iteration.source with
  | nil =>
      simp only [ids, Option.some.injEq, Prod.mk.injEq] at primed
      exact Or.inl ⟨rfl, primed.1.symm, primed.2.symm⟩
  | cons blockId rest =>
      simp only [ids, Option.bind_eq_bind, Option.bind_eq_some_iff] at primed
      obtain ⟨⟨middle, middleFree⟩, submitted, continued⟩ := primed
      refine Or.inr ⟨blockId, rest, middle, middleFree, rfl, submitted, ?_⟩
      cases phase : middle.phase with
      | raised raised =>
          simp only [phase, Option.some.injEq, Prod.mk.injEq] at continued
          exact Or.inl ⟨raised, rfl, continued.1.symm, continued.2.symm⟩
      | created => exact Or.inr ⟨by simp, by simpa [phase] using continued⟩
      | waiting => exact Or.inr ⟨by simp, by simpa [phase] using continued⟩
      | yielded slot nextId => exact Or.inr ⟨by simp, by simpa [phase] using continued⟩
      | finished => exact Or.inr ⟨by simp, by simpa [phase] using continued⟩
      | closed => exact Or.inr ⟨by simp, by simpa [phase] using continued⟩

theorem Iteration.prime_moves {count : Nat} (idle : iteration.phase.held = [])
    (active : iteration.phase.failed = false)
    (primed : iteration.prime source count free = some (next, nextFree)) :
    Moves iteration next free nextFree := by
  induction count generalizing iteration free with
  | zero =>
      simp only [Iteration.prime, Option.some.injEq, Prod.mk.injEq] at primed
      obtain ⟨rfl, rfl⟩ := primed
      refine ⟨[], ?_, fun _ => rfl⟩
      simp [Iteration.slots, idle]
  | succ count induction =>
      rcases Iteration.prime_succ primed with ⟨_, rfl, rfl⟩ |
        ⟨blockId, rest, middle, middleFree, _, submitted, continued⟩
      · refine ⟨[], ?_, fun _ => rfl⟩
        simp [Iteration.slots, idle]
      · have first : Moves { iteration with source := rest } middle free middleFree :=
          Iteration.submit_moves idle submitted
        rcases continued with ⟨_, _, rfl, rfl⟩ | ⟨running, continued⟩
        · exact first
        · obtain ⟨slot, _, ⟨raised, _, rfl⟩ | ⟨entry, _, rfl⟩⟩ :=
            Iteration.submit_cases submitted
          · exact absurd rfl (running raised)
          · exact first.trans active (induction idle active continued)

theorem Iteration.start_moves (created : iteration.phase = .created)
    (started : iteration.start source free = some (next, nextFree)) :
    Moves iteration next free nextFree :=
  Iteration.prime_moves (by simp [created]) (by simp [created, Phase.failed])
    started

theorem Iteration.resume_moves {slot : Nat} {nextId : Option Int}
    (yielded : iteration.phase = .yielded slot nextId)
    (resumed : iteration.resume source slot nextId free = some (next, nextFree)) :
    Moves iteration next free nextFree := by
  have returned : Moves iteration { iteration with phase := .waiting } free
      (free ++ [slot]) := by
    refine ⟨[], ?_, fun _ => rfl⟩
    rw [List.perm_iff_count]
    intro other
    simp only [Iteration.slots, yielded, Phase.held_yielded, Phase.held_waiting, List.count_append,
      List.count_cons, List.count_nil]
    omega
  unfold Iteration.resume at resumed
  cases nextId with
  | none =>
      simp only [Option.some.injEq, Prod.mk.injEq] at resumed
      obtain ⟨rfl, rfl⟩ := resumed
      exact returned
  | some blockId =>
      exact returned.trans rfl (Iteration.submit_moves rfl resumed)

/-- The loop body ends the generator, raises, or yields the block decoded from
the slot of the front read. -/
theorem Iteration.take_cases {heap nextHeap : List Buffer}
    (taken : iteration.take source heap = some (next, nextHeap)) :
    (iteration.pending = [] ∧ next = { iteration with phase := .finished } ∧
      nextHeap = heap) ∨
    ∃ front rest outcome raw, iteration.pending = front :: rest ∧
      front.future = some outcome ∧ heap[front.slot]? = some raw ∧
      ((∃ raised, (outcome = .error raised ∨ outcome = .ok () ∧
          decodeSlot source.crc32 source.spec raw front.entry = .error raised) ∧
        next = { iteration with pending := rest, phase := .raised raised } ∧
        nextHeap = heap) ∨
      ∃ viewed block, outcome = .ok () ∧
        decodeSlot source.crc32 source.spec raw front.entry = .ok viewed ∧
        cloneBlock source.memory heap (viewRecord source.spec front.slot viewed) =
          (nextHeap, block) ∧
        next = { iteration with
          pending := rest
          source := iteration.source.tail
          phase := .yielded front.slot iteration.source.head?
          received := iteration.received ++ [block] }) := by
  unfold Iteration.take at taken
  cases waiting : iteration.pending with
  | nil =>
      simp only [waiting, Option.some.injEq, Prod.mk.injEq] at taken
      exact Or.inl ⟨rfl, taken.1.symm, taken.2.symm⟩
  | cons front rest =>
      simp only [waiting] at taken
      refine Or.inr ?_
      cases settled : front.future with
      | none => simp [settled] at taken
      | some outcome =>
          cases here : heap[front.slot]? with
          | none => simp [settled, here] at taken
          | some raw =>
              refine ⟨front, rest, outcome, raw, rfl, settled, here, ?_⟩
              cases outcome with
              | error raised =>
                  simp only [settled, here, Option.some.injEq, Prod.mk.injEq] at taken
                  exact Or.inl ⟨raised, Or.inl rfl, taken.1.symm, taken.2.symm⟩
              | ok _ =>
                  cases decoded : decodeSlot source.crc32 source.spec raw front.entry with
                  | error raised =>
                      simp only [settled, here, decoded, Option.some.injEq,
                        Prod.mk.injEq] at taken
                      exact Or.inl ⟨raised, Or.inr ⟨rfl, rfl⟩, taken.1.symm, taken.2.symm⟩
                  | ok viewed =>
                      simp only [settled, here, decoded, Option.some.injEq,
                        Prod.mk.injEq] at taken
                      refine Or.inr ⟨viewed, _, rfl, rfl, ?_, taken.1.symm⟩
                      rw [← taken.2]

theorem Iteration.take_moves {heap nextHeap : List Buffer}
    (waiting : iteration.phase = .waiting)
    (taken : iteration.take source heap = some (next, nextHeap)) :
    Moves iteration next free free := by
  rcases Iteration.take_cases taken with ⟨none, rfl, _⟩ |
    ⟨front, rest, outcome, raw, pending, _, _, ⟨raised, _, rfl, _⟩ |
      ⟨viewed, block, _, _, _, rfl⟩⟩
  · exact ⟨[], by simp [Iteration.slots, waiting], fun _ => rfl⟩
  · refine ⟨[front.slot], ?_, by simp [Phase.failed]⟩
    rw [List.perm_iff_count]
    intro other
    simp only [Iteration.slots, waiting, pending, Phase.held_waiting, Phase.held_raised,
      List.map_cons, List.count_append, List.count_cons, List.count_nil]
    omega
  · refine ⟨[], ?_, fun _ => rfl⟩
    rw [List.perm_iff_count]
    intro other
    simp only [Iteration.slots, waiting, pending, Phase.held_waiting, Phase.held_yielded,
      List.map_cons, List.count_append, List.count_cons, List.count_nil]
    omega

theorem Iteration.close_moves :
    Moves iteration { iteration with phase := .closed } free free := by
  refine ⟨iteration.phase.held, ?_, by simp [Phase.failed]⟩
  rw [List.perm_iff_count]
  intro other
  simp only [Iteration.slots, Phase.held_closed, List.count_append, List.count_nil]
  omega

theorem Iteration.settle_map {β : Type} {f : Pending → β} {read : Nat} {pending : Pending}
    {outcome : Except PyError Unit} (here : iteration.pending[read]? = some pending)
    (ignores : f { pending with future := some outcome } = f pending) :
    (iteration.settle read pending outcome).pending.map f = iteration.pending.map f := by
  obtain ⟨inside, rfl⟩ := List.getElem?_eq_some_iff.mp here
  rw [Iteration.settle, List.map_set, ignores, ← List.getElem_map f (h := by simpa using inside),
    List.set_getElem_self]

theorem Iteration.settle_moves {read : Nat} {pending : Pending}
    {outcome : Except PyError Unit} (here : iteration.pending[read]? = some pending) :
    Moves iteration (iteration.settle read pending outcome) free free := by
  have slots : (iteration.settle read pending outcome).slots = iteration.slots := by
    rw [Iteration.slots, Iteration.settle_map here rfl]
    rfl
  exact ⟨[], by rw [slots, List.append_nil], fun _ => rfl⟩

end Operations

end KVSSD

import KVSSD.LoaderSlots

/-!
# What every history of the loader keeps

The step of the loader is inverted once: an event creates an iteration or
advances one.  From that the invariant of all reachable states follows.  Slots
are never shared, every slot is a buffer the backend accepts, and the slot of a
settled read holds what that read left in it.
-/

namespace KVSSD

open KVSSD.Python KVSSD.Struct

/-- What one event does to the iteration it is about, to the heap and to the free
queue. -/
inductive Advance (source : LoaderStore) (index : Nat) (iteration : Iteration)
    (heap : List Buffer) (free : List Nat) :
    LoaderEvent → Iteration → List Buffer → List Nat → Prop
  | start {next : Iteration} {nextFree : List Nat}
      (created : iteration.phase = .created)
      (started : iteration.start source free = some (next, nextFree)) :
      Advance source index iteration heap free (.next index) next heap nextFree
  | resume {slot : Nat} {nextId : Option Int} {next : Iteration} {nextFree : List Nat}
      (yielded : iteration.phase = .yielded slot nextId)
      (resumed : iteration.resume source slot nextId free = some (next, nextFree)) :
      Advance source index iteration heap free (.next index) next heap nextFree
  | take {next : Iteration} {nextHeap : List Buffer}
      (waiting : iteration.phase = .waiting)
      (taken : iteration.take source heap = some (next, nextHeap)) :
      Advance source index iteration heap free (.take index) next nextHeap free
  | close (suspended : iteration.phase = .created ∨
        ∃ slot nextId, iteration.phase = .yielded slot nextId) :
      Advance source index iteration heap free (.close index)
        { iteration with phase := .closed } heap free
  | scribble {read : Nat} {pending : Pending} {raw : Buffer} {bytes : Bytes}
      (here : iteration.pending[read]? = some pending)
      (running : pending.future = none) (slot : heap[pending.slot]? = some raw)
      (sized : bytes.length = raw.bytes.length) :
      Advance source index iteration heap free (.scribble index read bytes) iteration
        (heap.set pending.slot { raw with bytes }) free
  | finish {read position : Nat} {pending : Pending} {raw filled : Buffer}
      {outcome : Except PyError Unit}
      (here : iteration.pending[read]? = some pending)
      (running : pending.future = none) (slot : heap[pending.slot]? = some raw)
      (ended : source.backend.readInto position pending.entry raw = (filled, outcome)) :
      Advance source index iteration heap free (.finish index read position)
        (iteration.settle read pending outcome) (heap.set pending.slot filled) free

/-- An event creates an iteration or advances one. -/
theorem Loader.step_cases {source : LoaderStore} {loader next : Loader}
    {event : LoaderEvent} (happens : loader.step source event = some next) :
    (∃ layer blockIds, event = .iterBlocks layer blockIds ∧ next = { loader with
      iterations := loader.iterations ++ [⟨layer, blockIds, blockIds, [], .created, []⟩] }) ∨
    ∃ index iteration after heap free, loader.iterations[index]? = some iteration ∧
      Advance source index iteration loader.heap loader.free event after heap free ∧
      next = ⟨heap, free, loader.iterations.set index after⟩ := by
  cases event with
  | iterBlocks layer blockIds =>
      cases happens
      exact Or.inl ⟨layer, blockIds, rfl, rfl⟩
  | next index =>
      right
      simp only [Loader.step, Option.bind_eq_bind, Option.bind_eq_some_iff] at happens
      obtain ⟨iteration, here, moved⟩ := happens
      cases phase : iteration.phase with
      | created =>
          simp only [phase, Option.bind_eq_some_iff] at moved
          obtain ⟨⟨after, free⟩, started, result⟩ := moved
          cases result
          exact ⟨index, iteration, after, _, free, here, .start phase started, rfl⟩
      | yielded slot nextId =>
          simp only [phase, Option.bind_eq_some_iff] at moved
          obtain ⟨⟨after, free⟩, resumed, result⟩ := moved
          cases result
          exact ⟨index, iteration, after, _, free, here, .resume phase resumed, rfl⟩
      | waiting => simp [phase] at moved
      | finished => simp [phase] at moved
      | raised raised => simp [phase] at moved
      | closed => simp [phase] at moved
  | take index =>
      right
      simp only [Loader.step, Option.bind_eq_bind, Option.bind_eq_some_iff] at happens
      obtain ⟨iteration, here, moved⟩ := happens
      cases phase : iteration.phase with
      | waiting =>
          simp only [phase, Option.bind_eq_some_iff] at moved
          obtain ⟨⟨after, heap⟩, taken, result⟩ := moved
          cases result
          exact ⟨index, iteration, after, heap, _, here, .take phase taken, rfl⟩
      | created => simp [phase] at moved
      | yielded slot nextId => simp [phase] at moved
      | finished => simp [phase] at moved
      | raised raised => simp [phase] at moved
      | closed => simp [phase] at moved
  | close index =>
      right
      simp only [Loader.step, Option.bind_eq_bind, Option.bind_eq_some_iff] at happens
      obtain ⟨iteration, here, result⟩ := happens
      cases phase : iteration.phase with
      | created =>
          rw [phase] at result
          cases result
          exact ⟨index, iteration, _, _, _, here, .close (Or.inl phase), rfl⟩
      | yielded slot nextId =>
          rw [phase] at result
          cases result
          exact ⟨index, iteration, _, _, _, here, .close (Or.inr ⟨slot, nextId, phase⟩), rfl⟩
      | waiting => simp [phase] at result
      | finished => simp [phase] at result
      | raised raised => simp [phase] at result
      | closed => simp [phase] at result
  | scribble index read bytes =>
      right
      simp only [Loader.step, Option.bind_eq_bind, Option.bind_eq_some_iff] at happens
      obtain ⟨iteration, here, pending, read, raw, slot, result⟩ := happens
      split at result
      · rename_i allowed
        cases result
        refine ⟨index, iteration, iteration, _, _, here,
          .scribble read allowed.1 slot allowed.2, ?_⟩
        obtain ⟨inside, rfl⟩ := List.getElem?_eq_some_iff.mp here
        rw [List.set_getElem_self]
      · cases result
  | finish index read position =>
      right
      simp only [Loader.step, Option.bind_eq_bind, Option.bind_eq_some_iff] at happens
      obtain ⟨iteration, here, pending, read, raw, slot, result⟩ := happens
      split at result
      · rename_i running
        cases result
        exact ⟨index, iteration, _, _, _, here, .finish read running slot rfl, rfl⟩
      · cases result

/-- What an iteration can do, the loader can do. -/
theorem Advance.happens {source : LoaderStore} {loader : Loader} {index : Nat}
    {iteration after : Iteration} {heap : List Buffer} {free : List Nat}
    {event : LoaderEvent} (here : loader.iterations[index]? = some iteration)
    (advance : Advance source index iteration loader.heap loader.free event after heap free) :
    loader.step source event = some ⟨heap, free, loader.iterations.set index after⟩ := by
  cases advance with
  | start created started => simp [Loader.step, here, created, started]
  | resume yielded resumed => simp [Loader.step, here, yielded, resumed]
  | take waiting taken => simp [Loader.step, here, waiting, taken]
  | close suspended =>
      rcases suspended with created | ⟨slot, nextId, yielded⟩
      · simp [Loader.step, here, created]
      · simp [Loader.step, here, yielded]
  | scribble read running slot sized =>
      have unchanged : loader.iterations.set index iteration = loader.iterations := by
        obtain ⟨inside, rfl⟩ := List.getElem?_eq_some_iff.mp here
        exact List.set_getElem_self inside
      simp [Loader.step, here, read, running, slot, sized, unchanged]
  | finish read running slot ended => simp [Loader.step, here, read, running, slot, ended]

theorem Advance.moves {source : LoaderStore} {index : Nat} {iteration after : Iteration}
    {heap nextHeap : List Buffer} {free nextFree : List Nat} {event : LoaderEvent}
    (advance : Advance source index iteration heap free event after nextHeap nextFree) :
    Moves iteration after free nextFree := by
  cases advance with
  | start created started => exact Iteration.start_moves created started
  | resume yielded resumed => exact Iteration.resume_moves yielded resumed
  | take waiting taken => exact Iteration.take_moves waiting taken
  | close suspended => exact Iteration.close_moves
  | scribble here running slot sized => exact Moves.refl _ _
  | finish here running slot ended => exact Iteration.settle_moves here

/-- Reads were submitted, each for an entry of the store: all that were asked
for, or those in front of an unknown block. -/
structure Submits (source : LoaderStore) (upcoming : List Int) (count : Nat)
    (iteration next : Iteration) : Prop where
  layer : next.layer = iteration.layer
  blockIds : next.blockIds = iteration.blockIds
  received : next.received = iteration.received
  reads : ∃ added, next.pending = iteration.pending ++ added ∧
    (∀ pending ∈ added, pending.future = none ∧
      source.store.entry iteration.layer pending.entry.block = .ok pending.entry) ∧
    ((∃ raised, next.phase = .raised raised ∧
        ∃ blockId ∈ upcoming, source.store.entry iteration.layer blockId = .error raised) ∨
      next.phase = .waiting ∧ added.length = count ∧
        added.map (fun pending => pending.entry.block) ++ next.source = upcoming)

section Submit

variable {source : LoaderStore} {iteration next : Iteration} {free nextFree : List Nat}

theorem Iteration.prime_submits {count : Nat} (enough : count ≤ iteration.source.length)
    (primed : iteration.prime source count free = some (next, nextFree))
    (active : iteration.phase.failed = false) :
    Submits source iteration.source count iteration next := by
  induction count generalizing iteration free with
  | zero =>
      simp only [Iteration.prime, Option.some.injEq, Prod.mk.injEq] at primed
      obtain ⟨rfl, rfl⟩ := primed
      exact ⟨rfl, rfl, rfl, [], by simp, by simp, Or.inr ⟨rfl, rfl, rfl⟩⟩
  | succ count induction =>
      rcases Iteration.prime_succ primed with ⟨none, _, _⟩ |
        ⟨blockId, rest, middle, middleFree, ids, submitted, continued⟩
      · rw [none] at enough
        simp at enough
      · rw [ids] at enough ⊢
        obtain ⟨slot, _, ⟨raised, unknown, rfl⟩ | ⟨entry, listed, rfl⟩⟩ :=
          Iteration.submit_cases submitted
        · rcases continued with ⟨_, _, rfl, _⟩ | ⟨running, _⟩
          · exact ⟨rfl, rfl, rfl, [], by simp, by simp,
              Or.inl ⟨raised, rfl, blockId, by simp, unknown⟩⟩
          · exact absurd rfl (running raised)
        · rcases continued with ⟨raised, failed, _, _⟩ | ⟨_, continued⟩
          · have stays : iteration.phase = .raised raised := failed
            simp [stays, Phase.failed] at active
          · have deeper := induction (by simpa using enough) continued active
            obtain ⟨added, pending, fresh, result⟩ := deeper.reads
            refine ⟨deeper.layer, deeper.blockIds, deeper.received,
              ⟨slot, entry, none⟩ :: added, by simp [pending], ?_, ?_⟩
            · intro other member
              rcases List.mem_cons.mp member with rfl | member
              · exact ⟨rfl, by simpa [(entry_identity listed).2] using listed⟩
              · exact fresh other member
            · rcases result with ⟨raised, failed, blockId, member, unknown⟩ |
                ⟨waiting, length, upcoming⟩
              · exact Or.inl ⟨raised, failed, blockId, by simp [member], unknown⟩
              · refine Or.inr ⟨waiting, by simp [length], ?_⟩
                simp only [List.map_cons, List.cons_append, (entry_identity listed).2,
                  upcoming]

theorem Iteration.start_submits (created : iteration.phase = .created)
    (unread : iteration.source = iteration.blockIds)
    (started : iteration.start source free = some (next, nextFree)) :
    Submits source iteration.source (min free.length iteration.blockIds.length)
      iteration next := by
  refine Iteration.prime_submits ?_ started (by simp [created, Phase.failed])
  rw [unread]
  exact Nat.min_le_right _ _

theorem Iteration.resume_submits {slot : Nat} {nextId : Option Int}
    (resumed : iteration.resume source slot nextId free = some (next, nextFree)) :
    Submits source (nextId.toList ++ iteration.source) nextId.toList.length
      iteration next := by
  unfold Iteration.resume at resumed
  cases nextId with
  | none =>
      simp only [Option.some.injEq, Prod.mk.injEq] at resumed
      obtain ⟨rfl, _⟩ := resumed
      exact ⟨rfl, rfl, rfl, [], by simp, by simp, Or.inr ⟨rfl, rfl, rfl⟩⟩
  | some blockId =>
      obtain ⟨other, _, ⟨raised, unknown, rfl⟩ | ⟨entry, listed, rfl⟩⟩ :=
        Iteration.submit_cases resumed
      · exact ⟨rfl, rfl, rfl, [], by simp, by simp,
          Or.inl ⟨raised, rfl, blockId, by simp, unknown⟩⟩
      · refine ⟨rfl, rfl, rfl, [⟨other, entry, none⟩], rfl, ?_, Or.inr ⟨rfl, rfl, ?_⟩⟩
        · simpa [(entry_identity listed).2] using listed
        · simp [(entry_identity listed).2]

end Submit

/-- What the backend allocates for a record of the loader. -/
structure LoaderStore.SlotBuffer (source : LoaderStore) (raw : Buffer) : Prop where
  device : raw.device = source.slotDevice
  length : (raw.bytes.length : Int) = source.spec.recordBytes
  address : source.store.kind ≠ .buffered → (4096 : Int) ∣ raw.address

/-- The backend accepts the slots. -/
def LoaderStore.AcceptsSlots (source : LoaderStore) : Prop :=
  source.store.kind.Accepts source.device

theorem LoaderStore.SlotBuffer.serves {source : LoaderStore} {raw : Buffer}
    (slot : source.SlotBuffer raw) (accepts : source.AcceptsSlots) :
    raw.Serves source.store.kind source.spec.recordBytes :=
  ⟨slot.device.trans accepts.bufferDevice, slot.length.ge, slot.address⟩

theorem LoaderStore.SlotBuffer.of_samePlace {source : LoaderStore} {raw other : Buffer}
    (slot : source.SlotBuffer raw) (same : raw.SamePlace other) :
    source.SlotBuffer other :=
  ⟨same.device.trans slot.device, by rw [same.length]; exact slot.length,
    fun aligns => by rw [same.address]; exact slot.address aligns⟩

/-- The entry is the one of its block, and a settled read left its result in the
slot. -/
structure Pending.Consistent (source : LoaderStore) (heap : List Buffer) (layer : Int)
    (pending : Pending) : Prop where
  listed : source.store.entry layer pending.entry.block = .ok pending.entry
  settled : ∀ outcome, pending.future = some outcome → ∃ position before filled,
    source.SlotBuffer before ∧
      source.backend.readInto position pending.entry before = (filled, outcome) ∧
      heap[pending.slot]? = some filled

/-- The first storages of the heap are slots. -/
def LoaderStore.Slots (source : LoaderStore) (depth : Nat) (heap : List Buffer) : Prop :=
  ∀ slot < depth, ∃ raw, heap[slot]? = some raw ∧ source.SlotBuffer raw

/-- What holds of one iteration in every reachable state. -/
structure Iteration.Sound (source : LoaderStore) (heap : List Buffer)
    (iteration : Iteration) : Prop where
  consistent : ∀ pending ∈ iteration.pending,
    pending.Consistent source heap iteration.layer
  fresh : iteration.phase = .created → iteration.source = iteration.blockIds ∧
    iteration.pending = [] ∧ iteration.received = []

structure Loader.Inv (source : LoaderStore) (depth : Nat) (loader : Loader) : Prop where
  distinct : loader.slots.Nodup
  inside : ∀ slot ∈ loader.slots, slot < depth
  buffers : source.Slots depth loader.heap
  sound : ∀ iteration ∈ loader.iterations, iteration.Sound source loader.heap

section Heap

variable {source : LoaderStore} {index : Nat} {iteration after : Iteration}
  {heap nextHeap : List Buffer} {free nextFree : List Nat} {event : LoaderEvent}

theorem Iteration.take_heap (taken : iteration.take source heap = some (after, nextHeap)) :
    ∃ added, nextHeap = heap ++ added := by
  rcases Iteration.take_cases taken with ⟨_, _, rfl⟩ |
    ⟨front, rest, outcome, raw, _, _, _, ⟨raised, _, _, rfl⟩ | ⟨viewed, block, _, _, cloned, _⟩⟩
  · exact ⟨[], by simp⟩
  · exact ⟨[], by simp⟩
  · simp only [cloneBlock, clone, Prod.mk.injEq] at cloned
    exact ⟨_, by rw [← cloned.1]; simp only [List.append_assoc]; rfl⟩

theorem Advance.heap_cases
    (advance : Advance source index iteration heap free event after nextHeap nextFree) :
    (∃ added, nextHeap = heap ++ added) ∨
      ∃ pending ∈ iteration.pending, ∃ raw filled, pending.future = none ∧
        heap[pending.slot]? = some raw ∧ raw.SamePlace filled ∧
        nextHeap = heap.set pending.slot filled := by
  cases advance with
  | start created started => exact Or.inl ⟨[], by simp⟩
  | resume yielded resumed => exact Or.inl ⟨[], by simp⟩
  | take waiting taken => exact Or.inl (Iteration.take_heap taken)
  | close suspended => exact Or.inl ⟨[], by simp⟩
  | @scribble _ pending raw bytes here running slot sized =>
      exact Or.inr ⟨pending, List.mem_of_getElem? here, raw, { raw with bytes }, running,
        slot, ⟨rfl, rfl, sized⟩, rfl⟩
  | @finish _ position pending raw filled outcome here running slot ended =>
      have same := source.store.kind.readInto_samePlace source.memory source.file
        position pending.entry raw
      have result : ((source.store.kind.backend source.memory source.file).readInto
          position pending.entry raw).1 = filled := congrArg Prod.fst ended
      rw [result] at same
      exact Or.inr ⟨pending, List.mem_of_getElem? here, raw, filled, running, slot, same, rfl⟩

theorem Advance.heapExtends {depth : Nat}
    (advance : Advance source index iteration heap free event after nextHeap nextFree)
    (inside : ∀ pending ∈ iteration.pending, pending.slot < depth) :
    HeapExtends depth heap nextHeap := by
  rcases advance.heap_cases with ⟨added, rfl⟩ |
    ⟨pending, member, raw, filled, _, _, _, rfl⟩
  · exact HeapExtends.append depth heap added
  · exact HeapExtends.set heap filled (inside pending member)

theorem Advance.keeps {slot : Nat} {raw : Buffer}
    (advance : Advance source index iteration heap free event after nextHeap nextFree)
    (here : heap[slot]? = some raw)
    (idle : ∀ pending ∈ iteration.pending, pending.future = none → pending.slot ≠ slot) :
    nextHeap[slot]? = some raw := by
  rcases advance.heap_cases with ⟨added, rfl⟩ |
    ⟨pending, member, before, filled, running, _, _, rfl⟩
  · obtain ⟨inside, _⟩ := List.getElem?_eq_some_iff.mp here
    rw [List.getElem?_append_left inside, here]
  · rw [List.getElem?_set_ne (idle pending member running), here]

theorem Advance.slots {depth : Nat}
    (advance : Advance source index iteration heap free event after nextHeap nextFree)
    (buffers : source.Slots depth heap) : source.Slots depth nextHeap := by
  intro slot inside
  obtain ⟨raw, here, serves⟩ := buffers slot inside
  obtain ⟨present, _⟩ := List.getElem?_eq_some_iff.mp here
  rcases advance.heap_cases with ⟨added, rfl⟩ |
    ⟨pending, _, before, filled, _, slotBefore, same, rfl⟩
  · exact ⟨raw, by rw [List.getElem?_append_left present, here], serves⟩
  · by_cases this : pending.slot = slot
    · subst this
      rw [here] at slotBefore
      cases slotBefore
      exact ⟨filled, List.getElem?_set_self present, serves.of_samePlace same⟩
    · exact ⟨raw, by rw [List.getElem?_set_ne this, here], serves⟩

theorem Iteration.Sound.of_kept (sound : iteration.Sound source heap)
    (kept : ∀ pending ∈ iteration.pending, pending.future ≠ none → ∀ raw,
      heap[pending.slot]? = some raw → nextHeap[pending.slot]? = some raw) :
    iteration.Sound source nextHeap := by
  refine ⟨?_, sound.fresh⟩
  intro pending member
  refine ⟨(sound.consistent pending member).listed, ?_⟩
  intro outcome done
  obtain ⟨position, before, filled, serves, read, slot⟩ :=
    (sound.consistent pending member).settled outcome done
  exact ⟨position, before, filled, serves, read, kept pending member (by simp [done]) filled slot⟩

theorem Submits.sound {upcoming : List Int} {count : Nat}
    (submits : Submits source upcoming count iteration after)
    (sound : iteration.Sound source heap) : after.Sound source heap := by
  obtain ⟨added, pending, fresh, result⟩ := submits.reads
  constructor
  · intro other member
    rw [submits.layer]
    rw [pending, List.mem_append] at member
    rcases member with old | new
    · exact sound.consistent other old
    · exact ⟨(fresh other new).2, by simp [(fresh other new).1]⟩
  · intro created
    rcases result with ⟨raised, failed, _⟩ | ⟨waiting, _⟩
    · rw [failed] at created
      cases created
    · rw [waiting] at created
      cases created

theorem Advance.sound {depth : Nat}
    (advance : Advance source index iteration heap free event after nextHeap nextFree)
    (buffers : source.Slots depth heap)
    (inside : ∀ pending ∈ iteration.pending, pending.slot < depth)
    (distinct : ∀ pending ∈ iteration.pending, ∀ other ∈ iteration.pending,
      pending.slot = other.slot → pending = other)
    (sound : iteration.Sound source heap) : after.Sound source nextHeap := by
  have kept : iteration.Sound source nextHeap := by
    refine sound.of_kept ?_
    intro pending member settled raw here
    refine advance.keeps here ?_
    intro other otherMember running same
    rw [distinct other otherMember pending member same] at running
    exact settled running
  cases advance with
  | start created started =>
      exact (Iteration.start_submits created (sound.fresh created).1 started).sound kept
  | resume yielded resumed => exact (Iteration.resume_submits resumed).sound kept
  | take waiting taken =>
      rcases Iteration.take_cases taken with ⟨_, rfl, _⟩ |
        ⟨front, rest, outcome, raw, pending, _, _, ⟨raised, _, rfl, _⟩ |
          ⟨viewed, block, _, _, _, rfl⟩⟩
      · exact ⟨kept.consistent, by simp⟩
      · exact ⟨fun other member => kept.consistent other (by simp [pending, member]),
          by simp⟩
      · exact ⟨fun other member => kept.consistent other (by simp [pending, member]),
          by simp⟩
  | close suspended => exact ⟨kept.consistent, by simp⟩
  | scribble here running slot sized => exact kept
  | @finish read position pending raw filled outcome here running slot ended =>
      have member := List.mem_of_getElem? here
      obtain ⟨present, _⟩ := List.getElem?_eq_some_iff.mp slot
      constructor
      · intro other otherMember
        rcases List.mem_or_eq_of_mem_set otherMember with old | rfl
        · exact kept.consistent other old
        · refine ⟨(kept.consistent pending member).listed, ?_⟩
          intro result done
          cases done
          obtain ⟨before, beforeSlot, serves⟩ := buffers pending.slot (inside pending member)
          rw [slot] at beforeSlot
          cases beforeSlot
          exact ⟨position, raw, filled, serves, ended, List.getElem?_set_self present⟩
      · intro created
        rw [(kept.fresh created).2.1] at member
        cases member

end Heap

section Reachable

variable {source : LoaderStore} {depth : Nat} {loader next : Loader}

theorem Loader.pending_eq_of_slot (distinct : loader.slots.Nodup)
    {first second : Iteration} (firstMember : first ∈ loader.iterations)
    (secondMember : second ∈ loader.iterations) {pending other : Pending}
    (pendingMember : pending ∈ first.pending) (otherMember : other ∈ second.pending)
    (same : pending.slot = other.slot) : pending = other := by
  have sublist : ((loader.iterations.flatMap Iteration.pending).map Pending.slot).Sublist
      (loader.iterations.flatMap Iteration.slots) := by
    rw [List.map_flatMap]
    induction loader.iterations with
    | nil => simp
    | cons iteration iterations induction =>
        rw [List.flatMap_cons, List.flatMap_cons]
        exact (List.sublist_append_left _ _).append induction
  have nodup := (distinct.sublist (List.sublist_append_right _ _)).sublist sublist
  exact List.inj_on_of_nodup_map nodup (List.mem_flatMap.mpr ⟨first, firstMember, pendingMember⟩)
    (List.mem_flatMap.mpr ⟨second, secondMember, otherMember⟩) same

theorem Loader.slot_mem {iteration : Iteration} (member : iteration ∈ loader.iterations)
    {pending : Pending} (under : pending ∈ iteration.pending) :
    pending.slot ∈ loader.slots := by
  refine List.mem_append_right _ (List.mem_flatMap.mpr ⟨iteration, member, ?_⟩)
  exact List.mem_append_left _ (List.mem_map_of_mem under)

/-- Replacing one iteration only loses slots, and none while it has not failed. -/
theorem Moves.set {iteration after : Iteration} {index : Nat} {free : List Nat}
    (heap : List Buffer) (here : loader.iterations[index]? = some iteration)
    (moves : Moves iteration after loader.free free) :
    ∃ lost, ((Loader.mk heap free (loader.iterations.set index after)).slots ++
        lost).Perm loader.slots ∧ (after.phase.failed = false → lost = []) := by
  obtain ⟨lost, moved, loses⟩ := moves
  obtain ⟨inside, _⟩ := List.getElem?_eq_some_iff.mp here
  refine ⟨lost, ?_, loses⟩
  have before := flatMap_eraseIdx (f := Iteration.slots) here
  have later := flatMap_set (f := Iteration.slots) inside after
  rw [List.perm_iff_count] at moved before later ⊢
  intro slot
  have movedCount := moved slot
  have beforeCount := before slot
  have laterCount := later slot
  simp only [Loader.slots, List.count_append] at movedCount beforeCount laterCount ⊢
  omega

theorem Loader.Inv.step {event : LoaderEvent} (invariant : loader.Inv source depth)
    (happens : loader.step source event = some next) : next.Inv source depth := by
  rcases Loader.step_cases happens with ⟨layer, blockIds, _, rfl⟩ |
    ⟨index, iteration, after, heap, free, here, advance, rfl⟩
  · refine ⟨?_, ?_, invariant.buffers, ?_⟩
    · simpa [Loader.slots, Iteration.slots] using invariant.distinct
    · simpa [Loader.slots, Iteration.slots] using invariant.inside
    · intro iteration member
      rcases List.mem_append.mp member with old | new
      · exact invariant.sound iteration old
      · rw [List.mem_singleton.mp new]
        exact ⟨by simp, by simp⟩
  · have member := List.mem_of_getElem? here
    obtain ⟨lost, moved, _⟩ := advance.moves.set heap here
    have pendingInside : ∀ pending ∈ iteration.pending, pending.slot < depth :=
      fun pending under => invariant.inside _ (Loader.slot_mem member under)
    refine ⟨?_, ?_, advance.slots invariant.buffers, ?_⟩
    · exact ((moved.nodup_iff.mpr invariant.distinct).sublist (List.sublist_append_left _ _))
    · intro slot present
      exact invariant.inside slot (moved.subset (List.mem_append_left _ present))
    · intro other otherMember
      rcases List.mem_or_eq_of_mem_set otherMember with old | rfl
      · refine (invariant.sound other old).of_kept ?_
        intro pending under settled raw slot
        refine advance.keeps slot ?_
        intro running runningMember busy same
        rw [Loader.pending_eq_of_slot invariant.distinct member old runningMember under same]
          at busy
        exact settled busy
      · refine advance.sound invariant.buffers pendingInside ?_ (invariant.sound _ member)
        intro pending under running runningMember same
        exact Loader.pending_eq_of_slot invariant.distinct member member under runningMember
          same

theorem LoaderStore.slotBuffer_of_allocate {raw : Buffer}
    (allocated : source.backend.allocateBuffer source.device source.spec.recordBytes =
      .ok raw) :
    source.SlotBuffer raw := by
  have aligned : (4096 : Int) ∣ source.spec.recordBytes := ⟨_, Int.mul_comm _ _⟩
  have sized : 0 ≤ source.spec.recordBytes := by
    have above : -4096 < source.spec.recordBytes := by
      cases kind : source.store.kind with
      | buffered =>
          simp only [LoaderStore.backend, kind, StorageKind.backend] at allocated
          have nonnegative := (Memory.empty_eq_ok.mp allocated).1
          omega
      | direct =>
          simp only [LoaderStore.backend, kind, StorageKind.backend] at allocated
          exact (alignedUInt8_address allocated).2.2.1
      | gds =>
          simp only [LoaderStore.backend, kind, StorageKind.backend] at allocated
          exact (alignedUInt8_address allocated).2.2.1
    omega
  obtain ⟨buffer, served, device, length, address⟩ :=
    source.store.kind.allocateBuffer_total source.memory source.file source.device sized
  have same : (.ok buffer : Except PyError Buffer) = .ok raw := served.symm.trans allocated
  cases same
  exact ⟨device, length, address⟩

private theorem mapM_const_ok {α β : Type} {result : Except PyError β} {items : List α}
    {made : List β} (success : (items.mapM fun _ => result) = .ok made) :
    made.length = items.length ∧ ∀ value ∈ made, result = .ok value := by
  induction items generalizing made with
  | nil =>
      cases success
      simp
  | cons item items induction =>
      rw [List.mapM_cons] at success
      obtain ⟨value, first, success⟩ := bind_eq_ok.mp success
      obtain ⟨values, rest, success⟩ := bind_eq_ok.mp success
      cases success
      obtain ⟨length, all⟩ := induction rest
      refine ⟨by simp [length], ?_⟩
      intro other member
      rcases List.mem_cons.mp member with rfl | member
      · exact first
      · exact all other member

/-- `__init__` makes a positive number of slots, all free. -/
theorem Loader.init_cases {depth : Int} (made : Loader.init source depth = .ok loader) :
    1 ≤ depth ∧ loader.free = List.range depth.toNat ∧ loader.iterations = [] ∧
      source.Slots depth.toNat loader.heap := by
  unfold Loader.init at made
  split at made
  · cases made
  · obtain ⟨slots, allocated, made⟩ := bind_eq_ok.mp made
    cases made
    obtain ⟨length, all⟩ := mapM_const_ok allocated
    refine ⟨by omega, rfl, rfl, ?_⟩
    intro slot inside
    have present : slot < slots.length := by simpa [length] using inside
    exact ⟨slots[slot], List.getElem?_eq_getElem present,
      source.slotBuffer_of_allocate (all _ (List.getElem_mem present))⟩

theorem Loader.inv_of_reachable {depth : Int} {events : List LoaderEvent}
    (made : Loader.init source depth = .ok loader)
    (reached : Transition.run (Loader.step source) loader events = some next) :
    next.Inv source depth.toNat := by
  obtain ⟨_, free, iterations, buffers⟩ := Loader.init_cases made
  refine Transition.invariant_of_run (Loader.Inv source depth.toNat) ?_ ?_ reached
  · intro state event later invariant happens
    exact invariant.step happens
  · refine ⟨?_, ?_, buffers, by simp [iterations]⟩
    · simpa [Loader.slots, free, iterations] using List.nodup_range
    · simp [Loader.slots, free, iterations]

end Reachable

end KVSSD

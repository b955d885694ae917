import KVSSD.LoaderCompletion

/-!
# One iteration as a pipe

An iteration over readable blocks that finds all slots free and is the only one
that runs: its slots are always apart, it never waits for a free slot, its
consumer gets the blocks in order, and it ends with all slots free again after a
bounded number of events.
-/

namespace KVSSD

open KVSSD.Python KVSSD.Struct

/-- The events of the iteration itself: its consumer asks for the next block, it
takes one, and its reads run and end. -/
def LoaderEvent.drives (index : Nat) : LoaderEvent → Bool
  | .next iteration => iteration == index
  | .take iteration => iteration == index
  | .scribble iteration _ _ => iteration == index
  | .finish iteration _ _ => iteration == index
  | .iterBlocks _ _ => false
  | .close _ => false

/-- Every event but a partial write of a read. -/
def LoaderEvent.busy : LoaderEvent → Bool
  | .scribble _ _ _ => false
  | _ => true

/-- A bound on the busy events to come. -/
def Iteration.work (iteration : Iteration) : Nat :=
  let ahead := 2 * iteration.pending.length +
    iteration.pending.countP (fun pending => pending.future.isNone) +
    3 * (iteration.phase.nextIds.length + iteration.source.length)
  match iteration.phase with
  | .created => ahead + 2
  | .waiting => ahead + 1
  | .yielded _ _ => ahead + 2
  | .finished => 0
  | .raised _ => 0
  | .closed => 0

section Pipe

variable {source : LoaderStore} {depth index : Nat} {layer : Int} {blockIds : List Int}
  {iteration after : Iteration} {heap nextHeap : List Buffer} {free nextFree : List Nat}
  {event : LoaderEvent}

theorem Submits.ahead {upcoming : List Int} {count : Nat}
    (submits : Submits source upcoming count iteration after)
    (readable : ∀ blockId ∈ upcoming, source.Readable iteration.layer blockId) :
    after.work + 3 * iteration.pending.length =
      2 * iteration.pending.length +
        iteration.pending.countP (fun pending => pending.future.isNone) +
        3 * (iteration.pending.length + upcoming.length) + 1 := by
  obtain ⟨added, pending, fresh, ⟨raised, _, blockId, member, unknown⟩ |
    ⟨waiting, _, same⟩⟩ := submits.reads
  · obtain ⟨block, entry, listed, _⟩ := readable blockId member
    rw [unknown] at listed
    cases listed
  · have running : added.countP (fun pending => pending.future.isNone) = added.length :=
      List.countP_eq_length.mpr fun other member => by simp [(fresh other member).1]
    have total := congrArg List.length same
    simp only [List.length_append, List.length_map] at total
    simp only [Iteration.work, waiting, Phase.nextIds, pending, List.length_append,
      List.countP_append, running, List.length_nil]
    omega

theorem length_head?_add_tail {α : Type} (items : List α) :
    items.head?.toList.length + items.tail.length = items.length := by
  cases items with
  | nil => rfl
  | cons head tail => exact Nat.add_comm _ _

/-- Every busy event of a delivering iteration uses up some of its work. -/
theorem Advance.work
    (advance : Advance source index iteration heap free event after nextHeap nextFree)
    (sound : iteration.Sound source heap)
    (readable : ∀ blockId ∈ iteration.upcoming, source.Readable iteration.layer blockId)
    (live : iteration.pending ≠ [] → iteration.phase = .waiting ∨
      ∃ slot nextId, iteration.phase = .yielded slot nextId)
    (own : event.drives index = true) :
    after.work + (if event.busy then 1 else 0) ≤ iteration.work := by
  cases advance with
  | start created started =>
      obtain ⟨unread, unsubmitted, _⟩ := sound.fresh created
      have ahead := (Iteration.start_submits created unread started).ahead (by
        simpa [Iteration.upcoming, unsubmitted, created, Phase.nextIds] using readable)
      simp only [unsubmitted, List.length_nil, List.countP_nil] at ahead
      simp only [Iteration.work, created, unsubmitted, Phase.nextIds, List.length_nil,
        List.countP_nil, LoaderEvent.busy, if_true] at ahead ⊢
      omega
  | @resume slot nextId _ _ yielded resumed =>
      have ahead := (Iteration.resume_submits resumed).ahead (by
        intro blockId member
        refine readable blockId ?_
        rw [Iteration.upcoming, yielded, List.append_assoc]
        exact List.mem_append_right _ member)
      rw [List.length_append] at ahead
      have before : iteration.work = 2 * iteration.pending.length +
          iteration.pending.countP (fun pending => pending.future.isNone) +
          3 * (nextId.toList.length + iteration.source.length) + 2 := by
        simp only [Iteration.work, yielded, Phase.nextIds]
      simp only [LoaderEvent.busy, if_true]
      omega
  | take waiting taken =>
      rcases Iteration.take_cases taken with ⟨none, rfl, _⟩ |
        ⟨front, rest, outcome, raw, pending, settled, _, ⟨raised, _, rfl, _⟩ |
          ⟨viewed, block, _, _, _, rfl⟩⟩
      · simp [Iteration.work, waiting, LoaderEvent.busy]
      · simp [Iteration.work, waiting, LoaderEvent.busy]
      · have split := length_head?_add_tail iteration.source
        simp only [Iteration.work, waiting, pending, Phase.nextIds, List.length_cons,
          List.countP_cons, settled, LoaderEvent.busy, List.length_nil, Option.isNone_some,
          if_true]
        simp only [Bool.false_eq_true, if_false]
        omega
  | close suspended => simp [LoaderEvent.drives] at own
  | scribble here running slot sized => simp [LoaderEvent.busy]
  | @finish read position pending raw filled outcome here running slot ended =>
      have settles : (iteration.settle read pending outcome).pending.countP
            (fun pending => pending.future.isNone) + 1 =
          iteration.pending.countP (fun pending => pending.future.isNone) := by
        obtain ⟨inside, same⟩ := List.getElem?_eq_some_iff.mp here
        have counted : 0 < iteration.pending.countP (fun pending => pending.future.isNone) :=
          List.countP_pos_iff.mpr ⟨pending, List.mem_of_getElem? here, by simp [running]⟩
        rw [Iteration.settle, List.countP_set inside, same]
        simp only [running, Option.isNone_none, Option.isNone_some, if_true]
        simp
        omega
      have length : (iteration.settle read pending outcome).pending.length =
          iteration.pending.length := by simp [Iteration.settle]
      have phase : (iteration.settle read pending outcome).phase = iteration.phase := rfl
      have ids : (iteration.settle read pending outcome).source = iteration.source := rfl
      rcases live (List.ne_nil_of_mem (List.mem_of_getElem? here)) with waiting |
        ⟨slot, nextId, yielded⟩
      · simp only [Iteration.work, phase, waiting, length, ids, LoaderEvent.busy, if_true]
        omega
      · simp only [Iteration.work, phase, yielded, length, ids, LoaderEvent.busy, if_true]
        omega

/-- The free slots and those of the iteration are all slots, and the iteration has
not started or delivers. -/
structure Piped (source : LoaderStore) (depth : Nat) (layer : Int) (blockIds : List Int)
    (heap : List Buffer) (free : List Nat) (iteration : Iteration) : Prop where
  full : (free ++ iteration.slots).Perm (List.range depth)
  stage : (iteration.phase = .created ∧ iteration.layer = layer ∧
      iteration.blockIds = blockIds) ∨
    Delivering source depth layer blockIds heap iteration ∧ iteration.phase ≠ .closed

theorem Piped.inside (piped : Piped source depth layer blockIds heap free iteration) :
    ∀ pending ∈ iteration.pending, pending.slot < depth := by
  intro pending member
  have present : pending.slot ∈ free ++ iteration.slots :=
    List.mem_append_right _ (List.mem_append_left _ (List.mem_map_of_mem member))
  exact List.mem_range.mp (piped.full.mem_iff.mp present)

theorem Piped.layer_eq (piped : Piped source depth layer blockIds heap free iteration) :
    iteration.layer = layer := by
  rcases piped.stage with ⟨_, same, _⟩ | ⟨delivering, _⟩
  · exact same
  · exact delivering.layer_eq

theorem Piped.live (piped : Piped source depth layer blockIds heap free iteration)
    (sound : iteration.Sound source heap) (reading : iteration.pending ≠ []) :
    iteration.phase = .waiting ∨ ∃ slot nextId, iteration.phase = .yielded slot nextId := by
  rcases piped.stage with ⟨created, _⟩ | ⟨delivering, notClosed⟩
  · exact absurd (sound.fresh created).2.1 reading
  · cases phase : iteration.phase with
    | created => exact absurd phase delivering.active.1
    | waiting => exact Or.inl rfl
    | yielded slot nextId => exact Or.inr ⟨slot, nextId, rfl⟩
    | finished =>
        have none := delivering.finished phase
        simp [Iteration.upcoming, reading] at none
    | raised raised => exact absurd phase (delivering.active.2 raised)
    | closed => exact absurd phase notClosed

theorem Piped.upcoming_readable
    (piped : Piped source depth layer blockIds heap free iteration)
    (sound : iteration.Sound source heap)
    (readable : ∀ blockId ∈ blockIds, source.Readable layer blockId) :
    ∀ blockId ∈ iteration.upcoming, source.Readable iteration.layer blockId := by
  intro blockId member
  rw [piped.layer_eq]
  refine readable blockId ?_
  rcases piped.stage with ⟨created, _, rfl⟩ | ⟨delivering, notClosed⟩
  · obtain ⟨unread, unsubmitted, _⟩ := sound.fresh created
    simpa [Iteration.upcoming, created, unsubmitted, unread, Phase.nextIds] using member
  · obtain ⟨done, rest, split, _, upcoming⟩ := delivering.reads
    rw [split, upcoming notClosed]
    exact List.mem_append_right _ member

theorem Advance.not_closed
    (advance : Advance source index iteration heap free event after nextHeap nextFree)
    (sound : iteration.Sound source heap) (notClosed : iteration.phase ≠ .closed)
    (own : event.drives index = true) : after.phase ≠ .closed := by
  have submitted : ∀ {upcoming count}, Submits source upcoming count iteration after →
      after.phase ≠ .closed := by
    intro upcoming count submits
    obtain ⟨_, _, _, ⟨raised, failed, _⟩ | ⟨waiting, _⟩⟩ := submits.reads
    · simp [failed]
    · simp [waiting]
  cases advance with
  | start created started =>
      exact submitted (Iteration.start_submits created (sound.fresh created).1 started)
  | resume yielded resumed => exact submitted (Iteration.resume_submits resumed)
  | take waiting taken =>
      rcases Iteration.take_cases taken with ⟨_, rfl, _⟩ |
        ⟨front, rest, outcome, raw, _, _, _, ⟨raised, _, rfl, _⟩ |
          ⟨viewed, block, _, _, _, rfl⟩⟩
      · simp
      · simp
      · simp
  | close suspended => simp [LoaderEvent.drives] at own
  | scribble here running slot sized => exact notClosed
  | finish here running slot ended => exact notClosed

theorem Advance.piped
    (advance : Advance source index iteration heap free event after nextHeap nextFree)
    (piped : Piped source depth layer blockIds heap free iteration)
    (sound : iteration.Sound source heap) (buffers : source.Slots depth heap)
    (readable : ∀ blockId ∈ blockIds, source.Readable layer blockId)
    (positive : 0 < depth) (own : event.drives index = true) :
    Piped source depth layer blockIds nextHeap nextFree after := by
  have notClosed : after.phase ≠ .closed := by
    refine advance.not_closed sound ?_ own
    rcases piped.stage with ⟨created, _⟩ | ⟨_, notClosed⟩
    · simp [created]
    · exact notClosed
  have delivering : Delivering source depth layer blockIds nextHeap after := by
    rcases piped.stage with ⟨created, rfl, rfl⟩ | ⟨delivering, _⟩
    · cases advance with
      | start _ started =>
          obtain ⟨_, unsubmitted, _⟩ := sound.fresh created
          have room : free ≠ [] := by
            intro none
            have full := piped.full.length_eq
            simp [none, Iteration.slots, unsubmitted, created] at full
            omega
          exact Iteration.start_delivering sound created readable (Or.inr room) started
      | resume yielded resumed => simp [created] at yielded
      | take waiting taken => simp [created] at waiting
      | close suspended => simp [LoaderEvent.drives] at own
      | scribble here running slot sized =>
          rw [(sound.fresh created).2.1] at here
          simp at here
      | finish here running slot ended =>
          rw [(sound.fresh created).2.1] at here
          simp at here
    · exact advance.delivering delivering sound buffers piped.inside readable
  obtain ⟨lost, moved, loses⟩ := advance.moves
  have kept : lost = [] :=
    loses (Phase.failed_eq_false.mpr ⟨delivering.active.2, notClosed⟩)
  rw [kept, List.append_nil] at moved
  exact ⟨moved.trans piped.full, Or.inr ⟨delivering, notClosed⟩⟩

theorem Advance.index_eq {other : Nat}
    (advance : Advance source other iteration heap free event after nextHeap nextFree)
    (own : event.drives index = true) : other = index := by
  cases advance <;> simp_all [LoaderEvent.drives]

/-- The loader is in a reachable state and its iteration `index` is piped. -/
structure Driven (source : LoaderStore) (depth : Nat) (layer : Int) (blockIds : List Int)
    (index : Nat) (loader : Loader) : Prop where
  invariant : loader.Inv source depth
  current : ∃ iteration, loader.iterations[index]? = some iteration ∧
    Piped source depth layer blockIds loader.heap loader.free iteration

/-- The work of the iteration `index`. -/
def Loader.work (index : Nat) (loader : Loader) : Nat :=
  (loader.iterations[index]?.map Iteration.work).getD 0

theorem Driven.step {loader next : Loader}
    (driven : Driven source depth layer blockIds index loader)
    (readable : ∀ blockId ∈ blockIds, source.Readable layer blockId)
    (positive : 0 < depth) (own : event.drives index = true)
    (happens : loader.step source event = some next) :
    Driven source depth layer blockIds index next ∧
      next.work index + (if event.busy then 1 else 0) ≤ loader.work index := by
  obtain ⟨invariant, iteration, here, piped⟩ := driven
  have sound := invariant.sound _ (List.mem_of_getElem? here)
  have later := invariant.step happens
  rcases Loader.step_cases happens with ⟨_, _, rfl, _⟩ |
    ⟨other, moving, after, heap, free, moves, advance, rfl⟩
  · simp [LoaderEvent.drives] at own
  · cases advance.index_eq own
    rw [here] at moves
    cases moves
    obtain ⟨present, _⟩ := List.getElem?_eq_some_iff.mp here
    have set : (loader.iterations.set index after)[index]? = some after :=
      List.getElem?_set_self present
    refine ⟨⟨later, after, set,
      advance.piped piped sound invariant.buffers readable positive own⟩, ?_⟩
    simp only [Loader.work, set, here, Option.map_some, Option.getD_some]
    exact advance.work sound (piped.upcoming_readable sound readable) (piped.live sound) own

variable (source iteration free) in
theorem Iteration.resume_total (slot : Nat) (nextId : Option Int) :
    ∃ after nextFree, iteration.resume source slot nextId free = some (after, nextFree) := by
  unfold Iteration.resume
  cases nextId with
  | none => exact ⟨_, _, rfl⟩
  | some blockId =>
      obtain ⟨front, rest, ahead⟩ :=
        List.exists_cons_of_ne_nil (by simp : free ++ [slot] ≠ [])
      rw [ahead]
      cases listed : source.store.entry iteration.layer blockId with
      | error raised =>
          simp only [Iteration.submit, listed]
          exact ⟨_, _, rfl⟩
      | ok entry =>
          simp only [Iteration.submit, listed]
          exact ⟨_, _, rfl⟩

variable (source) in
theorem Iteration.take_total {front : Pending} {rest : List Pending} {raw : Buffer}
    {outcome : Except PyError Unit} (pending : iteration.pending = front :: rest)
    (settled : front.future = some outcome) (here : heap[front.slot]? = some raw) :
    ∃ after nextHeap, iteration.take source heap = some (after, nextHeap) := by
  unfold Iteration.take
  rcases outcome with raised | ⟨⟩
  · simp only [pending, settled, here]
    exact ⟨_, _, rfl⟩
  · simp only [pending, settled, here]
    cases decodeSlot source.crc32 source.spec raw front.entry with
    | error raised => exact ⟨_, _, rfl⟩
    | ok viewed => exact ⟨_, _, rfl⟩

variable (source) in
theorem Loader.next_ready {loader : Loader}
    (here : loader.iterations[index]? = some iteration)
    (suspended : iteration.phase = .created ∨
      ∃ slot nextId, iteration.phase = .yielded slot nextId) :
    ∃ next, loader.step source (.next index) = some next := by
  rcases suspended with created | ⟨slot, nextId, yielded⟩
  · obtain ⟨after, nextFree, started⟩ :=
      Iteration.start_total source iteration loader.free
    exact ⟨_, Advance.happens here (.start created started)⟩
  · obtain ⟨after, nextFree, resumed⟩ :=
      Iteration.resume_total source iteration loader.free slot nextId
    exact ⟨_, Advance.happens here (.resume yielded resumed)⟩

/-- While the iteration has not ended, some busy event can happen. -/
theorem Driven.progress {loader : Loader}
    (driven : Driven source depth layer blockIds index loader)
    (here : loader.iterations[index]? = some iteration)
    (unfinished : iteration.phase ≠ .finished) :
    ∃ event next, event.drives index = true ∧ event.busy = true ∧
      loader.step source event = some next := by
  obtain ⟨invariant, _, same, piped⟩ := driven
  rw [here] at same
  cases same
  have suspended : ∀ suspended : iteration.phase = .created ∨
      ∃ slot nextId, iteration.phase = .yielded slot nextId,
      ∃ event next, event.drives index = true ∧ event.busy = true ∧
        loader.step source event = some next := by
    intro suspended
    obtain ⟨next, happens⟩ := Loader.next_ready source here suspended
    exact ⟨.next index, next, by simp [LoaderEvent.drives], rfl, happens⟩
  cases phase : iteration.phase with
  | created => exact suspended (Or.inl phase)
  | yielded slot nextId => exact suspended (Or.inr ⟨slot, nextId, phase⟩)
  | finished => exact absurd phase unfinished
  | raised raised =>
      rcases piped.stage with ⟨created, _⟩ | ⟨delivering, _⟩
      · simp [created] at phase
      · exact absurd phase (delivering.active.2 raised)
  | closed =>
      rcases piped.stage with ⟨created, _⟩ | ⟨_, notClosed⟩
      · simp [created] at phase
      · exact absurd phase notClosed
  | waiting =>
      cases pending : iteration.pending with
      | nil =>
          have taken : iteration.take source loader.heap =
              some ({ iteration with phase := .finished }, loader.heap) := by
            simp [Iteration.take, pending]
          exact ⟨_, _, by simp [LoaderEvent.drives], rfl,
            Advance.happens here (.take phase taken)⟩
      | cons front rest =>
          obtain ⟨raw, slot, _⟩ :=
            invariant.buffers front.slot (piped.inside front (by simp [pending]))
          cases settled : front.future with
          | none =>
              exact ⟨.finish index 0 0, _, by simp [LoaderEvent.drives], rfl,
                Advance.happens here (.finish (by simp [pending]) settled slot rfl)⟩
          | some outcome =>
              obtain ⟨after, heap, taken⟩ := Iteration.take_total source pending settled slot
              exact ⟨_, _, by simp [LoaderEvent.drives], rfl,
                Advance.happens here (.take phase taken)⟩

/-- Some run of events of the iteration brings it to its end. -/
theorem Driven.finishes {loader : Loader}
    (driven : Driven source depth layer blockIds index loader)
    (readable : ∀ blockId ∈ blockIds, source.Readable layer blockId) (positive : 0 < depth) :
    ∃ events final, (∀ event ∈ events, event.drives index = true) ∧
      Transition.run (Loader.step source) loader events = some final ∧
      ∃ iteration, final.iterations[index]? = some iteration ∧ iteration.phase = .finished := by
  obtain ⟨events, final, own, reached, _, ended⟩ := @Transition.exists_run_until _ _
    (Loader.step source) (Driven source depth layer blockIds index)
    (fun state => ∃ iteration, state.iterations[index]? = some iteration ∧
      iteration.phase = .finished)
    (fun event => event.drives index = true) (Loader.work index)
    (fun state event next drives driven happens =>
      (driven.step readable positive drives happens).1)
    (by
      intro state driven
      obtain ⟨iteration, here, _⟩ := driven.current
      by_cases ended : iteration.phase = .finished
      · exact Or.inl ⟨iteration, here, ended⟩
      · right
        obtain ⟨event, next, drives, busy, happens⟩ := driven.progress here ended
        have less := (driven.step readable positive drives happens).2
        rw [busy, if_pos rfl] at less
        exact ⟨event, next, drives, happens, less⟩)
    loader driven
  exact ⟨events, final, own, reached, ended⟩

/-- A block is determined by its store and its id. -/
theorem LoaderStore.ReadsAs.unique {blockId : Int} {block other : PackedKVBlock}
    {raw : Buffer} (slot : source.SlotBuffer raw)
    (reads : source.ReadsAs layer blockId block)
    (readsOther : source.ReadsAs layer blockId other) : block = other := by
  obtain ⟨entry, listed, whatever⟩ := reads
  obtain ⟨_, listedOther, whateverOther⟩ := readsOther
  rw [listed] at listedOther
  cases listedOther
  obtain ⟨filled, read, decoded⟩ := whatever 0 raw slot
  obtain ⟨_, readOther, decodedOther⟩ := whateverOther 0 raw slot
  rw [read] at readOther
  cases readOther
  rw [decoded] at decodedOther
  cases decodedOther
  rfl

theorem Yields.map_deref {ids : List Int} {refs : List BlockRef}
    {blocks : List PackedKVBlock} {raw : Buffer} (slot : source.SlotBuffer raw)
    (yields : List.Forall₂ (source.Yields depth heap layer) ids refs)
    (reads : List.Forall₂ (source.ReadsAs layer) ids blocks) :
    refs.map (fun ref => ref.deref source.spec heap) = blocks.map .ok := by
  induction yields generalizing blocks with
  | nil =>
      cases reads
      rfl
  | cons head _ induction =>
      cases reads with
      | cons read reads =>
          obtain ⟨block, readsAs, denotes⟩ := head.denotes
          rw [List.map_cons, List.map_cons, denotes, readsAs.unique slot read,
            induction reads]

/-- What holds at every moment of an iteration over `blocks`. -/
structure Pipe (source : LoaderStore) (depth index : Nat) (blocks : List PackedKVBlock)
    (loader : Loader) (iteration : Iteration) : Prop where
  /-- Every slot is free, under a read, or held for the consumer. -/
  partition : (loader.free ++ iteration.pending.map Pending.slot ++
    iteration.phase.held).Perm (List.range depth)
  outstanding : iteration.pending.length ≤ depth
  apart : (iteration.pending.map Pending.slot).Nodup
  heldApart : ∀ slot ∈ iteration.phase.held, slot ∉ iteration.pending.map Pending.slot
  /-- The blocks received so far, as they are now. -/
  received : iteration.received.map (fun ref => ref.deref source.spec loader.heap) =
    (blocks.take iteration.received.length).map .ok
  quiet : ∀ raised, iteration.phase ≠ .raised raised
  /-- `free.get()` does not wait. -/
  ready : (iteration.phase = .created ∨
      ∃ slot nextId, iteration.phase = .yielded slot nextId) →
    ∃ next, loader.step source (.next index) = some next
  /-- Some event other than a partial write can happen until the end. -/
  progress : iteration.phase ≠ .finished → ∃ event next, event.drives index = true ∧
    event.busy = true ∧ loader.step source event = some next
  exhausted : iteration.phase = .finished →
    iteration.received.length = blocks.length ∧ loader.free.Perm (List.range depth)

theorem Driven.pipe {loader : Loader} {blocks : List PackedKVBlock}
    (driven : Driven source depth layer blockIds index loader)
    (reads : List.Forall₂ (source.ReadsAs layer) blockIds blocks)
    (positive : 0 < depth) :
    ∃ iteration, loader.iterations[index]? = some iteration ∧
      Pipe source depth index blocks loader iteration := by
  have whole := driven
  obtain ⟨invariant, iteration, here, piped⟩ := driven
  have partition := piped.full
  rw [Iteration.slots, ← List.append_assoc] at partition
  have distinct := partition.nodup_iff.mpr List.nodup_range
  obtain ⟨distinctReads, _, heldApart⟩ := List.nodup_append.mp distinct
  obtain ⟨_, apart, _⟩ := List.nodup_append.mp distinctReads
  have received : ∃ done rest, blockIds = done ++ rest ∧
      List.Forall₂ (source.Yields depth loader.heap layer) done iteration.received ∧
      (iteration.phase = .finished → rest = []) := by
    rcases piped.stage with ⟨created, _⟩ | ⟨delivering, _⟩
    · have none := ((invariant.sound _ (List.mem_of_getElem? here)).fresh created).2.2
      exact ⟨[], blockIds, rfl, none ▸ .nil, by simp [created]⟩
    · obtain ⟨done, rest, split, received, upcoming⟩ := delivering.reads
      exact ⟨done, rest, split, received, fun finished =>
        (upcoming (by simp [finished])).trans (delivering.finished finished)⟩
  obtain ⟨done, rest, split, received, complete⟩ := received
  have count := received.length_eq
  obtain ⟨raw, _, slot⟩ := invariant.buffers 0 positive
  refine ⟨iteration, here, partition, ?_, apart, ?_, ?_, ?_, Loader.next_ready source here,
    whole.progress here, ?_⟩
  · have length := partition.length_eq
    simp only [List.length_append, List.length_map, List.length_range] at length
    omega
  · intro held member under
    exact heldApart held (List.mem_append_right _ under) held member rfl
  · have front : List.Forall₂ (source.ReadsAs layer) done
        (blocks.take iteration.received.length) := by
      have taken := List.forall₂_take done.length reads
      rwa [split, List.take_left, count] at taken
    exact Yields.map_deref slot received front
  · rcases piped.stage with ⟨created, _⟩ | ⟨delivering, _⟩
    · simp [created]
    · exact delivering.active.2
  · intro finished
    have ids := reads.length_eq
    rw [split, complete finished, List.append_nil, count] at ids
    refine ⟨ids, ?_⟩
    have unsubmitted : iteration.pending = [] := by
      by_contra reading
      rcases piped.live (invariant.sound _ (List.mem_of_getElem? here)) reading with
        waiting | ⟨_, _, yielded⟩
      · simp [finished] at waiting
      · simp [finished] at yielded
    simpa [unsubmitted, finished] using partition

/-- An iteration over readable blocks that finds all slots free and is the only one
that runs is a pipe at every moment, and it has at most three busy events for each
block. -/
theorem iteration_pipe {depth : Int} {first start loader : Loader}
    {history events : List LoaderEvent} {blocks : List PackedKVBlock}
    (made : Loader.init source depth = .ok first)
    (reached : Transition.run (Loader.step source) first history = some start)
    (free : start.free.Perm (List.range depth.toNat))
    (reads : List.Forall₂ (source.ReadsAs layer) blockIds blocks)
    (own : ∀ event ∈ events, event.drives start.iterations.length = true)
    (runs : Transition.run (Loader.step source) start
      (.iterBlocks layer blockIds :: events) = some loader) :
    (∃ iteration, loader.iterations[start.iterations.length]? = some iteration ∧
      Pipe source depth.toNat start.iterations.length blocks loader iteration) ∧
      events.countP LoaderEvent.busy ≤ 3 * blockIds.length + 2 := by
  have positive : 0 < depth.toNat := by
    have atLeast := (Loader.init_cases made).1
    omega
  have readable : ∀ blockId ∈ blockIds, source.Readable layer blockId := by
    intro blockId member
    obtain ⟨position, inside, rfl⟩ := List.getElem_of_mem member
    exact ⟨_, List.forall₂_iff_get.mp reads |>.2 position inside
      (by rw [← reads.length_eq]; exact inside)⟩
  obtain ⟨created, makes, runs⟩ := Transition.run_cons.mp runs
  have invariant := (Loader.inv_of_reachable made reached).step makes
  cases makes
  have fresh : Driven source depth.toNat layer blockIds start.iterations.length
      ⟨start.heap, start.free,
        start.iterations ++ [⟨layer, blockIds, blockIds, [], .created, []⟩]⟩ :=
    ⟨invariant, _, List.getElem?_concat_length .., by simpa [Iteration.slots] using free,
      Or.inl ⟨rfl, rfl, rfl⟩⟩
  have preserved : ∀ state event next, event.drives start.iterations.length = true →
      Driven source depth.toNat layer blockIds start.iterations.length state →
      Loader.step source state event = some next →
      Driven source depth.toNat layer blockIds start.iterations.length next :=
    fun state event next drives driven happens =>
      (driven.step readable positive drives happens).1
  constructor
  · exact (Transition.invariant_of_allowed_run preserved own fresh runs).pipe reads positive
  · have bound := Transition.busy_le_measure LoaderEvent.busy
      (Loader.work start.iterations.length) preserved
      (fun state event next drives driven happens =>
        (driven.step readable positive drives happens).2) own fresh runs
    have initially : Loader.work start.iterations.length
        ⟨start.heap, start.free,
          start.iterations ++ [⟨layer, blockIds, blockIds, [], .created, []⟩]⟩ =
        3 * blockIds.length + 2 := by
      simp [Loader.work, Iteration.work, Phase.nextIds]
    omega

end Pipe

/-- A store of two blocks. -/
def pairSource (device : Option Device) (first second : Bytes) : LoaderStore :=
  { crc32 := Zlib.crc32
    memory := zeroMemory
    file := first ++ second
    store := ⟨⟨tinySpec, [⟨0, 0, 0, 4096, 1, 0⟩, ⟨0, 1, 4096, 4096, 1, 0⟩], 1⟩, .buffered⟩
    device }

theorem init_pairSource (device : Option Device) (first second : Bytes) :
    Loader.init (pairSource device first second) 2 = .ok ⟨[tinySlot, tinySlot], [0, 1], []⟩ := rfl

section Pair

variable (device : Option Device) {first second : Bytes}
  (zero : TinyRecord Zlib.crc32 (numberedBlock 0) first)
  (one : TinyRecord Zlib.crc32 (numberedBlock 1) second)

include zero one

theorem readsAs_pairSource :
    (pairSource device first second).ReadsAs 0 0 (numberedBlock 0) ∧
      (pairSource device first second).ReadsAs 0 1 (numberedBlock 1) := by
  have front : recordAt (first ++ second) ⟨0, 0, 0, 4096, 1, 0⟩ = first :=
    List.take_left' zero.length
  have back : recordAt (first ++ second) ⟨0, 1, 4096, 4096, 1, 0⟩ = second := by
    rw [recordAt]
    simp only [Int.reduceToNat]
    rw [List.drop_left' zero.length]
    exact List.take_of_length_le one.length.le
  have accepts : (pairSource device first second).AcceptsSlots := by
    intro gds
    cases gds
  have buffered : (pairSource device first second).store.kind = .buffered := rfl
  constructor
  · refine LoaderStore.readsAs_of_record accepts
      (rfl : (pairSource device first second).store.entry 0 0 = .ok ⟨0, 0, 0, 4096, 1, 0⟩) rfl
      ⟨by decide, ?_, fun other => absurd buffered other, fun _ => by decide⟩ ?_
    · rw [pairSource, front, zero.length]
      rfl
    · rw [if_neg (by simp [pairSource]), pairSource, front]
      exact zero.decodes
  · refine LoaderStore.readsAs_of_record accepts
      (rfl : (pairSource device first second).store.entry 0 1 = .ok ⟨0, 1, 4096, 4096, 1, 0⟩) rfl
      ⟨by decide, ?_, fun other => absurd buffered other, fun _ => by decide⟩ ?_
    · rw [pairSource, back, one.length]
      rfl
    · rw [if_neg (by simp [pairSource]), pairSource, back]
      exact one.decodes

end Pair

/-- Three ids, one of them twice, through two slots to the end. -/
theorem iteration_pipe_tiny :
    ∃ source events loader iteration,
      Transition.run (Loader.step source) ⟨[tinySlot, tinySlot], [0, 1], []⟩
        (.iterBlocks 0 [0, 1, 0] :: events) = some loader ∧
      loader.iterations[0]? = some iteration ∧ iteration.phase = .finished ∧
      iteration.received.length = 3 ∧
      Pipe source 2 0 [numberedBlock 0, numberedBlock 1, numberedBlock 0] loader iteration ∧
      events.countP LoaderEvent.busy ≤ 11 := by
  obtain ⟨first, zero⟩ := numberedRecord_exists Zlib.crc32 (by decide : FitsU32 0)
  obtain ⟨second, one⟩ := numberedRecord_exists Zlib.crc32 (by decide : FitsU32 1)
  obtain ⟨readsZero, readsOne⟩ := readsAs_pairSource none zero one
  have made := init_pairSource none first second
  have invariant := Loader.inv_of_reachable made
    (rfl : Transition.run (Loader.step (pairSource none first second))
      ⟨[tinySlot, tinySlot], [0, 1], []⟩ [.iterBlocks 0 [0, 1, 0]] = some
        ⟨[tinySlot, tinySlot], [0, 1], [⟨0, [0, 1, 0], [0, 1, 0], [], .created, []⟩]⟩)
  have driven : Driven (pairSource none first second) 2 0 [0, 1, 0] 0
      ⟨[tinySlot, tinySlot], [0, 1], [⟨0, [0, 1, 0], [0, 1, 0], [], .created, []⟩]⟩ :=
    ⟨invariant, _, rfl, List.Perm.refl _, Or.inl ⟨rfl, rfl, rfl⟩⟩
  have readable : ∀ blockId ∈ [(0 : Int), 1, 0],
      (pairSource none first second).Readable 0 blockId := by
    simp only [List.forall_mem_cons, List.not_mem_nil, false_imp_iff, implies_true, and_true]
    exact ⟨⟨_, readsZero⟩, ⟨_, readsOne⟩, ⟨_, readsZero⟩⟩
  obtain ⟨events, final, own, reached, iteration, here, ended⟩ :=
    driven.finishes readable (by decide)
  obtain ⟨⟨other, same, pipe⟩, bound⟩ := iteration_pipe made
    (rfl : Transition.run (Loader.step (pairSource none first second))
      ⟨[tinySlot, tinySlot], [0, 1], []⟩ [] = some ⟨[tinySlot, tinySlot], [0, 1], []⟩)
    (List.Perm.refl _) (.cons readsZero (.cons readsOne (.cons readsZero .nil))) own
    (Transition.run_cons.mpr ⟨_, rfl, reached⟩)
  rw [show ([] : List Iteration).length = 0 from rfl, here] at same
  cases same
  exact ⟨pairSource none first second, events, final, iteration,
    Transition.run_cons.mpr ⟨_, rfl, reached⟩, here, ended, (pipe.exhausted ended).1, pipe, bound⟩

end KVSSD

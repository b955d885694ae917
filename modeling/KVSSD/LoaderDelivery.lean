import KVSSD.LoaderInvariant

/-!
# What an iteration delivers

An iteration over readable blocks never raises, and what its consumer has
received are detached copies of the first blocks it was asked for.  Whether it
delivers all of them depends on one thing only: that it found a free slot when it
started.  With every slot taken the priming loop submits nothing and the
generator ends as if it had been exhausted.
-/

namespace KVSSD

open KVSSD.Python KVSSD.Struct

/-- The block is listed, every read of it into a slot succeeds, and the slot then
decodes to `block`. -/
def LoaderStore.ReadsAs (source : LoaderStore) (layer blockId : Int)
    (block : PackedKVBlock) : Prop :=
  ∃ entry, source.store.entry layer blockId = .ok entry ∧
    ∀ position before, source.SlotBuffer before → ∃ filled,
      source.backend.readInto position entry before = (filled, .ok ()) ∧
        decodeSlot source.crc32 source.spec filled entry = .ok block

def LoaderStore.Readable (source : LoaderStore) (layer blockId : Int) : Prop :=
  ∃ block, source.ReadsAs layer blockId block

/-- An entry of a whole record that its decoder accepts is readable. -/
theorem LoaderStore.readsAs_of_record {source : LoaderStore} {layer blockId : Int}
    {entry : BlockEntry} {block : PackedKVBlock} (accepts : source.AcceptsSlots)
    (listed : source.store.entry layer blockId = .ok entry)
    (length : entry.length = source.spec.recordBytes)
    (readable : source.store.kind.Readable source.file entry)
    (decoded : (if source.store.kind = .gds
      then decodeDeviceRecord source.spec (recordAt source.file entry) entry
      else decodeRecord source.crc32 (recordAt source.file entry) source.spec true) =
        .ok block) :
    source.ReadsAs layer blockId block := by
  refine ⟨entry, listed, ?_⟩
  intro position before slot
  have sized : 0 ≤ entry.length := by
    have beforeLength := slot.length
    omega
  have placed := (StorageKind.place_of_nonneg readable.offset :
    source.store.kind.place position entry = entry)
  refine ⟨before.fill (recordAt source.file entry),
    (StorageKind.readInto_eq_ok (length ▸ slot.serves accepts) sized).mpr
      (by rw [placed]; exact ⟨readable, rfl⟩), ?_⟩
  have bytes : (before.fill (recordAt source.file entry)).bytes =
      recordAt source.file entry := by
    have whole := readable.whole
    have beforeLength := slot.length
    simp only [Buffer.fill]
    rw [List.drop_eq_nil_of_le (by omega), List.append_nil]
  have device : (before.fill (recordAt source.file entry)).device =
      if source.store.kind = .gds then .cuda else .cpu := (slot.serves accepts).device
  rw [decodeSlot, device, bytes]
  by_cases gds : source.store.kind = .gds
  · simpa [gds] using decoded
  · simpa [gds] using decoded

/-- The reference is a copy of the block outside of the slots. -/
structure LoaderStore.Yields (source : LoaderStore) (depth : Nat) (heap : List Buffer)
    (layer blockId : Int) (ref : BlockRef) : Prop where
  detached : ref.Detached depth heap
  denotes : ∃ block, source.ReadsAs layer blockId block ∧
    ref.deref source.spec heap = .ok block

theorem LoaderStore.Yields.of_extends {source : LoaderStore} {depth : Nat}
    {heap nextHeap : List Buffer} {layer blockId : Int} {ref : BlockRef}
    (yields : source.Yields depth heap layer blockId ref)
    (grows : HeapExtends depth heap nextHeap) :
    source.Yields depth nextHeap layer blockId ref := by
  obtain ⟨block, reads, same⟩ := yields.denotes
  obtain ⟨detached, kept⟩ := yields.detached.deref source.spec grows
  exact ⟨detached, block, reads, kept.trans same⟩

/-- The block that the next `next` submits. -/
def Phase.nextIds : Phase → List Int
  | .yielded _ nextId => nextId.toList
  | _ => []

/-- The blocks that are still to come. -/
def Iteration.upcoming (iteration : Iteration) : List Int :=
  iteration.pending.map (fun pending => pending.entry.block) ++
    iteration.phase.nextIds ++ iteration.source

/-- The iteration has delivered the front of `blockIds` and has the rest in
hand. -/
structure Delivering (source : LoaderStore) (depth : Nat) (layer : Int)
    (blockIds : List Int) (heap : List Buffer) (iteration : Iteration) : Prop where
  layer_eq : iteration.layer = layer
  active : iteration.phase ≠ .created ∧ ∀ raised, iteration.phase ≠ .raised raised
  reads : ∃ done rest, blockIds = done ++ rest ∧
    List.Forall₂ (source.Yields depth heap layer) done iteration.received ∧
    (iteration.phase ≠ .closed → rest = iteration.upcoming)
  drained : iteration.phase = .waiting → iteration.pending = [] → iteration.source = []
  last : ∀ slot, iteration.phase = .yielded slot none → iteration.source = []
  finished : iteration.phase = .finished → iteration.upcoming = []

section Delivery

variable {source : LoaderStore} {depth index : Nat} {layer : Int} {blockIds : List Int}
  {iteration after : Iteration} {heap nextHeap : List Buffer} {free nextFree : List Nat}
  {event : LoaderEvent}

theorem Delivering.of_extends
    (delivering : Delivering source depth layer blockIds heap iteration)
    (grows : HeapExtends depth heap nextHeap) :
    Delivering source depth layer blockIds nextHeap iteration := by
  obtain ⟨done, rest, split, received, remaining⟩ := delivering.reads
  exact { delivering with
    reads := ⟨done, rest, split, received.imp fun _ _ yields => yields.of_extends grows,
      remaining⟩ }

theorem Submits.waiting {upcoming : List Int} {count : Nat}
    (submits : Submits source upcoming count iteration after)
    (readable : ∀ blockId ∈ upcoming, source.Readable iteration.layer blockId) :
    after.phase = .waiting ∧ ∃ added, added.length = count ∧
      after.pending = iteration.pending ++ added ∧
      added.map (fun pending => pending.entry.block) ++ after.source = upcoming := by
  obtain ⟨added, pending, _, ⟨raised, _, blockId, member, unknown⟩ |
    ⟨waiting, length, same⟩⟩ := submits.reads
  · obtain ⟨block, entry, listed, _⟩ := readable blockId member
    rw [unknown] at listed
    cases listed
  · exact ⟨waiting, added, length, pending, same⟩

/-- An iteration that starts with a free slot, or with nothing to read, starts
delivering. -/
theorem Iteration.start_delivering (sound : iteration.Sound source heap)
    (created : iteration.phase = .created)
    (readable : ∀ blockId ∈ iteration.blockIds, source.Readable iteration.layer blockId)
    (room : iteration.blockIds = [] ∨ free ≠ [])
    (started : iteration.start source free = some (after, nextFree)) :
    Delivering source depth iteration.layer iteration.blockIds heap after := by
  obtain ⟨unread, unsubmitted, unreceived⟩ := sound.fresh created
  have submits := Iteration.start_submits created unread started
  obtain ⟨waiting, added, length, pending, same⟩ :=
    submits.waiting (unread ▸ readable)
  rw [unsubmitted, List.nil_append] at pending
  refine ⟨submits.layer, by simp [waiting], ?_, ?_, by simp [waiting], by simp [waiting]⟩
  · refine ⟨[], iteration.blockIds, rfl, ?_, ?_⟩
    · rw [submits.received, unreceived]
      exact .nil
    · intro _
      simp only [Iteration.upcoming, waiting, Phase.nextIds, List.append_nil, pending]
      rw [same, unread]
  · intro _ none
    rw [pending] at none
    have nothing : iteration.blockIds = [] := by
      rw [none] at length
      rcases room with empty | available
      · exact empty
      · have positive := List.length_pos_iff.mpr available
        rw [← List.length_eq_zero_iff]
        simp only [List.length_nil] at length
        omega
    rw [none, unread, nothing] at same
    simpa using same

/-- A settled read of a delivering iteration succeeded, and its slot decodes to the
block. -/
theorem Delivering.decodes {front : Pending} {rest : List Pending} {raw : Buffer}
    {outcome : Except PyError Unit}
    (delivering : Delivering source depth layer blockIds heap iteration)
    (sound : iteration.Sound source heap)
    (readable : ∀ blockId ∈ blockIds, source.Readable layer blockId)
    (notClosed : iteration.phase ≠ .closed)
    (pending : iteration.pending = front :: rest)
    (settled : front.future = some outcome) (here : heap[front.slot]? = some raw) :
    outcome = .ok () ∧ ∃ block, source.ReadsAs layer front.entry.block block ∧
      decodeSlot source.crc32 source.spec raw front.entry = .ok block := by
  obtain ⟨done, remaining, split, _, upcoming⟩ := delivering.reads
  have member : front.entry.block ∈ blockIds := by
    rw [split, upcoming notClosed, Iteration.upcoming, pending]
    simp
  obtain ⟨block, reads⟩ := readable _ member
  obtain ⟨entry, listed, whatever⟩ := reads
  obtain ⟨known, results⟩ := sound.consistent front (by simp [pending])
  rw [delivering.layer_eq, listed] at known
  cases known
  obtain ⟨position, before, filled, slot, read, holds⟩ := results outcome settled
  obtain ⟨expected, success, decoded⟩ := whatever position before slot
  rw [success] at read
  cases read
  rw [here] at holds
  cases holds
  exact ⟨rfl, block, ⟨_, listed, whatever⟩, decoded⟩

theorem Delivering.take (delivering : Delivering source depth layer blockIds heap iteration)
    (sound : iteration.Sound source heap) (buffers : source.Slots depth heap)
    (readable : ∀ blockId ∈ blockIds, source.Readable layer blockId)
    (waiting : iteration.phase = .waiting)
    (taken : iteration.take source heap = some (after, nextHeap)) :
    Delivering source depth layer blockIds nextHeap after := by
  obtain ⟨done, remaining, split, received, upcoming⟩ := delivering.reads
  have rest : remaining = iteration.pending.map (fun pending => pending.entry.block) ++
      iteration.source := by
    rw [upcoming (by simp [waiting]), Iteration.upcoming, waiting]
    simp [Phase.nextIds]
  rcases Iteration.take_cases taken with ⟨none, rfl, rfl⟩ |
    ⟨front, others, outcome, raw, pending, settled, here, answer⟩
  · have exhausted := delivering.drained waiting none
    have empty : { iteration with phase := .finished }.upcoming = [] := by
      simp [Iteration.upcoming, none, exhausted, Phase.nextIds]
    refine ⟨delivering.layer_eq, by simp, ⟨done, remaining, split, received, ?_⟩,
      by simp, by simp, fun _ => empty⟩
    intro _
    rw [empty, rest, none, exhausted]
    rfl
  · obtain ⟨success, block, reads, decoded⟩ := delivering.decodes sound readable
      (by simp [waiting]) pending settled here
    rcases answer with ⟨raised, failed | ⟨_, failed⟩, _, _⟩ |
      ⟨viewed, ref, _, decodedTo, cloned, rfl⟩
    · rw [success] at failed
      cases failed
    · rw [decoded] at failed
      cases failed
    · rw [decoded] at decodedTo
      cases decodedTo
      have inside : front.slot < heap.length := (List.getElem?_eq_some_iff.mp here).1
      have long : depth ≤ heap.length := by
        by_contra short
        obtain ⟨_, present, _⟩ := buffers heap.length (by omega)
        simp at present
      obtain ⟨added, copy, copied, detached, same⟩ :=
        cloneBlock_spec source.memory (viewRecord source.spec front.slot block)
          (by simp [BlockRef.locations, viewRecord, inside]) long source.spec
      rw [cloned] at copied
      cases copied
      have grows : HeapExtends depth heap (heap ++ added) :=
        HeapExtends.append depth heap added
      have yields : source.Yields depth (heap ++ added) layer front.entry.block ref :=
        ⟨detached, block, reads, same.trans (deref_viewRecord here decoded)⟩
      refine ⟨delivering.layer_eq, by simp, ?_, by simp, ?_, by simp⟩
      · refine ⟨done ++ [front.entry.block],
          others.map (fun pending => pending.entry.block) ++ iteration.source, ?_, ?_, ?_⟩
        · rw [split, rest, pending]
          simp
        · exact List.rel_append (received.imp fun _ _ old => old.of_extends grows)
            (.cons yields .nil)
        · intro _
          cases ids : iteration.source with
          | nil => simp [Iteration.upcoming, Phase.nextIds]
          | cons blockId later => simp [Iteration.upcoming, Phase.nextIds]
      · intro slot lastOne
        simp only [Phase.yielded.injEq, List.head?_eq_none_iff] at lastOne
        simp [lastOne.2]

theorem Delivering.resume {slot : Nat} {nextId : Option Int}
    (delivering : Delivering source depth layer blockIds heap iteration)
    (readable : ∀ blockId ∈ blockIds, source.Readable layer blockId)
    (yielded : iteration.phase = .yielded slot nextId)
    (resumed : iteration.resume source slot nextId free = some (after, nextFree)) :
    Delivering source depth layer blockIds heap after := by
  obtain ⟨done, remaining, split, received, upcoming⟩ := delivering.reads
  have rest := upcoming (by simp [yielded])
  simp only [Iteration.upcoming, yielded, Phase.nextIds] at rest
  have submits := Iteration.resume_submits resumed
  obtain ⟨waiting, added, length, pending, same⟩ := submits.waiting (by
    intro blockId member
    rw [delivering.layer_eq]
    refine readable blockId ?_
    rw [split, rest, List.append_assoc]
    exact List.mem_append_right _ (List.mem_append_right _ member))
  refine ⟨submits.layer.trans delivering.layer_eq, by simp [waiting],
    ⟨done, remaining, split, submits.received ▸ received, ?_⟩, ?_, by simp [waiting],
    by simp [waiting]⟩
  · intro _
    simp only [Iteration.upcoming, waiting, Phase.nextIds, List.append_nil, pending,
      List.map_append, List.append_assoc]
    rw [rest, List.append_assoc, same]
  · intro _ none
    obtain ⟨_, unsubmitted⟩ := List.append_eq_nil_iff.mp (pending ▸ none)
    rw [unsubmitted] at length same
    cases nextId with
    | none =>
        have exhausted := delivering.last slot yielded
        rw [exhausted] at same
        simpa using same
    | some blockId => simp at length

/-- Every event of its own keeps an iteration delivering. -/
theorem Advance.delivering
    (advance : Advance source index iteration heap free event after nextHeap nextFree)
    (delivering : Delivering source depth layer blockIds heap iteration)
    (sound : iteration.Sound source heap) (buffers : source.Slots depth heap)
    (inside : ∀ pending ∈ iteration.pending, pending.slot < depth)
    (readable : ∀ blockId ∈ blockIds, source.Readable layer blockId) :
    Delivering source depth layer blockIds nextHeap after := by
  have grows := advance.heapExtends inside
  cases advance with
  | start created started => exact absurd created delivering.active.1
  | resume yielded resumed => exact delivering.resume readable yielded resumed
  | take waiting taken => exact delivering.take sound buffers readable waiting taken
  | close suspended =>
      obtain ⟨done, remaining, split, received, _⟩ := delivering.reads
      exact ⟨delivering.layer_eq, by simp, ⟨done, remaining, split, received, by simp⟩,
        by simp, by simp, by simp⟩
  | scribble here running slot sized => exact delivering.of_extends grows
  | @finish read position pending raw filled outcome here running slot ended =>
      have grown := delivering.of_extends grows
      have blocks : (iteration.settle read pending outcome).upcoming =
          iteration.upcoming := by
        rw [Iteration.upcoming, Iteration.settle_map here rfl]
        rfl
      obtain ⟨done, remaining, split, received, upcoming⟩ := grown.reads
      refine ⟨grown.layer_eq, grown.active,
        ⟨done, remaining, split, received, fun notClosed => ?_⟩, ?_, grown.last,
        fun done => blocks.trans (grown.finished done)⟩
      · rw [blocks]
        exact upcoming notClosed
      · intro waiting none
        refine grown.drained waiting ?_
        simpa [Iteration.settle] using none

/-- A delivering iteration stays so in every run. -/
theorem Loader.Inv.delivering {loader next : Loader} {events : List LoaderEvent}
    (invariant : loader.Inv source depth)
    (here : loader.iterations[index]? = some iteration)
    (delivering : Delivering source depth layer blockIds loader.heap iteration)
    (readable : ∀ blockId ∈ blockIds, source.Readable layer blockId)
    (reached : Transition.run (Loader.step source) loader events = some next) :
    next.Inv source depth ∧ ∃ after, next.iterations[index]? = some after ∧
      Delivering source depth layer blockIds next.heap after := by
  refine Transition.invariant_of_run (fun state : Loader => state.Inv source depth ∧
      ∃ after, state.iterations[index]? = some after ∧
        Delivering source depth layer blockIds state.heap after)
    ?_ ⟨invariant, iteration, here, delivering⟩ reached
  rintro state event later ⟨invariant, iteration, here, delivering⟩ happens
  refine ⟨invariant.step happens, ?_⟩
  rcases Loader.step_cases happens with ⟨layer, blockIds, _, rfl⟩ |
    ⟨other, moving, after, heap, free, moves, advance, rfl⟩
  · exact ⟨iteration, Transition.party_append here _, delivering⟩
  · have member := List.mem_of_getElem? moves
    have inside : ∀ pending ∈ moving.pending, pending.slot < depth :=
      fun pending under => invariant.inside _ (Loader.slot_mem member under)
    by_cases own : other = index
    · subst own
      rw [here] at moves
      cases moves
      exact ⟨after, Transition.party_set here after, advance.delivering delivering
        (invariant.sound _ member) invariant.buffers inside readable⟩
    · exact ⟨iteration, Transition.party_set_other (Ne.symm own) here after,
        delivering.of_extends (advance.heapExtends inside)⟩

end Delivery

end KVSSD

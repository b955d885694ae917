import KVSSD.LoaderDelivery
import KVSSD.StoreRoundTrip

/-!
# Iterations that end

An iteration over readable blocks delivers all of them, in order, exactly when
there is a slot for it when it starts.  A slot is lost by an unknown block, by a
read that fails, by a record that is refused and by a consumer that stops, and
after the last one every later iteration ends at once with nothing delivered.
-/

namespace KVSSD

open KVSSD.Python KVSSD.Struct

section Completion

variable {source : LoaderStore} {iteration : Iteration} {free : List Nat}

theorem Iteration.prime_total {count : Nat} (enough : count ≤ free.length) :
    ∃ after nextFree, iteration.prime source count free = some (after, nextFree) := by
  induction count generalizing iteration free with
  | zero => exact ⟨_, _, rfl⟩
  | succ count induction =>
      cases free with
      | nil => simp at enough
      | cons slot free =>
          rw [Iteration.prime]
          cases ids : iteration.source with
          | nil => exact ⟨_, _, rfl⟩
          | cons blockId rest =>
              cases listed : source.store.entry iteration.layer blockId with
              | error raised =>
                  simp only [Iteration.submit, listed]
                  exact ⟨_, _, rfl⟩
              | ok entry =>
                  simp only [Iteration.submit, listed, Option.bind_eq_bind, Option.bind_some]
                  split
                  · exact ⟨_, _, rfl⟩
                  · exact induction (by simpa using enough)

variable (source iteration free) in
theorem Iteration.start_total :
    ∃ after nextFree, iteration.start source free = some (after, nextFree) :=
  Iteration.prime_total (Nat.min_le_left _ _)

/-- An iteration that finished gave its consumer one block for each id, in
order. -/
def Loader.Completes (source : LoaderStore) (depth index : Nat) (layer : Int)
    (blockIds : List Int) (loader : Loader) : Prop :=
  ∀ iteration, loader.iterations[index]? = some iteration →
    iteration.phase = .finished →
      List.Forall₂ (source.Yields depth loader.heap layer) blockIds iteration.received

theorem Delivering.completes {depth : Nat} {layer : Int} {blockIds : List Int}
    {heap : List Buffer} (delivering : Delivering source depth layer blockIds heap iteration)
    (finished : iteration.phase = .finished) :
    List.Forall₂ (source.Yields depth heap layer) blockIds iteration.received := by
  obtain ⟨done, rest, split, received, upcoming⟩ := delivering.reads
  have none : rest = [] :=
    (upcoming (by simp [finished])).trans (delivering.finished finished)
  rw [split, none, List.append_nil]
  exact received

/-- In every reachable state, a new iteration over readable blocks starts without
waiting, and it delivers one block for each id before it ends, whatever happens
to the loader meanwhile, exactly when it has nothing to read or a slot is free
when it starts. -/
theorem iteration_completes_iff {depth : Int} {first loader : Loader}
    {events : List LoaderEvent} {index : Nat}
    (made : Loader.init source depth = .ok first)
    (reached : Transition.run (Loader.step source) first events = some loader)
    (here : loader.iterations[index]? = some iteration)
    (created : iteration.phase = .created)
    (readable : ∀ blockId ∈ iteration.blockIds, source.Readable iteration.layer blockId) :
    ∃ started, loader.step source (.next index) = some started ∧
      ((∀ more final, Transition.run (Loader.step source) started more = some final →
          final.Completes source depth.toNat index iteration.layer iteration.blockIds) ↔
        iteration.blockIds = [] ∨ loader.free ≠ []) := by
  have invariant := Loader.inv_of_reachable made reached
  have sound := invariant.sound _ (List.mem_of_getElem? here)
  obtain ⟨present, _⟩ := List.getElem?_eq_some_iff.mp here
  obtain ⟨after, nextFree, starts⟩ :=
    Iteration.start_total source iteration loader.free
  have happens : loader.step source (.next index) =
      some ⟨loader.heap, nextFree, loader.iterations.set index after⟩ := by
    simp [Loader.step, here, created, starts]
  refine ⟨_, happens, ?_⟩
  constructor
  · intro completes
    by_contra blocked
    obtain ⟨some_ids, none⟩ := not_or.mp blocked
    rw [not_not] at none
    have ended : after = { iteration with phase := .waiting } := by
      simp only [Iteration.start, none, List.length_nil, Nat.zero_min, Iteration.prime,
        Option.some.injEq, Prod.mk.injEq] at starts
      exact starts.1.symm
    obtain ⟨_, unsubmitted, unreceived⟩ := sound.fresh created
    have stops := completes [.take index]
      ⟨loader.heap, nextFree, (loader.iterations.set index after).set index
        { after with phase := .finished }⟩ (by
        simp [Transition.run, Loader.step, List.getElem?_set_self present, ended,
          Iteration.take, unsubmitted])
      { after with phase := .finished } (by simp [present]) rfl
    rw [ended, unreceived] at stops
    exact some_ids (List.forall₂_nil_right_iff.mp stops)
  · intro room more final later
    have delivering : Delivering source depth.toNat iteration.layer iteration.blockIds
        loader.heap after := Iteration.start_delivering sound created readable room starts
    intro finished there done
    obtain ⟨_, other, same, delivered⟩ :=
      (invariant.step happens).delivering (List.getElem?_set_self present) delivering
        readable later
    rw [there] at same
    cases same
    exact delivered.completes done

end Completion

/-- A store of one record. -/
def tinySource (record : Bytes) : LoaderStore :=
  { crc32 := Zlib.crc32
    memory := zeroMemory
    file := record
    store := ⟨⟨tinySpec, [⟨0, 0, 0, 4096, 1, 0⟩], 1⟩, .buffered⟩
    device := none }

def tinySlot : Buffer := ⟨.cpu, 0, List.replicate 4096 0⟩

theorem init_tinySource (record : Bytes) :
    Loader.init (tinySource record) 1 = .ok ⟨[tinySlot], [0], []⟩ := rfl

theorem TinyRecord.readsAs_tinySource {record : Bytes}
    (tiny : TinyRecord Zlib.crc32 (tinyBlock 1) record) :
    (tinySource record).ReadsAs 0 0 (tinyBlock 1) := by
  have whole : recordAt record ⟨0, 0, 0, 4096, 1, 0⟩ = record :=
    List.take_of_length_le (Nat.le_of_eq tiny.length)
  refine LoaderStore.readsAs_of_record (nofun : (tinySource record).AcceptsSlots)
    (rfl : (tinySource record).store.entry 0 0 = .ok ⟨0, 0, 0, 4096, 1, 0⟩) rfl
    ⟨by decide, ?_, by simp [tinySource], fun _ => by decide⟩ ?_
  · rw [tinySource, whole, tiny.length]
    rfl
  · rw [if_neg (by simp [tinySource]), tinySource, whole]
    exact tiny.decodes

/-- An iteration over an unknown block has lost the only slot. -/
def lostSlot : Loader :=
  ⟨[tinySlot], [], [⟨0, [7], [], [], .raised (.keyError "no KV block layer=0, block=7"), []⟩,
    ⟨0, [0], [0], [], .created, []⟩]⟩

theorem run_lostSlot (record : Bytes) :
    Transition.run (Loader.step (tinySource record)) ⟨[tinySlot], [0], []⟩
      [.iterBlocks 0 [7], .next 0, .iterBlocks 0 [0]] = some lostSlot := rfl

theorem iteration_completes_iff_lostSlot :
    ∃ record started, Loader.step (tinySource record) lostSlot (.next 1) = some started ∧
      ((∀ more final, Transition.run (Loader.step (tinySource record)) started more =
          some final → final.Completes (tinySource record) 1 1 0 [0]) ↔
        [(0 : Int)] = [] ∨ lostSlot.free ≠ []) := by
  obtain ⟨record, tiny⟩ := tinyRecord_exists Zlib.crc32 (by decide : FitsU32 1)
  refine ⟨record, iteration_completes_iff (init_tinySource record) (run_lostSlot record)
    (rfl : lostSlot.iterations[1]? = some ⟨0, [0], [0], [], .created, []⟩) rfl ?_⟩
  intro blockId member
  rw [List.mem_singleton.mp member]
  exact ⟨_, tiny.readsAs_tinySource⟩

/-- After a `KeyError` an iteration over a readable block stops normally with no
block delivered. -/
theorem iteration_ends_early :
    ∃ record final, (tinySource record).Readable 0 0 ∧
      Loader.init (tinySource record) 1 = .ok ⟨[tinySlot], [0], []⟩ ∧
      Transition.run (Loader.step (tinySource record)) ⟨[tinySlot], [0], []⟩
        [.iterBlocks 0 [7], .next 0, .iterBlocks 0 [0], .next 1, .take 1] = some final ∧
      final.iterations[1]? = some ⟨0, [0], [0], [], .finished, []⟩ := by
  obtain ⟨record, tiny⟩ := tinyRecord_exists Zlib.crc32 (by decide : FitsU32 1)
  exact ⟨record, _, ⟨_, tiny.readsAs_tinySource⟩, init_tinySource record, rfl, rfl⟩

end KVSSD

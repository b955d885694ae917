import KVSSD.PipelineCuda
import KVSSD.StreamAnswers

/-!
# Every run of the streams

However the queues work, a call whose slots lie on the host returns what it returns when its
commands happen one after the other.
-/

namespace KVSSD

open KVSSD.Python KVSSD.Struct KVSSD.Streams Relation

namespace DecodeStreams

theorem spots_append (call start : Nat) (front back : List Nat) :
    spots call start (front ++ back) =
      spots call start front ++ spots (call + front.length) (start + front.sum) back := by
  induction front generalizing call start with
  | nil => rfl
  | cons count front induction =>
      rw [List.cons_append, spots, spots, induction, List.append_assoc, List.length_cons,
        List.sum_cons, Nat.add_assoc, Nat.add_assoc, Nat.add_comm 1]

namespace Setting

variable {F : Type} [AttentionArith F] {setting : Setting F}

/-- No operation of the call raises. -/
def Succeeds (setting : Setting F) (call : StreamCall F) (blocks : List PackedKVBlock) : Prop :=
  List.Forall₂ (setting.pipeline.source.ReadsAs call.layer) call.selected blocks ∧
    ∃ output, KVSSDPipeline.decodeCudaStreamed setting.pipeline.run setting.pipeline.spec
      setting.pipeline.device call.query (setting.pipeline.smScale call.query) blocks
        setting.pipeline.stageBlocks = .ok output

/-- What the memory holds before the first call. -/
structure Fresh (setting : Setting F) (memory : Cells F) : Prop where
  slots : ∀ slot < setting.depth, setting.pipeline.source.SlotBuffer (memory (.slot slot))
  merged : ∀ call, memory (.merged call) = none

variable {call : StreamCall F} {blocks : List PackedKVBlock} {output : Tensor F}
  {number start : Nat} {front rest : List (StreamCall F)} {cells memory : Cells F}

/-- A call among the others. -/
theorem Sequential.of_succeeds (calls : setting.calls = front ++ call :: rest)
    (reads : List.Forall₂ (setting.pipeline.source.ReadsAs call.layer) call.selected blocks)
    (answer : KVSSDPipeline.decodeCudaStreamed setting.pipeline.run setting.pipeline.spec
      setting.pipeline.device call.query (setting.pipeline.smScale call.query) blocks
        setting.pipeline.stageBlocks = .ok output) :
    setting.Sequential call blocks output front.length
      (front.map fun call => call.selected.length).sum where
  here := by rw [calls, List.getElem?_append_right (Nat.le_refl _), Nat.sub_self]; rfl
  denotes := by
    intro index block here
    obtain ⟨inside, rfl⟩ := List.getElem?_eq_some_iff.mp here
    have selected : index < call.selected.length := reads.length_eq ▸ inside
    refine ⟨call.layer, call.selected[index], ?_, ?_⟩
    · have length : (front.flatMap fun call => call.selected.map (call.layer, ·)).length =
          (front.map fun call => call.selected.length).sum := by
        simp [List.length_flatMap]
      rw [Setting.blocks, calls, List.flatMap_append, List.flatMap_cons,
        List.getElem?_append_right (by omega), length, Nat.add_sub_cancel_left,
        List.getElem?_append_left (by simpa using selected), List.getElem?_map,
        List.getElem?_eq_getElem selected]
      rfl
    · exact (List.forall₂_iff_get.mp reads).2 index selected inside
  has := by
    intro index inside
    rw [Has, counts, calls, List.map_append, spots_append, List.map_cons]
    refine List.mem_append_right _ (spots_cons.mpr (Or.inl ⟨?_, ?_, reads.length_eq.symm, ?_⟩))
    · simp
    · simp
    · rw [reads.length_eq]
      exact inside
  answer := answer

section Runs

variable (positive : 1 ≤ setting.pipeline.stageBlocks) (slots : 0 < setting.depth)
  (apart : setting.Detached)

theorem underway_start (sequential : setting.Sequential call blocks output number start)
    (buffers : ∀ slot < setting.depth, setting.pipeline.source.SlotBuffer (cells (.slot slot)))
    (empty : cells (.merged number) = none) :
    setting.Underway call blocks output number start 0 cells := by
  refine ⟨buffers, fun later => absurd later (Nat.lt_irrefl 0),
    fun _ _ below => absurd below (Nat.not_lt_zero _), fun later => absurd later (Nat.lt_irrefl 0),
    ⟨none, empty, ?_⟩, fun later => absurd later (Nat.lt_irrefl 0)⟩
  have first : setting.stagedBefore blocks.length 0 = 0 := by
    unfold stagedBefore
    split
    · rename_i whole
      exact whole.symm
    · simp
  rw [first, List.drop_zero, KVSSDPipeline.remaining_none]
  exact sequential.answer

include positive slots apart in
theorem Underway.run (sequential : setting.Sequential call blocks output number start)
    (underway : setting.Underway call blocks output number start 0 cells) {count : Nat}
    (inside : count ≤ blocks.length) :
    setting.Underway call blocks output number start count
      (replay setting.program.effect (((List.range count).map
        (⟨number, start, blocks.length, ·⟩)).flatMap setting.layout.commands) cells) := by
  induction count with
  | zero => exact underway
  | succ count induction =>
      rw [List.range_succ, List.map_append, List.flatMap_append, replay_append, List.map_singleton,
        List.flatMap_singleton]
      exact (induction (by omega)).step sequential slots positive apart inside

omit [AttentionArith F] in
theorem call_of_writes {places : List Spot} {command : Command}
    (member : command ∈ places.flatMap setting.layout.commands)
    (written : setting.writes command (.merged number) ∨
      setting.writes command (.output number)) : ∃ spot ∈ places, spot.call = number := by
  obtain ⟨spot, inside, commands⟩ := List.mem_flatMap.mp member
  have issues := Layout.mem_commands.mp commands
  refine ⟨spot, inside, ?_⟩
  cases command <;> simp [writes] at written
  · exact issues.2.1.symm.trans written.symm
  · exact issues.2.symm.trans written.symm

include positive slots apart in
/-- One call after the other returns what it returns alone. -/
theorem replay_calls (succeeds : ∀ call ∈ setting.calls, ∃ blocks, setting.Succeeds call blocks)
    (calls : setting.calls = front ++ rest)
    (buffers : ∀ slot < setting.depth, setting.pipeline.source.SlotBuffer (cells (.slot slot)))
    (empty : ∀ number, front.length ≤ number → cells (.merged number) = none) {index : Nat}
    (here : rest[index]? = some call) :
    ∃ blocks output,
      List.Forall₂ (setting.pipeline.source.ReadsAs call.layer) call.selected blocks ∧
      KVSSDPipeline.decodeCudaStreamed setting.pipeline.run setting.pipeline.spec
        setting.pipeline.device call.query (setting.pipeline.smScale call.query) blocks
          setting.pipeline.stageBlocks = .ok output ∧
      replay setting.program.effect ((spots front.length
        (front.map fun call => call.selected.length).sum
        (rest.map fun call => call.selected.length)).flatMap setting.layout.commands) cells
          (.output (front.length + index)) = some (.ok output) := by
  induction rest generalizing front cells index with
  | nil => cases here
  | cons first rest induction =>
      obtain ⟨blocks, reads, output, answer⟩ := succeeds first (calls ▸ by simp)
      have sequential := Sequential.of_succeeds calls reads answer
      have underway := Underway.run positive slots apart sequential
        (underway_start sequential buffers (empty _ (Nat.le_refl _))) (Nat.le_refl _)
      have nonempty : 0 < blocks.length := by
        apply List.length_pos_of_ne_nil
        rintro rfl
        cases answer
      rw [List.map_cons, spots, List.flatMap_append, replay_append, reads.length_eq]
      set own := List.range blocks.length
      set place : Nat → Spot := (⟨front.length, (front.map fun call => call.selected.length).sum,
        blocks.length, ·⟩)
      have others : ∀ number, front.length + 1 ≤ number →
          replay setting.program.effect ((own.map place).flatMap setting.layout.commands) cells
            (.merged number) = cells (.merged number) := by
        intro number later
        apply kept
        intro command member written
        obtain ⟨spot, inside, same⟩ := call_of_writes member (Or.inl written)
        obtain ⟨_, _, rfl⟩ := List.mem_map.mp inside
        change front.length = number at same
        omega
      generalize replay setting.program.effect ((own.map place).flatMap setting.layout.commands)
        cells = after at *
      cases index with
      | zero =>
          obtain rfl := Option.some.inj here
          refine ⟨blocks, output, reads, answer, ?_⟩
          rw [kept]
          · exact underway.returned nonempty rfl
          · intro command member written
            obtain ⟨spot, inside, same⟩ := call_of_writes member (Or.inr written)
            have above := spots_above inside
            omega
      | succ index =>
          have rejoined : setting.calls = (front ++ [first]) ++ rest := by simp [calls]
          have next := induction rejoined underway.slots
            (by
              intro number later
              rw [List.length_append, List.length_singleton] at later
              rw [others number later]
              exact empty number (by omega))
            (by simpa using here)
          rw [List.length_append, List.length_singleton, List.map_append, List.sum_append,
            List.map_singleton, List.sum_singleton, reads.length_eq, Nat.add_right_comm] at next
          exact next

end Runs

end Setting

/-- In every run of the streams over slots on the host, a call whose commands are done has returned
what it returns alone, and until all commands are done some command can go on. -/
theorem streams_answer {F : Type} [AttentionArith F] {setting : Setting F}
    (positive : 1 ≤ setting.pipeline.stageBlocks) (slots : 0 < setting.depth)
    (host : setting.pipeline.device = .cpu)
    (apart : setting.Detached)
    (succeeds : ∀ call ∈ setting.calls, ∃ blocks, setting.Succeeds call blocks)
    {memory : Cells F} (fresh : setting.Fresh memory) {events : List (Event Command)}
    {state : State Command (Cells F)}
    (reached : Transition.run setting.program.step (State.start memory) events = some state) :
    (∀ number call, setting.calls[number]? = some call → .output number ∈ state.finished →
      ∃ blocks output,
        List.Forall₂ (setting.pipeline.source.ReadsAs call.layer) call.selected blocks ∧
        KVSSDPipeline.decodeCudaStreamed setting.pipeline.run setting.pipeline.spec
          setting.pipeline.device call.query (setting.pipeline.smScale call.query) blocks
            setting.pipeline.stageBlocks = .ok output ∧
        state.memory (.output number) = some (.ok output)) ∧
    ((∃ command ∈ setting.program.order, command ∉ state.finished) →
      ∃ event next, setting.program.step state event = some next) ∧
    events.length ≤ 2 * setting.program.order.length := by
  have size : 0 < setting.layout.size := by
    change 0 < setting.pipeline.stageBlocks.toNat
    omega
  have free := Setting.raceFree size slots (by simp [Setting.layout, host])
  obtain ⟨leads, progress, bound⟩ := free.runs reached
  refine ⟨?_, progress, bound⟩
  intro number call here returned
  obtain ⟨blocks, output, reads, answer, alone⟩ :=
    Setting.replay_calls positive slots apart succeeds
    (List.nil_append _).symm fresh.slots (fun call _ => fresh.merged call) here
  refine ⟨blocks, output, reads, answer, ?_⟩
  have kept : replay setting.program.effect
      (setting.program.order.filter fun command => command ∉ state.finished) state.memory
        (.output number) = state.memory (.output number) := by
    apply Setting.kept
    intro command member written
    obtain ⟨_, left⟩ := List.mem_filter.mp member
    have own : command = .output number := by
      cases command <;> simp [Setting.writes] at written
      rw [written]
    exact absurd returned (by simpa [own] using left)
  rw [List.length_nil, Nat.zero_add] at alone
  rw [← kept, ← leads]
  exact alone

/-- A call over three blocks and one over a block, all of which are detached into one memory. -/
noncomputable def pairSetting (first second : Bytes) : Setting ℝ :=
  ⟨pairPipeline first second, 2, [⟨pairCall.query, 0, [0, 1, 0]⟩, ⟨pairCall.query, 0, [1]⟩],
    fun _ => 0, fun _ => 0⟩

theorem pairSetting_detached (first second : Bytes) : (pairSetting first second).Detached := by
  intro one other member otherMember call chunk _
  have whole (spot : Spot) : spot.first (pairSetting first second).layout.size = spot.block := by
    change spot.start + spot.index / 1 * 1 = spot.start + spot.index
    rw [Nat.div_one, Nat.mul_one]
  rwa [whole, whole] at chunk

/-- Both calls return. -/
theorem streams_answer_pair : ∃ first second events state output another,
    Transition.run (pairSetting first second).program.step (State.start (Cells.initial tinySlot))
      events = some state ∧
    (pairPipeline first second).answer pairCall.query
      [numberedBlock 0, numberedBlock 1, numberedBlock 0] = .ok output ∧
    state.memory (.output 0) = some (.ok output) ∧
    (pairPipeline first second).answer pairCall.query [numberedBlock 1] = .ok another ∧
    state.memory (.output 1) = some (.ok another) := by
  obtain ⟨first, zero⟩ := numberedRecord_exists Zlib.crc32 (by decide : FitsU32 0)
  obtain ⟨second, one⟩ := numberedRecord_exists Zlib.crc32 (by decide : FitsU32 1)
  have buffer : (pairPipeline first second).source.SlotBuffer tinySlot :=
    LoaderStore.slotBuffer_of_allocate rfl
  have succeeds : ∀ call ∈ (pairSetting first second).calls,
      ∃ blocks, (pairSetting first second).Succeeds call blocks := by
    intro call member
    rcases List.mem_pair.mp member with rfl | rfl
    · exact ⟨_, pairPipeline_reads zero one (by decide),
        @pairPipeline_succeeds first second [0, 1, 0] (by decide)⟩
    · exact ⟨_, pairPipeline_reads zero one (by decide),
        @pairPipeline_succeeds first second [1] (by decide)⟩
  have free := @Setting.raceFree ℝ _ (pairSetting first second) Nat.one_pos Nat.two_pos rfl
  obtain ⟨events, state, reached, all⟩ := free.completes (Cells.initial tinySlot)
  obtain ⟨returned, _, _⟩ := @streams_answer ℝ _ (pairSetting first second) (Int.le_refl 1)
    Nat.two_pos rfl (pairSetting_detached first second) succeeds (Cells.initial tinySlot)
    ⟨fun _ _ => buffer, fun _ => rfl⟩ _ _ reached
  have last : (⟨0, 0, 3, 2⟩ : Spot) ∈ spots 0 0 [3, 1] := by decide
  have only : (⟨1, 3, 1, 0⟩ : Spot) ∈ spots 0 0 [3, 1] := by decide
  obtain ⟨blocks, output, reads, answer, here⟩ := returned 0 _ rfl
    (all _ (Layout.mem_order.mpr ⟨_, last, rfl, rfl⟩))
  obtain ⟨others, another, otherReads, otherAnswer, there⟩ := returned 1 _ rfl
    (all _ (Layout.mem_order.mpr ⟨_, only, rfl, rfl⟩))
  rw [pairPipeline_blocks zero one (by decide) reads] at answer
  rw [pairPipeline_blocks zero one (by decide) otherReads] at otherAnswer
  exact ⟨first, second, events, state, output, another, reached, answer, here, otherAnswer, there⟩

end DecodeStreams

end KVSSD

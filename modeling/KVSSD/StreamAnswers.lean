import KVSSD.StreamRaces

/-!
# What the streams compute

In the order of the host, the slots hold the blocks that come next, the chunk that is being filled
lies in detached memory, and what was merged so far leaves the rest of the answer to do.
-/

namespace KVSSD

open KVSSD.Python KVSSD.Struct KVSSD.Streams Relation

namespace DecodeStreams

namespace Setting

variable {F : Type} [AttentionArith F] {setting : Setting F}

/-- The block with this number is on the disk. -/
def Denotes (setting : Setting F) (number : Nat) (block : PackedKVBlock) : Prop :=
  ∃ layer blockId, setting.blocks[number]? = some (layer, blockId) ∧
    setting.pipeline.source.ReadsAs layer blockId block

omit [AttentionArith F] in
theorem Denotes.load {number : Nat} {block : PackedKVBlock} {raw : Buffer}
    (denotes : setting.Denotes number block) (slot : setting.pipeline.source.SlotBuffer raw) :
    setting.decode number (setting.load number raw) = some block ∧
      setting.pipeline.source.SlotBuffer (setting.load number raw) := by
  obtain ⟨layer, blockId, here, entry, listed, reads⟩ := denotes
  obtain ⟨filled, read, decoded⟩ := reads (setting.position number) raw slot
  have known : setting.entry number = some entry := by
    rw [Setting.entry, here]
    change (setting.pipeline.source.store.entry layer blockId).toOption = some entry
    rw [listed]
    rfl
  have loaded : setting.load number raw = filled := by
    rw [Setting.load, known]
    exact congrArg Prod.fst read
  constructor
  · rw [loaded, Setting.decode, known]
    change (decodeSlot _ _ filled entry).toOption = some block
    exact congrArg Except.toOption decoded
  · rw [Setting.load, known]
    exact slot.of_samePlace (setting.pipeline.source.store.kind.readInto_samePlace _ _ _ _ _)

/-- A call, its place among the calls, and what it returns when it runs alone. -/
structure Sequential (setting : Setting F) (call : StreamCall F) (blocks : List PackedKVBlock)
    (output : Tensor F) (number start : Nat) : Prop where
  here : setting.calls[number]? = some call
  denotes : ∀ index block, blocks[index]? = some block → setting.Denotes (start + index) block
  has : ∀ index < blocks.length, setting.Has ⟨number, start, blocks.length, index⟩
  answer : KVSSDPipeline.decodeCudaStreamed setting.pipeline.run setting.pipeline.spec
    setting.pipeline.device call.query (setting.pipeline.smScale call.query) blocks
      setting.pipeline.stageBlocks = .ok output

/-- The slots hold the blocks from `low` to `high`. -/
structure Loaded (setting : Setting F) (blocks : List PackedKVBlock) (start low high : Nat)
    (cells : Cells F) : Prop where
  slots : ∀ slot < setting.depth, setting.pipeline.source.SlotBuffer (cells (.slot slot))
  holds : ∀ index, low ≤ index → index < high →
    setting.decode (start + index) (cells (.slot ((start + index) % setting.depth))) =
      blocks[index]?

variable {call : StreamCall F} {blocks : List PackedKVBlock} {output : Tensor F}
  {number start : Nat} {low high index : Nat} {cells other : Cells F}

omit [AttentionArith F] in
theorem Loaded.of_same (loaded : setting.Loaded blocks start low high cells)
    (same : ∀ slot, other (.slot slot) = cells (.slot slot)) :
    setting.Loaded blocks start low high other where
  slots := fun slot below => by
    rw [same]
    exact loaded.slots slot below
  holds := fun index above below => by
    rw [same]
    exact loaded.holds index above below

theorem replay_submit (block : Nat) :
    replay setting.program.effect (setting.layout.submit block) cells =
      Function.update cells (.slot (block % setting.depth))
        (setting.load block (cells (.slot (block % setting.depth)))) := by
  unfold Layout.submit
  split <;> rfl

/-- A read fills a slot whose block was taken. -/
theorem Loaded.submit (sequential : setting.Sequential call blocks output number start)
    (slots : 0 < setting.depth) (inside : high < blocks.length) (room : high < low + setting.depth)
    (loaded : setting.Loaded blocks start low high cells) :
    setting.Loaded blocks start low (high + 1)
      (replay setting.program.effect (setting.layout.submit (start + high)) cells) := by
  have denotes := sequential.denotes high blocks[high] (List.getElem?_eq_getElem inside)
  have filled := denotes.load (loaded.slots _ (Nat.mod_lt (start + high) slots))
  rw [replay_submit]
  constructor
  · intro slot below
    by_cases own : slot = (start + high) % setting.depth
    · subst own
      rw [Function.update_self]
      exact filled.2
    · rw [Function.update_of_ne (fun same => own (Place.slot.inj same))]
      exact loaded.slots slot below
  · intro index above below
    rcases Nat.lt_succ_iff_lt_or_eq.mp below with earlier | rfl
    · have apart : (start + index) % setting.depth ≠ (start + high) % setting.depth := by
        intro same
        have far := next_use same (Nat.add_lt_add_left earlier start)
        omega
      rw [Function.update_of_ne (fun same => apart (Place.slot.inj same))]
      exact loaded.holds index above earlier
    · rw [Function.update_self, filled.1, List.getElem?_eq_getElem inside]

theorem Loaded.submits (sequential : setting.Sequential call blocks output number start)
    (slots : 0 < setting.depth) (filled : setting.Loaded blocks start 0 0 cells) {count : Nat}
    (inside : count ≤ min setting.depth blocks.length) :
    setting.Loaded blocks start 0 count (replay setting.program.effect
      ((List.range count).flatMap fun index => setting.layout.submit (start + index)) cells) := by
  induction count with
  | zero => exact filled
  | succ count induction =>
      rw [List.range_succ, List.flatMap_append, replay_append, List.flatMap_singleton]
      exact (induction (by omega)).submit sequential slots (by omega) (by omega)

theorem mapM_option_of_forall₂ {α β : Type} {f : α → Option β} {items : List α} {results : List β}
    (each : List.Forall₂ (fun item result => f item = some result) items results) :
    items.mapM f = some results := by
  induction each with
  | nil => rfl
  | cons head _ induction =>
      rw [List.mapM_cons, head, induction]
      rfl

/-- How many blocks have been staged before the block with this index is taken. -/
def stagedBefore (setting : Setting F) (count index : Nat) : Nat :=
  if index = count then count else index / setting.layout.size * setting.layout.size

/-- What holds before the block with this index is taken, and at the end of the call. -/
structure Underway (setting : Setting F) (call : StreamCall F) (blocks : List PackedKVBlock)
    (output : Tensor F) (number start index : Nat) (cells : Cells F) : Prop where
  slots : ∀ slot < setting.depth, setting.pipeline.source.SlotBuffer (cells (.slot slot))
  loaded : 0 < index → setting.Loaded blocks start index
    (min (index + setting.depth) blocks.length) cells
  detached : ∀ behind, setting.stagedBefore blocks.length index ≤ behind → behind < index →
    cells (.block (setting.address (start + behind))) = blocks[behind]?
  query : 0 < index → cells (.query number) = some call.query
  /-- What is left to do leads to the answer. -/
  merged : ∃ merged, cells (.merged number) = merged.map .ok ∧
    setting.pipeline.remaining call.query merged
      (blocks.drop (setting.stagedBefore blocks.length index)) = .ok output
  returned : 0 < index → index = blocks.length → cells (.output number) = some (.ok output)

section Segments

variable {spot : Spot} (sequential : setting.Sequential call blocks output number start)
  (slots : 0 < setting.depth)

theorem kept {commands : List Command} {place : Place}
    (unwritten : ∀ command ∈ commands, ¬ setting.writes command place) :
    replay setting.program.effect commands cells place = cells place :=
  replay_kept setting.touches unwritten cells

include sequential slots in
theorem Underway.prologue (inside : index < blocks.length)
    (underway : setting.Underway call blocks output number start index cells) :
    setting.Loaded blocks start index (min (index + setting.depth) blocks.length)
      (replay setting.program.effect
        (setting.layout.prologue ⟨number, start, blocks.length, index⟩) cells) ∧
    replay setting.program.effect
      (setting.layout.prologue ⟨number, start, blocks.length, index⟩) cells (.query number) =
        some call.query := by
  rcases Nat.eq_zero_or_pos index with rfl | later
  · rw [Layout.prologue, if_pos rfl, replay_cons, Nat.zero_add]
    constructor
    · apply Loaded.submits sequential slots _ (Nat.le_refl _)
      exact ⟨underway.slots, fun _ _ below => absurd below (Nat.not_lt_zero _)⟩
    · rw [kept]
      · change Function.update cells (.query number) _ (.query number) = _
        rw [Function.update_self, sequential.here]
        rfl
      · intro command member
        obtain ⟨_, _, submitted⟩ := List.mem_flatMap.mp member
        rcases Layout.mem_submit.mp submitted with rfl | ⟨_, _, rfl⟩ <;> simp [writes]
  · rw [Layout.prologue, if_neg (Nat.ne_of_gt later), replay_nil]
    exact ⟨underway.loaded later, underway.query later⟩

theorem prologue_kept {place : Place} (notQuery : ∀ call, place ≠ .query call)
    (notSlot : ∀ slot, place ≠ .slot slot) :
    replay setting.program.effect (setting.layout.prologue spot) cells place = cells place := by
  apply kept
  intro command member
  obtain ⟨_, rfl | ⟨_, _, submitted⟩⟩ := Layout.mem_prologue.mp member
  · exact notQuery _
  · rcases Layout.mem_submit.mp submitted with rfl | ⟨_, _, rfl⟩
    · exact notSlot _
    · exact fun written => written

theorem replay_take :
    replay setting.program.effect (setting.layout.take spot) cells =
      Function.update cells (.block (setting.address spot.block))
        (setting.decode spot.block (cells (.slot (spot.block % setting.depth)))) := by
  unfold Layout.take
  split <;> rfl

theorem refill_kept {place : Place} (notSlot : ∀ slot, place ≠ .slot slot) :
    replay setting.program.effect (setting.layout.refill spot) cells place = cells place := by
  apply kept
  intro command member
  obtain ⟨_, submitted⟩ := Layout.mem_refill.mp member
  rcases Layout.mem_submit.mp submitted with rfl | ⟨_, _, rfl⟩
  · exact notSlot _
  · exact fun written => written

include sequential slots in
theorem Loaded.refill
    (loaded : setting.Loaded blocks start index (min (index + setting.depth) blocks.length) cells) :
    setting.Loaded blocks start (index + 1) (min (index + 1 + setting.depth) blocks.length)
      (replay setting.program.effect
        (setting.layout.refill ⟨number, start, blocks.length, index⟩) cells) := by
  have rest : setting.Loaded blocks start (index + 1) (min (index + setting.depth) blocks.length)
      cells := ⟨loaded.slots, fun ahead above below => loaded.holds ahead (by omega) below⟩
  by_cases more : index + setting.depth < blocks.length
  · have next : min (index + 1 + setting.depth) blocks.length =
        min (index + setting.depth) blocks.length + 1 := by omega
    have place : min (index + setting.depth) blocks.length = index + setting.depth := by omega
    have refills : setting.layout.refill ⟨number, start, blocks.length, index⟩ =
        setting.layout.submit (start + index + setting.depth) := if_pos more
    rw [refills, next]
    have submitted := rest.submit sequential slots (by omega) (by omega)
    rw [place] at submitted ⊢
    rw [← Nat.add_assoc] at submitted
    exact submitted
  · have same : min (index + 1 + setting.depth) blocks.length =
        min (index + setting.depth) blocks.length := by omega
    have refills : setting.layout.refill ⟨number, start, blocks.length, index⟩ = [] := if_neg more
    rw [refills, same]
    exact rest

theorem epilogue_kept {place : Place} (notOutput : ∀ call, place ≠ .output call) :
    replay setting.program.effect spot.epilogue cells place = cells place := by
  apply kept
  intro command member
  unfold Spot.epilogue at member
  split at member
  · obtain rfl | rfl | rfl := by simpa using member
    · exact fun written => written
    · exact fun written => written
    · exact notOutput _
  · cases member

theorem chunk_kept {place : Place} (notPinned : ∀ chunk, place ≠ .pinned chunk)
    (notStaged : ∀ chunk, place ≠ .staged chunk) (notMerged : ∀ call, place ≠ .merged call) :
    replay setting.program.effect (setting.layout.chunk spot) cells place = cells place := by
  apply kept
  intro command member
  have issues : setting.layout.Issues spot command :=
    Layout.mem_commands.mp (by unfold Layout.commands; simp [member])
  have rank := Layout.rank_chunk member
  cases command <;> simp [Layout.rank] at rank
  all_goals first
    | exact fun written => written
    | exact notPinned _
    | exact notStaged _
    | exact notMerged _
    | (split at rank <;> omega)

omit [AttentionArith F] in
theorem batch_eq (inside : index < blocks.length)
    (detached : ∀ behind, index / setting.layout.size * setting.layout.size ≤ behind →
      behind ≤ index → cells (.block (setting.address (start + behind))) = blocks[behind]?) :
    setting.batch cells (start + index / setting.layout.size * setting.layout.size)
      (start + index) = some (KVSSDPipeline.stage setting.pipeline.spec setting.pipeline.device
        ((blocks.drop (index / setting.layout.size * setting.layout.size)).take
          (index + 1 - index / setting.layout.size * setting.layout.size))) := by
  have low := Nat.div_mul_le_self index setting.layout.size
  set first := index / setting.layout.size * setting.layout.size
  have width : start + index + 1 - (start + first) = index + 1 - first := by omega
  have gathered : ((List.range (index + 1 - first)).mapM fun offset =>
      cells (.block (setting.address (start + first + offset)))) =
        some ((blocks.drop first).take (index + 1 - first)) := by
    apply mapM_option_of_forall₂
    rw [List.forall₂_iff_get]
    refine ⟨by simp; omega, ?_⟩
    intro offset below _
    have bound : offset < index + 1 - first := by simpa using below
    have place : start + first + offset = start + (first + offset) := by omega
    have item : (List.range (index + 1 - first))[offset] = offset := List.getElem_range below
    simp only [List.get_eq_getElem, List.getElem_take, List.getElem_drop]
    rw [item, place, detached (first + offset) (by omega) (by omega), List.getElem?_eq_getElem]
  rw [batch, width, gathered]
  rfl

theorem replay_stage (spot : Spot) :
    replay setting.program.effect (setting.layout.stage spot) cells (.staged spot.block) =
      setting.batch cells (spot.first setting.layout.size) spot.block := by
  unfold Layout.stage
  cases device : setting.layout.device with
  | true =>
      change Function.update cells (Place.staged spot.block) _ (Place.staged spot.block) = _
      rw [Function.update_self, if_pos device]
      rfl
  | false =>
      change Function.update _ (Place.staged spot.block) _ (Place.staged spot.block) = _
      rw [Function.update_self, if_neg (by simp [device])]
      change Function.update cells (Place.pinned spot.block) _ (Place.pinned spot.block) = _
      rw [Function.update_self]

theorem stage_kept {place : Place} (notPinned : ∀ chunk, place ≠ .pinned chunk)
    (notStaged : ∀ chunk, place ≠ .staged chunk) :
    replay setting.program.effect (setting.layout.stage spot) cells place = cells place := by
  apply kept
  intro command member
  rcases Layout.mem_stage.mp member with ⟨_, rfl | rfl⟩ | ⟨_, rfl⟩ | rfl | rfl
  · exact fun written => written
  · exact fun written => written
  · exact notPinned _
  · exact notStaged _
  · exact fun written => written

theorem replay_chunk (ends : spot.Ends setting.layout.size)
    {query : Tensor F} (given : cells (.query spot.call) = some query)
    {current : Except PyError PackedBatch}
    (batch : setting.batch cells (spot.first setting.layout.size) spot.block = some current) :
    replay setting.program.effect (setting.layout.chunk spot) cells (.merged spot.call) =
      some (setting.merge query current (cells (.merged spot.call))) := by
  have stages := @replay_stage _ _ setting cells spot
  have queries : replay setting.program.effect (setting.layout.stage spot) cells
      (.query spot.call) = cells (.query spot.call) := stage_kept nofun nofun
  have merges : replay setting.program.effect (setting.layout.stage spot) cells
      (.merged spot.call) = cells (.merged spot.call) := stage_kept nofun nofun
  rw [Layout.chunk, if_pos ends, replay_append, replay_append]
  generalize replay setting.program.effect (setting.layout.stage spot) cells = after at *
  have opens : replay setting.program.effect
      (if spot.index / setting.layout.size = 0 then [.callerReady spot.call, .begin spot.call]
        else []) after = after := by
    split <;> rfl
  have runs : replay setting.program.effect
      [.proceed spot.block, .attend spot.call (spot.first setting.layout.size) spot.block] after =
        setting.effect (.attend spot.call (spot.first setting.layout.size) spot.block) after := rfl
  rw [opens, runs]
  change Function.update after (Place.merged spot.call) _ (Place.merged spot.call) = _
  rw [Function.update_self, queries, given, stages, batch, merges]
  rfl

end Segments

/-- The blocks of one chunk have memory of their own. -/
def Detached (setting : Setting F) : Prop :=
  ∀ one other, setting.Has one → setting.Has other → one.call = other.call →
    one.first setting.layout.size = other.first setting.layout.size →
    setting.address one.block = setting.address other.block → one.block = other.block

section Blocks

variable (sequential : setting.Sequential call blocks output number start)
  (slots : 0 < setting.depth) (positive : 1 ≤ setting.pipeline.stageBlocks)
  (apart : setting.Detached)

omit [AttentionArith F] in
theorem stagedBefore_of_ends
    (ends : Spot.Ends setting.layout.size ⟨number, start, blocks.length, index⟩) :
    setting.stagedBefore blocks.length (index + 1) = index + 1 := by
  unfold stagedBefore
  split
  · rename_i last
    exact last.symm
  · rename_i more
    exact Nat.div_mul_cancel (ends.resolve_right more)

omit [AttentionArith F] in
theorem stagedBefore_of_inside (inside : index < blocks.length) :
    setting.stagedBefore blocks.length index =
      index / setting.layout.size * setting.layout.size :=
  if_neg (Nat.ne_of_lt inside)

omit [AttentionArith F] in
theorem stagedBefore_of_going
    (goes : ¬ Spot.Ends setting.layout.size ⟨number, start, blocks.length, index⟩) :
    setting.stagedBefore blocks.length (index + 1) =
      index / setting.layout.size * setting.layout.size := by
  obtain ⟨cut, more⟩ := not_or.mp goes
  have same : (index + 1) / setting.layout.size = index / setting.layout.size := by
    rw [Nat.succ_div, if_neg cut, Nat.add_zero]
  rw [stagedBefore, if_neg more, same]

include positive in
omit [AttentionArith F] in
/-- A chunk that ends is the next part of the blocks. -/
theorem chunks_of_ends (inside : index < blocks.length)
    (ends : Spot.Ends setting.layout.size ⟨number, start, blocks.length, index⟩) :
    KVSSDPipeline.chunks
        (blocks.drop (index / setting.layout.size * setting.layout.size))
        setting.pipeline.stageBlocks =
      (blocks.drop (index / setting.layout.size * setting.layout.size)).take
          (index + 1 - index / setting.layout.size * setting.layout.size) ::
        KVSSDPipeline.chunks (blocks.drop (index + 1)) setting.pipeline.stageBlocks := by
  have size : (setting.layout.size : Int) = setting.pipeline.stageBlocks :=
    Int.toNat_of_nonneg (by omega)
  have low := Nat.div_mul_le_self index setting.layout.size
  have high : index < index / setting.layout.size * setting.layout.size + setting.layout.size :=
    Nat.lt_div_mul_add (by omega)
  have whole : setting.layout.size ∣ index + 1 →
      index + 1 = index / setting.layout.size * setting.layout.size + setting.layout.size := by
    intro cut
    have next : (index + 1) / setting.layout.size = index / setting.layout.size + 1 := by
      rw [Nat.succ_div, if_pos cut]
    have product := Nat.div_mul_cancel cut
    rw [next, Nat.add_mul, Nat.one_mul] at product
    exact product.symm
  generalize index / setting.layout.size * setting.layout.size = first at *
  have more : (blocks.drop first).drop (index + 1 - first) = blocks.drop (index + 1) := by
    rw [List.drop_drop]
    congr 1
    omega
  have length : ((blocks.drop first).take (index + 1 - first)).length = index + 1 - first := by
    rw [List.length_take, List.length_drop]
    omega
  conv_lhs => rw [← List.take_append_drop (index + 1 - first) (blocks.drop first), more]
  by_cases full : index + 1 = first + setting.layout.size
  · apply KVSSDPipeline.chunks_full positive
    rw [length]
    omega
  · obtain last : index + 1 = blocks.length := ends.resolve_left fun cut => full (whole cut)
    rw [List.drop_eq_nil_of_le (Nat.le_of_eq last.symm), List.append_nil]
    apply KVSSDPipeline.chunks_rest
    · intro empty
      rw [empty, List.length_nil] at length
      omega
    · rw [length]
      omega

theorem merge_eq (part : List PackedKVBlock) (merged : Option (Tensor F × Tensor F)) :
    setting.merge call.query
        (KVSSDPipeline.stage setting.pipeline.spec setting.pipeline.device part)
        (merged.map .ok) =
      setting.pipeline.runChunk ⟨⟨call.query, call.layer, none⟩, [], 0, 0, merged⟩ part := by
  unfold merge KVSSDPipeline.runChunk
  cases merged <;> rfl

include positive in
theorem chunk_merges (inside : index < blocks.length)
    (given : cells (.query number) = some call.query)
    (detached : ∀ behind, index / setting.layout.size * setting.layout.size ≤ behind →
      behind ≤ index → cells (.block (setting.address (start + behind))) = blocks[behind]?)
    {merged : Option (Tensor F × Tensor F)} (before : cells (.merged number) = merged.map .ok)
    (leads : setting.pipeline.remaining call.query merged
      (blocks.drop (setting.stagedBefore blocks.length index)) = .ok output) :
    ∃ next : Option (Tensor F × Tensor F),
      replay setting.program.effect
        (setting.layout.chunk ⟨number, start, blocks.length, index⟩) cells (.merged number) =
          next.map .ok ∧
      setting.pipeline.remaining call.query next
        (blocks.drop (setting.stagedBefore blocks.length (index + 1))) = .ok output ∧
      (index + 1 = blocks.length → next.map Prod.fst = some output) := by
  rw [stagedBefore_of_inside inside] at leads
  by_cases ends : Spot.Ends setting.layout.size ⟨number, start, blocks.length, index⟩
  · have shorter := @KVSSDPipeline.remaining_chunk F _ setting.pipeline
      ⟨⟨call.query, call.layer, none⟩, [], 0, 0, merged⟩ _ _ _ (chunks_of_ends positive inside ends)
    obtain ⟨next, runs, rest⟩ := bind_eq_ok.mp (shorter.symm.trans leads)
    refine ⟨some next, ?_, ?_, ?_⟩
    · rw [replay_chunk ends given (batch_eq inside detached)]
      change some (setting.merge call.query _ (cells (.merged number))) = _
      rw [before, merge_eq, runs]
      rfl
    · rw [stagedBefore_of_ends ends]
      exact rest
    · intro last
      rw [last, List.drop_length] at rest
      exact congrArg some (Except.ok.inj rest)
  · have goes : setting.layout.chunk ⟨number, start, blocks.length, index⟩ = [] := if_neg ends
    refine ⟨merged, ?_, ?_, fun last => absurd (Or.inr last) ends⟩
    · rw [goes, replay_nil, before]
    · rw [stagedBefore_of_going ends]
      exact leads

omit [AttentionArith F] in
theorem first_le_of_stagedBefore {behind : Nat}
    (above : setting.stagedBefore blocks.length (index + 1) ≤ behind) (below : behind ≤ index) :
    index / setting.layout.size * setting.layout.size ≤ behind := by
  by_cases ends : Spot.Ends setting.layout.size ⟨0, 0, blocks.length, index⟩
  · rw [stagedBefore_of_ends ends] at above
    omega
  · rwa [stagedBefore_of_going ends] at above

include apart sequential positive in
theorem address_ne {behind : Nat} (inside : index < blocks.length)
    (above : index / setting.layout.size * setting.layout.size ≤ behind)
    (earlier : behind < index) :
    setting.address (start + behind) ≠ setting.address (start + index) := by
  have size : 0 < setting.layout.size := by
    change 0 < setting.pipeline.stageBlocks.toNat
    omega
  have chunk : behind / setting.layout.size = index / setting.layout.size :=
    Nat.le_antisymm (Nat.div_le_div_right earlier.le) ((Nat.le_div_iff_mul_le size).mpr above)
  intro same
  have equal := apart ⟨number, start, blocks.length, behind⟩ ⟨number, start, blocks.length, index⟩
    (sequential.has behind (earlier.trans inside)) (sequential.has index inside) rfl
    (by simp only [Spot.first, chunk]) same
  exact absurd (Nat.add_left_cancel equal) (Nat.ne_of_lt earlier)

include sequential slots positive apart in
/-- One block further. -/
theorem Underway.step (inside : index < blocks.length)
    (underway : setting.Underway call blocks output number start index cells) :
    setting.Underway call blocks output number start (index + 1)
      (replay setting.program.effect
        (setting.layout.commands ⟨number, start, blocks.length, index⟩) cells) := by
  obtain ⟨merged, before, leads⟩ := underway.merged
  obtain ⟨loaded, given⟩ := underway.prologue sequential slots inside
  have others (place : Place) (notQuery : ∀ call, place ≠ .query call)
      (notSlot : ∀ slot, place ≠ .slot slot) :
      replay setting.program.effect (setting.layout.prologue ⟨number, start, blocks.length, index⟩)
        cells place = cells place := prologue_kept notQuery notSlot
  rw [Layout.commands, replay_append]
  generalize replay setting.program.effect
    (setting.layout.prologue ⟨number, start, blocks.length, index⟩) cells = begun at *
  have takes : replay setting.program.effect
      (setting.layout.take ⟨number, start, blocks.length, index⟩) begun =
        Function.update begun (.block (setting.address (start + index)))
          (setting.decode (start + index) (begun (.slot ((start + index) % setting.depth)))) :=
    replay_take
  have detached : ∀ behind, index / setting.layout.size * setting.layout.size ≤ behind →
      behind ≤ index → replay setting.program.effect
        (setting.layout.take ⟨number, start, blocks.length, index⟩) begun
          (.block (setting.address (start + behind))) = blocks[behind]? := by
    intro behind above below
    rw [takes]
    rcases Nat.lt_or_eq_of_le below with earlier | rfl
    · have different := address_ne sequential positive apart inside above earlier
      rw [Function.update_of_ne (fun same => different (Place.block.inj same)),
        others (.block (setting.address (start + behind))) nofun nofun]
      rw [← stagedBefore_of_inside inside] at above
      exact underway.detached behind above earlier
    · rw [Function.update_self]
      exact loaded.holds behind (Nat.le_refl _) (by omega)
  have takeKept (place : Place) (notBlock : ∀ address, place ≠ .block address) :
      replay setting.program.effect (setting.layout.take ⟨number, start, blocks.length, index⟩)
        begun place = begun place := by
    rw [takes, Function.update_of_ne (notBlock _)]
  have full : setting.Loaded blocks start index (min (index + setting.depth) blocks.length)
      (replay setting.program.effect
        (setting.layout.take ⟨number, start, blocks.length, index⟩) begun) :=
    loaded.of_same fun slot => takeKept (.slot slot) nofun
  have query := (takeKept (.query number) nofun).trans given
  have merges := (takeKept (.merged number) nofun).trans
    ((others (.merged number) nofun nofun).trans before)
  rw [replay_append]
  generalize replay setting.program.effect
    (setting.layout.take ⟨number, start, blocks.length, index⟩) begun = held at *
  obtain ⟨next, after, rest, last⟩ := chunk_merges positive inside query detached merges leads
  have chunked (place : Place) (notPinned : ∀ chunk, place ≠ .pinned chunk)
      (notStaged : ∀ chunk, place ≠ .staged chunk) (notMerged : ∀ call, place ≠ .merged call) :
      replay setting.program.effect (setting.layout.chunk ⟨number, start, blocks.length, index⟩)
        held place = held place := chunk_kept notPinned notStaged notMerged
  rw [replay_append]
  generalize replay setting.program.effect
    (setting.layout.chunk ⟨number, start, blocks.length, index⟩) held = run at *
  have refilled := (full.of_same fun slot => chunked (.slot slot) nofun nofun nofun).refill
    sequential slots
  have refillKept (place : Place) (notSlot : ∀ slot, place ≠ .slot slot) :
      replay setting.program.effect (setting.layout.refill ⟨number, start, blocks.length, index⟩)
        run place = run place := refill_kept notSlot
  rw [replay_append]
  generalize replay setting.program.effect
    (setting.layout.refill ⟨number, start, blocks.length, index⟩) run = filled at *
  have ended (place : Place) (notOutput : ∀ call, place ≠ .output call) :
      replay setting.program.effect
        (Spot.epilogue ⟨number, start, blocks.length, index⟩) filled place = filled place :=
    epilogue_kept notOutput
  have ready := refilled.of_same fun slot => ended (.slot slot) nofun
  constructor
  · exact ready.slots
  · exact fun _ => ready
  · intro behind above below
    rw [ended (.block (setting.address (start + behind))) nofun,
      refillKept (.block (setting.address (start + behind))) nofun,
      chunked (.block (setting.address (start + behind))) nofun nofun nofun]
    exact detached behind (first_le_of_stagedBefore above (Nat.le_of_lt_succ below))
      (Nat.le_of_lt_succ below)
  · intro _
    rw [ended (.query number) nofun, refillKept (.query number) nofun,
      chunked (.query number) nofun nofun nofun]
    exact query
  · refine ⟨next, ?_, rest⟩
    rw [ended (.merged number) nofun, refillKept (.merged number) nofun]
    exact after
  · intro _ finished
    have mergedLast : filled (.merged number) = next.map .ok :=
      (refillKept (.merged number) nofun).trans after
    have epilogue : Spot.epilogue ⟨number, start, blocks.length, index⟩ =
        [.done number, .join number, .output number] := if_pos finished
    rw [epilogue]
    change Function.update filled (Place.output number)
      ((filled (.merged number)).map fun merged => merged.map Prod.fst) (Place.output number) = _
    rw [Function.update_self, mergedLast]
    cases next with
    | none => cases last finished
    | some answer => exact congrArg (some <| Except.ok ·) (Option.some.inj (last finished))

end Blocks

end Setting

end DecodeStreams

end KVSSD

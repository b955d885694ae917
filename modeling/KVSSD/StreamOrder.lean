import KVSSD.PipelineStreams

/-!
# The order of the commands

Every command belongs to one block of one call, and the commands of one block are issued before
those of the next.  From that follows which command is issued before which.
-/

namespace KVSSD

open KVSSD.Streams

namespace DecodeStreams

section Spots

variable {call start : Nat} {counts : List Nat} {spot other : Spot}

theorem spots_cons {count : Nat} :
    spot ∈ spots call start (count :: counts) ↔
      (spot.call = call ∧ spot.start = start ∧ spot.count = count ∧ spot.index < count) ∨
        spot ∈ spots (call + 1) (start + count) counts := by
  rw [spots, List.mem_append, List.mem_map]
  apply or_congr_left
  constructor
  · rintro ⟨index, inside, rfl⟩
    exact ⟨rfl, rfl, rfl, List.mem_range.mp inside⟩
  · rintro ⟨rfl, rfl, rfl, inside⟩
    exact ⟨spot.index, List.mem_range.mpr inside, rfl⟩

theorem spots_above (member : spot ∈ spots call start counts) :
    call ≤ spot.call ∧ start ≤ spot.start ∧ spot.index < spot.count := by
  induction counts generalizing call start with
  | nil => cases member
  | cons count counts induction =>
      rcases spots_cons.mp member with ⟨rfl, rfl, rfl, inside⟩ | later
      · exact ⟨Nat.le_refl _, Nat.le_refl _, inside⟩
      · have above := induction later
        omega

theorem spots_apart (member : spot ∈ spots call start counts)
    (otherMember : other ∈ spots call start counts) :
    (spot.call = other.call ∧ spot.start = other.start ∧ spot.count = other.count) ∨
      (spot.call < other.call ∧ spot.start + spot.count ≤ other.start) ∨
        (other.call < spot.call ∧ other.start + other.count ≤ spot.start) := by
  induction counts generalizing call start with
  | nil => cases member
  | cons count counts induction =>
      rcases spots_cons.mp member with ⟨calls, starts, sizes, _⟩ | later
      · rcases spots_cons.mp otherMember with ⟨otherCalls, otherStarts, otherSizes, _⟩ | otherLater
        · omega
        · have above := spots_above otherLater
          omega
      · rcases spots_cons.mp otherMember with ⟨otherCalls, otherStarts, otherSizes, _⟩ | otherLater
        · have above := spots_above later
          omega
        · exact induction later otherLater

theorem spots_whole (member : spot ∈ spots call start counts) {index : Nat}
    (inside : index < spot.count) : { spot with index } ∈ spots call start counts := by
  induction counts generalizing call start with
  | nil => cases member
  | cons count counts induction =>
      rcases spots_cons.mp member with ⟨calls, starts, sizes, _⟩ | later
      · exact spots_cons.mpr (Or.inl ⟨calls, starts, sizes, sizes ▸ inside⟩)
      · exact spots_cons.mpr (Or.inr (induction later))

theorem spots_pairwise (call start : Nat) (counts : List Nat) :
    (spots call start counts).Pairwise fun one other => one.block < other.block := by
  induction counts generalizing call start with
  | nil => exact List.Pairwise.nil
  | cons count counts induction =>
      refine List.pairwise_append.mpr ⟨?_, induction _ _, ?_⟩
      · rw [List.pairwise_map]
        exact List.pairwise_lt_range.imp fun before => Nat.add_lt_add_left before start
      · intro one oneMember another later
        obtain ⟨index, inside, rfl⟩ := List.mem_map.mp oneMember
        have below := List.mem_range.mp inside
        have above := spots_above later
        simp only [Spot.block]
        omega

theorem spots_inj (member : spot ∈ spots call start counts)
    (otherMember : other ∈ spots call start counts) (same : spot.block = other.block) :
    spot = other := by
  have inside := (spots_above member).2.2
  have otherInside := (spots_above otherMember).2.2
  unfold Spot.block at same
  obtain ⟨calls, starts, counts, index⟩ := spot
  obtain ⟨otherCall, otherStart, otherCount, otherIndex⟩ := other
  simp only at *
  rcases spots_apart member otherMember with ⟨rfl, rfl, rfl⟩ | ⟨_, apart⟩ | ⟨_, apart⟩
  · obtain rfl := Nat.add_left_cancel same
    rfl
  · simp only at apart
    omega
  · simp only at apart
    omega

end Spots

namespace Spot

/-- The read of a block is submitted here. -/
def Reads (depth : Nat) (spot : Spot) (block : Nat) : Prop :=
  (spot.index = 0 ∧ spot.start ≤ block ∧ block < spot.start + min depth spot.count) ∨
    (spot.index + depth < spot.count ∧ block = spot.block + depth)

end Spot

namespace Layout

variable (layout : Layout)

/-- The commands that are issued at a block. -/
def Issues (spot : Spot) : Command → Prop
  | .query call => spot.index = 0 ∧ call = spot.call
  | .read block => spot.Reads layout.depth block
  | .synchronize block => layout.device = true ∧ spot.Reads layout.depth (block + layout.depth)
  | .result block => block = spot.block
  | .detach block => block = spot.block
  | .reuse block => layout.device = true ∧ block = spot.block
  | .mark chunk => spot.Ends layout.size ∧ layout.device = true ∧ chunk = spot.block
  | .follow chunk => spot.Ends layout.size ∧ layout.device = true ∧ chunk = spot.block
  | .gather first chunk => spot.Ends layout.size ∧ layout.device = false ∧
      first = spot.first layout.size ∧ chunk = spot.block
  | .transfer first chunk => spot.Ends layout.size ∧ first = spot.first layout.size ∧
      chunk = spot.block
  | .ready chunk => spot.Ends layout.size ∧ chunk = spot.block
  | .callerReady call => spot.Ends layout.size ∧ spot.index / layout.size = 0 ∧ call = spot.call
  | .begin call => spot.Ends layout.size ∧ spot.index / layout.size = 0 ∧ call = spot.call
  | .proceed chunk => spot.Ends layout.size ∧ chunk = spot.block
  | .attend call first chunk => spot.Ends layout.size ∧ call = spot.call ∧
      first = spot.first layout.size ∧ chunk = spot.block
  | .done call => spot.index + 1 = spot.count ∧ call = spot.call
  | .join call => spot.index + 1 = spot.count ∧ call = spot.call
  | .output call => spot.index + 1 = spot.count ∧ call = spot.call

variable {layout} {spot other : Spot} {command : Command}

theorem mem_submit {block : Nat} : command ∈ layout.submit block ↔
    command = .read block ∨
      (layout.device = true ∧ layout.depth ≤ block ∧
        command = .synchronize (block - layout.depth)) := by
  unfold submit
  rw [List.mem_append, List.mem_singleton, or_comm]
  apply or_congr_right
  split
  · rename_i holds
    simp [holds.1, holds.2]
  · rename_i fails
    simp only [List.not_mem_nil, false_iff]
    exact fun holds => fails ⟨holds.1, holds.2.1⟩

theorem mem_prologue : command ∈ layout.prologue spot ↔
    spot.index = 0 ∧ (command = .query spot.call ∨
      ∃ index < min layout.depth spot.count, command ∈ layout.submit (spot.start + index)) := by
  unfold prologue
  split
  · rename_i holds
    simp [holds, List.mem_flatMap]
  · rename_i fails
    simp [fails]

theorem mem_refill : command ∈ layout.refill spot ↔
    spot.index + layout.depth < spot.count ∧
      command ∈ layout.submit (spot.block + layout.depth) := by
  unfold refill
  split
  · rename_i holds
    simp [holds]
  · rename_i fails
    simp [fails]

theorem mem_stage : command ∈ layout.stage spot ↔
    (layout.device = true ∧ (command = .mark spot.block ∨ command = .follow spot.block)) ∨
      (layout.device = false ∧ command = .gather (spot.first layout.size) spot.block) ∨
        command = .transfer (spot.first layout.size) spot.block ∨ command = .ready spot.block := by
  unfold stage
  cases layout.device <;> simp [or_assoc]

theorem reads_iff {block : Nat} : spot.Reads layout.depth block ↔
    (spot.index = 0 ∧ ∃ index < min layout.depth spot.count, block = spot.start + index) ∨
      (spot.index + layout.depth < spot.count ∧ block = spot.block + layout.depth) := by
  apply or_congr_left
  apply and_congr_right
  intro _
  constructor
  · rintro ⟨above, below⟩
    exact ⟨block - spot.start, by omega, by omega⟩
  · rintro ⟨index, inside, rfl⟩
    omega

theorem synchronizes_iff {block : Nat} : spot.Reads layout.depth (block + layout.depth) ↔
    (spot.index = 0 ∧ ∃ index < min layout.depth spot.count, layout.depth ≤ spot.start + index ∧
      block = spot.start + index - layout.depth) ∨
      (spot.index + layout.depth < spot.count ∧ block = spot.block) := by
  rw [reads_iff]
  constructor
  · rintro (⟨first, index, inside, same⟩ | ⟨more, same⟩)
    · exact Or.inl ⟨first, index, inside, by omega, by omega⟩
    · exact Or.inr ⟨more, by omega⟩
  · rintro (⟨first, index, inside, reused, rfl⟩ | ⟨more, rfl⟩)
    · exact Or.inl ⟨first, index, inside, by omega⟩
    · exact Or.inr ⟨more, rfl⟩

theorem mem_commands : command ∈ layout.commands spot ↔ layout.Issues spot command := by
  unfold commands
  rw [List.mem_append, List.mem_append, List.mem_append, List.mem_append, mem_prologue, mem_refill]
  cases command with
  | read block =>
      simp [mem_submit, take, chunk, mem_stage, Spot.epilogue, Issues, reads_iff]
  | synchronize block =>
      cases device : layout.device <;>
        simp [mem_submit, take, chunk, mem_stage, Spot.epilogue, Issues, synchronizes_iff, device]
  | _ => simp [mem_submit, take, chunk, mem_stage, Spot.epilogue, Issues]

theorem submit_nodup (block : Nat) : (layout.submit block).Nodup := by
  unfold submit
  split <;> simp

theorem prologue_nodup : (layout.prologue spot).Nodup := by
  unfold prologue
  split
  · refine List.nodup_cons.mpr ⟨by simp [mem_submit], ?_⟩
    refine List.nodup_flatMap.mpr ⟨fun index _ => submit_nodup _, ?_⟩
    refine List.pairwise_lt_range.imp fun {one other} before => ?_
    intro command first second
    cases command <;> simp [mem_submit] at first second
    · omega
    · omega
  · exact List.nodup_nil

theorem chunk_nodup : (layout.chunk spot).Nodup := by
  unfold chunk
  split
  · by_cases opens : spot.index / layout.size = 0
    · rw [if_pos opens, stage]
      cases layout.device <;> simp
    · rw [if_neg opens, stage]
      cases layout.device <;> simp
  · exact List.nodup_nil

theorem commands_nodup : (layout.commands spot).Nodup := by
  have takes : (layout.take spot).Nodup := by
    unfold take
    split <;> simp
  have refills : (layout.refill spot).Nodup := by
    unfold refill
    split
    · exact submit_nodup _
    · exact List.nodup_nil
  have ends : spot.epilogue.Nodup := by
    unfold Spot.epilogue
    split <;> simp
  unfold commands
  refine List.nodup_append.mpr ⟨prologue_nodup, List.nodup_append.mpr ⟨takes,
    List.nodup_append.mpr ⟨chunk_nodup, List.nodup_append.mpr ⟨refills, ends, ?_⟩, ?_⟩, ?_⟩, ?_⟩
  · rintro command first _ second rfl
    cases command <;> simp [mem_refill, mem_submit, Spot.epilogue] at first second
  · rintro command first _ second rfl
    cases command <;>
      simp [mem_refill, mem_submit, Spot.epilogue, chunk, mem_stage] at first second
  · rintro command first _ second rfl
    cases command <;>
      simp [mem_refill, mem_submit, Spot.epilogue, chunk, mem_stage, take] at first second
  · rintro command first _ second rfl
    cases command <;>
      simp [mem_refill, mem_submit, mem_prologue, Spot.epilogue, chunk, mem_stage, take]
        at first second
    · obtain ⟨_, index, ⟨inside, _⟩, rfl⟩ := first
      unfold Spot.block at second
      omega
    · obtain ⟨_, index, ⟨inside, _⟩, _, reused, rfl⟩ := first
      unfold Spot.block at second
      omega

/-- How far a command stands behind the beginning of its block. -/
def rank (spot : Spot) : Command → Nat
  | .query _ => 0
  | .read block => if block < spot.block + layout.depth then 1 else 13
  | .synchronize block => if block < spot.block then 1 else 13
  | .result _ => 2
  | .detach _ => 3
  | .reuse _ => 4
  | .mark _ => 5
  | .follow _ => 6
  | .gather _ _ => 6
  | .transfer _ _ => 7
  | .ready _ => 8
  | .callerReady _ => 9
  | .begin _ => 10
  | .proceed _ => 11
  | .attend _ _ _ => 12
  | .done _ => 14
  | .join _ => 15
  | .output _ => 16

theorem rank_prologue (member : command ∈ layout.prologue spot) :
    layout.rank spot command ≤ 1 := by
  obtain ⟨zero, rfl | ⟨index, inside, submitted⟩⟩ := mem_prologue.mp member
  · exact Nat.zero_le 1
  · have place : spot.block = spot.start := by rw [Spot.block, zero, Nat.add_zero]
    rcases mem_submit.mp submitted with rfl | ⟨_, reused, rfl⟩
    · exact (if_pos (by omega)).le
    · exact (if_pos (by omega)).le

theorem rank_take (member : command ∈ layout.take spot) :
    2 ≤ layout.rank spot command ∧ layout.rank spot command ≤ 4 := by
  unfold take at member
  cases device : layout.device <;> simp [device] at member
  · obtain rfl | rfl := member <;> simp [rank]
  · obtain rfl | rfl | rfl := member <;> simp [rank]

theorem rank_chunk (member : command ∈ layout.chunk spot) :
    5 ≤ layout.rank spot command ∧ layout.rank spot command ≤ 12 := by
  unfold chunk at member
  split at member
  · rcases List.mem_append.mp member with front | run
    · rcases List.mem_append.mp front with staged | opens
      · rcases mem_stage.mp staged with ⟨_, rfl | rfl⟩ | ⟨_, rfl⟩ | rfl | rfl <;> simp [rank]
      · split at opens
        · obtain rfl | rfl := by simpa using opens
          · simp [rank]
          · simp [rank]
        · cases opens
    · obtain rfl | rfl := by simpa using run
      · simp [rank]
      · simp [rank]
  · cases member

theorem rank_refill (member : command ∈ layout.refill spot) : layout.rank spot command = 13 := by
  obtain ⟨_, submitted⟩ := mem_refill.mp member
  rcases mem_submit.mp submitted with rfl | ⟨_, _, rfl⟩
  · exact if_neg (by omega)
  · exact if_neg (by omega)

theorem rank_epilogue (member : command ∈ spot.epilogue) : 14 ≤ layout.rank spot command := by
  unfold Spot.epilogue at member
  split at member
  · obtain rfl | rfl | rfl := by simpa using member
    all_goals simp [rank]
  · cases member

theorem commands_pairwise : (layout.commands spot).Pairwise fun one other =>
    layout.rank spot one ≤ layout.rank spot other := by
  have prologues : (layout.prologue spot).Pairwise fun one other =>
      layout.rank spot one ≤ layout.rank spot other := by
    unfold prologue
    split
    · rename_i zero
      refine List.pairwise_cons.mpr ⟨fun _ _ => Nat.zero_le _, ?_⟩
      apply List.pairwise_of_forall_mem_list
      have each : ∀ command ∈ (List.range (min layout.depth spot.count)).flatMap fun index =>
          layout.submit (spot.start + index), layout.rank spot command = 1 := by
        intro command member
        obtain ⟨index, inside, submitted⟩ := List.mem_flatMap.mp member
        have below := List.mem_range.mp inside
        have place : spot.block = spot.start := by rw [Spot.block, zero, Nat.add_zero]
        rcases mem_submit.mp submitted with rfl | ⟨_, reused, rfl⟩
        · exact if_pos (by omega)
        · exact if_pos (by omega)
      intro one oneMember other otherMember
      rw [each one oneMember, each other otherMember]
    · exact List.Pairwise.nil
  have takes : (layout.take spot).Pairwise fun one other =>
      layout.rank spot one ≤ layout.rank spot other := by
    unfold take
    cases layout.device <;> simp [rank]
  have chunks : (layout.chunk spot).Pairwise fun one other =>
      layout.rank spot one ≤ layout.rank spot other := by
    unfold chunk stage
    by_cases opens : spot.index / layout.size = 0
    · rw [if_pos opens]
      cases layout.device <;> split <;> simp [rank]
    · rw [if_neg opens]
      cases layout.device <;> split <;> simp [rank]
  have refills : (layout.refill spot).Pairwise fun one other =>
      layout.rank spot one ≤ layout.rank spot other := by
    apply List.pairwise_of_forall_mem_list
    intro one oneMember other otherMember
    rw [rank_refill oneMember, rank_refill otherMember]
  have epilogues : spot.epilogue.Pairwise fun one other =>
      layout.rank spot one ≤ layout.rank spot other := by
    unfold Spot.epilogue
    split <;> simp [rank]
  unfold commands
  refine List.pairwise_append.mpr ⟨prologues, List.pairwise_append.mpr ⟨takes,
    List.pairwise_append.mpr ⟨chunks, List.pairwise_append.mpr ⟨refills, epilogues, ?_⟩, ?_⟩, ?_⟩,
    ?_⟩
  · intro one first other second
    rw [rank_refill first]
    have high := @rank_epilogue layout _ _ second
    omega
  · intro one first other second
    have low := rank_chunk first
    rcases List.mem_append.mp second with inside | inside
    · rw [rank_refill inside]
      omega
    · have high := @rank_epilogue layout _ _ inside
      omega
  · intro one first other second
    have low := rank_take first
    rcases List.mem_append.mp second with inside | rest
    · have high := rank_chunk inside
      omega
    · rcases List.mem_append.mp rest with inside | inside
      · rw [rank_refill inside]
        omega
      · have high := @rank_epilogue layout _ _ inside
        omega
  · intro one first other second
    have low := rank_prologue first
    rcases List.mem_append.mp second with inside | rest
    · have high := rank_take inside
      omega
    · rcases List.mem_append.mp rest with inside | rest
      · have high := rank_chunk inside
        omega
      · rcases List.mem_append.mp rest with inside | inside
        · rw [rank_refill inside]
          omega
        · have high := @rank_epilogue layout _ _ inside
          omega

end Layout

/-- The number of a block of some call. -/
def Known (counts : List Nat) (block : Nat) : Prop :=
  ∃ spot ∈ spots 0 0 counts, spot.block = block

section Order

variable {layout : Layout} {counts : List Nat} {spot other : Spot} {command later : Command}

theorem known_of_le {block : Nat} (member : spot ∈ spots 0 0 counts) (below : block ≤ spot.block) :
    Known counts block := by
  have general : ∀ (call start : Nat) (counts : List Nat), spot ∈ spots call start counts →
      start ≤ block → ∃ other ∈ spots call start counts, other.block = block := by
    intro call start counts
    induction counts generalizing call start with
    | nil => exact nofun
    | cons count counts induction =>
        intro member above
        by_cases own : block < start + count
        · refine ⟨⟨call, start, count, block - start⟩, spots_cons.mpr (Or.inl
            ⟨rfl, rfl, rfl, by simp only; omega⟩), ?_⟩
          simp only [Spot.block]
          omega
        · rcases spots_cons.mp member with ⟨_, starts, _, inside⟩ | rest
          · unfold Spot.block at below
            omega
          · obtain ⟨other, found, same⟩ := induction (call + 1) (start + count) rest (by omega)
            exact ⟨other, spots_cons.mpr (Or.inr found), same⟩
  exact general 0 0 counts member (Nat.zero_le block)

namespace Layout

theorem mem_order : command ∈ layout.order counts ↔
    ∃ spot ∈ spots 0 0 counts, layout.Issues spot command := by
  simp only [order, List.mem_flatMap, mem_commands]

theorem index_of_first (positive : 0 < layout.size) (ends : spot.Ends layout.size)
    (first : spot.index / layout.size = 0) (inside : spot.index < spot.count) :
    spot.index + 1 = min layout.size spot.count := by
  have below := (Nat.div_eq_zero_iff.mp first).resolve_left (Nat.ne_of_gt positive)
  rcases ends with whole | last
  · have reaches := Nat.le_of_dvd (Nat.succ_pos _) whole
    omega
  · omega

/-- A command is issued at one block only. -/
theorem issues_inj (positive : 0 < layout.size) (member : spot ∈ spots 0 0 counts)
    (otherMember : other ∈ spots 0 0 counts) (issues : layout.Issues spot command)
    (otherIssues : layout.Issues other command) : spot = other := by
  have apart := spots_apart member otherMember
  have inside := (spots_above member).2.2
  have otherInside := (spots_above otherMember).2.2
  apply spots_inj member otherMember
  have reads {block : Nat} (reads : spot.Reads layout.depth block)
      (otherReads : other.Reads layout.depth block) : spot.block = other.block := by
    unfold Spot.Reads Spot.block at *
    omega
  cases command with
  | read block => exact reads issues otherIssues
  | synchronize block => exact reads issues.2 otherIssues.2
  | query call =>
      obtain ⟨zero, same⟩ := issues
      obtain ⟨otherZero, otherSame⟩ := otherIssues
      unfold Spot.block
      omega
  | callerReady call | begin call =>
      obtain ⟨ends, first, same⟩ := issues
      obtain ⟨otherEnds, otherFirst, otherSame⟩ := otherIssues
      have index := index_of_first positive ends first inside
      have otherIndex := index_of_first positive otherEnds otherFirst otherInside
      unfold Spot.block
      omega
  | done call | join call | output call =>
      obtain ⟨last, same⟩ := issues
      obtain ⟨otherLast, otherSame⟩ := otherIssues
      unfold Spot.block
      omega
  | result block | detach block => exact issues.symm.trans otherIssues
  | reuse block => exact issues.2.symm.trans otherIssues.2
  | mark chunk | follow chunk => exact issues.2.2.symm.trans otherIssues.2.2
  | gather first chunk => exact issues.2.2.2.symm.trans otherIssues.2.2.2
  | transfer first chunk => exact issues.2.2.symm.trans otherIssues.2.2
  | ready chunk | proceed chunk => exact issues.2.symm.trans otherIssues.2
  | attend call first chunk => exact issues.2.2.2.symm.trans otherIssues.2.2.2

theorem order_nodup (positive : 0 < layout.size) : (layout.order counts).Nodup := by
  refine List.nodup_flatMap.mpr ⟨fun spot _ => commands_nodup, ?_⟩
  refine (spots_pairwise 0 0 counts).imp_of_mem ?_
  intro spot other member otherMember before command first second
  have same := issues_inj positive member otherMember (mem_commands.mp first)
    (mem_commands.mp second)
  exact absurd (congrArg Spot.block same) (Nat.ne_of_lt before)

theorem commands_sublist (member : spot ∈ spots 0 0 counts) :
    (layout.commands spot).Sublist (layout.order counts) := by
  obtain ⟨front, back, spots_eq⟩ := List.append_of_mem member
  rw [order, spots_eq, List.flatMap_append, List.flatMap_cons]
  exact (List.sublist_append_left _ _).trans (List.sublist_append_right _ _)

theorem order_of_lt (member : spot ∈ spots 0 0 counts) (otherMember : other ∈ spots 0 0 counts)
    (before : spot.block < other.block) (issues : layout.Issues spot command)
    (otherIssues : layout.Issues other later) : [command, later].Sublist (layout.order counts) := by
  obtain ⟨front, back, spots_eq⟩ := List.append_of_mem otherMember
  have pairwise := spots_pairwise 0 0 counts
  have inFront : spot ∈ front := by
    rw [spots_eq] at member pairwise
    obtain ⟨_, tail, _⟩ := List.pairwise_append.mp pairwise
    rcases List.mem_append.mp member with inside | behind
    · exact inside
    · rcases List.mem_cons.mp behind with rfl | after
      · exact absurd before (Nat.lt_irrefl _)
      · have opposite := (List.pairwise_cons.mp tail).1 spot after
        exact absurd (before.trans opposite) (Nat.lt_irrefl _)
  rw [order, spots_eq, List.flatMap_append, List.flatMap_cons]
  have first : [command].Sublist (front.flatMap layout.commands) :=
    List.singleton_sublist.mpr (List.mem_flatMap.mpr ⟨spot, inFront, mem_commands.mpr issues⟩)
  have second : [later].Sublist (layout.commands other ++ back.flatMap layout.commands) :=
    List.singleton_sublist.mpr (List.mem_append_left _ (mem_commands.mpr otherIssues))
  exact first.append second

theorem order_of_rank (member : spot ∈ spots 0 0 counts) (issues : layout.Issues spot command)
    (otherIssues : layout.Issues spot later)
    (smaller : layout.rank spot command < layout.rank spot later) :
    [command, later].Sublist (layout.order counts) := by
  apply List.Sublist.trans _ (commands_sublist member)
  have first := mem_commands.mpr issues
  have second := mem_commands.mpr otherIssues
  have pairwise := @commands_pairwise layout spot
  generalize layout.commands spot = commands at first second pairwise
  obtain ⟨front, back, rfl⟩ := List.append_of_mem second
  have inFront : command ∈ front := by
    rcases List.mem_append.mp first with inside | behind
    · exact inside
    · rcases List.mem_cons.mp behind with rfl | after
      · exact absurd smaller (Nat.lt_irrefl _)
      · obtain ⟨_, tail, _⟩ := List.pairwise_append.mp pairwise
        have opposite := (List.pairwise_cons.mp tail).1 command after
        exact absurd smaller (Nat.not_lt.mpr opposite)
  have head : [command].Sublist front := List.singleton_sublist.mpr inFront
  have rest : [later].Sublist (later :: back) := List.singleton_sublist.mpr List.mem_cons_self
  exact head.append rest

theorem before (positive : 0 < layout.size) (member : spot ∈ spots 0 0 counts)
    (otherMember : other ∈ spots 0 0 counts) (issues : layout.Issues spot command)
    (otherIssues : layout.Issues other later)
    (earlier : spot.block < other.block ∨
      spot.block = other.block ∧ layout.rank spot command < layout.rank spot later) :
    (layout.order counts).idxOf command < (layout.order counts).idxOf later := by
  apply idxOf_lt_of_sublist (order_nodup positive)
  rcases earlier with block | ⟨block, smaller⟩
  · exact order_of_lt member otherMember block issues otherIssues
  · obtain rfl := spots_inj member otherMember block
    exact order_of_rank member issues otherIssues smaller

end Layout

end Order

end DecodeStreams

end KVSSD

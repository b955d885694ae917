import KVSSD.StreamOrder

/-!
# Races of the streams

Two commands that touch one place, of which one writes it, are ordered by the events and the queues:
a slot by the reads and the events of its reuse, and what is staged and merged by the events of the
chunk and of the call.  A detached block is ordered by the host where the slots lie there.  Where
they lie on the GPU nothing makes the transfer stream wait for the last block of a chunk.
-/

namespace KVSSD

open KVSSD.Python KVSSD.Struct KVSSD.Streams Relation

namespace DecodeStreams

namespace Layout

variable {layout : Layout} {counts : List Nat} {spot other : Spot}

theorem spot_of_reads {block : Nat} (member : spot ∈ spots 0 0 counts)
    (reads : spot.Reads layout.depth block) :
    ∃ own ∈ spots 0 0 counts, own.block = block ∧ spot.block ≤ block := by
  have inside := (spots_above member).2.2
  unfold Spot.Reads Spot.block at reads
  refine ⟨{ spot with index := block - spot.start }, spots_whole member (by omega), ?_, ?_⟩
  · simp only [Spot.block]
    omega
  · unfold Spot.block
    omega

theorem reads_of_spot (positive : 0 < layout.depth) (member : spot ∈ spots 0 0 counts) :
    ∃ reader ∈ spots 0 0 counts, reader.Reads layout.depth spot.block ∧
      (reader.block < spot.block ∨
        reader.block = spot.block ∧ layout.rank reader (.read spot.block) = 1) := by
  have inside := (spots_above member).2.2
  by_cases early : spot.index < layout.depth
  · refine ⟨{ spot with index := 0 }, spots_whole member (by omega), Or.inl ⟨rfl, ?_⟩, ?_⟩
    · simp only [Spot.block]
      omega
    · by_cases zero : spot.index = 0
      · refine Or.inr ⟨?_, if_pos ?_⟩
        · simp only [Spot.block]
          omega
        · simp only [Spot.block]
          omega
      · left
        simp only [Spot.block]
        omega
  · refine ⟨{ spot with index := spot.index - layout.depth }, spots_whole member (by omega),
      Or.inr ⟨?_, ?_⟩, Or.inl ?_⟩
    · simp only
      omega
    · simp only [Spot.block]
      omega
    · simp only [Spot.block]
      omega

end Layout

namespace Setting

variable {F : Type} [AttentionArith F] {setting : Setting F} {spot other : Spot}
  {command later : Command}

/-- A block of some call. -/
def Has (setting : Setting F) (spot : Spot) : Prop := spot ∈ spots 0 0 setting.counts

section Precedes

variable (staged : 0 < setting.layout.size) (slots : 0 < setting.layout.depth)

include staged in
theorem precedes (member : setting.Has spot) (otherMember : setting.Has other)
    (issues : setting.layout.Issues spot command)
    (otherIssues : setting.layout.Issues other later)
    (earlier : spot.block < other.block ∨
      spot.block = other.block ∧
        setting.layout.rank spot command < setting.layout.rank spot later) :
    setting.program.Precedes command later :=
  Layout.before staged member otherMember issues otherIssues earlier

include staged in
theorem precedes_here (member : setting.Has spot) (issues : setting.layout.Issues spot command)
    (otherIssues : setting.layout.Issues spot later)
    (smaller : setting.layout.rank spot command < setting.layout.rank spot later) :
    setting.program.Precedes command later :=
  precedes staged member member issues otherIssues (Or.inr ⟨rfl, smaller⟩)

include staged slots in
theorem read_result (member : setting.Has spot) :
    setting.program.Precedes (.read spot.block) (.result spot.block) := by
  obtain ⟨reader, readerMember, reads, earlier⟩ := Layout.reads_of_spot slots member
  refine precedes staged readerMember member reads rfl ?_
  rcases earlier with before | ⟨same, rank⟩
  · exact Or.inl before
  · refine Or.inr ⟨same, ?_⟩
    rw [rank]
    exact (by decide : 1 < 2)

include staged in
theorem precedes_read {block : Nat} (member : setting.Has spot) (otherMember : setting.Has other)
    (reads : other.Reads setting.layout.depth block)
    (issues : setting.layout.Issues spot command)
    (behind : spot.block + setting.layout.depth ≤ block)
    (small : setting.layout.rank spot command < 13) :
    setting.program.Precedes command (.read block) := by
  refine precedes staged member otherMember issues reads ?_
  rcases reads with ⟨zero, above, below⟩ | ⟨more, rfl⟩
  · left
    have place : other.block = other.start := by rw [Spot.block, zero, Nat.add_zero]
    omega
  · rcases Nat.lt_or_eq_of_le (Nat.le_of_add_le_add_right behind) with earlier | same
    · exact Or.inl earlier
    · refine Or.inr ⟨same, ?_⟩
      have last : setting.layout.rank spot (.read (other.block + setting.layout.depth)) = 13 :=
        if_neg (by omega)
      rw [last]
      exact small

include staged in
theorem synchronize_read {block : Nat} (member : setting.Has spot)
    (issues : setting.layout.Issues spot (.synchronize block)) :
    setting.program.Precedes (.synchronize block) (.read (block + setting.layout.depth)) := by
  obtain ⟨device, reads⟩ := issues
  apply idxOf_lt_of_sublist (Layout.order_nodup staged)
  apply List.Sublist.trans _ (Layout.commands_sublist member)
  have submits : setting.layout.submit (block + setting.layout.depth) =
      [.synchronize block, .read (block + setting.layout.depth)] := by
    rw [Layout.submit, if_pos ⟨device, Nat.le_add_left _ _⟩, Nat.add_sub_cancel]
    rfl
  rw [← submits]
  unfold Layout.commands
  rcases Layout.reads_iff.mp reads with ⟨zero, index, inside, same⟩ | ⟨more, same⟩
  · apply List.sublist_append_of_sublist_left
    rw [Layout.prologue, if_pos zero, same]
    apply List.Sublist.cons
    obtain ⟨front, back, range⟩ := List.append_of_mem (List.mem_range.mpr inside)
    rw [range, List.flatMap_append, List.flatMap_cons]
    exact (List.sublist_append_left _ _).trans (List.sublist_append_right _ _)
  · apply List.sublist_append_of_sublist_right
    apply List.sublist_append_of_sublist_right
    apply List.sublist_append_of_sublist_right
    apply List.sublist_append_of_sublist_left
    rw [Layout.refill, if_pos more, same]

include staged slots in
theorem synchronize_precedes {block : Nat} (device : setting.layout.device = true)
    (otherMember : setting.Has other) (reads : other.Reads setting.layout.depth block)
    (behind : spot.block + setting.layout.depth = block ∨
      spot.block + setting.layout.depth + setting.layout.depth ≤ block) :
    (∃ reader, setting.Has reader ∧ setting.layout.Issues reader (.synchronize spot.block)) ∧
      setting.program.Precedes (.synchronize spot.block) (.read block) := by
  obtain ⟨own, ownMember, rfl, _⟩ := Layout.spot_of_reads otherMember reads
  obtain ⟨next, nextMember, nextBlock⟩ : Known setting.counts
      (spot.block + setting.layout.depth) := known_of_le ownMember (by omega)
  obtain ⟨reader, readerMember, readsNext, _⟩ := Layout.reads_of_spot slots nextMember
  rw [nextBlock] at readsNext
  have issues : setting.layout.Issues reader (.synchronize spot.block) := ⟨device, readsNext⟩
  have first := synchronize_read staged readerMember issues
  refine ⟨⟨reader, readerMember, issues⟩, ?_⟩
  rcases behind with same | later
  · rw [← same]
    exact first
  · have taken := read_result staged slots nextMember
    rw [nextBlock] at taken
    have last : setting.program.Precedes (.result (spot.block + setting.layout.depth))
        (.read own.block) :=
      precedes_read staged nextMember otherMember reads nextBlock.symm
        (by rw [nextBlock]; exact later) (by decide : 2 < 13)
    exact first.trans (taken.trans last)

end Precedes

section Needs

variable (staged : 0 < setting.layout.size) (slots : 0 < setting.layout.depth)

theorem next_use {block another depth : Nat} (same : block % depth = another % depth)
    (before : block < another) : block + depth = another ∨ block + depth + depth ≤ another := by
  obtain ⟨rounds, difference⟩ := (Nat.modEq_iff_dvd' before.le).mp same
  rcases rounds with _ | _ | rounds
  · omega
  · left
    omega
  · right
    have far : depth * 2 ≤ depth * (rounds + 1 + 1) := Nat.mul_le_mul_left depth (by omega)
    omega

theorem needs_of_queue (member : command ∈ setting.program.order)
    (different : command ≠ later)
    (same : setting.layout.queue command = setting.layout.queue later) :
    TransGen setting.program.Needs command later ∨
      TransGen setting.program.Needs later command := by
  rcases Nat.lt_trichotomy (setting.program.order.idxOf command)
    (setting.program.order.idxOf later) with first | equal | second
  · exact Or.inl (.single (.stream first same))
  · exact absurd ((List.idxOf_inj member).mp equal) different
  · exact Or.inr (.single (.stream second same.symm))

include staged in
/-- The compute stream waits for the query. -/
theorem query_attend {call first chunk : Nat} (member : setting.Has spot)
    (otherMember : setting.Has other) (issues : setting.layout.Issues spot (.query call))
    (otherIssues : setting.layout.Issues other (.attend call first chunk)) :
    TransGen setting.program.Needs (.query call) (.attend call first chunk) := by
  obtain ⟨zero, rfl⟩ := issues
  obtain ⟨ends, same, _, _⟩ := otherIssues
  have inside := (spots_above member).2.2
  have apart := spots_apart member otherMember
  have opening : setting.Has { spot with index := min setting.layout.size spot.count - 1 } :=
    spots_whole member (by omega)
  have opens : (Spot.Ends setting.layout.size
      { spot with index := min setting.layout.size spot.count - 1 }) := by
    rcases Nat.le_total setting.layout.size spot.count with full | short
    · left
      simp only [Nat.min_eq_left full, Nat.sub_add_cancel staged]
      exact Nat.dvd_refl _
    · right
      simp only [Nat.min_eq_right short]
      omega
  have front : (min setting.layout.size spot.count - 1) / setting.layout.size = 0 :=
    Nat.div_eq_of_lt (by omega)
  have least : min setting.layout.size spot.count - 1 ≤ other.index := by
    rcases ends with whole | last
    · have reaches := Nat.le_of_dvd (Nat.succ_pos _) whole
      omega
    · omega
  have marks : setting.program.Precedes (.query spot.call) (.callerReady spot.call) := by
    refine precedes staged member opening ⟨zero, rfl⟩ ⟨opens, front, rfl⟩ ?_
    unfold Spot.block
    simp only [Layout.rank]
    omega
  have runs : setting.program.Precedes (.begin spot.call) (.attend spot.call first chunk) := by
    refine precedes staged opening otherMember ⟨opens, front, rfl⟩ ⟨ends, same, ‹_›, ‹_›⟩ ?_
    unfold Spot.block
    simp only [Layout.rank]
    omega
  have waited : setting.program.Needs (.callerReady spot.call) (.begin spot.call) :=
    .event (List.mem_singleton_self _)
  exact ((TransGen.single (.stream marks rfl)).tail waited).tail (.stream runs rfl)

include staged in
theorem transfer_attend {call first another chunk : Nat} (member : setting.Has spot)
    (otherMember : setting.Has other)
    (issues : setting.layout.Issues spot (.transfer first chunk))
    (otherIssues : setting.layout.Issues other (.attend call another chunk)) :
    TransGen setting.program.Needs (.transfer first chunk) (.attend call another chunk) := by
  have same : spot.block = other.block := issues.2.2.symm.trans otherIssues.2.2.2
  have recorded : setting.program.Precedes (.transfer first chunk) (.ready chunk) :=
    precedes_here staged member issues ⟨issues.1, issues.2.2⟩ (by simp [Layout.rank])
  have runs : setting.program.Precedes (.proceed chunk) (.attend call another chunk) :=
    precedes_here staged otherMember ⟨otherIssues.1, otherIssues.2.2.2⟩ otherIssues
      (by simp [Layout.rank])
  have waited : setting.program.Needs (.ready chunk) (.proceed chunk) :=
    .event (List.mem_singleton_self _)
  exact ((TransGen.single (.stream recorded rfl)).tail waited).tail (.stream runs rfl)

include staged in
theorem compute_join (member : setting.Has spot)
    (issues : setting.layout.Issues spot command) (small : setting.layout.rank spot command < 14)
    (compute : setting.layout.queue command = some .compute) :
    (∃ last, setting.Has last ∧ last.call = spot.call ∧ last.block < spot.start + spot.count ∧
      setting.layout.Issues last (.join spot.call) ∧
        setting.layout.Issues last (.output spot.call)) ∧
      TransGen setting.program.Needs command (.join spot.call) := by
  have inside := (spots_above member).2.2
  have closing : setting.Has { spot with index := spot.count - 1 } :=
    spots_whole member (by omega)
  have last : spot.count - 1 + 1 = spot.count := by omega
  have records : setting.program.Precedes command (.done spot.call) := by
    refine precedes staged member closing issues ⟨last, rfl⟩ ?_
    rcases Nat.lt_or_eq_of_le (Nat.le_sub_one_of_lt inside) with before | same
    · exact Or.inl (Nat.add_lt_add_left before _)
    · exact Or.inr ⟨congrArg (spot.start + ·) same, small⟩
  have waited : setting.program.Needs (.done spot.call) (.join spot.call) :=
    .event (List.mem_singleton_self _)
  refine ⟨⟨_, closing, rfl, ?_, ⟨last, rfl⟩, ⟨last, rfl⟩⟩,
    (TransGen.single (.stream records compute)).tail waited⟩
  simp only [Spot.block]
  omega

include staged in
theorem attend_output {call first chunk : Nat} (member : setting.Has spot)
    (issues : setting.layout.Issues spot (.attend call first chunk)) :
    TransGen setting.program.Needs (.attend call first chunk) (.output call) := by
  obtain ⟨⟨last, lastMember, _, _, joins, returns⟩, needs⟩ :=
    compute_join staged member issues (by decide : 12 < 14) rfl
  obtain ⟨_, rfl, _, _⟩ := issues
  have before := precedes_here staged lastMember joins returns (by simp [Layout.rank])
  exact needs.tail (.stream before rfl)

include staged slots in
/-- Uses of one slot follow each other. -/
theorem read_detach {block another : Nat} (member : setting.Has spot)
    (otherMember : setting.Has other) (issues : setting.layout.Issues spot (.read block))
    (otherIssues : setting.layout.Issues other (.detach another))
    (same : block % setting.layout.depth = another % setting.layout.depth) :
    TransGen setting.program.Needs (.read block) (.detach another) ∨
      TransGen setting.program.Needs (.detach another) (.read block) := by
  obtain rfl : another = other.block := otherIssues
  by_cases before : block ≤ other.block
  · left
    obtain ⟨own, ownMember, rfl, _⟩ := Layout.spot_of_reads member issues
    have waited : setting.program.Needs (.read own.block) (.result own.block) :=
      .event (List.mem_singleton_self _)
    have takes : setting.program.Precedes (.result own.block) (.detach other.block) := by
      refine precedes staged ownMember otherMember rfl rfl ?_
      rcases Nat.lt_or_eq_of_le before with earlier | equal
      · exact Or.inl earlier
      · exact Or.inr ⟨equal, by simp [Layout.rank]⟩
    exact (TransGen.single waited).tail (.host takes rfl)
  · right
    have behind := next_use same.symm (Nat.lt_of_not_le before)
    cases device : setting.layout.device with
    | true =>
        obtain ⟨⟨reader, readerMember, waits⟩, freed⟩ :=
          synchronize_precedes staged slots device member issues behind
        have records : setting.program.Precedes (.detach other.block) (.reuse other.block) :=
          precedes_here staged otherMember rfl ⟨device, rfl⟩ (by simp [Layout.rank])
        have waited : setting.program.Needs (.reuse other.block) (.synchronize other.block) :=
          .event (List.mem_singleton_self _)
        have together : setting.layout.queue (.detach other.block) =
            setting.layout.queue (.reuse other.block) := if_pos device
        exact ((TransGen.single (.stream records together)).tail waited).tail (.host freed rfl)
    | false =>
        have detaches : setting.layout.Issues other (.detach other.block) := rfl
        have frees := precedes_read staged otherMember member issues detaches (by omega)
          (by decide : 3 < 13)
        have onHost : setting.layout.queue (.detach other.block) = none :=
          if_neg (by simp [device])
        exact TransGen.single (.host frees onHost)

include staged slots in
/-- What a command waits for is issued before it. -/
theorem waits_precede (member : command ∈ setting.program.order) :
    ∀ event ∈ setting.program.waits command, setting.program.Precedes event command := by
  obtain ⟨spot, has, issues⟩ := Layout.mem_order.mp member
  intro event waited
  cases command with
  | result block =>
      obtain rfl := List.mem_singleton.mp waited
      obtain rfl : block = spot.block := issues
      exact read_result staged slots has
  | synchronize block =>
      obtain rfl := List.mem_singleton.mp waited
      obtain ⟨device, reads⟩ := issues
      obtain ⟨own, ownMember, rfl, earlier⟩ : ∃ own, setting.Has own ∧ own.block = block ∧
          block ≤ spot.block := by
        have below : block ≤ spot.block := by
          unfold Spot.Reads Spot.block at reads
          unfold Spot.block
          omega
        obtain ⟨own, ownMember, same⟩ := known_of_le has below
        exact ⟨own, ownMember, same, below⟩
      refine precedes staged ownMember has ⟨device, rfl⟩ ⟨device, reads⟩ ?_
      rcases Nat.lt_or_eq_of_le earlier with before | same
      · exact Or.inl before
      · refine Or.inr ⟨same, ?_⟩
        simp [Layout.rank]
  | follow chunk =>
      obtain rfl := List.mem_singleton.mp waited
      exact precedes_here staged has issues issues (by simp [Layout.rank])
  | «begin» call =>
      obtain rfl := List.mem_singleton.mp waited
      exact precedes_here staged has issues issues (by simp [Layout.rank])
  | proceed chunk =>
      obtain rfl := List.mem_singleton.mp waited
      exact precedes_here staged has issues issues (by simp [Layout.rank])
  | join call =>
      obtain rfl := List.mem_singleton.mp waited
      exact precedes_here staged has issues issues (by simp [Layout.rank])
  | _ => cases waited

end Needs

section Touched

variable (setting)

/-- The place that a command writes. -/
def writes : Command → Place → Prop
  | .query call => (· = .query call)
  | .read block => (· = .slot (block % setting.depth))
  | .detach block => (· = .block (setting.address block))
  | .gather _ chunk => (· = .pinned chunk)
  | .transfer _ chunk => (· = .staged chunk)
  | .attend call _ _ => (· = .merged call)
  | .output call => (· = .output call)
  | _ => fun _ => False

/-- The detached blocks of a chunk. -/
def chunkPlaces (first chunk : Nat) (place : Place) : Prop :=
  ∃ block, first ≤ block ∧ block ≤ chunk ∧ place = .block (setting.address block)

/-- The places that a command reads. -/
def reads : Command → Place → Prop
  | .read block => (· = .slot (block % setting.depth))
  | .detach block => (· = .slot (block % setting.depth))
  | .gather first chunk => setting.chunkPlaces first chunk
  | .transfer first chunk => fun place =>
      if setting.layout.device then setting.chunkPlaces first chunk place
      else place = .pinned chunk
  | .attend call _ chunk => fun place =>
      place = .query call ∨ place = .staged chunk ∨ place = .merged call
  | .output call => (· = .merged call)
  | _ => fun _ => False

theorem mapM_option_congr {α β : Type} {one other : α → Option β} {items : List α}
    (same : ∀ item ∈ items, one item = other item) : items.mapM one = items.mapM other := by
  induction items with
  | nil => rfl
  | cons item items induction =>
      rw [List.mapM_cons, List.mapM_cons, same item List.mem_cons_self,
        induction fun next member => same next (List.mem_cons_of_mem _ member)]

omit [AttentionArith F] in
theorem batch_congr {memory other : Cells F} {first chunk : Nat}
    (agrees : ∀ place, setting.chunkPlaces first chunk place → memory place = other place) :
    setting.batch memory first chunk = setting.batch other first chunk := by
  have same : ((List.range (chunk + 1 - first)).mapM fun index =>
        memory (.block (setting.address (first + index)))) =
      (List.range (chunk + 1 - first)).mapM fun index =>
        other (.block (setting.address (first + index))) := by
    apply mapM_option_congr
    intro index inside
    have below := List.mem_range.mp inside
    exact agrees _ ⟨first + index, by omega, by omega, rfl⟩
  rw [batch, same]
  rfl

theorem touches (command : Command) :
    Touches (setting.program.effect command) (setting.writes command)
      (setting.reads command) := by
  cases command with
  | query call => exact Touches.update _ fun _ _ _ => rfl
  | read block =>
      refine Touches.update _ fun memory other agrees => ?_
      exact congrArg _ (agrees _ rfl)
  | detach block =>
      refine Touches.update _ fun memory other agrees => ?_
      exact congrArg _ (agrees _ rfl)
  | gather first chunk =>
      refine Touches.update _ fun memory other agrees => ?_
      exact setting.batch_congr agrees
  | transfer first chunk =>
      refine Touches.update _ fun memory other agrees => ?_
      cases device : setting.layout.device with
      | true =>
          simp only [reads, device, if_true] at agrees ⊢
          exact setting.batch_congr agrees
      | false =>
          simp only [reads, device] at agrees ⊢
          exact agrees _ rfl
  | attend call first chunk =>
      refine Touches.update _ fun memory other agrees => ?_
      simp only [agrees _ (Or.inl rfl), agrees _ (Or.inr (Or.inl rfl)),
        agrees _ (Or.inr (Or.inr rfl))]
  | output call =>
      refine Touches.update _ fun memory other agrees => ?_
      rw [agrees _ rfl]
  | _ => exact Touches.id

end Touched

section Races

variable (staged : 0 < setting.layout.size) (slots : 0 < setting.layout.depth)

/-- Every two commands that touch a place, of which one writes it, are ordered. -/
def OrderedAt (setting : Setting F) (place : Place) : Prop :=
  ∀ one ∈ setting.program.order, ∀ other ∈ setting.program.order, one ≠ other →
    setting.writes one place → setting.writes other place ∨ setting.reads other place →
      TransGen setting.program.Needs one other ∨ TransGen setting.program.Needs other one

include staged slots in
/-- The memory of detached blocks on the GPU is the only place where there may be races. -/
theorem orderedAt {place : Place}
    (elsewhere : setting.layout.device = true → ∀ address, place ≠ .block address) :
    setting.OrderedAt place := by
  intro command member later otherMember different written touched
  obtain ⟨spot, has, issues⟩ := Layout.mem_order.mp member
  obtain ⟨other, otherHas, otherIssues⟩ := Layout.mem_order.mp otherMember
  cases command with
  | query call =>
      obtain rfl : place = .query call := written
      cases later with
      | query another =>
          obtain rfl : call = another := by simpa [writes, reads] using touched
          exact absurd rfl different
      | attend another first chunk =>
          obtain rfl : call = another := by simpa [writes, reads] using touched
          exact Or.inl (query_attend staged has otherHas issues otherIssues)
      | _ => simp [writes, reads, chunkPlaces] at touched
  | read block =>
      obtain rfl : place = .slot (block % setting.depth) := written
      cases later with
      | read another =>
          have same : block % setting.depth = another % setting.depth := by
            simpa [writes, reads] using touched
          have queue : setting.layout.queue (.read block) = setting.layout.queue (.read another) :=
            congrArg (fun slot => some (Queue.reads slot)) same
          exact needs_of_queue member different queue
      | detach another =>
          have same : block % setting.depth = another % setting.depth := by
            simpa [writes, reads] using touched
          exact read_detach staged slots has otherHas issues otherIssues same
      | _ => simp [writes, reads, chunkPlaces] at touched
  | detach block =>
      obtain rfl : place = .block (setting.address block) := written
      cases later with
      | detach another => exact needs_of_queue member different rfl
      | gather first chunk =>
          have onHost : setting.layout.queue (.detach block) = none :=
            if_neg (by simp [otherIssues.2.1])
          exact needs_of_queue member different onHost
      | transfer first chunk =>
          cases device : setting.layout.device with
          | true => exact absurd rfl (elsewhere device (setting.address block))
          | false => simp [writes, reads, device] at touched
      | _ => simp [writes, reads] at touched
  | gather first chunk =>
      obtain rfl : place = .pinned chunk := written
      cases later with
      | gather another next => exact needs_of_queue member different rfl
      | transfer another next =>
          obtain ⟨_, device, _, block⟩ := id issues
          obtain rfl : chunk = next := by simpa [writes, reads, device] using touched
          have copies : setting.program.Precedes (.gather first chunk)
              (.transfer another chunk) := by
            refine precedes staged has otherHas issues otherIssues (Or.inr ⟨?_, ?_⟩)
            · exact block.symm.trans otherIssues.2.2
            · simp [Layout.rank]
          exact Or.inl (.single (.host copies rfl))
      | _ => simp [writes, reads] at touched
  | transfer first chunk =>
      obtain rfl : place = .staged chunk := written
      cases later with
      | transfer another next => exact needs_of_queue member different rfl
      | attend call another next =>
          obtain rfl : chunk = next := by simpa [writes, reads] using touched
          exact Or.inl (transfer_attend staged has otherHas issues otherIssues)
      | _ => simp [writes, reads, chunkPlaces] at touched
  | attend call first chunk =>
      obtain rfl : place = .merged call := written
      cases later with
      | attend another next last => exact needs_of_queue member different rfl
      | output another =>
          obtain rfl : call = another := by simpa [writes, reads] using touched
          exact Or.inl (attend_output staged has issues)
      | _ => simp [writes, reads, chunkPlaces] at touched
  | output call =>
      obtain rfl : place = .output call := written
      cases later with
      | output another =>
          obtain rfl : call = another := by simpa [writes, reads] using touched
          exact absurd rfl different
      | _ => simp [writes, reads, chunkPlaces] at touched
  | _ => exact written.elim

include staged slots in
theorem raceFree (host : setting.layout.device = false) : setting.program.RaceFree where
  nodup := Layout.order_nodup staged
  waits := fun _ member => waits_precede staged slots member
  ordered := by
    intro one member other otherMember different
    have ordered (place : Place) : setting.OrderedAt place :=
      orderedAt staged slots fun device => by simp [host] at device
    by_cases conflict : ∃ place,
        (setting.writes one place ∧ (setting.writes other place ∨ setting.reads other place)) ∨
          (setting.writes other place ∧ setting.reads one place)
    · right
      obtain ⟨place, ⟨written, touched⟩ | ⟨written, read⟩⟩ := conflict
      · exact ordered place one member other otherMember different written touched
      · exact (ordered place other otherMember one member different.symm written
          (Or.inr read)).symm
    · left
      apply (setting.touches one).commute (setting.touches other)
      · intro place written
        exact ⟨fun also => conflict ⟨place, Or.inl ⟨written, Or.inl also⟩⟩,
          fun read => conflict ⟨place, Or.inl ⟨written, Or.inr read⟩⟩⟩
      · exact fun place written read => conflict ⟨place, Or.inr ⟨written, read⟩⟩

section Last

variable (device : setting.layout.device = true) (member : setting.Has spot)
  (ends : spot.Ends setting.layout.size)

include ends in
omit [AttentionArith F] in
theorem issues_transfer : setting.layout.Issues spot
    (.transfer (spot.first setting.layout.size) spot.block) := ⟨ends, rfl, rfl⟩

include staged member ends in
/-- What the caller's stream does behind the last block of a chunk comes behind the stack, but for
the event of the slot. -/
theorem caller_behind (known : command ∈ setting.program.order)
    (caller : setting.layout.queue command = some .caller)
    (behind : setting.program.Precedes (.detach spot.block) command) :
    command = .reuse spot.block ∨
      setting.program.Precedes (.transfer (spot.first setting.layout.size) spot.block) command := by
  obtain ⟨other, otherMember, issues⟩ := Layout.mem_order.mp known
  have detaches : setting.layout.Issues spot (.detach spot.block) := rfl
  rcases Nat.lt_trichotomy other.block spot.block with earlier | same | later
  · have opposite := precedes staged otherMember member issues detaches (Or.inl earlier)
    exact absurd (opposite.trans behind) (Nat.lt_irrefl _)
  · obtain rfl := spots_inj otherMember member same
    have after (rank : 7 < setting.layout.rank other command) :
        setting.program.Precedes (.transfer (other.first setting.layout.size) other.block)
          command := precedes_here staged member (issues_transfer ends) issues rank
    cases command with
    | query call =>
        have opposite := precedes_here staged member issues detaches (by simp [Layout.rank])
        exact absurd (opposite.trans behind) (Nat.lt_irrefl _)
    | detach block =>
        obtain rfl : block = other.block := issues
        exact absurd behind (Nat.lt_irrefl _)
    | reuse block =>
        obtain rfl : block = other.block := issues.2
        exact Or.inl rfl
    | callerReady call => exact Or.inr (after (by simp [Layout.rank]))
    | join call => exact Or.inr (after (by simp [Layout.rank]))
    | output call => exact Or.inr (after (by simp [Layout.rank]))
    | _ => simp [Layout.queue] at caller
  · exact Or.inr (precedes staged member otherMember (issues_transfer ends) issues (Or.inl later))

include staged member ends in
theorem synchronize_behind (known : .synchronize spot.block ∈ setting.program.order) :
    setting.program.Precedes (.transfer (spot.first setting.layout.size) spot.block)
      (.synchronize spot.block) := by
  obtain ⟨other, otherMember, issues⟩ := Layout.mem_order.mp known
  obtain ⟨_, reads⟩ := id issues
  refine precedes staged member otherMember (issues_transfer ends) issues ?_
  rcases Layout.synchronizes_iff.mp reads with ⟨zero, index, inside, reused, same⟩ | ⟨_, same⟩
  · left
    have place : other.block = other.start := by rw [Spot.block, zero, Nat.add_zero]
    omega
  · exact Or.inr ⟨same, by simp [Layout.rank, same]⟩

include staged slots device member ends in
/-- Nothing makes the stack wait for the last block of its chunk. -/
theorem not_needs_detach :
    ¬ TransGen setting.program.Needs (.detach spot.block)
      (.transfer (spot.first setting.layout.size) spot.block) := by
  have waits {command : Command} (member : command ∈ setting.program.order) :=
    waits_precede staged slots member
  have onCaller : setting.layout.queue (.detach spot.block) = some .caller := if_pos device
  have behind : ∀ command, TransGen setting.program.Needs (.detach spot.block) command →
      command ∈ setting.program.order → command = .reuse spot.block ∨
        setting.program.Precedes (.transfer (spot.first setting.layout.size) spot.block)
          command := by
    intro command needs
    induction needs with
    | @single next need =>
        intro known
        cases need with
        | event waited => cases next <;> simp [program, DecodeStreams.waits] at waited
        | stream before same =>
            exact caller_behind staged member ends known (same.symm.trans onCaller) before
        | host _ onHost => cases onHost.symm.trans onCaller
    | @tail middle next needs need induction =>
        intro known
        have before := need.precedes (fun _ => waits) known
        rcases induction before.mem with rfl | later
        · cases need with
          | event waited =>
              cases next with
              | synchronize block =>
                  cases List.mem_singleton.mp waited
                  exact Or.inr (synchronize_behind staged member ends known)
              | _ => simp [program, DecodeStreams.waits] at waited
          | stream _ same =>
              have detached := Program.precedes_of_needs (fun _ => waits) needs before.mem
              exact caller_behind staged member ends known same.symm (detached.trans before)
          | host _ onHost => cases onHost
        · exact Or.inr (later.trans before)
  intro needs
  have known : .transfer (spot.first setting.layout.size) spot.block ∈ setting.program.order :=
    Layout.mem_order.mpr ⟨spot, member, issues_transfer ends⟩
  rcases behind _ needs known with same | before
  · cases same
  · exact Nat.lt_irrefl _ before

include staged slots device member ends in
theorem stacks_early (memory : Cells F) :
    ∃ events state, Transition.run setting.program.step (State.start memory) events = some state ∧
      .transfer (spot.first setting.layout.size) spot.block ∈ state.finished ∧
        .detach spot.block ∉ state.finished := by
  have known : .transfer (spot.first setting.layout.size) spot.block ∈ setting.program.order :=
    Layout.mem_order.mpr ⟨spot, member, issues_transfer ends⟩
  obtain ⟨events, state, reached, finished⟩ := Program.exists_run_to (Layout.order_nodup staged)
    (fun _ member => waits_precede staged slots member) known memory
  refine ⟨events, state, reached, (finished _).mpr (Or.inl rfl), fun detached => ?_⟩
  rcases (finished _).mp detached with same | needs
  · cases same
  · exact not_needs_detach staged slots device member ends needs

end Last

end Races

/-- Every two operations that touch one place, of which one writes it, are ordered, but for the
memory of detached blocks on the GPU. There, every chunk may be stacked when its last block is not
detached yet. -/
theorem races_iff {F : Type} [AttentionArith F] {setting : Setting F}
    (staged : 0 < setting.layout.size) (slots : 0 < setting.layout.depth) :
    (∀ command, Touches (setting.program.effect command) (setting.writes command)
      (setting.reads command)) ∧
    (∀ place, (setting.layout.device = true → ∀ address, place ≠ .block address) →
      setting.OrderedAt place) ∧
    (setting.layout.device = true → ∀ spot, setting.Has spot → spot.Ends setting.layout.size →
      ∀ memory, ∃ events state,
        Transition.run setting.program.step (State.start memory) events = some state ∧
          .transfer (spot.first setting.layout.size) spot.block ∈ state.finished ∧
            .detach spot.block ∉ state.finished) ∧
    ((∀ place, setting.OrderedAt place) ↔
      setting.layout.device = false ∨ ∀ spot, ¬ setting.Has spot) := by
  refine ⟨setting.touches, fun place => orderedAt staged slots,
    fun device spot member ends => stacks_early staged slots device member ends, ?_, ?_⟩
  · intro ordered
    by_contra races
    obtain ⟨onDevice, calls⟩ := not_or.mp races
    have device : setting.layout.device = true := by simpa using onDevice
    obtain ⟨spot, member⟩ := not_forall_not.mp calls
    have inside := (spots_above member).2.2
    have closing : setting.Has { spot with index := spot.count - 1 } :=
      spots_whole member (by omega)
    have ends : Spot.Ends setting.layout.size { spot with index := spot.count - 1 } :=
      Or.inr (Nat.sub_add_cancel (by omega))
    generalize { spot with index := spot.count - 1 } = last at closing ends
    have detaches : setting.layout.Issues last (.detach last.block) := rfl
    have known : .transfer (last.first setting.layout.size) last.block ∈ setting.program.order :=
      Layout.mem_order.mpr ⟨last, closing, issues_transfer ends⟩
    have stacked : setting.chunkPlaces (last.first setting.layout.size) last.block
        (.block (setting.address last.block)) := by
      refine ⟨last.block, ?_, Nat.le_refl _, rfl⟩
      unfold Spot.first Spot.block
      have low := Nat.div_mul_le_self last.index setting.layout.size
      omega
    rcases ordered (.block (setting.address last.block)) _
      (Layout.mem_order.mpr ⟨last, closing, detaches⟩) _ known nofun rfl
      (Or.inr (by simpa [reads, device] using stacked)) with forward | backward
    · exact not_needs_detach staged slots device closing ends forward
    · have order := Program.precedes_of_needs (fun _ => waits_precede staged slots) backward
        (Layout.mem_order.mpr ⟨last, closing, detaches⟩)
      have opposite := precedes_here staged closing detaches (issues_transfer ends)
        (by simp [Layout.rank])
      exact Nat.lt_irrefl _ (opposite.trans order)
  · rintro (host | none) place
    · exact orderedAt staged slots fun device => by simp [host] at device
    · intro one member
      obtain ⟨spot, has, _⟩ := Layout.mem_order.mp member
      exact absurd has (none spot)

/-- One call over two blocks that are stacked as one chunk on the device. -/
noncomputable def gdsSetting : Setting ℝ :=
  let source := pairSource (some .cuda) [] []
  let pipeline := { pairPipeline [] [] with
    source := { source with store := { source.store with kind := .gds } }
    stageBlocks := 2 }
  ⟨pipeline, 2, [⟨⟨[2, 2], [0, 1, 1, 0], rfl⟩, 0, [0, 1]⟩], id, fun _ => 0⟩

theorem races_iff_gds : ∃ events state,
    Transition.run gdsSetting.program.step
        (State.start (Cells.initial ⟨.cuda, 0, List.replicate 4096 0⟩)) events = some state ∧
      .transfer 0 1 ∈ state.finished ∧ .detach 1 ∉ state.finished := by
  have size : 0 < gdsSetting.layout.size := Nat.two_pos
  have slots : 0 < gdsSetting.layout.depth := Nat.two_pos
  have last : gdsSetting.Has ⟨0, 0, 2, 1⟩ := spots_cons.mpr (Or.inl ⟨rfl, rfl, rfl, by decide⟩)
  exact (races_iff size slots).2.2.1 rfl ⟨0, 0, 2, 1⟩ last (Or.inr rfl) _

end Setting

end DecodeStreams

end KVSSD

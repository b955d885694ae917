import KVSSD.Lib.Transition
import Mathlib.Data.List.Basic
import Mathlib.Data.List.Nodup
import Mathlib.Logic.Function.Basic
import Mathlib.Logic.Relation

/-!
# Streams and events

A host issues commands one after the other.  It does some of them itself, and puts the others on
streams, which work in any order relative to each other.  A command waits for the events that it
names, for what lies before it on its stream, and for what the host had done when it was issued.
When these dependencies order every two commands that do not commute, then whatever is finished at
some moment has left the memory that the same commands leave in the order of the program.
-/

namespace KVSSD.Streams

section Replay

variable {κ μ : Type} (effect : κ → μ → μ)

/-- The memory after some commands. -/
def replay (commands : List κ) (memory : μ) : μ :=
  commands.foldl (fun memory command => effect command memory) memory

@[simp] theorem replay_nil (memory : μ) : replay effect [] memory = memory := rfl

@[simp] theorem replay_cons (command : κ) (commands : List κ) (memory : μ) :
    replay effect (command :: commands) memory = replay effect commands (effect command memory) :=
  rfl

@[simp] theorem replay_append (front back : List κ) (memory : μ) :
    replay effect (front ++ back) memory = replay effect back (replay effect front memory) :=
  List.foldl_append

/-- The order of two commands does not matter. -/
def Commute (one other : κ) : Prop :=
  ∀ memory, effect one (effect other memory) = effect other (effect one memory)

theorem replay_commute {command : κ} {front : List κ}
    (commutes : ∀ other ∈ front, Commute effect command other) (memory : μ) :
    replay effect front (effect command memory) = effect command (replay effect front memory) := by
  induction front generalizing memory with
  | nil => rfl
  | cons other front induction =>
      rw [replay_cons, replay_cons, ← commutes other (by simp) memory,
        induction fun another member => commutes another (by simp [member])]

variable [DecidableEq κ]

theorem idxOf_lt_of_append {front back : List κ} {removed one other : κ}
    (oneKept : one ≠ removed) (otherKept : other ≠ removed)
    (before : (front ++ removed :: back).idxOf one < (front ++ removed :: back).idxOf other) :
    (front ++ back).idxOf one < (front ++ back).idxOf other := by
  have place {item : κ} (kept : item ≠ removed) :
      (item ∈ front ∧ (front ++ removed :: back).idxOf item = front.idxOf item ∧
        (front ++ back).idxOf item = front.idxOf item) ∨
      (item ∉ front ∧
        (front ++ removed :: back).idxOf item = front.length + (back.idxOf item + 1) ∧
        (front ++ back).idxOf item = front.length + back.idxOf item) := by
    by_cases inside : item ∈ front
    · left
      rw [List.idxOf_append_of_mem inside, List.idxOf_append_of_mem inside]
      exact ⟨inside, rfl, rfl⟩
    · right
      rw [List.idxOf_append_of_notMem inside, List.idxOf_append_of_notMem inside,
        List.idxOf_cons_ne back kept.symm]
      exact ⟨inside, rfl, rfl⟩
  rcases place oneKept with ⟨oneIn, oneOld, oneNew⟩ | ⟨oneOut, oneOld, oneNew⟩ <;>
    rcases place otherKept with ⟨otherIn, otherOld, otherNew⟩ | ⟨otherOut, otherOld, otherNew⟩
  · omega
  · have bound := List.idxOf_lt_length_of_mem oneIn
    omega
  · have bound := List.idxOf_lt_length_of_mem otherIn
    omega
  · omega

/-- Leaving out commands keeps the order of the others. -/
theorem idxOf_lt_of_filter {keeps : κ → Bool} {commands : List κ} {one other : κ}
    (oneKept : keeps one) (otherKept : keeps other)
    (before : (commands.filter keeps).idxOf one < (commands.filter keeps).idxOf other) :
    commands.idxOf one < commands.idxOf other := by
  induction commands with
  | nil => exact absurd before (Nat.lt_irrefl _)
  | cons command commands induction =>
      by_cases kept : keeps command
      · rw [List.filter_cons_of_pos kept] at before
        have notOther : command ≠ other := by
          rintro rfl
          rw [List.idxOf_cons_self] at before
          exact Nat.not_lt_zero _ before
        by_cases first : command = one
        · subst first
          rw [List.idxOf_cons_self, List.idxOf_cons_ne _ notOther]
          omega
        · rw [List.idxOf_cons_ne _ first, List.idxOf_cons_ne _ notOther] at before ⊢
          have rest := induction (Nat.lt_of_succ_lt_succ before)
          omega
      · rw [List.filter_cons_of_neg kept] at before
        have notOne : command ≠ one := by
          rintro rfl
          exact kept oneKept
        have notOther : command ≠ other := by
          rintro rfl
          exact kept otherKept
        rw [List.idxOf_cons_ne _ notOne, List.idxOf_cons_ne _ notOther]
        have rest := induction before
        omega

theorem idxOf_filter_lt {keeps : κ → Bool} {commands : List κ} {one other : κ}
    (oneKept : one ∈ commands.filter keeps) (otherKept : other ∈ commands.filter keeps)
    (before : commands.idxOf one < commands.idxOf other) :
    (commands.filter keeps).idxOf one < (commands.filter keeps).idxOf other := by
  rcases Nat.lt_trichotomy ((commands.filter keeps).idxOf one)
    ((commands.filter keeps).idxOf other) with first | same | second
  · exact first
  · rw [(List.idxOf_inj oneKept).mp same] at before
    exact absurd before (Nat.lt_irrefl _)
  · have opposite := idxOf_lt_of_filter (List.mem_filter.mp otherKept).2
      (List.mem_filter.mp oneKept).2 second
    exact absurd (before.trans opposite) (Nat.lt_irrefl _)

theorem idxOf_lt_of_sublist {commands : List κ} (nodup : commands.Nodup) {one other : κ}
    (sublist : [one, other].Sublist commands) : commands.idxOf one < commands.idxOf other := by
  induction commands with
  | nil => cases sublist
  | cons command commands induction =>
      obtain ⟨new, rest⟩ := List.nodup_cons.mp nodup
      cases sublist with
      | cons _ later =>
          have oneInside : one ∈ commands := later.subset (by simp)
          have otherInside : other ∈ commands := later.subset (by simp)
          rw [List.idxOf_cons_ne _ (by rintro rfl; exact new oneInside),
            List.idxOf_cons_ne _ (by rintro rfl; exact new otherInside)]
          exact Nat.succ_lt_succ (induction rest later)
      | cons_cons _ last =>
          have otherInside : other ∈ commands := last.subset (by simp)
          rw [List.idxOf_cons_self, List.idxOf_cons_ne _ (by rintro rfl; exact new otherInside)]
          exact Nat.succ_pos _

/-- Two orders in which commands that do not commute come in the same order leave the same. -/
theorem replay_perm {order done : List κ} (perm : done.Perm order) (nodup : order.Nodup)
    (ordered : ∀ one other, other ∈ order → order.idxOf one < order.idxOf other →
      ¬ Commute effect one other → done.idxOf one < done.idxOf other) (memory : μ) :
    replay effect done memory = replay effect order memory := by
  induction order generalizing done memory with
  | nil => rw [List.perm_nil.mp perm]
  | cons first order induction =>
      have present : first ∈ done := perm.mem_iff.mpr List.mem_cons_self
      obtain ⟨front, back, rfl⟩ := List.append_of_mem present
      have doneNodup : (front ++ first :: back).Nodup := perm.nodup_iff.mpr nodup
      obtain ⟨firstNew, orderNodup⟩ := List.nodup_cons.mp nodup
      have rest : (front ++ back).Perm order :=
        List.perm_cons first |>.mp (List.perm_middle.symm.trans perm)
      have notFront : first ∉ front := by
        intro inside
        exact (List.nodup_append.mp doneNodup).2.2 first inside first List.mem_cons_self rfl
      have commutes : ∀ other ∈ front, Commute effect first other := by
        intro other inside
        by_contra conflict
        have different : other ≠ first := by
          rintro rfl
          exact notFront inside
        have known : other ∈ first :: order :=
          perm.mem_iff.mp (List.mem_append_left _ inside)
        have later : (first :: order).idxOf first < (first :: order).idxOf other := by
          rw [List.idxOf_cons_self, List.idxOf_cons_ne order different.symm]
          omega
        have before := ordered first other known later conflict
        rw [List.idxOf_append_of_notMem notFront, List.idxOf_append_of_mem inside] at before
        have bound := List.idxOf_lt_length_of_mem inside
        omega
      rw [replay_append, replay_cons, replay_cons, ← replay_commute effect commutes,
        ← replay_append]
      apply induction rest orderNodup
      intro one other member before conflict
      have oneMember : one ∈ order := List.idxOf_lt_length_iff.mp
        (before.trans (List.idxOf_lt_length_of_mem member))
      have oneKept : one ≠ first := fun same => firstNew (same ▸ oneMember)
      have otherKept : other ≠ first := fun same => firstNew (same ▸ member)
      apply idxOf_lt_of_append oneKept otherKept
      apply ordered one other (List.mem_cons_of_mem _ member) _ conflict
      rw [List.idxOf_cons_ne order oneKept.symm, List.idxOf_cons_ne order otherKept.symm]
      omega

end Replay

section Cells

variable {ι : Type} {ν : ι → Type}

/-- A change of a memory writes only some cells, and what it writes depends on what it reads. -/
structure Touches (change : ((cell : ι) → ν cell) → (cell : ι) → ν cell)
    (writes reads : ι → Prop) : Prop where
  kept : ∀ memory cell, ¬ writes cell → change memory cell = memory cell
  determined : ∀ memory other, (∀ cell, reads cell → memory cell = other cell) →
    ∀ cell, writes cell → change memory cell = change other cell

variable {change other : ((cell : ι) → ν cell) → (cell : ι) → ν cell}
  {writes reads otherWrites otherReads : ι → Prop}

theorem Touches.id : Touches (fun memory : (cell : ι) → ν cell => memory) (fun _ => False)
    fun _ => False where
  kept := fun _ _ _ => rfl
  determined := fun _ _ _ _ written => written.elim

theorem Touches.update [DecidableEq ι] (target : ι) {value : ((cell : ι) → ν cell) → ν target}
    (determined : ∀ memory other, (∀ cell, reads cell → memory cell = other cell) →
      value memory = value other) :
    Touches (fun memory => Function.update memory target (value memory)) (· = target) reads where
  kept := fun memory cell different => Function.update_of_ne different _ _
  determined := by
    rintro memory other agrees _ rfl
    rw [Function.update_self, Function.update_self, determined memory other agrees]

theorem replay_kept {κ : Type} {effect : κ → ((cell : ι) → ν cell) → (cell : ι) → ν cell}
    {writes reads : κ → ι → Prop}
    (touches : ∀ command, Touches (effect command) (writes command) (reads command))
    {commands : List κ} {cell : ι} (unwritten : ∀ command ∈ commands, ¬ writes command cell)
    (memory : (cell : ι) → ν cell) : replay effect commands memory cell = memory cell := by
  induction commands generalizing memory with
  | nil => rfl
  | cons command commands induction =>
      rw [replay_cons, induction fun other member => unwritten other (by simp [member])]
      exact (touches command).kept memory cell (unwritten command (by simp))

theorem Touches.commute (one : Touches change writes reads)
    (another : Touches other otherWrites otherReads)
    (apart : ∀ cell, writes cell → ¬ otherWrites cell ∧ ¬ otherReads cell)
    (unread : ∀ cell, otherWrites cell → ¬ reads cell) (memory : (cell : ι) → ν cell) :
    change (other memory) = other (change memory) := by
  have own : ∀ cell, reads cell → other memory cell = memory cell := fun cell read =>
    another.kept memory cell fun written => unread cell written read
  have foreign : ∀ cell, otherReads cell → change memory cell = memory cell := fun cell read =>
    one.kept memory cell fun written => (apart cell written).2 read
  funext cell
  by_cases written : writes cell
  · rw [another.kept _ cell (apart cell written).1, one.determined _ _ own cell written]
  · rw [one.kept _ cell written]
    by_cases otherWritten : otherWrites cell
    · rw [another.determined _ _ foreign cell otherWritten]
    · rw [another.kept _ cell otherWritten, another.kept _ cell otherWritten,
        one.kept _ cell written]

end Cells

/-- The commands of a host in the order in which it issues them.  `stream` is where a command is
put, or nothing when the host does it itself, and `waits` are the commands whose events it waits
for. -/
structure Program (κ σ μ : Type) where
  order : List κ
  stream : κ → Option σ
  waits : κ → List κ
  effect : κ → μ → μ

structure State (κ μ : Type) where
  issued : Nat
  finished : List κ
  memory : μ

def State.start {κ μ : Type} (memory : μ) : State κ μ := ⟨0, [], memory⟩

inductive Event (κ : Type) where
  /-- The host goes on to its next command. -/
  | issue
  /-- A command that lies on a stream is finished. -/
  | finish (command : κ)

namespace Program

variable {κ σ μ : Type} [DecidableEq κ] (program : Program κ σ μ)

/-- One command precedes the other in the order of the host. -/
def Precedes (one other : κ) : Prop := program.order.idxOf one < program.order.idxOf other

instance (one other : κ) : Decidable (program.Precedes one other) :=
  inferInstanceAs (Decidable (_ < _))

/-- Every event that a command waits for has happened. -/
def Released (state : State κ μ) (command : κ) : Prop :=
  ∀ event ∈ program.waits command, event ∈ state.finished

instance (state : State κ μ) (command : κ) : Decidable (program.Released state command) :=
  inferInstanceAs (Decidable (∀ event ∈ _, _))

/-- A command is the first on its stream that is not finished. -/
def Heads (state : State κ μ) (command : κ) : Prop :=
  command ∈ program.order.take state.issued ∧ command ∉ state.finished ∧
    program.stream command ≠ none ∧
    ∀ other ∈ program.order.take state.issued, program.Precedes other command →
      program.stream other = program.stream command → other ∈ state.finished

/-- The state in which a command is finished. -/
def complete (state : State κ μ) (command : κ) : State κ μ :=
  { state with
    finished := state.finished ++ [command]
    memory := program.effect command state.memory }

instance [DecidableEq σ] (state : State κ μ) (command : κ) :
    Decidable (program.Heads state command) :=
  inferInstanceAs (Decidable (_ ∧ _ ∧ _ ∧ ∀ other ∈ _, _))

def step [DecidableEq σ] (state : State κ μ) : Event κ → Option (State κ μ)
  | .issue => do
      let command ← program.order[state.issued]?
      let next := { state with issued := state.issued + 1 }
      if program.stream command ≠ none then some next
      else if program.Released state command then some (program.complete next command)
      else none
  | .finish command =>
      if program.Heads state command ∧ program.Released state command then
        some (program.complete state command)
      else none

/-- A command cannot be finished before the other is: it waits for its event, or lies behind it on
one stream, or was issued when the host had done it. -/
inductive Needs : κ → κ → Prop where
  | event {one other : κ} (waits : one ∈ program.waits other) : Needs one other
  | stream {one other : κ} (before : program.Precedes one other)
      (same : program.stream one = program.stream other) : Needs one other
  | host {one other : κ} (before : program.Precedes one other)
      (host : program.stream one = none) : Needs one other

/-- The dependencies order every two commands that do not commute. -/
structure RaceFree : Prop where
  nodup : program.order.Nodup
  waits : ∀ command ∈ program.order, ∀ event ∈ program.waits command,
    program.Precedes event command
  ordered : ∀ one ∈ program.order, ∀ other ∈ program.order, one ≠ other →
    Commute program.effect one other ∨ Relation.TransGen program.Needs one other ∨
      Relation.TransGen program.Needs other one

section Runs

variable {program} {state next : State κ μ} {memory : μ}

theorem Precedes.mem {one other : κ} (before : program.Precedes one other) :
    one ∈ program.order :=
  List.idxOf_lt_length_iff.mp (before.trans_le List.idxOf_le_length)

theorem Precedes.mem_take {one other : κ} {issued : Nat} (before : program.Precedes one other)
    (member : other ∈ program.order.take issued) : one ∈ program.order.take issued := by
  rw [List.mem_take_iff_idxOf_lt (List.mem_of_mem_take member)] at member
  rw [List.mem_take_iff_idxOf_lt before.mem]
  exact before.trans member

/-- A command and all it needs have been issued, and it is finished after all it needs. -/
structure Inv (program : Program κ σ μ) (memory : μ) (state : State κ μ) : Prop where
  inside : state.issued ≤ program.order.length
  known : ∀ command ∈ state.finished, command ∈ program.order.take state.issued
  distinct : state.finished.Nodup
  host : ∀ command ∈ program.order.take state.issued, program.stream command = none →
    command ∈ state.finished
  closed : ∀ other ∈ state.finished, ∀ one, program.Needs one other →
    state.finished.idxOf one < state.finished.idxOf other
  memory : state.memory = replay program.effect state.finished memory

theorem inv_start (memory : μ) : program.Inv memory (State.start memory) where
  inside := Nat.zero_le _
  known := by simp [State.start]
  distinct := List.nodup_nil
  host := by simp [State.start]
  closed := by simp [State.start]
  memory := rfl

namespace Inv

/-- A command whose needs are finished is finished. -/
theorem complete (inv : program.Inv memory state) {issued : Nat} {command : κ}
    (grows : state.issued ≤ issued) (inside : issued ≤ program.order.length)
    (member : command ∈ program.order.take issued) (new : command ∉ state.finished)
    (needs : ∀ one, program.Needs one command → one ∈ state.finished)
    (host : ∀ other ∈ program.order.take issued, program.stream other = none →
      other ∈ state.finished ∨ other = command) :
    program.Inv memory (program.complete { state with issued := issued } command) where
  inside := inside
  known := by
    intro other finished
    rcases List.mem_append.mp finished with old | added
    · exact List.take_subset_take_left _ grows (inv.known other old)
    · rw [List.mem_singleton.mp added]
      exact member
  distinct := List.nodup_append.mpr ⟨inv.distinct, List.nodup_singleton command, by
    rintro other old _ added rfl
    exact new (List.mem_singleton.mp added ▸ old)⟩
  host := by
    intro other issuedOther onHost
    rcases host other issuedOther onHost with old | rfl
    · exact List.mem_append_left _ old
    · exact List.mem_append_right _ (List.mem_singleton_self other)
  closed := by
    intro other finished one need
    change (state.finished ++ [command]).idxOf one < (state.finished ++ [command]).idxOf other
    rcases List.mem_append.mp finished with old | added
    · have before := inv.closed other old one need
      have oneOld : one ∈ state.finished := List.idxOf_lt_length_iff.mp
        (before.trans (List.idxOf_lt_length_of_mem old))
      rw [List.idxOf_append_of_mem oneOld, List.idxOf_append_of_mem old]
      exact before
    · obtain rfl := List.mem_singleton.mp added
      have oneOld := needs one need
      rw [List.idxOf_append_of_mem oneOld, List.idxOf_append_of_notMem new]
      exact Nat.lt_add_right _ (List.idxOf_lt_length_of_mem oneOld)
  memory := by
    change program.effect command state.memory = _
    rw [inv.memory]
    exact (replay_append program.effect state.finished [command] memory).symm

theorem idxOf_issued (nodup : program.order.Nodup) {command : κ} {issued : Nat}
    (here : program.order[issued]? = some command) : program.order.idxOf command = issued := by
  obtain ⟨inside, rfl⟩ := List.getElem?_eq_some_iff.mp here
  exact nodup.idxOf_getElem issued inside

theorem mem_take_succ (nodup : program.order.Nodup) {command other : κ} {issued : Nat}
    (here : program.order[issued]? = some command)
    (member : other ∈ program.order.take (issued + 1)) :
    other ∈ program.order.take issued ∨ other = command := by
  have known := List.mem_of_mem_take member
  rw [List.mem_take_iff_idxOf_lt known] at member
  rcases Nat.lt_succ_iff_lt_or_eq.mp member with before | last
  · exact Or.inl ((List.mem_take_iff_idxOf_lt known).mpr before)
  · right
    have own := idxOf_issued nodup here
    exact (List.idxOf_inj known).mp (last.trans own.symm)

theorem step [DecidableEq σ] (raceFree : program.RaceFree) (inv : program.Inv memory state)
    {event : Event κ} (happens : program.step state event = some next) :
    program.Inv memory next := by
  cases event with
  | issue =>
      obtain ⟨command, here, rest⟩ := Option.bind_eq_some_iff.mp happens
      obtain ⟨inside, _⟩ := List.getElem?_eq_some_iff.mp here
      have own := idxOf_issued raceFree.nodup here
      have grows := Nat.le_succ state.issued
      split at rest
      · rename_i queued
        obtain rfl := Option.some.inj rest
        exact
          { inside := inside
            known := fun other old => List.take_subset_take_left _ grows (inv.known other old)
            distinct := inv.distinct
            host := by
              intro other member onHost
              rcases mem_take_succ raceFree.nodup here member with old | rfl
              · exact inv.host other old onHost
              · exact absurd onHost queued
            closed := inv.closed
            memory := inv.memory }
      · rename_i notQueued
        have onHost : program.stream command = none := not_not.mp notQueued
        split at rest
        · rename_i released
          obtain rfl := Option.some.inj rest
          have known : command ∈ program.order := List.mem_of_getElem? here
          have earlier {one : κ} (before : program.Precedes one command) :
              one ∈ program.order.take state.issued := by
            rw [List.mem_take_iff_idxOf_lt before.mem, ← own]
            exact before
          apply inv.complete grows inside
          · rw [List.mem_take_iff_idxOf_lt known]
            omega
          · intro finished
            have member := inv.known command finished
            rw [List.mem_take_iff_idxOf_lt known] at member
            omega
          · intro one need
            cases need with
            | event waits => exact released one waits
            | stream before same => exact inv.host one (earlier before) (same.trans onHost)
            | host before host => exact inv.host one (earlier before) host
          · intro other member otherHost
            rcases mem_take_succ raceFree.nodup here member with old | same
            · exact Or.inl (inv.host other old otherHost)
            · exact Or.inr same
        · cases rest
  | finish command =>
      rw [Program.step] at happens
      split at happens
      · rename_i ready
        obtain ⟨⟨member, new, queued, first⟩, released⟩ := ready
        obtain rfl := Option.some.inj happens
        apply inv.complete (Nat.le_refl _) inv.inside member new
        · intro one need
          cases need with
          | event waits => exact released one waits
          | stream before same => exact first one (before.mem_take member) before same
          | host before host => exact inv.host one (before.mem_take member) host
        · exact fun other issuedOther onHost => Or.inl (inv.host other issuedOther onHost)
      · cases happens

theorem closed_trans (inv : program.Inv memory state) {one other : κ}
    (needs : Relation.TransGen program.Needs one other) (finished : other ∈ state.finished) :
    state.finished.idxOf one < state.finished.idxOf other := by
  induction needs with
  | single need => exact inv.closed _ finished _ need
  | tail _ need induction =>
      have last := inv.closed _ finished _ need
      have between := List.idxOf_lt_length_iff.mp
        (last.trans (List.idxOf_lt_length_of_mem finished))
      exact (induction between).trans last

end Inv

theorem Needs.precedes (waits : ∀ command ∈ program.order, ∀ event ∈ program.waits command,
    program.Precedes event command) {one other : κ} (need : program.Needs one other)
    (member : other ∈ program.order) : program.Precedes one other := by
  cases need with
  | event waited => exact waits other member one waited
  | stream before _ => exact before
  | host before _ => exact before

theorem precedes_of_needs (waits : ∀ command ∈ program.order, ∀ event ∈ program.waits command,
    program.Precedes event command) {one other : κ}
    (needs : Relation.TransGen program.Needs one other) (member : other ∈ program.order) :
    program.Precedes one other := by
  induction needs with
  | single need => exact need.precedes waits member
  | tail _ need induction =>
      have last := need.precedes waits member
      exact (induction last.mem).trans last

theorem RaceFree.precedes (raceFree : program.RaceFree) {one other : κ}
    (needs : Relation.TransGen program.Needs one other) (member : other ∈ program.order) :
    program.Precedes one other :=
  precedes_of_needs raceFree.waits needs member

theorem Inv.memory_eq (raceFree : program.RaceFree) (inv : program.Inv memory state) :
    state.memory = replay program.effect
      (program.order.filter fun command => command ∈ state.finished) memory := by
  rw [inv.memory]
  set kept := program.order.filter fun command => command ∈ state.finished
  have keptNodup : kept.Nodup := raceFree.nodup.filter _
  have perm : state.finished.Perm kept := by
    refine (List.perm_ext_iff_of_nodup inv.distinct keptNodup).mpr fun command => ?_
    rw [List.mem_filter, decide_eq_true_iff]
    exact ⟨fun finished => ⟨List.mem_of_mem_take (inv.known command finished), finished⟩, And.right⟩
  apply replay_perm program.effect perm keptNodup
  intro one other otherKept before conflict
  have oneKept : one ∈ kept := List.idxOf_lt_length_iff.mp
    (before.trans (List.idxOf_lt_length_of_mem otherKept))
  have oneFinished : one ∈ state.finished := perm.mem_iff.mpr oneKept
  have otherFinished : other ∈ state.finished := perm.mem_iff.mpr otherKept
  have different : one ≠ other := by
    rintro rfl
    exact Nat.lt_irrefl _ before
  have order : program.Precedes one other :=
    idxOf_lt_of_filter (by simpa using oneFinished) (by simpa using otherFinished) before
  rcases raceFree.ordered one (List.mem_filter.mp oneKept).1 other (List.mem_filter.mp otherKept).1
    different with commutes | forward | backward
  · exact absurd commutes conflict
  · exact inv.closed_trans forward otherFinished
  · have opposite := raceFree.precedes backward (List.mem_filter.mp oneKept).1
    exact absurd (opposite.trans order) (Nat.lt_irrefl _)

/-- Behind what is finished, the rest of the program leads to what the whole program leads to. -/
theorem Inv.replay_rest (raceFree : program.RaceFree) (inv : program.Inv memory state) :
    replay program.effect program.order memory = replay program.effect
      (program.order.filter fun command => command ∉ state.finished) state.memory := by
  rw [inv.memory_eq raceFree, ← replay_append]
  set done := program.order.filter fun command => command ∈ state.finished
  set rest := program.order.filter fun command => command ∉ state.finished
  have perm : (done ++ rest).Perm program.order := by
    have split := List.filter_append_perm (fun command => decide (command ∈ state.finished))
      program.order
    simpa only [done, rest, decide_not] using split
  refine (replay_perm program.effect perm raceFree.nodup ?_ memory).symm
  intro one other otherKnown before conflict
  have oneKnown : one ∈ program.order := Precedes.mem before
  have different : one ≠ other := by
    rintro rfl
    exact Nat.lt_irrefl _ before
  have finishes : other ∈ state.finished → one ∈ state.finished := by
    intro finished
    rcases raceFree.ordered one oneKnown other otherKnown different with
      commutes | forward | backward
    · exact absurd commutes conflict
    · exact List.idxOf_lt_length_iff.mp
        ((inv.closed_trans forward finished).trans (List.idxOf_lt_length_of_mem finished))
    · exact absurd ((raceFree.precedes backward oneKnown).trans before) (Nat.lt_irrefl _)
  by_cases otherDone : other ∈ state.finished
  · have oneIn : one ∈ done := by simp [done, oneKnown, finishes otherDone]
    have otherIn : other ∈ done := by simp [done, otherKnown, otherDone]
    rw [List.idxOf_append_of_mem oneIn, List.idxOf_append_of_mem otherIn]
    exact idxOf_filter_lt oneIn otherIn before
  · have otherOut : other ∉ done := by simp [done, otherDone]
    have otherIn : other ∈ rest := by simp [rest, otherKnown, otherDone]
    rw [List.idxOf_append_of_notMem otherOut]
    by_cases oneDone : one ∈ state.finished
    · have oneIn : one ∈ done := by simp [done, oneKnown, oneDone]
      rw [List.idxOf_append_of_mem oneIn]
      exact Nat.lt_add_right _ (List.idxOf_lt_length_of_mem oneIn)
    · have oneOut : one ∉ done := by simp [done, oneDone]
      have oneIn : one ∈ rest := by simp [rest, oneKnown, oneDone]
      rw [List.idxOf_append_of_notMem oneOut]
      exact Nat.add_lt_add_left (idxOf_filter_lt oneIn otherIn before) _

theorem Inv.length_le (inv : program.Inv memory state) :
    state.finished.length ≤ program.order.length :=
  (List.subperm_of_subset inv.distinct fun command finished =>
    List.mem_of_mem_take (inv.known command finished)).length_le

theorem exists_first (unfinished : ∃ command ∈ program.order, command ∉ state.finished) :
    ∃ command ∈ program.order, command ∉ state.finished ∧
      ∀ one, program.Precedes one command → one ∈ state.finished := by
  cases first : program.order.find? fun command => command ∉ state.finished with
  | none =>
      obtain ⟨command, member, new⟩ := unfinished
      exact absurd (by simpa using new) (List.find?_eq_none.mp first command member)
  | some command =>
      obtain ⟨new, front, back, order, earlier⟩ := List.find?_eq_some_iff_append.mp first
      have notFinished : command ∉ state.finished := by simpa using new
      have finished : ∀ one ∈ front, one ∈ state.finished := fun one member => by
        simpa using earlier one member
      refine ⟨command, order ▸ by simp, notFinished, ?_⟩
      intro one before
      have notFront : command ∉ front := fun member => notFinished (finished command member)
      apply finished
      by_contra outside
      rw [Precedes, order, List.idxOf_append_of_notMem outside,
        List.idxOf_append_of_notMem notFront, List.idxOf_cons_self] at before
      omega

/-- A command or what it needs. -/
def Needed (program : Program κ σ μ) (last command : κ) : Prop :=
  command = last ∨ Relation.TransGen program.Needs command last

/-- Of the commands that were issued, just those are finished that the last one needs. -/
structure Reaches (program : Program κ σ μ) (last : κ) (count : Nat) (state : State κ μ) :
    Prop where
  issued : state.issued = count
  finished : ∀ command, command ∈ state.finished ↔
    command ∈ program.order.take count ∧ program.Needed last command

section Reach

variable (nodup : program.order.Nodup)
  (waits : ∀ command ∈ program.order, ∀ event ∈ program.waits command,
    program.Precedes event command)
  {last command : κ} {count : Nat}

theorem Needed.of_needs {one : κ} (need : program.Needs one command)
    (needed : program.Needed last command) : program.Needed last one := by
  rcases needed with rfl | later
  · exact Or.inr (.single need)
  · exact Or.inr (.head need later)

include waits in
theorem Needed.mem_take (member : last ∈ program.order) (needed : program.Needed last command) :
    command ∈ program.order.take (program.order.idxOf last + 1) := by
  rcases needed with rfl | needs
  · rw [List.mem_take_iff_idxOf_lt member]
    exact Nat.lt_succ_self _
  · have before := precedes_of_needs waits needs member
    rw [List.mem_take_iff_idxOf_lt before.mem]
    exact Nat.lt_succ_of_lt before

include nodup in
theorem mem_take_succ_iff (here : program.order[count]? = some command) {other : κ} :
    other ∈ program.order.take (count + 1) ↔
      other ∈ program.order.take count ∨ other = command := by
  refine ⟨Inv.mem_take_succ nodup here, ?_⟩
  rintro (old | rfl)
  · exact List.take_subset_take_left _ (Nat.le_succ _) old
  · rw [List.mem_take_iff_idxOf_lt (List.mem_of_getElem? here), Inv.idxOf_issued nodup here]
    exact Nat.lt_succ_self _

include nodup in
theorem Reaches.complete (reaches : program.Reaches last count state)
    (here : program.order[count]? = some command) (needed : program.Needed last command) :
    program.Reaches last (count + 1)
      (program.complete { state with issued := count + 1 } command) where
  issued := rfl
  finished := by
    intro other
    change other ∈ state.finished ++ [command] ↔ _
    rw [List.mem_append, List.mem_singleton, reaches.finished, mem_take_succ_iff nodup here]
    constructor
    · rintro (⟨old, needs⟩ | rfl)
      · exact ⟨Or.inl old, needs⟩
      · exact ⟨Or.inr rfl, needed⟩
    · rintro ⟨old | rfl, needs⟩
      · exact Or.inl ⟨old, needs⟩
      · exact Or.inr rfl

include nodup in
theorem Reaches.skip (reaches : program.Reaches last count state)
    (here : program.order[count]? = some command) (unneeded : ¬ program.Needed last command) :
    program.Reaches last (count + 1) { state with issued := count + 1 } where
  issued := rfl
  finished := by
    intro other
    change other ∈ state.finished ↔ _
    rw [reaches.finished, mem_take_succ_iff nodup here]
    constructor
    · rintro ⟨old, needs⟩
      exact ⟨Or.inl old, needs⟩
    · rintro ⟨old | rfl, needs⟩
      · exact ⟨old, needs⟩
      · exact absurd needs unneeded

variable [DecidableEq σ]

include nodup waits in
/-- The host goes on by one command, which is finished at once if it is needed. -/
theorem Reaches.succ (reaches : program.Reaches last count state) (member : last ∈ program.order)
    (bound : count ≤ program.order.idxOf last) :
    ∃ events next, Transition.run program.step state events = some next ∧
      program.Reaches last (count + 1) next := by
  have inside : count < program.order.length :=
    bound.trans_lt (List.idxOf_lt_length_of_mem member)
  obtain ⟨command, here⟩ : ∃ command, program.order[count]? = some command :=
    ⟨_, List.getElem?_eq_getElem inside⟩
  have known : command ∈ program.order := List.mem_of_getElem? here
  have own := Inv.idxOf_issued nodup here
  have ready (needed : program.Needed last command) :
      ∀ one, program.Needs one command → one ∈ state.finished := by
    intro one need
    refine (reaches.finished one).mpr ⟨?_, needed.of_needs need⟩
    have before := need.precedes waits known
    rw [List.mem_take_iff_idxOf_lt before.mem, ← own]
    exact before
  have released (needed : program.Needed last command) : program.Released state command :=
    fun event waited => ready needed event (.event waited)
  by_cases queued : program.stream command = none
  · -- the host goes on only when it has done what lies before
    have needed : program.Needed last command := by
      by_cases same : command = last
      · exact Or.inl same
      · right
        refine .single (.host ?_ queued)
        have different : program.order.idxOf command ≠ program.order.idxOf last :=
          fun equal => same ((List.idxOf_inj known).mp equal)
        rw [Precedes]
        omega
    refine ⟨[.issue], _, Transition.run_cons.mpr ⟨_, ?_, rfl⟩, reaches.complete nodup here needed⟩
    rw [Program.step, reaches.issued, here, Option.bind_eq_bind, Option.bind_some]
    exact (if_neg (not_not.mpr queued)).trans (if_pos (released needed))
  · have issuing : program.step state .issue = some { state with issued := count + 1 } := by
      rw [Program.step, reaches.issued, here, Option.bind_eq_bind, Option.bind_some]
      exact if_pos queued
    by_cases needed : program.Needed last command
    · have new : command ∉ state.finished := by
        intro old
        have earlier := ((reaches.finished command).mp old).1
        rw [List.mem_take_iff_idxOf_lt known] at earlier
        omega
      refine ⟨[.issue, .finish command], _, Transition.run_cons.mpr ⟨_, issuing,
        Transition.run_cons.mpr ⟨_, ?_, rfl⟩⟩, reaches.complete nodup here needed⟩
      refine if_pos ⟨⟨(mem_take_succ_iff nodup here).mpr (Or.inr rfl), new, queued, ?_⟩,
        released needed⟩
      exact fun other _ before same => ready needed other (.stream before same)
    · exact ⟨[.issue], _, Transition.run_cons.mpr ⟨_, issuing, rfl⟩, reaches.skip nodup here needed⟩

include nodup waits in
theorem exists_run_to (member : last ∈ program.order) (memory : μ) :
    ∃ events state, Transition.run program.step (State.start memory) events = some state ∧
      ∀ command, command ∈ state.finished ↔ program.Needed last command := by
  have reaches : ∀ count ≤ program.order.idxOf last + 1, ∃ events state,
      Transition.run program.step (State.start memory) events = some state ∧
        program.Reaches last count state := by
    intro count
    induction count with
    | zero => exact fun _ => ⟨[], _, rfl, rfl, fun command => by simp [State.start]⟩
    | succ count induction =>
        intro bound
        obtain ⟨front, middle, reached, before⟩ := induction (by omega)
        obtain ⟨back, state, continued, after⟩ :=
          before.succ nodup waits member (Nat.le_of_succ_le_succ bound)
        exact ⟨front ++ back, state, Transition.run_append.mpr ⟨middle, reached, continued⟩, after⟩
  obtain ⟨events, state, reached, after⟩ := reaches _ (Nat.le_refl _)
  refine ⟨events, state, reached, fun command => (after.finished command).trans ?_⟩
  exact ⟨And.right, fun needed => ⟨needed.mem_take waits member, needed⟩⟩

end Reach

variable [DecidableEq σ]

/-- As long as a command is not finished, something can happen. -/
theorem Inv.progress (raceFree : program.RaceFree) (inv : program.Inv memory state)
    (unfinished : ∃ command ∈ program.order, command ∉ state.finished) :
    ∃ event next, program.step state event = some next := by
  obtain ⟨command, known, new, earlier⟩ := exists_first unfinished
  have released : program.Released state command := fun event waits =>
    earlier event (raceFree.waits command known event waits)
  by_cases issued : command ∈ program.order.take state.issued
  · refine ⟨.finish command, program.complete state command, if_pos ⟨⟨issued, new, ?_, ?_⟩,
      released⟩⟩
    · exact fun onHost => new (inv.host command issued onHost)
    · exact fun other _ before _ => earlier other before
  · rw [List.mem_take_iff_idxOf_lt known] at issued
    have last : program.order.idxOf command = state.issued := by
      by_contra different
      have inside : state.issued < program.order.length :=
        (by omega : state.issued < program.order.idxOf command).trans_le List.idxOf_le_length
      have own := raceFree.nodup.idxOf_getElem state.issued inside
      have finished := earlier program.order[state.issued] (by
        rw [Precedes, own]
        omega)
      have before := inv.known _ finished
      rw [List.mem_take_iff_idxOf_lt (List.getElem_mem inside), own] at before
      omega
    have here : program.order[state.issued]? = some command := by
      rw [← last, List.getElem?_idxOf known]
    refine ⟨.issue, ?_⟩
    rw [Program.step, here, Option.bind_eq_bind, Option.bind_some]
    by_cases queued : program.stream command ≠ none
    · exact ⟨_, if_pos queued⟩
    · exact ⟨_, (if_neg queued).trans (if_pos released)⟩

theorem step_grows {event : Event κ} (happens : program.step state event = some next) :
    state.issued + state.finished.length < next.issued + next.finished.length := by
  cases event with
  | issue =>
      obtain ⟨command, _, rest⟩ := Option.bind_eq_some_iff.mp happens
      split at rest
      · obtain rfl := Option.some.inj rest
        exact Nat.add_lt_add_right (Nat.lt_succ_self _) _
      · obtain ⟨_, same⟩ := Option.ite_none_right_eq_some.mp rest
        obtain rfl := Option.some.inj same
        simp only [complete, List.length_append, List.length_singleton]
        omega
  | finish command =>
      obtain ⟨_, same⟩ := Option.ite_none_right_eq_some.mp happens
      obtain rfl := Option.some.inj same
      simp only [complete, List.length_append, List.length_singleton]
      omega

theorem RaceFree.inv (raceFree : program.RaceFree) {events : List (Event κ)}
    (reached : Transition.run program.step (State.start memory) events = some state) :
    program.Inv memory state :=
  Transition.invariant_of_allowed_run
    (fun _ _ _ (_ : True) (inv : program.Inv memory _) happens => inv.step raceFree happens)
    (fun _ _ => trivial) (inv_start memory) reached

/-- In every run, going on in the order of the program leads to what the program leads to alone,
something can happen until everything is finished, and the run is no longer than twice the
program. -/
theorem RaceFree.runs (raceFree : program.RaceFree) {events : List (Event κ)}
    (reached : Transition.run program.step (State.start memory) events = some state) :
    (replay program.effect program.order memory = replay program.effect
      (program.order.filter fun command => command ∉ state.finished) state.memory) ∧
    ((∃ command ∈ program.order, command ∉ state.finished) →
      ∃ event next, program.step state event = some next) ∧
    events.length ≤ 2 * program.order.length := by
  have inv := raceFree.inv reached
  refine ⟨inv.replay_rest raceFree, inv.progress raceFree, ?_⟩
  have bound := Transition.busy_le_measure (fun _ : Event κ => true)
    (fun state => 2 * program.order.length - (state.issued + state.finished.length))
    (fun _ _ _ (_ : True) (inv : program.Inv memory _) happens => inv.step raceFree happens)
    (fun state event next _ before happens => by
      have grows := step_grows happens
      have after := before.step raceFree happens
      have nextInside := after.inside
      have nextLength := after.length_le
      simp only [if_true]
      omega)
    (fun _ _ => trivial) (inv_start memory) reached
  rw [List.countP_true] at bound
  omega

theorem RaceFree.completes (raceFree : program.RaceFree) (memory : μ) :
    ∃ events state, Transition.run program.step (State.start memory) events = some state ∧
      ∀ command ∈ program.order, command ∈ state.finished := by
  obtain ⟨events, state, _, reached, _, all⟩ := @Transition.exists_run_until _ _
    program.step (program.Inv memory)
    (fun state => ∀ command ∈ program.order, command ∈ state.finished) (fun _ => True)
    (fun state => 2 * program.order.length - (state.issued + state.finished.length))
    (fun state event next _ inv happens => inv.step raceFree happens)
    (by
      intro state inv
      by_cases all : ∀ command ∈ program.order, command ∈ state.finished
      · exact Or.inl all
      · right
        obtain ⟨event, next, happens⟩ := inv.progress raceFree (by
          simpa only [not_forall, exists_prop] using all)
        have grows := step_grows happens
        have after := inv.step raceFree happens
        have inside := after.inside
        have length := after.length_le
        exact ⟨event, next, trivial, happens, by omega⟩)
    (State.start memory) (inv_start memory)
  exact ⟨events, state, reached, all⟩

end Runs

end Program

end KVSSD.Streams

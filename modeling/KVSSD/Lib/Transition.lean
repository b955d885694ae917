import Mathlib.Algebra.BigOperators.Group.List.Basic
import Mathlib.Algebra.Ring.Nat

/-!
# Event-driven systems

A system is a partial step function: an event either cannot happen in a state or
leads to one next state.  Runs are lists of events.  An invariant that allowed
events preserve holds along every run of allowed events, and a measure that all
but the idle events decrease bounds the length of a run.

The parties of a system are a list, in which each is known by its place.  A party
joins at the end and moves in its place, and the others stay where they are.
-/

namespace KVSSD.Transition

variable {σ ε : Type} {step : σ → ε → Option σ}

/-- The state after a list of events, if all of them can happen in order. -/
def run (step : σ → ε → Option σ) : σ → List ε → Option σ
  | state, [] => some state
  | state, event :: events =>
      match step state event with
      | none => none
      | some next => run step next events

theorem run_cons {state final : σ} {event : ε} {events : List ε} :
    run step state (event :: events) = some final ↔
      ∃ next, step state event = some next ∧ run step next events = some final := by
  rw [run]
  cases step state event with
  | none => simp
  | some next => simp

theorem run_append {state final : σ} {first second : List ε} :
    run step state (first ++ second) = some final ↔
      ∃ middle, run step state first = some middle ∧
        run step middle second = some final := by
  induction first generalizing state with
  | nil => simp [run]
  | cons event events induction =>
      rw [List.cons_append, run_cons]
      constructor
      · rintro ⟨next, happens, rest⟩
        obtain ⟨middle, reached, rest⟩ := induction.mp rest
        exact ⟨middle, run_cons.mpr ⟨next, happens, reached⟩, rest⟩
      · rintro ⟨middle, reached, rest⟩
        obtain ⟨next, happens, reached⟩ := run_cons.mp reached
        exact ⟨next, happens, induction.mpr ⟨middle, reached, rest⟩⟩

/-- What every allowed event preserves holds at the end of every allowed run. -/
theorem invariant_of_allowed_run {holds : σ → Prop} {allowed : ε → Prop}
    (preserved : ∀ state event next, allowed event → holds state →
      step state event = some next → holds next)
    {events : List ε} {state final : σ} (permitted : ∀ event ∈ events, allowed event)
    (initially : holds state) (reached : run step state events = some final) :
    holds final := by
  induction events generalizing state with
  | nil =>
      cases reached
      exact initially
  | cons event events induction =>
      obtain ⟨next, happens, rest⟩ := run_cons.mp reached
      exact induction (fun other member => permitted other (by simp [member]))
        (preserved state event next (permitted event (by simp)) initially happens) rest

theorem invariant_of_run (holds : σ → Prop)
    (preserved : ∀ state event next, holds state → step state event = some next →
      holds next)
    {events : List ε} {state final : σ} (initially : holds state)
    (reached : run step state events = some final) : holds final :=
  invariant_of_allowed_run (fun state event next (_ : True) => preserved state event next)
    (fun _ _ => trivial) initially reached

/-- Every event of a run is allowed in the state in which it happens. -/
def Permitted (step : σ → ε → Option σ) (allowed : σ → ε → Prop) : σ → List ε → Prop
  | _, [] => True
  | state, event :: events =>
      allowed state event ∧
        ∀ next, step state event = some next → Permitted step allowed next events

theorem permitted_append {allowed : σ → ε → Prop} {state middle : σ} {first second : List ε}
    (reached : run step state first = some middle) :
    Permitted step allowed state (first ++ second) ↔
      Permitted step allowed state first ∧ Permitted step allowed middle second := by
  induction first generalizing state with
  | nil =>
      cases reached
      simp [Permitted]
  | cons event events induction =>
      obtain ⟨next, happens, rest⟩ := run_cons.mp reached
      simp only [List.cons_append, Permitted, happens, Option.some.injEq, forall_eq',
        induction rest, and_assoc]

theorem permitted_of_always {allowed : σ → ε → Prop} {events : List ε}
    (always : ∀ event ∈ events, ∀ state, allowed state event) (state : σ) :
    Permitted step allowed state events := by
  induction events generalizing state with
  | nil => trivial
  | cons event events induction =>
      constructor
      · exact always event List.mem_cons_self state
      · intro next _
        exact induction (fun other member => always other (List.mem_cons_of_mem _ member)) next

theorem Permitted.mono {allowed also : σ → ε → Prop} {state : σ} {events : List ε}
    (permitted : Permitted step allowed state events)
    (weaker : ∀ event ∈ events, ∀ state, allowed state event → also state event) :
    Permitted step also state events := by
  induction events generalizing state with
  | nil => trivial
  | cons event events induction =>
      constructor
      · exact weaker event List.mem_cons_self state permitted.1
      · intro next happens
        exact induction (permitted.2 next happens) fun other member =>
          weaker other (List.mem_cons_of_mem _ member)

instance decidablePermitted {allowed : σ → ε → Prop}
    [∀ state event, Decidable (allowed state event)]
    (state : σ) (events : List ε) : Decidable (Permitted step allowed state events) :=
  match events with
  | [] => inferInstanceAs (Decidable True)
  | event :: events =>
      match happens : step state event with
      | none => decidable_of_iff (allowed state event) (by simp [Permitted, happens])
      | some next =>
          have : Decidable (Permitted step allowed next events) := decidablePermitted next events
          decidable_of_iff (allowed state event ∧ Permitted step allowed next events)
            (by simp [Permitted, happens])

/-- An invariant that holds along every run whose events are allowed where they
happen. -/
theorem invariant_of_permitted_run {holds : σ → Prop} {allowed : σ → ε → Prop}
    (preserved : ∀ state event next, allowed state event → holds state →
      step state event = some next → holds next)
    {events : List ε} {state final : σ} (permitted : Permitted step allowed state events)
    (initially : holds state) (reached : run step state events = some final) :
    holds final := by
  induction events generalizing state with
  | nil =>
      cases reached
      exact initially
  | cons event events induction =>
      obtain ⟨next, happens, rest⟩ := run_cons.mp reached
      obtain ⟨allowedHere, later⟩ := permitted
      exact induction (later next happens)
        (preserved state event next allowedHere initially happens)
        rest

/-- A measure that an allowed event raises by its credit at most, and that a busy event lowers
below that, bounds the number of busy events. -/
theorem busy_le_credit {holds : σ → Prop} {allowed : ε → Prop} (busy : ε → Bool)
    (size : σ → Nat) (credit : ε → Nat)
    (preserved : ∀ state event next, allowed event → holds state →
      step state event = some next → holds next)
    (shrinks : ∀ state event next, allowed event → holds state →
      step state event = some next →
        size next + (if busy event then 1 else 0) ≤ size state + credit event)
    {events : List ε} {state final : σ} (permitted : ∀ event ∈ events, allowed event)
    (initially : holds state) (reached : run step state events = some final) :
    size final + events.countP busy ≤ size state + (events.map credit).sum := by
  induction events generalizing state with
  | nil =>
      cases reached
      simp
  | cons event events induction =>
      obtain ⟨next, happens, rest⟩ := run_cons.mp reached
      have allowedEvent := permitted event (by simp)
      have tail := induction (fun other member => permitted other (by simp [member]))
        (preserved state event next allowedEvent initially happens) rest
      have head := shrinks state event next allowedEvent initially happens
      rw [List.countP_cons, List.map_cons, List.sum_cons]
      omega

theorem busy_le_measure {holds : σ → Prop} {allowed : ε → Prop} (busy : ε → Bool)
    (size : σ → Nat)
    (preserved : ∀ state event next, allowed event → holds state →
      step state event = some next → holds next)
    (shrinks : ∀ state event next, allowed event → holds state →
      step state event = some next →
        size next + (if busy event then 1 else 0) ≤ size state)
    {events : List ε} {state final : σ} (permitted : ∀ event ∈ events, allowed event)
    (initially : holds state) (reached : run step state events = some final) :
    size final + events.countP busy ≤ size state := by
  have bound := busy_le_credit busy size (fun _ => 0) preserved shrinks permitted initially reached
  rw [List.map_const', List.sum_replicate_nat, Nat.mul_zero, Nat.add_zero] at bound
  exact bound

/-- Where every state but a final one allows an event that lowers a measure, some run of such events
ends in a final state. -/
theorem exists_run_until {holds done : σ → Prop} {allowed : ε → Prop} (size : σ → Nat)
    (preserved : ∀ state event next, allowed event → holds state →
      step state event = some next → holds next)
    (goes_on : ∀ state, holds state → done state ∨ ∃ event next, allowed event ∧
      step state event = some next ∧ size next < size state)
    {state : σ} (initially : holds state) :
    ∃ events final, (∀ event ∈ events, allowed event) ∧ run step state events = some final ∧
      holds final ∧ done final := by
  generalize bound : size state = count
  induction count using Nat.strongRecOn generalizing state with
  | ind count induction =>
      rcases goes_on state initially with ended | ⟨event, next, allowedEvent, happens, less⟩
      · exact ⟨[], state, by simp, rfl, initially, ended⟩
      · obtain ⟨events, final, permitted, reached, kept, ended⟩ :=
          induction (size next) (bound ▸ less)
            (preserved state event next allowedEvent initially happens) rfl
        refine ⟨event :: events, final, ?_, run_cons.mpr ⟨next, happens, reached⟩, kept, ended⟩
        intro other member
        rcases List.mem_cons.mp member with rfl | member
        · exact allowedEvent
        · exact permitted other member

section Parties

variable {α : Type} {parties : List α} {party new : α} {own other : Nat}

theorem party_append (present : parties[own]? = some party) (joining : List α) :
    (parties ++ joining)[own]? = some party := by
  obtain ⟨inside, _⟩ := List.getElem?_eq_some_iff.mp present
  rw [List.getElem?_append_left inside]
  exact present

theorem party_set (present : parties[own]? = some party) (new : α) :
    (parties.set own new)[own]? = some new := by
  obtain ⟨inside, _⟩ := List.getElem?_eq_some_iff.mp present
  exact List.getElem?_set_self inside

theorem party_set_other (different : other ≠ own) (present : parties[other]? = some party)
    (new : α) : (parties.set own new)[other]? = some party := by
  rw [List.getElem?_set_ne (Ne.symm different)]
  exact present

theorem party_of_append (present : (parties ++ [new])[own]? = some party) :
    parties[own]? = some party ∨ own = parties.length ∧ party = new := by
  rcases Nat.lt_or_ge own parties.length with inside | outside
  · left
    rwa [List.getElem?_append_left inside] at present
  · right
    rw [List.getElem?_append_right outside, List.getElem?_singleton] at present
    obtain ⟨first, same⟩ := Option.ite_none_right_eq_some.mp present
    exact ⟨by omega, (Option.some.inj same).symm⟩

theorem party_of_set (present : (parties.set own new)[other]? = some party) :
    other = own ∧ party = new ∨ other ≠ own ∧ parties[other]? = some party := by
  by_cases same : other = own
  · left
    rw [same, List.getElem?_set_self'] at present
    obtain ⟨_, _, replaced⟩ := Option.map_eq_some_iff.mp present
    exact ⟨same, replaced.symm⟩
  · right
    rw [List.getElem?_set_ne (Ne.symm same)] at present
    exact ⟨same, present⟩

end Parties

end KVSSD.Transition

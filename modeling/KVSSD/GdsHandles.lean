import KVSSD.Descriptors
import Mathlib.Data.List.Nodup
import Mathlib.Data.List.Perm.Basic

/-!
# Handles of the GDS backend

`GDSStorageBackend` keeps one `GDSFile`, which it makes at the first probe or read, without a lock.
Two threads may therefore both make one, and a `close` may come between any two steps of a read.  A
`GDSFile` lives as long as something refers to it: `_handle`, or a thread that has just made it or
is reading through it.  Its destructor gives back what its constructor took.

What the driver holds is counted by the calls of `GDSFile`, not by the driver: every handle that it
registers is a new one, and a `cuFileDriverClose` that fails is left out.
-/

namespace KVSSD

open KVSSD.Transition

namespace Gds

/-- The descriptors of the process; and what was taken here and not given back: the uses of the
driver, the handles with their descriptors, and the descriptors. -/
structure Resources where
  table : Nat → Option OpenFile
  drivers : Nat
  registered : List (Nat × Nat)
  opened : List Nat

namespace Resources

/-- A `cuFileDriverOpen` that succeeds. -/
def openDriver (resources : Resources) : Resources :=
  { resources with drivers := resources.drivers + 1 }

/-- A `cuFileDriverClose` that succeeds. -/
def closeDriver (resources : Resources) : Resources :=
  { resources with drivers := resources.drivers - 1 }

/-- `open`: the kernel picks a number that is free. -/
def openFile (file : OpenFile) (resources : Resources) (number : Nat) : Option Resources :=
  if resources.table number = none then
    some { resources with
      table := Function.update resources.table number (some file)
      opened := number :: resources.opened }
  else none

/-- `close`. -/
def closeFile (resources : Resources) (number : Nat) : Resources :=
  { resources with
    table := Function.update resources.table number none
    opened := resources.opened.erase number }

/-- A `cuFileHandleRegister` that succeeds, with a handle that is not in use. -/
def register (resources : Resources) (handle number : Nat) : Option Resources :=
  if ∀ entry ∈ resources.registered, entry.1 ≠ handle then
    some { resources with registered := (handle, number) :: resources.registered }
  else none

/-- `cuFileHandleDeregister`, which returns nothing. -/
def deregister (resources : Resources) (handle : Nat) : Resources :=
  { resources with registered := resources.registered.filter fun entry => entry.1 ≠ handle }

end Resources

/-- An object of the class `GDSFile`. -/
structure GDSFile where
  fd : Option Nat
  handle : Nat
  registered : Bool
  driverOpen : Bool
  deriving DecidableEq, Repr

/-- What the calls of a constructor return. -/
inductive Construction where
  | driverFails
  | openFails
  | registerFails (number : Nat)
  | registers (number handle : Nat)
  deriving DecidableEq, Repr

namespace GDSFile

/-- The constructor; without an object it raises. -/
def construct (file : OpenFile) (resources : Resources) :
    Construction → Option (Resources × Option GDSFile)
  | .driverFails => some (resources, none)
  | .openFails => some (resources.openDriver.closeDriver, none)
  | .registerFails number => do
      let resources ← resources.openDriver.openFile file number
      return ((resources.closeFile number).closeDriver, none)
  | .registers number handle => do
      let resources ← resources.openDriver.openFile file number
      let resources ← resources.register handle number
      return (resources, some ⟨some number, handle, true, true⟩)

/-- `close`, which the destructor calls. -/
def close (object : GDSFile) (resources : Resources) : Resources × GDSFile :=
  let resources :=
    if object.registered then resources.deregister object.handle else resources
  let resources := match object.fd with
    | some number => resources.closeFile number
    | none => resources
  let resources := if object.driverOpen then resources.closeDriver else resources
  (resources, ⟨none, object.handle, false, false⟩)

/-- What `cuFileRead` finds: the file behind the descriptor that is registered with the handle. -/
def found (object : GDSFile) (resources : Resources) : Option OpenFile := do
  let entry ← resources.registered.find? fun entry => entry.1 = object.handle
  resources.table entry.2

end GDSFile

/-- The handle and the descriptor of an object. -/
def GDSFile.entry (object : GDSFile) : Option (Nat × Nat) :=
  object.fd.map fun number => (object.handle, number)

/-- The objects that are alive hold the descriptors, the registrations and the uses of the driver
that there are, each of them one of each; the others hold nothing. -/
structure Holds (file : OpenFile) (alive : Nat → Prop) (resources : Resources)
    (objects : List GDSFile) : Prop where
  live : ∀ own, alive own → ∃ number handle,
    objects[own]? = some ⟨some number, handle, true, true⟩
  dead : ∀ own object, ¬ alive own → objects[own]? = some object →
    object = ⟨none, object.handle, false, false⟩
  registered : resources.registered.Perm (objects.filterMap GDSFile.entry)
  opened : resources.opened.Perm (resources.registered.map Prod.snd)
  drivers : resources.drivers = resources.registered.length
  handles : (resources.registered.map Prod.fst).Nodup
  numbers : resources.opened.Nodup
  table : ∀ number ∈ resources.opened, resources.table number = some file

section Holds

variable {file : OpenFile} {alive : Nat → Prop} {resources after : Resources}
  {objects : List GDSFile} {construction : Construction} {object : GDSFile} {own : Nat}

theorem GDSFile.construct_raises
    (raises : GDSFile.construct file resources construction = some (after, none)) :
    after = resources := by
  cases construction with
  | driverFails =>
      cases raises
      rfl
  | openFails =>
      cases raises
      rfl
  | registerFails number =>
      obtain ⟨opened, opens, goes⟩ := Option.bind_eq_some_iff.mp raises
      obtain ⟨free, ⟨⟩⟩ := Option.ite_none_right_eq_some.mp opens
      cases goes
      have table : Function.update (Function.update resources.table number (some file)) number
          none = resources.table := by
        rw [Function.update_idem]
        exact Function.update_eq_self_iff.mpr free.symm
      simp [Resources.closeFile, Resources.closeDriver, Resources.openDriver, table]
  | registers number handle =>
      obtain ⟨opened, _, goes⟩ := Option.bind_eq_some_iff.mp raises
      obtain ⟨registered, _, goes⟩ := Option.bind_eq_some_iff.mp goes
      cases goes

theorem GDSFile.construct_makes
    (makes : GDSFile.construct file resources construction = some (after, some object)) :
    ∃ number handle, resources.table number = none ∧
      (∀ entry ∈ resources.registered, entry.1 ≠ handle) ∧
      object = ⟨some number, handle, true, true⟩ ∧
      after =
        { table := Function.update resources.table number (some file)
          drivers := resources.drivers + 1
          registered := (handle, number) :: resources.registered
          opened := number :: resources.opened } := by
  cases construction with
  | driverFails => cases makes
  | openFails => cases makes
  | registerFails number =>
      obtain ⟨opened, _, goes⟩ := Option.bind_eq_some_iff.mp makes
      cases goes
  | registers number handle =>
      obtain ⟨opened, opens, goes⟩ := Option.bind_eq_some_iff.mp makes
      obtain ⟨registered, registers, goes⟩ := Option.bind_eq_some_iff.mp goes
      obtain ⟨free, ⟨⟩⟩ := Option.ite_none_right_eq_some.mp opens
      obtain ⟨new, ⟨⟩⟩ := Option.ite_none_right_eq_some.mp registers
      cases goes
      exact ⟨number, handle, free, new, rfl, rfl⟩

theorem Holds.congr {also : Nat → Prop} (holds : Holds file alive resources objects)
    (same : ∀ own, alive own ↔ also own) : Holds file also resources objects := by
  have equal : alive = also := funext fun own => propext (same own)
  rw [← equal]
  exact holds

/-- A new object is alive. -/
theorem Holds.construct (holds : Holds file alive resources objects)
    (makes : GDSFile.construct file resources construction = some (after, some object)) :
    Holds file (fun own => alive own ∨ own = objects.length) after (objects ++ [object]) := by
  obtain ⟨number, handle, free, new, rfl, rfl⟩ := GDSFile.construct_makes makes
  have other : ∀ opened ∈ resources.opened, opened ≠ number := by
    rintro opened member rfl
    rw [holds.table opened member] at free
    cases free
  exact
    { live := by
        rintro own (living | rfl)
        · obtain ⟨number, handle, here⟩ := holds.live own living
          exact ⟨number, handle, party_append here _⟩
        · exact ⟨number, handle, by simp⟩
      dead := by
        intro own object gone here
        rw [not_or] at gone
        rcases party_of_append here with old | ⟨last, _⟩
        · exact holds.dead own object gone.1 old
        · exact absurd last gone.2
      registered := by
        rw [List.filterMap_append]
        exact (holds.registered.cons (handle, number)).trans (List.perm_append_singleton _ _).symm
      opened := holds.opened.cons number
      drivers := congrArg Nat.succ holds.drivers
      handles := by
        rw [List.map_cons, List.nodup_cons]
        refine ⟨?_, holds.handles⟩
        intro member
        obtain ⟨entry, inside, same⟩ := List.mem_map.mp member
        exact new entry inside same
      numbers := List.nodup_cons.mpr ⟨fun member => other number member rfl, holds.numbers⟩
      table := by
        intro opened member
        rcases List.mem_cons.mp member with rfl | old
        · exact Function.update_self _ _ _
        · exact (Function.update_of_ne (other opened old) _ _).trans (holds.table opened old) }

theorem filterMap_set {new : GDSFile} {entry : Nat × Nat} (here : objects[own]? = some object)
    (holds : object.entry = some entry) (nothing : new.entry = none) :
    (objects.filterMap GDSFile.entry).Perm
      (entry :: (objects.set own new).filterMap GDSFile.entry) := by
  induction objects generalizing own with
  | nil => cases here
  | cons head objects induction =>
      cases own with
      | zero =>
          obtain rfl := Option.some.inj here
          rw [List.set_cons_zero, List.filterMap_cons_some holds, List.filterMap_cons_none nothing]
      | succ own =>
          have rest := induction here
          rw [List.set_cons_succ]
          cases first : head.entry with
          | none => rwa [List.filterMap_cons_none first, List.filterMap_cons_none first]
          | some pair =>
              rw [List.filterMap_cons_some first, List.filterMap_cons_some first]
              exact (rest.cons pair).trans (List.Perm.swap _ _ _)

/-- The destructor of a live object gives back what it holds. -/
theorem Holds.close (holds : Holds file alive resources objects) (living : alive own)
    (here : objects[own]? = some object) :
    Holds file (fun other => alive other ∧ other ≠ own) (object.close resources).1
      (objects.set own (object.close resources).2) := by
  obtain ⟨number, handle, same⟩ := holds.live own living
  obtain rfl := Option.some.inj (here.symm.trans same)
  have apart : resources.registered.Perm ((handle, number) ::
      (objects.set own ⟨none, handle, false, false⟩).filterMap GDSFile.entry) :=
    holds.registered.trans (filterMap_set here rfl rfl)
  have distinct := (apart.map Prod.fst).nodup_iff.mp holds.handles
  rw [List.map_cons, List.nodup_cons] at distinct
  have registered : (resources.registered.filter fun entry => entry.1 ≠ handle).Perm
      ((objects.set own ⟨none, handle, false, false⟩).filterMap GDSFile.entry) := by
    refine (apart.filter _).trans (List.Perm.of_eq ?_)
    rw [List.filter_cons_of_neg (by simp), List.filter_eq_self]
    intro entry member
    refine decide_eq_true fun same => distinct.1 ?_
    exact List.mem_map.mpr ⟨entry, member, same⟩
  have numbers := holds.opened.trans (apart.map Prod.snd)
  have opened : (resources.opened.erase number).Perm
      ((resources.registered.filter fun entry => entry.1 ≠ handle).map Prod.snd) := by
    refine (numbers.erase number).trans ?_
    rw [List.map_cons, List.erase_cons_head]
    exact (registered.map Prod.snd).symm
  exact
    { live := by
        rintro other ⟨living, different⟩
        obtain ⟨number, handle, there⟩ := holds.live other living
        exact ⟨number, handle, party_set_other different there _⟩
      dead := by
        intro other object gone there
        rcases party_of_set there with ⟨_, rfl⟩ | ⟨different, there⟩
        · rfl
        · exact holds.dead other object (fun living => gone ⟨living, different⟩) there
      registered := registered
      opened := opened
      drivers := by
        have all := apart.length_eq
        rw [List.length_cons, ← registered.length_eq, ← holds.drivers] at all
        exact Nat.sub_eq_of_eq_add all
      handles := by
        exact (registered.map Prod.fst).nodup_iff.mpr distinct.2
      numbers := holds.numbers.erase number
      table := by
        intro other member
        have different := (List.Nodup.mem_erase_iff holds.numbers).mp member
        exact (Function.update_of_ne different.1 _ _).trans (holds.table other different.2) }

theorem Holds.update (holds : Holds file alive resources objects) {number : Nat}
    (others : number ∉ resources.opened) (theirs : Option OpenFile) :
    Holds file alive
      { resources with table := Function.update resources.table number theirs } objects := by
  refine { holds with table := ?_ }
  intro own member
  have different : own ≠ number := by
    rintro rfl
    exact others member
  exact (Function.update_of_ne different _ _).trans (holds.table own member)

theorem Holds.opened_of_live (holds : Holds file alive resources objects) {number handle : Nat}
    {driverOpen : Bool} (here : objects[own]? = some ⟨some number, handle, true, driverOpen⟩) :
    number ∈ resources.opened := by
  have member : (handle, number) ∈ resources.registered := by
    rw [holds.registered.mem_iff]
    exact List.mem_filterMap.mpr ⟨_, List.mem_of_getElem? here, rfl⟩
  rw [holds.opened.mem_iff]
  exact List.mem_map.mpr ⟨_, member, rfl⟩

/-- A read through a live object finds the file. -/
theorem Holds.found (holds : Holds file alive resources objects) (living : alive own)
    (here : objects[own]? = some object) : object.found resources = some file := by
  obtain ⟨number, handle, same⟩ := holds.live own living
  obtain rfl := Option.some.inj (here.symm.trans same)
  have member : (handle, number) ∈ resources.registered := by
    rw [holds.registered.mem_iff]
    exact List.mem_filterMap.mpr ⟨_, List.mem_of_getElem? here, rfl⟩
  have finds : (resources.registered.find? fun entry => entry.1 = handle) =
      some (handle, number) := by
    cases finds : resources.registered.find? fun entry => entry.1 = handle with
    | none =>
        have absent := List.find?_eq_none.mp finds _ member
        simp at absent
    | some entry =>
        have same : entry.1 = handle := by simpa using List.find?_some finds
        rw [List.inj_on_of_nodup_map holds.handles (List.mem_of_find?_eq_some finds) member same]
  rw [GDSFile.found, finds]
  exact holds.table number (holds.opened_of_live here)

theorem Holds.nothing (holds : Holds file alive resources objects) (dead : ∀ own, ¬ alive own) :
    resources.drivers = 0 ∧ resources.registered = [] ∧ resources.opened = [] := by
  have empty : objects.filterMap GDSFile.entry = [] := by
    rw [List.filterMap_eq_nil_iff]
    intro object member
    obtain ⟨own, here⟩ := List.mem_iff_getElem?.mp member
    rw [holds.dead own object (dead own) here]
    rfl
  have registered := holds.registered
  rw [empty, List.perm_nil] at registered
  have opened := holds.opened
  rw [registered, List.map_nil, List.perm_nil] at opened
  exact ⟨by rw [holds.drivers, registered]; rfl, registered, opened⟩

end Holds

inductive Call where
  | probe
  | read
  deriving DecidableEq, Repr

/-- Where a thread is in `_ensure_handle` and behind it. -/
inductive Stage where
  | idle
  /-- `_handle` was `None`. -/
  | creating (call : Call)
  /-- An object was made, and is not in `_handle` yet. -/
  | storing (call : Call) (object : Nat)
  /-- `_handle` was found or stored, and is looked up again for the caller. -/
  | returning (call : Call)
  /-- A read through an object. -/
  | reading (object : Nat)
  deriving DecidableEq, Repr

/-- The object that a thread refers to. -/
def Stage.object : Stage → Option Nat
  | .storing _ object | .reading object => some object
  | _ => none

/-- A backend with its threads, and for the record what its reads found and how many calls of
`read_into` found no handle. -/
structure Backend where
  resources : Resources
  objects : List GDSFile
  handle : Option Nat
  threads : List Stage
  reads : List (Option OpenFile)
  missing : Nat

inductive Event where
  /-- A thread that may use the backend. -/
  | join
  /-- A call of `probe` or `read_into` looks at `_handle`. -/
  | begin (thread : Nat) (call : Call)
  | construct (thread : Nat) (construction : Construction)
  | store (thread : Nat)
  | load (thread : Nat)
  /-- A read ends. -/
  | read (thread : Nat)
  /-- `close`, in any thread. -/
  | close
  /-- Other code opens a file, and closes a descriptor of its own. -/
  | openOther (number : Nat) (file : OpenFile)
  | closeOther (number : Nat)
  deriving DecidableEq, Repr

namespace Backend

/-- The backend before the first call, with descriptors of other code. -/
def initial (others : Nat → Option OpenFile) : Backend :=
  ⟨⟨others, 0, [], []⟩, [], none, [], [], 0⟩

/-- What is referred to. -/
def references (backend : Backend) : List Nat :=
  backend.handle.toList ++ backend.threads.filterMap Stage.object

/-- A reference was dropped: the destructor runs where it was the last one. -/
def release (backend : Backend) (dropped : Option Nat) : Backend :=
  match dropped with
  | none => backend
  | some own =>
      if own ∈ backend.references then backend
      else match backend.objects[own]? with
        | none => backend
        | some object =>
            let (resources, object) := object.close backend.resources
            { backend with
              resources := resources
              objects := backend.objects.set own object }

/-- A thread goes on. -/
def move (backend : Backend) (thread : Nat) (stage : Stage) : Backend :=
  { backend with threads := backend.threads.set thread stage }

def step (file : OpenFile) (backend : Backend) : Event → Option Backend
  | .join => some { backend with threads := backend.threads ++ [.idle] }
  | .begin thread call =>
      match backend.threads[thread]? with
      | some .idle =>
          some (backend.move thread
            (if backend.handle = none then .creating call else .returning call))
      | _ => none
  | .construct thread construction =>
      match backend.threads[thread]? with
      | some (.creating call) => do
          let (resources, object) ← GDSFile.construct file backend.resources construction
          match object with
          | none => return { backend with resources := resources }.move thread .idle
          | some object =>
              return { backend with
                resources := resources
                objects := backend.objects ++ [object] }.move thread
                  (.storing call backend.objects.length)
      | _ => none
  | .store thread =>
      match backend.threads[thread]? with
      | some (.storing call object) =>
          some (({ backend with handle := some object }.move thread (.returning call)).release
            backend.handle)
      | _ => none
  | .load thread =>
      match backend.threads[thread]? with
      | some (.returning .probe) => some (backend.move thread .idle)
      | some (.returning .read) =>
          match backend.handle with
          | some object => some (backend.move thread (.reading object))
          | none => some ({ backend with missing := backend.missing + 1 }.move thread .idle)
      | _ => none
  | .read thread =>
      match backend.threads[thread]? with
      | some (.reading own) => do
          let object ← backend.objects[own]?
          return ({ backend with
            reads := backend.reads ++ [object.found backend.resources] }.move thread .idle).release
              (some own)
      | _ => none
  | .close => some ({ backend with handle := none }.release backend.handle)
  | .openOther number other =>
      if backend.resources.table number = none then
        some { backend with resources := { backend.resources with
          table := Function.update backend.resources.table number (some other) } }
      else none
  | .closeOther number =>
      if backend.resources.table number ≠ none ∧ number ∉ backend.resources.opened then
        some { backend with resources := { backend.resources with
          table := Function.update backend.resources.table number none } }
      else none

/-- What an event makes of the backend. -/
inductive Steps (file : OpenFile) (backend : Backend) : Event → Backend → Prop where
  | joins : Steps file backend .join { backend with threads := backend.threads ++ [.idle] }
  | creates {thread : Nat} {call : Call} (idle : backend.threads[thread]? = some .idle)
      (missing : backend.handle = none) :
      Steps file backend (.begin thread call) (backend.move thread (.creating call))
  | finds {thread : Nat} {call : Call} (idle : backend.threads[thread]? = some .idle)
      (cached : backend.handle ≠ none) :
      Steps file backend (.begin thread call) (backend.move thread (.returning call))
  | raises {thread : Nat} {call : Call} {construction : Construction} {resources : Resources}
      (creating : backend.threads[thread]? = some (.creating call))
      (constructs : GDSFile.construct file backend.resources construction =
        some (resources, none)) :
      Steps file backend (.construct thread construction)
        ({ backend with resources := resources }.move thread .idle)
  | makes {thread : Nat} {call : Call} {construction : Construction} {resources : Resources}
      {object : GDSFile} (creating : backend.threads[thread]? = some (.creating call))
      (constructs : GDSFile.construct file backend.resources construction =
        some (resources, some object)) :
      Steps file backend (.construct thread construction)
        ({ backend with
          resources := resources
          objects := backend.objects ++ [object] }.move thread
            (.storing call backend.objects.length))
  | stores {thread own : Nat} {call : Call}
      (storing : backend.threads[thread]? = some (.storing call own)) :
      Steps file backend (.store thread)
        (({ backend with handle := some own }.move thread (.returning call)).release
          backend.handle)
  | probed {thread : Nat} (returning : backend.threads[thread]? = some (.returning .probe)) :
      Steps file backend (.load thread) (backend.move thread .idle)
  | loads {thread own : Nat} (returning : backend.threads[thread]? = some (.returning .read))
      (cached : backend.handle = some own) :
      Steps file backend (.load thread) (backend.move thread (.reading own))
  | misses {thread : Nat} (returning : backend.threads[thread]? = some (.returning .read))
      (missing : backend.handle = none) :
      Steps file backend (.load thread)
        ({ backend with missing := backend.missing + 1 }.move thread .idle)
  | reads {thread own : Nat} {object : GDSFile}
      (reading : backend.threads[thread]? = some (.reading own))
      (here : backend.objects[own]? = some object) :
      Steps file backend (.read thread)
        (({ backend with
          reads := backend.reads ++ [object.found backend.resources] }.move thread .idle).release
            (some own))
  | closes : Steps file backend .close ({ backend with handle := none }.release backend.handle)
  | openOther {number : Nat} {other : OpenFile} (free : backend.resources.table number = none) :
      Steps file backend (.openOther number other)
        { backend with resources := { backend.resources with
          table := Function.update backend.resources.table number (some other) } }
  | closeOther {number : Nat} (others : number ∉ backend.resources.opened) :
      Steps file backend (.closeOther number)
        { backend with resources := { backend.resources with
          table := Function.update backend.resources.table number none } }

theorem step_steps {file : OpenFile} {backend next : Backend} {event : Event}
    (happens : backend.step file event = some next) : backend.Steps file event next := by
  cases event with
  | join =>
      cases happens
      exact .joins
  | begin thread call =>
      simp only [step] at happens
      split at happens
      · rename_i idle
        obtain rfl := Option.some.inj happens
        split
        · rename_i missing
          exact .creates idle missing
        · rename_i cached
          exact .finds idle cached
      · cases happens
  | construct thread construction =>
      simp only [step] at happens
      split at happens
      · rename_i call creating
        obtain ⟨⟨resources, object⟩, constructs, goes⟩ := Option.bind_eq_some_iff.mp happens
        cases object with
        | none =>
            cases goes
            exact .raises creating constructs
        | some object =>
            cases goes
            exact .makes creating constructs
      · cases happens
  | store thread =>
      simp only [step] at happens
      split at happens
      · rename_i call own storing
        cases happens
        exact .stores storing
      · cases happens
  | load thread =>
      simp only [step] at happens
      split at happens
      · rename_i returning
        cases happens
        exact .probed returning
      · rename_i returning
        split at happens
        · rename_i own cached
          cases happens
          exact .loads returning cached
        · rename_i missing
          cases happens
          exact .misses returning missing
      · cases happens
  | read thread =>
      simp only [step] at happens
      split at happens
      · rename_i own reading
        obtain ⟨object, here, goes⟩ := Option.bind_eq_some_iff.mp happens
        cases goes
        exact .reads reading here
      · cases happens
  | close =>
      cases happens
      exact .closes
  | openOther number other =>
      obtain ⟨free, ⟨⟩⟩ := Option.ite_none_right_eq_some.mp happens
      exact .openOther free
  | closeOther number =>
      obtain ⟨⟨_, others⟩, ⟨⟩⟩ := Option.ite_none_right_eq_some.mp happens
      exact .closeOther others

section References

variable {backend : Backend} {threads : List Stage} {thread own : Nat} {old stage : Stage}

/-- Another thread refers to an object. -/
def Elsewhere (threads : List Stage) (thread own : Nat) : Prop :=
  ∃ (other : Nat) (stage : Stage), other ≠ thread ∧ threads[other]? = some stage ∧
    stage.object = some own

theorem mem_held (here : threads[thread]? = some old) :
    own ∈ threads.filterMap Stage.object ↔
      old.object = some own ∨ Elsewhere threads thread own := by
  rw [List.mem_filterMap]
  constructor
  · rintro ⟨stage, member, held⟩
    obtain ⟨other, there⟩ := List.mem_iff_getElem?.mp member
    by_cases same : other = thread
    · rw [same, here] at there
      cases there
      exact .inl held
    · exact .inr ⟨other, stage, same, there, held⟩
  · rintro (held | ⟨other, stage, _, there, held⟩)
    · exact ⟨old, List.mem_of_getElem? here, held⟩
    · exact ⟨stage, List.mem_of_getElem? there, held⟩

theorem mem_held_set (here : threads[thread]? = some old) :
    own ∈ (threads.set thread stage).filterMap Stage.object ↔
      stage.object = some own ∨ Elsewhere threads thread own := by
  rw [mem_held (party_set here stage)]
  have same : Elsewhere (threads.set thread stage) thread own ↔ Elsewhere threads thread own := by
    constructor
    · rintro ⟨other, stage, different, there, held⟩
      rcases party_of_set there with ⟨same, _⟩ | ⟨_, there⟩
      · exact absurd same different
      · exact ⟨other, stage, different, there, held⟩
    · rintro ⟨other, stage, different, there, held⟩
      exact ⟨other, stage, different, party_set_other different there _, held⟩
  rw [same]

@[simp] theorem mem_references : own ∈ backend.references ↔
    backend.handle = some own ∨ own ∈ backend.threads.filterMap Stage.object := by
  rw [references, List.mem_append, Option.mem_toList]

theorem release_referred (referred : own ∈ backend.references) :
    backend.release (some own) = backend :=
  if_pos referred

theorem release_last {object : GDSFile} (last : own ∉ backend.references)
    (here : backend.objects[own]? = some object) :
    backend.release (some own) =
      { backend with
        resources := (object.close backend.resources).1
        objects := backend.objects.set own (object.close backend.resources).2 } := by
  rw [release, if_neg last, here]

theorem release_same (dropped : Option Nat) :
    (backend.release dropped).handle = backend.handle ∧
      (backend.release dropped).threads = backend.threads ∧
      (backend.release dropped).reads = backend.reads ∧
      (backend.release dropped).missing = backend.missing := by
  unfold release
  repeat' split
  all_goals exact ⟨rfl, rfl, rfl, rfl⟩

theorem references_release (dropped : Option Nat) :
    (backend.release dropped).references = backend.references := by
  obtain ⟨handle, threads, _⟩ := backend.release_same dropped
  rw [references, references, handle, threads]

end References

/-- What is referred to is alive, and the reads have found the file. -/
structure Sound (file : OpenFile) (backend : Backend) : Prop where
  holds : Holds file (fun own => own ∈ backend.references) backend.resources backend.objects
  reads : ∀ read ∈ backend.reads, read = some file

section Invariants

variable {file : OpenFile} {backend next : Backend} {event : Event} {thread own : Nat}
  {old stage : Stage}

theorem references_move (here : backend.threads[thread]? = some old)
    (same : stage.object = old.object) (own : Nat) :
    own ∈ backend.references ↔ own ∈ (backend.move thread stage).references := by
  simp only [mem_references, move, mem_held here, mem_held_set here, same]

/-- Where one reference was dropped, the destructor has run if it was the last. -/
theorem holds_release {alive : Nat → Prop} {dropped : Option Nat}
    (holds : Holds file alive backend.resources backend.objects)
    (same : ∀ own, alive own ↔ own ∈ backend.references ∨ dropped = some own) :
    Holds file (fun own => own ∈ (backend.release dropped).references)
      (backend.release dropped).resources (backend.release dropped).objects := by
  rw [references_release]
  cases dropped with
  | none => exact holds.congr fun own => by simp [same own]
  | some own =>
      by_cases referred : own ∈ backend.references
      · rw [release_referred referred]
        refine holds.congr fun other => ?_
        rw [same other]
        constructor
        · rintro (known | last)
          · exact known
          · obtain rfl := Option.some.inj last
            exact referred
        · exact .inl
      · have living : alive own := (same own).mpr (.inr rfl)
        obtain ⟨number, handle, here⟩ := holds.live own living
        rw [release_last referred here]
        refine (holds.close living here).congr fun other => ?_
        rw [same other]
        constructor
        · rintro ⟨known | last, different⟩
          · exact known
          · exact absurd (Option.some.inj last).symm different
        · intro known
          refine ⟨.inl known, ?_⟩
          rintro rfl
          exact referred known

/-- The step lemma. -/
theorem Sound.step (sound : backend.Sound file) (happens : backend.step file event = some next) :
    next.Sound file := by
  have holds := sound.holds
  cases step_steps happens with
  | joins =>
      refine ⟨holds.congr fun own => ?_, sound.reads⟩
      simp [references, Stage.object]
  | creates idle missing => exact ⟨holds.congr (references_move idle rfl), sound.reads⟩
  | finds idle cached => exact ⟨holds.congr (references_move idle rfl), sound.reads⟩
  | raises creating constructs =>
      obtain rfl := GDSFile.construct_raises constructs
      exact ⟨holds.congr (references_move creating rfl), sound.reads⟩
  | makes creating constructs =>
      refine ⟨(holds.construct constructs).congr fun own => ?_, sound.reads⟩
      simp only [mem_references, move, mem_held creating, mem_held_set creating, Stage.object,
        Option.some.injEq]
      tauto
  | stores storing =>
      refine ⟨holds_release holds fun own => ?_, ?_⟩
      · simp only [mem_references, move, mem_held storing, mem_held_set storing, Stage.object]
        tauto
      · rw [(release_same _).2.2.1]
        exact sound.reads
  | probed returning => exact ⟨holds.congr (references_move returning rfl), sound.reads⟩
  | loads returning cached =>
      refine ⟨holds.congr fun own => ?_, sound.reads⟩
      simp only [mem_references, move, mem_held returning, mem_held_set returning, Stage.object,
        cached]
      tauto
  | misses returning missing => exact ⟨holds.congr (references_move returning rfl), sound.reads⟩
  | reads reading here =>
      refine ⟨holds_release holds fun own => ?_, ?_⟩
      · simp only [mem_references, move, mem_held reading, mem_held_set reading, Stage.object]
        tauto
      · rw [(release_same _).2.2.1]
        intro read member
        rcases List.mem_append.mp member with old | new
        · exact sound.reads read old
        · rw [List.mem_singleton.mp new]
          refine holds.found ?_ here
          rw [mem_references, mem_held reading]
          exact .inr (.inl rfl)
  | closes =>
      refine ⟨holds_release holds fun own => ?_, ?_⟩
      · simp only [mem_references, reduceCtorEq, false_or]
        tauto
      · rw [(release_same _).2.2.1]
        exact sound.reads
  | @openOther number other free =>
      refine ⟨holds.update ?_ _, sound.reads⟩
      intro opened
      rw [holds.table number opened] at free
      cases free
  | closeOther others => exact ⟨holds.update others _, sound.reads⟩

theorem table_release {alive : Nat → Prop} {dropped : Option Nat} {number : Nat}
    (holds : Holds file alive backend.resources backend.objects)
    (living : ∀ own, dropped = some own → alive own)
    (others : number ∉ backend.resources.opened) :
    (backend.release dropped).resources.table number = backend.resources.table number := by
  cases dropped with
  | none => rfl
  | some own =>
      by_cases referred : own ∈ backend.references
      · rw [release_referred referred]
      · obtain ⟨mine, handle, here⟩ := holds.live own (living own rfl)
        rw [release_last referred here]
        refine Function.update_of_ne ?_ _ _
        rintro rfl
        exact others (holds.opened_of_live here)

/-- A file that other code has open stays open until that code closes it. -/
theorem Sound.keeps (sound : backend.Sound file) (happens : backend.step file event = some next)
    {number : Nat} {theirs : OpenFile} (opened : backend.resources.table number = some theirs)
    (others : number ∉ backend.resources.opened) (stays : event ≠ .closeOther number) :
    next.resources.table number = some theirs := by
  have holds := sound.holds
  cases step_steps happens with
  | joins | creates | finds | probed | loads | misses => exact opened
  | raises creating constructs =>
      rw [GDSFile.construct_raises constructs]
      exact opened
  | makes creating constructs =>
      obtain ⟨mine, handle, free, _, _, rfl⟩ := GDSFile.construct_makes constructs
      refine (Function.update_of_ne ?_ _ _).trans opened
      rintro rfl
      rw [opened] at free
      cases free
  | stores storing =>
      refine Eq.trans (table_release holds ?_ others) opened
      intro own cached
      exact mem_references.mpr (.inl cached)
  | reads reading here =>
      refine Eq.trans (table_release holds ?_ others) opened
      rintro own ⟨⟩
      exact mem_references.mpr (.inr ((mem_held reading).mpr (.inl rfl)))
  | closes =>
      refine Eq.trans (table_release holds ?_ others) opened
      intro own cached
      exact mem_references.mpr (.inl cached)
  | @openOther mine other free =>
      refine (Function.update_of_ne ?_ _ _).trans opened
      rintro rfl
      rw [opened] at free
      cases free
  | @closeOther mine _ =>
      refine (Function.update_of_ne ?_ _ _).trans opened
      rintro rfl
      exact stays rfl

/-- `close` is called while no other call is under way. -/
def QuietClose (backend : Backend) : Event → Prop
  | .close => ∀ stage ∈ backend.threads, stage = .idle
  | _ => True

/-- A thread that looks the handle up again finds one, and each has so far. -/
structure Ready (backend : Backend) : Prop where
  cached : ∀ (thread : Nat) (call : Call), backend.threads[thread]? = some (.returning call) →
    backend.handle ≠ none
  missing : backend.missing = 0

theorem Ready.move (ready : backend.Ready) (elsewhere : ∀ call, stage ≠ .returning call) :
    (backend.move thread stage).Ready := by
  refine ⟨?_, ready.missing⟩
  intro other call here
  rcases party_of_set here with ⟨_, moved⟩ | ⟨_, there⟩
  · exact absurd moved.symm (elsewhere call)
  · exact ready.cached other call there

theorem Ready.release (ready : backend.Ready) (dropped : Option Nat) :
    (backend.release dropped).Ready := by
  obtain ⟨handle, threads, _, missing⟩ := backend.release_same dropped
  constructor
  · rw [handle, threads]
    exact ready.cached
  · rw [missing]
    exact ready.missing

/-- The step lemma, where no `close` comes between the steps of a call. -/
theorem Ready.step (ready : backend.Ready) (quiet : backend.QuietClose event)
    (happens : backend.step file event = some next) : next.Ready := by
  cases step_steps happens with
  | joins =>
      refine ⟨?_, ready.missing⟩
      intro thread call here
      rcases party_of_append here with old | ⟨_, new⟩
      · exact ready.cached thread call old
      · cases new
  | creates idle missing => exact ready.move (fun call same => (by cases same))
  | finds idle cached =>
      refine ⟨?_, ready.missing⟩
      intro thread call here
      exact cached
  | raises creating constructs =>
      have same : { backend with resources := backend.resources }.Ready := ready
      rw [GDSFile.construct_raises constructs]
      exact same.move (fun call same => (by cases same))
  | @makes thread call construction resources object creating constructs =>
      have same : { backend with
          resources := resources
          objects := backend.objects ++ [object] }.Ready := ⟨ready.cached, ready.missing⟩
      exact same.move (fun call same => (by cases same))
  | @stores thread own call storing =>
      have after : ({ backend with handle := some own }.move thread (.returning call)).Ready := by
        refine ⟨?_, ready.missing⟩
        intro other call here missing
        cases missing
      exact after.release _
  | probed returning => exact ready.move (fun call same => (by cases same))
  | loads returning cached => exact ready.move (fun call same => (by cases same))
  | misses returning missing => exact absurd missing (ready.cached _ _ returning)
  | @reads thread own object reading here =>
      have same : { backend with
          reads := backend.reads ++ [object.found backend.resources] }.Ready :=
        ⟨ready.cached, ready.missing⟩
      exact (same.move (fun call same => (by cases same))).release _
  | closes =>
      have after : { backend with handle := none }.Ready := by
        refine ⟨?_, ready.missing⟩
        intro thread call here
        cases quiet _ (List.mem_of_getElem? here)
      exact after.release _
  | openOther => exact ⟨ready.cached, ready.missing⟩
  | closeOther => exact ⟨ready.cached, ready.missing⟩

end Invariants

section Run

variable {file : OpenFile} {others : Nat → Option OpenFile} {events : List Event}
  {backend : Backend}

theorem sound_initial (file : OpenFile) (others : Nat → Option OpenFile) :
    (initial others).Sound file := by
  refine ⟨⟨?_, ?_, .refl _, .refl _, rfl, .nil, .nil, ?_⟩, ?_⟩
  · intro own known
    cases known
  · intro own object _ here
    cases here
  · intro number opened
    cases opened
  · intro read member
    cases member

theorem sound_of_run (reached : run (step file) (initial others) events = some backend) :
    backend.Sound file :=
  invariant_of_run (Sound file) (fun _ _ _ sound happens => sound.step happens)
    (sound_initial file others) reached

theorem ready_of_run (permitted : Permitted (step file) QuietClose (initial others) events)
    (reached : run (step file) (initial others) events = some backend) : backend.Ready := by
  have initially : (initial others).Ready := by
    refine ⟨?_, rfl⟩
    intro thread call here
    cases here
  exact invariant_of_permitted_run (fun _ _ _ quiet ready happens => ready.step quiet happens)
    permitted initially reached

end Run

end Backend

/-- For every order of the steps of any threads that probe, read and close, and whatever fails:
every read goes through a handle that is registered for a descriptor of the file, until it ends.
What is referred to holds one use of the driver, one registration and one descriptor each, all else
holds nothing, and files of other code stay open.  Once `_handle` is `None` and no call is under
way, everything has been given back.  No call finds the handle gone unless a `close` comes while a
call is under way. -/
theorem handles_balanced (file : OpenFile) (others : Nat → Option OpenFile) {events : List Event}
    {backend : Backend}
    (reached : run (Backend.step file) (Backend.initial others) events = some backend) :
    (∀ read ∈ backend.reads, read = some file) ∧
      (∀ (thread own : Nat), backend.threads[thread]? = some (.reading own) →
        ∃ object, backend.objects[own]? = some object ∧
          object.found backend.resources = some file) ∧
      Holds file (fun own => own ∈ backend.references) backend.resources backend.objects ∧
      (∀ event next number theirs, backend.step file event = some next →
        backend.resources.table number = some theirs → number ∉ backend.resources.opened →
        event ≠ .closeOther number → next.resources.table number = some theirs) ∧
      (backend.handle = none → (∀ stage ∈ backend.threads, stage = .idle) →
        backend.resources.drivers = 0 ∧ backend.resources.registered = [] ∧
          backend.resources.opened = []) ∧
      (Permitted (Backend.step file) Backend.QuietClose (Backend.initial others) events →
        backend.missing = 0) := by
  have sound := Backend.sound_of_run reached
  refine ⟨sound.reads, ?_, sound.holds, ?_, ?_, ?_⟩
  · intro thread own reading
    have known : own ∈ backend.references :=
      Backend.mem_references.mpr (.inr ((Backend.mem_held reading).mpr (.inl rfl)))
    obtain ⟨number, handle, here⟩ := sound.holds.live own known
    exact ⟨_, here, sound.holds.found known here⟩
  · intro event next number theirs happens opened others stays
    exact sound.keeps happens opened others stays
  · intro closed idle
    apply sound.holds.nothing
    intro own known
    rcases Backend.mem_references.mp known with cached | held
    · rw [closed] at cached
      cases cached
    · obtain ⟨stage, member, refers⟩ := List.mem_filterMap.mp held
      rw [idle stage member] at refers
      cases refers
  · intro permitted
    exact (Backend.ready_of_run permitted reached).missing

/-- Two threads make an object each, and a `close` comes while one of them reads. -/
def race : List Event :=
  [.join, .join, .begin 0 .read, .begin 1 .read, .construct 0 (.registers 3 7),
    .construct 1 (.registers 4 8), .store 0, .store 1, .load 0, .read 0, .load 1, .close, .read 1]

theorem handles_balanced_race : ∃ backend,
    run (Backend.step (directFile "blocks.kvssd")) (Backend.initial fun _ => none) race =
        some backend ∧
      backend.reads = [some (directFile "blocks.kvssd"), some (directFile "blocks.kvssd")] ∧
      backend.resources.drivers = 0 ∧ backend.resources.registered = [] ∧
      backend.resources.opened = [] := by
  obtain ⟨backend, reached, reads, closed, idle⟩ : ∃ backend,
      run (Backend.step (directFile "blocks.kvssd")) (Backend.initial fun _ => none) race =
          some backend ∧
        backend.reads = [some (directFile "blocks.kvssd"), some (directFile "blocks.kvssd")] ∧
        backend.handle = none ∧ ∀ stage ∈ backend.threads, stage = .idle :=
    ⟨_, rfl, rfl, rfl, by decide⟩
  obtain ⟨_, _, _, _, rest, _⟩ := handles_balanced _ _ reached
  exact ⟨backend, reached, reads, rest closed idle⟩

/-- A `close` before the handle is looked up again, and the read raises. -/
example : ∃ backend, run (Backend.step (directFile "blocks.kvssd"))
    (Backend.initial fun _ => none) [.join, .begin 0 .read, .construct 0 (.registers 3 7), .store 0,
      .close, .load 0] = some backend ∧ backend.missing = 1 :=
  ⟨_, rfl, rfl⟩

end Gds

end KVSSD

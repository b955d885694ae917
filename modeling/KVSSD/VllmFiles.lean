import KVSSD.Lib.Python
import KVSSD.Lib.Struct
import Mathlib.Data.List.TakeWhile

/-!
# Record files of the vLLM tier

`record_path` and `store_record_atomic`.  A call of the latter is a sequence of
file operations; between any two of them other workers can act, and any of them can
raise.  The temporary of a call is named after its worker, so calls on different
workers never share one.
-/

namespace KVSSD

open KVSSD.Python KVSSD.Struct

structure FilePath where
  parent : List String
  name : String
  deriving DecidableEq, Repr

/-- The contents of the files that exist. -/
abbrev FileSystem := FilePath → Option Bytes

/-- Create, overwrite or remove one file. -/
def FileSystem.put (files : FileSystem) (path : FilePath) (contents : Option Bytes) :
    FileSystem :=
  fun other => if other = path then contents else files other

@[simp] theorem FileSystem.put_same (files : FileSystem) (path : FilePath)
    (contents : Option Bytes) : files.put path contents path = contents := by
  simp [FileSystem.put]

@[simp] theorem FileSystem.put_other {files : FileSystem} {path other : FilePath}
    (different : other ≠ path) (contents : Option Bytes) :
    files.put path contents other = files other := by
  simp [FileSystem.put, different]

/-- `bytes.hex()`. -/
def hex (bytes : Bytes) : List Char :=
  bytes.flatMap fun byte => [Nat.digitChar (byte.toNat / 16), Nat.digitChar (byte.toNat % 16)]

/-- `int.from_bytes(bytes, "big", signed=False)`. -/
def beNat (bytes : Bytes) : Nat := leNat bytes.reverse

def recordPath (root : List String) (key : Bytes) (space : String) :
    Except PyError FilePath :=
  if key.length < 5 then
    .error (.valueError "vLLM offload key must include a hash and four-byte group index")
  else
    let blockHash := hex (key.take (key.length - 4))
    let group := beNat (key.drop (key.length - 4))
    .ok
      { parent := root ++ [space, String.ofList (blockHash.take 3),
          s!"{String.ofList ((blockHash.drop 3).take 2)}_g{group}"]
        name := s!"{String.ofList blockHash}.kvssd" }

/-- A writing thread: `os.getpid()` and `threading.get_ident()`. -/
structure Worker where
  pid : Nat
  ident : Nat
  deriving DecidableEq, Repr

/-- The temporary `store_record_atomic` writes for a path. -/
def temporary (path : FilePath) (worker : Worker) : FilePath :=
  { parent := path.parent
    name := s!".{path.name}.{worker.pid}.{worker.ident}.tmp" }

theorem digitChar_injective {left right : Nat} (leftSmall : left < 16) (rightSmall : right < 16)
    (same : Nat.digitChar left = Nat.digitChar right) : left = right := by
  have table : ∀ left < 16, ∀ right < 16,
      Nat.digitChar left = Nat.digitChar right → left = right := by decide
  exact table left leftSmall right rightSmall same

theorem digitChar_ne_dot {digit : Nat} (small : digit < 16) : Nat.digitChar digit ≠ '.' := by
  have table : ∀ digit < 16, Nat.digitChar digit ≠ '.' := by decide
  exact table digit small

theorem not_mem_hex {character : Char} (other : ∀ digit < 16, Nat.digitChar digit ≠ character)
    (bytes : Bytes) : character ∉ hex bytes := by
  intro member
  obtain ⟨byte, _, digits⟩ := List.mem_flatMap.mp member
  have small := byte.toNat_lt
  rcases List.mem_pair.mp digits with high | low
  · exact other (byte.toNat / 16) (by omega) high.symm
  · exact other (byte.toNat % 16) (by omega) low.symm

theorem hex_injective {left right : Bytes} (same : hex left = hex right) : left = right := by
  induction left generalizing right with
  | nil =>
      cases right with
      | nil => rfl
      | cons byte right => simp [hex] at same
  | cons byte left induction =>
      cases right with
      | nil => simp [hex] at same
      | cons other right =>
          have byteSmall := byte.toNat_lt
          have otherSmall := other.toNat_lt
          simp only [hex, List.flatMap_cons, List.cons_append, List.nil_append,
            List.cons.injEq] at same
          obtain ⟨high, low, rest⟩ := same
          have highEq := digitChar_injective (by omega) (by omega) high
          have lowEq := digitChar_injective (by omega) (by omega) low
          have bytes : byte = other := UInt8.toNat_inj.mp (by omega)
          rw [bytes, induction rest]

theorem leNat_injective {left right : Bytes} (even : left.length = right.length)
    (same : leNat left = leNat right) : left = right := by
  rw [← leBytes_leNat left, ← leBytes_leNat right, even, same]

theorem beNat_injective {left right : Bytes} (even : left.length = right.length)
    (same : beNat left = beNat right) : left = right :=
  List.reverse_injective (leNat_injective (by simpa using even) same)

theorem toDigits_injective {left right : Nat}
    (same : Nat.toDigits 10 left = Nat.toDigits 10 right) : left = right := by
  rw [← @Nat.ofDigitChars_ten_toDigits left, ← @Nat.ofDigitChars_ten_toDigits right, same]

theorem not_mem_toDigits {character : Char} (other : character.isDigit = false) (number : Nat) :
    character ∉ Nat.toDigits 10 number := by
  intro member
  have digit := Nat.isDigit_of_mem_toDigits (by omega) (by omega) member
  rw [other] at digit
  cases digit

theorem append_separator_injective {separator : Char}
    {front back otherFront otherBack : List Char}
    (backPlain : separator ∉ back) (otherPlain : separator ∉ otherBack)
    (same : front ++ separator :: back = otherFront ++ separator :: otherBack) :
    front = otherFront ∧ back = otherBack := by
  have reversed := congrArg List.reverse same
  simp only [List.reverse_append, List.reverse_cons, List.append_assoc, List.singleton_append]
    at reversed
  have split : ∀ (plain rest : List Char), separator ∉ plain →
      (plain.reverse ++ separator :: rest).takeWhile (· ≠ separator) = plain.reverse := by
    intro plain rest absent
    rw [List.takeWhile_append_of_pos]
    · simp
    · intro character member
      have present := List.mem_reverse.mp member
      simpa using fun equal : character = separator => absent (equal ▸ present)
  have backs : back.reverse = otherBack.reverse := by
    rw [← split back front.reverse backPlain, reversed, split otherBack _ otherPlain]
  have back_eq := List.reverse_injective backs
  rw [back_eq] at reversed
  have fronts := List.append_cancel_left reversed
  exact ⟨List.reverse_injective (List.cons.inj fronts).2, back_eq⟩

theorem temporary_name (path : FilePath) (worker : Worker) :
    (temporary path worker).name.toList =
      '.' :: path.name.toList ++ '.' :: Nat.toDigits 10 worker.pid ++
        '.' :: Nat.toDigits 10 worker.ident ++ '.' :: ['t', 'm', 'p'] := by
  simp [temporary, String.toList_append, ToString.toString]

theorem temporary_injective {path other : FilePath} {worker otherWorker : Worker}
    (same : temporary path worker = temporary other otherWorker) :
    path = other ∧ worker = otherWorker := by
  have names := congrArg (fun file => file.name.toList) same
  simp only [temporary_name] at names
  have parents : path.parent = other.parent := by
    change (temporary path worker).parent = (temporary other otherWorker).parent
    rw [same]
  obtain ⟨front, _⟩ := append_separator_injective (by decide) (by decide) names
  obtain ⟨front, idents⟩ := append_separator_injective (not_mem_toDigits (by decide) _)
    (not_mem_toDigits (by decide) _) front
  obtain ⟨front, pids⟩ := append_separator_injective (not_mem_toDigits (by decide) _)
    (not_mem_toDigits (by decide) _) front
  have pathNames : path.name = other.name := String.toList_inj.mp (List.cons.inj front).2
  constructor
  · cases path
    cases other
    simp only at parents pathNames
    rw [parents, pathNames]
  · cases worker
    cases otherWorker
    simp only at idents pids
    rw [toDigits_injective pids, toDigits_injective idents]

theorem temporary_ne_self (path : FilePath) (worker : Worker) : temporary path worker ≠ path := by
  intro same
  have lengths := congrArg (fun file => file.name.toList.length) same
  simp only [temporary_name, List.length_append, List.length_cons] at lengths
  omega

section RecordPath

variable {root : List String} {key other : Bytes} {space : String} {path : FilePath}

theorem recordPath_eq_ok :
    recordPath root key space = .ok path ↔
      5 ≤ key.length ∧ path =
        { parent := root ++ [space, String.ofList ((hex (key.take (key.length - 4))).take 3),
            s!"{String.ofList (((hex (key.take (key.length - 4))).drop 3).take 2)}_g{beNat (key.drop (key.length - 4))}"]
          name := s!"{String.ofList (hex (key.take (key.length - 4)))}.kvssd" } := by
  unfold recordPath
  constructor
  · intro success
    split at success
    · cases success
    · cases success
      exact ⟨by omega, rfl⟩
  · rintro ⟨enough, rfl⟩
    rw [if_neg (by omega)]

theorem recordPath_name (located : recordPath root key space = .ok path) :
    path.name.toList = hex (key.take (key.length - 4)) ++ ['.', 'k', 'v', 's', 's', 'd'] := by
  obtain ⟨_, rfl⟩ := recordPath_eq_ok.mp located
  simp [String.toList_append, ToString.toString]

theorem recordPath_injective (located : recordPath root key space = .ok path)
    (otherLocated : recordPath root other space = .ok path) : key = other := by
  have names := (recordPath_name located).symm.trans (recordPath_name otherLocated)
  have hashes := hex_injective (List.append_cancel_right names)
  obtain ⟨enough, pathEq⟩ := recordPath_eq_ok.mp located
  obtain ⟨otherEnough, otherEq⟩ := recordPath_eq_ok.mp otherLocated
  have parents := congrArg FilePath.parent (pathEq.symm.trans otherEq)
  have groupTexts := (List.cons.inj (List.cons.inj (List.cons.inj
    (List.append_cancel_left parents)).2).2).1
  have groups : beNat (key.drop (key.length - 4)) = beNat (other.drop (other.length - 4)) := by
    have characters := congrArg String.toList groupTexts
    simp only [hashes, String.toList_append, ToString.toString, List.append_assoc,
      Nat.toList_repr] at characters
    exact toDigits_injective (List.append_cancel_left (List.append_cancel_left characters))
  have tails := beNat_injective (by rw [List.length_drop, List.length_drop]; omega) groups
  rw [← List.take_append_drop (key.length - 4) key,
    ← List.take_append_drop (other.length - 4) other, hashes, tails]

/-- No temporary has the path of a record. -/
theorem temporary_ne_recordPath (located : recordPath root key space = .ok path)
    (target : FilePath) (worker : Worker) : temporary target worker ≠ path := by
  intro same
  obtain ⟨enough, _⟩ := recordPath_eq_ok.mp located
  have names := (temporary_name target worker).symm.trans
    ((congrArg (fun file => file.name.toList) same).trans (recordPath_name located))
  obtain ⟨byte, rest, split⟩ : ∃ byte rest, key.take (key.length - 4) = byte :: rest := by
    apply List.exists_cons_of_ne_nil
    apply List.ne_nil_of_length_pos
    rw [List.length_take]
    omega
  have small := byte.toNat_lt
  rw [split, hex, List.flatMap_cons] at names
  exact digitChar_ne_dot (by omega) (List.cons.inj names).1.symm

end RecordPath

/-- Where a call of `store_record_atomic` stands: before the test whether the path
exists, before the temporary is opened, with so many bytes written, before
`os.replace`, or in the `finally` block. -/
inductive Stage where
  | entered
  | absent
  | writing (written : Nat)
  | written
  | cleanup (raised : Bool)
  deriving DecidableEq, Repr

/-- A call of `store_record_atomic`. -/
structure Publication where
  path : FilePath
  record : Bytes
  stage : Stage
  deriving DecidableEq, Repr

inductive Outcome where
  | going (publication : Publication)
  | returned
  | raised
  deriving DecidableEq, Repr

namespace Publication

variable (publication : Publication)

/-- The same call at another stage. -/
def toStage (stage : Stage) : Outcome := .going { publication with stage := stage }

/-- The next file operation of a call on a worker.  A write takes `size` bytes
more than one, or what is left. -/
def step (worker : Worker) (size : Nat) (files : FileSystem) : FileSystem × Outcome :=
  let target := temporary publication.path worker
  match publication.stage with
  | .entered =>
      if (files publication.path).isSome then (files, .returned)
      else (files, publication.toStage .absent)
  | .absent =>
      -- Opening with mode "xb" raises when the file exists.
      if (files target).isSome then (files, publication.toStage (.cleanup true))
      else (files.put target (some []), publication.toStage (.writing 0))
  | .writing written =>
      let total := min (written + size + 1) publication.record.length
      (files.put target (some (publication.record.take total)),
        publication.toStage (if total = publication.record.length then .written
          else .writing total))
  | .written =>
      match files target with
      | none => (files, publication.toStage (.cleanup true))
      | some contents =>
          ((files.put publication.path (some contents)).put target none,
            publication.toStage (.cleanup false))
  | .cleanup raised => (files.put target none, if raised then .raised else .returned)

/-- An exception at the next operation. -/
def fault : Outcome :=
  match publication.stage with
  | .entered => .raised
  | .absent | .writing _ | .written => publication.toStage (.cleanup true)
  | .cleanup _ => .raised

/-- What holds of the files at each stage. -/
def Sound (worker : Worker) (files : FileSystem) : Prop :=
  match publication.stage with
  | .entered | .absent | .cleanup true => True
  | .writing written =>
      files (temporary publication.path worker) = some (publication.record.take written)
  | .written => files (temporary publication.path worker) = some publication.record
  | .cleanup false => (files publication.path).isSome

/-- What one operation does: it touches the temporary and the path only, and when it
changes the path then to the whole record. -/
structure Advances (worker : Worker) (files next : FileSystem) (outcome : Outcome) : Prop where
  frame : ∀ other, other ≠ temporary publication.path worker → other ≠ publication.path →
    next other = files other
  path : next publication.path = files publication.path ∨
    next publication.path = some publication.record
  going : ∀ after, outcome = .going after → after.path = publication.path ∧
    after.record = publication.record ∧ after.Sound worker next
  returned : outcome = .returned → (next publication.path).isSome

variable {publication}

theorem sound_toStage {worker : Worker} {files : FileSystem} {after : Publication} {stage : Stage}
    (moved : publication.toStage stage = .going after)
    (sound : ({ publication with stage := stage } : Publication).Sound worker files) :
    after.path = publication.path ∧ after.record = publication.record ∧
      after.Sound worker files := by
  cases moved
  exact ⟨rfl, rfl, sound⟩

theorem advances_fault {worker : Worker} {files : FileSystem} :
    publication.Advances worker files files publication.fault := by
  refine ⟨fun _ _ _ => rfl, .inl rfl, ?_, ?_⟩
  · intro after moved
    unfold fault at moved
    cases stage : publication.stage with
    | entered => simp [stage] at moved
    | absent =>
        rw [stage] at moved
        exact sound_toStage moved trivial
    | writing written =>
        rw [stage] at moved
        exact sound_toStage moved trivial
    | written =>
        rw [stage] at moved
        exact sound_toStage moved trivial
    | cleanup raised => simp [stage] at moved
  · intro returned
    unfold fault at returned
    cases stage : publication.stage <;> simp [stage, toStage] at returned

theorem advances_step {worker : Worker} {files next : FileSystem} {size : Nat}
    {outcome : Outcome} (sound : publication.Sound worker files)
    (happens : publication.step worker size files = (next, outcome)) :
    publication.Advances worker files next outcome := by
  have apart := temporary_ne_self publication.path worker
  unfold step at happens
  unfold Sound at sound
  cases stage : publication.stage with
  | entered =>
      rw [stage] at happens
      simp only at happens
      split at happens
      · rename_i present
        cases happens
        refine ⟨fun _ _ _ => rfl, .inl rfl, ?_, fun _ => present⟩
        intro after moved
        cases moved
      · cases happens
        refine ⟨fun _ _ _ => rfl, .inl rfl, ?_, fun other => nomatch other⟩
        intro after moved
        exact sound_toStage moved trivial
  | absent =>
      rw [stage] at happens
      simp only at happens
      split at happens
      · cases happens
        refine ⟨fun _ _ _ => rfl, .inl rfl, ?_, fun other => nomatch other⟩
        intro after moved
        exact sound_toStage moved trivial
      · cases happens
        refine ⟨?_, .inl ?_, ?_, fun other => nomatch other⟩
        · intro other different _
          exact FileSystem.put_other different _
        · exact FileSystem.put_other apart.symm _
        · intro after moved
          apply sound_toStage moved
          simp [Sound]
  | writing written =>
      rw [stage] at happens
      cases happens
      refine ⟨?_, .inl ?_, ?_, fun other => nomatch other⟩
      · intro other different _
        exact FileSystem.put_other different _
      · exact FileSystem.put_other apart.symm _
      · intro after moved
        apply sound_toStage moved
        split
        · rename_i whole
          simp [Sound, whole]
        · simp [Sound]
  | written =>
      rw [stage] at happens sound
      simp only at happens sound
      rw [sound] at happens
      cases happens
      have published : ((files.put publication.path (some publication.record)).put
          (temporary publication.path worker) none) publication.path =
            some publication.record := by
        rw [FileSystem.put_other apart.symm, FileSystem.put_same]
      refine ⟨?_, .inr published, ?_, fun other => nomatch other⟩
      · intro other different elsewhere
        rw [FileSystem.put_other different, FileSystem.put_other elsewhere]
      · intro after moved
        apply sound_toStage moved
        simp only [Sound]
        rw [published]
        rfl
  | cleanup raised =>
      rw [stage] at happens sound
      cases happens
      have kept : (files.put (temporary publication.path worker) none) publication.path =
          files publication.path := FileSystem.put_other apart.symm _
      refine ⟨?_, .inl kept, ?_, ?_⟩
      · intro other different _
        exact FileSystem.put_other different _
      · intro after moved
        cases raised <;> cases moved
      · intro returned
        cases raised with
        | true => cases returned
        | false =>
            rw [kept]
            exact sound

theorem Advances.isSome {worker : Worker} {files next : FileSystem} {outcome : Outcome}
    (advances : publication.Advances worker files next outcome) {other : FilePath}
    (different : other ≠ temporary publication.path worker) (present : (files other).isSome) :
    (next other).isSome := by
  by_cases same : other = publication.path
  · subst same
    rcases advances.path with kept | stored
    · rwa [kept]
    · rw [stored]
      rfl
  · rwa [advances.frame other different same]

/-- What holds of the files for one call survives what other workers do. -/
theorem Sound.congr {worker : Worker} {files next : FileSystem}
    (sound : publication.Sound worker files)
    (own : next (temporary publication.path worker) = files (temporary publication.path worker))
    (stays : (files publication.path).isSome → (next publication.path).isSome) :
    publication.Sound worker next := by
  unfold Sound at sound ⊢
  cases stage : publication.stage with
  | entered => trivial
  | absent => trivial
  | writing written =>
      rw [stage] at sound
      exact own.trans sound
  | written =>
      rw [stage] at sound
      exact own.trans sound
  | cleanup raised =>
      rw [stage] at sound
      cases raised with
      | true => trivial
      | false => exact stays sound

end Publication

end KVSSD

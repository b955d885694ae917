import Mathlib.Data.List.Basic

/-!
# Python values and slices

Exceptions, floor division, slicing and dictionaries as Python defines them.  Nothing here
names a particular program: the modules that translate Python code use these
definitions for the parts of the language the code relies on.
-/

namespace KVSSD.Python

/-- The exception classes a translated function can raise, with the text the
program gives them.  Texts produced by the runtime itself are not kept. -/
inductive PyError where
  | valueError (message : String)
  | typeError (message : String)
  | keyError (message : String)
  | indexError
  | runtimeError (message : String)
  | osError (message : String)
  | eofError (message : String)
  | structError
  | zeroDivisionError
  | overflowError
  deriving DecidableEq, Repr

@[simp] theorem ok_bind {α β : Type} (value : α)
    (next : α → Except PyError β) : (Except.ok value >>= next) = next value :=
  rfl

@[simp] theorem error_bind {α β : Type} (raised : PyError)
    (next : α → Except PyError β) :
    (Except.error raised >>= next) = Except.error raised :=
  rfl

theorem bind_eq_ok {α β : Type} {first : Except PyError α}
    {next : α → Except PyError β} {result : β} :
    (first >>= next) = .ok result ↔
      ∃ value, first = .ok value ∧ next value = .ok result := by
  cases first with
  | error raised => simp
  | ok value => simp

theorem exists_mapM {α β : Type} {items : List α} {f : α → Except PyError β}
    {holds : α → β → Prop} (each : ∀ item ∈ items, ∃ result, f item = .ok result ∧
      holds item result) :
    ∃ results, items.mapM f = .ok results ∧ List.Forall₂ holds items results := by
  induction items with
  | nil => exact ⟨[], rfl, .nil⟩
  | cons item items induction =>
      obtain ⟨result, success, good⟩ := each item (by simp)
      obtain ⟨results, rest, all⟩ := induction fun other member => each other (by simp [member])
      exact ⟨result :: results, by rw [List.mapM_cons, success, ok_bind, rest]; rfl,
        .cons good all⟩

theorem mapM_of_map_ok {α β : Type} {items : List α} {f : α → Except PyError β}
    {results : List β} (each : items.map f = results.map Except.ok) :
    items.mapM f = .ok results := by
  induction items generalizing results with
  | nil =>
      obtain rfl := List.map_eq_nil_iff.mp each.symm
      rfl
  | cons item items induction =>
      cases results with
      | nil => cases each
      | cons result results =>
          obtain ⟨first, rest⟩ := List.cons.inj each
          rw [List.mapM_cons, first, ok_bind, induction rest]
          rfl

theorem passes_of_check {α : Type} {refused : Prop} [Decidable refused] {raised : PyError}
    {rest : Except PyError α} {result : α}
    (passes : (if refused then .error raised else rest) = .ok result) :
    ¬ refused ∧ rest = .ok result := by
  by_cases holds : refused
  · rw [if_pos holds] at passes
    cases passes
  · rw [if_neg holds] at passes
    exact ⟨holds, passes⟩

/-- `dividend % divisor` with Python's check for a zero divisor. -/
def pyMod (dividend divisor : Int) : Except PyError Int :=
  if divisor = 0 then .error .zeroDivisionError
  else .ok (dividend.fmod divisor)

theorem pyMod_of_dvd {dividend divisor : Nat} (positive : 0 < divisor)
    (divides : divisor ∣ dividend) : pyMod dividend divisor = .ok 0 := by
  unfold pyMod
  rw [if_neg (by omega), Int.fmod_eq_emod_of_nonneg _ (by omega)]
  congr 1
  exact_mod_cast Nat.mod_eq_zero_of_dvd divides

theorem pyMod_eq_ok {dividend divisor result : Int}
    (returned : pyMod dividend divisor = .ok result) :
    divisor ≠ 0 ∧ result = dividend.fmod divisor := by
  unfold pyMod at returned
  by_cases zero : divisor = 0
  · rw [if_pos zero] at returned
    cases returned
  · rw [if_neg zero] at returned
    exact ⟨zero, (Except.ok.inj returned).symm⟩

/-- The position an index of a slice denotes: negative indices count from the
end, and both ends are clamped to the sequence. -/
def sliceBound (length : Nat) (index : Int) : Nat :=
  if index < 0 then (index + length).toNat else min index.toNat length

/-- `items[start:stop]`. -/
def pySlice {α : Type} (items : List α) (start stop : Int) : List α :=
  (items.drop (sliceBound items.length start)).take
    (sliceBound items.length stop - sliceBound items.length start)

/-- `list(range(0, stop, step))` for a positive step. -/
def pyRange (stop step : Nat) : List Nat :=
  (List.range ((stop + step - 1) / step)).map (· * step)

/-- `character.isspace()`. -/
def pyIsSpace (character : Char) : Bool :=
  let point := character.toNat
  (9 ≤ point && point ≤ 13) || (28 ≤ point && point ≤ 32) || point == 133 ||
    point == 160 || point == 5760 || (8192 ≤ point && point ≤ 8202) ||
    point == 8232 || point == 8233 || point == 8239 || point == 8287 || point == 12288

/-- `text.strip().lower()`; letters outside ASCII are kept. -/
def pyStripLower (text : String) : String :=
  String.ofList ((((text.toList.dropWhile pyIsSpace).reverse.dropWhile pyIsSpace).reverse).map
    Char.toLower)

theorem sliceBound_le (length : Nat) (index : Int) :
    sliceBound length index ≤ length := by
  unfold sliceBound
  split <;> omega

@[simp] theorem sliceBound_natCast (length index : Nat) :
    sliceBound length (index : Int) = min index length := by
  have nonnegative : ¬ (index : Int) < 0 := by omega
  simp [sliceBound, nonnegative]

theorem pySlice_natCast {α : Type} (items : List α) (start stop : Nat) :
    pySlice items start stop = (items.drop start).take (stop - start) := by
  simp only [pySlice, sliceBound_natCast]
  by_cases inside : start ≤ items.length
  · rw [Nat.min_eq_left inside]
    by_cases before : stop ≤ items.length
    · rw [Nat.min_eq_left before]
    · have clipped : min stop items.length = items.length := by omega
      rw [clipped, List.take_of_length_le (by simp),
        List.take_of_length_le (by simp; omega)]
  · have outside : items.length ≤ start := by omega
    rw [Nat.min_eq_right outside, List.drop_eq_nil_of_le outside,
      List.drop_length]
    simp

theorem pySlice_count {α : Type} (items : List α) (start count : Nat) :
    pySlice items start ((start : Int) + (count : Int)) =
      (items.drop start).take count := by
  have cast : ((start : Int) + (count : Int)) = ((start + count : Nat) : Int) := by
    push_cast
    rfl
  rw [cast, pySlice_natCast]
  congr 1
  omega

theorem pySlice_zero {α : Type} (items : List α) (stop : Nat) :
    pySlice items 0 (stop : Int) = items.take stop := by
  have natural := pySlice_natCast items 0 stop
  simpa using natural

theorem pySlice_last {α : Type} (items : List α) {count : Nat} (positive : 0 < count) :
    pySlice items (-(count : Int)) items.length = items.drop (items.length - count) := by
  have start : sliceBound items.length (-(count : Int)) = items.length - count := by
    unfold sliceBound
    rw [if_pos (by omega)]
    omega
  unfold pySlice
  rw [start, sliceBound_natCast, Nat.min_self]
  apply List.take_of_length_le
  exact Nat.le_of_eq List.length_drop

section Keys

variable {α : Type} [DecidableEq α]

/-- Setting a key of a dictionary: a new key goes behind the others, a known one stays. -/
def insertKey (kept : List α) (key : α) : List α :=
  if key ∈ kept then kept else kept ++ [key]

/-- `list(dict.fromkeys(keys))`. -/
def pyFromKeys (keys : List α) : List α := keys.foldl insertKey []

theorem foldl_insertKey_of_mem {kept keys : List α} (known : ∀ key ∈ keys, key ∈ kept) :
    keys.foldl insertKey kept = kept := by
  induction keys with
  | nil => rfl
  | cons key keys induction =>
      rw [List.foldl_cons, insertKey, if_pos (known key List.mem_cons_self)]
      exact induction fun other member => known other (List.mem_cons_of_mem _ member)

theorem foldl_insertKey_of_nodup {kept keys : List α} (distinct : (kept ++ keys).Nodup) :
    keys.foldl insertKey kept = kept ++ keys := by
  induction keys generalizing kept with
  | nil => rw [List.foldl_nil, List.append_nil]
  | cons key keys induction =>
      have new : key ∉ kept := by
        intro old
        exact (List.nodup_append.mp distinct).2.2 key old key List.mem_cons_self rfl
      rw [List.append_cons] at distinct
      rw [List.foldl_cons, insertKey, if_neg new, induction distinct, ← List.append_cons]

theorem mem_of_foldl_insertKey {kept keys : List α} {key : α}
    (member : key ∈ keys.foldl insertKey kept) : key ∈ kept ∨ key ∈ keys := by
  induction keys generalizing kept with
  | nil => exact .inl member
  | cons first keys induction =>
      rcases induction member with before | later
      · rw [insertKey] at before
        split at before
        · exact .inl before
        · rcases List.mem_append.mp before with before | here
          · exact .inl before
          · exact .inr (List.mem_singleton.mp here ▸ List.mem_cons_self)
      · exact .inr (List.mem_cons_of_mem _ later)

theorem mem_of_pyFromKeys {keys : List α} {key : α} (member : key ∈ pyFromKeys keys) :
    key ∈ keys := by
  rcases mem_of_foldl_insertKey member with before | here
  · cases before
  · exact here

/-- The keys of a front part and a back part that may overlap. -/
theorem pyFromKeys_take_append_drop {items : List α} (distinct : items.Nodup)
    (front back : Nat) :
    pyFromKeys (items.take front ++ items.drop back) =
      items.take front ++ items.drop (max front back) := by
  have kept : (items.take front).foldl insertKey [] = items.take front :=
    foldl_insertKey_of_nodup (distinct.sublist (List.take_sublist _ _))
  rw [pyFromKeys, List.foldl_append, kept]
  rcases Nat.le_total front back with apart | overlap
  · rw [Nat.max_eq_right apart]
    apply foldl_insertKey_of_nodup
    have parts : (items.take front ++ items.drop back).Sublist items := by
      calc
        (items.take front ++ items.drop back).Sublist (items.take back ++ items.drop back) :=
          (List.take_sublist_take_left apart).append_right _
        _ = items := List.take_append_drop back items
    exact distinct.sublist parts
  · have split : items.drop back = (items.take front).drop back ++ items.drop front := by
      calc
        items.drop back = (items.drop back).take (front - back) ++
            (items.drop back).drop (front - back) := (List.take_append_drop _ _).symm
        _ = (items.take front).drop back ++ items.drop front := by
          rw [← List.drop_take, List.drop_drop, Nat.add_sub_cancel' overlap]
    have known : ((items.take front).drop back).foldl insertKey (items.take front) =
        items.take front :=
      foldl_insertKey_of_mem fun _ member => List.mem_of_mem_drop member
    rw [Nat.max_eq_left overlap, split, List.foldl_append, known]
    apply foldl_insertKey_of_nodup
    rw [List.take_append_drop]
    exact distinct

end Keys

end KVSSD.Python

import Mathlib.Data.List.Basic

/-!
# Loops whose rounds may fail

A loop over a list with a state, in `Option`.  The invariant of a loop speaks about
the rounds done so far; a loop that returns has done every one of its rounds.
-/

namespace KVSSD.Loops

variable {σ α β ι κ : Type}

/-- When every round succeeds and keeps the invariant, so does the loop. -/
theorem foldlM_invariant {f : σ → α → Option σ} {holds : List α → σ → Prop}
    {items : List α} {start : σ} (initial : holds [] start)
    (step : ∀ done item rest state, items = done ++ item :: rest → holds done state →
      ∃ next, f state item = some next ∧ holds (done ++ [item]) next) :
    ∃ final, items.foldlM f start = some final ∧ holds items final := by
  suffices every : ∀ rest done state, items = done ++ rest → holds done state →
      ∃ final, rest.foldlM f state = some final ∧ holds (done ++ rest) final by
    simpa using every items [] start rfl initial
  intro rest
  induction rest with
  | nil =>
      intro done state _ kept
      exact ⟨state, rfl, by simpa using kept⟩
  | cons item rest induction =>
      intro done state split kept
      obtain ⟨next, success, keptNext⟩ := step done item rest state split kept
      obtain ⟨final, run, keptFinal⟩ := induction (done ++ [item]) next
        (by simpa using split) keptNext
      refine ⟨final, ?_, by simpa using keptFinal⟩
      rw [List.foldlM_cons, success]
      exact run

theorem exists_of_foldlM {f : σ → α → Option σ} {items : List α} {start final : σ}
    (run : items.foldlM f start = some final) {item : α} (member : item ∈ items) :
    ∃ state next, f state item = some next := by
  induction items generalizing start with
  | nil => cases member
  | cons first rest induction =>
      rw [List.foldlM_cons] at run
      obtain ⟨next, success, remaining⟩ := Option.bind_eq_some_iff.mp run
      rcases List.mem_cons.mp member with rfl | later
      · exact ⟨start, next, success⟩
      · exact induction remaining later

theorem foldlM_flatMap {f : σ → ι × κ → Option σ} {outer : List ι} {inner : ι → List κ}
    {g : σ → ι → Option σ} (each : ∀ state, ∀ item ∈ outer,
      g state item = (inner item).foldlM (fun state other => f state (item, other)) state)
    (start : σ) :
    outer.foldlM g start =
      (outer.flatMap fun item => (inner item).map fun other => (item, other)).foldlM f start := by
  induction outer generalizing start with
  | nil => rfl
  | cons item outer induction =>
      rw [List.foldlM_cons, List.flatMap_cons, List.foldlM_append, List.foldlM_map,
        each start item (by simp)]
      congr 1
      funext state
      exact induction (fun state other member => each state other (by simp [member])) state

theorem mapM_eq_some {f : α → Option β} {image : α → β} {items : List α}
    (each : ∀ item ∈ items, f item = some (image item)) :
    items.mapM f = some (items.map image) := by
  induction items with
  | nil => rfl
  | cons item items induction =>
      rw [List.mapM_cons, each item (by simp),
        induction fun other member => each other (by simp [member])]
      rfl

theorem exists_of_mapM {f : α → Option β} {items : List α} {results : List β}
    (run : items.mapM f = some results) {item : α} (member : item ∈ items) :
    ∃ result, f item = some result := by
  induction items generalizing results with
  | nil => cases member
  | cons first rest induction =>
      rw [List.mapM_cons] at run
      obtain ⟨result, success, remaining⟩ := Option.bind_eq_some_iff.mp run
      obtain ⟨others, run, _⟩ := Option.bind_eq_some_iff.mp remaining
      rcases List.mem_cons.mp member with rfl | later
      · exact ⟨result, success⟩
      · exact induction run later

theorem getElem?_of_mapM {f : α → Option β} {items : List α} {results : List β}
    (run : items.mapM f = some results) :
    results.length = items.length ∧
      ∀ {index : Nat} {item : α}, items[index]? = some item → results[index]? = f item := by
  induction items generalizing results with
  | nil =>
      cases run
      exact ⟨rfl, fun present => by simp at present⟩
  | cons first rest induction =>
      rw [List.mapM_cons] at run
      obtain ⟨result, success, remaining⟩ := Option.bind_eq_some_iff.mp run
      obtain ⟨others, behind, same⟩ := Option.bind_eq_some_iff.mp remaining
      cases same
      obtain ⟨length, rounds⟩ := induction behind
      refine ⟨by rw [List.length_cons, List.length_cons, length], ?_⟩
      intro index item present
      cases index with
      | zero =>
          cases present
          exact success.symm
      | succ index => exact rounds present

end KVSSD.Loops

import KVSSD.VllmJobs

/-!
# Cached lookups

What an event does to the lookups in the pool and to the cached ones.  A cached lookup
is about the record of its key, and has seen it if it has answered yes.
-/

namespace KVSSD

open KVSSD.Python KVSSD.Struct KVSSD.Transition

/-- A cached lookup of a key has seen a record. -/
def Tier.Saw (tier : Tier) (key : Bytes) : Prop :=
  ∃ entry ∈ tier.manager.lookupFutures, entry.key = key ∧ tier.looked entry.future = some true

/-- What an event does to the cached lookups, the lookups of the pool and the answers. -/
inductive Tier.Looks (config : TierConfig) (tier next : Tier) : Event → Prop where
  | keeps {event : Event}
      (entries : ∀ entry ∈ next.manager.lookupFutures, entry ∈ tier.manager.lookupFutures)
      (probes : next.probes = tier.probes)
      (hits : ∀ answer ∈ next.answers, answer.result = .hit →
        answer ∈ tier.answers ∨ tier.Saw answer.key) : Looks config tier next event
  /-- A new lookup goes to the pool. -/
  | asks {key : Bytes} {request : String} {path : FilePath}
      (located : config.path key = .ok path)
      (entries : next.manager.lookupFutures =
        tier.manager.lookupFutures ++ [⟨request, key, tier.probes.length⟩])
      (probes : next.probes = tier.probes ++ [⟨path, .queued⟩])
      (answers : next.answers = tier.answers ++ [⟨key, request, .retry⟩]) :
      Looks config tier next (.lookup key request)
  /-- The pool goes on with a lookup. -/
  | probes {event : Event} {future : Nat} {probe after : Probe}
      (present : tier.probes[future]? = some probe) (path : after.path = probe.path)
      (sees : after.seen = probe.seen ∨ after.seen = some (tier.data.files probe.path).isSome)
      (entries : next.manager.lookupFutures = tier.manager.lookupFutures)
      (probes : next.probes = tier.probes.set future after)
      (answers : next.answers = tier.answers) : Looks config tier next event

section Step

variable {F : Type} [arith : QuantArith F] [formats : DtypeArith F] {crc32 : Bytes → UInt32}
  {config : TierConfig} {tier next : Tier}

theorem Tier.looked_of_answered {future : Nat} {found : Bool}
    (answered : tier.answered future = some found) : tier.looked future = some found := by
  obtain ⟨⟨path, look⟩, present, answer⟩ := Option.bind_eq_some_iff.mp answered
  cases look with
  | queued => cases answer
  | looked seen => cases answer
  | done seen =>
      rw [Tier.looked, present]
      exact answer

theorem Tier.Looks.of_same {event : Event}
    (entries : next.manager.lookupFutures = tier.manager.lookupFutures)
    (probes : next.probes = tier.probes) (answers : next.answers = tier.answers) :
    tier.Looks config next event := by
  apply Tier.Looks.keeps _ probes
  · rw [answers]
    exact fun _ member _ => .inl member
  · rw [entries]
    exact fun _ member => member

theorem Manager.lookup_cases (manager : Manager) (answers : Nat → Option Bool) (future : Nat)
    (key : Bytes) (request : String) :
    manager.lookup answers future key request = (manager, .retry, false) ∨
    manager.lookup answers future key request =
      ({ manager with lookupFutures := manager.lookupFutures ++ [⟨request, key, future⟩] },
        .retry, true) ∨
    ∃ entry found, entry ∈ manager.lookupFutures ∧ entry.request = request ∧ entry.key = key ∧
      answers entry.future = some found ∧
      manager.lookup answers future key request =
        ({ manager with lookupFutures := manager.lookupFutures.erase entry },
          if found then .hit else .miss, false) := by
  unfold Manager.lookup
  split
  · exact .inl rfl
  · cases cached : manager.cached key request with
    | none => exact .inr (.inl rfl)
    | some entry =>
        have inside := List.mem_of_find?_eq_some cached
        have own := List.find?_some cached
        obtain ⟨sameRequest, sameKey⟩ := of_decide_eq_true own
        cases answer : answers entry.future with
        | none =>
            left
            simp only [answer]
        | some found =>
            refine .inr (.inr ⟨entry, found, inside, sameRequest, sameKey, answer, ?_⟩)
            simp only [answer]

theorem Tier.lookup_looks (key : Bytes) (request : String) :
    tier.Looks config (tier.lookup config key request) (.lookup key request) := by
  unfold Tier.lookup
  rcases tier.manager.lookup_cases tier.answered tier.probes.length key request with
    retries | asks | ⟨entry, found, inside, sameRequest, sameKey, answer, takes⟩
  · rw [retries]
    refine .keeps (fun _ member => member) rfl ?_
    intro given member hit
    rcases List.mem_append.mp member with old | new
    · exact .inl old
    · rw [List.mem_singleton.mp new] at hit
      cases hit
  · rw [asks]
    cases located : config.path key with
    | error error => exact .of_same rfl rfl rfl
    | ok path => exact .asks located rfl rfl rfl
  · rw [takes]
    refine .keeps (fun _ member => List.mem_of_mem_erase member) rfl ?_
    intro given member hit
    rcases List.mem_append.mp member with old | new
    · exact .inl old
    · rw [List.mem_singleton.mp new] at hit ⊢
      cases found with
      | true => exact .inr ⟨entry, inside, sameKey, Tier.looked_of_answered answer⟩
      | false => cases hit

theorem Tier.step_looks {event : Event} (happens : tier.step F crc32 config event = some next) :
    tier.Looks config next event := by
  cases Tier.step_steps happens with
  | submit | start | work | fault | getFinished | returns | drops => exact .of_same rfl rfl rfl
  | lookup free => exact Tier.lookup_looks _ _
  | probe present =>
      refine .probes present ?_ ?_ rfl rfl rfl
      · rfl
      · exact .inr rfl
  | answer present =>
      refine .probes present ?_ ?_ rfl rfl rfl
      · rfl
      · exact .inl rfl
  | requestFinished free =>
      refine .keeps ?_ rfl fun _ member _ => .inl member
      exact fun entry member => List.mem_of_mem_filter member
  | @reapOne drain entry pending finished before =>
      cases outcome : tier.outcome entry.future with
      | none => exact .of_same rfl rfl rfl
      | some success => exact .of_same rfl rfl rfl
  | drain | leaves | waits | wakes | reaps => exact .of_same rfl rfl rfl
  | clears stage free =>
      refine .keeps ?_ rfl fun _ member _ => .inl member
      intro entry member
      cases member
  | foreign | modify => exact .of_same rfl rfl rfl

/-- A call of `lookup` that hits or misses takes a cached lookup with that answer. -/
theorem Tier.lookup_answer {key : Bytes} {request : String} (found : Bool)
    (happens : tier.step F crc32 config (.lookup key request) = some next)
    (answered : next.answers = tier.answers ++ [⟨key, request, if found then .hit else .miss⟩]) :
    ∃ entry ∈ tier.manager.lookupFutures, entry.request = request ∧ entry.key = key ∧
      tier.answered entry.future = some found := by
  cases Tier.step_steps happens with
  | lookup free =>
      unfold Tier.lookup at answered
      rcases tier.manager.lookup_cases tier.answered tier.probes.length key request with
        retries | asks | ⟨entry, other, inside, sameRequest, sameKey, answer, takes⟩
      · rw [retries] at answered
        cases found with
        | true => simp at answered
        | false => simp at answered
      · rw [asks] at answered
        cases located : config.path key with
        | error error => simp [located] at answered
        | ok path =>
            cases found with
            | true => simp [located] at answered
            | false => simp [located] at answered
      · rw [takes] at answered
        refine ⟨entry, inside, sameRequest, sameKey, ?_⟩
        rw [answer]
        cases other with
        | true =>
            cases found with
            | true => rfl
            | false => simp at answered
        | false =>
            cases found with
            | true => simp at answered
            | false => rfl

/-- Every cached lookup is about the record of its key, and when one has seen it, or
a call of `lookup` has answered a hit, the record exists. -/
structure Tier.Asked (config : TierConfig) (tier : Tier) : Prop where
  probes : ∀ entry ∈ tier.manager.lookupFutures, ∃ probe,
    tier.probes[entry.future]? = some probe ∧ config.path entry.key = .ok probe.path
  seen : ∀ entry ∈ tier.manager.lookupFutures, tier.looked entry.future = some true →
    ∃ path, config.path entry.key = .ok path ∧ (tier.data.files path).isSome
  hits : ∀ answer ∈ tier.answers, answer.result = .hit →
    ∃ path, config.path answer.key = .ok path ∧ (tier.data.files path).isSome

theorem Tier.asked_initial (data : TierData) : (Tier.initial data).Asked config where
  probes := by simp [Tier.initial]
  seen := by simp [Tier.initial]
  hits := by simp [Tier.initial]

theorem Tier.Looks.hits {event : Event} (looks : tier.Looks config next event) :
    ∀ answer ∈ next.answers, answer.result = .hit →
      answer ∈ tier.answers ∨ tier.Saw answer.key := by
  cases looks with
  | keeps entries probes hits => exact hits
  | asks located entries probes answers =>
      intro answer member hit
      rw [answers] at member
      rcases List.mem_append.mp member with old | new
      · exact .inl old
      · rw [List.mem_singleton.mp new] at hit
        cases hit
  | probes present path sees entries probes answers =>
      intro answer member _
      rw [answers] at member
      exact .inl member

/-- What a cached lookup has seen after an event: nothing for a new one, and otherwise as
before or what the files say. -/
theorem Tier.Asked.answer {event : Event} (asked : tier.Asked config)
    (looks : tier.Looks config next event) {entry : LookupEntry}
    (member : entry ∈ next.manager.lookupFutures) :
    ∃ probe, next.probes[entry.future]? = some probe ∧ config.path entry.key = .ok probe.path ∧
      (probe.seen = none ∨ (entry ∈ tier.manager.lookupFutures ∧
        (tier.looked entry.future = probe.seen ∨
          probe.seen = some (tier.data.files probe.path).isSome))) := by
  cases looks with
  | keeps entries probes =>
      obtain ⟨probe, present, located⟩ := asked.probes entry (entries entry member)
      rw [probes]
      refine ⟨probe, present, located, .inr ⟨entries entry member, .inl ?_⟩⟩
      simp [Tier.looked, present]
  | @asks key request path located entries probes =>
      rw [entries] at member
      rw [probes]
      rcases List.mem_append.mp member with old | new
      · obtain ⟨probe, present, own⟩ := asked.probes entry old
        refine ⟨probe, ?_, own, .inr ⟨old, .inl ?_⟩⟩
        · exact Transition.party_append present _
        · simp [Tier.looked, present]
      · rw [List.mem_singleton.mp new]
        exact ⟨⟨path, .queued⟩, by simp, located, .inl rfl⟩
  | @probes _ future before after here path sees entries probes =>
      rw [entries] at member
      obtain ⟨probe, present, own⟩ := asked.probes entry member
      rw [probes]
      by_cases same : future = entry.future
      · rw [same, present] at here
        cases here
        refine ⟨after, same ▸ Transition.party_set present _, path ▸ own, .inr ⟨member, ?_⟩⟩
        rcases sees with kept | new
        · left
          simp [Tier.looked, present, kept]
        · exact .inr (path ▸ new)
      · refine ⟨probe, ?_, own, .inr ⟨member, .inl ?_⟩⟩
        · exact Transition.party_set_other (Ne.symm same) present _
        · simp [Tier.looked, present]

/-- The step lemma. -/
theorem Tier.Asked.step {event : Event} (asked : tier.Asked config)
    (looks : tier.Looks config next event) (grows : tier.data.Grows config next.data) :
    next.Asked config := by
  constructor
  · intro entry member
    obtain ⟨probe, present, located, _⟩ := asked.answer looks member
    exact ⟨probe, present, located⟩
  · intro entry member yes
    obtain ⟨probe, present, located, answer⟩ := asked.answer looks member
    have now : probe.seen = some true := by simpa [Tier.looked, present] using yes
    rcases answer with none_ | ⟨old, before | sees⟩
    · rw [now] at none_
      cases none_
    · obtain ⟨path, same, exists_⟩ := asked.seen entry old (before.trans now)
      exact ⟨path, same, grows.records _ path same exists_⟩
    · rw [now] at sees
      exact ⟨probe.path, located, grows.records _ _ located (Option.some.inj sees).symm⟩
  · intro answer member hit
    have present : ∃ path, config.path answer.key = .ok path ∧ (tier.data.files path).isSome := by
      rcases looks.hits answer member hit with old | ⟨entry, inside, same, yes⟩
      · exact asked.hits answer old hit
      · rw [← same]
        exact asked.seen entry inside yes
    obtain ⟨path, located, exists_⟩ := present
    exact ⟨path, located, grows.records _ path located exists_⟩

end Step

end KVSSD

import KVSSD.AlignedReads

/-!
# Block selectors

The selectors of `selectors.py` and the blocks of a layer they choose from.  `RecentSinkBlocks`
joins two slices that may overlap; on blocks in increasing order it keeps those at the first and at
the last positions, each once.
-/

namespace KVSSD

open KVSSD.Python KVSSD.Struct

structure AllBlocks where
  deriving DecidableEq, Repr

namespace AllBlocks

def select (_ : AllBlocks) (available : List Int) : List Int := available

end AllBlocks

/-- Initial sink blocks and the most recent blocks. -/
structure RecentSinkBlocks where
  sink : Int := 1
  recent : Int := 8
  deriving DecidableEq, Repr

namespace RecentSinkBlocks

def select (selector : RecentSinkBlocks) (available : List Int) : Except PyError (List Int) :=
  if selector.sink < 0 ∨ selector.recent < 0 then
    .error (.valueError "sink and recent counts must be non-negative")
  else
    let chosen := pySlice available 0 selector.sink ++
      if selector.recent = 0 then [] else pySlice available (-selector.recent) available.length
    .ok (pyFromKeys chosen)

end RecentSinkBlocks

section Positions

variable {α : Type}

theorem zipIdx_filter_all {items : List α} {start : Nat} {keeps : Nat → Bool}
    (kept : ∀ position, start ≤ position → position < start + items.length →
      keeps position = true) :
    ((items.zipIdx start).filter fun item => keeps item.2).map Prod.fst = items := by
  have whole : (items.zipIdx start).filter (fun item => keeps item.2) = items.zipIdx start := by
    apply List.filter_eq_self.mpr
    intro item member
    exact kept item.2 (List.le_snd_of_mem_zipIdx member) (List.snd_lt_add_of_mem_zipIdx member)
  rw [whole, List.zipIdx_map_fst]

theorem zipIdx_filter_none {items : List α} {start : Nat} {keeps : Nat → Bool}
    (dropped : ∀ position, start ≤ position → position < start + items.length →
      keeps position = false) :
    (items.zipIdx start).filter (fun item => keeps item.2) = [] := by
  apply List.filter_eq_nil_iff.mpr
  intro item member
  rw [dropped item.2 (List.le_snd_of_mem_zipIdx member) (List.snd_lt_add_of_mem_zipIdx member)]
  exact Bool.false_ne_true

/-- The items before one position and from another one on, by their positions. -/
theorem take_append_drop_eq_positions {items : List α} {front back : Nat} (ordered : front ≤ back) :
    items.take front ++ items.drop back =
      (items.zipIdx.filter fun item => decide (item.2 < front ∨ back ≤ item.2)).map Prod.fst := by
  have split : items.take front ++ ((items.drop front).take (back - front) ++ items.drop back) =
      items := by
    have rest : (items.drop front).drop (back - front) = items.drop back := by
      rw [List.drop_drop, Nat.add_sub_cancel' ordered]
    rw [← rest, List.take_append_drop, List.take_append_drop]
  let keeps (position : Nat) : Bool := decide (position < front ∨ back ≤ position)
  change _ = (items.zipIdx.filter fun item => keeps item.2).map Prod.fst
  conv_rhs => rw [← split]
  rw [List.zipIdx_append, List.zipIdx_append, List.filter_append, List.filter_append,
    List.map_append, List.map_append]
  congr 1
  · symm
    apply zipIdx_filter_all
    intro position _ below
    rw [List.length_take] at below
    apply decide_eq_true
    omega
  · rw [zipIdx_filter_none, zipIdx_filter_all]
    · rfl
    · intro position above below
      simp only [List.length_take, List.length_drop] at above below
      apply decide_eq_true
      omega
    · intro position above below
      simp only [List.length_take, List.length_drop] at above below
      apply decide_eq_false
      omega

end Positions

namespace RecentSinkBlocks

/-- The position of a block is one of the first `sink` or of the last `recent`. -/
def Keeps (selector : RecentSinkBlocks) (count position : Nat) : Prop :=
  (position : Int) < selector.sink ∨ (count : Int) - selector.recent ≤ position

instance (selector : RecentSinkBlocks) (count position : Nat) :
    Decidable (selector.Keeps count position) :=
  inferInstanceAs (Decidable (_ ∨ _))

/-- The blocks at the positions that are kept. -/
def kept (selector : RecentSinkBlocks) (available : List Int) : List Int :=
  (available.zipIdx.filter fun item => selector.Keeps available.length item.2).map Prod.fst

section Select

variable {selector larger : RecentSinkBlocks} {available : List Int}

theorem kept_eq (sink : 0 ≤ selector.sink) (recent : 0 ≤ selector.recent) :
    selector.kept available = available.take selector.sink.toNat ++
      available.drop (max selector.sink.toNat (available.length - selector.recent.toNat)) := by
  rw [take_append_drop_eq_positions (Nat.le_max_left _ _), kept]
  congr 1
  apply List.filter_congr
  intro item _
  apply decide_eq_decide.mpr
  unfold Keeps
  omega

theorem select_eq (increasing : available.Pairwise (· < ·)) (sink : 0 ≤ selector.sink)
    (recent : 0 ≤ selector.recent) :
    selector.select available = .ok (selector.kept available) := by
  have front : pySlice available 0 selector.sink = available.take selector.sink.toNat := by
    rw [← pySlice_zero, Int.toNat_of_nonneg sink]
  have back : (if selector.recent = 0 then []
      else pySlice available (-selector.recent) available.length) =
        available.drop (available.length - selector.recent.toNat) := by
    split
    · rename_i zero
      rw [zero]
      exact (List.drop_length).symm
    · rw [← pySlice_last available (show 0 < selector.recent.toNat by omega),
        Int.toNat_of_nonneg recent]
  have distinct : available.Nodup := increasing.imp Int.ne_of_lt
  unfold select
  rw [if_neg (by omega), kept_eq sink recent]
  simp only [front, back, pyFromKeys_take_append_drop distinct]

theorem kept_sublist : (selector.kept available).Sublist available := by
  have positions : (available.zipIdx.filter fun item =>
      decide (selector.Keeps available.length item.2)).Sublist available.zipIdx :=
    List.filter_sublist
  have blocks := positions.map Prod.fst
  rwa [List.zipIdx_map_fst] at blocks

theorem kept_length (sink : 0 ≤ selector.sink) (recent : 0 ≤ selector.recent) :
    ((selector.kept available).length : Int) =
      min (available.length : Int) (selector.sink + selector.recent) := by
  rw [kept_eq sink recent, List.length_append, List.length_take, List.length_drop]
  omega

theorem kept_eq_self_iff (sink : 0 ≤ selector.sink) (recent : 0 ≤ selector.recent) :
    selector.kept available = available ↔
      (available.length : Int) ≤ selector.sink + selector.recent := by
  have length : ((selector.kept available).length : Int) = _ := kept_length sink recent
  constructor
  · intro whole
    rw [whole] at length
    omega
  · intro enough
    apply kept_sublist.eq_of_length
    omega

theorem kept_mono (sink : selector.sink ≤ larger.sink) (recent : selector.recent ≤ larger.recent) :
    (selector.kept available).Sublist (larger.kept available) := by
  apply List.Sublist.map
  apply List.monotone_filter_right
  intro item keeps
  apply decide_eq_true
  have smaller := of_decide_eq_true keeps
  unfold Keeps at smaller ⊢
  omega

end Select

end RecentSinkBlocks

section Created

variable {F : Type} [arith : QuantArith F] {α β : Type}
  [keyElement : TorchElement α F] [valueElement : TorchElement β F]
  {crc32 : Bytes → UInt32} {faults : Faults} {platform : Platform}
  {keys : Tensor α} {values : Tensor β} {spec : CacheSpec} {requested : Option String}

/-- The layer and the number of a block. -/
def BlockEntry.place (entry : BlockEntry) : Int × Int := (entry.layer, entry.block)

def BlockIndex.place (index : BlockIndex) : Int × Int := (index.layer, index.block)

theorem writeBlock_place {entries next : List BlockEntry} {index : BlockIndex}
    {root after : Root}
    (returns : writeBlock F crc32 faults keys values spec entries index root = .ok next after) :
    next.map BlockEntry.place = entries.map BlockEntry.place ++ [index.place] := by
  unfold writeBlock at returns
  obtain ⟨packed, _, _, returns⟩ := RootM.bind_eq_ok.mp returns
  obtain ⟨⟨record, checksum⟩, _, _, returns⟩ := RootM.bind_eq_ok.mp returns
  obtain ⟨_, _, _, returns⟩ := RootM.bind_eq_ok.mp returns
  obtain ⟨_, _, _, returns⟩ := RootM.bind_eq_ok.mp returns
  cases returns
  rw [List.map_append]
  rfl

theorem writeBlocks_places {indices : List BlockIndex} {entries result : List BlockEntry}
    {root after : Root}
    (returns : indices.foldlM (writeBlock F crc32 faults keys values spec) entries root =
      .ok result after) :
    result.map BlockEntry.place = entries.map BlockEntry.place ++ indices.map BlockIndex.place := by
  induction indices generalizing entries root with
  | nil =>
      cases returns
      rw [List.map_nil, List.append_nil]
  | cons index indices induction =>
      rw [List.foldlM_cons] at returns
      obtain ⟨next, middle, round, rest⟩ := RootM.bind_eq_ok.mp returns
      rw [induction rest, writeBlock_place round, List.map_cons, List.append_assoc,
        List.singleton_append]

theorem blockIndices_increasing (layers tokens blockTokens : Nat) :
    ((blockIndices layers tokens blockTokens).map BlockIndex.place).Pairwise
      fun earlier later => earlier.1 = later.1 → earlier.2 < later.2 := by
  rw [blockIndices_eq, List.pairwise_map, List.pairwise_flatMap]
  constructor
  · intro layer _
    rw [List.pairwise_map]
    apply List.Pairwise.imp _ List.pairwise_lt_range
    intro earlier later before _
    exact Int.ofNat_lt.mpr before
  · apply List.Pairwise.imp _ List.pairwise_lt_range
    intro earlier later before first firstMember second secondMember same
    obtain ⟨_, _, rfl⟩ := List.mem_map.mp firstMember
    obtain ⟨_, _, rfl⟩ := List.mem_map.mp secondMember
    exact absurd (Int.ofNat.inj same) (Nat.ne_of_lt before)

theorem blocksForLayer_increasing {store : KVCacheStore} {root after : Root}
    (created : KVCacheStore.create F crc32 faults platform keys values spec requested root =
      .ok store after) (layer : Int) :
    (store.blocksForLayer layer).Pairwise (· < ·) := by
  obtain ⟨entries, written, loops, manifest, _⟩ := create_eq_ok created
  have places := writeBlocks_places loops
  rw [List.map_nil, List.nil_append] at places
  have ordered : entries.Pairwise fun earlier later =>
      earlier.layer = later.layer → earlier.block < later.block := by
    have increasing := blockIndices_increasing spec.layers.toNat (tokenCount keys)
      spec.blockTokens.toNat
    rw [← places, List.pairwise_map] at increasing
    exact increasing
  have increasing : ((entries.filter fun item => item.layer == layer).map
      fun item => item.block).Pairwise (· < ·) := by
    rw [List.pairwise_map]
    apply List.Pairwise.imp_of_mem _ (ordered.sublist List.filter_sublist)
    intro earlier later earlierMember laterMember before
    apply before
    rw [eq_of_beq (List.mem_filter.mp earlierMember).2,
      eq_of_beq (List.mem_filter.mp laterMember).2]
  unfold KVCacheStore.blocksForLayer
  rw [manifest, List.mergeSort_of_pairwise]
  · exact increasing
  · apply increasing.imp
    intro earlier later before
    exact decide_eq_true (Int.le_of_lt before)

end Created

/-- `RecentSinkBlocks` selects the blocks at the first and the last positions, each once and in
increasing order; it selects all blocks exactly when there are not more than its counts, and
larger counts drop none.  The blocks it chooses from are those of a created store, which are in
increasing order. -/
theorem recentSinkBlocks_exact {F : Type} [arith : QuantArith F] {α β : Type}
    [keyElement : TorchElement α F] [valueElement : TorchElement β F]
    {crc32 : Bytes → UInt32} {faults : Faults} {platform : Platform}
    {keys : Tensor α} {values : Tensor β} {spec : CacheSpec} {requested : Option String}
    {selector : RecentSinkBlocks} (sink : 0 ≤ selector.sink) (recent : 0 ≤ selector.recent) :
    (∀ available : List Int, available.Pairwise (· < ·) →
      ∃ selected, selector.select available = .ok selected ∧
        selected = (available.zipIdx.filter fun item =>
          selector.Keeps available.length item.2).map Prod.fst ∧
        selected.Pairwise (· < ·) ∧
        (selected.length : Int) = min (available.length : Int) (selector.sink + selector.recent) ∧
        (selected = AllBlocks.select {} available ↔
          (available.length : Int) ≤ selector.sink + selector.recent) ∧
        ∀ larger : RecentSinkBlocks, selector.sink ≤ larger.sink →
          selector.recent ≤ larger.recent →
            ∃ more, larger.select available = .ok more ∧ selected.Sublist more) ∧
      ∀ store root after, KVCacheStore.create F crc32 faults platform keys values spec requested
          root = .ok store after →
        ∀ layer, (store.blocksForLayer layer).Pairwise (· < ·) := by
  constructor
  · intro available increasing
    refine ⟨_, RecentSinkBlocks.select_eq increasing sink recent, rfl,
      increasing.sublist RecentSinkBlocks.kept_sublist, RecentSinkBlocks.kept_length sink recent,
      RecentSinkBlocks.kept_eq_self_iff sink recent, ?_⟩
    intro larger moreSink moreRecent
    exact ⟨_, RecentSinkBlocks.select_eq increasing (le_trans sink moreSink)
      (le_trans recent moreRecent), RecentSinkBlocks.kept_mono moreSink moreRecent⟩
  · intro store root after created layer
    exact blocksForLayer_increasing created layer

/-- Six blocks, of which the first and the last two are kept. -/
theorem recentSinkBlocks_exact_six :
    RecentSinkBlocks.select ⟨1, 2⟩ [0, 1, 2, 3, 4, 5] = .ok [0, 4, 5] ∧
      ∃ more, RecentSinkBlocks.select ⟨4, 3⟩ [0, 1, 2, 3, 4, 5] = .ok more ∧
        List.Sublist [0, 4, 5] more := by
  obtain ⟨exact, _⟩ := @recentSinkBlocks_exact ℚ _ ℚ ℚ _ _ Zlib.crc32 noFaults
    portablePlatform tinyKeys tinyKeys tinySpec none ⟨1, 2⟩ (by decide) (by decide)
  obtain ⟨selected, success, rfl, _, _, _, larger⟩ := exact [0, 1, 2, 3, 4, 5] (by decide)
  exact ⟨success, larger ⟨4, 3⟩ (by decide) (by decide)⟩

/-- A `BlockSelector`. -/
inductive BlockSelector where
  | all (selector : AllBlocks)
  | recentSink (selector : RecentSinkBlocks)
  deriving DecidableEq, Repr

def BlockSelector.select : BlockSelector → List Int → Except PyError (List Int)
  | .all selector, available => .ok (selector.select available)
  | .recentSink selector, available => selector.select available

/-- The blocks of a layer that `decode` hands to the loader. -/
def KVSSDPipeline.selectBlocks (store : KVCacheStore) (layer : Int)
    (selector : Option BlockSelector) : Except PyError (List Int) := do
  let selected ← (selector.getD (.all {})).select (store.blocksForLayer layer)
  if selected = [] then .error (.valueError "selector returned no blocks") else .ok selected

end KVSSD

import KVSSD.HostChecks
import KVSSD.KernelScores
import KVSSD.Lib.Loops
import KVSSD.Lib.TwosComplement

/-!
# The Triton kernel computes softmax attention

Over the real numbers with minus infinity, the programs of `_fused_decode_kernel`
return the rows of the reference backend.  They visit every token of every block; a
masked token comes with the score minus infinity, and changes nothing because the
first token of the first block is a valid one.  The addresses are computed in integers
of a fixed width, which is a parameter.
-/

namespace KVSSD

open KVSSD.Python KVSSD.Quant KVSSD.OnlineSoftmax KVSSD.Loops KVSSD.TwosComplement

/-- Integers of `width` bits hold the offsets of the last rows of a batch and of a query. -/
structure BatchSizes.Addressed (sizes : BatchSizes) (width : Nat) : Prop where
  packed : (sizes.blocks * sizes.tokens * sizes.kvHeads - 1) * sizes.packedDim < 2 ^ (width - 1)
  scales : (sizes.blocks * sizes.tokens * sizes.kvHeads - 1) * sizes.groups < 2 ^ (width - 1)
  query : (sizes.queryHeads - 1) * sizes.headDim < 2 ^ (width - 1)

namespace Triton

section Rounds

variable {F : Type} [arith : KernelArith F] (wrap : Int → Int)

/-- The rounds of the two loops: every token of every block. -/
def rounds (launch : Launch) : List (Nat × Nat) :=
  (List.range launch.blocks.toNat).flatMap fun block =>
    (List.range launch.tokens.toNat).map fun token => (block, token)

/-- One round. -/
def round (batch : PackedBatch) (scale : F) (launch : Launch) (query : List F) (kvHead : Int)
    (state : State F) (position : Nat × Nat) : Option (State F) := do
  let valid ← load batch.validTokens.data position.1
  tokenStep wrap batch scale launch query kvHead position.1 valid state position.2

/-- The state of the program of a query head after its first rounds. -/
def stateAfter (query : Tensor F) (batch : PackedBatch) (scale : F) (launch : Launch)
    (queryHead count : Nat) : Option (State F) := do
  let lanes ← queryLanes wrap query launch queryHead
  let kvHead ← launch.kvHead queryHead
  ((rounds launch).take count).foldlM (round wrap batch scale launch lanes kvHead)
    (start launch)

end Rounds

theorem rowBase_wrapped (launch : Launch) (width block token : Nat) (kvHead stride : Int) :
    launch.rowBase (fun index => some (wrapped width index)) stride block token kvHead =
      some (wrapped width
        (((block * launch.tokens + token) * launch.kvHeads + kvHead) * stride)) := by
  unfold Launch.rowBase
  simp only [Option.bind_eq_bind, Option.bind_some]
  rw [wrapped_add_left (block * launch.tokens),
    wrapped_mul_left (block * launch.tokens + token), wrapped_add_left, wrapped_mul_left]

theorem byteIndex_wrapped (launch : Launch) (width block token dim : Nat) (kvHead : Int) :
    byteIndex (wrapped width) launch kvHead block token dim =
      some (wrapped width (((block * launch.tokens + token) * launch.kvHeads + kvHead) *
        launch.packedDim) + (dim / perByte launch.bits : Nat)) := by
  change (launch.rowBase _ launch.packedDim block token kvHead >>= _) = _
  rw [rowBase_wrapped]
  rfl

theorem scaleIndex_wrapped (launch : Launch) (width block token dim : Nat) (kvHead : Int) :
    scaleIndex (wrapped width) launch kvHead block token dim =
      (divide dim launch.groupSize).map (wrapped width
        (((block * launch.tokens + token) * launch.kvHeads + kvHead) * launch.groups) + ·) := by
  change (launch.rowBase _ launch.groups block token kvHead >>= _) = _
  rw [rowBase_wrapped, Option.bind_eq_bind, Option.bind_some]
  cases divide dim launch.groupSize with
  | none => rfl
  | some group => rfl

section Lane

variable {width : Nat} {batch : PackedBatch} {query : Tensor ℝ} {sizes : BatchSizes}
  {scale : ℝ} {lanes block token head dim : Nat}
  (addressed : sizes.Addressed width)

include addressed in
theorem rowBase_launch {stride : Nat} (wide : stride = sizes.packedDim ∨ stride = sizes.groups)
    (present : block < sizes.blocks) (valid : token < sizes.tokens)
    (own : head < sizes.kvHeads) :
    (sizes.launch lanes).rowBase (fun index => some (wrapped width index)) stride block token
        head = some ((sizes.row block token head * stride : Nat) : Int) := by
  have row := rowOf_lt present valid own
  have below : sizes.row block token head * stride < 2 ^ (width - 1) := by
    have last : sizes.row block token head * stride ≤
        (sizes.blocks * sizes.tokens * sizes.kvHeads - 1) * stride :=
      Nat.mul_le_mul_right _ (Nat.le_sub_one_of_lt row)
    rcases wide with rfl | rfl
    · exact Nat.lt_of_le_of_lt last addressed.packed
    · exact Nat.lt_of_le_of_lt last addressed.scales
  rw [rowBase_wrapped]
  change some (wrapped width
    (((block * (sizes.tokens : Int) + token) * (sizes.kvHeads : Int) + head) * stride)) = _
  have cast : ((block * (sizes.tokens : Int) + token) * (sizes.kvHeads : Int) + head) * stride =
      ((sizes.row block token head * stride : Nat) : Int) := by
    unfold BatchSizes.row rowOf
    push_cast
    rfl
  rw [cast, wrapped_of_lt below]

theorem active_iff (dim : Nat) :
    decide ((dim : Int) < (sizes.launch lanes).headDim) = true ↔ dim < sizes.headDim := by
  change decide ((dim : Int) < (sizes.headDim : Int)) = true ↔ _
  simp

theorem toRat_zero : Half.toRat 0 = 0 := by decide +kernel

include addressed in
/-- A lane holds the value of its dimension; beyond the dimensions it holds zero. -/
theorem value_launch (formed : batch.WellFormed query sizes) {packed : Tensor UInt8}
    {scales : Tensor UInt16}
    (packedShape : packed.shape =
      [sizes.blocks, sizes.tokens, sizes.kvHeads, sizes.packedDim])
    (scalesShape : scales.shape = [sizes.blocks, sizes.tokens, sizes.kvHeads, sizes.groups])
    (present : block < sizes.blocks) (valid : token < sizes.tokens)
    (own : head < sizes.kvHeads) :
    value (wrapped width) (sizes.launch lanes) packed scales head block token dim =
      some (Extended.real (if dim < sizes.headDim then
        sizes.value ℝ packed scales block token head dim else 0)) := by
  have byteAt : byteIndex (wrapped width) (sizes.launch lanes) head block token dim =
      some ((sizes.row block token head * sizes.packedDim +
        dim / perByte sizes.bits : Nat) : Int) := by
    change ((sizes.launch lanes).rowBase _ sizes.packedDim block token head >>= _) = _
    rw [rowBase_launch addressed (Or.inl rfl) present valid own]
    rfl
  have scaleAt : scaleIndex (wrapped width) (sizes.launch lanes) head block token dim =
      some ((sizes.row block token head * sizes.groups + dim / sizes.groupSize : Nat) :
        Int) := by
    change ((sizes.launch lanes).rowBase _ sizes.groups block token head >>= fun base =>
      divide dim sizes.groupSize >>= fun group => some (base + group)) = _
    rw [rowBase_launch addressed (Or.inr rfl) present valid own,
      divide_natCast _ _ formed.group_pos]
    rfl
  by_cases inside : dim < sizes.headDim
  · obtain ⟨byteNarrow, scaleNarrow⟩ := formed.dim_lt inside
    have byteInside := BatchSizes.row_inside packedShape present valid own byteNarrow
    have scaleInside := BatchSizes.row_inside scalesShape present valid own scaleNarrow
    have active : decide ((dim : Int) < (sizes.launch lanes).headDim) = true :=
      (active_iff dim).mpr inside
    have read := @PackedBatch.WellFormed.value_eq ℝ _ batch query sizes lanes block token head
      dim formed _ packed scales
    unfold value
    rw [byteAt, scaleAt, active, if_pos inside, read]
    simp only [maskedLoad, if_true, load_of_lt 0 byteInside, load_of_lt 0 scaleInside,
      Option.bind_eq_bind, Option.bind_some]
    rfl
  · have masked : decide ((dim : Int) < (sizes.launch lanes).headDim) = false := by
      apply Bool.eq_false_iff.mpr
      intro active
      exact inside ((active_iff dim).mp active)
    unfold value
    rw [byteAt, scaleAt, masked, if_neg inside]
    change some (Extended.real (_ * ((Half.toRat 0 : ℚ) : ℝ))) = _
    rw [toRat_zero, Rat.cast_zero, mul_zero]

include addressed in
theorem queryLanes_launch (formed : batch.WellFormed query sizes)
    (inside : head < sizes.queryHeads) :
    queryLanes (wrapped width) (query.map Extended.real) (sizes.launch lanes) head =
      some ((List.range lanes).map fun dim => Extended.real
        (if dim < sizes.headDim then query.data.getD (head * sizes.headDim + dim) 0 else 0)) := by
  unfold queryLanes
  apply mapM_eq_some
  intro dim _
  by_cases narrow : dim < sizes.headDim
  · have active : decide ((dim : Int) < (sizes.launch lanes).headDim) = true :=
      (active_iff dim).mpr narrow
    have below : head * sizes.headDim < 2 ^ (width - 1) :=
      Nat.lt_of_le_of_lt (Nat.mul_le_mul_right _ (Nat.le_sub_one_of_lt inside)) addressed.query
    have row : wrapped width ((head : Int) * (sizes.launch lanes).headDim) =
        ((head * sizes.headDim : Nat) : Int) := by
      change wrapped width ((head : Int) * (sizes.headDim : Int)) = _
      rw [← Nat.cast_mul, wrapped_of_lt below]
    rw [active, if_pos narrow, row, ← Nat.cast_add]
    exact formed.load_query inside narrow
  · have masked : decide ((dim : Int) < (sizes.launch lanes).headDim) = false := by
      apply Bool.eq_false_iff.mpr
      intro active
      exact narrow ((active_iff dim).mp active)
    rw [masked, if_neg narrow]
    rfl

theorem dot_real (left right : Nat → ℝ) (lanes : Nat) :
    dot ((List.range lanes).map fun lane => Extended.real (left lane))
        ((List.range lanes).map fun lane => Extended.real (right lane)) =
      Extended.real ((List.range lanes).map fun lane => left lane * right lane).sum := by
  have sums : ∀ items : List ℝ, ∀ start : ℝ,
      (items.map Extended.real).foldl KernelArith.toAttentionArith.add (.real start) =
        .real (start + items.sum) := by
    intro items
    induction items with
    | nil => simp
    | cons item items induction =>
        intro start
        rw [List.map_cons, List.foldl_cons, List.sum_cons, ← add_assoc]
        exact induction (start + item)
  have total := sums ((List.range lanes).map fun lane => left lane * right lane) 0
  rw [zero_add, List.map_map] at total
  rw [dot, List.zipWith_map, List.zipWith_self]
  exact total

end Lane

section Token

variable {width : Nat} {batch : PackedBatch} {query : Tensor ℝ} {sizes : BatchSizes}
  {scale : ℝ} {lanes head : Nat} {position : Nat × Nat}
  (addressed : sizes.Addressed width)
  (formed : batch.WellFormed query sizes) (wide : sizes.headDim ≤ lanes)
  (inside : head < sizes.queryHeads)

/-- Whether a position holds a valid token. -/
def active (batch : PackedBatch) (position : Nat × Nat) : Bool :=
  position.2 < batch.validAt position.1

/-- The query in the lanes. -/
noncomputable def queryLane (query : Tensor ℝ) (sizes : BatchSizes) (head lanes : Nat) :
    List Extended :=
  (List.range lanes).map fun dim => Extended.real
    (if dim < sizes.headDim then query.data.getD (head * sizes.headDim + dim) 0 else 0)

/-- The values of a token in the lanes. -/
noncomputable def valueLane (sizes : BatchSizes) (packed : Tensor UInt8)
    (scales : Tensor UInt16) (head lanes : Nat) (position : Nat × Nat) : List Extended :=
  (List.range lanes).map fun dim => Extended.real
    (if dim < sizes.headDim then
      sizes.value ℝ packed scales position.1 position.2 (sizes.kvHead head) dim else 0)

include wide in
theorem score_lanes :
    Extended.mul (dot (queryLane query sizes head lanes)
        (valueLane sizes batch.packedK batch.scalesK head lanes position)) (.real scale) =
      .real (sizes.score query batch scale head position) := by
  have products : (List.range lanes).map (fun lane =>
      (if lane < sizes.headDim then query.data.getD (head * sizes.headDim + lane) 0 else 0) *
        (if lane < sizes.headDim then sizes.value ℝ batch.packedK batch.scalesK position.1
          position.2 (sizes.kvHead head) lane else 0)) =
      (List.range lanes).map fun lane =>
        if lane < sizes.headDim then sizes.product query batch head position lane else 0 := by
    apply List.map_congr_left
    intro lane _
    by_cases low : lane < sizes.headDim
    · rw [if_pos low, if_pos low, if_pos low]
      rfl
    · rw [if_neg low, if_neg low, if_neg low, mul_zero]
  unfold queryLane valueLane
  rw [dot_real, products, sum_lanes wide]
  rfl

include addressed formed inside in
/-- A round reads its values in the lanes, and goes on with the score of its token, or with
minus infinity. -/
theorem round_launch (present : position.1 < sizes.blocks) (token : position.2 < sizes.tokens)
    (state : State Extended) :
    round (wrapped width) batch (.real scale) (sizes.launch lanes)
        (queryLane query sizes head lanes) (sizes.kvHead head) state position =
      let score := if active batch position then
        Extended.mul (dot (queryLane query sizes head lanes)
          (valueLane sizes batch.packedK batch.scalesK head lanes position)) (.real scale)
        else Extended.negInf
      some
        { runningMax := state.runningMax.max score
          runningSum := (state.runningSum.mul (oldWeight state.runningMax score)).add
            (newWeight state.runningMax score)
          accumulator := List.zipWith
            (fun sum value => (sum.mul (oldWeight state.runningMax score)).add
              (value.mul (newWeight state.runningMax score)))
            state.accumulator
            (valueLane sizes batch.packedV batch.scalesV head lanes position) } := by
  have own := formed.kvHead_lt inside
  have keys : (List.range lanes).mapM (value (wrapped width) (sizes.launch lanes) batch.packedK
      batch.scalesK (sizes.kvHead head) position.1 position.2) =
        some (valueLane sizes batch.packedK batch.scalesK head lanes position) :=
    mapM_eq_some fun dim _ =>
      value_launch addressed formed formed.packedK formed.scalesK present token own
  have values : (List.range lanes).mapM (value (wrapped width) (sizes.launch lanes) batch.packedV
      batch.scalesV (sizes.kvHead head) position.1 position.2) =
        some (valueLane sizes batch.packedV batch.scalesV head lanes position) :=
    mapM_eq_some fun dim _ =>
      value_launch addressed formed formed.packedV formed.scalesV present token own
  have counted := (formed.validAt_eq present).1
  have same : active batch position = decide ((position.2 : Int) < batch.validAt position.1) := by
    unfold active
    congr 1
    exact propext (by omega)
  unfold round
  rw [load_natCast, counted, Option.bind_eq_bind, Option.bind_some]
  unfold tokenStep
  refine Option.bind_eq_some_iff.mpr ⟨_, keys, ?_⟩
  refine Option.bind_eq_some_iff.mpr ⟨_, values, ?_⟩
  rw [same]
  simp only [decide_eq_true_eq]
  rfl

/-- The running values of a state. -/
def Kept (sizes : BatchSizes) (query : Tensor ℝ) (batch : PackedBatch) (scale : ℝ)
    (head : Nat) (done : List (Nat × Nat)) (state : State Extended) : Prop :=
  sizes.Running query batch scale head (done.filter (active batch)) state.runningMax
    state.runningSum state.accumulator

include addressed formed wide inside in
/-- The step lemma: a valid token is added, a masked one changes nothing. -/
theorem Kept.round {done : List (Nat × Nat)} {state : State Extended}
    (kept : Kept sizes query batch scale head done state) (present : position.1 < sizes.blocks)
    (token : position.2 < sizes.tokens)
    (first : active batch position = false → done.filter (active batch) ≠ []) :
    ∃ next, round (wrapped width) batch (.real scale) (sizes.launch lanes)
        (queryLane query sizes head lanes) (sizes.kvHead head) state position = some next ∧
      Kept sizes query batch scale head (done ++ [position]) next := by
  refine ⟨_, round_launch addressed formed inside present token state, ?_⟩
  have lane : ∀ column < sizes.headDim,
      (valueLane sizes batch.packedV batch.scalesV head lanes position)[column]? =
        some (.real (sizes.weighed batch head column position)) := by
    intro column narrow
    unfold valueLane
    rw [List.getElem?_map, List.getElem?_range (by omega), Option.map_some, if_pos narrow]
    rfl
  unfold Kept
  rw [List.filter_append]
  by_cases valid : active batch position = true
  · rw [List.filter_cons_of_pos valid, List.filter_nil, if_pos valid]
    apply kept.step (score_lanes wide)
    intro column narrow value found
    rw [List.getElem?_zipWith, found, lane column narrow]
  · rw [List.filter_cons_of_neg valid, List.filter_nil, List.append_nil, if_neg valid]
    apply kept.masked (first (by simpa using valid))
    intro column narrow value found
    refine ⟨sizes.weighed batch head column position, ?_⟩
    rw [List.getElem?_zipWith, found, lane column narrow]

end Token

section Kernel

variable {width : Nat} {batch : PackedBatch} {query : Tensor ℝ} {sizes : BatchSizes}
  {scale : ℝ} {lanes head : Nat}
  (addressed : sizes.Addressed width)
  (formed : batch.WellFormed query sizes)
  (filled : ∀ valid ∈ batch.validTokens.data, 0 < valid)

theorem mem_rounds {position : Nat × Nat} : position ∈ rounds (sizes.launch lanes) ↔
    position.1 < sizes.blocks ∧ position.2 < sizes.tokens := by
  obtain ⟨block, token⟩ := position
  simp [rounds, BatchSizes.launch, List.mem_flatMap]

include formed in
theorem filter_rounds : (rounds (sizes.launch lanes)).filter (active batch) =
    batch.validPositions sizes.blocks := by
  change ((List.range sizes.blocks).flatMap fun block =>
    (List.range sizes.tokens).map fun token => (block, token)).filter (active batch) = _
  unfold PackedBatch.validPositions
  rw [List.filter_flatMap]
  apply List.flatMap_congr
  intro block member
  have bounded := (formed.validAt_eq (List.mem_range.mp member)).2
  obtain ⟨more, split⟩ := Nat.exists_eq_add_of_le bounded
  rw [List.filter_map, split, List.range_add, List.filter_append]
  have front : (List.range (batch.validAt block)).filter
      (active batch ∘ fun token => (block, token)) = List.range (batch.validAt block) := by
    apply List.filter_eq_self.mpr
    intro token inside
    simpa [active] using inside
  have back : ((List.range more).map (batch.validAt block + ·)).filter
      (active batch ∘ fun token => (block, token)) = [] := by
    apply List.filter_eq_nil_iff.mpr
    intro token inside
    obtain ⟨extra, _, rfl⟩ := List.mem_map.mp inside
    simp [active]
  rw [front, back, List.append_nil]

include formed filled in
theorem rounds_eq_cons : ∃ rest, rounds (sizes.launch lanes) = (0, 0) :: rest ∧
    active batch (0, 0) = true := by
  obtain ⟨position, valid⟩ := formed.exists_position
  obtain ⟨present, token⟩ := formed.position_inside valid
  obtain ⟨blocks, blocksEq⟩ := Nat.exists_eq_succ_of_ne_zero (show sizes.blocks ≠ 0 by omega)
  obtain ⟨tokens, tokensEq⟩ := Nat.exists_eq_succ_of_ne_zero (show sizes.tokens ≠ 0 by omega)
  have counted := (formed.validAt_eq (show 0 < sizes.blocks by omega)).1
  have positive := filled _ (List.mem_of_getElem? counted)
  have cons : ∃ rest, rounds (sizes.launch lanes) = (0, 0) :: rest := by
    change ∃ rest, ((List.range sizes.blocks).flatMap fun block =>
      (List.range sizes.tokens).map fun token => (block, token)) = (0, 0) :: rest
    rw [blocksEq, tokensEq, List.range_succ_eq_map, List.range_succ_eq_map]
    exact ⟨_, rfl⟩
  obtain ⟨rest, split⟩ := cons
  refine ⟨rest, split, ?_⟩
  simp only [active, decide_eq_true_eq]
  omega

include addressed formed filled in
/-- The run lemma, for the first rounds of the loops. -/
theorem exists_kept (wide : sizes.headDim ≤ lanes) (inside : head < sizes.queryHeads)
    (count : Nat) :
    ∃ state, ((rounds (sizes.launch lanes)).take count).foldlM
        (round (wrapped width) batch (.real scale) (sizes.launch lanes)
          (queryLane query sizes head lanes) (sizes.kvHead head))
        (start (sizes.launch lanes)) = some state ∧
      Kept sizes query batch scale head ((rounds (sizes.launch lanes)).take count) state := by
  obtain ⟨rest, rounds_eq, valid⟩ :=
    @rounds_eq_cons batch query sizes lanes formed filled
  apply foldlM_invariant
  · exact BatchSizes.running_start wide
  · intro done position later state split kept
    have member : position ∈ rounds (sizes.launch lanes) := by
      apply List.mem_of_mem_take
      rw [split]
      simp
    obtain ⟨present, token⟩ := mem_rounds.mp member
    apply kept.round addressed formed wide inside present token
    intro masked
    cases done with
    | nil =>
        have head := congrArg List.head? split
        rw [rounds_eq] at head
        cases count with
        | zero => simp at split
        | succ count =>
            simp only [List.take_succ_cons, List.head?_cons, List.nil_append,
              Option.some.injEq] at head
            rw [← head, valid] at masked
            cases masked
    | cons earlier done =>
        have head := congrArg List.head? split
        rw [rounds_eq] at head
        cases count with
        | zero => simp at split
        | succ count =>
            simp only [List.take_succ_cons, List.head?_cons, List.cons_append,
              Option.some.injEq] at head
            rw [← head, List.filter_cons_of_pos valid]
            exact List.cons_ne_nil _ _

include formed in
/-- The nested loops go through the rounds. -/
theorem loops_launch {query : List Extended} {kvHead : Int} (state : State Extended) :
    (List.range (sizes.launch lanes).blocks.toNat).foldlM (fun state (block : Nat) => do
        let valid ← load batch.validTokens.data block
        (List.range (sizes.launch lanes).tokens.toNat).foldlM
          (tokenStep (wrapped width) batch (.real scale) (sizes.launch lanes) query kvHead block
            valid)
          state) state =
      (rounds (sizes.launch lanes)).foldlM
        (round (wrapped width) batch (.real scale) (sizes.launch lanes) query kvHead) state := by
  apply foldlM_flatMap
  intro state block member
  have counted := (formed.validAt_eq (List.mem_range.mp member)).1
  unfold round
  simp only [load_natCast, counted, Option.bind_eq_bind, Option.bind_some]

include addressed formed filled in
theorem stateAfter_launch (wide : sizes.headDim ≤ lanes) (inside : head < sizes.queryHeads)
    {count : Nat} (positive : 0 < count) :
    ∃ state top sum, stateAfter (wrapped width) (query.map Extended.real) batch (.real scale)
        (sizes.launch lanes) head count = some state ∧ state.runningMax = .real top ∧
      state.runningSum = .real sum ∧ 0 < sum := by
  obtain ⟨state, run, kept⟩ :=
    @exists_kept width batch query sizes scale lanes head addressed formed filled wide inside count
  have mass : 0 < Softmax.mass (sizes.scores query batch scale head
      (((rounds (sizes.launch lanes)).take count).filter (active batch))) := by
    apply Softmax.mass_pos
    obtain ⟨rest, rounds_eq, valid⟩ :=
      @rounds_eq_cons batch query sizes lanes formed filled
    obtain ⟨fewer, rfl⟩ := Nat.exists_eq_succ_of_ne_zero positive.ne'
    rw [rounds_eq, List.take_succ_cons, List.filter_cons_of_pos valid]
    simp [BatchSizes.scores]
  obtain ⟨top, maximum⟩ := kept.sum.exists_maximum mass.ne'
  obtain ⟨sum, total, sumPos⟩ := kept.sum.sum_pos mass
  refine ⟨state, top, sum, ?_, maximum, total, sumPos⟩
  unfold stateAfter
  refine Option.bind_eq_some_iff.mpr ⟨_, queryLanes_launch addressed formed inside, ?_⟩
  exact Option.bind_eq_some_iff.mpr ⟨_, formed.kvHead_launch inside, run⟩

include addressed formed filled in
theorem fusedDecodeKernel_launch (wide : sizes.headDim ≤ lanes)
    (inside : head < sizes.queryHeads) :
    fusedDecodeKernel (wrapped width) (query.map Extended.real) batch (.real scale)
        (sizes.launch lanes) head =
      some (((List.range sizes.headDim).map fun column => Softmax.average
          (sizes.items query batch scale head column
            (batch.validPositions sizes.blocks))).map Extended.real,
        .real (Softmax.logMass
          (sizes.scores query batch scale head (batch.validPositions sizes.blocks)))) := by
  obtain ⟨final, run, kept⟩ := @exists_kept width batch query sizes scale lanes head addressed
    formed filled wide inside (rounds (sizes.launch lanes)).length
  rw [List.take_length] at run kept
  unfold Kept at kept
  rw [filter_rounds formed] at kept
  obtain ⟨row, lse⟩ := kept.finish formed.positions_ne_nil
  unfold fusedDecodeKernel
  refine Option.bind_eq_some_iff.mpr ⟨_, queryLanes_launch addressed formed inside, ?_⟩
  refine Option.bind_eq_some_iff.mpr ⟨_, formed.kvHead_launch inside, ?_⟩
  refine Option.bind_eq_some_iff.mpr ⟨final, (loops_launch formed _).trans run, ?_⟩
  rw [List.map_take] at row
  exact congrArg some (congrArg₂ Prod.mk row lse)

end Kernel

section Agree

/-- The backend is launched, and every program stores what the reference returns. After
each of its rounds the running maximum, which both exponents are taken relative to, is a
number, and the running sum, which is divided by, is positive. -/
def Agrees (width : Nat) (query : Tensor ℝ) (batch : PackedBatch) (scale : ℝ)
    (sizes : BatchSizes) : Prop :=
  ∃ launch output lse,
    TritonAttentionBackend.run (query.map Extended.real) batch = .ok launch ∧
    ReferenceAttentionBackend.run query batch scale = .ok (output, lse) ∧
    sizes.Matches
      (fusedDecodeKernel (wrapped width) (query.map Extended.real) batch (.real scale) launch)
      output lse ∧
    ∀ head < sizes.queryHeads, ∀ count, 0 < count → ∃ state top sum,
      stateAfter (wrapped width) (query.map Extended.real) batch (.real scale) launch head count =
        some state ∧
      state.runningMax = .real top ∧ state.runningSum = .real sum ∧ 0 < sum

variable {width : Nat} {batch : PackedBatch} {query : Tensor ℝ} {sizes : BatchSizes}

theorem run_launch {F : Type} {query : Tensor F} (formed : batch.WellFormed query sizes)
    (filled : ∀ valid ∈ batch.validTokens.data, 0 < valid) (small : sizes.headDim ≤ 256) :
    TritonAttentionBackend.run query batch =
      .ok (sizes.launch (powerAtLeast sizes.headDim 0)) := by
  rw [formed.launch_eq]
  apply run_eq_ok_iff.mpr
  rw [formed.shapes_eq]
  exact ⟨formed.validate, small, filled, rfl⟩

theorem agrees_of_addressed (formed : batch.WellFormed query sizes)
    (filled : ∀ valid ∈ batch.validTokens.data, 0 < valid) (small : sizes.headDim ≤ 256)
    (addressed : 0 < sizes.queryHeads → sizes.Addressed width) (scale : ℝ) :
    Agrees width query batch scale sizes := by
  obtain ⟨output, lse, reference, rows⟩ := formed.run_real scale
  obtain ⟨wide, _⟩ := le_powerAtLeast sizes.headDim 0
  refine ⟨_, output, lse, run_launch (formed.mapQuery Extended.real) filled small, reference,
    ?_, ?_⟩
  · intro head inside
    obtain ⟨row, last⟩ := rows head inside
    rw [fusedDecodeKernel_launch (addressed (by omega)) formed filled wide inside, row, last]
  · intro head inside count positive
    exact stateAfter_launch (addressed (by omega)) formed filled wide inside positive

end Agree

end Triton

end KVSSD

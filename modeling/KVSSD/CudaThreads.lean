import KVSSD.CudaOverflow
import KVSSD.Lib.Barriers
import KVSSD.Lib.Loops

/-!
# The threads of the CUDA kernel

`fused_decode_kernel` as it runs: every thread of a block goes through the loops on its own, the
threads share `reduce` and `state`, and `__syncthreads()` is all that orders their accesses.  Every
interleaving ends with what the model computes whose phases are done by all threads at once.
-/

namespace KVSSD

open KVSSD.Barriers KVSSD.Python

namespace Cuda

section Program

variable {F : Type} [arith : KernelArith F]

/-- `shared[index]`, of `blockDim.x + 3` numbers. -/
def readShared (launch : Launch) (index : Nat) : Thread Nat F F :=
  if index < launch.lanes + 3 then .read index .done else .fault

def writeShared (launch : Launch) (index : Nat) (value : F) : Thread Nat F Unit :=
  if index < launch.lanes + 3 then .write index value (.done ()) else .fault

/-- `state[index]`, behind `reduce`. -/
def stateCell (launch : Launch) (index : Nat) : Nat := launch.lanes + index

/-- The variables of a thread. `running_m` and `running_l` change in thread 0 only. -/
structure Locals (F : Type) where
  runningM : F
  runningL : F
  outAcc : F

/-- `if (tid < stride) reduce[tid] += reduce[tid + stride];` -/
def strideThread (launch : Launch) (tid stride : Nat) : Thread Nat F Unit :=
  if tid < stride then do
    let other ← readShared launch (tid + stride)
    let own ← readShared launch tid
    writeShared launch tid (arith.add own other)
  else pure ()

/-- The loop over the strides. -/
def reduceThread (launch : Launch) (tid stride : Nat) : Thread Nat F Unit :=
  if stride = 0 then pure ()
  else do
    strideThread launch tid stride
    Thread.barrier
    reduceThread launch tid (stride / 2)
  termination_by stride

/-- `if (tid == 0) { … }`: the running maximum and sum. -/
def scoreThread (scale : F) (launch : Launch) (tid : Nat) (locals : Locals F) :
    Thread Nat F (Locals F) :=
  if tid = 0 then do
    let total ← readShared launch 0
    let score := arith.mul total scale
    let nextM := arith.max locals.runningM score
    writeShared launch (stateCell launch 0) (arith.exp (arith.sub locals.runningM nextM))
    writeShared launch (stateCell launch 1) (arith.exp (arith.sub score nextM))
    let oldWeight ← readShared launch (stateCell launch 0)
    let newWeight ← readShared launch (stateCell launch 1)
    let runningL := arith.add (arith.mul oldWeight locals.runningL) newWeight
    writeShared launch (stateCell launch 2) runningL
    return { locals with runningM := nextM, runningL := runningL }
  else return locals

variable (query : Tensor F) (batch : PackedBatch) (scale : F) (launch : Launch)
  (queryHead : Nat) (kvHead : Int)

/-- `if (tid < head_dim) { … }`: the dimension of the output that the thread sums. -/
def accumulateThread (block token tid : Nat) (locals : Locals F) : Thread Nat F (Locals F) :=
  if tid < launch.headDim.toNat then do
    let v ← Thread.ofOption (value launch batch.packedV batch.scalesV kvHead block token tid)
    let oldWeight ← readShared launch (stateCell launch 0)
    let newWeight ← readShared launch (stateCell launch 1)
    return { locals with
      outAcc := arith.add (arith.mul locals.outAcc oldWeight) (arith.mul v newWeight) }
  else return locals

/-- The body of the loop over the tokens. -/
def tokenThread (block tid : Nat) (locals : Locals F) (token : Nat) :
    Thread Nat F (Locals F) := do
  let sum ← Thread.ofOption (partialDot query batch launch queryHead kvHead block token tid)
  writeShared launch tid sum
  Thread.barrier
  reduceThread launch tid (launch.lanes / 2)
  let locals ← scoreThread scale launch tid locals
  Thread.barrier
  let locals ← accumulateThread batch launch kvHead block token tid locals
  Thread.barrier
  return locals

/-- What a thread stores behind the loops: at its place of the output, and thread 0 the
log-sum-exp. -/
def storeThread (launch : Launch) (tid : Nat) (locals : Locals F) :
    Thread Nat F (Option F × Option F) := do
  let output ← if tid < launch.headDim.toNat then do
      let sum ← readShared launch (stateCell launch 2)
      pure (some (arith.div locals.outAcc sum))
    else pure none
  let lse := if tid = 0 then some (arith.add locals.runningM (arith.log locals.runningL)) else none
  return (output, lse)

/-- `fused_decode_kernel` in one thread of the block of a query head. -/
def kernelThread (tid : Nat) : Thread Nat F (Option F × Option F) := do
  let kvHead ← Thread.ofOption (launch.kvHead queryHead)
  let locals ← (List.range launch.blocks.toNat).foldlM
    (fun locals (block : Nat) => do
      let valid ← Thread.ofOption (load batch.validTokens.data block)
      (List.range valid.toNat).foldlM
        (tokenThread query batch scale launch queryHead kvHead block tid) locals)
    { runningM := arith.negInf, runningL := arith.zero, outAcc := arith.zero }
  storeThread launch tid locals

/-- A block of threads before its first access; shared memory is uninitialized. -/
def threadBlock : Group Nat F (Option F × Option F) launch.lanes :=
  ⟨fun tid => kernelThread query batch scale launch queryHead tid, fun _ => none⟩

end Program

section Cells

variable {F : Type} {launch : Launch}

/-- The numbers in `reduce`, and what is in `state`. -/
def sharedMemory (launch : Launch) (reduce : Nat → F) (state : Nat → Option F) :
    Nat → Option F := fun cell =>
  if cell < launch.lanes then some (reduce cell) else state (cell - launch.lanes)

theorem sharedMemory_reduce {reduce : Nat → F} {state : Nat → Option F} {cell : Nat}
    (inside : cell < launch.lanes) :
    sharedMemory launch reduce state cell = some (reduce cell) :=
  if_pos inside

theorem sharedMemory_state {reduce : Nat → F} {state : Nat → Option F} {index : Nat} :
    sharedMemory launch reduce state (stateCell launch index) = state index := by
  unfold sharedMemory stateCell
  rw [if_neg (by omega), Nat.add_sub_cancel_left]

theorem readShared_eq {index : Nat} (inside : index < launch.lanes + 3) :
    (readShared launch index : Thread Nat F F) = .read index .done :=
  if_pos inside

theorem writeShared_eq {index : Nat} (inside : index < launch.lanes + 3) (value : F) :
    writeShared launch index value = .write index value (.done ()) :=
  if_pos inside

end Cells

section Phases

variable {F : Type} [arith : KernelArith F] {ρ : Type} {launch : Launch}

omit arith in
/-- The partial sums are written, each thread its own. -/
theorem passes_sums (sums : Nat → F) (memory : Nat → Option F)
    (rest : Fin launch.lanes → Unit → Thread Nat F ρ) : ∃ total,
    Passes (fun tid => writeShared launch tid (sums tid) >>= fun _ => Thread.barrier >>= rest tid)
      memory (fun tid => rest tid ())
      (sharedMemory launch sums fun index => memory (stateCell launch index)) total := by
  let owner : Nat → Option (Fin launch.lanes) := fun cell =>
    if inside : cell < launch.lanes then some ⟨cell, inside⟩ else none
  have merged : merge owner memory
      (fun tid => Function.update memory (tid : Nat) (some (sums tid))) =
        sharedMemory launch sums fun index => memory (stateCell launch index) := by
    funext cell
    unfold merge sharedMemory
    by_cases inside : cell < launch.lanes
    · simp [owner, inside]
    · have back : stateCell launch (cell - launch.lanes) = cell := by
        unfold stateCell
        omega
      simp [owner, inside, back]
  have segments : ∀ tid, Segment owner tid
      (writeShared launch tid (sums tid) >>= fun _ => Thread.barrier >>= rest tid) memory
      (.sync (rest tid ())) (Function.update memory (tid : Nat) (some (sums tid))) 1 := by
    intro tid
    rw [writeShared_eq (by omega)]
    have own : owner tid = some tid := dif_pos tid.isLt
    exact .write own .sync
  have passes := Passes.phase owner segments .refl
  rw [merged] at passes
  exact ⟨_, passes⟩

/-- One stride of the reduction: the threads below it read and write cells of their own. -/
theorem passes_stride {stride : Nat} (room : 2 * stride ≤ launch.lanes) (reduce : Nat → F)
    (state : Nat → Option F) (rest : Fin launch.lanes → Unit → Thread Nat F ρ) : ∃ total,
    Passes (fun tid => strideThread launch tid stride >>= fun _ => Thread.barrier >>= rest tid)
      (sharedMemory launch reduce state) (fun tid => rest tid ())
      (sharedMemory launch (fun tid =>
        if tid < stride then arith.add (reduce tid) (reduce (tid + stride)) else reduce tid)
        state) total := by
  let owner : Nat → Option (Fin launch.lanes) := fun cell =>
    if low : cell < stride then some ⟨cell, by omega⟩
    else if high : cell < 2 * stride then some ⟨cell - stride, by omega⟩
    else none
  let memory := sharedMemory launch reduce state
  let finals : Fin launch.lanes → Nat → Option F := fun tid =>
    if (tid : Nat) < stride then
      Function.update memory (tid : Nat) (some (arith.add (reduce tid) (reduce (tid + stride))))
    else memory
  have merged : merge owner memory finals = sharedMemory launch (fun tid =>
      if tid < stride then arith.add (reduce tid) (reduce (tid + stride)) else reduce tid)
      state := by
    funext cell
    unfold merge
    by_cases low : cell < stride
    · have inside : cell < launch.lanes := by omega
      simp [owner, finals, sharedMemory, low, inside]
    · by_cases high : cell < 2 * stride
      · have inside : cell < launch.lanes := by omega
        have below : cell - stride < stride := by omega
        have apart : cell ≠ cell - stride := by omega
        simp [owner, finals, memory, sharedMemory, low, high, inside, below,
          Function.update_of_ne apart]
      · simp [owner, memory, sharedMemory, low, high]
  have segments : ∀ tid : Fin launch.lanes, Segment owner tid
      (strideThread launch tid stride >>= fun _ => Thread.barrier >>= rest tid) memory
      (.sync (rest tid ())) (finals tid) (if (tid : Nat) < stride then 3 else 0) := by
    intro tid
    unfold strideThread
    by_cases low : (tid : Nat) < stride
    · have ownLow : owner tid = some tid := dif_pos low
      have ownHigh : owner (tid + stride) = some tid := by
        have notLow : ¬ (tid : Nat) + stride < stride := by omega
        have high : (tid : Nat) + stride < 2 * stride := by omega
        simp [owner, notLow, high]
      have readsLow : memory tid = some (reduce tid) := sharedMemory_reduce tid.isLt
      have readsHigh : memory (tid + stride) = some (reduce (tid + stride)) :=
        sharedMemory_reduce (by omega)
      have self : ∀ {cell : Nat}, owner cell = some tid →
          ∀ other, owner cell = some other → other = tid := by
        intro cell own other held
        rw [own] at held
        exact (Option.some.inj held).symm
      have insideLow : (tid : Nat) < launch.lanes + 3 := by omega
      have insideHigh : (tid : Nat) + stride < launch.lanes + 3 := by omega
      simp only [low, if_true, finals, readShared_eq insideHigh, readShared_eq insideLow,
        writeShared_eq insideLow]
      exact .read (self ownHigh) readsHigh (.read (self ownLow) readsLow (.write ownLow .sync))
    · simp only [low, if_false, finals]
      exact .sync
  have passes := Passes.phase owner segments .refl
  rw [merged] at passes
  exact ⟨_, passes⟩

theorem reduceThread_zero {tid : Nat} :
    (reduceThread launch tid 0 : Thread Nat F Unit) = .done () := by
  rw [reduceThread, if_pos rfl]
  rfl

theorem reduceThread_of_pos {tid stride : Nat} (positive : stride ≠ 0) :
    (reduceThread launch tid stride : Thread Nat F Unit) =
      strideThread launch tid stride >>= fun _ => Thread.barrier >>= fun _ =>
        reduceThread launch tid (stride / 2) := by
  rw [reduceThread, if_neg positive]

theorem passes_reduce {stride : Nat} (room : 2 * stride ≤ launch.lanes) (reduce : Nat → F)
    (state : Nat → Option F) : ∃ total,
    Passes (fun tid : Fin launch.lanes => reduceThread launch tid stride)
      (sharedMemory launch reduce state) (fun _ => .done ())
      (sharedMemory launch (reduceTree stride reduce) state) total := by
  induction stride using Nat.strongRecOn generalizing reduce with
  | ind stride induction =>
      by_cases zero : stride = 0
      · subst zero
        have same : reduceTree 0 reduce = reduce := by
          rw [reduceTree, if_pos rfl]
        simp only [reduceThread_zero]
        rw [same]
        exact ⟨0, .refl⟩
      · obtain ⟨_, step⟩ := passes_stride room reduce state
          (fun tid _ => reduceThread launch tid (stride / 2))
        obtain ⟨_, more⟩ := induction (stride / 2) (by omega) (by omega) _
        obtain ⟨total, whole⟩ := step.trans more
        simp only [reduceThread_of_pos zero]
        rw [reduceTree, if_neg zero]
        exact ⟨total, whole⟩

/-- The variables of thread 0 behind a token with this sum. -/
def scoredLocals (scale sum : F) (locals : Locals F) : Locals F :=
  let score := arith.mul sum scale
  let nextM := arith.max locals.runningM score
  let oldWeight := arith.exp (arith.sub locals.runningM nextM)
  let newWeight := arith.exp (arith.sub score nextM)
  { locals with
    runningM := nextM
    runningL := arith.add (arith.mul oldWeight locals.runningL) newWeight }

/-- What thread 0 writes into `state`. -/
def scoredState (scale sum : F) (locals : Locals F) (state : Nat → Option F) : Nat → Option F
  | 0 => some (arith.exp (arith.sub locals.runningM (scoredLocals scale sum locals).runningM))
  | 1 => some (arith.exp (arith.sub (arith.mul sum scale)
      (scoredLocals scale sum locals).runningM))
  | 2 => some (scoredLocals scale sum locals).runningL
  | index + 3 => state (index + 3)

theorem update_scoredState (scale sum : F) (locals : Locals F) (reduce : Nat → F)
    (state : Nat → Option F) :
    Function.update (Function.update (Function.update (sharedMemory launch reduce state)
        (stateCell launch 0) (scoredState scale sum locals state 0))
        (stateCell launch 1) (scoredState scale sum locals state 1))
        (stateCell launch 2) (scoredState scale sum locals state 2) =
      sharedMemory launch reduce (scoredState scale sum locals state) := by
  funext cell
  by_cases inside : cell < launch.lanes
  · have apart : ∀ index, cell ≠ stateCell launch index := by
      intro index
      unfold stateCell
      omega
    rw [Function.update_of_ne (apart 2), Function.update_of_ne (apart 1),
      Function.update_of_ne (apart 0), sharedMemory_reduce inside, sharedMemory_reduce inside]
  · obtain ⟨index, rfl⟩ : ∃ index, cell = stateCell launch index :=
      ⟨cell - launch.lanes, by unfold stateCell; omega⟩
    have apart : ∀ {left right : Nat}, left ≠ right →
        stateCell launch left ≠ stateCell launch right := by
      intro left right different
      unfold stateCell
      omega
    rw [sharedMemory_state]
    match index with
    | 0 =>
        rw [Function.update_of_ne (apart (by omega)), Function.update_of_ne (apart (by omega)),
          Function.update_self]
    | 1 => rw [Function.update_of_ne (apart (by omega)), Function.update_self]
    | 2 => rw [Function.update_self]
    | index + 3 =>
        rw [Function.update_of_ne (apart (by omega)), Function.update_of_ne (apart (by omega)),
          Function.update_of_ne (apart (by omega)), sharedMemory_state]
        rfl

/-- Thread 0 computes the weights while the others wait. -/
theorem passes_score (inhabited : 0 < launch.lanes) (scale : F) (reduce : Nat → F)
    (state : Nat → Option F) (locals : Fin launch.lanes → Locals F)
    (rest : Fin launch.lanes → Locals F → Thread Nat F ρ) : ∃ total,
    Passes (fun tid => scoreThread scale launch tid (locals tid) >>= fun locals =>
        Thread.barrier >>= fun _ => rest tid locals)
      (sharedMemory launch reduce state)
      (fun tid => rest tid (if (tid : Nat) = 0 then scoredLocals scale (reduce 0) (locals tid)
        else locals tid))
      (sharedMemory launch reduce
        (scoredState scale (reduce 0) (locals ⟨0, inhabited⟩) state)) total := by
  let owner : Nat → Option (Fin launch.lanes) := fun _ => some ⟨0, inhabited⟩
  let memory := sharedMemory launch reduce state
  let scored := sharedMemory launch reduce
    (scoredState scale (reduce 0) (locals ⟨0, inhabited⟩) state)
  let finals : Fin launch.lanes → Nat → Option F := fun tid =>
    if (tid : Nat) = 0 then scored else memory
  have merged : merge owner memory finals = scored := by
    funext cell
    rfl
  have segments : ∀ tid : Fin launch.lanes, Segment owner tid
      (scoreThread scale launch tid (locals tid) >>= fun locals =>
        Thread.barrier >>= fun _ => rest tid locals) memory
      (.sync (rest tid (if (tid : Nat) = 0 then scoredLocals scale (reduce 0) (locals tid)
        else locals tid))) (finals tid) (if (tid : Nat) = 0 then 6 else 0) := by
    intro tid
    unfold scoreThread
    by_cases first : (tid : Nat) = 0
    · have only : tid = ⟨0, inhabited⟩ := Fin.ext first
      subst only
      have self : ∀ other, some (⟨0, inhabited⟩ : Fin launch.lanes) = some other →
          other = ⟨0, inhabited⟩ :=
        fun other held => (Option.some.inj held).symm
      have sum : memory 0 = some (reduce 0) := sharedMemory_reduce inhabited
      have inside : ∀ index, index < 3 → stateCell launch index < launch.lanes + 3 := by
        intro index small
        unfold stateCell
        omega
      have apart : stateCell launch 0 ≠ stateCell launch 1 := by
        unfold stateCell
        omega
      have zero : 0 < launch.lanes + 3 := by omega
      simp only [if_true, finals, readShared_eq zero, readShared_eq (inside 0 (by omega)),
        readShared_eq (inside 1 (by omega)), writeShared_eq (inside 0 (by omega)),
        writeShared_eq (inside 1 (by omega)), writeShared_eq (inside 2 (by omega))]
      rw [show scored = _ from (update_scoredState scale (reduce 0) (locals ⟨0, inhabited⟩) reduce
        state).symm]
      refine .read self sum (.write rfl (.write rfl (.read self ?_
        (.read self ?_ (.write rfl .sync)))))
      · rw [Function.update_of_ne apart, Function.update_self]
      · rw [Function.update_self]
    · simp only [first, if_false, finals]
      exact .sync
  have passes := Passes.phase owner segments .refl
  rw [merged] at passes
  exact ⟨_, passes⟩

/-- Behind the barrier the threads read the weights. -/
theorem passes_accumulate {batch : PackedBatch} {kvHead : Int} {block token : Nat}
    {memory : Nat → Option F} {oldWeight newWeight : F} (values : Nat → F)
    (loads : ∀ tid < launch.lanes, tid < launch.headDim.toNat →
      value launch batch.packedV batch.scalesV kvHead block token tid = some (values tid))
    (old : memory (stateCell launch 0) = some oldWeight)
    (new : memory (stateCell launch 1) = some newWeight)
    (locals : Fin launch.lanes → Locals F)
    (rest : Fin launch.lanes → Locals F → Thread Nat F ρ) : ∃ total,
    Passes (fun tid => accumulateThread batch launch kvHead block token tid (locals tid) >>=
        fun locals => Thread.barrier >>= fun _ => rest tid locals)
      memory
      (fun tid => rest tid (if (tid : Nat) < launch.headDim.toNat then
          { locals tid with
            outAcc := arith.add (arith.mul (locals tid).outAcc oldWeight)
              (arith.mul (values tid) newWeight) }
        else locals tid)) memory total := by
  let owner : Nat → Option (Fin launch.lanes) := fun _ => none
  have segments : ∀ tid : Fin launch.lanes, Segment owner tid
      (accumulateThread batch launch kvHead block token tid (locals tid) >>= fun locals =>
        Thread.barrier >>= fun _ => rest tid locals) memory
      (.sync (rest tid (if (tid : Nat) < launch.headDim.toNat then
          { locals tid with
            outAcc := arith.add (arith.mul (locals tid).outAcc oldWeight)
              (arith.mul (values tid) newWeight) }
        else locals tid))) memory (if (tid : Nat) < launch.headDim.toNat then 2 else 0) := by
    intro tid
    unfold accumulateThread
    by_cases wide : (tid : Nat) < launch.headDim.toNat
    · have unowned : ∀ other, (none : Option (Fin launch.lanes)) = some other → other = tid := by
        intro other held
        cases held
      have zero : stateCell launch 0 < launch.lanes + 3 := by
        unfold stateCell
        omega
      have one : stateCell launch 1 < launch.lanes + 3 := by
        unfold stateCell
        omega
      simp only [wide, if_true, loads tid tid.isLt wide, readShared_eq zero, readShared_eq one]
      exact .read unowned old (.read unowned new .sync)
    · simp only [wide, if_false]
      exact .sync
  have merged : merge owner memory (fun _ => memory) = memory := rfl
  have passes := Passes.phase owner segments .refl
  rw [merged] at passes
  exact ⟨_, passes⟩

end Phases

section Tokens

variable {F : Type} [arith : KernelArith F] {launch : Launch}

/-- The variables of the threads and what they share are those of the block. -/
structure Holds (launch : Launch) (state : State F) (locals : Fin launch.lanes → Locals F)
    (memory : Nat → Option F) : Prop where
  runningM : ∀ tid : Fin launch.lanes, (tid : Nat) = 0 → (locals tid).runningM = state.runningM
  runningL : ∀ tid : Fin launch.lanes, (tid : Nat) = 0 → (locals tid).runningL = state.runningL
  length : state.outAcc.length = launch.lanes
  outAcc : ∀ tid : Fin launch.lanes, state.outAcc[(tid : Nat)]? = some (locals tid).outAcc
  shared : memory (stateCell launch 2) = state.shared

/-- The threads go through a token together. -/
theorem passes_token {query : Tensor F} {batch : PackedBatch} {scale : F} {queryHead : Nat}
    {kvHead : Int} {block token : Nat} {state next : State F}
    {locals : Fin launch.lanes → Locals F} {memory : Nat → Option F}
    (inhabited : 0 < launch.lanes) (holds : Holds launch state locals memory)
    (happens : tokenStep query batch scale launch queryHead kvHead block state token =
      some next) :
    ∃ after final total,
      Passes (fun tid => tokenThread query batch scale launch queryHead kvHead block tid
          (locals tid) token) memory (fun tid => .done (after tid)) final total ∧
        Holds launch next after final := by
  obtain ⟨sums, partials, happens⟩ := Option.bind_eq_some_iff.mp happens
  obtain ⟨outAcc, accumulates, result⟩ := Option.bind_eq_some_iff.mp happens
  cases result
  let reduce : Nat → F := fun tid => sums.getD tid arith.zero
  have written : ∀ tid < launch.lanes,
      partialDot query batch launch queryHead kvHead block token tid = some (reduce tid) := by
    intro tid inside
    obtain ⟨length, rounds⟩ := Loops.getElem?_of_mapM partials
    rw [List.length_range] at length
    rw [← rounds (List.getElem?_range inside), List.getElem?_eq_getElem (by omega)]
    simp [reduce, length, inside]
  let reduced : F := reduceTree (launch.lanes / 2) reduce 0
  let first := locals ⟨0, inhabited⟩
  let scored : Fin launch.lanes → Locals F := fun tid =>
    if (tid : Nat) = 0 then scoredLocals scale reduced (locals tid) else locals tid
  let weights := scoredState scale reduced first fun index => memory (stateCell launch index)
  let values : Nat → F := fun tid =>
    (value launch batch.packedV batch.scalesV kvHead block token tid).getD arith.zero
  have startM : first.runningM = state.runningM := holds.runningM ⟨0, inhabited⟩ rfl
  have startL : first.runningL = state.runningL := holds.runningL ⟨0, inhabited⟩ rfl
  obtain ⟨accumulated, rounds⟩ := Loops.getElem?_of_mapM accumulates
  have present : ∀ tid : Fin launch.lanes,
      state.outAcc.zipIdx[(tid : Nat)]? = some ((locals tid).outAcc, (tid : Nat)) := by
    intro tid
    rw [List.getElem?_zipIdx, holds.outAcc tid, Nat.zero_add]
    rfl
  have loads : ∀ tid < launch.lanes, tid < launch.headDim.toNat →
      value launch batch.packedV batch.scalesV kvHead block token tid = some (values tid) := by
    intro tid inside wide
    have round := rounds (present ⟨tid, inside⟩)
    cases loaded : value (F := F) launch batch.packedV batch.scalesV kvHead block token tid with
    | some v => simp [values, loaded]
    | none =>
        have room : tid < outAcc.length := by
          rw [accumulated, List.length_zipIdx, holds.length]
          exact inside
        simp only [wide, if_true, loaded] at round
        simp [room] at round
  obtain ⟨_, sumsPass⟩ := passes_sums reduce memory fun (tid : Fin launch.lanes) _ =>
    reduceThread launch tid (launch.lanes / 2) >>= fun _ =>
      scoreThread scale launch tid (locals tid) >>= fun locals => Thread.barrier >>= fun _ =>
        accumulateThread batch launch kvHead block token tid locals >>= fun locals =>
          Thread.barrier >>= fun _ => pure locals
  obtain ⟨_, reducePass⟩ := @passes_reduce F _ launch (launch.lanes / 2) (by omega) reduce
    fun index => memory (stateCell launch index)
  obtain ⟨_, scorePass⟩ := passes_score inhabited scale
    (reduceTree (launch.lanes / 2) reduce) (fun index => memory (stateCell launch index)) locals
    fun tid locals => accumulateThread batch launch kvHead block token tid locals >>= fun locals =>
      Thread.barrier >>= fun _ => pure locals
  have old : sharedMemory launch (reduceTree (launch.lanes / 2) reduce) weights
      (stateCell launch 0) = weights 0 := sharedMemory_state
  have new : sharedMemory launch (reduceTree (launch.lanes / 2) reduce) weights
      (stateCell launch 1) = weights 1 := sharedMemory_state
  obtain ⟨_, accumulatePass⟩ := passes_accumulate values loads old new scored
    fun _ locals => pure locals
  obtain ⟨_, upToScore⟩ := sumsPass.trans reducePass.bind
  obtain ⟨_, upToWeights⟩ := upToScore.trans scorePass
  obtain ⟨total, whole⟩ := upToWeights.trans accumulatePass
  have body : (fun tid : Fin launch.lanes =>
      tokenThread query batch scale launch queryHead kvHead block tid (locals tid) token) =
        fun tid : Fin launch.lanes => writeShared launch tid (reduce tid) >>= fun _ =>
          Thread.barrier >>= fun _ => reduceThread launch tid (launch.lanes / 2) >>= fun _ =>
            scoreThread scale launch tid (locals tid) >>= fun locals =>
              Thread.barrier >>= fun _ =>
                accumulateThread batch launch kvHead block token tid locals >>= fun locals =>
                  Thread.barrier >>= fun _ => pure locals := by
    funext tid
    unfold tokenThread
    rw [written tid tid.isLt]
    rfl
  rw [body]
  have kept : ∀ tid : Fin launch.lanes, (scored tid).outAcc = (locals tid).outAcc := by
    intro tid
    simp only [scored]
    split
    · rfl
    · rfl
  refine ⟨_, _, total, whole, ?_, ?_, ?_, ?_, ?_⟩
  · intro tid zero
    have same : (scored tid).runningM = arith.max state.runningM (arith.mul reduced scale) := by
      simp only [scored, zero, if_true, scoredLocals, holds.runningM tid zero]
    rw [← same]
    split
    · rfl
    · rfl
  · intro tid zero
    have same : (scored tid).runningL = (scoredLocals scale reduced
        ⟨state.runningM, state.runningL, (locals tid).outAcc⟩).runningL := by
      simp only [scored, zero, if_true, scoredLocals, holds.runningM tid zero,
        holds.runningL tid zero]
    split
    · exact same
    · exact same
  · rw [accumulated, List.length_zipIdx]
    exact holds.length
  · intro tid
    rw [rounds (present tid)]
    by_cases wide : (tid : Nat) < launch.headDim.toNat
    · simp only [wide, if_true, loads tid tid.isLt wide, kept tid, scoredLocals, startM]
      rfl
    · simp only [wide, if_false, kept tid]
      rfl
  · rw [sharedMemory_state]
    simp only [weights, scoredState, scoredLocals]
    rw [startM, startL]

theorem passes_blocks {query : Tensor F} {batch : PackedBatch} {scale : F} {queryHead : Nat}
    {kvHead : Int} {state final : State F} {locals : Fin launch.lanes → Locals F}
    {memory : Nat → Option F} (inhabited : 0 < launch.lanes)
    (holds : Holds launch state locals memory)
    (returns : (List.range launch.blocks.toNat).foldlM
      (fun state (block : Nat) => do
        let valid ← load batch.validTokens.data block
        (List.range valid.toNat).foldlM
          (tokenStep query batch scale launch queryHead kvHead block) state) state = some final) :
    ∃ after shared total,
      Passes (fun tid => (List.range launch.blocks.toNat).foldlM
          (fun locals (block : Nat) => do
            let valid ← Thread.ofOption (load batch.validTokens.data block)
            (List.range valid.toNat).foldlM
              (tokenThread query batch scale launch queryHead kvHead block tid) locals)
          (locals tid)) memory (fun tid => .done (after tid)) shared total ∧
        Holds launch final after shared := by
  refine passes_foldlM (fun (tid : Fin launch.lanes) locals (block : Nat) => do
    let valid ← Thread.ofOption (load batch.validTokens.data block)
    (List.range valid.toNat).foldlM
      (tokenThread query batch scale launch queryHead kvHead block tid) locals) ?_ holds returns
  intro state locals memory block next holds happens
  obtain ⟨valid, loaded, happens⟩ := Option.bind_eq_some_iff.mp happens
  simp only [loaded, Thread.ofOption_some, Thread.done_bind]
  exact passes_foldlM _ (fun _ _ _ _ _ holds happens => passes_token inhabited holds happens)
    holds happens

/-- What a thread stores, when its block returns this. -/
def storedBy (output : List F) (lse : F) (tid : Nat) : Option F × Option F :=
  (output[tid]?, if tid = 0 then some lse else none)

/-- Behind the loops every thread stores what it has summed. -/
theorem finishes_kernel {query : Tensor F} {batch : PackedBatch} {scale : F} {queryHead : Nat}
    {output : List F} {lse : F} (inhabited : 0 < launch.lanes)
    (wide : launch.headDim.toNat ≤ launch.lanes)
    (returns : fusedDecodeKernel query batch scale launch queryHead = some (output, lse)) :
    ∃ total, Finishes (fun tid : Fin launch.lanes => storedBy output lse tid)
      (fun tid => kernelThread query batch scale launch queryHead tid) (fun _ => none) total := by
  obtain ⟨kvHead, own, returns⟩ := Option.bind_eq_some_iff.mp returns
  obtain ⟨final, loops, returns⟩ := Option.bind_eq_some_iff.mp returns
  obtain ⟨stored, divides, result⟩ := Option.bind_eq_some_iff.mp returns
  obtain ⟨rfl, rfl⟩ := Prod.mk.inj (Option.some.inj result)
  let first : Locals F := ⟨arith.negInf, arith.zero, arith.zero⟩
  have start : Holds launch
      ⟨arith.negInf, arith.zero, none, List.replicate launch.lanes arith.zero⟩
      (fun _ => first) (fun _ => none) := by
    constructor
    · exact fun _ _ => rfl
    · exact fun _ _ => rfl
    · exact List.length_replicate
    · exact fun tid => List.getElem?_replicate_of_lt tid.isLt
    · rfl
  obtain ⟨after, memory, _, passes, holds⟩ := passes_blocks inhabited start loops
  obtain ⟨length, rounds⟩ := Loops.getElem?_of_mapM divides
  rw [List.length_take, holds.length, Nat.min_eq_left wide] at length
  have segments : ∀ tid : Fin launch.lanes, Segment (fun _ => none) tid
      (storeThread launch tid (after tid)) memory (.done (storedBy stored
        (arith.add final.runningM (arith.log final.runningL)) tid)) memory
      (if (tid : Nat) < launch.headDim.toNat then 1 else 0) := by
    intro tid
    have lse : (if (tid : Nat) = 0 then
        some (arith.add (after tid).runningM (arith.log (after tid).runningL)) else none) =
          if (tid : Nat) = 0 then some (arith.add final.runningM (arith.log final.runningL))
          else none := by
      split
      · rename_i zero
        rw [holds.runningM tid zero, holds.runningL tid zero]
      · rfl
    simp only [storeThread, lse, storedBy]
    by_cases inside : (tid : Nat) < launch.headDim.toNat
    · have round := rounds ((List.getElem?_take_of_lt inside).trans (holds.outAcc tid))
      have item : stored[(tid : Nat)]? = some stored[(tid : Nat)] :=
        List.getElem?_eq_getElem (by omega)
      obtain ⟨sum, present, quotient⟩ := Option.bind_eq_some_iff.mp (round.symm.trans item)
      have room : stateCell launch 2 < launch.lanes + 3 := by
        unfold stateCell
        omega
      rw [← Option.some.inj quotient] at item
      simp only [inside, if_true, readShared_eq room, item]
      exact .read (fun _ held => nomatch held) (holds.shared.trans present) .done
    · have beyond : stored[(tid : Nat)]? = none := List.getElem?_eq_none (by omega)
      simp only [inside, if_false, beyond]
      exact .done
  have ends := @Passes.bind _ _ _ _ _ _ _ _ _ _ _
    (fun tid : Fin launch.lanes => storeThread launch tid) passes
  obtain ⟨total, finishes⟩ := ends.finishes (.last (fun _ => none) segments)
  refine ⟨total, ?_⟩
  simp only [kernelThread, own, Thread.ofOption_some, Thread.done_bind]
  exact finishes

end Tokens

theorem lanes_of_run {F : Type} {query : Tensor F} {batch : PackedBatch} {launch : Launch}
    (launched : CudaExtensionBackend.run query batch = .ok launch) :
    0 < launch.lanes ∧ launch.headDim.toNat ≤ launch.lanes := by
  unfold CudaExtensionBackend.run at launched
  obtain ⟨_, validate, launched⟩ := bind_eq_ok.mp launched
  rw [fusedDecode_eq validate] at launched
  unfold fusedDecodeCuda at launched
  obtain ⟨_, launched⟩ := passes_of_check launched
  obtain ⟨_, _, launched⟩ := bind_eq_ok.mp launched
  obtain ⟨_, launched⟩ := passes_of_check launched
  obtain ⟨_, _, launched⟩ := bind_eq_ok.mp launched
  obtain ⟨_, launched⟩ := passes_of_check launched
  obtain ⟨_, launched⟩ := passes_of_check launched
  obtain ⟨_, launched⟩ := passes_of_check launched
  obtain rfl := Except.ok.inj launched
  obtain ⟨wide, power, doubled⟩ := le_powerAtLeast (narrow (query.shape.getD 1 0)).toNat 5
  constructor
  · simp only [doubled]
    exact Nat.two_pow_pos power
  · simpa only using wide

/-- However the threads of a block interleave, none of them gets into undefined behaviour, reads
shared memory that was never written or waits forever, and they store the row that the phases done
by all threads at once compute. -/
theorem kernel_interleavings {F : Type} [KernelArith F] {query : Tensor F}
    {batch : PackedBatch} {launch : Launch}
    (launched : CudaExtensionBackend.run query batch = .ok launch) {scale : F} {queryHead : Nat}
    {output : List F} {lse : F}
    (returns : fusedDecodeKernel query batch scale launch queryHead = some (output, lse)) :
    (threadBlock query batch scale launch queryHead).EndsIn fun tid =>
      storedBy output lse tid := by
  obtain ⟨inhabited, wide⟩ := lanes_of_run launched
  obtain ⟨total, finishes⟩ := finishes_kernel inhabited wide returns
  exact finishes.endsIn

theorem kernel_interleavings_tiny : ∃ launch output lse,
    (threadBlock ((Tensor.full [2, 2] 3).map Extended.real) tinyBatch (.real 1) launch 1).EndsIn
      fun tid => storedBy output lse tid := by
  obtain ⟨launch, _, _, launched, _, rows⟩ := @agrees_of_indexed _ _ _ 1
    (tinyBatch_wellFormed (3 : ℝ)) tinySizes_sized (by decide) fun _ => tinyBatch_indexed
  exact ⟨launch, _, _, kernel_interleavings launched (rows 1 (by decide))⟩

section Reference

variable {batch : PackedBatch} {query : Tensor ℝ} {sizes : BatchSizes} {scale : ℝ}
  (formed : batch.WellFormed query sizes) (sized : Sized sizes) (small : sizes.headDim ≤ 256)
  (indexed : 0 < sizes.queryHeads → Indexed batch sizes)

include formed sized small indexed in
/-- On a batch whose indices are `int`s, every interleaving of the threads of a query head stores
its row of the reference. -/
theorem interleavings_agree : ∃ launch output lse,
    CudaExtensionBackend.run (query.map Extended.real) batch = .ok launch ∧
    ReferenceAttentionBackend.run query batch scale = .ok (output, lse) ∧
    ∀ head < sizes.queryHeads,
      (threadBlock (query.map Extended.real) batch (.real scale) launch head).EndsIn fun tid =>
        storedBy (((output.matrix sizes.queryHeads sizes.headDim).getD head []).map Extended.real)
          (.real (lse.data.getD head 0)) tid := by
  obtain ⟨launch, output, lse, launched, reference, rows⟩ :=
    @agrees_of_indexed batch query sizes scale formed sized small indexed
  obtain ⟨inhabited, wide⟩ := lanes_of_run launched
  refine ⟨launch, output, lse, launched, reference, fun head inside => ?_⟩
  obtain ⟨total, finishes⟩ := finishes_kernel inhabited wide (rows head inside)
  exact finishes.endsIn

theorem interleavings_agree_tiny : ∃ launch output lse,
    CudaExtensionBackend.run ((Tensor.full [2, 2] (3 : ℝ)).map Extended.real) tinyBatch =
      .ok launch ∧
    ReferenceAttentionBackend.run (Tensor.full [2, 2] (3 : ℝ)) tinyBatch 1 = .ok (output, lse) ∧
    ∀ head < 2, (threadBlock ((Tensor.full [2, 2] (3 : ℝ)).map Extended.real) tinyBatch (.real 1)
      launch head).EndsIn fun tid =>
        storedBy (((output.matrix 2 2).getD head []).map Extended.real)
          (.real (lse.data.getD head 0)) tid :=
  interleavings_agree (tinyBatch_wellFormed 3) tinySizes_sized (by decide) fun _ =>
    tinyBatch_indexed

end Reference

end Cuda

end KVSSD

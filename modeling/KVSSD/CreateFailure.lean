import KVSSD.StoreRoundTrip

/-!
# Failing creates

`create` never reads the directory before it writes, and it empties the data
file first.  Its outcome is therefore the same whatever store was there, and a
create that fails after opening the data file cannot have kept the old store.
Only the failures before that point do.
-/

namespace KVSSD

open KVSSD.Python KVSSD.Struct

/-- Two results that agree in everything but the manifest of the directory. -/
def SameBlocks {α : Type} :
    EStateM.Result PyError Root α → EStateM.Result PyError Root α → Prop
  | .ok left leftRoot, .ok right rightRoot =>
      left = right ∧ leftRoot.blocks = rightRoot.blocks
  | .error left leftRoot, .error right rightRoot =>
      left = right ∧ leftRoot.blocks = rightRoot.blocks
  | _, _ => False

/-- A computation that does not look at the manifest of the directory. -/
def IgnoresManifest {α : Type} (body : RootM α) : Prop :=
  ∀ left right : Root, left.blocks = right.blocks → SameBlocks (body left) (body right)

namespace IgnoresManifest

variable {α β : Type}

theorem pure (value : α) : IgnoresManifest (Pure.pure value : RootM α) :=
  fun _ _ same => ⟨rfl, same⟩

theorem throw (raised : PyError) : IgnoresManifest (throw raised : RootM α) :=
  fun _ _ same => ⟨rfl, same⟩

theorem lift (result : Except PyError α) : IgnoresManifest (RootM.lift result) := by
  cases result with
  | ok value => exact pure value
  | error raised => exact throw raised

theorem bind {body : RootM α} {next : α → RootM β} (first : IgnoresManifest body)
    (rest : ∀ value, IgnoresManifest (next value)) : IgnoresManifest (body >>= next) := by
  intro left right same
  have step := first left right same
  simp only [Bind.bind, EStateM.bind]
  cases leftResult : body left with
  | ok leftValue leftRoot =>
      cases rightResult : body right with
      | ok rightValue rightRoot =>
          rw [leftResult, rightResult] at step
          obtain ⟨values, blocks⟩ := step
          subst values
          exact rest leftValue leftRoot rightRoot blocks
      | error raised rightRoot =>
          rw [leftResult, rightResult] at step
          exact step.elim
  | error raised leftRoot =>
      cases rightResult : body right with
      | ok rightValue rightRoot =>
          rw [leftResult, rightResult] at step
          exact step.elim
      | error raised' rightRoot =>
          rw [leftResult, rightResult] at step
          exact step

theorem get {next : Root → RootM α}
    (rest : ∀ left right : Root, left.blocks = right.blocks →
      SameBlocks (next left left) (next right right)) :
    IgnoresManifest (MonadState.get >>= next) :=
  fun left right same => rest left right same

theorem foldlM {γ : Type} {step : β → γ → RootM β}
    (ignores : ∀ state item, IgnoresManifest (step state item)) (items : List γ)
    (state : β) : IgnoresManifest (items.foldlM step state) := by
  induction items generalizing state with
  | nil => exact pure state
  | cons item items induction =>
      rw [List.foldlM_cons]
      exact bind (ignores state item) induction

end IgnoresManifest

section Create

variable {F : Type} [arith : QuantArith F] {α β : Type}
  [keyElement : TorchElement α F] [valueElement : TorchElement β F]
  {crc32 : Bytes → UInt32} {faults : Faults} {keys : Tensor α} {values : Tensor β}
  {spec : CacheSpec} {platform : Platform} {requested : Option String}

theorem writeRecord_ignoresManifest (index : Nat) (record : Bytes) :
    IgnoresManifest (writeRecord faults index record) := by
  refine IgnoresManifest.get ?_
  intro left right same
  cases faults (.writeRecord index) with
  | none =>
      rw [same]
      exact ⟨rfl, rfl⟩
  | some fault =>
      rw [same]
      exact ⟨rfl, rfl⟩

theorem writeBlock_ignoresManifest (entries : List BlockEntry) (index : BlockIndex) :
    IgnoresManifest (writeBlock F crc32 faults keys values spec entries index) := by
  refine (IgnoresManifest.lift _).bind fun packed => ?_
  refine (IgnoresManifest.lift _).bind fun encoded => ?_
  refine IgnoresManifest.get fun left right same => ?_
  rw [same]
  exact ((writeRecord_ignoresManifest _ _).bind fun _ => IgnoresManifest.pure _)
    left right same

theorem closeData_ignoresManifest {γ : Type} {body : RootM γ}
    (ignores : IgnoresManifest body) : IgnoresManifest (closeData faults body) := by
  intro left right same
  have step := ignores left right same
  unfold closeData
  cases faults .closeData with
  | none => exact step
  | some fault =>
      refine ⟨rfl, ?_⟩
      cases leftResult : body left with
      | ok leftValue leftRoot =>
          cases rightResult : body right with
          | ok rightValue rightRoot =>
              rw [leftResult, rightResult] at step
              simp only [step.2]
          | error raised rightRoot =>
              rw [leftResult, rightResult] at step
              exact step.elim
      | error raised leftRoot =>
          cases rightResult : body right with
          | ok rightValue rightRoot =>
              rw [leftResult, rightResult] at step
              exact step.elim
          | error raised' rightRoot =>
              rw [leftResult, rightResult] at step
              simp only [step.2]

theorem attempt_ignoresManifest (call : FileCall) :
    IgnoresManifest (FileCall.attempt faults call) := by
  unfold FileCall.attempt
  cases faults call with
  | none => exact IgnoresManifest.pure ()
  | some fault => exact IgnoresManifest.throw fault.raised

theorem save_ignoresManifest (manifest : Manifest) :
    IgnoresManifest (manifest.save faults) := by
  refine (attempt_ignoresManifest .openManifest).bind fun _ => ?_
  refine IgnoresManifest.get ?_
  intro left right same
  cases faults .writeManifest with
  | none => exact ⟨rfl, same⟩
  | some fault => exact ⟨rfl, same⟩

variable (faults keys values spec) in
/-- The failures of `create` before it opens the data file: an argument check, or
one of the two calls before. -/
def EarlyFailure : Prop :=
  checkArguments keys values spec ≠ .ok () ∨ faults .mkdir ≠ none ∨
    faults .openData ≠ none

variable (F crc32 platform requested) in
theorem create_eq (ready : ¬ EarlyFailure faults keys values spec) :
    ∃ tail : RootM KVCacheStore, IgnoresManifest tail ∧ ∀ root,
      KVCacheStore.create F crc32 faults platform keys values spec requested root =
        tail { root with blocks := some [] } := by
  simp only [EarlyFailure, not_or, not_not] at ready
  obtain ⟨arguments, mkdir, openData⟩ := ready
  refine ⟨do
    let entries ← closeData faults
      ((blockIndices spec.layers.toNat (tokenCount keys)
        spec.blockTokens.toNat).foldlM (writeBlock F crc32 faults keys values spec) [])
    let manifest : Manifest := ⟨spec, entries, 1⟩
    manifest.save faults
    RootM.lift (KVCacheStore.construct platform (← get) manifest requested), ?_, ?_⟩
  · refine (closeData_ignoresManifest (IgnoresManifest.foldlM
      writeBlock_ignoresManifest _ _)).bind fun entries => ?_
    refine (save_ignoresManifest _).bind fun _ => ?_
    refine IgnoresManifest.get fun left right same => ?_
    have constructed : ∀ manifest, KVCacheStore.construct platform left manifest requested =
        KVCacheStore.construct platform right manifest requested := by
      intro manifest
      rw [KVCacheStore.construct, KVCacheStore.construct, same]
    rw [constructed]
    exact IgnoresManifest.lift _ left right same
  · intro root
    unfold KVCacheStore.create
    rw [arguments, FileCall.attempt, FileCall.attempt, mkdir, openData]
    rfl

variable (F crc32 platform requested) in
theorem create_early (early : EarlyFailure faults keys values spec) (root : Root) :
    ∃ raised,
      KVCacheStore.create F crc32 faults platform keys values spec requested root =
        .error raised root := by
  unfold KVCacheStore.create
  cases arguments : checkArguments keys values spec with
  | error raised => exact ⟨raised, rfl⟩
  | ok checked =>
      cases mkdir : faults .mkdir with
      | some fault =>
          refine ⟨fault.raised, ?_⟩
          rw [FileCall.attempt, mkdir]
          rfl
      | none =>
          cases openData : faults .openData with
          | some fault =>
              refine ⟨fault.raised, ?_⟩
              rw [FileCall.attempt, FileCall.attempt, mkdir, openData]
              rfl
          | none =>
              rcases early with refused | refused | refused
              · exact absurd arguments refused
              · exact absurd mkdir refused
              · exact absurd openData refused

end Create

/-- `KVCacheStore.open(root).read(layer, block)`, the first read of its backend. -/
def openAndRead (crc32 : Bytes → UInt32) (memory : Memory)
    (platform : Platform) (requested : Option String) (root : Root)
    (layer block : Int) (verifyCrc : Bool) : Except PyError PackedKVBlock := do
  let store ← KVCacheStore.openRoot platform root requested
  store.read crc32 memory root 0 layer block verifyCrc

/-- Opening and reading give the same results in both directories. -/
def Intact (crc32 : Bytes → UInt32) (before after : Root) : Prop :=
  ∀ memory platform requested layer block verifyCrc,
    openAndRead crc32 memory platform requested after layer block verifyCrc =
      openAndRead crc32 memory platform requested before layer block verifyCrc

/-- A directory with a manifest and a data file in which every block can be read. -/
def ReadableStore (crc32 : Bytes → UInt32) (root : Root) : Prop :=
  ∃ manifest, root.manifest = some (.saved manifest) ∧ root.blocks ≠ none ∧
    manifest.spec.validate = .ok () ∧
    ∀ entry ∈ manifest.entries, ∀ memory, ∃ block,
      openAndRead crc32 memory portablePlatform (some "buffered") root
        entry.layer entry.block true = .ok block

/-- A manifest with one entry. -/
def tinyManifest : Manifest := ⟨tinySpec, [⟨0, 0, 0, 4096, 1, 0⟩], 1⟩

/-- The directory of a store with one record. -/
def tinyRoot (record : Bytes) : Root := ⟨some (.saved tinyManifest), some record⟩

theorem openAndRead_tinyRoot (crc32 : Bytes → UInt32) (memory : Memory)
    (record : Bytes) :
    openAndRead crc32 memory portablePlatform (some "buffered")
        (tinyRoot record) 0 0 true =
      (StorageKind.buffered.backend memory record).fetch 0 ⟨0, 0, 0, 4096, 1, 0⟩ >>=
        fun raw => decodeRecord crc32 raw.bytes tinySpec true := by
  have resolves : resolveStorageBackend portablePlatform true
      (some "buffered") = .ok .buffered := by decide +kernel
  have opened : KVCacheStore.openRoot portablePlatform (tinyRoot record)
      (some "buffered") = .ok ⟨tinyManifest, .buffered⟩ := by
    simp [KVCacheStore.openRoot, tinyRoot, Manifest.load, KVCacheStore.construct,
      tinyManifest, tinySpec_storable.valid, resolves]
  have entry : (⟨tinyManifest, .buffered⟩ : KVCacheStore).entry 0 0 =
      .ok ⟨0, 0, 0, 4096, 1, 0⟩ := rfl
  have backend : (⟨tinyManifest, .buffered⟩ : KVCacheStore).backend memory
      (tinyRoot record) = .ok (StorageKind.buffered.backend memory record) := rfl
  have spec : (⟨tinyManifest, .buffered⟩ : KVCacheStore).spec = tinySpec := rfl
  rw [openAndRead, opened, ok_bind, KVCacheStore.read, entry, ok_bind, backend, ok_bind,
    spec]

theorem TinyRecord.openAndRead {crc32 : Bytes → UInt32} {valid : Int} {record : Bytes}
    (tiny : TinyRecord crc32 (tinyBlock valid) record) (memory : Memory) :
    openAndRead crc32 memory portablePlatform (some "buffered")
      (tinyRoot record) 0 0 true = .ok (tinyBlock valid) := by
  have bytes : recordAt record ⟨0, 0, 0, 4096, 1, 0⟩ = record := by
    rw [recordAt]
    apply List.take_of_length_le
    rw [List.length_drop, tiny.length]
    norm_num
  have readable : StorageKind.buffered.Readable record ⟨0, 0, 0, 4096, 1, 0⟩ :=
    ⟨by decide, by rw [bytes, tiny.length]; norm_num, by simp, fun _ => by decide⟩
  obtain ⟨buffer, fetched, raw⟩ :=
    (@StorageKind.fetch_bytes .buffered memory record record 0 ⟨0, 0, 0, 4096, 1, 0⟩).mpr
      ⟨readable, bytes.symm⟩
  rw [openAndRead_tinyRoot, fetched, ok_bind, raw]
  exact tiny.decodes

theorem TinyRecord.readable {crc32 : Bytes → UInt32} {valid : Int} {record : Bytes}
    (tiny : TinyRecord crc32 (tinyBlock valid) record) : ReadableStore crc32 (tinyRoot record) := by
  refine ⟨tinyManifest, rfl, by simp [tinyRoot], tinySpec_storable.valid, ?_⟩
  intro entry member memory
  have only : entry = ⟨0, 0, 0, 4096, 1, 0⟩ := List.mem_singleton.mp member
  subst only
  exact ⟨_, tiny.openAndRead memory⟩

section Failures

variable (F : Type) [arith : QuantArith F] {α β : Type}
  [keyElement : TorchElement α F] [valueElement : TorchElement β F]
  (crc32 : Bytes → UInt32) (faults : Faults) (keys : Tensor α) (values : Tensor β)
  (spec : CacheSpec) (platform : Platform) (requested : Option String)

/-- Whatever readable store was there before, a failing create leaves it intact. -/
def FailureIntact : Prop :=
  ∀ prior, ReadableStore crc32 prior → ∀ raised after,
    KVCacheStore.create F crc32 faults platform keys values spec requested prior =
      .error raised after → Intact crc32 prior after

variable {F crc32 faults keys values spec platform requested}

/-- A failing create leaves every store intact exactly if it failed before it
opened the data file. -/
theorem failureIntact_iff {start after : Root} {raised : PyError}
    (fails : KVCacheStore.create F crc32 faults platform keys values spec requested start =
      .error raised after) :
    FailureIntact F crc32 faults keys values spec platform requested ↔
      EarlyFailure faults keys values spec := by
  constructor
  · intro intact
    by_contra late
    obtain ⟨tail, ignores, runs⟩ := create_eq F crc32 platform requested late
    obtain ⟨one, oneRecord⟩ := tinyRecord_exists crc32 (by decide : FitsU32 1)
    obtain ⟨zero, zeroRecord⟩ := tinyRecord_exists crc32 (by decide : FitsU32 0)
    have same := ignores { start with blocks := some [] }
      { tinyRoot one with blocks := some [] } rfl
    rw [← runs, fails, ← runs (tinyRoot one)] at same
    cases outcome : KVCacheStore.create F crc32 faults platform keys values spec requested
        (tinyRoot one) with
    | ok store root =>
        rw [outcome] at same
        exact same.elim
    | error raised' root =>
        have other : KVCacheStore.create F crc32 faults platform keys values spec
            requested (tinyRoot zero) = .error raised' root := by
          rw [← outcome, runs, runs]
          rfl
        have oneKept := intact _ oneRecord.readable _ _ outcome zeroMemory
          portablePlatform (some "buffered") 0 0 true
        have zeroKept := intact _ zeroRecord.readable _ _ other zeroMemory
          portablePlatform (some "buffered") 0 0 true
        rw [oneRecord.openAndRead] at oneKept
        rw [zeroRecord.openAndRead, oneKept] at zeroKept
        cases zeroKept
  · intro early prior _ raised after failed
    obtain ⟨raised', kept⟩ := create_early F crc32 platform requested early prior
    rw [kept] at failed
    cases failed
    intro memory platform requested layer block verifyCrc
    rfl

end Failures

/-- One token of integers: the checks of `create` do not look at the element
type, `quantize_tensor` does. -/
def integerKeys : Tensor Int := ⟨[1, 1, 1, 2], [0, 0], by decide⟩

theorem create_integerKeys (crc32 : Bytes → UInt32) (root : Root) :
    KVCacheStore.create ℚ crc32 noFaults portablePlatform integerKeys
        integerKeys tinySpec none root =
      .error (.typeError "quantization input must be floating point")
        { root with blocks := some [] } := rfl

theorem failureIntact_iff_integerKeys :
    FailureIntact ℚ Zlib.crc32 noFaults integerKeys integerKeys tinySpec
        portablePlatform none ↔
      EarlyFailure noFaults integerKeys integerKeys tinySpec :=
  failureIntact_iff (create_integerKeys Zlib.crc32 ⟨none, none⟩)

/-- Creating a store from integer tensors fails and takes the records of the
store that was there. -/
theorem failingCreate_destroys_store :
    ∃ prior raised after, ReadableStore Zlib.crc32 prior ∧
      KVCacheStore.create ℚ Zlib.crc32 noFaults portablePlatform
        integerKeys integerKeys tinySpec none prior = .error raised after ∧
      ¬ Intact Zlib.crc32 prior after := by
  obtain ⟨record, tiny⟩ := tinyRecord_exists Zlib.crc32 (by decide : FitsU32 1)
  refine ⟨tinyRoot record, _, _, tiny.readable,
    create_integerKeys Zlib.crc32 (tinyRoot record), ?_⟩
  intro intact
  have kept := intact zeroMemory portablePlatform (some "buffered") 0 0 true
  rw [tiny.openAndRead] at kept
  have emptied := openAndRead_tinyRoot Zlib.crc32 zeroMemory []
  obtain ⟨buffer, fetched, _⟩ := bind_eq_ok.mp (emptied.symm.trans kept)
  have readable := (StorageKind.fetch_bytes.mp ⟨buffer, fetched, rfl⟩).1
  have whole := readable.whole
  rw [StorageKind.place_length] at whole
  simp [recordAt] at whole

end KVSSD

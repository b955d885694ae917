import KVSSD.Storage

/-!
# The store

`KVCacheStore`: creating a store from key and value tensors, opening it, and
reading blocks.  `create` runs against the directory of the store, and every
call it makes to the file system may fail; a failing write leaves a front part
of what it was given.  An exception does not undo what was written before it.
-/

namespace KVSSD

open KVSSD.Python KVSSD.Struct

/-- The text of `manifest.json`: a saved manifest, or text that `Manifest.load`
refuses. -/
inductive ManifestText where
  | saved (manifest : Manifest)
  | refused (raised : PyError)
  deriving DecidableEq

def Manifest.load : Option ManifestText → Except PyError Manifest
  | none => .error (.osError "No such file or directory")
  | some (.saved manifest) => .ok manifest
  | some (.refused raised) => .error raised

/-- The directory of a store. -/
structure Root where
  manifest : Option ManifestText
  blocks : Option Bytes
  deriving DecidableEq

/-- A computation on the directory of a store. -/
abbrev RootM (α : Type) : Type := EStateM PyError Root α

/-- A computation that does not touch the directory. -/
def RootM.lift {α : Type} (result : Except PyError α) : RootM α :=
  match result with
  | .ok value => pure value
  | .error raised => throw raised

namespace RootM

variable {α β : Type}

@[simp] theorem run_pure (value : α) (root : Root) :
    (pure value : RootM α) root = .ok value root := rfl

@[simp] theorem run_get (root : Root) : (get : RootM Root) root = .ok root root := rfl

@[simp] theorem run_set (next root : Root) :
    (set next : RootM PUnit) root = .ok ⟨⟩ next := rfl

@[simp] theorem run_modify (change : Root → Root) (root : Root) :
    (modify change : RootM PUnit) root = .ok ⟨⟩ (change root) := rfl

@[simp] theorem run_lift_ok (value : α) (root : Root) :
    (RootM.lift (.ok value)) root = .ok value root := rfl

theorem run_bind {first : RootM α} {next : α → RootM β} {value : α} {root after : Root}
    (runs : first root = .ok value after) : (first >>= next) root = next value after := by
  change EStateM.bind first next root = next value after
  simp only [EStateM.bind, runs]

theorem bind_eq_ok {first : RootM α} {next : α → RootM β} {result : β} {root after : Root} :
    (first >>= next) root = .ok result after ↔
      ∃ value middle, first root = .ok value middle ∧ next value middle = .ok result after := by
  change EStateM.bind first next root = .ok result after ↔ _
  rw [EStateM.bind]
  cases first root with
  | error raised middle => simp
  | ok value middle => simp

theorem lift_eq_ok {outcome : Except PyError α} {result : α} {root after : Root} :
    RootM.lift outcome root = .ok result after ↔ outcome = .ok result ∧ root = after := by
  cases outcome with
  | error raised =>
      constructor
      · intro success
        cases success
      · rintro ⟨success, _⟩
        cases success
  | ok value =>
      rw [run_lift_ok]
      simp

/-- What every round of a loop preserves holds when the loop returns. -/
theorem foldlM_invariant {step : β → α → RootM β} (holds : β → Root → Prop) {items : List α}
    (preserved : ∀ item ∈ items, ∀ state root next after, holds state root →
      step state item root = .ok next after → holds next after)
    {initial result : β} {root after : Root} (initially : holds initial root)
    (returns : items.foldlM step initial root = .ok result after) : holds result after := by
  induction items generalizing initial root with
  | nil =>
      cases returns
      exact initially
  | cons item items induction =>
      rw [List.foldlM_cons] at returns
      obtain ⟨next, middle, happens, rest⟩ := bind_eq_ok.mp returns
      apply induction
      · intro other member
        exact preserved other (List.mem_cons_of_mem _ member)
      · exact preserved item List.mem_cons_self _ _ _ _ initially happens
      · exact rest

end RootM

/-- The calls of `create` to the file system. -/
inductive FileCall where
  | mkdir
  | openData
  | writeRecord (index : Nat)
  | closeData
  | openManifest
  | writeManifest
  deriving DecidableEq

/-- A failing call: what it raises, and for a write or a close how many bytes
are in the file afterwards. -/
structure Fault where
  raised : PyError
  written : Nat

abbrev Faults : Type := FileCall → Option Fault

/-- A call that fails without an effect. -/
def FileCall.attempt (faults : Faults) (call : FileCall) : RootM Unit :=
  match faults call with
  | none => pure ()
  | some fault => throw fault.raised

structure KVCacheStore where
  manifest : Manifest
  kind : StorageKind
  deriving DecidableEq

namespace KVCacheStore

def spec (store : KVCacheStore) : CacheSpec := store.manifest.spec

/-- `KVCacheStore(root, manifest, storage_backend)`. -/
def construct (platform : Platform) (root : Root) (manifest : Manifest)
    (requested : Option String) : Except PyError KVCacheStore := do
  let kind ← resolveStorageBackend platform root.blocks.isSome requested
  return ⟨manifest, kind⟩

/-- `KVCacheStore.open`. -/
def openRoot (platform : Platform) (root : Root)
    (requested : Option String) : Except PyError KVCacheStore := do
  let manifest ← Manifest.load root.manifest
  manifest.spec.validate
  construct platform root manifest requested

/-- `_entries[(layer, block)]`: a later entry replaces an earlier one. -/
def entry (store : KVCacheStore) (layer block : Int) : Except PyError BlockEntry :=
  match store.manifest.entries.reverse.find? fun item =>
      item.layer == layer && item.block == block with
  | some item => .ok item
  | none => .error (.keyError s!"no KV block layer={layer}, block={block}")

def blocksForLayer (store : KVCacheStore) (layer : Int) : List Int :=
  ((store.manifest.entries.filter fun item => item.layer == layer).map
    fun item => item.block).mergeSort (· ≤ ·)

/-- The backend of the store over the data file of its directory. -/
def backend (store : KVCacheStore) (memory : Memory) (root : Root) :
    Except PyError StorageBackend :=
  match root.blocks with
  | some file => .ok (store.kind.backend memory file)
  | none => .error (.osError "No such file or directory")

/-- `read`, at a position of the backend's descriptor. -/
def read (crc32 : Bytes → UInt32) (memory : Memory) (root : Root) (position : Nat)
    (store : KVCacheStore) (layer block : Int) (verifyCrc : Bool) :
    Except PyError PackedKVBlock := do
  let entry ← store.entry layer block
  let backend ← store.backend memory root
  let raw ← backend.fetch position entry
  decodeRecord crc32 raw.bytes store.spec verifyCrc

/-- The block that the bytes at the entry of a block decode to. -/
def stored (crc32 : Bytes → UInt32) (file : Bytes) (store : KVCacheStore) (layer block : Int) :
    Except PyError PackedKVBlock := do
  let entry ← store.entry layer block
  decodeRecord crc32 (recordAt file entry) store.spec true

end KVCacheStore

/-- A record is read in one transfer.  `cuFileRead` is not bounded by what `preadv` moves. -/
def StorageKind.MovesRecords (kind : StorageKind) (spec : CacheSpec) : Prop :=
  kind ≠ .gds → spec.recordBytes ≤ maxTransfer

instance (kind : StorageKind) (spec : CacheSpec) : Decidable (kind.MovesRecords spec) :=
  inferInstanceAs (Decidable (_ → _))

theorem entry_identity {store : KVCacheStore} {layer block : Int} {entry : BlockEntry}
    (listed : store.entry layer block = .ok entry) :
    entry.layer = layer ∧ entry.block = block := by
  unfold KVCacheStore.entry at listed
  split at listed
  · rename_i item found
    cases listed
    simpa using List.find?_some found
  · cases listed

theorem entry_mem {store : KVCacheStore} {layer block : Int} {entry : BlockEntry}
    (listed : store.entry layer block = .ok entry) : entry ∈ store.manifest.entries := by
  unfold KVCacheStore.entry at listed
  split at listed
  · rename_i item found
    cases listed
    exact List.mem_reverse.mp (List.mem_of_find?_eq_some found)
  · cases listed

/-- The place of one block: its layer, its number and its first token. -/
structure BlockIndex where
  layer : Nat
  block : Nat
  start : Nat
  deriving DecidableEq, Repr

/-- The blocks of `create` in the order of its two loops. -/
def blockIndices (layers tokens blockTokens : Nat) : List BlockIndex :=
  (List.range layers).flatMap fun layer =>
    (pyRange tokens blockTokens).zipIdx.map fun (start, block) =>
      ⟨layer, block, start⟩

/-- `keys.shape[1]`. -/
def tokenCount {α : Type} (keys : Tensor α) : Nat := keys.shape.getD 1 0

/-- `min(spec.block_tokens, keys.shape[1] - start)`. -/
def validTokens (spec : CacheSpec) (tokens start : Nat) : Int :=
  min spec.blockTokens (tokens - start)

/-- A zeroed block whose front is copied from one layer of a tensor. -/
def paddedBlock (F : Type) {α : Type} [element : TorchElement α F]
    (tensor : Tensor α) (spec : CacheSpec) (valid : Int) (index : BlockIndex) :
    Except PyError (Tensor α) := do
  let layer ← tensor.select0 index.layer
  (Tensor.full (spec.blockShape.map Int.toNat) element.zero).copyInto0 valid
    (layer.slice0 index.start (index.start + valid))

section Create

variable (F : Type) [arith : QuantArith F] {α β : Type}
  [keyElement : TorchElement α F] [valueElement : TorchElement β F]

/-- The quantized block at an index. -/
def packBlock (keys : Tensor α) (values : Tensor β) (spec : CacheSpec)
    (index : BlockIndex) : Except PyError PackedKVBlock := do
  let valid := validTokens spec (tokenCount keys) index.start
  let k ← paddedBlock F keys spec valid index
  let v ← paddedBlock F values spec valid index
  let key ← quantizeTensor F k spec.bits spec.groupSize
  let value ← quantizeTensor F v spec.bits spec.groupSize
  return ⟨index.layer, index.block, valid, key, value⟩

variable (crc32 : Bytes → UInt32) (faults : Faults)

/-- `output.write(record)` for the record of a given number. -/
def writeRecord (index : Nat) (record : Bytes) : RootM Unit := do
  let root ← get
  let file := root.blocks.getD []
  match faults (.writeRecord index) with
  | none => set { root with blocks := some (file ++ record) }
  | some fault =>
      set { root with blocks := some (file ++ record.take fault.written) }
      throw fault.raised

/-- One round of the inner loop. -/
def writeBlock (keys : Tensor α) (values : Tensor β) (spec : CacheSpec)
    (entries : List BlockEntry) (index : BlockIndex) :
    RootM (List BlockEntry) := do
  let packed ← RootM.lift (packBlock F keys values spec index)
  let (record, crc) ← RootM.lift (encodeRecord crc32 packed spec)
  let offset := ((← get).blocks.getD []).length
  writeRecord faults entries.length record
  return entries ++
    [⟨index.layer, index.block, offset, record.length, packed.validTokens, crc⟩]

/-- Leaving the `with` block of the data file: the file is closed also when the
body raised, and a failing close keeps a front part of what was written. -/
def closeData {γ : Type} (body : RootM γ) : RootM γ := fun root =>
  match faults .closeData with
  | none => body root
  | some fault =>
      let written := match body root with
        | .ok _ root => root
        | .error _ root => root
      .error fault.raised
        { written with blocks := written.blocks.map (·.take fault.written) }

/-- `Manifest.save`: opening the file for writing truncates it. -/
def Manifest.save (manifest : Manifest) : RootM Unit := do
  FileCall.attempt faults .openManifest
  let root ← get
  match faults .writeManifest with
  | none => set { root with manifest := some (.saved manifest) }
  | some fault =>
      set { root with manifest := some (.refused (.valueError "JSONDecodeError")) }
      throw fault.raised

/-- The argument checks of `create`. -/
def checkArguments (keys : Tensor α) (values : Tensor β) (spec : CacheSpec) :
    Except PyError Unit := do
  spec.validate
  if keys.shape ≠ values.shape ∨ keys.shape.length ≠ 4 then
    .error (.valueError
      "keys and values must share [layers,tokens,kv_heads,head_dim]")
  else if (keys.shape.headD 0 : Int) ≠ spec.layers ∨
      (keys.shape.drop 2).map Int.ofNat ≠ [spec.kvHeads, spec.headDim] then
    .error (.valueError "input tensors do not match CacheSpec")
  else .ok ()

/-- `KVCacheStore.create`. -/
def KVCacheStore.create (platform : Platform) (keys : Tensor α)
    (values : Tensor β) (spec : CacheSpec) (requested : Option String) :
    RootM KVCacheStore := do
  RootM.lift (checkArguments keys values spec)
  FileCall.attempt faults .mkdir
  FileCall.attempt faults .openData
  modify fun root => { root with blocks := some [] }
  let entries ← closeData faults
    ((blockIndices spec.layers.toNat (tokenCount keys)
      spec.blockTokens.toNat).foldlM (writeBlock F crc32 faults keys values spec) [])
  let manifest : Manifest := ⟨spec, entries, 1⟩
  manifest.save faults
  RootM.lift (KVCacheStore.construct platform (← get) manifest requested)

end Create

end KVSSD

import KVSSD.CreateFailure
import KVSSD.ManifestFile

/-!
# The files of a store

`create` with the manifest as the text that it writes.  A write that fails, or a process that ends
in it, leaves a front part of the text.  Read through `Manifest.load`, the directory is one that
`create` leaves: with the same failing calls, or without any where only the last line end of the
manifest is missing.
-/

namespace KVSSD

open KVSSD.Python KVSSD.Struct

/-- The directory of a store, its manifest as a text. -/
structure StoreFiles where
  manifest : Option (List Char)
  blocks : Option Bytes

/-- The directory through `Manifest.load`; a manifest with a field that is no integer has no
counterpart. -/
def StoreFiles.root (files : StoreFiles) : Option Root :=
  match files.manifest with
  | none => some ⟨none, files.blocks⟩
  | some text =>
      match Manifest.loadText text with
      | .ok (some manifest) => some ⟨some (.saved manifest), files.blocks⟩
      | .ok none => none
      | .error raised => some ⟨some (.refused raised), files.blocks⟩

abbrev FilesM (α : Type) : Type := EStateM PyError StoreFiles α

/-- A computation that uses the data file only. -/
def FilesM.onBlocks {α : Type} (body : RootM α) : FilesM α := fun files =>
  match body ⟨none, files.blocks⟩ with
  | .ok value root => .ok value { files with blocks := root.blocks }
  | .error raised root => .error raised { files with blocks := root.blocks }

section Create

variable (F : Type) [arith : QuantArith F] {α β : Type}
  [keyElement : TorchElement α F] [valueElement : TorchElement β F]
  (crc32 : Bytes → UInt32) (faults : Faults)

/-- `create` up to the end of the `with` block. -/
def createBlocks (keys : Tensor α) (values : Tensor β) (spec : CacheSpec) :
    RootM (List BlockEntry) := do
  RootM.lift (checkArguments keys values spec)
  FileCall.attempt faults .mkdir
  FileCall.attempt faults .openData
  modify fun root => { root with blocks := some [] }
  closeData faults
    ((blockIndices spec.layers.toNat (tokenCount keys)
      spec.blockTokens.toNat).foldlM (writeBlock F crc32 faults keys values spec) [])

/-- `path.write_text(...)`: opening the file truncates it. -/
def Manifest.saveText (manifest : Manifest) : FilesM Unit := do
  FilesM.onBlocks (FileCall.attempt faults .openManifest)
  let files ← get
  match faults .writeManifest with
  | none => set { files with manifest := some manifest.text }
  | some fault =>
      set { files with manifest := some (manifest.text.take fault.written) }
      throw fault.raised

/-- `KVCacheStore.create` on the files of the directory. -/
def KVCacheStore.createFiles (platform : Platform) (keys : Tensor α)
    (values : Tensor β) (spec : CacheSpec) (requested : Option String) :
    FilesM KVCacheStore := do
  let entries ← FilesM.onBlocks (createBlocks F crc32 faults keys values spec)
  let manifest : Manifest := ⟨spec, entries, 1⟩
  manifest.saveText faults
  FilesM.onBlocks do RootM.lift (KVCacheStore.construct platform (← get) manifest requested)

end Create

/-- What a computation leaves, whether it returns or raises. -/
def left {σ α : Type} : EStateM.Result PyError σ α → σ
  | .ok _ state => state
  | .error _ state => state

/-- What a computation returns or raises. -/
def outcome {σ α : Type} : EStateM.Result PyError σ α → Except PyError α
  | .ok value _ => .ok value
  | .error raised _ => .error raised

/-- A computation that does not write the manifest. -/
def KeepsManifest {α : Type} (body : RootM α) : Prop :=
  ∀ root, (left (body root)).manifest = root.manifest

namespace KeepsManifest

variable {α β : Type}

theorem pure (value : α) : KeepsManifest (Pure.pure value : RootM α) := fun _ => rfl

theorem throw (raised : PyError) : KeepsManifest (throw raised : RootM α) := fun _ => rfl

theorem lift (result : Except PyError α) : KeepsManifest (RootM.lift result) := by
  cases result with
  | ok value => exact pure value
  | error raised => exact throw raised

theorem bind {body : RootM α} {next : α → RootM β} (first : KeepsManifest body)
    (rest : ∀ value, KeepsManifest (next value)) : KeepsManifest (body >>= next) := by
  intro root
  have kept := first root
  simp only [Bind.bind, EStateM.bind]
  cases result : body root with
  | ok value middle =>
      rw [result] at kept
      exact (rest value middle).trans kept
  | error raised middle =>
      rw [result] at kept
      exact kept

theorem get {next : Root → RootM α} (rest : ∀ value, KeepsManifest (next value)) :
    KeepsManifest (MonadState.get >>= next) :=
  fun root => rest root root

theorem foldlM {γ : Type} {step : β → γ → RootM β}
    (keeps : ∀ state item, KeepsManifest (step state item)) (items : List γ) (state : β) :
    KeepsManifest (items.foldlM step state) := by
  induction items generalizing state with
  | nil => exact pure state
  | cons item items induction =>
      rw [List.foldlM_cons]
      exact bind (keeps state item) induction

end KeepsManifest

section Parts

variable {F : Type} [arith : QuantArith F] {α β : Type}
  [keyElement : TorchElement α F] [valueElement : TorchElement β F]
  {crc32 : Bytes → UInt32} {faults : Faults} {keys : Tensor α} {values : Tensor β}
  {spec : CacheSpec}

theorem attempt_keepsManifest (call : FileCall) :
    KeepsManifest (FileCall.attempt faults call) := by
  unfold FileCall.attempt
  cases faults call with
  | none => exact .pure ()
  | some fault => exact .throw fault.raised

theorem writeRecord_keepsManifest (index : Nat) (record : Bytes) :
    KeepsManifest (writeRecord faults index record) := by
  intro root
  rw [writeRecord, RootM.run_bind (RootM.run_get root)]
  cases faults (.writeRecord index) with
  | none => rfl
  | some fault => rfl

theorem writeBlock_keepsManifest (entries : List BlockEntry) (index : BlockIndex) :
    KeepsManifest (writeBlock F crc32 faults keys values spec entries index) := by
  refine .bind (.lift _) fun packed => ?_
  refine .bind (.lift _) fun encoded => ?_
  refine .get fun root => ?_
  exact .bind (writeRecord_keepsManifest _ _) fun _ => .pure _

theorem closeData_keepsManifest {γ : Type} {body : RootM γ} (keeps : KeepsManifest body) :
    KeepsManifest (closeData faults body) := by
  intro root
  have kept := keeps root
  unfold closeData
  cases faults .closeData with
  | none => exact kept
  | some fault =>
      cases result : body root with
      | ok value written =>
          rw [result] at kept
          exact kept
      | error raised written =>
          rw [result] at kept
          exact kept

theorem createBlocks_keepsManifest :
    KeepsManifest (createBlocks F crc32 faults keys values spec) := by
  refine .bind (.lift _) fun _ => ?_
  refine .bind (attempt_keepsManifest _) fun _ => ?_
  refine .bind (attempt_keepsManifest _) fun _ => ?_
  refine .bind (fun _ => rfl) fun _ => ?_
  exact closeData_keepsManifest (.foldlM writeBlock_keepsManifest _ _)

theorem createBlocks_ignoresManifest :
    IgnoresManifest (createBlocks F crc32 faults keys values spec) := by
  refine .bind (.lift _) fun _ => ?_
  refine .bind (attempt_ignoresManifest _) fun _ => ?_
  refine .bind (attempt_ignoresManifest _) fun _ => ?_
  refine .bind (fun _ _ _ => ⟨rfl, rfl⟩) fun _ => ?_
  exact closeData_ignoresManifest (.foldlM writeBlock_ignoresManifest _ _)

theorem attempt_ok {call : FileCall} {root after : Root}
    (returns : FileCall.attempt faults call root = .ok () after) : after = root := by
  rw [FileCall.attempt] at returns
  cases fault : faults call with
  | none =>
      rw [fault] at returns
      cases returns
      rfl
  | some fault' =>
      rw [fault] at returns
      cases returns

theorem closeData_ok {γ : Type} {body : RootM γ} {value : γ} {root after : Root}
    (returns : closeData faults body root = .ok value after) : body root = .ok value after := by
  unfold closeData at returns
  cases fault : faults .closeData with
  | none =>
      rw [fault] at returns
      exact returns
  | some fault' =>
      rw [fault] at returns
      cases returns

theorem writeRecord_noFaults {index : Nat} {record : Bytes} {root after : Root}
    (returns : writeRecord faults index record root = .ok () after) :
    writeRecord noFaults index record root = .ok () after := by
  rw [writeRecord, RootM.run_bind (RootM.run_get root)] at returns ⊢
  cases fault : faults (.writeRecord index) with
  | none =>
      rw [fault] at returns
      exact returns
  | some fault' =>
      rw [fault] at returns
      cases returns

theorem writeBlock_noFaults {entries next : List BlockEntry} {index : BlockIndex}
    {root after : Root}
    (returns : writeBlock F crc32 faults keys values spec entries index root = .ok next after) :
    writeBlock F crc32 noFaults keys values spec entries index root = .ok next after := by
  obtain ⟨packed, _, packs, returns⟩ := RootM.bind_eq_ok.mp returns
  obtain ⟨encoded, _, encodes, returns⟩ := RootM.bind_eq_ok.mp returns
  obtain ⟨_, _, gets, returns⟩ := RootM.bind_eq_ok.mp returns
  obtain ⟨_, _, writes, returns⟩ := RootM.bind_eq_ok.mp returns
  exact RootM.bind_eq_ok.mpr ⟨packed, _, packs, RootM.bind_eq_ok.mpr ⟨encoded, _, encodes,
    RootM.bind_eq_ok.mpr ⟨_, _, gets, RootM.bind_eq_ok.mpr ⟨_, _, writeRecord_noFaults writes,
      returns⟩⟩⟩⟩

theorem foldlM_noFaults {indices : List BlockIndex} {entries next : List BlockEntry}
    {root after : Root}
    (returns : indices.foldlM (writeBlock F crc32 faults keys values spec) entries root =
      .ok next after) :
    indices.foldlM (writeBlock F crc32 noFaults keys values spec) entries root =
      .ok next after := by
  induction indices generalizing entries root with
  | nil => exact returns
  | cons index indices induction =>
      rw [List.foldlM_cons] at returns ⊢
      obtain ⟨_, _, writes, returns⟩ := RootM.bind_eq_ok.mp returns
      exact RootM.bind_eq_ok.mpr ⟨_, _, writeBlock_noFaults writes, induction returns⟩

theorem createBlocks_noFaults {entries : List BlockEntry} {root after : Root}
    (returns : createBlocks F crc32 faults keys values spec root = .ok entries after) :
    createBlocks F crc32 noFaults keys values spec root = .ok entries after := by
  obtain ⟨_, _, checks, rest⟩ := RootM.bind_eq_ok.mp returns
  obtain ⟨_, _, makes, rest⟩ := RootM.bind_eq_ok.mp rest
  obtain ⟨_, _, opens, rest⟩ := RootM.bind_eq_ok.mp rest
  obtain ⟨_, _, empties, loops⟩ := RootM.bind_eq_ok.mp rest
  obtain rfl := attempt_ok makes
  obtain rfl := attempt_ok opens
  exact RootM.bind_eq_ok.mpr ⟨_, _, checks, RootM.bind_eq_ok.mpr ⟨(), _, rfl,
    RootM.bind_eq_ok.mpr ⟨(), _, rfl, RootM.bind_eq_ok.mpr ⟨_, _, empties,
      foldlM_noFaults (closeData_ok loops)⟩⟩⟩⟩

end Parts

section Sequences

variable {σ α β : Type} {first : EStateM PyError σ α} {next : α → EStateM PyError σ β}
  {state after : σ}

theorem run_bind_ok {value : α} (runs : first state = .ok value after) :
    (first >>= next) state = next value after := by
  change EStateM.bind first next state = _
  rw [EStateM.bind, runs]

theorem run_bind_error {raised : PyError} (runs : first state = .error raised after) :
    (first >>= next) state = .error raised after := by
  change EStateM.bind first next state = _
  rw [EStateM.bind, runs]

end Sequences

section Refinement

variable {F : Type} [arith : QuantArith F] {α β : Type}
  [keyElement : TorchElement α F] [valueElement : TorchElement β F]
  {crc32 : Bytes → UInt32} {faults : Faults} {keys : Tensor α} {values : Tensor β}
  {spec : CacheSpec} {platform : Platform} {requested : Option String}
  {files : StoreFiles} {root : Root}

theorem StoreFiles.blocks_of_root (same : files.root = some root) :
    root.blocks = files.blocks := by
  unfold StoreFiles.root at same
  repeat' split at same
  all_goals cases same
  all_goals rfl

theorem StoreFiles.root_with_blocks (same : files.root = some root) (blocks : Option Bytes) :
    ({ files with blocks := blocks } : StoreFiles).root = some { root with blocks := blocks } := by
  obtain ⟨manifest, old⟩ := files
  unfold StoreFiles.root at same ⊢
  cases manifest with
  | none =>
      cases same
      rfl
  | some text =>
      dsimp only at same ⊢
      repeat' split at same
      all_goals cases same
      all_goals rfl

/-- The same outcome, and what is left is the same through `load`; what raises may leave an
undisturbed directory in its place. -/
inductive Refines {γ : Type} (undisturbed : Root) :
    EStateM.Result PyError StoreFiles γ → EStateM.Result PyError Root γ → Prop where
  | ok (value : γ) {files : StoreFiles} {root : Root} (same : files.root = some root) :
      Refines undisturbed (.ok value files) (.ok value root)
  | error (raised : PyError) {files : StoreFiles} {root : Root} (same : files.root = some root) :
      Refines undisturbed (.error raised files) (.error raised root)
  | whole (raised : PyError) {files : StoreFiles} {root : Root}
      (same : files.root = some undisturbed) :
      Refines undisturbed (.error raised files) (.error raised root)

theorem Refines.bind {γ δ : Type} {undisturbed : Root} {first : FilesM γ} {first' : RootM γ}
    {next : γ → FilesM δ} {next' : γ → RootM δ}
    (start : Refines undisturbed (first files) (first' root))
    (rest : ∀ value files' root', first' root = .ok value root' → files'.root = some root' →
      Refines undisturbed (next value files') (next' value root')) :
    Refines undisturbed ((first >>= next) files) ((first' >>= next') root) := by
  generalize concrete : first files = result at start
  generalize abstract : first' root = result' at start
  cases start with
  | ok value same =>
      rw [run_bind_ok concrete, run_bind_ok abstract]
      exact rest value _ _ abstract same
  | error raised same =>
      rw [run_bind_error concrete, run_bind_error abstract]
      exact .error raised same
  | whole raised same =>
      rw [run_bind_error concrete, run_bind_error abstract]
      exact .whole raised same

theorem onBlocks_refines {γ : Type} {undisturbed : Root} {body : RootM γ}
    (ignores : IgnoresManifest body) (keeps : KeepsManifest body) (same : files.root = some root) :
    Refines undisturbed (FilesM.onBlocks body files) (body root) := by
  have alike := ignores ⟨none, files.blocks⟩ root (StoreFiles.blocks_of_root same).symm
  have kept := keeps root
  unfold FilesM.onBlocks
  cases concrete : body ⟨none, files.blocks⟩ with
  | ok value middle =>
      cases abstract : body root with
      | ok value' after =>
          rw [concrete, abstract] at alike
          rw [abstract] at kept
          obtain ⟨rfl, blocks⟩ := alike
          obtain ⟨manifest, _⟩ := after
          obtain rfl : manifest = root.manifest := kept
          obtain rfl := blocks
          exact .ok value (StoreFiles.root_with_blocks same _)
      | error raised after =>
          rw [concrete, abstract] at alike
          exact alike.elim
  | error raised middle =>
      cases abstract : body root with
      | ok value after =>
          rw [concrete, abstract] at alike
          exact alike.elim
      | error raised' after =>
          rw [concrete, abstract] at alike
          rw [abstract] at kept
          obtain ⟨rfl, blocks⟩ := alike
          obtain ⟨manifest, _⟩ := after
          obtain rfl : manifest = root.manifest := kept
          obtain rfl := blocks
          exact .error raised (StoreFiles.root_with_blocks same _)

theorem root_of_whole (manifest : Manifest) (blocks : Option Bytes) {count : Nat}
    (whole : manifest.text.length ≤ count + 1) :
    (⟨some (manifest.text.take count), blocks⟩ : StoreFiles).root =
      some ⟨some (.saved manifest), blocks⟩ := by
  have loads := manifest.loadText_take count
  rw [if_pos whole] at loads
  simp only [StoreFiles.root, loads]

theorem root_of_torn (manifest : Manifest) (blocks : Option Bytes) {count : Nat}
    (torn : ¬ manifest.text.length ≤ count + 1) :
    (⟨some (manifest.text.take count), blocks⟩ : StoreFiles).root =
      some ⟨some (.refused (.valueError "JSONDecodeError")), blocks⟩ := by
  have loads := manifest.loadText_take count
  rw [if_neg torn] at loads
  simp only [StoreFiles.root, loads]

variable (faults) in
theorem saveText_run (manifest : Manifest) (files : StoreFiles) :
    manifest.saveText faults files =
      match faults .openManifest, faults .writeManifest with
      | some fault, _ => .error fault.raised files
      | none, none => .ok () { files with manifest := some manifest.text }
      | none, some fault =>
          .error fault.raised
            { files with manifest := some (manifest.text.take fault.written) } := by
  unfold Manifest.saveText FileCall.attempt
  cases faults .openManifest with
  | some fault => rfl
  | none =>
      cases faults .writeManifest with
      | none => rfl
      | some fault => rfl

variable (faults) in
theorem save_run (manifest : Manifest) (root : Root) :
    manifest.save faults root =
      match faults .openManifest, faults .writeManifest with
      | some fault, _ => .error fault.raised root
      | none, none => .ok () { root with manifest := some (.saved manifest) }
      | none, some fault => .error fault.raised
          { root with manifest := some (.refused (.valueError "JSONDecodeError")) } := by
  unfold Manifest.save FileCall.attempt
  cases faults .openManifest with
  | some fault => rfl
  | none =>
      cases faults .writeManifest with
      | none => rfl
      | some fault => rfl

theorem saveText_refines (manifest : Manifest) (same : files.root = some root) :
    Refines { root with manifest := some (.saved manifest) } (manifest.saveText faults files)
      (manifest.save faults root) := by
  rw [saveText_run, save_run, StoreFiles.blocks_of_root same]
  cases faults .openManifest with
  | some fault => exact .error fault.raised same
  | none =>
      cases faults .writeManifest with
      | none =>
          have whole := root_of_whole manifest files.blocks (Nat.le_succ _)
          rw [List.take_length] at whole
          exact .ok () whole
      | some fault =>
          by_cases whole : manifest.text.length ≤ fault.written + 1
          · exact .whole fault.raised (root_of_whole manifest files.blocks whole)
          · exact .error fault.raised (root_of_torn manifest files.blocks whole)

theorem construct_run (manifest : Manifest) (root : Root) :
    (do RootM.lift (KVCacheStore.construct platform (← get) manifest requested) :
      RootM KVCacheStore) root =
      match KVCacheStore.construct platform root manifest requested with
      | .ok store => .ok store root
      | .error raised => .error raised root := by
  rw [RootM.run_bind (RootM.run_get root)]
  cases KVCacheStore.construct platform root manifest requested with
  | ok store => rfl
  | error raised => rfl

theorem construct_left (manifest : Manifest) (root : Root) :
    left ((do RootM.lift (KVCacheStore.construct platform (← get) manifest requested) :
      RootM KVCacheStore) root) = root := by
  rw [construct_run]
  cases KVCacheStore.construct platform root manifest requested with
  | ok store => rfl
  | error raised => rfl

variable (faults) in
theorem create_eq_createBlocks :
    KVCacheStore.create F crc32 faults platform keys values spec requested =
      createBlocks F crc32 faults keys values spec >>= fun entries => (do
        (⟨spec, entries, 1⟩ : Manifest).save faults
        RootM.lift (KVCacheStore.construct platform (← get) ⟨spec, entries, 1⟩ requested)) := by
  unfold KVCacheStore.create createBlocks
  simp only [bind_assoc]

theorem construct_refines {undisturbed : Root} (manifest : Manifest)
    (same : files.root = some root) :
    Refines undisturbed
      (FilesM.onBlocks
        (do RootM.lift (KVCacheStore.construct platform (← get) manifest requested)) files)
      ((do RootM.lift (KVCacheStore.construct platform (← get) manifest requested) :
        RootM KVCacheStore) root) := by
  refine onBlocks_refines (.get fun first second blocks => ?_) (.get fun _ => .lift _) same
  have constructed : KVCacheStore.construct platform first manifest requested =
      KVCacheStore.construct platform second manifest requested := by
    rw [KVCacheStore.construct, KVCacheStore.construct, blocks]
  rw [constructed]
  exact IgnoresManifest.lift _ first second blocks

theorem left_create_noFaults {entries : List BlockEntry} {middle : Root}
    (returns : createBlocks F crc32 faults keys values spec root = .ok entries middle) :
    left (KVCacheStore.create F crc32 noFaults platform keys values spec requested root) =
      { middle with manifest := some (.saved ⟨spec, entries, 1⟩) } := by
  rw [create_eq_createBlocks, run_bind_ok (createBlocks_noFaults returns),
    run_bind_ok (save_noFaults _ middle)]
  exact construct_left _ _

variable (faults) in
/-- Whatever calls fail, `create` on the files is `create` through `load`.  The one exception is a
failing write that leaves the manifest without its last line end at most: there the directory is
what `create` leaves when no call fails. -/
theorem createFiles_refines (same : files.root = some root) :
    Refines (left (KVCacheStore.create F crc32 noFaults platform keys values spec requested root))
      (KVCacheStore.createFiles F crc32 faults platform keys values spec requested files)
      (KVCacheStore.create F crc32 faults platform keys values spec requested root) := by
  have ignores : IgnoresManifest (createBlocks F crc32 faults keys values spec) :=
    createBlocks_ignoresManifest
  rw [create_eq_createBlocks faults, KVCacheStore.createFiles]
  refine (onBlocks_refines ignores createBlocks_keepsManifest same).bind ?_
  intro entries files' middle returns same
  rw [left_create_noFaults returns]
  refine (saveText_refines ⟨spec, entries, 1⟩ same).bind ?_
  intro _ _ _ _ same
  exact construct_refines _ same

/-- `open` raises. -/
def Unopened (root : Root) : Prop :=
  ∀ platform requested, ∃ raised, KVCacheStore.openRoot platform root requested = .error raised

theorem unopened_of_load {raised : PyError}
    (refused : Manifest.load root.manifest = .error raised) : Unopened root := by
  intro platform requested
  refine ⟨raised, ?_⟩
  rw [KVCacheStore.openRoot, refused]
  rfl

/-- The manifest that `create` leaves: the old one, a torn one, or the one of the whole store. -/
theorem left_create (root : Root) :
    let after := left (KVCacheStore.create F crc32 faults platform keys values spec requested root)
    after.manifest = root.manifest ∨ (∃ raised, after.manifest = some (.refused raised)) ∨
      after = left (KVCacheStore.create F crc32 noFaults platform keys values spec requested
        root) ∧ ∃ entries, after.manifest = some (.saved ⟨spec, entries, 1⟩) := by
  have keeps : KeepsManifest (createBlocks F crc32 faults keys values spec) :=
    createBlocks_keepsManifest
  have kept := keeps root
  dsimp only
  rw [create_eq_createBlocks faults]
  cases returns : createBlocks F crc32 faults keys values spec root with
  | error raised middle =>
      rw [returns] at kept
      rw [run_bind_error returns]
      exact .inl kept
  | ok entries middle =>
      rw [returns] at kept
      rw [run_bind_ok returns, left_create_noFaults returns]
      have saves := save_run faults ⟨spec, entries, 1⟩ middle
      cases opening : faults .openManifest with
      | some fault =>
          simp only [opening] at saves
          rw [run_bind_error saves]
          exact .inl kept
      | none =>
          cases writing : faults .writeManifest with
          | some fault =>
              simp only [opening, writing] at saves
              rw [run_bind_error saves]
              exact .inr (.inl ⟨_, rfl⟩)
          | none =>
              simp only [opening, writing] at saves
              rw [run_bind_ok saves, construct_left]
              exact .inr (.inr ⟨rfl, entries, rfl⟩)

/-- A `create` in a directory without a manifest is all or nothing, whatever fails: `open` raises,
or finds the manifest and the data file of a `create` in which nothing fails. -/
theorem createFiles_atomic (blocks : Option Bytes) :
    ∃ root, (left (KVCacheStore.createFiles F crc32 faults platform keys values spec requested
        ⟨none, blocks⟩)).root = some root ∧
      (Unopened root ∨
        root = left (KVCacheStore.create F crc32 noFaults platform keys values spec requested
          ⟨none, blocks⟩) ∧ ∃ entries, root.manifest = some (.saved ⟨spec, entries, 1⟩)) := by
  have classified : ∀ faults, let after := left (KVCacheStore.create F crc32 faults platform keys
      values spec requested ⟨none, blocks⟩)
      Unopened after ∨
        after = left (KVCacheStore.create F crc32 noFaults platform keys values spec requested
          ⟨none, blocks⟩) ∧ ∃ entries, after.manifest = some (.saved ⟨spec, entries, 1⟩) := by
    intro faults after
    have left : after.manifest = none ∨ (∃ raised, after.manifest = some (.refused raised)) ∨ _ :=
      left_create ⟨none, blocks⟩
    rcases left with old | ⟨raised, torn⟩ | whole
    · exact .inl (unopened_of_load (by rw [old, Manifest.load]))
    · exact .inl (unopened_of_load (by rw [torn, Manifest.load]))
    · exact .inr whole
  have refines : Refines (left (KVCacheStore.create F crc32 noFaults platform keys values spec
      requested ⟨none, blocks⟩)) _ _ :=
    createFiles_refines faults (rfl : (⟨none, blocks⟩ : StoreFiles).root = _)
  have refused := classified faults
  generalize KVCacheStore.createFiles F crc32 faults platform keys values spec requested
    ⟨none, blocks⟩ = concrete at refines ⊢
  generalize KVCacheStore.create F crc32 faults platform keys values spec requested
    ⟨none, blocks⟩ = abstract at refines refused
  cases refines with
  | ok value same => exact ⟨_, same, refused⟩
  | error raised same => exact ⟨_, same, refused⟩
  | whole raised same => exact ⟨_, same, classified noFaults⟩

end Refinement

end KVSSD

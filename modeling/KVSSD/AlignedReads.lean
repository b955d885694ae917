import KVSSD.StoreRoundTrip

/-!
# Aligned reads of a created store

Every record `create` writes is padded to the next multiple of the alignment, so the records lie
at aligned places of the data file, and an aligned buffer of the record size passes every check of
the direct and of the GDS backend.
-/

namespace KVSSD

open KVSSD.Python KVSSD.Struct

/-- A slice of a larger allocation. -/
structure Buffer.WindowOf (buffer owner : Buffer) (shift size : Nat) : Prop where
  device : buffer.device = owner.device
  address : buffer.address = owner.address + shift
  inside : shift + size ≤ owner.bytes.length
  bytes : buffer.bytes = (owner.bytes.drop shift).take size

/-- `_aligned_uint8` cuts an aligned window of the requested size, wherever the allocation
lies. -/
theorem alignedUInt8_window (memory : Memory) (size : Nat) :
    ∃ owner shift buffer, memory.empty (size + Format.alignment - 1) = .ok owner ∧
      alignedUInt8 memory size = .ok buffer ∧ buffer.WindowOf owner shift size ∧
      (4096 : Int) ∣ buffer.address ∧ buffer.bytes.length = size := by
  have alignment : Format.alignment = 4096 := rfl
  have room : (0 : Int) ≤ size + Format.alignment - 1 := by
    rw [alignment]
    omega
  have empty : memory.empty (size + Format.alignment - 1) =
      .ok ⟨memory.device, memory.address (size + 4095), memory.contents (size + 4095)⟩ := by
    apply Memory.empty_eq_ok.mpr
    refine ⟨room, ?_⟩
    have total : ((size : Int) + Format.alignment - 1).toNat = size + 4095 := by
      rw [alignment]
      omega
    rw [total]
  obtain ⟨shift, shiftEq, small⟩ : ∃ shift : Nat,
      (-(memory.address (size + 4095) : Int)).fmod Format.alignment = shift ∧ shift < 4096 := by
    rw [Int.fmod_eq_emod_of_nonneg _ (by norm_num [Format.alignment]), alignment]
    exact ⟨((-(memory.address (size + 4095) : Int)) % 4096).toNat, by omega, by omega⟩
  have inside : shift + size ≤ (memory.contents (size + 4095)).length := by
    rw [memory.contents_length]
    omega
  refine ⟨_, shift, ⟨memory.device, memory.address (size + 4095) + shift,
    ((memory.contents (size + 4095)).drop shift).take size⟩, empty, ?_, ?_, ?_, ?_⟩
  · unfold alignedUInt8
    rw [empty, ok_bind]
    simp only [shiftEq, pySlice_count, Int.toNat_natCast]
    rfl
  · exact ⟨rfl, rfl, inside, rfl⟩
  · have remainder := shiftEq
    rw [Int.fmod_eq_emod_of_nonneg _ (by norm_num [Format.alignment]), alignment] at remainder
    simp only [Nat.cast_add]
    omega
  · rw [List.length_take, List.length_drop]
    omega

/-- The allocations of a backend that is told a device. -/
def StorageKind.placing (kind : StorageKind) (memory : Memory) (device : Option Device) : Memory :=
  { memory with device := kind.bufferDevice device }

theorem StorageKind.allocateBuffer_aligned (memory : Memory) (file : Bytes)
    (device : Option Device) {kind : StorageKind} (aligns : kind ≠ .buffered) :
    (kind.backend memory file).allocateBuffer device =
      alignedUInt8 (kind.placing memory device) := by
  cases kind with
  | gds => rfl
  | direct => rfl
  | buffered => exact absurd rfl aligns

theorem encodeRecord_length {crc32 : Bytes → UInt32} {block : PackedKVBlock} {spec : CacheSpec}
    {record : Bytes} {checksum : Int}
    (encoded : encodeRecord crc32 block spec = .ok (record, checksum)) :
    (record.length : Int) = spec.recordBytes := by
  unfold encodeRecord at encoded
  obtain ⟨_, encoded⟩ := passes_of_check encoded
  obtain ⟨fields, _, encoded⟩ := bind_eq_ok.mp encoded
  obtain ⟨_, encoded⟩ := passes_of_check encoded
  obtain ⟨padding, encoded⟩ := passes_of_check encoded
  rw [← (Prod.mk.inj (Except.ok.inj encoded)).1, List.length_append, List.length_replicate]
  omega

theorem recordBytes_aligned (spec : CacheSpec) : (4096 : Int) ∣ spec.recordBytes :=
  (CacheSpec.alignUp_spec _).2.2

/-- The entry of a whole record at an aligned place of the file. -/
structure BlockEntry.Placed (entry : BlockEntry) (spec : CacheSpec) (file : Bytes) : Prop where
  length : entry.length = spec.recordBytes
  sized : 0 ≤ entry.length
  offset : 0 ≤ entry.offset
  aligned : (4096 : Int) ∣ entry.offset
  inside : entry.offset + entry.length ≤ file.length

/-- The entries written so far, and the next record at an aligned place. -/
structure EntriesPlaced (spec : CacheSpec) (entries : List BlockEntry) (root : Root) : Prop where
  present : root.blocks.isSome
  whole : (4096 : Int) ∣ (root.blocks.getD []).length
  placed : ∀ entry ∈ entries, entry.Placed spec (root.blocks.getD [])

section Create

variable {F : Type} [arith : QuantArith F] {α β : Type}
  [keyElement : TorchElement α F] [valueElement : TorchElement β F]
  {crc32 : Bytes → UInt32} {faults : Faults} {platform : Platform}
  {keys : Tensor α} {values : Tensor β} {spec : CacheSpec} {requested : Option String}

theorem writeRecord_eq_ok {index : Nat} {record : Bytes} {root after : Root}
    (returns : writeRecord faults index record root = .ok () after) :
    after = { root with blocks := some (root.blocks.getD [] ++ record) } := by
  unfold writeRecord at returns
  obtain ⟨_, _, ⟨⟩, returns⟩ := RootM.bind_eq_ok.mp returns
  cases fault : faults (.writeRecord index) with
  | none =>
      simp only [fault] at returns
      cases returns
      rfl
  | some fault' =>
      simp only [fault] at returns
      cases returns

/-- The step lemma: a round appends one record and its entry. -/
theorem writeBlock_placed {entries next : List BlockEntry} {index : BlockIndex}
    {root after : Root} (placed : EntriesPlaced spec entries root)
    (returns : writeBlock F crc32 faults keys values spec entries index root = .ok next after) :
    EntriesPlaced spec next after := by
  unfold writeBlock at returns
  obtain ⟨packed, _, packs, returns⟩ := RootM.bind_eq_ok.mp returns
  obtain ⟨_, rfl⟩ := RootM.lift_eq_ok.mp packs
  obtain ⟨⟨record, checksum⟩, _, encodes, returns⟩ := RootM.bind_eq_ok.mp returns
  obtain ⟨encoded, rfl⟩ := RootM.lift_eq_ok.mp encodes
  obtain ⟨_, _, ⟨⟩, returns⟩ := RootM.bind_eq_ok.mp returns
  obtain ⟨_, _, writes, returns⟩ := RootM.bind_eq_ok.mp returns
  have written := writeRecord_eq_ok writes
  cases returns
  have length := encodeRecord_length encoded
  have aligned := recordBytes_aligned spec
  have whole := placed.whole
  rw [written]
  constructor
  · rfl
  · simp only [Option.getD_some, List.length_append]
    omega
  · intro entry member
    simp only [Option.getD_some]
    rcases List.mem_append.mp member with old | new
    · have before := placed.placed entry old
      constructor
      · exact before.length
      · exact before.sized
      · exact before.offset
      · exact before.aligned
      · have inside := before.inside
        rw [List.length_append]
        omega
    · rw [List.mem_singleton.mp new]
      constructor
      · exact length
      · exact Int.natCast_nonneg _
      · exact Int.natCast_nonneg _
      · exact whole
      · simp only [List.length_append]
        omega

theorem closeData_eq_ok {γ : Type} {body : RootM γ} {result : γ} {root after : Root}
    (returns : closeData faults body root = .ok result after) : body root = .ok result after := by
  unfold closeData at returns
  cases fault : faults .closeData with
  | none => simpa only [fault] using returns
  | some fault' =>
      simp only [fault] at returns
      cases returns

theorem attempt_bind_eq_ok {call : FileCall} {γ : Type} {next : Unit → RootM γ} {result : γ}
    {root after : Root}
    (returns : (FileCall.attempt faults call >>= next) root = .ok result after) :
    next () root = .ok result after := by
  unfold FileCall.attempt at returns
  cases fault : faults call with
  | none =>
      rw [fault] at returns
      exact returns
  | some fault' =>
      rw [fault] at returns
      cases returns

theorem save_blocks {manifest : Manifest} {root after : Root}
    (returns : manifest.save faults root = .ok () after) : after.blocks = root.blocks := by
  unfold Manifest.save at returns
  obtain ⟨_, _, ⟨⟩, returns⟩ := RootM.bind_eq_ok.mp (attempt_bind_eq_ok returns)
  cases fault : faults .writeManifest with
  | none =>
      simp only [fault] at returns
      cases returns
      rfl
  | some fault' =>
      simp only [fault] at returns
      cases returns

theorem create_eq_ok {store : KVCacheStore} {root after : Root}
    (created : KVCacheStore.create F crc32 faults platform keys values spec requested root =
      .ok store after) :
    ∃ entries written, (blockIndices spec.layers.toNat (tokenCount keys)
        spec.blockTokens.toNat).foldlM (writeBlock F crc32 faults keys values spec) []
          { root with blocks := some [] } = .ok entries written ∧
      store.manifest = ⟨spec, entries, 1⟩ ∧ after.blocks = written.blocks := by
  unfold KVCacheStore.create at created
  obtain ⟨_, _, checks, created⟩ := RootM.bind_eq_ok.mp created
  obtain ⟨_, rfl⟩ := RootM.lift_eq_ok.mp checks
  have created := attempt_bind_eq_ok (attempt_bind_eq_ok created)
  obtain ⟨_, _, ⟨⟩, created⟩ := RootM.bind_eq_ok.mp created
  obtain ⟨entries, written, loops, created⟩ := RootM.bind_eq_ok.mp created
  obtain ⟨_, _, saves, created⟩ := RootM.bind_eq_ok.mp created
  obtain ⟨_, _, ⟨⟩, created⟩ := RootM.bind_eq_ok.mp created
  obtain ⟨constructed, rfl⟩ := RootM.lift_eq_ok.mp created
  obtain ⟨kind, _, built⟩ := Python.bind_eq_ok.mp constructed
  cases built
  exact ⟨entries, written, closeData_eq_ok loops, rfl, save_blocks saves⟩

theorem create_placed {store : KVCacheStore} {root after : Root}
    (created : KVCacheStore.create F crc32 faults platform keys values spec requested root =
      .ok store after) :
    ∃ file, after.blocks = some file ∧
      ∀ entry ∈ store.manifest.entries, entry.Placed spec file := by
  obtain ⟨entries, written, loops, manifest, blocks⟩ := create_eq_ok created
  have placed : EntriesPlaced spec entries written := by
    apply RootM.foldlM_invariant (EntriesPlaced spec) _ _ loops
    · intro index _ before root next after placed returns
      exact writeBlock_placed placed returns
    · constructor
      · rfl
      · exact Int.dvd_zero _
      · intro entry member
        cases member
  obtain ⟨file, present⟩ := Option.isSome_iff_exists.mp placed.present
  have entriesPlaced := placed.placed
  rw [present, Option.getD_some] at entriesPlaced
  rw [manifest]
  exact ⟨file, blocks.trans present, entriesPlaced⟩

/-- A placed entry is readable by every backend that moves records as a whole. -/
theorem BlockEntry.Placed.readable {entry : BlockEntry} {file : Bytes}
    (placed : entry.Placed spec file) {kind : StorageKind} (moves : kind.MovesRecords spec) :
    kind.Readable file entry := by
  have offset := placed.offset
  have sized := placed.sized
  have inside := placed.inside
  have length := placed.length
  constructor
  · exact offset
  · unfold recordAt
    rw [List.length_take, List.length_drop]
    omega
  · intro _
    constructor
    · exact placed.aligned
    · rw [length]
      exact recordBytes_aligned spec
  · intro other
    rw [length]
    exact moves other

/-- When `create` returns, every entry is a whole record inside the data file, and for every place
an allocation can have: the direct and the GDS backend allocate an aligned window of the record
size inside the allocation, and their reads of the entry into it pass every check.  What is left is
that one transfer may be too short for the record. -/
theorem createdStore_aligned {store : KVCacheStore} {root after : Root}
    (created : KVCacheStore.create F crc32 faults platform keys values spec requested root =
      .ok store after) :
    ∃ file, after.blocks = some file ∧ ∀ entry ∈ store.manifest.entries,
      0 ≤ entry.offset ∧ entry.offset + entry.length ≤ file.length ∧
      ∀ (memory : Memory) (kind : StorageKind) (device : Option Device), kind ≠ .buffered →
        kind.Accepts device → ∃ owner shift buffer,
          (kind.placing memory device).empty (spec.recordBytes + Format.alignment - 1) =
            .ok owner ∧
          (kind.backend memory file).allocateBuffer device spec.recordBytes = .ok buffer ∧
          buffer.WindowOf owner shift spec.recordBytes.toNat ∧
          (4096 : Int) ∣ buffer.address ∧
          (buffer.bytes.length : Int) = spec.recordBytes ∧
          ∀ position,
            (∀ raised, ((kind.backend memory file).readInto position entry buffer).2 =
              .error raised → ∃ text, raised = .eofError text) ∧
            (kind.MovesRecords spec →
              (kind.backend memory file).readInto position entry buffer =
                (buffer.fill (recordAt file entry), .ok ())) := by
  obtain ⟨file, present, placed⟩ := create_placed created
  refine ⟨file, present, ?_⟩
  intro entry member
  have here := placed entry member
  refine ⟨here.offset, here.inside, ?_⟩
  intro memory kind device aligns accepts
  obtain ⟨size, sizeEq⟩ := Int.eq_ofNat_of_zero_le (here.length ▸ here.sized)
  obtain ⟨owner, shift, buffer, owned, allocated, window, address, length⟩ :=
    alignedUInt8_window (kind.placing memory device) size
  have room : entry.length ≤ buffer.bytes.length := by
    rw [here.length, sizeEq, length]
  have serves : buffer.Serves kind entry.length := by
    constructor
    · rw [window.device, (Memory.empty_eq_ok.mp owned).2]
      exact accepts.bufferDevice
    · exact room
    · intro _
      exact address
  have alignedEntry : (4096 : Int) ∣ entry.offset ∧ (4096 : Int) ∣ entry.length :=
    ⟨here.aligned, here.length ▸ recordBytes_aligned spec⟩
  refine ⟨owner, shift, buffer, by rw [sizeEq]; exact owned, ?_, by rw [sizeEq]; exact window,
    address, by rw [sizeEq, length], ?_⟩
  · rw [StorageKind.allocateBuffer_aligned memory file device aligns, sizeEq]
    exact allocated
  · intro position
    constructor
    · intro raised fails
      exact StorageKind.readInto_raises aligns serves here.sized here.offset alignedEntry fails
    · intro moves
      have placedHere : kind.place position entry = entry :=
        StorageKind.place_of_nonneg here.offset
      refine (StorageKind.readInto_eq_ok serves here.sized).mpr ?_
      rw [placedHere]
      exact ⟨here.readable moves, rfl⟩

end Create

/-- Allocations at an odd address. -/
def oddMemory : Memory := { zeroMemory with address := fun _ => 4097 }

/-- The store of two tokens, read by the direct backend into a buffer of an odd allocation. -/
theorem createdStore_aligned_tiny : ∃ store root file,
    KVCacheStore.create ℚ Zlib.crc32 noFaults portablePlatform tinyKeys tinyKeys
        tinySpec none ⟨none, none⟩ = .ok store root ∧
      root.blocks = some file ∧
      ∀ entry ∈ store.manifest.entries, entry.offset + entry.length ≤ file.length ∧
        ∃ buffer,
          (StorageKind.direct.backend oddMemory file).allocateBuffer none tinySpec.recordBytes =
            .ok buffer ∧
          (4096 : Int) ∣ buffer.address ∧
          (StorageKind.direct.backend oddMemory file).readInto 0 entry buffer =
            (buffer.fill (recordAt file entry), .ok ()) := by
  have input : StoreInput ℚ tinyKeys tinyKeys tinySpec 2 :=
    ⟨tinySpec_storable, rfl, rfl, rfl, rfl, by decide, by decide⟩
  obtain ⟨_, store, root, created, _⟩ := create_ok Zlib.crc32 input
    (rfl : resolveStorageBackend portablePlatform true none = .ok .buffered)
    ⟨none, none⟩
  obtain ⟨file, present, placed⟩ := createdStore_aligned created
  refine ⟨store, root, file, created, present, ?_⟩
  intro entry member
  obtain ⟨_, inside, aligned⟩ := placed entry member
  obtain ⟨_, _, buffer, _, allocated, _, address, _, reads⟩ :=
    aligned oddMemory .direct none (by decide) (by decide)
  exact ⟨inside, buffer, allocated, address, (reads 0).2 (by decide)⟩

end KVSSD

import KVSSD.StoreRoundTrip

/-!
# Which block a read returns

`read` looks the entry up in the manifest, but takes the identity of the block,
its valid tokens and its checksum from the header of the record.  It returns
what the manifest promises exactly when the record of the entry agrees with it.
-/

namespace KVSSD

open KVSSD.Python KVSSD.Struct

section Read

variable {crc32 : Bytes → UInt32} {memory : Memory} {root : Root} {file : Bytes}
  {position : Nat} {store : KVCacheStore} {layer block : Int} {entry : BlockEntry}

theorem read_eq_ok (contents : root.blocks = some file)
    (listed : store.entry layer block = .ok entry) {verifyCrc : Bool}
    {result : PackedKVBlock} :
    store.read crc32 memory root position layer block verifyCrc = .ok result ↔
      store.kind.Readable file (store.kind.place position entry) ∧
        decodeRecord crc32 (recordAt file (store.kind.place position entry)) store.spec
          verifyCrc = .ok result := by
  have backend : store.backend memory root = .ok (store.kind.backend memory file) := by
    rw [KVCacheStore.backend, contents]
  rw [KVCacheStore.read, listed, ok_bind, backend, ok_bind, bind_eq_ok]
  constructor
  · rintro ⟨buffer, fetched, decoded⟩
    obtain ⟨readable, bytes⟩ := StorageKind.fetch_bytes.mp ⟨buffer, fetched, rfl⟩
    rw [bytes] at decoded
    exact ⟨readable, decoded⟩
  · rintro ⟨readable, decoded⟩
    obtain ⟨buffer, fetched, bytes⟩ :=
      (@StorageKind.fetch_bytes store.kind memory _ _ position _).mpr ⟨readable, rfl⟩
    exact ⟨buffer, fetched, by rw [bytes]; exact decoded⟩

theorem openRoot_validates {platform : Platform} {requested : Option String}
    (opened : KVCacheStore.openRoot platform root requested = .ok store) :
    store.spec.validate = .ok () := by
  obtain ⟨manifest, _, rest⟩ := bind_eq_ok.mp opened
  obtain ⟨checked, valid, rest⟩ := bind_eq_ok.mp rest
  obtain ⟨kind, _, result⟩ := bind_eq_ok.mp rest
  cases result
  exact valid

end Read

/-- A returned block is the requested one, with the tokens and the checksum its
manifest entry promises. -/
structure Promised (crc32 : Bytes → UInt32) (spec : CacheSpec) (layer block : Int)
    (entry : BlockEntry) (result : PackedKVBlock) : Prop where
  layer_eq : result.layer = layer
  block_eq : result.block = block
  valid : result.validTokens = entry.validTokens
  occupied : 1 ≤ result.validTokens ∧ result.validTokens ≤ spec.blockTokens
  checksum : ((crc32 (payload result)).toNat : Int) = entry.crc32

/-- A verified read returns the block its manifest entry promises, or raises. -/
def ReadPromised (crc32 : Bytes → UInt32) (memory : Memory) (root : Root) (position : Nat)
    (store : KVCacheStore) (layer block : Int) (entry : BlockEntry) : Prop :=
  ∀ result, store.read crc32 memory root position layer block true = .ok result →
    Promised crc32 store.spec layer block entry result

/-- The header of a record and the manifest entry agree. -/
structure HeaderAgrees (crc32 : Bytes → UInt32) (spec : CacheSpec)
    (entry : BlockEntry) (raw : Bytes) : Prop where
  layer_eq : ((Header.read raw).layer : Int) = entry.layer
  block_eq : ((Header.read raw).block : Int) = entry.block
  valid : ((Header.read raw).valid : Int) = entry.validTokens
  occupied : 1 ≤ entry.validTokens ∧ entry.validTokens ≤ spec.blockTokens
  checksum : ((crc32 ((raw.drop Format.headerSize).take spec.payloadBytes.toNat)).toNat :
    Int) = entry.crc32

/-- `decode_record` has nothing to refuse in a record. -/
structure Undetected (crc32 : Bytes → UInt32) (spec : CacheSpec) (raw : Bytes) :
    Prop where
  header : Header.Accepts raw spec
  checksum : (crc32 (Header.checkedBytes raw)).toNat = (Header.read raw).crc
  whole : Format.headerSize + spec.payloadBytes ≤ raw.length

section Decode

variable {crc32 : Bytes → UInt32} {spec : CacheSpec} {raw : Bytes} {entry : BlockEntry}

theorem decodeRecord_undetected (valid : spec.validate = .ok ())
    (undetected : Undetected crc32 spec raw) :
    ∃ block, decodeRecord crc32 raw spec true = .ok block := by
  have sized := undetected.header.layout.sized valid
  have whole : Format.headerSize + spec.payloadSize ≤ raw.length := by
    have enough := undetected.whole
    rw [sized.payloadBytes] at enough
    exact_mod_cast enough
  obtain ⟨block, decoded⟩ := decodePayload_total sized raw (Header.read raw).layer
    (Header.read raw).block (Header.read raw).valid whole
  exact ⟨block, decodeRecord_eq_ok.mpr
    ⟨undetected.header, fun _ => undetected.checksum, decoded⟩⟩

theorem undetected_of_decodeRecord (valid : spec.validate = .ok ())
    {block : PackedKVBlock} (decoded : decodeRecord crc32 raw spec true = .ok block) :
    Undetected crc32 spec raw := by
  obtain ⟨accepted, checksum, decodedPayload⟩ := decodeRecord_eq_ok.mp decoded
  have sized := accepted.layout.sized valid
  refine ⟨accepted, checksum rfl, ?_⟩
  have whole := decodePayload_whole sized accepted.whole decodedPayload
  rw [sized.payloadBytes]
  exact_mod_cast whole

/-- The promise of the manifest for a decoded block is agreement with its
header. -/
theorem promised_iff (valid : spec.validate = .ok ()) {result : PackedKVBlock}
    (decoded : decodeRecord crc32 raw spec true = .ok result) :
    Promised crc32 spec entry.layer entry.block entry result ↔
      HeaderAgrees crc32 spec entry raw := by
  obtain ⟨accepted, _, decodedPayload⟩ := decodeRecord_eq_ok.mp decoded
  have sized := accepted.layout.sized valid
  obtain ⟨_, layer, number, validTokens, bytes⟩ :=
    (decodePayload_eq_ok sized).mp decodedPayload
  have size : spec.payloadBytes.toNat = spec.payloadSize := by
    rw [sized.payloadBytes]
    rfl
  constructor
  · intro promised
    exact
      { layer_eq := layer.symm.trans promised.layer_eq
        block_eq := number.symm.trans promised.block_eq
        valid := validTokens.symm.trans promised.valid
        occupied := promised.valid ▸ promised.occupied
        checksum := by
          rw [size, ← bytes]
          exact promised.checksum }
  · intro agrees
    have valids : result.validTokens = entry.validTokens :=
      validTokens.trans agrees.valid
    exact
      { layer_eq := layer.trans agrees.layer_eq
        block_eq := number.trans agrees.block_eq
        valid := valids
        occupied := valids.symm ▸ agrees.occupied
        checksum := by
          rw [bytes, ← size]
          exact agrees.checksum }

end Decode

/-- A verified read returns what the manifest promises, or raises, exactly when
the record at the place where the read starts cannot be read, is refused by the
decoder, or agrees with the entry.  That place is the offset of the entry, and
for a buffered read at -1 the position of the descriptor. -/
theorem readPromised_iff {crc32 : Bytes → UInt32} {memory : Memory} {root : Root}
    {position : Nat} {platform : Platform} {requested : Option String} {store : KVCacheStore}
    {layer block : Int} {entry : BlockEntry} {file : Bytes}
    (opened : KVCacheStore.openRoot platform root requested = .ok store)
    (contents : root.blocks = some file)
    (listed : store.entry layer block = .ok entry) :
    ReadPromised crc32 memory root position store layer block entry ↔
      (store.kind.Readable file (store.kind.place position entry) →
        Undetected crc32 store.spec (recordAt file (store.kind.place position entry)) →
          HeaderAgrees crc32 store.spec entry
            (recordAt file (store.kind.place position entry))) := by
  have valid := openRoot_validates opened
  obtain ⟨rfl, rfl⟩ := entry_identity listed
  constructor
  · intro promised readable undetected
    obtain ⟨result, decoded⟩ := decodeRecord_undetected valid undetected
    exact (promised_iff valid decoded).mp
      (promised result ((read_eq_ok contents listed).mpr ⟨readable, decoded⟩))
  · intro agrees result returned
    obtain ⟨readable, decoded⟩ := (read_eq_ok contents listed).mp returned
    exact (promised_iff valid decoded).mpr
      (agrees readable (undetected_of_decodeRecord valid decoded))

/-- The entry of block 1 points at the record of block 0. -/
def strayEntry : BlockEntry := ⟨0, 1, 0, 4096, 1, 0⟩

/-- Block 1 lies wherever the descriptor stands. -/
def driftingEntry : BlockEntry := ⟨0, 1, -1, 4096, 1, 0⟩

/-- A store with one entry. -/
def oneEntryStore (entry : BlockEntry) : KVCacheStore := ⟨⟨tinySpec, [entry], 1⟩, .buffered⟩

def oneEntryRoot (entry : BlockEntry) (record : Bytes) : Root :=
  ⟨some (.saved (oneEntryStore entry).manifest), some record⟩

theorem openRoot_oneEntryRoot (entry : BlockEntry) (record : Bytes) :
    KVCacheStore.openRoot portablePlatform (oneEntryRoot entry record) none =
      .ok (oneEntryStore entry) := rfl

theorem recordAt_first {record : Bytes} {entry : BlockEntry} (offset : entry.offset = 0)
    (length : entry.length = record.length) : recordAt record entry = record := by
  rw [recordAt, offset, length]
  simp

theorem readable_first {record : Bytes} {entry : BlockEntry} (offset : entry.offset = 0)
    (length : entry.length = record.length) (short : entry.length ≤ maxTransfer) :
    StorageKind.buffered.Readable record entry :=
  ⟨offset.ge, by rw [recordAt_first offset length, length], by simp, fun _ => short⟩

/-- A read at the place of the descriptor breaks the promise: that place holds block 0. -/
theorem readPromised_iff_drifting : ∃ record,
    (ReadPromised Zlib.crc32 zeroMemory (oneEntryRoot driftingEntry record) 0
        (oneEntryStore driftingEntry) 0 1 driftingEntry ↔
      (StorageKind.buffered.Readable record (StorageKind.buffered.place 0 driftingEntry) →
        Undetected Zlib.crc32 tinySpec
            (recordAt record (StorageKind.buffered.place 0 driftingEntry)) →
          HeaderAgrees Zlib.crc32 tinySpec driftingEntry
            (recordAt record (StorageKind.buffered.place 0 driftingEntry)))) ∧
      StorageKind.buffered.Readable record (StorageKind.buffered.place 0 driftingEntry) ∧
      Undetected Zlib.crc32 tinySpec
        (recordAt record (StorageKind.buffered.place 0 driftingEntry)) ∧
      ¬ ReadPromised Zlib.crc32 zeroMemory (oneEntryRoot driftingEntry record) 0
        (oneEntryStore driftingEntry) 0 1 driftingEntry := by
  obtain ⟨record, tiny⟩ := tinyRecord_exists Zlib.crc32 (by decide : FitsU32 1)
  have length : (4096 : Int) = record.length := by
    rw [tiny.length]
    rfl
  have bytes : recordAt record (StorageKind.buffered.place 0 driftingEntry) = record :=
    recordAt_first rfl length
  have readable : StorageKind.buffered.Readable record
      (StorageKind.buffered.place 0 driftingEntry) := readable_first rfl length (by decide)
  have undetected := undetected_of_decodeRecord tinySpec_storable.valid tiny.decodes
  refine ⟨record, readPromised_iff (openRoot_oneEntryRoot driftingEntry record) rfl rfl,
    readable, by rw [bytes]; exact undetected, ?_⟩
  intro promised
  have returned : (oneEntryStore driftingEntry).read Zlib.crc32 zeroMemory
      (oneEntryRoot driftingEntry record) 0 0 1 true = .ok (tinyBlock 1) := by
    refine (read_eq_ok rfl
      (rfl : (oneEntryStore driftingEntry).entry 0 1 = .ok driftingEntry)).mpr ⟨readable, ?_⟩
    change decodeRecord Zlib.crc32 (recordAt record (StorageKind.buffered.place 0 driftingEntry))
      tinySpec true = .ok (tinyBlock 1)
    rw [bytes]
    exact tiny.decodes
  exact absurd (promised _ returned).block_eq (by decide)

/-- A verified read of block 1 returns block 0. -/
theorem read_returns_other_block :
    ∃ record result,
      KVCacheStore.openRoot portablePlatform (oneEntryRoot strayEntry record) none =
        .ok (oneEntryStore strayEntry) ∧
      (oneEntryStore strayEntry).read Zlib.crc32 zeroMemory (oneEntryRoot strayEntry record) 0
        0 1 true = .ok result ∧
      result.block = 0 := by
  obtain ⟨record, tiny⟩ := tinyRecord_exists Zlib.crc32 (by decide : FitsU32 1)
  have length : strayEntry.length = record.length := by
    rw [tiny.length]
    rfl
  refine ⟨record, tinyBlock 1, openRoot_oneEntryRoot strayEntry record,
    (read_eq_ok rfl (rfl : (oneEntryStore strayEntry).entry 0 1 = .ok strayEntry)).mpr ?_, rfl⟩
  refine ⟨readable_first rfl length (by decide), ?_⟩
  change decodeRecord Zlib.crc32 (recordAt record strayEntry) tinySpec true = .ok (tinyBlock 1)
  rw [recordAt_first rfl length]
  exact tiny.decodes

end KVSSD

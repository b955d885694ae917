import KVSSD.Format

/-!
# Storage backends

Positioned reads of one record into a buffer, for the three built-in backends,
and the registry that picks one of them.  A buffer carries its device and its
address because the backends check both.  `read_into` returns the buffer next
to the outcome: a read that raises may already have overwritten its front.
-/

namespace KVSSD

open KVSSD.Python KVSSD.Struct

inductive Device where
  | cpu
  | cuda
  deriving DecidableEq, Repr

/-- A contiguous `uint8` tensor and where it lies. -/
structure Buffer where
  device : Device
  address : Nat
  bytes : Bytes
  deriving DecidableEq

/-- The same tensor after its front was overwritten. -/
def Buffer.fill (buffer : Buffer) (read : Bytes) : Buffer :=
  { buffer with bytes := read ++ buffer.bytes.drop read.length }

/-- What `torch.empty` returns on a device: an address and leftover contents
for every size. -/
structure Memory where
  device : Device
  address : Nat → Nat
  contents : Nat → Bytes
  contents_length : ∀ size, (contents size).length = size

def Memory.empty (memory : Memory) (size : Int) : Except PyError Buffer :=
  if size < 0 then .error (.runtimeError "negative dimension")
  else .ok ⟨memory.device, memory.address size.toNat, memory.contents size.toNat⟩

/-- A backend over an open data file.  `allocateBuffer` takes its argument `device`, and `readInto`
the position of the descriptor at the call. -/
structure StorageBackend where
  name : String
  allocateBuffer : Option Device → Int → Except PyError Buffer
  readInto : Nat → BlockEntry → Buffer → Buffer × Except PyError Unit

/-- The most bytes that Linux moves in one call of `preadv`. -/
def maxTransfer : Nat := 0x7ffff000

/-- The offset a positioned read starts at: `-1` asks for the current position. -/
def seekTarget (position : Nat) (offset : Int) : Int :=
  if offset = -1 then position else offset

/-- `os.preadv` of an open file on a target of some size. -/
def preadv (file : Bytes) (position : Nat) (offset : Int) (size : Nat) : Except PyError Bytes :=
  let start := seekTarget position offset
  if start < 0 then .error (.osError "Invalid argument")
  else .ok ((file.drop start.toNat).take (min size maxTransfer))

def bufferedReadInto (file : Bytes) (position : Nat) (entry : BlockEntry) (destination : Buffer) :
    Buffer × Except PyError Unit :=
  if destination.device ≠ .cpu then
    (destination, .error (.valueError
      "buffered backend requires a CPU destination tensor"))
  else if (destination.bytes.length : Int) < entry.length then
    (destination, .error (.valueError
      "destination must be a sufficiently large uint8 tensor"))
  else
    let target := pySlice destination.bytes 0 entry.length
    match preadv file position entry.offset target.length with
    | .error raised => (destination, .error raised)
    | .ok read =>
        (destination.fill read,
          if (read.length : Int) ≠ entry.length then
            .error (.eofError
              (s!"short read for layer={entry.layer}, block={entry.block}: " ++
                s!"expected {entry.length}, got {read.length}"))
          else .ok ())

/-- Python's `format(value, "x")`. -/
def hexText (value : Nat) : String := String.ofList (Nat.toDigits 16 value)

/-- `_aligned_uint8`: an aligned window of a larger allocation. -/
def alignedUInt8 (memory : Memory) (size : Int) : Except PyError Buffer := do
  let owner ← memory.empty (size + Format.alignment - 1)
  let shift := (-(owner.address : Int)).fmod Format.alignment
  return { owner with
    address := owner.address + shift.toNat
    bytes := pySlice owner.bytes shift (shift + size) }

/-- The checks of the two aligned backends, with their texts.  `transfer` is
the read itself. -/
def alignedReadInto (device : Device) (wrongDevice small label target short : String)
    (transfer : Bytes → Except PyError Bytes) (entry : BlockEntry)
    (destination : Buffer) : Buffer × Except PyError Unit :=
  if destination.device ≠ device then
    (destination, .error (.valueError wrongDevice))
  else if (destination.bytes.length : Int) < entry.length then
    (destination, .error (.valueError small))
  else if entry.offset.fmod Format.alignment ≠ 0 ∨
      entry.length.fmod Format.alignment ≠ 0 then
    (destination, .error (.valueError
      (s!"unaligned {label} read for layer={entry.layer}, block={entry.block}: " ++
        s!"offset={entry.offset}, length={entry.length}, " ++
        s!"alignment={Format.alignment}")))
  else if (destination.address : Int).fmod Format.alignment ≠ 0 then
    (destination, .error (.valueError
      (s!"{target} destination address must be {Format.alignment}-byte aligned; " ++
        s!"got address=0x{hexText destination.address}")))
  else
    match transfer destination.bytes with
    | .error raised => (destination, .error raised)
    | .ok read =>
        (destination.fill read,
          if (read.length : Int) ≠ entry.length then
            .error (.eofError
              (s!"short {short} read for layer={entry.layer}, " ++
                s!"block={entry.block}: offset={entry.offset}, " ++
                s!"expected={entry.length}, got={read.length}"))
          else .ok ())

def directReadInto (file : Bytes) (position : Nat) (entry : BlockEntry) (destination : Buffer) :
    Buffer × Except PyError Unit :=
  alignedReadInto .cpu "direct backend requires a CPU uint8 destination"
    "destination is smaller than the requested record" "direct" "direct" "direct"
    (fun bytes => preadv file position entry.offset (pySlice bytes 0 entry.length).length)
    entry destination

/-- `GDSFile::read` with the wrapping of `read_into`. -/
def gdsTransfer (file : Bytes) (entry : BlockEntry) : Except PyError Bytes :=
  if entry.offset < 0 ∨ entry.length < 0 then
    .error (.osError
      (s!"cuFile read failed for layer={entry.layer}, block={entry.block}, " ++
        s!"offset={entry.offset}, bytes={entry.length}: " ++
        "offset and size must be non-negative"))
  else .ok ((file.drop entry.offset.toNat).take entry.length.toNat)

def gdsReadInto (file : Bytes) (entry : BlockEntry) (destination : Buffer) :
    Buffer × Except PyError Unit :=
  alignedReadInto .cuda "GDS backend requires a CUDA uint8 destination"
    "GDS destination must be contiguous and large enough" "GDS" "GDS" "cuFile"
    (fun _ => gdsTransfer file entry) entry destination

inductive StorageKind where
  | gds
  | direct
  | buffered
  deriving DecidableEq, Repr

/-- The backend of a kind over the contents of its data file. -/
def StorageKind.backend (kind : StorageKind) (memory : Memory) (file : Bytes) :
    StorageBackend :=
  match kind with
  | .gds =>
      { name := "gds"
        allocateBuffer := fun device =>
          alignedUInt8 { memory with device := device.getD .cuda }
        readInto := fun _ => gdsReadInto file }
  | .direct =>
      { name := "direct"
        allocateBuffer := fun _ => alignedUInt8 { memory with device := .cpu }
        readInto := directReadInto file }
  | .buffered =>
      { name := "buffered"
        allocateBuffer := fun _ => { memory with device := .cpu : Memory }.empty
        readInto := bufferedReadInto file }

/-- `_BUILTINS`. -/
def storageBuiltins : List (String × StorageKind) :=
  [("gds", .gds), ("direct", .direct), ("buffered", .buffered)]

/-- `StorageAvailability`, as far as the registry reads it. -/
structure StorageAvailability where
  available : Bool
  reason : String

/-- The machine and the path of the data file.  A probe may find something missing before it looks
for the data file, and something else behind that. -/
structure Platform where
  path : String
  first : StorageKind → Option String
  second : StorageKind → Option String

def StorageKind.description : StorageKind → String
  | .gds => "cuFile direct reads into aligned CUDA buffers"
  | .direct => "Linux O_DIRECT positioned reads"
  | .buffered => "portable buffered positioned reads"

/-- `probe` of a built-in backend. -/
def StorageKind.probe (kind : StorageKind) (platform : Platform) (isFile : Bool) :
    StorageAvailability :=
  match platform.first kind with
  | some reason => ⟨false, reason⟩
  | none =>
      if isFile then
        match platform.second kind with
        | some reason => ⟨false, reason⟩
        | none => ⟨true, kind.description⟩
      else ⟨false, s!"data file does not exist: {platform.path}"⟩

/-- A machine on which only the buffered backend works. -/
def portablePlatform : Platform :=
  { path := "blocks.kvssd"
    first := fun kind => match kind with
      | .gds => some "cuFile requires Linux"
      | .direct => some "O_DIRECT requires Linux"
      | .buffered => none
    second := fun _ => none }

/-- `resolve_storage_backend` for a requested name. -/
def resolveStorageBackend (platform : Platform) (isFile : Bool) (requested : Option String) :
    Except PyError StorageKind :=
  let named := match requested with
    | none => "auto"
    | some name => if name = "" then "auto" else name
  let name := pyStripLower named
  if name = "auto" then
    match [StorageKind.gds, .direct, .buffered].find?
        fun kind => (kind.probe platform isFile).available with
    | some kind => .ok kind
    | none =>
        .error (.runtimeError s!"no storage backend is available for {platform.path}")
  else
    match storageBuiltins.lookup name with
    | none =>
        .error (.valueError
          (s!"unknown storage backend '{name}'; choose one of: " ++
            "auto, gds, direct, buffered"))
    | some kind =>
        let availability := kind.probe platform isFile
        if availability.available then .ok kind
        else .error (.runtimeError
          s!"storage backend '{name}' unavailable: {availability.reason}")

/-- Allocate a buffer for an entry and read the record into it. -/
def StorageBackend.fetch (backend : StorageBackend) (position : Nat) (entry : BlockEntry) :
    Except PyError Buffer := do
  let raw ← backend.allocateBuffer none entry.length
  match backend.readInto position entry raw with
  | (raw, .ok ()) => .ok raw
  | (_, .error raised) => .error raised

/-- The entry with the offset a read of it starts at.  Only the buffered backend lets an offset of
`-1` through to `preadv`. -/
def StorageKind.place (kind : StorageKind) (position : Nat) (entry : BlockEntry) : BlockEntry :=
  match kind with
  | .buffered => { entry with offset := seekTarget position entry.offset }
  | _ => entry

/-- The bytes an entry points at, as far as the file holds them. -/
def recordAt (file : Bytes) (entry : BlockEntry) : Bytes :=
  (file.drop entry.offset.toNat).take entry.length.toNat

/-- A backend of this kind can read the record of an entry. -/
structure StorageKind.Readable (kind : StorageKind) (file : Bytes)
    (entry : BlockEntry) : Prop where
  offset : 0 ≤ entry.offset
  whole : ((recordAt file entry).length : Int) = entry.length
  aligned : kind ≠ .buffered →
    (4096 : Int) ∣ entry.offset ∧ (4096 : Int) ∣ entry.length
  transfer : kind ≠ .gds → entry.length ≤ maxTransfer

theorem seekTarget_of_nonneg {position : Nat} {offset : Int} (inside : 0 ≤ offset) :
    seekTarget position offset = offset :=
  if_neg (by omega)

theorem StorageKind.place_of_nonneg {kind : StorageKind} {position : Nat} {entry : BlockEntry}
    (inside : 0 ≤ entry.offset) : kind.place position entry = entry := by
  cases kind with
  | buffered => simp only [StorageKind.place, seekTarget_of_nonneg inside]
  | direct => rfl
  | gds => rfl

theorem Memory.empty_eq_ok {memory : Memory} {size : Int} {buffer : Buffer} :
    memory.empty size = .ok buffer ↔ 0 ≤ size ∧
      buffer = ⟨memory.device, memory.address size.toNat,
        memory.contents size.toNat⟩ := by
  by_cases negative : size < 0
  · have outside : ¬ 0 ≤ size := by omega
    simp [Memory.empty, negative, outside]
  · have inside : 0 ≤ size := by omega
    simp [Memory.empty, negative, inside, eq_comm]

/-- The window of an aligned allocation starts at an aligned address. -/
theorem alignedUInt8_address {memory : Memory} {size : Int} {buffer : Buffer}
    (success : alignedUInt8 memory size = .ok buffer) :
    buffer.device = memory.device ∧ (4096 : Int) ∣ buffer.address ∧
      -4096 < size ∧ (0 ≤ size → (buffer.bytes.length : Int) = size) := by
  obtain ⟨owner, allocated, result⟩ := bind_eq_ok.mp success
  obtain ⟨room, ownerEq⟩ := Memory.empty_eq_ok.mp allocated
  cases result
  have alignment : Format.alignment = 4096 := rfl
  rw [alignment] at room
  have shiftEq : (-(owner.address : Int)).fmod Format.alignment =
      (-(owner.address : Int)) % 4096 :=
    Int.fmod_eq_emod_of_nonneg _ (by norm_num [Format.alignment])
  obtain ⟨shift, shiftNat⟩ : ∃ shift : Nat,
      (shift : Int) = (-(owner.address : Int)) % 4096 :=
    ⟨((-(owner.address : Int)) % 4096).toNat, by omega⟩
  rw [shiftEq, ← shiftNat]
  refine ⟨by rw [ownerEq], ?_, by omega, ?_⟩
  · simp only [Int.toNat_natCast, Nat.cast_add]
    omega
  · intro sized
    have ownerLength : (owner.bytes.length : Int) = size + 4095 := by
      rw [ownerEq]
      simp only [memory.contents_length, alignment]
      omega
    obtain ⟨count, countEq⟩ : ∃ count : Nat, (count : Int) = size :=
      ⟨size.toNat, by omega⟩
    simp only [← countEq, pySlice_count, List.length_take, List.length_drop]
    omega

theorem alignedUInt8_total (memory : Memory) {size : Int} (sized : 0 ≤ size) :
    ∃ buffer, alignedUInt8 memory size = .ok buffer := by
  have room : 0 ≤ size + Format.alignment - 1 := by
    rw [Format.alignment]
    omega
  unfold alignedUInt8
  rw [Memory.empty_eq_ok.mpr ⟨room, rfl⟩]
  exact ⟨_, rfl⟩

/-- A buffer a backend of this kind accepts for records of a given length. -/
structure Buffer.Serves (buffer : Buffer) (kind : StorageKind) (length : Int) :
    Prop where
  device : buffer.device = if kind = .gds then .cuda else .cpu
  room : length ≤ buffer.bytes.length
  address : kind ≠ .buffered → (4096 : Int) ∣ buffer.address

theorem fmod_alignment_eq_zero {value : Int} :
    value.fmod Format.alignment = 0 ↔ (4096 : Int) ∣ value := by
  rw [Int.fmod_eq_emod_of_nonneg _ (by norm_num [Format.alignment])]
  exact (Int.dvd_iff_emod_eq_zero ..).symm

private theorem moved_whole {rest : Bytes} {length : Int} {most : Nat} (sized : 0 ≤ length) :
    ((rest.take (min length.toNat most)).length : Int) = length ↔
      length ≤ most ∧ ((rest.take length.toNat).length : Int) = length := by
  simp only [List.length_take]
  omega

private theorem transferred {file : Bytes} {entry : BlockEntry} {most : Nat}
    {buffer result : Buffer} (sized : 0 ≤ entry.length) (raised : Nat → PyError) :
    (buffer.fill ((file.drop entry.offset.toNat).take (min entry.length.toNat most)),
        if ((((file.drop entry.offset.toNat).take
            (min entry.length.toNat most)).length : Nat) : Int) ≠ entry.length
          then .error (raised ((file.drop entry.offset.toNat).take
            (min entry.length.toNat most)).length)
          else .ok ()) = (result, (.ok () : Except PyError Unit)) ↔
      entry.length ≤ most ∧ ((recordAt file entry).length : Int) = entry.length ∧
        result = buffer.fill (recordAt file entry) := by
  by_cases whole : entry.length ≤ most ∧
      ((recordAt file entry).length : Int) = entry.length
  · have moved := (moved_whole sized).mpr whole
    have record : (file.drop entry.offset.toNat).take (min entry.length.toNat most) =
        recordAt file entry := by
      rw [recordAt, Nat.min_eq_left (by omega)]
    rw [if_neg (not_not_intro moved), record]
    simp [whole, eq_comm]
  · rw [if_pos (fun moved => whole ((moved_whole sized).mp moved))]
    constructor
    · intro success
      cases success
    · rintro ⟨short, here, _⟩
      exact absurd ⟨short, here⟩ whole

/-- A transfer behind the checks of the aligned backends. -/
private theorem alignedReadInto_eq_ok {file : Bytes} {entry : BlockEntry}
    {buffer result : Buffer} {device : Device} {most : Nat}
    {wrongDevice small label target short : String}
    {transfer : Bytes → Except PyError Bytes}
    (onDevice : buffer.device = device)
    (sized : 0 ≤ entry.length)
    (room : entry.length ≤ buffer.bytes.length)
    (address : (4096 : Int) ∣ buffer.address)
    (reads : 0 ≤ entry.offset → transfer buffer.bytes =
      .ok ((file.drop entry.offset.toNat).take (min entry.length.toNat most)))
    (refuses : entry.offset < -1 → ∃ raised, transfer buffer.bytes = .error raised) :
    alignedReadInto device wrongDevice small label target short transfer entry
        buffer = (result, .ok ()) ↔
      ((4096 : Int) ∣ entry.offset ∧ (4096 : Int) ∣ entry.length) ∧
        0 ≤ entry.offset ∧ entry.length ≤ most ∧
        ((recordAt file entry).length : Int) = entry.length ∧
        result = buffer.fill (recordAt file entry) := by
  unfold alignedReadInto
  rw [if_neg (not_not_intro onDevice), if_neg (by omega)]
  simp only [ne_eq, fmod_alignment_eq_zero]
  by_cases aligned : (4096 : Int) ∣ entry.offset ∧ (4096 : Int) ∣ entry.length
  · rw [if_neg (by simp [aligned.1, aligned.2]), if_neg (not_not_intro address)]
    by_cases negative : entry.offset < 0
    · have outside : ¬ 0 ≤ entry.offset := by omega
      obtain ⟨raised, refused⟩ := refuses (by
        have alignedOffset := aligned.1
        omega)
      simp [refused, outside]
    · have inside : 0 ≤ entry.offset := by omega
      rw [reads inside]
      refine (transferred sized fun got => .eofError
        (s!"short {short} read for layer={entry.layer}, " ++
          s!"block={entry.block}: offset={entry.offset}, " ++
          s!"expected={entry.length}, got={got}")).trans ?_
      simp [aligned, inside]
  · rw [if_pos (by
      by_contra both
      exact aligned (by simpa using both))]
    simp [aligned]

section ReadInto

variable {file : Bytes} {position : Nat} {entry : BlockEntry} {buffer result : Buffer}
  (sized : 0 ≤ entry.length)

include sized

theorem pySlice_front_length (room : entry.length ≤ buffer.bytes.length) :
    (pySlice buffer.bytes 0 entry.length).length = entry.length.toNat := by
  have natural : ((entry.length.toNat : Nat) : Int) = entry.length := Int.toNat_of_nonneg sized
  rw [← natural, pySlice_zero, List.length_take]
  omega

theorem bufferedReadInto_eq_ok (serves : buffer.Serves .buffered entry.length) :
    bufferedReadInto file position entry buffer = (result, .ok ()) ↔
      StorageKind.buffered.Readable file (StorageKind.buffered.place position entry) ∧
        result = buffer.fill (recordAt file (StorageKind.buffered.place position entry)) := by
  have device : buffer.device = .cpu := serves.device
  simp only [bufferedReadInto, pySlice_front_length sized serves.room, preadv,
    if_neg (not_not_intro device), if_neg (not_lt_of_ge serves.room)]
  by_cases negative : seekTarget position entry.offset < 0
  · rw [if_pos negative]
    constructor
    · intro success
      cases success
    · rintro ⟨readable, _⟩
      exact absurd readable.offset (not_le_of_gt negative)
  · rw [if_neg negative]
    refine (@transferred file (StorageKind.buffered.place position entry) maxTransfer buffer
      result sized fun got => .eofError
        (s!"short read for layer={entry.layer}, block={entry.block}: " ++
          s!"expected {entry.length}, got {got}")).trans ?_
    constructor
    · rintro ⟨short, whole, filled⟩
      exact ⟨⟨not_lt.mp negative, whole, by simp, fun _ => short⟩, filled⟩
    · rintro ⟨readable, filled⟩
      exact ⟨readable.transfer (by simp), readable.whole, filled⟩

theorem directReadInto_eq_ok (serves : buffer.Serves .direct entry.length) :
    directReadInto file position entry buffer = (result, .ok ()) ↔
      StorageKind.direct.Readable file entry ∧ result = buffer.fill (recordAt file entry) := by
  have device : buffer.device = .cpu := serves.device
  have address := serves.address (by simp)
  rw [directReadInto, @alignedReadInto_eq_ok file entry buffer result .cpu maxTransfer _ _ _ _ _ _
    device sized serves.room address]
  · constructor
    · rintro ⟨aligned, offset, short, whole, filled⟩
      exact ⟨⟨offset, whole, fun _ => aligned, fun _ => short⟩, filled⟩
    · rintro ⟨readable, filled⟩
      exact ⟨readable.aligned (by simp), readable.offset, readable.transfer (by simp),
        readable.whole, filled⟩
  · intro inside
    simp only [preadv, seekTarget_of_nonneg inside, if_neg (not_lt_of_ge inside),
      pySlice_front_length sized serves.room]
  · intro negative
    have outside : seekTarget position entry.offset < 0 := by
      rw [seekTarget, if_neg (by omega)]
      omega
    simp [preadv, outside]

theorem gdsReadInto_eq_ok (serves : buffer.Serves .gds entry.length) :
    gdsReadInto file entry buffer = (result, .ok ()) ↔
      StorageKind.gds.Readable file entry ∧ result = buffer.fill (recordAt file entry) := by
  have device : buffer.device = .cuda := serves.device
  have address := serves.address (by simp)
  rw [gdsReadInto, @alignedReadInto_eq_ok file entry buffer result .cuda entry.length.toNat _ _ _ _
    _ _ device sized serves.room address]
  · constructor
    · rintro ⟨aligned, offset, _, whole, filled⟩
      exact ⟨⟨offset, whole, fun _ => aligned, by simp⟩, filled⟩
    · rintro ⟨readable, filled⟩
      exact ⟨readable.aligned (by simp), readable.offset, by omega, readable.whole, filled⟩
  · intro inside
    simp [gdsTransfer, not_lt_of_ge inside, not_lt_of_ge sized]
  · intro negative
    have outside : entry.offset < 0 := by omega
    simp [gdsTransfer, outside]

end ReadInto

/-- A read into a fitting buffer succeeds exactly on readable entries, and then
the record is at the front of the buffer. -/
theorem StorageKind.readInto_eq_ok {kind : StorageKind} {memory : Memory}
    {file : Bytes} {position : Nat} {entry : BlockEntry} {buffer result : Buffer}
    (serves : buffer.Serves kind entry.length) (sized : 0 ≤ entry.length) :
    (kind.backend memory file).readInto position entry buffer = (result, .ok ()) ↔
      kind.Readable file (kind.place position entry) ∧
        result = buffer.fill (recordAt file (kind.place position entry)) := by
  cases kind with
  | buffered => exact bufferedReadInto_eq_ok sized serves
  | direct => exact directReadInto_eq_ok sized serves
  | gds => exact gdsReadInto_eq_ok sized serves

private theorem alignedReadInto_raises {device : Device}
    {wrongDevice small label target short : String}
    {transfer : Bytes → Except PyError Bytes} {entry : BlockEntry} {buffer : Buffer}
    {raised : PyError} (onDevice : buffer.device = device)
    (room : entry.length ≤ buffer.bytes.length) (address : (4096 : Int) ∣ buffer.address)
    (aligned : (4096 : Int) ∣ entry.offset ∧ (4096 : Int) ∣ entry.length)
    (moves : ∃ read, transfer buffer.bytes = .ok read)
    (fails : (alignedReadInto device wrongDevice small label target short transfer entry
      buffer).2 = .error raised) : ∃ text, raised = .eofError text := by
  obtain ⟨read, moved⟩ := moves
  unfold alignedReadInto at fails
  rw [if_neg (not_not_intro onDevice), if_neg (by omega)] at fails
  simp only [ne_eq, fmod_alignment_eq_zero] at fails
  rw [if_neg (by simp [aligned.1, aligned.2]), if_neg (not_not_intro address), moved] at fails
  simp only at fails
  split at fails
  · cases fails
    exact ⟨_, rfl⟩
  · cases fails

theorem StorageKind.readInto_raises {kind : StorageKind} {memory : Memory} {file : Bytes}
    {position : Nat} {entry : BlockEntry} {buffer : Buffer} {raised : PyError}
    (aligns : kind ≠ .buffered) (serves : buffer.Serves kind entry.length)
    (sized : 0 ≤ entry.length) (inside : 0 ≤ entry.offset)
    (aligned : (4096 : Int) ∣ entry.offset ∧ (4096 : Int) ∣ entry.length)
    (fails : ((kind.backend memory file).readInto position entry buffer).2 = .error raised) :
    ∃ text, raised = .eofError text := by
  have address := serves.address aligns
  cases kind with
  | buffered => exact absurd rfl aligns
  | direct =>
      refine alignedReadInto_raises (serves.device : buffer.device = .cpu) serves.room address
        aligned ?_ fails
      simp only [preadv, seekTarget_of_nonneg inside, if_neg (not_lt_of_ge inside)]
      exact ⟨_, rfl⟩
  | gds =>
      refine alignedReadInto_raises (serves.device : buffer.device = .cuda) serves.room address
        aligned ?_ fails
      simp only [gdsTransfer, not_lt_of_ge inside, not_lt_of_ge sized, or_self, if_false]
      exact ⟨_, rfl⟩

/-- The device that `allocate_buffer` allocates on. -/
def StorageKind.bufferDevice (kind : StorageKind) (device : Option Device) : Device :=
  if kind = .gds then device.getD .cuda else .cpu

theorem StorageKind.allocateBuffer_total (kind : StorageKind) (memory : Memory)
    (file : Bytes) (device : Option Device) {size : Int} (sized : 0 ≤ size) :
    ∃ buffer, (kind.backend memory file).allocateBuffer device size = .ok buffer ∧
      buffer.device = kind.bufferDevice device ∧ (buffer.bytes.length : Int) = size ∧
      (kind ≠ .buffered → (4096 : Int) ∣ buffer.address) := by
  cases kind with
  | buffered =>
      refine ⟨⟨.cpu, memory.address size.toNat, memory.contents size.toNat⟩,
        Memory.empty_eq_ok.mpr ⟨sized, rfl⟩, rfl, ?_, by simp⟩
      simp only [memory.contents_length]
      omega
  | direct =>
      obtain ⟨buffer, allocated⟩ :=
        alignedUInt8_total { memory with device := .cpu } sized
      obtain ⟨onDevice, address, _, length⟩ := alignedUInt8_address allocated
      exact ⟨buffer, allocated, onDevice, length sized, fun _ => address⟩
  | gds =>
      obtain ⟨buffer, allocated⟩ :=
        alignedUInt8_total { memory with device := device.getD .cuda } sized
      obtain ⟨onDevice, address, _, length⟩ := alignedUInt8_address allocated
      exact ⟨buffer, allocated, onDevice, length sized, fun _ => address⟩

/-- The backend accepts what it allocates: a GDS backend reads into CUDA memory only. -/
def StorageKind.Accepts (kind : StorageKind) (device : Option Device) : Prop :=
  kind = .gds → device ≠ some .cpu

instance (kind : StorageKind) (device : Option Device) : Decidable (kind.Accepts device) :=
  inferInstanceAs (Decidable (_ → _))

theorem StorageKind.Accepts.bufferDevice {kind : StorageKind} {device : Option Device}
    (accepts : kind.Accepts device) :
    kind.bufferDevice device = if kind = .gds then .cuda else .cpu := by
  cases kind with
  | buffered => rfl
  | direct => rfl
  | gds =>
      cases device with
      | none => rfl
      | some device =>
          cases device with
          | cpu => exact absurd rfl (accepts rfl)
          | cuda => rfl

theorem StorageKind.allocateBuffer_serves (kind : StorageKind) (memory : Memory)
    (file : Bytes) {device : Option Device} {size : Int} (sized : 0 ≤ size)
    (accepts : kind.Accepts device) :
    ∃ buffer, (kind.backend memory file).allocateBuffer device size = .ok buffer ∧
      buffer.Serves kind size ∧ (buffer.bytes.length : Int) = size := by
  obtain ⟨buffer, allocated, onDevice, length, address⟩ :=
    kind.allocateBuffer_total memory file device sized
  exact ⟨buffer, allocated, ⟨onDevice.trans accepts.bufferDevice, length.ge, address⟩, length⟩

/-- Two tensors at the same place with the same number of bytes. -/
structure Buffer.SamePlace (buffer other : Buffer) : Prop where
  device : other.device = buffer.device
  address : other.address = buffer.address
  length : other.bytes.length = buffer.bytes.length

theorem Buffer.SamePlace.refl (buffer : Buffer) : buffer.SamePlace buffer :=
  ⟨rfl, rfl, rfl⟩

theorem Buffer.samePlace_fill {buffer : Buffer} {read : Bytes}
    (fits : read.length ≤ buffer.bytes.length) : buffer.SamePlace (buffer.fill read) := by
  refine ⟨rfl, rfl, ?_⟩
  simp only [Buffer.fill, List.length_append, List.length_drop]
  omega

theorem preadv_length {file read : Bytes} {position : Nat} {offset : Int} {size : Nat}
    (success : preadv file position offset size = .ok read) : read.length ≤ size := by
  simp only [preadv] at success
  split at success
  · cases success
  · cases success
    simp only [List.length_take]
    omega

private theorem alignedReadInto_samePlace {device : Device}
    {wrongDevice small label target short : String}
    {transfer : Bytes → Except PyError Bytes} {entry : BlockEntry} {buffer : Buffer}
    (fits : entry.length ≤ buffer.bytes.length → ∀ read,
      transfer buffer.bytes = .ok read → read.length ≤ buffer.bytes.length) :
    buffer.SamePlace (alignedReadInto device wrongDevice small label target short
      transfer entry buffer).1 := by
  unfold alignedReadInto
  split
  · exact .refl buffer
  · split
    · exact .refl buffer
    · rename_i room
      split
      · exact .refl buffer
      · split
        · exact .refl buffer
        · cases moved : transfer buffer.bytes with
          | error raised => exact .refl buffer
          | ok read => exact Buffer.samePlace_fill (fits (by omega) read moved)

/-- A read overwrites bytes of its buffer and nothing else of it. -/
theorem StorageKind.readInto_samePlace (kind : StorageKind) (memory : Memory)
    (file : Bytes) (position : Nat) (entry : BlockEntry) (buffer : Buffer) :
    buffer.SamePlace ((kind.backend memory file).readInto position entry buffer).1 := by
  have target : (pySlice buffer.bytes 0 entry.length).length ≤ buffer.bytes.length := by
    simp only [pySlice, List.length_take, List.length_drop]
    omega
  cases kind with
  | buffered =>
      simp only [StorageKind.backend, bufferedReadInto]
      split
      · exact .refl buffer
      · split
        · exact .refl buffer
        · cases moved : preadv file position entry.offset
              (pySlice buffer.bytes 0 entry.length).length with
          | error raised => exact .refl buffer
          | ok read =>
              exact Buffer.samePlace_fill (Nat.le_trans (preadv_length moved) target)
  | direct =>
      refine alignedReadInto_samePlace ?_
      intro _ read moved
      exact Nat.le_trans (preadv_length moved) target
  | gds =>
      refine alignedReadInto_samePlace ?_
      intro room read moved
      simp only [gdsTransfer] at moved
      split at moved
      · cases moved
      · cases moved
        simp only [List.length_take]
        omega

theorem Buffer.Serves.of_samePlace {buffer other : Buffer} {kind : StorageKind}
    {length : Int} (serves : buffer.Serves kind length)
    (same : buffer.SamePlace other) : other.Serves kind length :=
  ⟨same.device.trans serves.device, by rw [same.length]; exact serves.room,
    fun aligns => by rw [same.address]; exact serves.address aligns⟩

private theorem alignedReadInto_aligned {device : Device}
    {wrongDevice small label target short : String}
    {transfer : Bytes → Except PyError Bytes} {entry : BlockEntry}
    {buffer result : Buffer}
    (success : alignedReadInto device wrongDevice small label target short
      transfer entry buffer = (result, .ok ())) :
    (4096 : Int) ∣ entry.length := by
  by_contra unaligned
  unfold alignedReadInto at success
  split at success
  · simp at success
  · split at success
    · simp at success
    · rw [if_pos (Or.inr fun zero => unaligned (fmod_alignment_eq_zero.mp zero))]
        at success
      simp at success

private theorem fetch_eq_ok {backend : StorageBackend} {position : Nat} {entry : BlockEntry}
    {result : Buffer} :
    backend.fetch position entry = .ok result ↔
      ∃ buffer, backend.allocateBuffer none entry.length = .ok buffer ∧
        backend.readInto position entry buffer = (result, .ok ()) := by
  unfold StorageBackend.fetch
  rw [bind_eq_ok]
  constructor
  · rintro ⟨buffer, allocated, read⟩
    refine ⟨buffer, allocated, ?_⟩
    rcases outcome : backend.readInto position entry buffer with ⟨filled, raised | ⟨⟩⟩
    · rw [outcome] at read
      cases read
    · rw [outcome] at read
      cases read
      rfl
  · rintro ⟨buffer, allocated, read⟩
    refine ⟨buffer, allocated, ?_⟩
    rw [read]

theorem StorageKind.length_nonneg_of_fetch {kind : StorageKind} {memory : Memory}
    {file : Bytes} {position : Nat} {entry : BlockEntry} {result : Buffer}
    (success : (kind.backend memory file).fetch position entry = .ok result) :
    0 ≤ entry.length := by
  obtain ⟨buffer, allocated, read⟩ := fetch_eq_ok.mp success
  cases kind with
  | buffered => exact (Memory.empty_eq_ok.mp allocated).1
  | direct =>
      simp only [StorageKind.backend, directReadInto] at read
      obtain ⟨_, _, above, _⟩ := alignedUInt8_address allocated
      have aligned := alignedReadInto_aligned read
      omega
  | gds =>
      simp only [StorageKind.backend, gdsReadInto] at read
      obtain ⟨_, _, above, _⟩ := alignedUInt8_address allocated
      have aligned := alignedReadInto_aligned read
      omega

theorem StorageKind.place_length (kind : StorageKind) (position : Nat) (entry : BlockEntry) :
    (kind.place position entry).length = entry.length := by
  cases kind <;> rfl

/-- Allocating a buffer for an entry and reading into it succeeds exactly on
readable entries, and returns the record. -/
theorem StorageKind.fetch_bytes {kind : StorageKind} {memory : Memory}
    {file raw : Bytes} {position : Nat} {entry : BlockEntry} :
    (∃ buffer, (kind.backend memory file).fetch position entry = .ok buffer ∧
        buffer.bytes = raw) ↔
      kind.Readable file (kind.place position entry) ∧
        raw = recordAt file (kind.place position entry) := by
  by_cases sized : 0 ≤ entry.length
  · obtain ⟨buffer, allocated, serves, length⟩ :=
      StorageKind.allocateBuffer_serves kind memory file sized
        (by simp [StorageKind.Accepts] : kind.Accepts none)
    have covers : kind.Readable file (kind.place position entry) →
        (buffer.fill (recordAt file (kind.place position entry))).bytes =
          recordAt file (kind.place position entry) := by
      intro readable
      have whole := readable.whole
      rw [kind.place_length] at whole
      simp only [Buffer.fill]
      rw [List.drop_eq_nil_of_le (by omega), List.append_nil]
    constructor
    · rintro ⟨result, fetched, bytes⟩
      obtain ⟨buffer', allocated', read⟩ := fetch_eq_ok.mp fetched
      rw [allocated] at allocated'
      cases allocated'
      obtain ⟨readable, filled⟩ := (StorageKind.readInto_eq_ok serves sized).mp read
      refine ⟨readable, ?_⟩
      rw [← bytes, filled, covers readable]
    · rintro ⟨readable, bytes⟩
      exact ⟨_, fetch_eq_ok.mpr ⟨buffer, allocated,
          (StorageKind.readInto_eq_ok serves sized).mpr ⟨readable, rfl⟩⟩,
        by rw [covers readable, bytes]⟩
  · constructor
    · rintro ⟨result, fetched, _⟩
      exact absurd (StorageKind.length_nonneg_of_fetch fetched) sized
    · rintro ⟨readable, _⟩
      have whole := readable.whole
      rw [kind.place_length] at whole
      omega

end KVSSD

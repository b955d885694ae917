import KVSSD.FormatCodec
import KVSSD.Loader

/-!
# Views, copies and slots

A yielded block denotes what was decoded from its slot at the moment of the
decode.  Its tensors lie in storages of their own, so nothing that happens to
the slots later can change it.
-/

namespace KVSSD

open KVSSD.Python KVSSD.Struct

/-- A heap that differs from another in its first `depth` storages and in new
ones only. -/
structure HeapExtends (depth : Nat) (heap next : List Buffer) : Prop where
  longer : heap.length ≤ next.length
  kept : ∀ address, depth ≤ address → address < heap.length →
    next[address]? = heap[address]?

theorem HeapExtends.refl (depth : Nat) (heap : List Buffer) :
    HeapExtends depth heap heap :=
  ⟨Nat.le_refl _, fun _ _ _ => rfl⟩

theorem HeapExtends.append (depth : Nat) (heap added : List Buffer) :
    HeapExtends depth heap (heap ++ added) := by
  refine ⟨by simp, ?_⟩
  intro address _ inside
  exact List.getElem?_append_left inside

theorem HeapExtends.set {depth slot : Nat} (heap : List Buffer) (raw : Buffer)
    (inside : slot < depth) : HeapExtends depth heap (heap.set slot raw) := by
  refine ⟨by simp, ?_⟩
  intro address above _
  exact List.getElem?_set_ne (by omega)

theorem Location.bytes_congr {location : Location} {heap next : List Buffer}
    (same : next[location.address]? = heap[location.address]?) :
    location.bytes next = location.bytes heap := by
  rw [Location.bytes, Location.bytes, same]

theorem Location.bytes_append {location : Location} {heap added : List Buffer}
    (inside : location.address < heap.length) :
    location.bytes (heap ++ added) = location.bytes heap :=
  Location.bytes_congr (List.getElem?_append_left inside)

theorem clone_spec (memory : Memory) (heap : List Buffer) (location : Location) :
    ∃ storage cloned, clone memory heap location = (heap ++ [storage], cloned) ∧
      cloned.address = heap.length ∧
      ∀ more, cloned.bytes (heap ++ [storage] ++ more) = location.bytes heap := by
  refine ⟨_, _, rfl, rfl, ?_⟩
  intro more
  rw [Location.bytes_append (by simp)]
  simp only [Location.bytes]
  rw [List.getElem?_append_right (Nat.le_refl _)]
  simp only [Nat.sub_self, List.getElem?_cons_zero]
  rw [pySlice_zero, List.take_length]

/-- The four locations of a block. -/
def BlockRef.locations (ref : BlockRef) : List Location :=
  [ref.keyScales, ref.valueScales, ref.keyPacked, ref.valuePacked]

/-- Every tensor of the block lies in a storage behind the slots. -/
def BlockRef.Detached (depth : Nat) (heap : List Buffer) (ref : BlockRef) : Prop :=
  ∀ location ∈ ref.locations, depth ≤ location.address ∧ location.address < heap.length

theorem BlockRef.deref_congr {spec : CacheSpec} {heap next : List Buffer}
    {ref other : BlockRef}
    (identity : other.layer = ref.layer ∧ other.block = ref.block ∧
      other.validTokens = ref.validTokens)
    (bytes : other.locations.map (Location.bytes · next) =
      ref.locations.map (Location.bytes · heap)) :
    other.deref spec next = ref.deref spec heap := by
  simp only [BlockRef.locations, List.map_cons, List.map_nil, List.cons.injEq,
    and_true] at bytes
  obtain ⟨keyScales, valueScales, keyPacked, valuePacked⟩ := bytes
  obtain ⟨layer, block, validTokens⟩ := identity
  simp only [BlockRef.deref, keyScales, valueScales, keyPacked, valuePacked, layer, block,
    validTokens]

theorem BlockRef.Detached.deref (spec : CacheSpec) {depth : Nat}
    {heap next : List Buffer} {ref : BlockRef} (detached : ref.Detached depth heap)
    (grows : HeapExtends depth heap next) :
    ref.Detached depth next ∧ ref.deref spec next = ref.deref spec heap := by
  constructor
  · intro location member
    obtain ⟨above, inside⟩ := detached location member
    exact ⟨above, Nat.lt_of_lt_of_le inside grows.longer⟩
  · refine BlockRef.deref_congr ⟨rfl, rfl, rfl⟩ (List.map_congr_left ?_)
    intro location member
    obtain ⟨above, inside⟩ := detached location member
    exact Location.bytes_congr (grows.kept _ above inside)

/-- A detached copy denotes the block the view denoted. -/
theorem cloneBlock_spec (memory : Memory) {heap : List Buffer} (viewed : BlockRef)
    (inside : ∀ location ∈ viewed.locations, location.address < heap.length)
    {depth : Nat} (slots : depth ≤ heap.length) (spec : CacheSpec) :
    ∃ added block, cloneBlock memory heap viewed = (heap ++ added, block) ∧
      block.Detached depth (heap ++ added) ∧
      block.deref spec (heap ++ added) = viewed.deref spec heap := by
  simp only [BlockRef.locations, List.mem_cons, List.not_mem_nil, or_false,
    forall_eq_or_imp, forall_eq] at inside
  obtain ⟨keyScalesInside, valueScalesInside, keyPackedInside, valuePackedInside⟩ := inside
  obtain ⟨first, keyPacked, keyPackedEq, keyPackedAt, keyPackedBytes⟩ :=
    clone_spec memory heap viewed.keyPacked
  obtain ⟨second, keyScales, keyScalesEq, keyScalesAt, keyScalesBytes⟩ :=
    clone_spec memory (heap ++ [first]) viewed.keyScales
  obtain ⟨third, valuePacked, valuePackedEq, valuePackedAt, valuePackedBytes⟩ :=
    clone_spec memory (heap ++ [first] ++ [second]) viewed.valuePacked
  obtain ⟨fourth, valueScales, valueScalesEq, valueScalesAt, valueScalesBytes⟩ :=
    clone_spec memory (heap ++ [first] ++ [second] ++ [third]) viewed.valueScales
  refine ⟨[first, second, third, fourth],
    { viewed with keyScales, valueScales, keyPacked, valuePacked }, ?_, ?_, ?_⟩
  · simp only [cloneBlock, keyPackedEq, keyScalesEq, valuePackedEq, valueScalesEq]
    simp
  · simp only [BlockRef.Detached, BlockRef.locations, List.mem_cons, List.not_mem_nil,
      or_false, forall_eq_or_imp, forall_eq, keyPackedAt, keyScalesAt, valuePackedAt,
      valueScalesAt, List.length_append, List.length_cons, List.length_nil]
    omega
  · refine BlockRef.deref_congr ⟨rfl, rfl, rfl⟩ ?_
    have keyPackedKept := keyPackedBytes ([second] ++ [third] ++ [fourth])
    have keyScalesKept := keyScalesBytes ([third] ++ [fourth])
    have valuePackedKept := valuePackedBytes [fourth]
    have valueScalesKept := valueScalesBytes []
    simp only [List.append_assoc, List.cons_append, List.nil_append, List.append_nil]
      at keyPackedKept keyScalesKept valuePackedKept valueScalesKept
    simp only [BlockRef.locations, List.map_cons, List.map_nil, keyPackedKept,
      keyScalesKept, valuePackedKept, valueScalesKept,
      Location.bytes_append keyScalesInside, Location.bytes_append valuePackedInside,
      Location.bytes_append valueScalesInside]

theorem deref_of_decodePayload {spec : CacheSpec} {heap : List Buffer} {raw : Buffer}
    {slot : Nat} {layer block valid : Int} {viewed : PackedKVBlock}
    (here : heap[slot]? = some raw)
    (decoded : decodePayload raw.bytes spec layer block valid = .ok viewed) :
    (viewRecord spec slot viewed).deref spec heap = .ok viewed := by
  unfold decodePayload at decoded
  split at decoded
  · cases decoded
  · obtain ⟨ks, ksOk, decoded⟩ := bind_eq_ok.mp decoded
    obtain ⟨vs, vsOk, decoded⟩ := bind_eq_ok.mp decoded
    obtain ⟨kp, kpOk, decoded⟩ := bind_eq_ok.mp decoded
    obtain ⟨vp, vpOk, decoded⟩ := bind_eq_ok.mp decoded
    cases decoded
    simp only [BlockRef.deref, viewRecord, Location.bytes, here, ksOk, vsOk, kpOk, vpOk,
      ok_bind]
    rfl

theorem deref_viewRecord {crc32 : Bytes → UInt32} {spec : CacheSpec}
    {heap : List Buffer} {raw : Buffer} {slot : Nat} {entry : BlockEntry}
    {viewed : PackedKVBlock} (here : heap[slot]? = some raw)
    (decoded : decodeSlot crc32 spec raw entry = .ok viewed) :
    (viewRecord spec slot viewed).deref spec heap = .ok viewed := by
  unfold decodeSlot at decoded
  split at decoded
  · exact deref_of_decodePayload here (decodeRecord_eq_ok.mp decoded).2.2
  · exact deref_of_decodePayload here decoded

end KVSSD

import KVSSD.Format
import KVSSD.Lib.JsonRoundTrip

/-!
# The text of a manifest

`Manifest.save` and `Manifest.load` with the text in between.  The text is plain ASCII, so a
character is a byte of the file.  Every front part of it is refused that lacks more than the last
line end.
-/

namespace KVSSD

open KVSSD.Python KVSSD.Json

/-- `asdict(spec)`. -/
def CacheSpec.asdict (spec : CacheSpec) : Value :=
  .dict
    [("layers", .int spec.layers), ("kv_heads", .int spec.kvHeads),
      ("head_dim", .int spec.headDim), ("block_tokens", .int spec.blockTokens),
      ("bits", .int spec.bits), ("group_size", .int spec.groupSize)]

/-- `asdict(entry)`. -/
def BlockEntry.asdict (entry : BlockEntry) : Value :=
  .dict
    [("layer", .int entry.layer), ("block", .int entry.block), ("offset", .int entry.offset),
      ("length", .int entry.length), ("valid_tokens", .int entry.validTokens),
      ("crc32", .int entry.crc32)]

namespace Manifest

def body (manifest : Manifest) : Value :=
  .dict
    [("version", .int manifest.version), ("spec", manifest.spec.asdict),
      ("entries", .list (manifest.entries.map BlockEntry.asdict))]

/-- What `save` writes. -/
def text (manifest : Manifest) : List Char := dumpsIndented manifest.body ++ ['\n']

end Manifest

/-- The fields of `CacheSpec` with their defaults. -/
def CacheSpec.fields : List (String × Option Value) :=
  [("layers", none), ("kv_heads", none), ("head_dim", none), ("block_tokens", some (.int 128)),
    ("bits", some (.int 4)), ("group_size", some (.int 32))]

/-- The fields of `BlockEntry`. -/
def BlockEntry.fields : List (String × Option Value) :=
  [("layer", none), ("block", none), ("offset", none), ("length", none), ("valid_tokens", none),
    ("crc32", none)]

def CacheSpec.ofValues : List Value → Option CacheSpec
  | [.int layers, .int kvHeads, .int headDim, .int blockTokens, .int bits, .int groupSize] =>
      some ⟨layers, kvHeads, headDim, blockTokens, bits, groupSize⟩
  | _ => none

def BlockEntry.ofValues : List Value → Option BlockEntry
  | [.int layer, .int block, .int offset, .int length, .int validTokens, .int crc32] =>
      some ⟨layer, block, offset, length, validTokens, crc32⟩
  | _ => none

/-- `Manifest.load` of a text.  The data classes take any values; `none` is a manifest with a field
that is no integer. -/
def Manifest.loadText (text : List Char) : Except PyError (Option Manifest) := do
  let body ← loads text
  let spec ← (← body.item "spec").keywords CacheSpec.fields
  let entries ← (← (← body.item "entries").elements).mapM (Value.keywords BlockEntry.fields)
  let version ← body.item "version"
  return match CacheSpec.ofValues spec, entries.mapM BlockEntry.ofValues, version with
    | some spec, some entries, .int version => some ⟨spec, entries, version⟩
    | _, _, _ => none

theorem CacheSpec.keywords_asdict (spec : CacheSpec) : spec.asdict.keywords CacheSpec.fields =
    .ok [.int spec.layers, .int spec.kvHeads, .int spec.headDim, .int spec.blockTokens,
      .int spec.bits, .int spec.groupSize] := rfl

theorem BlockEntry.keywords_asdict (entry : BlockEntry) :
    entry.asdict.keywords BlockEntry.fields =
      .ok [.int entry.layer, .int entry.block, .int entry.offset, .int entry.length,
        .int entry.validTokens, .int entry.crc32] := rfl

namespace Manifest

variable (manifest : Manifest)

theorem body_written : manifest.body.Written := by
  have entries : ∀ entries : List BlockEntry, WrittenItems (entries.map BlockEntry.asdict) := by
    intro entries
    induction entries with
    | nil => trivial
    | cons entry entries induction =>
        refine ⟨⟨?_, trivial, trivial, trivial, trivial, trivial, trivial, trivial⟩, induction⟩
        change List.Nodup ["layer", "block", "offset", "length", "valid_tokens", "crc32"]
        decide
  refine ⟨?_, trivial, ⟨?_, trivial, trivial, trivial, trivial, trivial, trivial, trivial⟩,
    entries _, trivial⟩
  · change List.Nodup ["version", "spec", "entries"]
    decide
  · change List.Nodup ["layers", "kv_heads", "head_dim", "block_tokens", "bits", "group_size"]
    decide

theorem loadText_of_read {text : List Char} (reads : Json.read text = some manifest.body) :
    loadText text = .ok (some manifest) := by
  let values (entry : BlockEntry) : List Value :=
    [.int entry.layer, .int entry.block, .int entry.offset, .int entry.length,
      .int entry.validTokens, .int entry.crc32]
  have keywords : (manifest.entries.map BlockEntry.asdict).mapM
      (Value.keywords BlockEntry.fields) = .ok (manifest.entries.map values) := by
    apply mapM_of_map_ok
    rw [List.map_map, List.map_map]
    rfl
  have entries : (manifest.entries.map values).mapM BlockEntry.ofValues =
      some manifest.entries := by
    induction manifest.entries with
    | nil => rfl
    | cons entry entries induction =>
        rw [List.map_cons, List.mapM_cons, induction]
        rfl
  have listed : (manifest.body.item "entries" >>= Value.elements) =
      .ok (manifest.entries.map BlockEntry.asdict) := rfl
  have spec : (manifest.body.item "spec" >>= Value.keywords CacheSpec.fields) =
      .ok [.int manifest.spec.layers, .int manifest.spec.kvHeads, .int manifest.spec.headDim,
        .int manifest.spec.blockTokens, .int manifest.spec.bits,
        .int manifest.spec.groupSize] := rfl
  rw [loadText, loads, reads, ok_bind, ← bind_assoc, spec, ok_bind, ← bind_assoc, listed, ok_bind,
    keywords, ok_bind]
  simp [entries, CacheSpec.ofValues, Value.item, body]

theorem loadText_take (count : Nat) : loadText (manifest.text.take count) =
    if manifest.text.length ≤ count + 1 then .ok (some manifest)
    else .error (.valueError "JSONDecodeError") := by
  have length : manifest.text.length = (dumpsIndented manifest.body).length + 1 := by
    simp [text]
  split
  · rename_i most
    apply loadText_of_read
    have front : manifest.text.take count = dumpsIndented manifest.body ∨
        manifest.text.take count = dumpsIndented manifest.body ++ ['\n'] := by
      rcases Nat.lt_or_ge count manifest.text.length with less | all
      · left
        have same : count = (dumpsIndented manifest.body).length := by omega
        rw [same, text, List.take_left]
      · right
        rw [List.take_of_length_le all, text]
    rcases front with same | same
    · rw [same, ← List.append_nil (dumpsIndented _)]
      exact read_dumpsIndented manifest.body_written (.inl rfl)
    · rw [same]
      exact read_dumpsIndented manifest.body_written (.inr rfl)
  · rename_i torn
    have refused : Json.read (manifest.text.take count) = none := by
      have before : count < (dumpsIndented manifest.body).length := by omega
      exact read_take manifest.body_written (.inr rfl) before
    rw [loadText, loads, refused]
    rfl

/-- The text is plain ASCII.  It is loaded as the manifest, also without its last line end.  Any
shorter front part is refused, and so is the text with more behind it than blanks. -/
theorem text_round_trip : Ascii manifest.text ∧
    (∀ count, loadText (manifest.text.take count) =
      if manifest.text.length ≤ count + 1 then .ok (some manifest)
      else .error (.valueError "JSONDecodeError")) ∧
    ∀ rest, (∃ character ∈ rest, isBlank character = false) →
      loadText (manifest.text ++ rest) = .error (.valueError "JSONDecodeError") := by
  refine ⟨(ascii_dump _ manifest.body_written 0).append (.cons (by decide) .nil),
    manifest.loadText_take, ?_⟩
  intro rest behind
  have refused := read_behind manifest.body_written behind
  rw [loadText, loads, text, List.append_assoc, List.singleton_append, refused]
  rfl

/-- A manifest of one block. -/
example : (⟨⟨1, 1, 2, 1, 4, 2⟩, [], 1⟩ : Manifest).text =
    ("\x7b\n  \"version\": 1,\n  \"spec\": \x7b\n    \"layers\": 1,\n    \"kv_heads\": 1,\n" ++
      "    \"head_dim\": 2,\n    \"block_tokens\": 1,\n    \"bits\": 4,\n" ++
      "    \"group_size\": 2\n  \x7d,\n  \"entries\": []\n\x7d\n").toList := by
  decide +kernel

end Manifest

end KVSSD

import KVSSD.VllmConfig
import Mathlib.Data.Set.Defs

/-!
# Record identity

Two pairs of a configuration and a key share a record only if the digests of the configurations
collide, and no record leaves the directory of its namespace, whatever the model is called.
-/

namespace KVSSD

open KVSSD.Python KVSSD.Struct KVSSD.Paths

/-- `record_path`, with the joins of `pathlib`. -/
def recordPosixPath (root : PosixPath) (key : Bytes) (space : String) : Except PyError PosixPath :=
  if key.length < 5 then
    .error (.valueError "vLLM offload key must include a hash and four-byte group index")
  else
    let blockHash := hex (key.take (key.length - 4))
    let group := beNat (key.drop (key.length - 4))
    .ok ((((root.join space).join (String.ofList (blockHash.take 3))).join
      s!"{String.ofList ((blockHash.drop 3).take 2)}_g{group}").join
        s!"{String.ofList blockHash}.kvssd")

theorem not_mem_replaceChar_old {old new : Char} (different : old ≠ new) (text : List Char) :
    old ∉ replaceChar old new text := by
  intro member
  obtain ⟨character, _, replaced⟩ := List.mem_map.mp member
  by_cases same : character = old
  · rw [if_pos same] at replaced
    exact different replaced.symm
  · rw [if_neg same] at replaced
    exact same replaced

theorem not_mem_replaceChar {old new other : Char} {text : List Char} (different : other ≠ new)
    (absent : other ∉ text) : other ∉ replaceChar old new text := by
  intro member
  obtain ⟨character, present, replaced⟩ := List.mem_map.mp member
  by_cases same : character = old
  · rw [if_pos same] at replaced
    exact different replaced.symm
  · rw [if_neg same] at replaced
    exact absent (replaced ▸ present)

namespace Configuration

variable {configuration other : Configuration}

theorem not_mem_digest {character : Char}
    (different : ∀ digit < 16, Nat.digitChar digit ≠ character) :
    character ∉ configuration.digest :=
  fun member => not_mem_hex different _ (List.mem_of_mem_take member)

theorem digest_eq_of_namespace_eq
    (same : configurationNamespace configuration = configurationNamespace other) :
    configuration.digest = other.digest := by
  have characters := congrArg String.toList same
  simp only [configurationNamespace, String.toList_ofList] at characters
  have plain : ∀ configuration : Configuration, '_' ∉ configuration.digest := by
    intro configuration
    exact not_mem_digest (by decide)
  exact (append_separator_injective (plain _) (plain _) characters).2

end Configuration

/-- A directory name that stays one component on every platform. -/
structure SingleComponent (name : String) : Prop where
  plain : Plain name
  ne_parent : name ≠ ".."
  no_backslash : '\\' ∉ name.toList

theorem plain_of_mem {text : String} {character : Char} (member : character ∈ text.toList)
    (notDot : character ≠ '.') (noSlash : '/' ∉ text.toList) : Plain text ∧ text ≠ ".." := by
  constructor
  · constructor
    · rintro rfl
      simp at member
    · rintro rfl
      exact notDot (by simpa using member)
    · exact noSlash
  · rintro rfl
    exact notDot (by simpa using member)

theorem singleComponent_namespace (configuration : Configuration) :
    SingleComponent (configurationNamespace configuration) := by
  have characters : (configurationNamespace configuration).toList =
      replaceChar '\\' '_' (replaceChar '/' '_' configuration.model.toList) ++
        '_' :: configuration.digest := by
    rw [configurationNamespace, String.toList_ofList]
  have underscore : '_' ∈ (configurationNamespace configuration).toList := by
    rw [characters]
    simp
  have noSlash : '/' ∉ (configurationNamespace configuration).toList := by
    rw [characters, List.mem_append, List.mem_cons, not_or, not_or]
    refine ⟨?_, by decide, ?_⟩
    · apply not_mem_replaceChar (by decide)
      exact not_mem_replaceChar_old (by decide) _
    · exact Configuration.not_mem_digest (by decide)
  obtain ⟨plain, notParent⟩ := plain_of_mem underscore (by decide) noSlash
  constructor
  · exact plain
  · exact notParent
  · rw [characters, List.mem_append, List.mem_cons, not_or, not_or]
    refine ⟨?_, by decide, ?_⟩
    · exact not_mem_replaceChar_old (by decide) _
    · exact Configuration.not_mem_digest (by decide)

/-- The components of a record path below its namespace. -/
def recordParts (key : Bytes) : List String :=
  let blockHash := hex (key.take (key.length - 4))
  let group := beNat (key.drop (key.length - 4))
  [String.ofList (blockHash.take 3), s!"{String.ofList ((blockHash.drop 3).take 2)}_g{group}",
    s!"{String.ofList blockHash}.kvssd"]

section Paths

variable {root path : PosixPath} {key other : Bytes} {space : String} {file : FilePath}

theorem recordPosixPath_eq_ok :
    recordPosixPath root key space = .ok path ↔
      5 ≤ key.length ∧ path = (space :: recordParts key).foldl PosixPath.join root := by
  unfold recordPosixPath
  constructor
  · intro located
    obtain ⟨enough, located⟩ := passes_of_check located
    exact ⟨by omega, (Except.ok.inj located).symm⟩
  · rintro ⟨enough, rfl⟩
    rw [if_neg (by omega)]
    rfl

theorem recordPath_parts {components : List String}
    (located : recordPath components key space = .ok file) :
    file.parent ++ [file.name] = components ++ space :: recordParts key := by
  obtain ⟨_, rfl⟩ := recordPath_eq_ok.mp located
  simp [recordParts]

theorem recordParts_injective (enough : 5 ≤ key.length) (otherEnough : 5 ≤ other.length)
    (same : recordParts key = recordParts other) : key = other := by
  obtain ⟨file, located⟩ : ∃ file, recordPath [] key "" = .ok file :=
    ⟨_, recordPath_eq_ok.mpr ⟨enough, rfl⟩⟩
  obtain ⟨otherFile, otherLocated⟩ : ∃ file, recordPath [] other "" = .ok file :=
    ⟨_, recordPath_eq_ok.mpr ⟨otherEnough, rfl⟩⟩
  have parts := recordPath_parts located
  rw [same, ← recordPath_parts otherLocated] at parts
  obtain ⟨parents, names⟩ := List.append_inj' parts rfl
  have files : file = otherFile := by
    cases file
    cases otherFile
    simp only [List.cons.injEq, and_true] at parents names
    rw [parents, names]
  exact recordPath_injective (files ▸ located) otherLocated

theorem hex_ne_nil {bytes : Bytes} (nonempty : bytes ≠ []) : hex bytes ≠ [] := by
  obtain ⟨byte, rest, rfl⟩ := List.exists_cons_of_ne_nil nonempty
  simp [hex]

/-- No component below the namespace leads elsewhere. -/
theorem plain_recordParts (enough : 5 ≤ key.length) :
    ∀ part ∈ recordParts key, Plain part ∧ part ≠ ".." := by
  have noSlash : '/' ∉ hex (key.take (key.length - 4)) := not_mem_hex (by decide) _
  have noDigitSlash := @not_mem_toDigits '/' (by decide)
    (beNat (key.drop (key.length - 4)))
  intro part member
  simp only [recordParts, List.mem_cons, List.not_mem_nil, or_false] at member
  rcases member with rfl | rfl | rfl
  · have nonempty : (hex (key.take (key.length - 4))).take 3 ≠ [] := by
      have hashed : key.take (key.length - 4) ≠ [] := by
        apply List.ne_nil_of_length_pos
        rw [List.length_take]
        omega
      obtain ⟨digit, rest, split⟩ := List.exists_cons_of_ne_nil (hex_ne_nil hashed)
      simp [split]
    obtain ⟨digit, rest, split⟩ := List.exists_cons_of_ne_nil nonempty
    have digitMember : digit ∈ hex (key.take (key.length - 4)) := by
      apply List.mem_of_mem_take
      rw [split]
      exact List.mem_cons_self
    apply @plain_of_mem _ digit
    · simp [split]
    · rintro rfl
      exact not_mem_hex (by decide) _ digitMember
    · rw [String.toList_ofList]
      exact fun slash => noSlash (List.mem_of_mem_take slash)
  · apply @plain_of_mem _ '_'
    · simp [String.toList_append, ToString.toString]
    · decide
    · simp only [String.toList_append, ToString.toString, String.toList_ofList, List.mem_append,
        not_or, Nat.toList_repr]
      refine ⟨⟨?_, by decide⟩, noDigitSlash⟩
      exact fun slash => noSlash (List.mem_of_mem_drop (List.mem_of_mem_take slash))
  · apply @plain_of_mem _ 'k'
    · simp [String.toList_append, ToString.toString]
    · decide
    · simp only [String.toList_append, ToString.toString, String.toList_ofList, List.mem_append,
        not_or]
      exact ⟨noSlash, by decide⟩

theorem recordPosixPath_tail (plain : Plain space)
    (located : recordPosixPath root key space = .ok path) :
    path.anchor = root.anchor ∧ path.tail = root.tail ++ space :: recordParts key := by
  obtain ⟨enough, rfl⟩ := recordPosixPath_eq_ok.mp located
  apply PosixPath.joins_of_plain
  intro text member
  rcases List.mem_cons.mp member with rfl | inside
  · exact plain
  · exact (plain_recordParts enough text inside).1

theorem recordPosixPath_of_recordPath (plain : Plain space)
    (located : recordPath root.parts key space = .ok file) :
    ∃ path, recordPosixPath root key space = .ok path ∧
      path.parts = file.parent ++ [file.name] := by
  obtain ⟨enough, _⟩ := recordPath_eq_ok.mp located
  have joined := recordPosixPath_eq_ok.mpr
    ⟨enough, @rfl _ (List.foldl PosixPath.join root (space :: recordParts key))⟩
  obtain ⟨anchors, tails⟩ := recordPosixPath_tail plain joined
  refine ⟨_, joined, ?_⟩
  rw [recordPath_parts located]
  exact PosixPath.parts_append anchors tails

end Paths

/-- Where no two configurations in use have the same digest, a path determines the configuration
and the key.  Every record lies in the directory of its namespace, a single component below the
root. -/
theorem records_identified {configurations : Set Configuration}
    (collisionFree : ∀ first ∈ configurations, ∀ second ∈ configurations,
      first.digest = second.digest → first.Same second) (root : PosixPath) :
    (∀ first ∈ configurations, ∀ second ∈ configurations, ∀ key other path,
      recordPosixPath root key (configurationNamespace first) = .ok path →
        recordPosixPath root other (configurationNamespace second) = .ok path →
          first.Same second ∧ key = other) ∧
    ∀ configuration key, 5 ≤ key.length →
      SingleComponent (configurationNamespace configuration) ∧
      (root.join (configurationNamespace configuration)).anchor = root.anchor ∧
      (root.join (configurationNamespace configuration)).tail =
        root.tail ++ [configurationNamespace configuration] ∧
      ∃ path, recordPosixPath root key (configurationNamespace configuration) = .ok path ∧
        path.Inside (root.join (configurationNamespace configuration)) := by
  constructor
  · intro first firstUsed second secondUsed key other path located otherLocated
    obtain ⟨_, tails⟩ := recordPosixPath_tail (singleComponent_namespace first).plain located
    obtain ⟨_, otherTails⟩ :=
      recordPosixPath_tail (singleComponent_namespace second).plain otherLocated
    have below := List.append_cancel_left (tails.symm.trans otherTails)
    obtain ⟨namespaces, parts⟩ := List.cons.inj below
    constructor
    · apply collisionFree first firstUsed second secondUsed
      exact Configuration.digest_eq_of_namespace_eq namespaces
    · apply recordParts_injective
      · exact (recordPosixPath_eq_ok.mp located).1
      · exact (recordPosixPath_eq_ok.mp otherLocated).1
      · exact parts
  · intro configuration key enough
    have single := singleComponent_namespace configuration
    obtain ⟨anchor, tail⟩ := root.join_of_plain single.plain
    have joined := recordPosixPath_eq_ok.mpr ⟨enough, @rfl _ (List.foldl PosixPath.join root
      (configurationNamespace configuration :: recordParts key))⟩
    obtain ⟨anchors, tails⟩ := recordPosixPath_tail single.plain joined
    refine ⟨single, anchor, tail, _, joined, anchors.trans anchor.symm, recordParts key, ?_, ?_, ?_⟩
    · simp [recordParts]
    · rw [tails, tail, List.append_assoc, List.singleton_append]
    · intro parent
      exact (plain_recordParts enough _ parent).2 rfl

/-- A configuration that names nothing but its model. -/
def modelConfiguration (model : String) : Configuration :=
  ⟨[("model", .str model)], List.nodup_singleton _⟩

/-- A model with a slash and the model its name is rewritten to, under one key, and the key of the
next group. -/
theorem records_identified_tiny : ∃ path other group,
    recordPosixPath (PosixPath.ofString "/mnt/nvme") [171, 0, 0, 0, 7]
        (configurationNamespace (modelConfiguration "a/b")) = .ok path ∧
      recordPosixPath (PosixPath.ofString "/mnt/nvme") [171, 0, 0, 0, 7]
        (configurationNamespace (modelConfiguration "a_b")) = .ok other ∧
      recordPosixPath (PosixPath.ofString "/mnt/nvme") [171, 0, 0, 0, 8]
        (configurationNamespace (modelConfiguration "a/b")) = .ok group ∧
      path ≠ other ∧ path ≠ group := by
  have digests : (modelConfiguration "a/b").digest ≠ (modelConfiguration "a_b").digest := by
    decide +kernel
  have different : ¬ (modelConfiguration "a/b").Same (modelConfiguration "a_b") := by
    intro same
    have texts := List.perm_singleton.mp same
    simp [modelConfiguration] at texts
  have collisionFree : ∀ first ∈ ({modelConfiguration "a/b", modelConfiguration "a_b"} :
      Set Configuration), ∀ second ∈ ({modelConfiguration "a/b", modelConfiguration "a_b"} :
      Set Configuration), first.digest = second.digest → first.Same second := by
    rintro first (rfl | rfl) second (rfl | rfl) same
    · exact List.Perm.refl _
    · exact absurd same digests
    · exact absurd same.symm digests
    · exact List.Perm.refl _
  obtain ⟨distinct, inside⟩ := records_identified collisionFree (PosixPath.ofString "/mnt/nvme")
  obtain ⟨_, _, _, path, located, _⟩ :=
    inside (modelConfiguration "a/b") [171, 0, 0, 0, 7] (by decide)
  obtain ⟨_, _, _, other, otherLocated, _⟩ :=
    inside (modelConfiguration "a_b") [171, 0, 0, 0, 7] (by decide)
  obtain ⟨_, _, _, group, groupLocated, _⟩ :=
    inside (modelConfiguration "a/b") [171, 0, 0, 0, 8] (by decide)
  refine ⟨path, other, group, located, otherLocated, groupLocated, ?_, ?_⟩
  · rintro rfl
    exact different (distinct _ (.inl rfl) _ (.inr rfl) _ _ _ located otherLocated).1
  · rintro rfl
    have keys := (distinct _ (.inl rfl) _ (.inl rfl) _ _ _ located groupLocated).2
    exact absurd keys (by decide)

end KVSSD

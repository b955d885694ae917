import KVSSD.Lib.Json
import KVSSD.Lib.Paths
import KVSSD.Lib.Sha256
import KVSSD.Vllm

/-!
# Configuring the vLLM tier

`configuration_namespace` and what `KVSSDSecondaryTierManager.__init__` checks and keeps.
-/

namespace KVSSD

open KVSSD.Python KVSSD.Struct KVSSD.Paths

/-- A dictionary of strings and integers. -/
structure Configuration where
  items : List (String × Json.Scalar)
  distinct : (items.map Prod.fst).Nodup

namespace Configuration

variable (configuration : Configuration)

/-- Equality of dictionaries. -/
def Same (other : Configuration) : Prop := configuration.items.Perm other.items

/-- `str(configuration.get("model", "model"))`. -/
def model : String := ((configuration.items.lookup "model").getD (.str "model")).toStr

/-- The first 16 hexadecimal digits of the hash of the canonical JSON. -/
def digest : List Char :=
  (hex (Sha256.sha256 (Json.dumps configuration.items).toUTF8.data.toList)).take 16

end Configuration

/-- `text.replace(old, new)` for single characters. -/
def replaceChar (old new : Char) (text : List Char) : List Char :=
  text.map fun character => if character = old then new else character

def configurationNamespace (configuration : Configuration) : String :=
  let model := replaceChar '\\' '_' (replaceChar '/' '_' configuration.model.toList)
  String.ofList (model ++ '_' :: configuration.digest)

/-- `_dtype`. -/
def Dtype.named : String → Except PyError Dtype
  | "float16" => .ok .float16
  | "bfloat16" => .ok .bfloat16
  | "float32" => .ok .float32
  | _ => .error (.valueError "kvssd_dtype must be one of float16, bfloat16, float32")

/-- The primary cache as a contiguous view: its strides, and its bytes. -/
structure PrimaryView where
  strides : List Nat
  bytes : Bytes

/-- What the constructor reads of the offloading spec. -/
structure OffloadingSpec where
  model : Option String
  tensorParallel : Int
  pipelineParallel : Int

/-- The options of a `kvssd` tier. -/
structure TierOptions where
  rootDir : String
  bits : Int := 4
  groupSize : Int := 32
  kvssdDtype : String := "float16"
  nIoThreads : Int := 8

theorem TierOptions.distinct_keys :
    ["model", "dtype", "bits", "group_size", "block_bytes", "tensor_parallel",
      "pipeline_parallel"].Nodup := by
  decide

/-- The dictionary `identity`. -/
def TierOptions.identity (options : TierOptions) (spec : OffloadingSpec) (blockBytes : Nat) :
    Configuration where
  items :=
    [("model", .str (spec.model.getD "model")), ("dtype", .str options.kvssdDtype),
      ("bits", .int options.bits), ("group_size", .int options.groupSize),
      ("block_bytes", .int blockBytes), ("tensor_parallel", .int spec.tensorParallel),
      ("pipeline_parallel", .int spec.pipelineParallel)]
  distinct := distinct_keys

/-- `KVSSDSecondaryTierManager.__init__`.  The strides of a view are never `None`. -/
def TierConfig.init (vllmAvailable : Bool) (spec : OffloadingSpec) (view : PrimaryView)
    (options : TierOptions) : Except PyError TierConfig :=
  if vllmAvailable = false then
    .error (.runtimeError "vLLM 0.25 is required for KVSSDOffloadingSpec")
  else if options.bits ≠ 2 ∧ options.bits ≠ 4 then
    .error (.valueError "bits must be 2 or 4")
  else if options.groupSize ≤ 0 ∨ options.groupSize.fmod (8 / options.bits) ≠ 0 then
    .error (.valueError "group_size must be positive and pack-aligned")
  else if options.nIoThreads < 1 then
    .error (.valueError "n_io_threads must be positive")
  else
    match view.strides with
    | [] => .error .indexError
    | blockBytes :: _ => do
        let dtype ← Dtype.named options.kvssdDtype
        return { root := (PosixPath.ofString options.rootDir).parts
                 space := configurationNamespace (options.identity spec blockBytes)
                 bits := options.bits
                 groupSize := options.groupSize
                 dtype := dtype
                 blockBytes := blockBytes }

/-- What an accepted configuration satisfies. -/
structure TierConfig.Accepted (config : TierConfig) (view : PrimaryView) (options : TierOptions) :
    Prop where
  bits_eq : config.bits = options.bits
  groupSize_eq : config.groupSize = options.groupSize
  bits_cases : config.bits = 2 ∨ config.bits = 4
  group_pos : 0 < config.groupSize
  aligned : Quant.perByte config.bits ∣ config.groupSize.toNat
  threads : 1 ≤ options.nIoThreads
  stride : view.strides.head? = some config.blockBytes
  dtype : Dtype.named options.kvssdDtype = .ok config.dtype

theorem TierConfig.accepted_of_init {vllmAvailable : Bool} {spec : OffloadingSpec}
    {view : PrimaryView} {options : TierOptions} {config : TierConfig}
    (accepted : TierConfig.init vllmAvailable spec view options = .ok config) :
    config.Accepted view options := by
  obtain ⟨_, accepted⟩ := passes_of_check accepted
  obtain ⟨bits, accepted⟩ := passes_of_check accepted
  obtain ⟨groups, accepted⟩ := passes_of_check accepted
  obtain ⟨threads, accepted⟩ := passes_of_check accepted
  cases strides : view.strides with
  | nil =>
      rw [strides] at accepted
      cases accepted
  | cons blockBytes rest =>
      rw [strides] at accepted
      obtain ⟨dtype, named, kept⟩ := bind_eq_ok.mp accepted
      cases kept
      have bitsCases : options.bits = 2 ∨ options.bits = 4 := by omega
      have positive : 0 < options.groupSize := by omega
      have aligned : options.groupSize.fmod (8 / options.bits) = 0 := by omega
      constructor
      · rfl
      · rfl
      · exact bitsCases
      · exact positive
      · exact Quant.perByte_dvd_of_aligned bitsCases positive aligned
      · omega
      · rw [strides]
        rfl
      · exact named

theorem TierConfig.init_eq_ok {spec : OffloadingSpec} {view : PrimaryView} {options : TierOptions}
    {dtype : Dtype} {blockBytes : Nat} {rest : List Nat}
    (bits : options.bits = 2 ∨ options.bits = 4) (positive : 0 < options.groupSize)
    (aligned : options.groupSize.fmod (8 / options.bits) = 0) (threads : 1 ≤ options.nIoThreads)
    (strides : view.strides = blockBytes :: rest)
    (named : Dtype.named options.kvssdDtype = .ok dtype) :
    TierConfig.init true spec view options = .ok
      { root := (PosixPath.ofString options.rootDir).parts
        space := configurationNamespace (options.identity spec blockBytes)
        bits := options.bits
        groupSize := options.groupSize
        dtype := dtype
        blockBytes := blockBytes } := by
  unfold init
  rw [if_neg (by decide), if_neg (by omega), if_neg (by omega), if_neg (by omega), strides]
  simp only [named, ok_bind]
  rfl

end KVSSD

import LayerStorm.Weights.Prepacker

/-!
# Routed experts in GGUF shards

A GGUF model is a list of shards, each with a directory of tensors.  The routed experts of a layer
are stacked in one tensor for each projection.  The weight loader takes the stacks apart into
bundles whose bytes lie in the mapped shards.
-/

namespace LayerStorm.Weights

/-- What `parse_gguf_name` says about a tensor. -/
structure TensorId where
  routedExpert : Bool
  component : TensorComponent
  layerIdx : ℕ
  deriving DecidableEq, Repr

/-- `GgufTensorEntry`; `id` is its parsed name. -/
structure GgufEntry where
  name : String
  id : Option TensorId
  dims : List ℕ
  kquant : Option KQuant
  dataOffset : ℕ
  dataSizeBytes : ℕ

/-- `GgufReader`: a file, mapped at an address.  The reader has checked that the tensors lie in the
file. -/
structure Shard where
  file : List UInt8
  base : ℕ
  dataBlobOffset : ℕ
  entries : List GgufEntry
  fits : ∀ e ∈ entries, dataBlobOffset + e.dataOffset + e.dataSizeBytes ≤ file.length

def Shard.byte (s : Shard) (i : ℕ) : UInt8 := s.file.getD i 0

/-- The shards of a model with the memory they are mapped into, and the configuration. -/
structure GgufModel where
  shards : List Shard
  mem : ℕ → UInt8
  mapped : ∀ s ∈ shards, ∀ i < s.file.length, mem (s.base + i) = s.byte i
  shape : ExpertShape
  nRoutedExperts : ℕ
  numHiddenLayers : ℕ
  numNextnPredictLayers : ℕ
  moeLayerIndices : List ℕ

namespace GgufModel

variable (M : GgufModel)

def tensors : List (ℕ × Shard × GgufEntry) :=
  M.shards.zipIdx.flatMap fun x => x.1.entries.map fun e => (x.2, x.1, e)

/-- The routed experts by layer. -/
abbrev Experts := ℕ → List (List Bundle)

def stackedBundle (s : Shard) (entry : GgufEntry) (c : TensorComponent) (kt : KQuant)
    (perExpertBytes e : ℕ) : Bundle where
  component := c
  data := ⟨s.base + (s.dataBlobOffset + entry.dataOffset) + e * perExpertBytes, perExpertBytes⟩
  dtype := .u8
  ggufType := some kt
  aux := []

@[simp] theorem stackedBundle_component (s : Shard) (entry : GgufEntry) (c : TensorComponent)
    (kt : KQuant) (n e : ℕ) : (stackedBundle s entry c kt n e).component = c := rfl

/-- The size of the experts of a stacked tensor, after the checks that both paths make. -/
def perExpertBytes (who : String) (entry : GgufEntry) : Except String (KQuant × ℕ) :=
  match entry.dims with
  | [inFeatures, outFeatures, nExperts] =>
    if nExperts ≠ M.nRoutedExperts then
      .error s!"{who} '{entry.name}' has {nExperts} experts but config has {M.nRoutedExperts}"
    else
      match entry.kquant with
      | none => .error s!"{who} '{entry.name}' is not a supported GGUF k-quant"
      | some kt => do
        let perExpert ← orThrow (ggufPackedBytes outFeatures inFeatures kt)
        check (perExpert * nExperts = entry.dataSizeBytes)
          s!"{who} '{entry.name}' size {entry.dataSizeBytes} != per_expert {perExpert} x {nExperts}"
        .ok (kt, perExpert)
  | dims => .error s!"{who} '{entry.name}' expected 3 dims, got {dims.length}"

def destackExpertTensor (layers : Experts) (id : TensorId) (s : Shard) (entry : GgufEntry) :
    Except String Experts :=
  if M.numHiddenLayers ≤ id.layerIdx then .ok layers
  else do
    let (kt, perExpert) ← M.perExpertBytes "GGUF stacked expert tensor" entry
    let old := layers id.layerIdx
    -- `routed_experts` is resized to the number of experts
    let experts := old ++ List.replicate (M.nRoutedExperts - old.length) []
    .ok (Function.update layers id.layerIdx (experts.mapIdx fun e bundles =>
      if e < M.nRoutedExperts then
        bundles ++ [stackedBundle s entry id.component kt perExpert e]
      else bundles))

/-- One tensor of the scan of `load_weights_gguf`, as far as routed experts go. -/
def loadTensor (layers : Experts) (x : ℕ × Shard × GgufEntry) : Except String Experts :=
  match x.2.2.id with
  | none => .ok layers
  | some id =>
    if id.routedExpert = true then M.destackExpertTensor layers id x.2.1 x.2.2 else .ok layers

/-- The routed experts before the scan. -/
def emptyExperts : Experts := fun l =>
  if l ∈ M.moeLayerIndices ∧ l < M.numHiddenLayers then List.replicate M.nRoutedExperts [] else []

/-- The routed experts that `load_weights_gguf` collects. -/
def loadRoutedExperts : Except String Experts := M.tensors.foldlM M.loadTensor M.emptyExperts

/-- What a prepack run reads when it is given the loaded model. -/
def source (packers : Packers) (quant : QuantInterface) (weightsPath : String)
    (freshness : ℕ × String) : Except String Source := do
  let layers ← M.loadRoutedExperts
  .ok {
    mem := M.mem
    layers := (List.range M.numHiddenLayers).map layers
    packers := packers
    quant := quant
    shape := M.shape
    moeLayerIndices := M.moeLayerIndices
    nRoutedExperts := M.nRoutedExperts
    weightsPath := weightsPath
    freshness := freshness }

end GgufModel

end LayerStorm.Weights

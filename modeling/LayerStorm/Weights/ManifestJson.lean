import LayerStorm.Lib.JsonValue
import LayerStorm.Weights.ExpertSlot

/-!
# The manifest file

What `manifest.json` holds, with the integers of the file: an entry may be negative.  The manifest
is written as a JSON document and read back from it.
-/

namespace LayerStorm.Weights

open Lib

namespace KQuant

/-- `type_from_name`; `none` where it throws. -/
def typeFromName (name : String) : Option KQuant :=
  if name = "gguf_q2_k" ∨ name = "q2_k" ∨ name = "Q2_K" then some q2K
  else if name = "gguf_q3_k" ∨ name = "q3_k" ∨ name = "Q3_K" then some q3K
  else if name = "gguf_q4_k" ∨ name = "q4_k" ∨ name = "Q4_K" then some q4K
  else if name = "gguf_q5_k" ∨ name = "q5_k" ∨ name = "Q5_K" then some q5K
  else if name = "gguf_q6_k" ∨ name = "q6_k" ∨ name = "Q6_K" then some q6K
  else if name = "gguf_q8_0" ∨ name = "q8_0" ∨ name = "Q8_0" then some q80
  else if name = "gguf_mxfp4" ∨ name = "mxfp4" ∨ name = "MXFP4" then some mxfp4
  else none

/-- A type is found by its name. -/
@[simp] theorem typeFromName_typeName (t : KQuant) : typeFromName t.typeName = some t := by
  cases t <;> rfl

end KQuant

namespace Prepacked

/-! ### The contents -/

structure ManifestExpertDimensions where
  hiddenSize : ℤ
  intermediateSize : ℤ
  deriving DecidableEq

structure ManifestMoeLayers where
  count : ℤ
  firstMoeLayer : ℤ
  lastMoeLayer : ℤ
  indices : List ℤ
  deriving DecidableEq

structure ManifestProjection where
  name : String
  offset : ℤ
  totalBytes : ℤ
  weightBytes : ℤ
  scaleBytes : ℤ
  scalarBytes : ℤ
  description : String
  deriving DecidableEq

structure ManifestSlot where
  slotSizeBytes : ℤ
  strideBytes : ℤ
  alignmentBytes : ℤ
  projections : List ManifestProjection
  deriving DecidableEq

structure Manifest where
  formatVersion : String
  engineVersion : String
  sourceModelPath : String
  sourceFreshnessTimestamp : ℤ
  sourceFreshnessFile : String
  quantFormat : String
  nRoutedExperts : ℤ
  nExpertFiles : ℤ
  expertDimensions : ManifestExpertDimensions
  moeLayers : ManifestMoeLayers
  ggufTypes : Option GgufTypes
  ggufTypesPerLayer : List GgufTypes
  slot : ManifestSlot
  deriving DecidableEq

/-! ### The document -/

/-- The names of the types of an expert. -/
def typesToJson (t : GgufTypes) : Json :=
  .obj [("gate", .str t.gate.typeName), ("up", .str t.up.typeName),
    ("down", .str t.down.typeName)]

variable (j : Json)

def typesFromJson : Option GgufTypes := do
  let gate ← KQuant.typeFromName (← (← j.field "gate").getStr)
  let up ← KQuant.typeFromName (← (← j.field "up").getStr)
  let down ← KQuant.typeFromName (← (← j.field "down").getStr)
  some ⟨gate, up, down⟩

def projectionToJson (p : ManifestProjection) : Json :=
  .obj [("name", .str p.name), ("offset", .num p.offset), ("total_bytes", .num p.totalBytes),
    ("weight_bytes", .num p.weightBytes), ("scale_bytes", .num p.scaleBytes),
    ("scalar_bytes", .num p.scalarBytes), ("description", .str p.description)]

def projectionFromJson : Option ManifestProjection := do
  let name ← (← j.field "name").getStr
  let offset ← (← j.field "offset").getInt
  let totalBytes ← (← j.field "total_bytes").getInt
  let weightBytes ← (← j.field "weight_bytes").getInt
  let scaleBytes ← (← j.field "scale_bytes").getInt
  let scalarBytes ← (← j.field "scalar_bytes").getInt
  let description ← (← j.field "description").getStr
  some ⟨name, offset, totalBytes, weightBytes, scaleBytes, scalarBytes, description⟩

def slotToJson (s : ManifestSlot) : Json :=
  .obj [("slot_size_bytes", .num s.slotSizeBytes), ("stride_bytes", .num s.strideBytes),
    ("alignment_bytes", .num s.alignmentBytes),
    ("projections", .arr (s.projections.map projectionToJson))]

def slotFromJson : Option ManifestSlot := do
  let slotSizeBytes ← (← j.field "slot_size_bytes").getInt
  let alignmentBytes ← (← j.field "alignment_bytes").getInt
  -- a legacy manifest has no stride
  let strideBytes ← j.intValue "stride_bytes" 0
  let projections ← (← (← j.field "projections").getArr).mapM projectionFromJson
  some ⟨slotSizeBytes, strideBytes, alignmentBytes, projections⟩

def layersToJson (l : ManifestMoeLayers) : Json :=
  .obj [("count", .num l.count), ("first_moe_layer", .num l.firstMoeLayer),
    ("last_moe_layer", .num l.lastMoeLayer), ("indices", .arr (l.indices.map .num))]

def layersFromJson : Option ManifestMoeLayers := do
  let count ← (← j.field "count").getInt
  let firstMoeLayer ← (← j.field "first_moe_layer").getInt
  let lastMoeLayer ← (← j.field "last_moe_layer").getInt
  let indices ← (← (← j.field "indices").getArr).mapM Json.getInt
  some ⟨count, firstMoeLayer, lastMoeLayer, indices⟩

def dimensionsToJson (d : ManifestExpertDimensions) : Json :=
  .obj [("hidden_size", .num d.hiddenSize), ("intermediate_size", .num d.intermediateSize)]

def dimensionsFromJson : Option ManifestExpertDimensions := do
  let hiddenSize ← (← j.field "hidden_size").getInt
  let intermediateSize ← (← j.field "intermediate_size").getInt
  some ⟨hiddenSize, intermediateSize⟩

def manifestToJson (m : Manifest) : Json :=
  .obj ([("format_version", .str m.formatVersion), ("engine_version", .str m.engineVersion),
    ("source_model_path", .str m.sourceModelPath),
    ("source_freshness_timestamp", .num m.sourceFreshnessTimestamp),
    ("source_freshness_file", .str m.sourceFreshnessFile), ("quant_format", .str m.quantFormat),
    ("n_routed_experts", .num m.nRoutedExperts), ("n_expert_files", .num m.nExpertFiles),
    ("expert_dimensions", dimensionsToJson m.expertDimensions),
    ("moe_layers", layersToJson m.moeLayers)] ++
    (m.ggufTypes.toList.map fun t => ("gguf_types", typesToJson t)) ++
    (if m.ggufTypesPerLayer = [] then []
      else [("gguf_types_per_layer", .arr (m.ggufTypesPerLayer.map typesToJson))]) ++
    [("slot", slotToJson m.slot)])

/-- `manifest_from_json`; `none` where it throws. -/
def manifestFromJson : Option Manifest := do
  let formatVersion ← (← j.field "format_version").getStr
  let engineVersion ← (← j.field "engine_version").getStr
  let sourceModelPath ← (← j.field "source_model_path").getStr
  let sourceFreshnessTimestamp ← (← j.field "source_freshness_timestamp").getInt
  let sourceFreshnessFile ← (← j.field "source_freshness_file").getStr
  let quantFormat ← (← j.field "quant_format").getStr
  let nRoutedExperts ← (← j.field "n_routed_experts").getInt
  let nExpertFiles ← (← j.field "n_expert_files").getInt
  let expertDimensions ← dimensionsFromJson (← j.field "expert_dimensions")
  let moeLayers ← layersFromJson (← j.field "moe_layers")
  let ggufTypes ←
    if j.contains "gguf_types" then (← j.field "gguf_types") |> typesFromJson |>.map some
    else some none
  let ggufTypesPerLayer ←
    if j.contains "gguf_types_per_layer" then
      (← (← j.field "gguf_types_per_layer").getArr).mapM typesFromJson
    else some []
  let slot ← slotFromJson (← j.field "slot")
  some ⟨formatVersion, engineVersion, sourceModelPath, sourceFreshnessTimestamp,
    sourceFreshnessFile, quantFormat, nRoutedExperts, nExpertFiles, expertDimensions, moeLayers,
    ggufTypes, ggufTypesPerLayer, slot⟩

/-! ### Reading back -/

@[simp] theorem typesFromJson_toJson (t : GgufTypes) : typesFromJson (typesToJson t) = some t := by
  simp [typesFromJson, typesToJson]

@[simp] theorem projectionFromJson_toJson (p : ManifestProjection) :
    projectionFromJson (projectionToJson p) = some p := by
  simp [projectionFromJson, projectionToJson]

@[simp] theorem slotFromJson_toJson (s : ManifestSlot) : slotFromJson (slotToJson s) = some s := by
  have hprojections : (s.projections.map projectionToJson).mapM projectionFromJson =
      some s.projections := mapM_map_some fun p _ => projectionFromJson_toJson p
  simp [slotFromJson, slotToJson, Json.intValue, Json.contains, hprojections]

@[simp] theorem layersFromJson_toJson (l : ManifestMoeLayers) :
    layersFromJson (layersToJson l) = some l := by
  have hindices : (l.indices.map Json.num).mapM Json.getInt = some l.indices :=
    mapM_map_some fun n _ => Json.getInt_num n
  simp [layersFromJson, layersToJson, hindices]

@[simp] theorem dimensionsFromJson_toJson (d : ManifestExpertDimensions) :
    dimensionsFromJson (dimensionsToJson d) = some d := by
  simp [dimensionsFromJson, dimensionsToJson]

theorem manifestFromJson_toJson (m : Manifest) : manifestFromJson (manifestToJson m) = some m := by
  have hlayers : (m.ggufTypesPerLayer.map typesToJson).mapM typesFromJson =
      some m.ggufTypesPerLayer := mapM_map_some fun t _ => typesFromJson_toJson t
  obtain ⟨_, _, _, _, _, _, _, _, _, _, types, perLayer, _⟩ := m
  unfold manifestFromJson manifestToJson
  by_cases hnil : perLayer = []
  · -- the block of the layers is left out
    cases types <;> simp [Json.contains, hnil]
  · cases types <;> simp [Json.contains, hnil, hlayers]

end Prepacked

end LayerStorm.Weights

import LayerStorm.Lib.ExceptLoop
import LayerStorm.Weights.ShardScales

/-!
# Slots of the pinned region

The attention weights of a layer are uploaded into a slot whose size is computed from the
configuration before a tensor is loaded.  What is uploaded is what the sharder makes of the loaded
tensors; norms are narrowed to two bytes an element on the way.

## Main results

* `pinned_slot_fits` — the upload fits into its slot where no tensor is stored wider than the size
  allows, and fills it where the widths agree.
-/

namespace LayerStorm.Weights

open List Nat
namespace Tp

open Lib

variable {β : Type}

/-! ### Widths -/

/-- A number of bytes for a number of elements. -/
structure Width where
  bytes : ℕ
  values : ℕ
  pos : 0 < values

namespace Width

/-- A number of bytes for each element. -/
def whole (n : ℕ) : Width := ⟨n, 1, Nat.one_pos⟩

/-- The bytes of a number of elements, rounded down as a cast does. -/
def bytesOf (w : Width) (n : ℕ) : ℕ := n * w.bytes / w.values

def AtMost (w w' : Width) : Prop := w.bytes * w'.values ≤ w'.bytes * w.values

/-- Equally wide. -/
def Same (w w' : Width) : Prop := w.bytes * w'.values = w'.bytes * w.values

instance (w w' : Width) : Decidable (w.AtMost w') := inferInstanceAs (Decidable (_ ≤ _))

instance (w w' : Width) : Decidable (w.Same w') := inferInstanceAs (Decidable (_ = _))

end Width

def packedWidth (type : KQuant) : Width := ⟨type.blockBytes, type.blockValues, type.blockValues_pos⟩

/-- `kBf16BytesPerElement`. -/
def bf16Width : Width := .whole 2

/-- `bytes_per_element`; `none` where it throws. -/
def bytesPerElement : WeightQuant → Option Width
  | .nvfp4 => some ⟨9, 16, Nat.two_pow_pos 4⟩
  | .fp8E4m3 | .fp8E5m2 => some (.whole 1)
  | .int4Symmetric | .int4Asymmetric => some ⟨33, 64, Nat.succ_pos _⟩
  | .ggufUniform .mxfp4 => some (.whole 1)
  | .ggufUniform type => some (packedWidth type)
  | .gguf => none

def isGgufWeightQuant : WeightQuant → Bool
  | .gguf | .ggufUniform _ => true
  | _ => false

/-- Whether the native arm takes the blocks of FP8 scales. -/
def isFp8 (wq : WeightQuant) : Bool := wq = .fp8E4m3 ∨ wq = .fp8E5m2

/-! ### Configurations -/

/-- `LinearAttnConfig`, with the defaults of the schema. -/
structure LinearAttnConfig where
  numHeads : ℕ := 64
  headDim : ℕ := 128
  shortConvKernelSize : ℕ := 4

/-- `ModelConfig`, as far as the sizes read it. -/
structure ModelConfig where
  hiddenSize : ℕ
  numAttentionHeads : ℕ
  qLoraRank : ℕ
  kvLoraRank : ℕ
  qkNopeHeadDim : ℕ
  qkRopeHeadDim : ℕ
  vHeadDim : ℕ
  indexTopk : ℕ
  indexNHeads : ℕ
  indexHeadDim : ℕ
  indexKpool : ℕ
  hcMult : ℕ
  linearAttnConfig : Option LinearAttnConfig

namespace ModelConfig

variable (m : ModelConfig)

def qBOut : ℕ := m.numAttentionHeads * (m.qkNopeHeadDim + m.qkRopeHeadDim)

def kvAOut : ℕ := m.kvLoraRank + m.qkRopeHeadDim

def kvBOut : ℕ := m.numAttentionHeads * (m.qkNopeHeadDim + m.vHeadDim)

def oIn : ℕ := m.numAttentionHeads * m.vHeadDim

/-- The linear-attention block, or its defaults. -/
def linear : LinearAttnConfig := m.linearAttnConfig.getD {}

/-- `hc_mult`, at least one. -/
def hc : ℕ := max 1 m.hcMult

def hcMix : ℕ := (2 + m.hc) * m.hc

end ModelConfig

structure AttentionDims where
  qAParams : ℕ
  qBParams : ℕ
  kvAParams : ℕ
  kvBParams : ℕ
  oParams : ℕ
  qANormParams : ℕ
  kvANormParams : ℕ
  indexerParams : ℕ
  indexerNormParams : ℕ
  qAIn : ℕ
  qBIn : ℕ
  kvAIn : ℕ
  kvBIn : ℕ
  oIn : ℕ

def computeAttnDims (m : ModelConfig) : AttentionDims where
  qAParams := m.hiddenSize * m.qLoraRank
  qBParams := m.qLoraRank * m.qBOut
  kvAParams := m.hiddenSize * m.kvAOut
  kvBParams := m.kvLoraRank * m.kvBOut
  oParams := m.numAttentionHeads * m.vHeadDim * m.hiddenSize
  qANormParams := m.qLoraRank
  kvANormParams := m.kvLoraRank
  indexerParams :=
    if 0 < m.indexTopk then
      m.qLoraRank * m.indexNHeads * m.indexHeadDim + m.hiddenSize * m.indexHeadDim +
        m.indexHeadDim + m.indexHeadDim + m.hiddenSize * m.indexNHeads
    else 0
  indexerNormParams := if 0 < m.indexTopk then m.indexHeadDim + m.indexHeadDim else 0
  qAIn := m.hiddenSize
  qBIn := m.qLoraRank
  kvAIn := m.hiddenSize
  kvBIn := m.kvLoraRank
  oIn := m.oIn

/-! ### Sizes of a slot -/

/-- Rounding up to the sixteen bytes that the next slot starts at. -/
def roundUp16 (total : ℕ) : ℕ := (total + 15) / 16 * 16

variable (d : AttentionDims) (c : TensorComponent)

/-- The indexer: its projections and its norms at two bytes an element. -/
def indexerBytes (includeIndexer : Bool) : ℕ :=
  if includeIndexer ∧ 0 < d.indexerParams then
    bf16Width.bytesOf (d.indexerParams - d.indexerNormParams) + d.indexerNormParams * 2
  else 0

/-- `gguf_attention_layer_bytes`; `none` where it throws. -/
def ggufAttentionLayerBytes (type : KQuant) (includeKvB : Bool) (tp : ℕ)
    (includeIndexer : Bool) : Option ℕ := do
  let packed (params inFeatures : ℕ) : Option ℕ :=
    ggufPackedBytes (if 0 < inFeatures then params / inFeatures else 0) inFeatures type
  let qA ← packed d.qAParams d.qAIn
  let kvA ← packed d.kvAParams d.kvAIn
  let norms := (d.qANormParams + d.kvANormParams) * 2
  let qB ← packed d.qBParams d.qBIn
  let packedKvB := if includeKvB then packed d.kvBParams d.kvBIn else some 0
  let kvB ← packedKvB
  let o ← packed d.oParams d.oIn
  return roundUp16 (qA + kvA + norms + indexerBytes d includeIndexer + qB / tp + kvB / tp + o / tp)

/-- `attention_layer_bytes`; `none` where it throws. -/
def attentionLayerBytes (wq : WeightQuant) (includeKvB : Bool) (tp : ℕ)
    (includeIndexer forceBf16Oproj : Bool) : Option ℕ :=
  let norms := (d.qANormParams + d.kvANormParams) * 2
  let indexer := indexerBytes d includeIndexer
  let shardable := if includeKvB then d.qBParams + d.kvBParams else d.qBParams
  match wq with
  | .gguf =>
    let replicated := bf16Width.bytesOf (d.qAParams + d.kvAParams)
    let oBytes := bf16Width.bytesOf d.oParams / tp
    some (roundUp16 (replicated + norms + indexer + bf16Width.bytesOf shardable / tp + oBytes))
  | .ggufUniform type => ggufAttentionLayerBytes d type includeKvB tp includeIndexer
  | wq => do
    let projBpe ← if wq = .nvfp4 then some bf16Width else bytesPerElement wq
    let replicated := projBpe.bytesOf (d.qAParams + d.kvAParams)
    let oBytes :=
      if wq = .nvfp4 ∧ forceBf16Oproj = false then
        (d.oParams + 1) / 2 / tp + (d.oParams + 15) / 16 / tp + 2 * 4
      else (if forceBf16Oproj then bf16Width else projBpe).bytesOf d.oParams / tp
    return roundUp16 (replicated + norms + indexer + projBpe.bytesOf shardable / tp + oBytes)

/-- `GgufNonExpertWidths`: the k-quant type of a component of a layer, where the file packs it. -/
abbrev GgufNonExpertWidths := ℕ → TensorComponent → Option KQuant

/-- What the table has for a component; a layer may be unknown. -/
def findWidth (widths : Option GgufNonExpertWidths) (layerIdx : Option ℕ) (c : TensorComponent) :
    Option KQuant := do
  let table ← widths
  let layer ← layerIdx
  table layer c

/-- `packed`: a matrix that is uploaded packed, at its real width or at two bytes an element. -/
def packedBytes (type : TensorComponent → Option KQuant) (comp : TensorComponent)
    (out inFeatures : ℕ) : ℕ :=
  match type comp with
  | some type =>
    if inFeatures % type.blockValues = 0 then
      out * (inFeatures / type.blockValues) * type.blockBytes
    else out * inFeatures * 2
  | none => out * inFeatures * 2

def glmFp8ScaleBytes (nRows kCols rowTp colTp : ℕ) : ℕ :=
  blockCount nRows 128 / rowTp * (blockCount kCols 128 / colTp) * 4

def glm5NextHcBytes (m : ModelConfig) : ℕ :=
  let fn := m.hcMix * (m.hc * m.hiddenSize)
  2 * (fn * 4 + m.hcMix * 4 + 3 * 4)

section

variable (m : ModelConfig) (wq : WeightQuant) (tp : ℕ) (packed : TensorComponent → ℕ → ℕ → ℕ)

/-- The arm of the linear layers. -/
def kdaLayerBytes : ℕ :=
  let la := m.linear
  let hd := la.numHeads * la.headDim
  let convBpe := if isGgufWeightQuant wq then 4 else 2
  let oNormBpe := if isGgufWeightQuant wq then 4 else 2
  packed .kdaQProj (hd / tp) m.hiddenSize +
  packed .kdaKProj (hd / tp) m.hiddenSize +
  packed .kdaVProj (hd / tp) m.hiddenSize +
  packed .kdaBProj (la.numHeads / tp) m.hiddenSize +
  packed .kdaFAProj la.headDim m.hiddenSize +
  packed .kdaGAProj la.headDim m.hiddenSize +
  packed .kdaFBProj (hd / tp) la.headDim +
  packed .kdaGBProj (hd / tp) la.headDim +
  3 * (hd / tp) * la.shortConvKernelSize * convBpe +
  la.numHeads / tp * 4 +
  hd / tp * 4 +
  la.headDim * oNormBpe +
  packed .oProj m.hiddenSize (hd / tp)

def sparseGgufLayerBytes : ℕ :=
  packed .qAProj m.qLoraRank m.hiddenSize +
  m.qLoraRank * 2 +
  packed .qBProj (m.qBOut / tp) m.qLoraRank +
  packed .kvAProjWithMqa m.kvAOut m.hiddenSize +
  m.kvLoraRank * 2 +
  m.kvBOut / tp * m.kvLoraRank * 2 +
  packed .oProj m.hiddenSize (m.oIn / tp) +
  packed .indexerWqB (m.indexNHeads * m.indexHeadDim) m.qLoraRank +
  packed .indexerWk m.indexHeadDim m.hiddenSize +
  2 * m.indexHeadDim * 2 +
  m.indexNHeads * m.hiddenSize * 4 +
  if 1 < m.indexKpool then m.indexHeadDim * m.hiddenSize * 2 + m.indexKpool * m.indexHeadDim * 4
  else 0

def sparseNativeLayerBytes (projBpe : Width) : ℕ :=
  let scale (nRows kCols rowTp colTp : ℕ) : ℕ :=
    if isFp8 wq then glmFp8ScaleBytes nRows kCols rowTp colTp else 0
  projBpe.bytesOf (m.qLoraRank * m.hiddenSize) + scale m.qLoraRank m.hiddenSize 1 1 +
  m.qLoraRank * 2 +
  projBpe.bytesOf (m.qBOut / tp * m.qLoraRank) + scale m.qBOut m.qLoraRank tp 1 +
  projBpe.bytesOf (m.kvAOut * m.hiddenSize) + scale m.kvAOut m.hiddenSize 1 1 +
  m.kvLoraRank * 2 +
  m.kvBOut / tp * m.kvLoraRank * 2 +
  projBpe.bytesOf (m.hiddenSize * (m.oIn / tp)) + scale m.hiddenSize m.oIn 1 tp +
  m.indexNHeads * m.indexHeadDim * m.qLoraRank * 2 +
  m.indexHeadDim * m.hiddenSize * 2 +
  2 * m.indexHeadDim * 2 +
  m.indexNHeads * m.hiddenSize * 2 +
  if 1 < m.indexKpool then m.indexHeadDim * m.hiddenSize * 2 + m.indexKpool * m.indexHeadDim * 2
  else 0

end

/-- `glm5_next_attention_layer_bytes`; `none` where it throws. -/
def glm5NextAttentionLayerBytes (m : ModelConfig) (wq : WeightQuant)
    (linearAttention includeHc : Bool) (tp : ℕ) (widths : Option GgufNonExpertWidths)
    (layerIdx : Option ℕ) : Option ℕ :=
  let t := max 1 tp
  let packed := packedBytes (findWidth widths layerIdx)
  let projBpe : Option Width := if isFp8 wq then some (.whole 1) else bytesPerElement wq
  let arm : Option ℕ :=
    if linearAttention then some (kdaLayerBytes m wq t packed)
    else if isGgufWeightQuant wq then some (sparseGgufLayerBytes m t packed)
    else projBpe.map (sparseNativeLayerBytes m wq t)
  if wq = .nvfp4 then none
  else arm.map fun b => roundUp16 (b + if includeHc then glm5NextHcBytes m else 0)

/-! ### What a configuration prescribes -/

/-- A tensor as a configuration prescribes it: its shape, and the shapes of its scales. -/
structure TensorSpec where
  component : TensorComponent
  shape : List ℕ
  aux : List (TensorRole × List ℕ) := []
  deriving DecidableEq

section

variable (m : ModelConfig)

/-- The projections and norms of latent attention; with the blocks of FP8 scales. -/
def mlaTensors (includeKvB fp8 : Bool) : List TensorSpec :=
  let scale (rows cols : ℕ) : List (TensorRole × List ℕ) :=
    if fp8 then [(.weightScale, [blockCount rows 128, blockCount cols 128])] else []
  [⟨.qAProj, [m.qLoraRank, m.hiddenSize], scale m.qLoraRank m.hiddenSize⟩,
    ⟨.qANorm, [m.qLoraRank], []⟩,
    ⟨.qBProj, [m.qBOut, m.qLoraRank], scale m.qBOut m.qLoraRank⟩,
    ⟨.kvAProjWithMqa, [m.kvAOut, m.hiddenSize], scale m.kvAOut m.hiddenSize⟩,
    ⟨.kvANorm, [m.kvLoraRank], []⟩,
    ⟨.oProj, [m.hiddenSize, m.oIn], scale m.hiddenSize m.oIn⟩] ++
  if includeKvB then [⟨.kvBProj, [m.kvBOut, m.kvLoraRank], []⟩] else []

def indexerTensors : List TensorSpec :=
  [⟨.indexerWqB, [m.indexNHeads * m.indexHeadDim, m.qLoraRank], []⟩,
    ⟨.indexerWk, [m.indexHeadDim, m.hiddenSize], []⟩,
    ⟨.indexerKNormWeight, [m.indexHeadDim], []⟩,
    ⟨.indexerKNormBias, [m.indexHeadDim], []⟩,
    ⟨.indexerWeightsProj, [m.indexNHeads, m.hiddenSize], []⟩]

/-- The compressor of the index pool. -/
def kpoolTensors : List TensorSpec :=
  if 1 < m.indexKpool then
    [⟨.indexerCompressorWgate, [m.indexHeadDim, m.hiddenSize], []⟩,
      ⟨.indexerCompressorApe, [m.indexKpool, m.indexHeadDim], []⟩]
  else []

/-- The tensors of a linear layer. -/
def kdaTensors : List TensorSpec :=
  let la := m.linear
  let hd := la.numHeads * la.headDim
  [⟨.kdaQProj, [hd, m.hiddenSize], []⟩, ⟨.kdaKProj, [hd, m.hiddenSize], []⟩,
    ⟨.kdaVProj, [hd, m.hiddenSize], []⟩, ⟨.kdaBProj, [la.numHeads, m.hiddenSize], []⟩,
    ⟨.kdaFAProj, [la.headDim, m.hiddenSize], []⟩, ⟨.kdaGAProj, [la.headDim, m.hiddenSize], []⟩,
    ⟨.kdaFBProj, [hd, la.headDim], []⟩, ⟨.kdaGBProj, [hd, la.headDim], []⟩,
    ⟨.kdaQConv1d, [hd, 1, la.shortConvKernelSize], []⟩,
    ⟨.kdaKConv1d, [hd, 1, la.shortConvKernelSize], []⟩,
    ⟨.kdaVConv1d, [hd, 1, la.shortConvKernelSize], []⟩,
    ⟨.kdaALog, [la.numHeads], []⟩, ⟨.kdaDtBias, [hd], []⟩, ⟨.kdaONorm, [la.headDim], []⟩,
    ⟨.oProj, [m.hiddenSize, hd], []⟩]

/-- The stream weights of a hidden layer. -/
def hcTensors : List TensorSpec :=
  [⟨.hcAttnFn, [m.hcMix, m.hc * m.hiddenSize], []⟩, ⟨.hcAttnBase, [m.hcMix], []⟩,
    ⟨.hcAttnScale, [3], []⟩,
    ⟨.hcFfnFn, [m.hcMix, m.hc * m.hiddenSize], []⟩, ⟨.hcFfnBase, [m.hcMix], []⟩,
    ⟨.hcFfnScale, [3], []⟩]

end

/-- The layers whose slot is sized, with the arguments of the size: latent attention, and the two
anatomies of the hybrid model. -/
inductive SlotKind
  | mla (includeKvB includeIndexer forceBf16Oproj : Bool)
  | glm5Next (linearAttention includeHc : Bool) (widths : Option GgufNonExpertWidths)
    (layerIdx : Option ℕ)

namespace SlotKind

def slotBytes (m : ModelConfig) (wq : WeightQuant) (tp : ℕ) : SlotKind → Option ℕ
  | mla includeKvB includeIndexer forceBf16Oproj =>
    attentionLayerBytes (computeAttnDims m) wq includeKvB tp includeIndexer forceBf16Oproj
  | glm5Next linearAttention includeHc widths layerIdx =>
    glm5NextAttentionLayerBytes m wq linearAttention includeHc tp widths layerIdx

def attention (m : ModelConfig) (wq : WeightQuant) : SlotKind → List TensorSpec
  | mla includeKvB _ _ => mlaTensors m includeKvB false
  | glm5Next linearAttention includeHc _ _ =>
    (if linearAttention then kdaTensors m else mlaTensors m true (isFp8 wq)) ++
      if includeHc then hcTensors m else []

def indexer (m : ModelConfig) : SlotKind → List TensorSpec
  | mla _ includeIndexer _ => if includeIndexer ∧ 0 < m.indexTopk then indexerTensors m else []
  | glm5Next linearAttention .. =>
    if linearAttention then [] else indexerTensors m ++ kpoolTensors m

/-- The formats that are meant: the GGUF ones, and the native FP8 checkpoint of the hybrid model. -/
def Covers (wq : WeightQuant) : SlotKind → Prop
  | mla .. => isGgufWeightQuant wq
  | glm5Next .. => isGgufWeightQuant wq ∨ isFp8 wq

/-- The native FP8 arm; a linear layer has no width table there. -/
def Native (wq : WeightQuant) : SlotKind → Prop
  | mla .. => False
  | glm5Next linearAttention _ widths _ => isFp8 wq ∧ (linearAttention → widths = none)

end SlotKind

def tableWidth (type : Option KQuant) : Width := type.elim bf16Width packedWidth

/-- The width that a uniform or a mixed GGUF format allows. -/
def mlaWidth (wq : WeightQuant) : TensorComponent → Width
  | .qAProj | .qBProj | .kvAProjWithMqa | .kvBProj | .oProj =>
    match wq with
    | .ggufUniform type => packedWidth type
    | _ => bf16Width
  | _ => bf16Width

/-- The width that a linear layer allows. -/
def kdaWidth (wq : WeightQuant) (type : TensorComponent → Option KQuant) : TensorComponent → Width
  | .kdaALog | .kdaDtBias => .whole 4
  | .hcAttnFn | .hcAttnBase | .hcAttnScale | .hcFfnFn | .hcFfnBase | .hcFfnScale => .whole 4
  | .kdaQConv1d | .kdaKConv1d | .kdaVConv1d | .kdaONorm =>
    if isGgufWeightQuant wq then .whole 4 else bf16Width
  | c => tableWidth (type c)

def sparseGgufWidth (type : TensorComponent → Option KQuant) : TensorComponent → Width
  | .hcAttnFn | .hcAttnBase | .hcAttnScale | .hcFfnFn | .hcFfnBase | .hcFfnScale => .whole 4
  | .indexerWeightsProj | .indexerCompressorApe => .whole 4
  | .qANorm | .kvANorm | .kvBProj | .indexerKNormWeight | .indexerKNormBias
  | .indexerCompressorWgate => bf16Width
  | c => tableWidth (type c)

/-- The width that a sparse layer of an FP8 checkpoint allows. -/
def sparseNativeWidth : TensorComponent → Width
  | .hcAttnFn | .hcAttnBase | .hcAttnScale | .hcFfnFn | .hcFfnBase | .hcFfnScale => .whole 4
  | .qAProj | .qBProj | .kvAProjWithMqa | .oProj => .whole 1
  | _ => bf16Width

/-- **The width that a size allows** for a component. -/
def SlotKind.width (wq : WeightQuant) : SlotKind → TensorComponent → Width
  | .mla .., c => mlaWidth wq c
  | .glm5Next linearAttention _ widths layerIdx, c =>
    if linearAttention then kdaWidth wq (findWidth widths layerIdx) c
    else if isGgufWeightQuant wq then sparseGgufWidth (findWidth widths layerIdx) c
    else sparseNativeWidth c

/-! ### What is uploaded -/

/-- `is_norm`: the components that are narrowed if they are stored in four bytes. -/
def isNorm : TensorComponent → Bool
  | .qANorm | .kvANorm | .indexerKNormWeight | .indexerKNormBias => true
  | _ => false

/-- `total_bytes`; `none` where it throws. -/
def ShardedWeightBundle.totalBytes (sb : ShardedWeightBundle β) : Option ℕ := do
  let weight ← sb.weight.sizeBytes
  let aux ← sb.aux.mapM fun p => p.2.sizeBytes
  return weight + aux.sum

/-- The bytes that a bundle takes: a norm of four bytes an element is halved. -/
def uploadBytes (sb : ShardedWeightBundle β) : Option ℕ := do
  let total ← sb.totalBytes
  let weight ← sb.weight.sizeBytes
  return total - if isNorm sb.component ∧ sb.weight.dtype = .f32 then weight / 2 else 0

/-- `actual`: what a layer takes. -/
def layerBytes (sharded : List (ShardedWeightBundle β)) : Option ℕ :=
  (sharded.mapM uploadBytes).map List.sum

def shardAttentionLayer (tp : TpWeightSharder) (attention indexer : List (WeightBundle β))
    (rank : ℕ) : Except ShardError (List (ShardedWeightBundle β)) := do
  let sharded ← attention.mapM fun b => shardAttention tp b rank
  return sharded ++ indexer.map wholeBundle

/-! ### What is loaded -/

/-- The prescription that a loaded tensor meets. -/
def WeightBundle.spec (b : WeightBundle β) : TensorSpec :=
  ⟨b.component, b.weight.shape, b.aux.map fun p => (p.1, p.2.shape)⟩

def uploadWidth (t : RawTensor β) : Width :=
  if isNorm c ∧ t.dtype = .f32 then bf16Width
  else ⟨unitBytes t.dtype t.ggufType, unitValues t.ggufType, unitValues_pos _⟩

/-- Only matrices are packed, into bytes. -/
structure WellStored (b : WeightBundle β) : Prop where
  weight : b.weight.ggufType.isSome → b.weight.shape.length = 2 ∧ b.weight.dtype = .u8
  aux : ∀ p ∈ b.aux, p.2.ggufType = none

/-- A tensor is not stored wider than a size allows, and its scales not wider than a `float`. -/
structure NotWider (width : TensorComponent → Width) (b : WeightBundle β) : Prop
    extends WellStored b where
  le : (uploadWidth b.component b.weight).AtMost (width b.component)
  aux_le : ∀ p ∈ b.aux, p.2.dtype.size ≤ 4

/-- A tensor is stored at the width of the size, and its scales as `float`s. -/
structure AsWide (width : TensorComponent → Width) (b : WeightBundle β) : Prop
    extends WellStored b where
  same : (uploadWidth b.component b.weight).Same (width b.component)
  aux_eq : ∀ p ∈ b.aux, p.2.dtype.size = 4

/-- The loaded tensors of a layer are the prescribed ones. -/
structure Prescribed (m : ModelConfig) (wq : WeightQuant) (kind : SlotKind)
    (attention indexer : List (WeightBundle β)) : Prop where
  attention : (attention.map WeightBundle.spec).Perm (kind.attention m wq)
  indexer : (indexer.map WeightBundle.spec).Perm (kind.indexer m)

/-! ### Shapes of the shards -/

def rankShape (tp : TpWeightSharder) (mode : ShardMode) (shape : List ℕ) : List ℕ :=
  match mode with
  | .replicated => shape
  | .columnParallel => shape.set 0 (shape.getD 0 1 / tp.tpDegree)
  | .rowParallel => shape.set 1 (shape.getD 1 1 / tp.tpDegree)

/-- The way a scale is split. -/
def scaleMode (role : TensorRole) (mode : ShardMode) (shape : List ℕ) : ShardMode :=
  if role = .weightScale2 ∨ role = .inputScale ∨ role = .bias ∨ shape.length < 2 then .replicated
  else mode

/-- **The bytes that a size allows** for a tensor on a rank. -/
def allowedBytes (tp : TpWeightSharder) (width : TensorComponent → Width) (σ : TensorSpec) : ℕ :=
  (width σ.component).bytesOf (rankShape tp (shardModeFor σ.component) σ.shape).prod +
    (σ.aux.map fun p =>
      (rankShape tp (scaleMode p.1 (shardModeFor σ.component) p.2) p.2).prod * 4).sum

/-! ### Widths, compared -/

namespace Width

theorem bytesOf_whole (k n : ℕ) : (whole k).bytesOf n = n * k := Nat.div_one _

theorem bytesOf_bf16 (n : ℕ) : bf16Width.bytesOf n = n * 2 := bytesOf_whole 2 n

end Width

/-! ### One tensor -/

variable {tp : TpWeightSharder} {mode : ShardMode} {rank : ℕ}
variable {s : ShardedTensor β} {t : RawTensor β}

theorem shardByMode_shape (hpacked : t.ggufType.isSome → t.shape.length = 2)
    (h : shardByMode tp mode t rank = .ok s) :
    s.dtype = t.dtype ∧ s.ggufType = t.ggufType ∧ s.shape = rankShape tp mode t.shape := by
  cases mode with
  | replicated =>
    cases h
    exact ⟨rfl, rfl, rfl⟩
  | columnParallel =>
    rw [shardByMode, shardColumnParallel] at h
    split_ifs at h with hnil hvector
    · cases h
      simp [wrapReplicated, rankShape, hnil]
    · -- a packed tensor is a matrix
      have := hpacked hvector.1
      omega
    cases htype : t.ggufType with
    | some type | none =>
      simp only [htype] at h
      split_ifs at h
      obtain ⟨data, -, rfl⟩ := except_map_ok h
      exact ⟨rfl, rfl, rfl⟩
  | rowParallel =>
    rw [shardByMode, shardRowParallel] at h
    split_ifs at h with hvector
    · cases h
      refine ⟨rfl, rfl, ?_⟩
      rw [rankShape, set_eq_of_length_le (by omega)]
      rfl
    · cases htype : t.ggufType with
      | some type | none =>
        simp only [htype] at h
        split_ifs at h
        obtain ⟨data, -, rfl⟩ := except_map_ok h
        exact ⟨rfl, rfl, rfl⟩

variable {n : ℕ}

theorem sizeBytes_mul (hpacked : s.ggufType.isSome → s.shape.length = 2)
    (h : s.sizeBytes = some n) :
    n * unitValues s.ggufType = s.shape.prod * unitBytes s.dtype s.ggufType := by
  cases htype : s.ggufType with
  | none =>
    simp only [ShardedTensor.sizeBytes, htype] at h
    cases h
    simp [ShardedTensor.numel, unitValues, unitBytes]
  | some type =>
    obtain ⟨rows, cols, hshape⟩ := length_eq_two.1 (hpacked (by simp [htype]))
    simp only [ShardedTensor.sizeBytes, htype, hshape, ggufPackedBytes] at h
    split_ifs at h with hcols
    cases h
    obtain ⟨c, rfl⟩ := dvd_of_mod_eq_zero (not_not.1 hcols)
    rw [Nat.mul_div_cancel_left _ type.blockValues_pos, hshape, unitValues, unitBytes]
    simp only [prod_cons, prod_nil]
    ring

@[simp] theorem length_rankShape (tp : TpWeightSharder) (mode : ShardMode) (shape : List ℕ) :
    (rankShape tp mode shape).length = shape.length := by
  cases mode <;> simp [rankShape]

theorem rankShape_effectiveMode (tp : TpWeightSharder) (mode : ShardMode) (shape : List ℕ) :
    rankShape tp (effectiveMode tp mode) shape = rankShape tp mode shape := by
  rw [effectiveMode]
  split
  · next hone =>
    have htp : tp.tpDegree = 1 := le_antisymm hone tp.pos
    have hset : ∀ i, shape.set i (shape.getD i 1 / 1) = shape := by
      intro i
      apply ext_getElem?
      intro k
      by_cases hk : i = k
      · subst hk
        rcases lt_or_ge i shape.length with hi | hi
        · simp [hi]
        · simp [hi]
      · simp [hk]
    cases mode <;> simp only [rankShape, htp, hset]
  · rfl

/-! ### One bundle -/

/-- **The bytes that a tensor takes** on a rank. -/
def rankBytes (tp : TpWeightSharder) (b : WeightBundle β) : ℕ :=
  (uploadWidth b.component b.weight).bytesOf
      (rankShape tp (shardModeFor b.component) b.weight.shape).prod +
    (b.aux.map fun p => (rankShape tp (scaleMode p.1 (shardModeFor b.component) p.2.shape)
      p.2.shape).prod * p.2.dtype.size).sum

theorem sizeBytes_plain (hplain : s.ggufType = none) :
    s.sizeBytes = some (s.shape.prod * s.dtype.size) := by
  simp only [ShardedTensor.sizeBytes, hplain]
  rfl

theorem shardScale_size {role : TensorRole} (hplain : t.ggufType = none)
    (h : shardScale tp t role (effectiveMode tp mode) rank = .ok s) :
    s.sizeBytes =
      some ((rankShape tp (scaleMode role mode t.shape) t.shape).prod * t.dtype.size) := by
  rw [shardScale] at h
  by_cases hrole : role = .weightScale2 ∨ role = .inputScale ∨ role = .bias ∨ t.shape.length < 2
  · have hs : s = wrapReplicated t := by
      split_ifs at h with h₁ h₂ h₃
      · exact (Except.ok.inj h).symm
      · exact (Except.ok.inj h).symm
      · exact (Except.ok.inj h).symm
      simp only [not_or] at h₁
      rcases hrole with hr | hr | hr | hr
      · exact absurd hr h₁.1
      · exact absurd hr h₁.2
      · exact absurd hr h₂
      · exact absurd hr h₃
    rw [hs, sizeBytes_plain (by exact hplain), scaleMode, if_pos hrole]
    rfl
  · rw [scaleMode, if_neg hrole]
    simp only [not_or] at hrole
    rw [if_neg (by simp [hrole]), if_neg hrole.2.2.1, if_neg hrole.2.2.2] at h
    obtain ⟨hdtype, htype, hshape⟩ := shardByMode_shape (by simp [hplain]) h
    rw [sizeBytes_plain (htype.trans hplain), hdtype, hshape, rankShape_effectiveMode]

theorem shardScales_size {aux : List (TensorRole × RawTensor β)}
    {out : List (TensorRole × ShardedTensor β)} (hplain : ∀ p ∈ aux, p.2.ggufType = none)
    (h : (aux.mapM fun p => do
      let scale ← shardScale tp p.2 p.1 (effectiveMode tp mode) rank
      return (p.1, scale)) = .ok out) :
    out.mapM (fun p => p.2.sizeBytes) = some (aux.map fun p =>
      (rankShape tp (scaleMode p.1 mode p.2.shape) p.2.shape).prod * p.2.dtype.size) := by
  induction aux generalizing out with
  | nil =>
    cases h
    rfl
  | cons p aux ih =>
    obtain ⟨q, rest, hq, hrest, rfl⟩ := mapM_cons_ok h
    cases hs : shardScale tp p.2 p.1 (effectiveMode tp mode) rank with
    | error e =>
      rw [hs] at hq
      cases hq
    | ok scale =>
      rw [hs] at hq
      cases hq
      have hsize := shardScale_size (hplain p mem_cons_self) hs
      have hrec := ih (fun p hp => hplain p (mem_cons_of_mem _ hp)) hrest
      simp only [mapM_cons, hsize, hrec]
      rfl

variable {b : WeightBundle β}

/-- **What a bundle takes** is the bytes of its tensors on the rank. -/
theorem shardAttention_bytes {s : ShardedWeightBundle β} (hwell : WellStored b)
    (hs : shardAttention tp b rank = .ok s) (hn : uploadBytes s = some n) :
    n = rankBytes tp b := by
  obtain ⟨sb, hsb, rfl⟩ := except_map_ok hs
  obtain ⟨weight, hweight, hsb⟩ := except_bind_ok hsb
  obtain ⟨aux, haux, hsb⟩ := except_bind_ok hsb
  cases hsb
  obtain ⟨hdtype, htype, hshape⟩ :=
    shardByMode_shape (fun h => (hwell.weight h).1) hweight
  rw [rankShape_effectiveMode] at hshape
  have haux := shardScales_size hwell.aux haux
  -- the type that is put on the shard is the one that it has
  have hsame : ({ weight with ggufType := b.weight.ggufType } : ShardedTensor β) = weight := by
    rw [← htype]
  cases hw : weight.sizeBytes with
  | none => simp [uploadBytes, ShardedWeightBundle.totalBytes, hsame, hw] at hn
  | some w =>
    have hmul := sizeBytes_mul (by
      rw [htype, hshape, length_rankShape]
      exact fun h => (hwell.weight h).1) hw
    rw [htype, hdtype, hshape] at hmul
    simp only [uploadBytes, ShardedWeightBundle.totalBytes, hsame, hw, haux] at hn
    cases hn
    rw [rankBytes, uploadWidth, hdtype]
    by_cases hnorm : isNorm b.component ∧ b.weight.dtype = .f32
    · -- a norm of four bytes an element is plain
      have hplain : b.weight.ggufType = none := by
        rw [← Option.not_isSome_iff_eq_none]
        intro h
        rw [(hwell.weight h).2] at hnorm
        exact absurd hnorm.2 (by decide)
      simp only [hplain, hnorm.2, unitValues, unitBytes, SafetensorsDtype.size] at hmul
      rw [if_pos hnorm, if_pos hnorm, Width.bytesOf_bf16]
      omega
    · rw [if_neg hnorm, if_neg hnorm, Nat.sub_zero, Nat.add_right_cancel_iff, Width.bytesOf,
        ← hmul, Nat.mul_div_cancel _ (unitValues_pos _)]

/-! ### One layer -/

theorem shardAttention_wholeBundle (hmode : shardModeFor b.component = .replicated) :
    shardAttention tp b rank = .ok (wholeBundle b) := by
  have heff : effectiveMode tp .replicated = .replicated := by
    rw [effectiveMode]
    split <;> rfl
  have hscale : ∀ (t : RawTensor β) (role : TensorRole),
      shardScale tp t role .replicated rank = .ok (wrapReplicated t) := by
    intro t role
    rw [shardScale]
    split_ifs <;> rfl
  have haux : ∀ aux : List (TensorRole × RawTensor β), (aux.mapM fun p => do
      let scale ← shardScale tp p.2 p.1 .replicated rank
      return (p.1, scale)) = .ok (aux.map fun p => (p.1, wrapReplicated p.2)) := by
    intro aux
    induction aux with
    | nil => rfl
    | cons p aux ih =>
      rw [mapM_cons, ih, hscale]
      rfl
  rw [shardAttention, hmode, heff, shardBundle, haux]
  rfl

variable {out : List (ShardedWeightBundle β)}

theorem layerBytes_eq {bundles : List (WeightBundle β)} (hwell : ∀ b ∈ bundles, WellStored b)
    (hout : bundles.mapM (fun b => shardAttention tp b rank) = .ok out)
    (hn : layerBytes out = some n) : n = (bundles.map (rankBytes tp)).sum := by
  induction bundles generalizing out n with
  | nil =>
    cases hout
    exact (Option.some.inj hn).symm
  | cons b bundles ih =>
    obtain ⟨s, rest, hs, hrest, rfl⟩ := mapM_cons_ok hout
    rw [layerBytes, mapM_cons] at hn
    cases hb : uploadBytes s with
    | none => simp [hb] at hn
    | some nb =>
      cases hr : rest.mapM uploadBytes with
      | none => simp [hb, hr] at hn
      | some ns =>
        rw [hb, hr] at hn
        have hsum : nb + ns.sum = n := by simpa using hn
        have hrec : ns.sum = (bundles.map (rankBytes tp)).sum := by
          apply ih (fun b hb => hwell b (mem_cons_of_mem _ hb)) hrest
          rw [layerBytes, hr]
          rfl
        rw [← hsum, map_cons, sum_cons, shardAttention_bytes (hwell b mem_cons_self) hs hb, hrec]

theorem shardAttentionLayer_eq {attention indexer : List (WeightBundle β)}
    (hindexer : ∀ b ∈ indexer, shardModeFor b.component = .replicated)
    (h : shardAttentionLayer tp attention indexer rank = .ok out) :
    (attention ++ indexer).mapM (fun b => shardAttention tp b rank) = .ok out := by
  obtain ⟨sharded, hsharded, hout⟩ := except_bind_ok h
  obtain rfl := Except.ok.inj hout
  have hwhole : indexer.mapM (fun b => shardAttention tp b rank) =
      .ok (indexer.map wholeBundle) := by
    clear h hsharded hout
    induction indexer with
    | nil => rfl
    | cons b indexer ih =>
      rw [mapM_cons, shardAttention_wholeBundle (hindexer b mem_cons_self),
        ih fun b hb => hindexer b (mem_cons_of_mem _ hb)]
      rfl
  rw [mapM_append, hsharded, hwhole]
  rfl

/-! ### What a size allows -/

namespace Width

theorem bytesOf_le {w w' : Width} (h : w.AtMost w') (n : ℕ) : w.bytesOf n ≤ w'.bytesOf n := by
  rw [bytesOf, bytesOf, le_div_iff_mul_le w'.pos]
  apply le_of_mul_le_mul_right _ w.pos
  calc n * w.bytes / w.values * w'.values * w.values
      = n * w.bytes / w.values * w.values * w'.values := mul_right_comm ..
    _ ≤ n * w.bytes * w'.values := mul_le_mul_right _ (div_mul_le_self ..)
    _ = n * (w.bytes * w'.values) := mul_assoc ..
    _ ≤ n * (w'.bytes * w.values) := mul_le_mul_left n h
    _ = n * w'.bytes * w.values := (mul_assoc ..).symm

theorem bytesOf_eq {w w' : Width} (h : w.Same w') (n : ℕ) : w.bytesOf n = w'.bytesOf n :=
  le_antisymm (bytesOf_le h.le n) (bytesOf_le h.ge n)

end Width

variable {width : TensorComponent → Width}

theorem NotWider.rankBytes_le (h : NotWider width b) :
    rankBytes tp b ≤ allowedBytes tp width b.spec := by
  rw [allowedBytes, WeightBundle.spec, map_map]
  apply Nat.add_le_add
  · exact Width.bytesOf_le h.le _
  · apply sum_le_sum
    intro p hp
    exact mul_le_mul_left _ (h.aux_le p hp)

theorem AsWide.rankBytes_eq (h : AsWide width b) :
    rankBytes tp b = allowedBytes tp width b.spec := by
  rw [rankBytes, allowedBytes, WeightBundle.spec, map_map]
  congr 1
  · exact Width.bytesOf_eq h.same _
  · congr 1
    apply map_congr_left
    intro p hp
    rw [h.aux_eq p hp]
    rfl

/-! ### The arms -/

theorem le_roundUp16 (n : ℕ) : n ≤ roundUp16 n := by
  rw [roundUp16]
  omega

def allowedSum (tp : TpWeightSharder) (width : TensorComponent → Width) (specs : List TensorSpec) :
    ℕ :=
  (specs.map (allowedBytes tp width)).sum

variable {type : KQuant}

theorem bytesOf_packed {inFeatures : ℕ} (h : inFeatures % type.blockValues = 0) (out : ℕ) :
    (packedWidth type).bytesOf (out * inFeatures) =
      out * (inFeatures / type.blockValues) * type.blockBytes := by
  obtain ⟨c, rfl⟩ := Nat.dvd_of_mod_eq_zero h
  rw [packedWidth, Nat.mul_div_cancel_left _ type.blockValues_pos]
  apply Nat.div_eq_of_eq_mul_left type.blockValues_pos
  ring

theorem packedWidth_atMost (type : KQuant) : (packedWidth type).AtMost bf16Width := by
  cases type <;> decide

/-- A matrix at its own width. -/
def tableBytes (type : TensorComponent → Option KQuant) (comp : TensorComponent)
    (out inFeatures : ℕ) : ℕ :=
  (tableWidth (type comp)).bytesOf (out * inFeatures)

theorem tableBytes_le (type : TensorComponent → Option KQuant) (comp : TensorComponent)
    (out inFeatures : ℕ) :
    tableBytes type comp out inFeatures ≤ packedBytes type comp out inFeatures := by
  rw [tableBytes, packedBytes]
  cases type comp with
  | none => exact (Width.bytesOf_bf16 _).le
  | some type =>
    simp only
    split_ifs with h
    · exact (bytesOf_packed h out).le
    · exact (Width.bytesOf_le (packedWidth_atMost type) _).trans_eq (Width.bytesOf_bf16 _)

theorem tableBytes_none : tableBytes (fun _ => none) = packedBytes fun _ => none := by
  funext comp out inFeatures
  exact Width.bytesOf_bf16 _

theorem bytesOf_ite (gguf : Bool) (n : ℕ) :
    (if gguf then Width.whole 4 else bf16Width).bytesOf n = n * if gguf then 4 else 2 := by
  cases gguf
  · exact Width.bytesOf_bf16 n
  · exact Width.bytesOf_whole 4 n

attribute [simp] shardModeFor

@[simp] theorem allowedSum_nil : allowedSum tp width [] = 0 := rfl

@[simp] theorem allowedSum_cons (σ : TensorSpec) (specs : List TensorSpec) :
    allowedSum tp width (σ :: specs) = allowedBytes tp width σ + allowedSum tp width specs :=
  sum_cons

@[simp] theorem allowedSum_append (specs specs' : List TensorSpec) :
    allowedSum tp width (specs ++ specs') =
      allowedSum tp width specs + allowedSum tp width specs' := by
  rw [allowedSum, List.map_append, List.sum_append]
  rfl

/-- A tensor without scales. -/
@[simp] theorem allowedBytes_plain (shape : List ℕ) : allowedBytes tp width ⟨c, shape, []⟩ =
      (width c).bytesOf (rankShape tp (shardModeFor c) shape).prod := rfl

/-- A matrix with block scales: they are split as it is. -/
@[simp] theorem allowedBytes_scaled (shape : List ℕ) (rows cols : ℕ) :
    allowedBytes tp width ⟨c, shape, [(.weightScale, [rows, cols])]⟩ =
      (width c).bytesOf (rankShape tp (shardModeFor c) shape).prod +
        (rankShape tp (shardModeFor c) [rows, cols]).prod * 4 := by
  simp [allowedBytes, scaleMode]

theorem kda_allowed (m : ModelConfig) (wq : WeightQuant) (type : TensorComponent → Option KQuant) :
    allowedSum tp (kdaWidth wq type) (kdaTensors m) =
      kdaLayerBytes m wq tp.tpDegree (tableBytes type) := by
  simp only [kdaTensors, allowedSum_cons, allowedSum_nil, allowedBytes_plain, rankShape,
    shardModeFor, kdaWidth, prod_cons, prod_nil, set_cons_zero, set_cons_succ,
    getD_cons_zero, getD_cons_succ, mul_one, one_mul, bytesOf_ite,
    Width.bytesOf_whole, kdaLayerBytes, tableBytes]
  ring

theorem kdaLayerBytes_mono (m : ModelConfig) (wq : WeightQuant) (t : ℕ)
    {packed packed' : TensorComponent → ℕ → ℕ → ℕ}
    (h : ∀ c out inFeatures, packed c out inFeatures ≤ packed' c out inFeatures) :
    kdaLayerBytes m wq t packed ≤ kdaLayerBytes m wq t packed' := by
  simp only [kdaLayerBytes]
  gcongr <;> apply h

theorem kpool_allowed (m : ModelConfig) (hgate : width .indexerCompressorWgate = bf16Width)
    (hape : width .indexerCompressorApe = .whole n) :
    allowedSum tp width (kpoolTensors m) =
      if 1 < m.indexKpool then
        m.indexHeadDim * m.hiddenSize * 2 + m.indexKpool * m.indexHeadDim * n
      else 0 := by
  rw [kpoolTensors]
  split_ifs
  · simp [rankShape, shardModeFor, hgate, hape, Width.bytesOf_bf16, Width.bytesOf_whole]
  · rfl

theorem sparseGguf_allowed (tp : TpWeightSharder) (m : ModelConfig)
    (type : TensorComponent → Option KQuant) :
    allowedSum tp (sparseGgufWidth type) (mlaTensors m true false) +
        allowedSum tp (sparseGgufWidth type) (indexerTensors m ++ kpoolTensors m) =
      sparseGgufLayerBytes m tp.tpDegree (tableBytes type) := by
  rw [allowedSum_append, kpool_allowed m rfl rfl]
  simp only [mlaTensors, indexerTensors, allowedSum_append, allowedSum_cons, allowedSum_nil,
    Bool.false_eq_true, if_false, if_true, allowedBytes_plain, rankShape, shardModeFor,
    sparseGgufWidth, prod_cons, prod_nil, set_cons_zero, set_cons_succ,
    getD_cons_zero, getD_cons_succ, mul_one, Width.bytesOf_bf16,
    Width.bytesOf_whole, sparseGgufLayerBytes, tableBytes]
  ring

theorem sparseGgufLayerBytes_mono (m : ModelConfig) (t : ℕ)
    {packed packed' : TensorComponent → ℕ → ℕ → ℕ}
    (h : ∀ c out inFeatures, packed c out inFeatures ≤ packed' c out inFeatures) :
    sparseGgufLayerBytes m t packed ≤ sparseGgufLayerBytes m t packed' := by
  simp only [sparseGgufLayerBytes]
  gcongr <;> apply h

variable {wq : WeightQuant}

theorem sparseNative_allowed (tp : TpWeightSharder) (m : ModelConfig) (hwq : isFp8 wq) :
    allowedSum tp sparseNativeWidth (mlaTensors m true true) +
        allowedSum tp sparseNativeWidth (indexerTensors m ++ kpoolTensors m) =
      sparseNativeLayerBytes m wq tp.tpDegree (.whole 1) := by
  rw [allowedSum_append, kpool_allowed m rfl rfl]
  simp only [mlaTensors, indexerTensors, allowedSum_append, allowedSum_cons, allowedSum_nil,
    if_true, allowedBytes_plain, allowedBytes_scaled, rankShape, shardModeFor, sparseNativeWidth,
    List.prod_cons, List.prod_nil, List.set_cons_zero, List.set_cons_succ, List.getD_cons_zero,
    List.getD_cons_succ, Nat.mul_one, Nat.div_one, Width.bytesOf_bf16, Width.bytesOf_whole,
    sparseNativeLayerBytes, hwq, glmFp8ScaleBytes]
  ring

theorem hc_allowed (m : ModelConfig) (hwidth : ∀ c ∈ ([.hcAttnFn, .hcAttnBase, .hcAttnScale,
      .hcFfnFn, .hcFfnBase, .hcFfnScale] : List TensorComponent), width c = .whole 4) :
    allowedSum tp width (hcTensors m) = glm5NextHcBytes m := by
  simp only [forall_mem_cons] at hwidth
  obtain ⟨h₁, h₂, h₃, h₄, h₅, h₆, -⟩ := hwidth
  simp only [hcTensors, allowedSum_cons, allowedSum_nil, allowedBytes_plain, rankShape,
    shardModeFor, prod_cons, prod_nil, h₁, h₂, h₃, h₄, h₅, h₆, Width.bytesOf_whole,
    glm5NextHcBytes]
  ring

theorem indexer_allowed (m : ModelConfig) (wq : WeightQuant) (kvB includeIndexer force : Bool) :
    allowedSum tp (mlaWidth wq) ((SlotKind.mla kvB includeIndexer force).indexer m) =
      indexerBytes (computeAttnDims m) includeIndexer := by
  rw [SlotKind.indexer, indexerBytes, computeAttnDims]
  by_cases h : includeIndexer ∧ 0 < m.indexTopk
  · rw [if_pos h, if_pos h.2, if_pos h.2]
    simp only [indexerTensors, allowedSum_cons, allowedSum_nil, allowedBytes_plain, rankShape,
      shardModeFor, mlaWidth, prod_cons, prod_nil, mul_one, Width.bytesOf_bf16]
    set wqB := m.indexNHeads * m.indexHeadDim * m.qLoraRank with hwqB
    rw [show m.qLoraRank * m.indexNHeads * m.indexHeadDim = wqB by rw [hwqB]; ring,
      show m.hiddenSize * m.indexHeadDim = m.indexHeadDim * m.hiddenSize from mul_comm ..,
      show m.hiddenSize * m.indexNHeads = m.indexNHeads * m.hiddenSize from mul_comm ..]
    split_ifs with hpos
    · omega
    -- an indexer without parameters takes nothing
    simp only [h.1, true_and] at hpos
    omega
  · rw [if_neg h, if_neg]
    · rfl
    · rintro ⟨hinc, hpos⟩
      simp only [not_and] at h
      rw [if_neg (h hinc)] at hpos
      exact absurd hpos (lt_irrefl 0)

theorem Width.bytesOf_le_div (w : Width) {n' t : ℕ} (ht : 0 < t) (h : n * t ≤ n') :
    w.bytesOf n ≤ w.bytesOf n' / t := by
  rw [le_div_iff_mul_le ht, bytesOf, bytesOf, le_div_iff_mul_le w.pos]
  calc n * w.bytes / w.values * t * w.values
      = n * w.bytes / w.values * w.values * t := mul_right_comm ..
    _ ≤ n * w.bytes * t := mul_le_mul_right _ (div_mul_le_self ..)
    _ = n * t * w.bytes := mul_right_comm ..
    _ ≤ n' * w.bytes := mul_le_mul_right _ h

theorem mla_allowed (m : ModelConfig) (wq : WeightQuant) (w : Width) (includeKvB : Bool)
    (hw : ∀ c ∈ ([.qAProj, .qBProj, .kvAProjWithMqa, .kvBProj, .oProj] : List TensorComponent),
      mlaWidth wq c = w) :
    allowedSum tp (mlaWidth wq) (mlaTensors m includeKvB false) =
      w.bytesOf (m.qLoraRank * m.hiddenSize) + w.bytesOf (m.kvAOut * m.hiddenSize) +
      (m.qLoraRank + m.kvLoraRank) * 2 +
      w.bytesOf (m.qBOut / tp.tpDegree * m.qLoraRank) +
      (if includeKvB then w.bytesOf (m.kvBOut / tp.tpDegree * m.kvLoraRank) else 0) +
      w.bytesOf (m.hiddenSize * (m.oIn / tp.tpDegree)) := by
  simp only [forall_mem_cons] at hw
  obtain ⟨h₁, h₂, h₃, h₄, h₅, -⟩ := hw
  have hqa : mlaWidth wq .qANorm = bf16Width := rfl
  have hkva : mlaWidth wq .kvANorm = bf16Width := rfl
  rw [mlaTensors, allowedSum_append]
  cases includeKvB
  all_goals
    simp only [allowedSum_cons, allowedSum_nil, Bool.false_eq_true, if_false, if_true,
      allowedBytes_plain, rankShape, shardModeFor, h₁, h₂, h₃, h₄, h₅, hqa, hkva, prod_cons,
      prod_nil, set_cons_zero, set_cons_succ, getD_cons_zero,
      getD_cons_succ, mul_one, Width.bytesOf_bf16]
    omega

theorem share_mul_le (out inFeatures t : ℕ) : out / t * inFeatures * t ≤ inFeatures * out := by
  rw [mul_right_comm, mul_comm]
  exact mul_le_mul_left _ (div_mul_le_self ..)

variable {slot : ℕ}

theorem mlaGguf_fits (m : ModelConfig) (kvB includeIndexer force : Bool)
    (h : attentionLayerBytes (computeAttnDims m) .gguf kvB tp.tpDegree includeIndexer force =
      some slot) :
    allowedSum tp (mlaWidth .gguf) (mlaTensors m kvB false) +
      allowedSum tp (mlaWidth .gguf) ((SlotKind.mla kvB includeIndexer force).indexer m) ≤
        slot := by
  cases h
  refine le_trans ?_ (le_roundUp16 _)
  rw [indexer_allowed, mla_allowed m .gguf bf16Width kvB (by simp [mlaWidth])]
  have hreplicated : bf16Width.bytesOf (m.qLoraRank * m.hiddenSize) +
      bf16Width.bytesOf (m.kvAOut * m.hiddenSize) =
        bf16Width.bytesOf (m.hiddenSize * m.qLoraRank + m.hiddenSize * m.kvAOut) := by
    simp only [Width.bytesOf_bf16]
    ring
  have hqb := bf16Width.bytesOf_le_div tp.pos (share_mul_le m.qBOut m.qLoraRank tp.tpDegree)
  have hkvb := bf16Width.bytesOf_le_div tp.pos (share_mul_le m.kvBOut m.kvLoraRank tp.tpDegree)
  have ho := bf16Width.bytesOf_le_div tp.pos (share_mul_le m.oIn m.hiddenSize tp.tpDegree)
  have hshardable : bf16Width.bytesOf (m.qBOut / tp.tpDegree * m.qLoraRank) +
      (if kvB then bf16Width.bytesOf (m.kvBOut / tp.tpDegree * m.kvLoraRank) else 0) ≤
        bf16Width.bytesOf (if kvB then m.qLoraRank * m.qBOut + m.kvLoraRank * m.kvBOut
          else m.qLoraRank * m.qBOut) / tp.tpDegree := by
    cases kvB with
    | false => simpa using hqb
    | true =>
      refine (Nat.add_le_add hqb hkvb).trans ((Nat.div_add_div_le_add_div ..).trans_eq ?_)
      simp only [Width.bytesOf_bf16, if_true]
      rw [Nat.add_mul]
  rw [Nat.mul_comm (m.oIn / _), Nat.mul_comm m.hiddenSize m.oIn] at ho
  simp only [computeAttnDims, ModelConfig.oIn] at hreplicated hshardable ho ⊢
  omega

theorem packedParams {inFeatures out : ℕ}
    (h : ggufPackedBytes (if 0 < inFeatures then inFeatures * out / inFeatures else 0) inFeatures
      type = some n) : n = (packedWidth type).bytesOf (inFeatures * out) := by
  rw [ggufPackedBytes] at h
  split_ifs at h with hmod hpos
  all_goals cases h
  · rw [Nat.mul_comm inFeatures, bytesOf_packed (not_not.1 hmod), Nat.mul_div_cancel _ hpos]
  · obtain rfl := Nat.eq_zero_of_not_pos hpos
    simp [Width.bytesOf]

theorem mlaUniform_fits (m : ModelConfig) (type : KQuant) (kvB includeIndexer force : Bool)
    (h : attentionLayerBytes (computeAttnDims m) (.ggufUniform type) kvB tp.tpDegree includeIndexer
      force = some slot) :
    allowedSum tp (mlaWidth (.ggufUniform type)) (mlaTensors m kvB false) +
      allowedSum tp (mlaWidth (.ggufUniform type))
        ((SlotKind.mla kvB includeIndexer force).indexer m) ≤ slot := by
  simp only [attentionLayerBytes, ggufAttentionLayerBytes, Option.bind_eq_bind,
    Option.bind_eq_some_iff] at h
  obtain ⟨qA, hqA, kvA, hkvA, qB, hqB, kv, hkv, o, ho, h⟩ := h
  cases h
  refine le_trans ?_ (le_roundUp16 _)
  rw [indexer_allowed, mla_allowed m _ (packedWidth type) kvB (by simp [mlaWidth])]
  have hqA : qA = (packedWidth type).bytesOf (m.hiddenSize * m.qLoraRank) := packedParams hqA
  have hkvA : kvA = (packedWidth type).bytesOf (m.hiddenSize * m.kvAOut) := packedParams hkvA
  have hqB : qB = (packedWidth type).bytesOf (m.qLoraRank * m.qBOut) := packedParams hqB
  have ho : o = (packedWidth type).bytesOf (m.oIn * m.hiddenSize) := packedParams ho
  have hqb := (packedWidth type).bytesOf_le_div tp.pos
    (share_mul_le m.qBOut m.qLoraRank tp.tpDegree)
  have hkvb := (packedWidth type).bytesOf_le_div tp.pos
    (share_mul_le m.kvBOut m.kvLoraRank tp.tpDegree)
  have hob := (packedWidth type).bytesOf_le_div tp.pos (share_mul_le m.oIn m.hiddenSize tp.tpDegree)
  have hkv : (if kvB then (packedWidth type).bytesOf (m.kvBOut / tp.tpDegree * m.kvLoraRank)
      else 0) ≤ kv / tp.tpDegree := by
    cases kvB with
    | false => simp
    | true =>
      have hkv : kv = (packedWidth type).bytesOf (m.kvLoraRank * m.kvBOut) := packedParams hkv
      simpa [hkv] using hkvb
  rw [mul_comm (m.oIn / _), mul_comm m.hiddenSize m.oIn, ← ho] at hob
  rw [mul_comm m.qLoraRank m.hiddenSize, mul_comm m.kvAOut m.hiddenSize]
  rw [← hqB] at hqb
  simp only [computeAttnDims] at *
  omega

theorem hcTail_allowed (width : TensorComponent → Width) (m : ModelConfig) (includeHc : Bool)
    (hwidth : ∀ c ∈ ([.hcAttnFn, .hcAttnBase, .hcAttnScale, .hcFfnFn, .hcFfnBase, .hcFfnScale] :
      List TensorComponent), width c = .whole 4) :
    allowedSum tp width (if includeHc then hcTensors m else []) =
      if includeHc then glm5NextHcBytes m else 0 := by
  cases includeHc
  · rfl
  · exact hc_allowed m hwidth

theorem glm5Next_allowed (m : ModelConfig) (linear includeHc : Bool)
    (widths : Option GgufNonExpertWidths) (layerIdx : Option ℕ)
    (hwq : isGgufWeightQuant wq ∨ isFp8 wq) :
    allowedSum tp ((SlotKind.glm5Next linear includeHc widths layerIdx).width wq)
        ((SlotKind.glm5Next linear includeHc widths layerIdx).attention m wq) +
      allowedSum tp ((SlotKind.glm5Next linear includeHc widths layerIdx).width wq)
        ((SlotKind.glm5Next linear includeHc widths layerIdx).indexer m) =
      (if linear then kdaLayerBytes m wq tp.tpDegree (tableBytes (findWidth widths layerIdx))
        else if isGgufWeightQuant wq then
          sparseGgufLayerBytes m tp.tpDegree (tableBytes (findWidth widths layerIdx))
        else sparseNativeLayerBytes m wq tp.tpDegree (.whole 1)) +
      if includeHc then glm5NextHcBytes m else 0 := by
  cases linear with
  | true =>
    have hwidth : (SlotKind.glm5Next true includeHc widths layerIdx).width wq =
      kdaWidth wq (findWidth widths layerIdx) := rfl
    simp only [hwidth, SlotKind.attention, SlotKind.indexer, allowedSum_append, kda_allowed,
      hcTail_allowed (kdaWidth wq _) m includeHc (by simp [kdaWidth]), if_true,
      allowedSum_nil, add_zero]
  | false =>
    by_cases hgguf : isGgufWeightQuant wq
    · have hwidth : (SlotKind.glm5Next false includeHc widths layerIdx).width wq =
          sparseGgufWidth (findWidth widths layerIdx) := by
        funext c
        simp [SlotKind.width, hgguf]
      have hfp8 : isFp8 wq = false := by cases wq <;> first | rfl | cases hgguf
      have hmla := sparseGguf_allowed tp m (findWidth widths layerIdx)
      rw [if_pos hgguf, ← hmla, hwidth]
      simp only [SlotKind.attention, SlotKind.indexer, allowedSum_append, hfp8,
        hcTail_allowed (sparseGgufWidth _) m includeHc (by simp [sparseGgufWidth]),
        Bool.false_eq_true, if_false]
      omega
    · have hfp8 : isFp8 wq := hwq.resolve_left hgguf
      have hwidth : (SlotKind.glm5Next false includeHc widths layerIdx).width wq =
          sparseNativeWidth := by
        funext c
        simp [SlotKind.width, hgguf]
      have hmla := sparseNative_allowed tp m hfp8
      rw [if_neg hgguf, ← hmla, hwidth]
      simp only [SlotKind.attention, SlotKind.indexer, allowedSum_append, hfp8,
        hcTail_allowed sparseNativeWidth m includeHc (by simp [sparseNativeWidth]),
        Bool.false_eq_true, if_false]
      omega

variable {m : ModelConfig}

theorem glm5Next_slot {linear includeHc : Bool} {widths : Option GgufNonExpertWidths}
    {layerIdx : Option ℕ} (hwq : isGgufWeightQuant wq ∨ isFp8 wq)
    (h : glm5NextAttentionLayerBytes m wq linear includeHc tp.tpDegree widths layerIdx =
      some slot) :
    slot = roundUp16 ((if linear then
        kdaLayerBytes m wq tp.tpDegree (packedBytes (findWidth widths layerIdx))
      else if isGgufWeightQuant wq then
        sparseGgufLayerBytes m tp.tpDegree (packedBytes (findWidth widths layerIdx))
      else sparseNativeLayerBytes m wq tp.tpDegree (.whole 1)) +
      if includeHc then glm5NextHcBytes m else 0) := by
  have hmax : max 1 tp.tpDegree = tp.tpDegree := max_eq_right tp.pos
  have hnvfp4 : wq ≠ .nvfp4 := by
    rintro rfl
    simp [isGgufWeightQuant, isFp8] at hwq
  rw [glm5NextAttentionLayerBytes, hmax, if_neg hnvfp4] at h
  cases linear with
  | true => simpa using h.symm
  | false =>
    by_cases hgguf : isGgufWeightQuant wq
    · simpa [hgguf] using h.symm
    · simpa [hgguf, hwq.resolve_left hgguf] using h.symm

variable {kind : SlotKind}

theorem SlotKind.allowed_le (hcovers : kind.Covers wq)
    (h : kind.slotBytes m wq tp.tpDegree = some slot) :
    allowedSum tp (kind.width wq) (kind.attention m wq) +
      allowedSum tp (kind.width wq) (kind.indexer m) ≤ slot := by
  cases kind with
  | mla kvB includeIndexer force =>
    cases wq with
    | gguf => exact mlaGguf_fits m kvB includeIndexer force h
    | ggufUniform type => exact mlaUniform_fits m type kvB includeIndexer force h
    | _ => cases hcovers
  | glm5Next linear includeHc widths layerIdx =>
    rw [glm5Next_allowed m linear includeHc widths layerIdx hcovers, glm5Next_slot hcovers h]
    refine le_trans (Nat.add_le_add_right ?_ _) (le_roundUp16 _)
    split_ifs
    · exact kdaLayerBytes_mono m wq _ (tableBytes_le _)
    · exact sparseGgufLayerBytes_mono m _ (tableBytes_le _)
    · exact le_rfl

theorem SlotKind.allowed_native (hnative : kind.Native wq)
    (h : kind.slotBytes m wq tp.tpDegree = some slot) :
    slot = roundUp16 (allowedSum tp (kind.width wq) (kind.attention m wq) +
      allowedSum tp (kind.width wq) (kind.indexer m)) := by
  cases kind with
  | mla => exact hnative.elim
  | glm5Next linear includeHc widths layerIdx =>
    obtain ⟨hfp8, hwidths⟩ := hnative
    have hgguf : isGgufWeightQuant wq = false := by cases wq <;> first | rfl | cases hfp8
    rw [glm5Next_allowed m linear includeHc widths layerIdx (.inr hfp8),
      glm5Next_slot (.inr hfp8) h]
    cases linear with
    | false => simp [hgguf]
    | true =>
      obtain rfl := hwidths rfl
      have hfind : findWidth none layerIdx = fun _ => none := rfl
      rw [hfind, tableBytes_none]

/-! ### The upload of a layer -/

theorem SlotKind.indexer_replicated (m : ModelConfig) (kind : SlotKind) :
    ∀ σ ∈ kind.indexer m, shardModeFor σ.component = .replicated := by
  have hindexer : ∀ σ ∈ indexerTensors m, shardModeFor σ.component = .replicated := by
    simp [indexerTensors, shardModeFor]
  have hkpool : ∀ σ ∈ kpoolTensors m, shardModeFor σ.component = .replicated := by
    rw [kpoolTensors]
    split_ifs <;> simp [shardModeFor]
  cases kind with
  | mla =>
    rw [SlotKind.indexer]
    split_ifs
    · exact hindexer
    · simp
  | glm5Next =>
    rw [SlotKind.indexer]
    split_ifs
    · simp
    · intro σ hσ
      exact (mem_append.1 hσ).elim (hindexer σ) (hkpool σ)

theorem Prescribed.layerBytes_eq {attention indexer : List (WeightBundle β)}
    (hspec : Prescribed m wq kind attention indexer)
    (hwell : ∀ b ∈ attention ++ indexer, WellStored b)
    (hout : shardAttentionLayer tp attention indexer rank = .ok out)
    (hn : layerBytes out = some n) : n = ((attention ++ indexer).map (rankBytes tp)).sum := by
  have hreplicated : ∀ b ∈ indexer, shardModeFor b.component = .replicated := by
    intro b hb
    have hmem : b.spec ∈ kind.indexer m := hspec.indexer.mem_iff.1 (mem_map_of_mem hb)
    exact kind.indexer_replicated m b.spec hmem
  exact Tp.layerBytes_eq hwell (shardAttentionLayer_eq hreplicated hout) hn

theorem Prescribed.allowed_eq {attention indexer : List (WeightBundle β)}
    (hspec : Prescribed m wq kind attention indexer) (width : TensorComponent → Width) :
    ((attention ++ indexer).map fun b => allowedBytes tp width b.spec).sum =
      allowedSum tp width (kind.attention m wq) + allowedSum tp width (kind.indexer m) := by
  have hattention := (hspec.attention.map (allowedBytes tp width)).sum_eq
  have hindexer := (hspec.indexer.map (allowedBytes tp width)).sum_eq
  rw [map_map] at hattention hindexer
  rw [List.map_append, List.sum_append]
  exact congrArg₂ _ hattention hindexer

/-- **The upload fits into its slot.**  Where no tensor of a layer is stored wider than the size
allows for its component, the shards of a rank take at most the slot; where the widths agree, the
native FP8 arm is exact up to the rounding. -/
theorem pinned_slot_fits (tp : TpWeightSharder) (m : ModelConfig) (wq : WeightQuant)
    (kind : SlotKind) (attention indexer : List (WeightBundle β)) (rank : ℕ)
    (out : List (ShardedWeightBundle β)) (n slot : ℕ) (hcovers : kind.Covers wq)
    (hspec : Prescribed m wq kind attention indexer)
    (hwidth : ∀ b ∈ attention ++ indexer, NotWider (kind.width wq) b)
    (hout : shardAttentionLayer tp attention indexer rank = .ok out)
    (hn : layerBytes out = some n) (hslot : kind.slotBytes m wq tp.tpDegree = some slot) :
    n ≤ slot ∧ (kind.Native wq → (∀ b ∈ attention ++ indexer, AsWide (kind.width wq) b) →
      slot = roundUp16 n) := by
  have htotal := hspec.layerBytes_eq (fun b hb => (hwidth b hb).toWellStored) hout hn
  constructor
  · calc n = ((attention ++ indexer).map (rankBytes tp)).sum := htotal
      _ ≤ ((attention ++ indexer).map fun b => allowedBytes tp (kind.width wq) b.spec).sum :=
        sum_le_sum fun b hb => (hwidth b hb).rankBytes_le
      _ = _ := hspec.allowed_eq _
      _ ≤ slot := SlotKind.allowed_le hcovers hslot
  · intro hnative hsame
    rw [SlotKind.allowed_native hnative hslot, ← hspec.allowed_eq, htotal]
    congr 2
    apply map_congr_left
    intro b hb
    exact (hsame b hb).rankBytes_eq.symm

/-! ### Layers as they are stored -/

theorem unitValues_none_dvd (shape : List ℕ) : unitValues none ∣ shape.prod := one_dvd _

def plainTensor (dtype : SafetensorsDtype) (shape : List ℕ) : RawTensor Unit where
  data := List.replicate (storedBytes dtype none shape) ()
  dtype := dtype
  shape := shape
  ggufType := none
  whole := unitValues_none_dvd shape
  length_data := List.length_replicate

/-- A prescribed tensor, stored in the type of its component, with `float` scales. -/
def storeSpec (dtype : TensorComponent → SafetensorsDtype) (σ : TensorSpec) : WeightBundle Unit :=
  ⟨σ.component, plainTensor (dtype σ.component) σ.shape,
    σ.aux.map fun p => (p.1, plainTensor .f32 p.2)⟩

theorem prescribed_storeSpec (m : ModelConfig) (wq : WeightQuant) (kind : SlotKind)
    (dtype : TensorComponent → SafetensorsDtype) :
    Prescribed m wq kind ((kind.attention m wq).map (storeSpec dtype))
      ((kind.indexer m).map (storeSpec dtype)) := by
  have hspec : ∀ σ, (storeSpec dtype σ).spec = σ := by
    intro σ
    rw [storeSpec, WeightBundle.spec, map_map]
    congr 1
    exact map_id _
  have hspecs : ∀ specs : List TensorSpec,
      (specs.map (storeSpec dtype)).map WeightBundle.spec = specs := by
    intro specs
    rw [map_map]
    exact (map_congr_left fun σ _ => hspec σ).trans (map_id _)
  exact ⟨by rw [hspecs], by rw [hspecs]⟩

theorem asWide_storeSpec {dtype : TensorComponent → SafetensorsDtype} {specs : List TensorSpec}
    (h : ∀ σ ∈ specs, (uploadWidth σ.component (plainTensor (dtype σ.component) σ.shape)).Same
      (width σ.component)) : ∀ b ∈ specs.map (storeSpec dtype), AsWide width b := by
  intro b hb
  obtain ⟨σ, hσ, rfl⟩ := mem_map.1 hb
  refine ⟨⟨fun h => (by cases h), ?_⟩, h σ hσ, ?_⟩
  · intro p hp
    obtain ⟨q, -, rfl⟩ := mem_map.1 hp
    rfl
  · intro p hp
    obtain ⟨q, -, rfl⟩ := mem_map.1 hp
    rfl

theorem AsWide.notWider (h : AsWide width b) : NotWider width b where
  toWellStored := h.toWellStored
  le := h.same.le
  aux_le := fun p hp => (h.aux_eq p hp).le

/-- The types of a linear layer. -/
def linearDtype : TensorComponent → SafetensorsDtype
  | .kdaALog | .kdaDtBias => .f32
  | .hcAttnFn | .hcAttnBase | .hcAttnScale | .hcFfnFn | .hcFfnBase | .hcFfnScale => .f32
  | _ => .bf16

def tinyConfig : ModelConfig where
  hiddenSize := 8
  numAttentionHeads := 2
  qLoraRank := 4
  kvLoraRank := 2
  qkNopeHeadDim := 2
  qkRopeHeadDim := 2
  vHeadDim := 2
  indexTopk := 0
  indexNHeads := 0
  indexHeadDim := 0
  indexKpool := 0
  hcMult := 1
  linearAttnConfig := some ⟨2, 1, 4⟩

/-- A linear layer of the native checkpoint. -/
def linearKind : SlotKind := .glm5Next true true none none

/-- A layer with latent attention in a mixed GGUF format. -/
def latentKind : SlotKind := .mla true false false

/-- The linear layer, with a slot of its size rounded up, and the layer with latent attention, on
the second of two ranks. -/
theorem pinned_slot_fits_linear : (∃ out n slot, shardAttentionLayer ⟨2, Nat.two_pos⟩
      ((linearKind.attention tinyConfig .fp8E4m3).map (storeSpec linearDtype)) [] 1 = .ok out ∧
    layerBytes out = some n ∧ linearKind.slotBytes tinyConfig .fp8E4m3 2 = some slot ∧
    n ≤ slot ∧ slot = roundUp16 n) ∧
    ∃ out n slot, shardAttentionLayer ⟨2, Nat.two_pos⟩
      ((latentKind.attention tinyConfig .gguf).map (storeSpec fun _ => .bf16)) [] 1 = .ok out ∧
    layerBytes out = some n ∧ latentKind.slotBytes tinyConfig .gguf 2 = some slot ∧ n ≤ slot := by
  constructor
  · have hwide : ∀ b ∈ (linearKind.attention tinyConfig .fp8E4m3).map (storeSpec linearDtype) ++ [],
        AsWide (linearKind.width .fp8E4m3) b := by
      rw [append_nil]
      exact asWide_storeSpec (by decide)
    obtain ⟨hle, heq⟩ := pinned_slot_fits ⟨2, two_pos⟩ tinyConfig .fp8E4m3 linearKind _ [] 1 _ _ _
      (.inr rfl) (prescribed_storeSpec tinyConfig .fp8E4m3 linearKind linearDtype)
      (fun b hb => (hwide b hb).notWider) rfl rfl rfl
    exact ⟨_, _, _, rfl, rfl, rfl, hle, heq ⟨rfl, fun _ => rfl⟩ hwide⟩
  · have hwide : ∀ b ∈ (latentKind.attention tinyConfig .gguf).map (storeSpec fun _ => .bf16) ++ [],
        AsWide (latentKind.width .gguf) b := by
      rw [append_nil]
      exact asWide_storeSpec (by decide)
    obtain ⟨hle, -⟩ := pinned_slot_fits ⟨2, two_pos⟩ tinyConfig .gguf latentKind _ [] 1 _ _ _
      rfl (prescribed_storeSpec tinyConfig .gguf latentKind fun _ => .bf16)
      (fun b hb => (hwide b hb).notWider) rfl rfl rfl
    exact ⟨_, _, _, rfl, rfl, rfl, hle⟩

/-- The shapes alone do not say what an upload takes: in a mixed GGUF format a projection may be
stored in four bytes an element. -/
theorem wide_projection_overflows : ∃ attention : List (WeightBundle Unit), ∃ out n slot,
    Prescribed tinyConfig .gguf (.mla false false false) attention [] ∧
    shardAttentionLayer ⟨1, Nat.one_pos⟩ attention [] 0 = .ok out ∧ layerBytes out = some n ∧
    (SlotKind.mla false false false).slotBytes tinyConfig .gguf 1 = some slot ∧ slot < n :=
  ⟨_, _, _, _, prescribed_storeSpec tinyConfig .gguf (.mla false false false) fun _ => .f32, rfl,
    rfl, rfl, by decide⟩

end Tp
end LayerStorm.Weights

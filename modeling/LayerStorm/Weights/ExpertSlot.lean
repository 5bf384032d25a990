import Mathlib

/-!
# Packed expert slots

A slot holds the packed bytes of one expert of one layer, padded with zeros to a stride that is a
multiple of the alignment.  GGUF blocks are copied verbatim: gate, up and down back to back, each
of the size that its own k-quant type gives it.  The other formats are packed by functions that
stand as parameters here; only the size of what they return is looked at.
-/

namespace LayerStorm.Weights

/-! ### Sizes -/

/-- `GgufKQuantType`. -/
inductive KQuant
  | q2K | q3K | q4K | q5K | q6K | q80 | mxfp4
  deriving DecidableEq, Repr

namespace KQuant

def blockBytes : KQuant → ℕ
  | q2K => 84
  | q3K => 110
  | q4K => 144
  | q5K => 176
  | q6K => 210
  | q80 => 34
  | mxfp4 => 17

def blockValues : KQuant → ℕ
  | q80 | mxfp4 => 32
  | _ => 256

def typeName : KQuant → String
  | q2K => "gguf_q2_k"
  | q3K => "gguf_q3_k"
  | q4K => "gguf_q4_k"
  | q5K => "gguf_q5_k"
  | q6K => "gguf_q6_k"
  | q80 => "gguf_q8_0"
  | mxfp4 => "gguf_mxfp4"

theorem blockValues_pos (type : KQuant) : 0 < type.blockValues := by
  cases type <;> decide

theorem blockBytes_pos (type : KQuant) : 0 < type.blockBytes := by
  cases type <;> decide

theorem blockValues_mul_ne (type : KQuant) (n : ℕ) : type.blockValues * n ≠ type.blockBytes := by
  cases type <;> simp only [blockValues, blockBytes] <;> omega

end KQuant

/-- `gguf_packed_bytes`; `none` where it throws. -/
def ggufPackedBytes (outFeatures inFeatures : ℕ) (type : KQuant) : Option ℕ :=
  if inFeatures % type.blockValues ≠ 0 then none
  else some (outFeatures * (inFeatures / type.blockValues) * type.blockBytes)

structure ExpertShape where
  hiddenSize : ℕ
  intermediateSize : ℕ
  deriving DecidableEq, Repr

inductive Projection
  | gate | up | down
  deriving DecidableEq, Repr

def projectionNk (shape : ExpertShape) : Projection → ℕ × ℕ
  | .gate | .up => (shape.intermediateSize, shape.hiddenSize)
  | .down => (shape.hiddenSize, shape.intermediateSize)

/-- The `WeightQuant` of a format, as far as the pipeline tells formats apart. -/
inductive WeightQuant
  | nvfp4 | fp8E4m3 | fp8E5m2 | int4Symmetric | int4Asymmetric | gguf | ggufUniform (t : KQuant)
  deriving DecidableEq, Repr

/-- The k-quant types of the three projections of an expert. -/
structure GgufTypes where
  gate : KQuant
  up : KQuant
  down : KQuant
  deriving DecidableEq, Repr

/-- `QuantInterface`; `ggufTypes` are the types of a `GgufQuantInterface`.  A size is `none` where
the format throws. -/
structure QuantInterface where
  name : String
  weightQuant : WeightQuant
  bytesPerProjection : ExpertShape → Projection → Option ℕ
  weightBytesPerProjection : ExpertShape → Projection → Option ℕ
  bytesPerExpert : ExpertShape → Option ℕ
  replicatedBytesPerProjection : ℕ
  ggufTypes : Option GgufTypes

/-- The test that tells a GGUF format. -/
def QuantInterface.isGguf (q : QuantInterface) : Bool :=
  q.weightQuant = .gguf ∨ (5 ≤ q.name.length ∧ "gguf_".toList.isPrefixOf q.name.toList)

namespace GgufTypes

variable (t : GgufTypes)

def projectionType : Projection → KQuant
  | .gate => t.gate
  | .up => t.up
  | .down => t.down

def bytesPerProjection (shape : ExpertShape) (proj : Projection) : Option ℕ :=
  let (n, k) := projectionNk shape proj
  ggufPackedBytes n k (t.projectionType proj)

def bytesPerExpert (shape : ExpertShape) : Option ℕ := do
  let gate ← t.bytesPerProjection shape .gate
  let up ← t.bytesPerProjection shape .up
  let down ← t.bytesPerProjection shape .down
  some (gate + up + down)

/-- `make_gguf_quant`. -/
def quant : QuantInterface where
  name := if t.gate = t.up ∧ t.up = t.down then t.gate.typeName else "gguf"
  weightQuant := if t.gate = t.up ∧ t.up = t.down then .ggufUniform t.gate else .gguf
  bytesPerProjection := t.bytesPerProjection
  weightBytesPerProjection := t.bytesPerProjection
  bytesPerExpert := t.bytesPerExpert
  replicatedBytesPerProjection := 0
  ggufTypes := some t

end GgufTypes

def kSlotAlignBytes : ℕ := 4096

def alignedSlotStride (rawSlotBytes : ℕ) : ℕ :=
  (rawSlotBytes + kSlotAlignBytes - 1) / kSlotAlignBytes * kSlotAlignBytes

theorem le_alignedSlotStride (n : ℕ) : n ≤ alignedSlotStride n := by
  unfold alignedSlotStride
  have hpos : 0 < kSlotAlignBytes := by decide
  have hdiv := Nat.div_add_mod (n + kSlotAlignBytes - 1) kSlotAlignBytes
  have hmod := Nat.mod_lt (n + kSlotAlignBytes - 1) hpos
  rw [Nat.mul_comm]
  omega

def slotOffset (layerPos slotBytes : ℕ) : ℕ := layerPos * slotBytes

def expectedFileSize (nMoeLayers slotBytes : ℕ) : ℕ := nMoeLayers * slotBytes

/-! ### Bundles -/

/-- A stretch of a memory. -/
structure Span where
  addr : ℕ
  len : ℕ
  deriving DecidableEq, Repr

def Span.bytes (mem : ℕ → UInt8) (s : Span) : List UInt8 :=
  (List.range s.len).map fun i => mem (s.addr + i)

@[simp] theorem Span.length_bytes (mem : ℕ → UInt8) (s : Span) : (s.bytes mem).length = s.len := by
  simp [Span.bytes]

theorem Span.bytes_append (mem : ℕ → UInt8) (a n m : ℕ) :
    (Span.mk a n).bytes mem ++ (Span.mk (a + n) m).bytes mem = (Span.mk a (n + m)).bytes mem := by
  simp only [Span.bytes, List.range_add, List.map_append, List.map_map]
  refine congrArg _ (List.map_congr_left fun i _ => ?_)
  rw [Function.comp_apply, Nat.add_assoc]

/-- `TensorComponent`, as far as packing an expert tells components apart. -/
inductive TensorComponent
  | gateProj | upProj | downProj | other
  deriving DecidableEq, Repr

/-- `SafetensorsDtype`, as far as packing an expert tells types apart. -/
inductive Dtype
  | u8 | f8E4m3 | f8E5m2 | other (code : ℕ)
  deriving DecidableEq, Repr

/-- `WeightBundle`: the weight of one projection, and the auxiliary tensors by role. -/
structure Bundle where
  component : TensorComponent
  data : Span
  dtype : Dtype
  ggufType : Option KQuant
  aux : List (ℕ × Span)

/-- The bundle that `pack_gguf_expert` takes for a component: the last one. -/
def lastBundle (bundles : List Bundle) (c : TensorComponent) : Option Bundle :=
  (bundles.filter fun b => b.component = c).getLast?

/-- `pack_gguf_expert`; `none` where it returns false or throws. -/
def packGgufExpert (mem : ℕ → UInt8) (bundles : List Bundle) (shape : ExpertShape)
    (expectedTypes : Option GgufTypes) : Option (List UInt8) := do
  let gate ← lastBundle bundles .gateProj
  let up ← lastBundle bundles .upProj
  let down ← lastBundle bundles .downProj
  let gateT ← gate.ggufType
  let upT ← up.ggufType
  let downT ← down.ggufType
  let types : GgufTypes := ⟨gateT, upT, downT⟩
  -- the types of the layer have to be those of the bundles
  guard (expectedTypes.all fun e => decide (types = e))
  let gateB ← types.bytesPerProjection shape .gate
  let upB ← types.bytesPerProjection shape .up
  let downB ← types.bytesPerProjection shape .down
  guard (gate.data.len = gateB ∧ up.data.len = upB ∧ down.data.len = downB)
  -- zero copy where the three projections lie one behind the other
  if gate.data.addr + gate.data.len = up.data.addr ∧
      up.data.addr + up.data.len = down.data.addr then
    some ((Span.mk gate.data.addr (gateB + upB + downB)).bytes mem)
  else
    some (gate.data.bytes mem ++ up.data.bytes mem ++ down.data.bytes mem)

/-- **The packed bytes are the three projections one after the other.** -/
theorem packGgufExpert_eq {mem : ℕ → UInt8} {bundles : List Bundle} {shape : ExpertShape}
    {expected : Option GgufTypes} {bytes : List UInt8}
    (h : packGgufExpert mem bundles shape expected = some bytes) :
    ∃ gate up down : Bundle, ∃ t : GgufTypes,
      lastBundle bundles .gateProj = some gate ∧ lastBundle bundles .upProj = some up ∧
      lastBundle bundles .downProj = some down ∧
      gate.ggufType = some t.gate ∧ up.ggufType = some t.up ∧ down.ggufType = some t.down ∧
      (∀ e, expected = some e → t = e) ∧
      t.bytesPerProjection shape .gate = some gate.data.len ∧
      t.bytesPerProjection shape .up = some up.data.len ∧
      t.bytesPerProjection shape .down = some down.data.len ∧
      bytes = gate.data.bytes mem ++ up.data.bytes mem ++ down.data.bytes mem := by
  simp only [packGgufExpert, Option.bind_eq_bind, Option.bind_eq_some_iff, Option.guard_eq_some'] at h
  obtain ⟨gate, hg, up, hu, down, hd, gateT, hgt, upT, hut, downT, hdt, -, hexp, gateB, hgb, upB,
    hub, downB, hdb, -, ⟨hgl, hul, hdl⟩, h⟩ := h
  subst hgl hul hdl
  refine ⟨gate, up, down, ⟨gateT, upT, downT⟩, hg, hu, hd, hgt, hut, hdt, ?_, hgb, hub, hdb, ?_⟩
  · rintro e rfl
    exact of_decide_eq_true hexp
  · split at h
    · next hadj =>
      -- the three stretches adjoin
      cases h
      obtain ⟨gc, ⟨ga, gn⟩, gd, gt, gx⟩ := gate
      obtain ⟨uc, ⟨ua, un⟩, ud, ut, ux⟩ := up
      obtain ⟨dc, ⟨da, dn⟩, dd, dt, dx⟩ := down
      obtain ⟨rfl, rfl⟩ := hadj
      rw [Span.bytes_append, Nat.add_assoc ga gn un, Span.bytes_append]
    · exact (Option.some.inj h).symm

/-! ### Slots -/

/-- `pack_nvfp4_expert` and `pack_fp8_expert`: what they leave in `packed_slot`.  The first one also
reads the experts of the whole layer, for the normalisation of the input scales. -/
structure Packers where
  nvfp4 : (ℕ → UInt8) → List (List Bundle) → List Bundle → ExpertShape → List UInt8
  fp8 : (ℕ → UInt8) → List Bundle → ExpertShape → List UInt8

/-- The size test for the formats other than GGUF. -/
def exactSize (slotSizeBytes expertIdx layerIdx : ℕ) (data : List UInt8) :
    Except String (List UInt8) :=
  if data.length ≠ slotSizeBytes then
    .error (s!"expert {expertIdx} layer {layerIdx}: packed size {data.length} != expected slot size " ++
      s!"{slotSizeBytes}")
  else .ok data

/-- What `pack_and_write_slot` packs, before it is padded. -/
def packContent (packers : Packers) (mem : ℕ → UInt8) (layerExperts : List (List Bundle))
    (bundles : List Bundle) (shape : ExpertShape) (slotSizeBytes : ℕ)
    (layerGgufTypes : Option GgufTypes) (expertIdx layerIdx : ℕ) : Except String (List UInt8) :=
  match bundles with
  | [] => .error s!"expert {expertIdx} layer {layerIdx}: empty bundles"
  | first :: _ =>
    if first.ggufType.isSome then
      match packGgufExpert mem bundles shape layerGgufTypes with
      | none => .error (s!"expert {expertIdx} layer {layerIdx}: GGUF pack failed (k-quant type/size " ++
          "mismatch — see log)")
      | some data =>
        -- a layer may pack smaller than the slot
        if data.length = 0 ∨ slotSizeBytes < data.length then
          .error (s!"expert {expertIdx} layer {layerIdx}: packed size {data.length} exceeds (or " ++
            s!"empty) expected slot size {slotSizeBytes}")
        else .ok data
    else
      match first.dtype with
      | .u8 =>
        exactSize slotSizeBytes expertIdx layerIdx (packers.nvfp4 mem layerExperts bundles shape)
      | .f8E4m3 | .f8E5m2 =>
        exactSize slotSizeBytes expertIdx layerIdx (packers.fp8 mem bundles shape)
      | .other code =>
        .error s!"expert {expertIdx} layer {layerIdx}: unsupported dtype {code}"

/-- Zeros up to the stride. -/
def padded (strideBytes : ℕ) (data : List UInt8) : List UInt8 :=
  data ++ List.replicate (strideBytes - data.length) 0

/-- The bytes that `pack_and_write_slot` writes. -/
def packAndWriteSlot (packers : Packers) (mem : ℕ → UInt8) (layerExperts : List (List Bundle))
    (bundles : List Bundle) (shape : ExpertShape) (slotSizeBytes strideBytes : ℕ)
    (layerGgufTypes : Option GgufTypes) (expertIdx layerIdx : ℕ) : Except String (List UInt8) :=
  (packContent packers mem layerExperts bundles shape slotSizeBytes layerGgufTypes expertIdx
    layerIdx).map (padded strideBytes)

variable {packers : Packers} {mem : ℕ → UInt8} {layerExperts : List (List Bundle)}
  {bundles : List Bundle} {shape : ExpertShape} {slotSizeBytes strideBytes : ℕ}
  {layerGgufTypes : Option GgufTypes} {expertIdx layerIdx : ℕ} {bytes : List UInt8}

theorem length_padded (h : bytes.length ≤ strideBytes) :
    (padded strideBytes bytes).length = strideBytes := by
  rw [padded, List.length_append, List.length_replicate]
  omega

theorem length_exactSize {data : List UInt8}
    (h : exactSize slotSizeBytes expertIdx layerIdx data = .ok bytes) :
    bytes.length = slotSizeBytes := by
  unfold exactSize at h
  split at h
  · cases h
  next hsize =>
  cases h
  exact not_not.1 hsize

theorem length_packContent
    (h : packContent packers mem layerExperts bundles shape slotSizeBytes layerGgufTypes expertIdx
      layerIdx = .ok bytes) : bytes.length ≤ slotSizeBytes := by
  unfold packContent at h
  split at h
  · cases h
  split at h
  · split at h
    · cases h
    split at h
    · cases h
    next hsize =>
    cases h
    exact Nat.not_lt.1 fun hlt => hsize (.inr hlt)
  · split at h
    · exact (length_exactSize h).le
    · exact (length_exactSize h).le
    · exact (length_exactSize h).le
    · cases h

theorem length_packAndWriteSlot (hle : slotSizeBytes ≤ strideBytes)
    (h : packAndWriteSlot packers mem layerExperts bundles shape slotSizeBytes strideBytes
      layerGgufTypes expertIdx layerIdx = .ok bytes) : bytes.length = strideBytes := by
  unfold packAndWriteSlot at h
  cases hc : packContent packers mem layerExperts bundles shape slotSizeBytes layerGgufTypes
      expertIdx layerIdx with
  | error e =>
    rw [hc] at h
    cases h
  | ok data =>
    rw [hc] at h
    cases h
    exact length_padded ((length_packContent hc).trans hle)

end LayerStorm.Weights

import LayerStorm.Weights.Manifest

/-!
# Addressing the expert files by the manifest

A reader of the expert files finds the slot of a layer by the position of the layer in the manifest.
The verifier compares the fields of the manifest with each other, but it lets a layer stand twice in
the list of layers, and it does not look at the offsets of the projections.  The numbers are those of
the file, which the prepacker did not have to write.

## Main results

* `manifest_addresses_iff` — an accepted manifest addresses the files just if it is orderly.
-/

namespace LayerStorm.Weights

open List Option
namespace Prepacked

open Lib

/-! ### The position of a layer -/

/-- An `int`; beyond its range the arithmetic of the source is undefined. -/
def toInt32 (n : ℤ) : Option ℤ := if -2 ^ 31 ≤ n ∧ n < 2 ^ 31 then some n else none

/-- An `int64_t`. -/
def toInt64 (n : ℤ) : Option ℤ := if -2 ^ 63 ≤ n ∧ n < 2 ^ 63 then some n else none

namespace ManifestMoeLayers

def isContiguous (m : ManifestMoeLayers) : Option Bool := do
  let span ← toInt32 (m.lastMoeLayer - m.firstMoeLayer)
  let layers ← toInt32 (span + 1)
  some (m.count = layers)

/-- `std::lower_bound` over the sorted layers. -/
def lowerBound (m : ManifestMoeLayers) (layerIdx : ℤ) : ℕ :=
  (m.indices.takeWhile (· < layerIdx)).length

def layerPosition (m : ManifestMoeLayers) (layerIdx : ℤ) : Option ℤ := do
  if ← m.isContiguous then
    if layerIdx < m.firstMoeLayer ∨ m.lastMoeLayer < layerIdx then some (-1)
    else toInt32 (layerIdx - m.firstMoeLayer)
  else
    let it := m.lowerBound layerIdx
    some (if m.indices[it]? = some layerIdx then it else -1)

end ManifestMoeLayers

def slotOffset (layerPos slotSizeBytes : ℤ) : Option ℤ := toInt64 (layerPos * slotSizeBytes)

def expectedFileSize (nMoeLayers slotSizeBytes : ℤ) : Option ℤ :=
  toInt64 (nMoeLayers * slotSizeBytes)

def alignedSlotStride (rawSlotBytes : ℤ) : ℤ :=
  (rawSlotBytes + kSlotAlignBytes - 1).tdiv kSlotAlignBytes * kSlotAlignBytes

/-! ### The format -/

def projectionNk (shape : ManifestExpertDimensions) : Projection → ℤ × ℤ
  | .gate | .up => (shape.intermediateSize, shape.hiddenSize)
  | .down => (shape.hiddenSize, shape.intermediateSize)

/-- `gguf_packed_bytes`; `none` where it throws. -/
def ggufPackedBytes (outFeatures inFeatures : ℤ) (type : KQuant) : Option ℤ :=
  if inFeatures % type.blockValues ≠ 0 then none
  else some (outFeatures * (inFeatures / type.blockValues) * type.blockBytes)

/-- `QuantInterface`, over the dimensions of a file; `ggufTypes` are the types of a
`GgufQuantInterface`. -/
structure QuantInterface where
  name : String
  weightQuant : WeightQuant
  bytesPerProjection : ManifestExpertDimensions → Projection → Option ℤ
  ggufTypes : Option GgufTypes

/-- `bytes_per_expert`, which is the same in every format. -/
def QuantInterface.bytesPerExpert (q : QuantInterface) (shape : ManifestExpertDimensions) :
    Option ℤ := do
  let gate ← q.bytesPerProjection shape .gate
  let up ← q.bytesPerProjection shape .up
  let down ← q.bytesPerProjection shape .down
  some (gate + up + down)

/-- The test that tells a GGUF format. -/
def QuantInterface.isGguf (q : QuantInterface) : Bool :=
  q.weightQuant = .gguf ∨ (5 ≤ q.name.length ∧ "gguf_".toList.isPrefixOf q.name.toList)

/-- `make_gguf_quant`. -/
def ggufQuant (t : GgufTypes) : QuantInterface where
  name := if t.gate = t.up ∧ t.up = t.down then t.gate.typeName else "gguf"
  weightQuant := if t.gate = t.up ∧ t.up = t.down then .ggufUniform t.gate else .gguf
  bytesPerProjection shape proj :=
    let (n, k) := projectionNk shape proj
    ggufPackedBytes n k (t.projectionType proj)
  ggufTypes := some t

/-- `Fp8E4M3`. -/
def fp8Quant : QuantInterface where
  name := "fp8_e4m3"
  weightQuant := .fp8E4m3
  bytesPerProjection shape proj :=
    let (n, k) := projectionNk shape proj
    some (shape.hiddenSize * shape.intermediateSize +
      (n + 128 - 1).tdiv 128 * (k + 128 - 1).tdiv 128 * 4)
  ggufTypes := none

/-! ### Verification -/

/-- The format marker that a manifest of a format carries. -/
def expectedQuantFormat (quant : QuantInterface) : String :=
  if quant.name = "nvfp4" then kNvfp4PackedQuantFormat
  else if quant.isGguf then kGgufPackedQuantFormat
  else quant.name

def sizeOrThrow (size : Option ℤ) : Except String ℤ := size.elim (.error "exception") .ok

/-- The checks of the GGUF blocks. -/
def verifyGguf (m : Manifest) (quant : QuantInterface) : Except String Unit := do
  match m.ggufTypes with
  | none =>
    .error "GGUF manifest missing gguf_types block (gate/up/down k-quant types) — regenerate"
  | some types =>
    check (quant.ggufTypes.all fun q => decide (q = types))
      "GGUF gguf_types mismatch: manifest projection type differs from engine quant interface"
  check (m.ggufTypesPerLayer ≠ [])
    ("GGUF manifest missing gguf_types_per_layer block (per-MoE-layer gate/up/down k-quant types) " ++
      "— regenerate")
  check (m.ggufTypesPerLayer.length = m.moeLayers.count)
    (s!"gguf_types_per_layer has {m.ggufTypesPerLayer.length} entries but " ++
      s!"moe_layers.count={m.moeLayers.count}")
  for (t, i) in m.ggufTypesPerLayer.zipIdx do
    let total ← sizeOrThrow ((ggufQuant t).bytesPerExpert m.expertDimensions)
    check (total ≤ m.slot.slotSizeBytes)
      (s!"gguf_types_per_layer[{i}] packed total {total} exceeds slot size " ++
        s!"{m.slot.slotSizeBytes} (gguf_types must be the per-projection MAX)")

/-- The checks of the projections of a slot. -/
def verifyProjections (quant : QuantInterface) (shape : ManifestExpertDimensions) :
    List (Projection × String) → List ManifestProjection → ℕ → Except String Unit
  | (proj, name) :: rest, mp :: mps, i => do
    check (mp.name = name) s!"Projection {i} name mismatch: {mp.name} vs {name}"
    let total ← sizeOrThrow (quant.bytesPerProjection shape proj)
    check (mp.totalBytes = total)
      s!"Projection {mp.name} total_bytes mismatch: manifest={mp.totalBytes} expected={total}"
    verifyProjections quant shape rest mps (i + 1)
  | _, _, _ => .ok ()

/-- The checks of the layer list. -/
def verifyMoeLayers (m : ManifestMoeLayers) : Except String Unit := do
  check (m.indices.length = m.count)
    s!"moe_layers.count={m.count} but indices has {m.indices.length} entries"
  if 0 < m.count then
    check (m.indices.head? = some m.firstMoeLayer)
      s!"first_moe_layer={m.firstMoeLayer} but indices[0]={m.indices.headD 0}"
    check (m.indices.getLast? = some m.lastMoeLayer)
      s!"last_moe_layer={m.lastMoeLayer} but indices[last]={m.indices.getLastD 0}"
    check (m.indices.Pairwise (· ≤ ·)) "moe_layers.indices is not sorted ascending"

/-- The checks from the size of the slot on. -/
def verifySizes (m : Manifest) (quant : QuantInterface) : Except String Unit := do
  let shape := m.expertDimensions
  let expectedSlot ← sizeOrThrow (quant.bytesPerExpert shape)
  check (m.slot.slotSizeBytes = expectedSlot)
    s!"Slot size mismatch: manifest={m.slot.slotSizeBytes} expected={expectedSlot}"
  check (m.slot.strideBytes = alignedSlotStride expectedSlot ∧
      m.slot.strideBytes % kSlotAlignBytes = 0)
    (s!"Slot stride mismatch (legacy/unpadded data not supported — regenerate): " ++
      s!"manifest={m.slot.strideBytes} expected={alignedSlotStride expectedSlot}")
  check (m.slot.projections.length = 3) s!"Expected 3 projections, got {m.slot.projections.length}"
  verifyProjections quant shape projNames m.slot.projections 0
  verifyMoeLayers m.moeLayers
  check (m.nExpertFiles = m.nRoutedExperts)
    s!"n_expert_files={m.nExpertFiles} != n_routed_experts={m.nRoutedExperts}"

def verifyManifest (m : Manifest) (quant : QuantInterface) : Except String Unit := do
  check (m.formatVersion = kFormatVersion)
    s!"Unsupported format version: {m.formatVersion} (engine supports {kFormatVersion})"
  check (m.quantFormat = expectedQuantFormat quant)
    s!"Quant format mismatch: manifest={m.quantFormat} engine expects={expectedQuantFormat quant}"
  if quant.isGguf then verifyGguf m quant
  verifySizes m quant

/-! ### What a manifest says -/

/-- The offsets that `build_slot_from_quant` counts up. -/
def runningOffsets : ℤ → List ManifestProjection → List ℤ
  | _, [] => []
  | offset, p :: ps => offset :: runningOffsets (offset + p.totalBytes) ps

/-- The projections lie one behind the other between two offsets. -/
def Tiles : ℤ → List ManifestProjection → ℤ → Prop
  | lo, [], hi => lo = hi
  | lo, p :: ps, hi => p.offset = lo ∧ 0 ≤ p.totalBytes ∧ Tiles (lo + p.totalBytes) ps hi

/-- **The manifest addresses the files.**  The layers of the list have the positions below `count`
in their order and no other layer has one; the slots lie in the file, apart from each other; the
projections tile a slot; and the manifest is read as it was written. -/
structure Manifest.Addresses (m : Manifest) : Prop where
  position : ∃ e : {l // l ∈ m.moeLayers.indices} ≃o Fin m.moeLayers.count.toNat,
    ∀ l, m.moeLayers.layerPosition l =
      some (if h : l ∈ m.moeLayers.indices then ((e ⟨l, h⟩ : ℕ) : ℤ) else -1)
  inside : ∀ l ∈ m.moeLayers.indices, ∃ pos offset size, m.moeLayers.layerPosition l = some pos ∧
    slotOffset pos m.slot.strideBytes = some offset ∧
    expectedFileSize m.moeLayers.count m.slot.strideBytes = some size ∧
    0 ≤ offset ∧ offset + m.slot.strideBytes ≤ size
  disjoint : ∀ l ∈ m.moeLayers.indices, ∀ l' ∈ m.moeLayers.indices, l ≠ l' →
    ∃ pos pos' offset offset', m.moeLayers.layerPosition l = some pos ∧
      m.moeLayers.layerPosition l' = some pos' ∧
      slotOffset pos m.slot.strideBytes = some offset ∧
      slotOffset pos' m.slot.strideBytes = some offset' ∧
      (offset + m.slot.strideBytes ≤ offset' ∨ offset' + m.slot.strideBytes ≤ offset)
  tiled : Tiles 0 m.slot.projections m.slot.slotSizeBytes
  readBack : manifestFromJson (manifestToJson m) = some m

/-- What the verifier leaves open: no layer stands twice in the list, the numbers stay in the range
of their types, and the offsets are those that are counted up. -/
structure Manifest.Orderly (m : Manifest) : Prop where
  ascending : m.moeLayers.indices.Pairwise (· < ·)
  span : -2 ^ 31 ≤ m.moeLayers.lastMoeLayer - m.moeLayers.firstMoeLayer ∧
    m.moeLayers.lastMoeLayer - m.moeLayers.firstMoeLayer + 1 < 2 ^ 31
  fits : m.moeLayers.count = 0 ∨ m.moeLayers.count * m.slot.strideBytes < 2 ^ 63
  sizes : ∀ p ∈ m.slot.projections, 0 ≤ p.totalBytes
  offsets : m.slot.projections.map (·.offset) = runningOffsets 0 m.slot.projections

/-! ### What is accepted -/

theorem toInt32_eq_some {n k : ℤ} : toInt32 n = some k ↔ (-2 ^ 31 ≤ n ∧ n < 2 ^ 31) ∧ n = k := by
  unfold toInt32
  split
  · next h => exact ⟨fun he => ⟨h, some.inj he⟩, fun he => congrArg some he.2⟩
  · next h => exact ⟨fun he => (by cases he), fun he => absurd he.1 h⟩

theorem toInt64_eq_some {n k : ℤ} : toInt64 n = some k ↔ (-2 ^ 63 ≤ n ∧ n < 2 ^ 63) ∧ n = k := by
  unfold toInt64
  split
  · next h => exact ⟨fun he => ⟨h, some.inj he⟩, fun he => congrArg some he.2⟩
  · next h => exact ⟨fun he => (by cases he), fun he => absurd he.1 h⟩

theorem sizeOrThrow_eq_ok {size : Option ℤ} {n : ℤ} : sizeOrThrow size = .ok n ↔ size = some n := by
  cases size <;> simp [sizeOrThrow]

structure ManifestMoeLayers.Accepted (m : ManifestMoeLayers) : Prop where
  length : (m.indices.length : ℤ) = m.count
  first : 0 < m.count → m.indices.head? = some m.firstMoeLayer
  last : 0 < m.count → m.indices.getLast? = some m.lastMoeLayer
  sorted : m.indices.Pairwise (· ≤ ·)

variable {u : Unit}

theorem verifyMoeLayers_ok {m : ManifestMoeLayers} (h : verifyMoeLayers m = .ok u) :
    m.Accepted := by
  simp only [verifyMoeLayers, bind_eq_ok, check_eq_ok] at h
  obtain ⟨_, hlen, h⟩ := h
  split at h
  · next hpos =>
    simp only [bind_eq_ok, check_eq_ok] at h
    obtain ⟨_, hfirst, _, hlast, hsorted⟩ := h
    exact ⟨hlen, fun _ => hfirst, fun _ => hlast, hsorted⟩
  · next hpos =>
    -- the list is empty
    have hnil : m.indices = [] := eq_nil_of_length_eq_zero (by omega)
    exact ⟨hlen, fun h => absurd h hpos, fun h => absurd h hpos, hnil ▸ List.Pairwise.nil⟩

variable {quant : QuantInterface}

theorem verifyProjections_ok {shape : ManifestExpertDimensions} {l : List (Projection × String)} :
    ∀ {ps : List ManifestProjection} {i : ℕ} {u : Unit},
    ps.length = l.length → verifyProjections quant shape l ps i = .ok u →
      l.mapM (fun x => quant.bytesPerProjection shape x.1) = some (ps.map (·.totalBytes)) := by
  induction l with
  | nil =>
    intro ps i u hlen _
    rw [eq_nil_of_length_eq_zero hlen]
    rfl
  | cons x l ih =>
    intro ps i u hlen h
    cases ps with
    | nil => cases hlen
    | cons mp mps =>
      simp only [verifyProjections, bind_eq_ok, check_eq_ok] at h
      obtain ⟨_, _, total, htotal, _, hmp, hrest⟩ := h
      rw [mapM_cons, sizeOrThrow_eq_ok.1 htotal, ih (Nat.succ.inj hlen) hrest, ← hmp]
      rfl

structure Manifest.Accepted (m : Manifest) : Prop where
  layers : m.moeLayers.Accepted
  stride : m.slot.strideBytes = alignedSlotStride m.slot.slotSizeBytes
  size : m.slot.slotSizeBytes = (m.slot.projections.map (·.totalBytes)).sum

theorem verifySizes_ok {m : Manifest} (h : verifySizes m quant = .ok u) : m.Accepted := by
  simp only [verifySizes, bind_eq_ok, check_eq_ok] at h
  obtain ⟨slot, hslot, _, hsize, _, ⟨hstride, -⟩, _, hthree, _, hprojections, _, hlayers, -⟩ := h
  refine ⟨verifyMoeLayers_ok hlayers, hsize ▸ hstride, ?_⟩
  have hmap := verifyProjections_ok hthree hprojections
  -- the size of an expert is the sum over its projections
  have hexpert := sizeOrThrow_eq_ok.1 hslot
  unfold QuantInterface.bytesPerExpert at hexpert
  simp only [projNames, List.mapM_cons, List.mapM_nil, Option.bind_eq_bind,
    Option.bind_eq_some_iff, Option.pure_def, Option.some.injEq] at hmap hexpert
  obtain ⟨gate, hgate, up, hup, down, hdown, rfl⟩ := hexpert
  obtain ⟨gate', hgate', rest, ⟨up', hup', rest', ⟨down', hdown', _, rfl, rfl⟩, rfl⟩, htotals⟩ :=
    hmap
  rw [hgate] at hgate'
  rw [hup] at hup'
  rw [hdown] at hdown'
  cases hgate'
  cases hup'
  cases hdown'
  rw [hsize, ← htotals]
  simp [add_assoc]

theorem verifyManifest_ok {m : Manifest} (h : verifyManifest m quant = .ok u) : m.Accepted := by
  simp only [verifyManifest, bind_eq_ok] at h
  obtain ⟨_, _, _, _, h⟩ := h
  split at h
  · rw [bind_eq_ok] at h
    obtain ⟨_, _, h⟩ := h
    exact verifySizes_ok h
  · exact verifySizes_ok h

/-! ### Positions -/

section Ascending

variable {l : List ℤ}

theorem getElem_add_le (hl : l.Pairwise (· < ·)) {i : ℕ} (hi : i < l.length) :
    ∀ {k : ℕ} (h : i + k < l.length), l[i] + k ≤ l[i + k] := by
  intro k
  induction k with
  | zero => exact fun _ => (add_zero _).le
  | succ k ih =>
    intro h
    have hstep : l[i + k] < l[i + (k + 1)] :=
      pairwise_iff_getElem.1 hl _ _ _ _ (by omega)
    have hk := ih (by omega)
    omega

theorem length_takeWhile_lt (hl : l.Pairwise (· < ·)) {x : ℤ} (hx : x ∈ l) :
    (l.takeWhile (· < x)).length = l.idxOf x := by
  induction l with
  | nil => exact absurd hx not_mem_nil
  | cons y l ih =>
    obtain ⟨hy, hl⟩ := pairwise_cons.1 hl
    rcases mem_cons.1 hx with rfl | hx
    · simp
    · have hlt := hy x hx
      rw [takeWhile_cons_of_pos (by simpa using hlt), length_cons, ih hl hx, idxOf_cons_ne _ hlt.ne]

theorem pairwise_lt_of_nodup (hl : l.Pairwise (· ≤ ·)) (hnodup : l.Nodup) : l.Pairwise (· < ·) :=
  (hl.and hnodup).imp fun h => lt_of_le_of_ne h.1 h.2

end Ascending

namespace ManifestMoeLayers

variable {m : ManifestMoeLayers}

theorem getElem_of_contiguous (h : m.Accepted) (hasc : m.indices.Pairwise (· < ·))
    (hrange : m.count = m.lastMoeLayer - m.firstMoeLayer + 1) {i : ℕ} (hi : i < m.indices.length) :
    m.indices[i] = m.firstMoeLayer + i := by
  have hlen := h.length
  have hpos : 0 < m.count := by omega
  have hfirst := h.first hpos
  have hlast := h.last hpos
  rw [head?_eq_getElem?, getElem?_eq_some_iff] at hfirst
  rw [getLast?_eq_getElem?, getElem?_eq_some_iff] at hlast
  -- the entry is squeezed between the first and the last one
  have hlow := @getElem_add_le _ hasc 0 (by omega) i (by omega)
  have hhigh := @getElem_add_le _ hasc i hi (m.indices.length - 1 - i) (by omega)
  simp only [Nat.zero_add] at hlow
  have hidx : i + (m.indices.length - 1 - i) = m.indices.length - 1 := by omega
  simp only [hidx] at hhigh
  omega

/-- **The position of a layer** in an ascending list. -/
theorem layerPosition_eq (h : m.Accepted) (hasc : m.indices.Pairwise (· < ·))
    (hlow : -2 ^ 31 ≤ m.lastMoeLayer - m.firstMoeLayer)
    (hhigh : m.lastMoeLayer - m.firstMoeLayer + 1 < 2 ^ 31) (layerIdx : ℤ) :
    m.layerPosition layerIdx =
      some (if layerIdx ∈ m.indices then (m.indices.idxOf layerIdx : ℤ) else -1) := by
  have hcont : m.isContiguous = some (decide (m.count = m.lastMoeLayer - m.firstMoeLayer + 1)) := by
    unfold isContiguous
    simp only [bind_eq_bind, bind_eq_some_iff, toInt32_eq_some]
    exact ⟨_, ⟨⟨hlow, by omega⟩, rfl⟩, _, ⟨⟨by omega, hhigh⟩, rfl⟩, rfl⟩
  have hlen := h.length
  unfold layerPosition
  rw [hcont]
  dsimp only [bind_eq_bind, bind_some]
  by_cases hrange : m.count = m.lastMoeLayer - m.firstMoeLayer + 1
  · rw [if_pos (decide_eq_true hrange)]
    by_cases hmem : layerIdx ∈ m.indices
    · obtain ⟨i, hi, rfl⟩ := getElem_of_mem hmem
      have hlayer := getElem_of_contiguous h hasc hrange hi
      have hnodup : m.indices.Nodup := hasc.imp fun hlt => hlt.ne
      have hidx : m.indices.idxOf m.indices[i] = i := hnodup.idxOf_getElem i hi
      rw [if_pos hmem, if_neg (by omega), toInt32_eq_some]
      omega
    · rw [if_neg hmem, if_pos]
      -- a layer of the range is in the list
      by_contra hin
      have hi : (layerIdx - m.firstMoeLayer).toNat < m.indices.length := by omega
      refine hmem (mem_iff_getElem.2 ⟨_, hi, ?_⟩)
      rw [getElem_of_contiguous h hasc hrange hi]
      omega
  · rw [if_neg (by simpa using hrange)]
    unfold lowerBound
    by_cases hmem : layerIdx ∈ m.indices
    · rw [if_pos hmem, length_takeWhile_lt hasc hmem, if_pos (getElem?_idxOf hmem)]
    · rw [if_neg hmem, if_neg fun hget => hmem (mem_of_getElem? hget)]

theorem pairwise_lt_of_iso (h : m.Accepted) (e : {l // l ∈ m.indices} ≃o Fin m.count.toNat) :
    m.indices.Pairwise (· < ·) := by
  refine pairwise_lt_of_nodup h.sorted ?_
  have hcard := Fintype.card_congr e.toEquiv
  have hset : Fintype.card {l // l ∈ m.indices} = m.indices.toFinset.card := by
    rw [Fintype.card_of_subtype m.indices.toFinset fun _ => mem_toFinset]
  have hlen := h.length
  rw [hset, Fintype.card_fin] at hcard
  rw [← Multiset.coe_nodup, ← Multiset.toFinset_card_eq_card_iff_nodup]
  exact hcard.trans (by rw [Multiset.coe_card]; omega)

end ManifestMoeLayers

/-! ### Slots -/

theorem tiles_iff {hi : ℤ} {ps : List ManifestProjection} : ∀ {lo : ℤ}, Tiles lo ps hi ↔
    (∀ p ∈ ps, 0 ≤ p.totalBytes) ∧ ps.map (·.offset) = runningOffsets lo ps ∧
      hi = lo + (ps.map (·.totalBytes)).sum := by
  induction ps with
  | nil =>
    intro lo
    simp [Tiles, runningOffsets, eq_comm]
  | cons p ps ih =>
    intro lo
    rw [Tiles, ih, forall_mem_cons, map_cons, runningOffsets, cons.injEq,
      map_cons, sum_cons, add_assoc]
    tauto

theorem alignedSlotStride_nonneg {n : ℤ} (h : 0 ≤ n) : 0 ≤ alignedSlotStride n := by
  have hpos : (0 : ℤ) < kSlotAlignBytes := by decide
  exact mul_nonneg (Int.tdiv_nonneg (by omega) hpos.le) hpos.le

namespace Manifest

variable {m : Manifest}

theorem Accepted.stride_nonneg (h : m.Accepted)
    (hsizes : ∀ p ∈ m.slot.projections, 0 ≤ p.totalBytes) : 0 ≤ m.slot.strideBytes := by
  rw [h.stride]
  refine alignedSlotStride_nonneg ?_
  rw [h.size]
  refine sum_nonneg fun n hn => ?_
  obtain ⟨p, hp, rfl⟩ := mem_map.1 hn
  exact hsizes p hp

theorem Orderly.slot (ho : m.Orderly) (h : m.Accepted) {layerIdx : ℤ}
    (hmem : layerIdx ∈ m.moeLayers.indices) : ∃ i : ℕ, ∃ size : ℤ,
    m.moeLayers.indices.idxOf layerIdx = i ∧
    m.moeLayers.layerPosition layerIdx = some i ∧
    slotOffset i m.slot.strideBytes = some (i * m.slot.strideBytes) ∧
    expectedFileSize m.moeLayers.count m.slot.strideBytes = some size ∧
    0 ≤ i * m.slot.strideBytes ∧ i * m.slot.strideBytes + m.slot.strideBytes ≤ size := by
  have hstride := h.stride_nonneg ho.sizes
  have hlen := h.layers.length
  have hi := idxOf_lt_length_of_mem hmem
  have hposition := ManifestMoeLayers.layerPosition_eq h.layers ho.ascending ho.span.1 ho.span.2
    layerIdx
  rw [if_pos hmem] at hposition
  set i := m.moeLayers.indices.idxOf layerIdx
  have hcount : (i : ℤ) + 1 ≤ m.moeLayers.count := by omega
  have hfits := ho.fits.resolve_left (by omega)
  have hend : (i : ℤ) * m.slot.strideBytes + m.slot.strideBytes ≤
      m.moeLayers.count * m.slot.strideBytes := by
    have hmul := mul_le_mul_of_nonneg_right hcount hstride
    rwa [add_mul, one_mul] at hmul
  have hoffset : 0 ≤ (i : ℤ) * m.slot.strideBytes := mul_nonneg (Int.natCast_nonneg i) hstride
  refine ⟨i, _, rfl, hposition, toInt64_eq_some.2 ⟨⟨by omega, by omega⟩, rfl⟩,
    toInt64_eq_some.2 ⟨⟨by omega, hfits⟩, rfl⟩, hoffset, hend⟩

theorem Orderly.addresses (ho : m.Orderly) (h : m.Accepted) : m.Addresses where
  position := by
    have hlen := h.layers.length
    refine ⟨(ho.ascending.sortedLT.getIso _).symm.trans (Fin.castOrderIso (by omega)),
      fun layerIdx => ?_⟩
    rw [ManifestMoeLayers.layerPosition_eq h.layers ho.ascending ho.span.1 ho.span.2]
    by_cases hmem : layerIdx ∈ m.moeLayers.indices
    · rfl
    · rw [if_neg hmem, dif_neg hmem]
  inside layerIdx hmem := by
    obtain ⟨i, size, -, hposition, hoffset, hsize, hnonneg, hend⟩ := ho.slot h hmem
    exact ⟨i, _, size, hposition, hoffset, hsize, hnonneg, hend⟩
  disjoint layerIdx hmem layerIdx' hmem' hne := by
    obtain ⟨i, -, hi, hposition, hoffset, -⟩ := ho.slot h hmem
    obtain ⟨i', -, hi', hposition', hoffset', -⟩ := ho.slot h hmem'
    have hne' : i ≠ i' := by
      rw [← hi, ← hi']
      exact fun heq => hne ((idxOf_inj hmem).1 heq)
    have hstride := h.stride_nonneg ho.sizes
    have hle : ∀ {a b : ℕ}, a < b →
        (a : ℤ) * m.slot.strideBytes + m.slot.strideBytes ≤ b * m.slot.strideBytes := by
      intro a b hab
      have hmul := mul_le_mul_of_nonneg_right (by omega : (a : ℤ) + 1 ≤ b) hstride
      rwa [add_mul, one_mul] at hmul
    exact ⟨i, i', _, _, hposition, hposition', hoffset, hoffset',
      (Nat.lt_or_gt_of_ne hne').imp hle hle⟩
  tiled := tiles_iff.2 ⟨ho.sizes, ho.offsets, by rw [h.size, zero_add]⟩
  readBack := manifestFromJson_toJson m

theorem Addresses.orderly (ha : m.Addresses) (h : m.Accepted) : m.Orderly := by
  obtain ⟨hsizes, hoffsets, -⟩ := tiles_iff.1 ha.tiled
  obtain ⟨e, he⟩ := ha.position
  refine ⟨ManifestMoeLayers.pairwise_lt_of_iso h.layers e, ?_, ?_, hsizes, hoffsets⟩
  · -- a position was found, so the range was in range
    have hdefined := he 0
    unfold ManifestMoeLayers.layerPosition ManifestMoeLayers.isContiguous at hdefined
    simp only [bind_eq_bind, bind_eq_some_iff, toInt32_eq_some] at hdefined
    obtain ⟨_, ⟨_, ⟨⟨hlow, -⟩, rfl⟩, _, ⟨⟨-, hhigh⟩, rfl⟩, -⟩, -⟩ := hdefined
    exact ⟨hlow, hhigh⟩
  · have hlen := h.layers.length
    by_cases hnil : m.moeLayers.indices = []
    · rw [hnil] at hlen
      exact .inl hlen.symm
    · obtain ⟨layerIdx, hmem⟩ := exists_mem_of_ne_nil _ hnil
      obtain ⟨_, _, _, -, -, hsize, -⟩ := ha.inside layerIdx hmem
      exact .inr (toInt64_eq_some.1 hsize).1.2

end Manifest

/-- **An accepted manifest addresses the files just if it is orderly.** -/
theorem manifest_addresses_iff {m : Manifest} {quant : QuantInterface}
    (h : verifyManifest m quant = .ok ()) : m.Addresses ↔ m.Orderly :=
  ⟨fun ha => ha.orderly (verifyManifest_ok h), fun ho => ho.addresses (verifyManifest_ok h)⟩

def tileManifest (layers : ManifestMoeLayers) : Manifest where
  formatVersion := "9.69.0"
  engineVersion := "engine"
  sourceModelPath := "model"
  sourceFreshnessTimestamp := 1
  sourceFreshnessFile := "model.safetensors"
  quantFormat := "fp8_e4m3"
  nRoutedExperts := 2
  nExpertFiles := 2
  expertDimensions := ⟨128, 128⟩
  moeLayers := layers
  ggufTypes := none
  ggufTypesPerLayer := []
  slot := ⟨49164, 53248, 4,
    [⟨"gate", 0, 16388, 16384, 4, 0, "weights"⟩, ⟨"up", 16388, 16388, 16384, 4, 0, "weights"⟩,
      ⟨"down", 32776, 16388, 16384, 4, 0, "weights"⟩]⟩

/-- The layers 3, 5 and 9. -/
theorem manifest_addresses_iff_gaps : (tileManifest ⟨3, 3, 9, [3, 5, 9]⟩).Addresses :=
  (@manifest_addresses_iff _ fp8Quant (by rfl)).2
    ⟨by decide, by decide, by decide, by decide, by decide⟩

/-- A layer that stands twice in the list is accepted, and a layer that is not in it has the place
of one that is. -/
theorem repeated_layer_accepted :
    verifyManifest (tileManifest ⟨3, 3, 5, [3, 3, 5]⟩) fp8Quant = .ok () ∧
      (tileManifest ⟨3, 3, 5, [3, 3, 5]⟩).moeLayers.layerPosition 4 = some 1 ∧
      ¬(tileManifest ⟨3, 3, 5, [3, 3, 5]⟩).Addresses := by
  refine ⟨by rfl, by decide, fun ha => ?_⟩
  obtain ⟨e, he⟩ := ha.position
  have hfour := he 4
  rw [dif_neg (by decide)] at hfour
  exact absurd hfour (by decide)

end Prepacked

end LayerStorm.Weights

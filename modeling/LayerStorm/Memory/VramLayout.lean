import LayerStorm.Lib.ExceptLoop
import LayerStorm.Memory.AdmissibleContext

/-!
# The memory of a graphics card

At the start a daemon divides the memory of each card: pinned weights and a margin come first, then
the indexer and the linear state where they have regions of their own; the expert cache has a
reservation, and what is left goes to the pages of keys and values, with a scratch at their end.
The expert cache gets what the rounded regions leave.

## Main results

* `gives_way_iff` — when sizing gives way.
-/

namespace LayerStorm.Memory
namespace Context

open Lib

/-! ### Configurations -/

/-- `vram_allocation_gb`, in bytes; what is not set is `none`. -/
structure VramAllocation where
  safetyMargin : Option ℤ
  resident : Option ℤ
  expertStreaming : Option ℤ
  stableZoneFraction : Option ℚ
  deriving DecidableEq

/-- A card: its memory, the pinned bytes that the registry budgets, and the override. -/
structure GpuHardware where
  gpuId : ℤ
  totalVramBytes : ℤ
  budgetPinnedBytes : ℤ
  allocation : Option VramAllocation
  deriving DecidableEq

/-- The state of the linear layers: `compute_kda_state_layout`, and whether it is to be mapped. -/
structure KdaStateLayout where
  enabled : Bool
  mappedRequested : Bool
  numLayers : ℕ
  perLayerBytes : ℕ
  slotBytes : ℕ
  deriving DecidableEq

/-- A configuration.  `scaled` is the floor of the product of a number of bytes and a fraction, as
floating-point numbers are multiplied. -/
structure VramConfig where
  gpus : List GpuHardware
  tpArray : List ℤ
  dcpEnabled : Bool
  dcpKvSharded : Bool
  indexerModeLocal : Bool
  vocabSize : ℕ
  vramSafetyMargin : ℤ
  kvBytesPerPage : ℕ
  indexerKBytesPerPage : ℕ
  kvLayers : ℕ
  hasDsa : Bool
  numDsaLayers : ℕ
  indexerKPageSize : ℕ
  pageSizeTokens : ℕ
  dcpChunkSize : ℕ
  maxSequenceLength : ℕ
  maxConcurrentRequests : ℕ
  prefixCacheEnabled : Bool
  maxEntries : ℕ
  numMoeLayers : ℕ
  numExpertsPerTok : ℕ
  perRoutedExpertBytes : ℕ
  kda : KdaStateLayout
  prefillScratchPreallocated : ℤ
  naivePrefillContextCeiling : Option ℤ
  naiveScratchBytesPerToken : ℕ
  maxPagesPerGpu : Option ℤ
  speculationPoolFraction : ℚ
  streamingSpillFraction : ℚ
  stableZoneFraction : ℚ
  scaled : ℤ → ℚ → ℤ
  pageSize_pos : 0 < pageSizeTokens

/-- Why the division fails. -/
inductive VramError
  | vocabIndivisible | kdaStateInsufficient | expertCacheInsufficient
  deriving DecidableEq, Repr

structure GpuVramLayout where
  gpuId : ℤ
  totalVramBytes : ℤ
  safetyMarginBytes : ℤ
  attentionHost : Bool
  dcpKvShardFactor : ℕ
  pinnedBytes : ℤ
  indexerKPages : ℤ
  indexerKBytes : ℤ
  indexerKPadBytes : ℤ
  indexerShareSlabs : ℤ
  indexerShareBytes : ℤ
  kdaStateSlots : ℤ
  kdaStateBytes : ℤ
  maxKvPages : ℤ
  kvSpeculationBytes : ℤ
  kvMainBytes : ℤ
  prefillScratchPreallocatedBytes : ℤ
  expertStreamingBytes : ℤ
  expertStableBytes : ℤ
  streamingSpillBytes : ℤ
  streamingPrefetchBytes : ℤ
  kvSpeculationPages : ℤ
  kvMainPages : ℤ
  admissibleCtxTokens : ℕ

def GpuVramLayout.expertTotalBytes (g : GpuVramLayout) : ℤ :=
  g.expertStableBytes + g.expertStreamingBytes

/-- `kLayoutAlign`. -/
def layoutAlign : ℤ := 256

def alignRegion (sz : ℤ) : ℤ := (sz + layoutAlign - 1) / layoutAlign * layoutAlign

/-- `kZoneAlign`. -/
def zoneAlign : ℤ := 4096

namespace VramConfig

variable (cfg : VramConfig)

/-! ### What holds for all cards -/

def pagesPerSlab : ℕ :=
  if 0 < cfg.indexerKBytesPerPage ∧ 0 < cfg.kvBytesPerPage then
    (cfg.indexerKBytesPerPage + cfg.kvBytesPerPage - 1) / cfg.kvBytesPerPage
  else 0

def slabBytes : ℕ := cfg.pagesPerSlab * cfg.kvBytesPerPage

def minExpertCache : ℤ :=
  if cfg.numMoeLayers = 0 then 0 else cfg.numExpertsPerTok * cfg.perRoutedExpertBytes

def inTp (gpu : ℕ) : Bool := cfg.tpArray.contains (gpu : ℤ)

def tpDegree : ℕ := cfg.tpArray.length

def attentionHost (gpu : ℕ) : Bool := cfg.tpArray.isEmpty || cfg.inTp gpu

/-- `kda.mapped`: a model without slabs falls back to a region. -/
def kdaMapped : Bool := cfg.kda.mappedRequested && decide (0 < cfg.slabBytes)

def dcp : Bool := cfg.dcpEnabled && decide (2 ≤ cfg.tpDegree)

def dcpShardFactor : ℕ := if cfg.dcp then cfg.tpDegree else 1

def kvSharded : Bool := cfg.dcp && cfg.dcpKvSharded

def naivePrefillScratchBytes (seqLen : ℤ) : ℤ :=
  if seqLen ≤ 0 then 0 else cfg.naiveScratchBytesPerToken * seqLen

def naiveScratchNeeded : ℤ :=
  let tokens : ℤ := cfg.naivePrefillContextCeiling.getD cfg.maxSequenceLength
  cfg.naivePrefillScratchBytes (if cfg.dcp then tokens.tdiv cfg.dcpShardFactor else tokens)

/-- `prefill_scratch_gb_to_bytes`. -/
def prefillScratch : ℤ :=
  if cfg.hasDsa then cfg.prefillScratchPreallocated
  else max (min cfg.prefillScratchPreallocated cfg.naiveScratchNeeded) 0

/-- `spill_scratch_needed`; `INT64_MAX` stands for no bound. -/
def spillScratchNeeded : ℤ :=
  if cfg.hasDsa then 2 ^ 63 - 1 else max 0 (cfg.naiveScratchNeeded - cfg.prefillScratch)

def spillFrac : ℚ := max 0 (min 1 cfg.streamingSpillFraction)

/-! ### What a card starts with -/

def safetyMarginBytes (hw : GpuHardware) : ℤ :=
  (hw.allocation.bind (·.safetyMargin)).getD cfg.vramSafetyMargin

/-- The pinned bytes before they are rounded. -/
def rawPinnedBytes (hw : GpuHardware) : ℤ :=
  match hw.allocation.bind (·.resident) with
  | some override => max override hw.budgetPinnedBytes
  | none => hw.budgetPinnedBytes

def pinnedBytes (hw : GpuHardware) : ℤ := alignRegion (rawPinnedBytes hw)

/-- The `expert_streaming` override. -/
def streamingOverride (hw : GpuHardware) : Option ℤ := hw.allocation.bind (·.expertStreaming)

def expertReserve (hw : GpuHardware) : ℤ :=
  match streamingOverride hw with
  | some override => max cfg.minExpertCache override
  | none => cfg.minExpertCache

/-! ### The indexer -/

/-- `pages_per_seq` of the indexer. -/
def indexerPagesPerSeq : ℕ :=
  let pages := (cfg.maxSequenceLength + cfg.indexerKPageSize - 1) / cfg.indexerKPageSize
  if cfg.indexerModeLocal ∧ 1 < cfg.dcpShardFactor then
    (pages + cfg.dcpShardFactor - 1) / cfg.dcpShardFactor
  else pages

/-- `per_seq_bytes`: a page costs a slab. -/
def indexerPerSeqBytes : ℤ :=
  let stride := if 0 < cfg.slabBytes then cfg.slabBytes else cfg.indexerKBytesPerPage
  cfg.indexerPagesPerSeq * cfg.numDsaLayers * stride

/-- The sequences that a card affords beside the first. -/
def affordedSeqs (hw : GpuHardware) : ℤ :=
  let residual := hw.totalVramBytes - cfg.safetyMarginBytes hw - pinnedBytes hw -
    cfg.expertReserve hw - cfg.indexerPerSeqBytes
  if 0 < residual then residual / 4 / cfg.indexerPerSeqBytes else 0

/-- `extra_seqs`: the least over the cards that host attention. -/
def extraSeqs : Option ℤ :=
  if 0 < cfg.indexerPerSeqBytes then
    ((cfg.gpus.zipIdx.filter fun g => cfg.attentionHost g.2).map fun g =>
      cfg.affordedSeqs g.1).min?
  else none

def indexerSeqs : ℤ :=
  if cfg.hasDsa ∧ 0 < cfg.indexerKPageSize ∧ 0 < cfg.numDsaLayers then
    min (max 1 cfg.maxConcurrentRequests) (1 + cfg.extraSeqs.getD 0)
  else 1

def indexerDemandPages : ℤ := cfg.indexerPagesPerSeq * cfg.numDsaLayers * cfg.indexerSeqs

/-- `indexer_share_slabs`: with slabs, the indexer is a share of the pages. -/
def indexerShareSlabs (gpu : ℕ) : ℤ :=
  if cfg.hasDsa ∧ cfg.attentionHost gpu ∧ 0 < cfg.slabBytes then cfg.indexerDemandPages else 0

def indexerShareBytes (gpu : ℕ) : ℤ := cfg.indexerShareSlabs gpu * cfg.slabBytes

/-- `indexer_k_pages`: without slabs, it has a region. -/
def indexerKPages (gpu : ℕ) : ℤ :=
  if cfg.hasDsa ∧ cfg.attentionHost gpu ∧ ¬ 0 < cfg.slabBytes then cfg.indexerDemandPages else 0

def indexerKBytes (gpu : ℕ) : ℤ := cfg.indexerKPages gpu * cfg.indexerKBytesPerPage

def indexerKPadBytes (gpu : ℕ) : ℤ :=
  (layoutAlign - (cfg.indexerKBytes gpu).tmod layoutAlign).tmod layoutAlign

/-- `available`, before the linear state has its region. -/
def available (gpu : ℕ) (hw : GpuHardware) : ℤ :=
  hw.totalVramBytes - pinnedBytes hw - cfg.safetyMarginBytes hw - cfg.indexerKBytes gpu -
    cfg.indexerKPadBytes gpu

/-! ### The linear state -/

def kdaPolicySlots : ℕ :=
  max 1 cfg.maxConcurrentRequests + if cfg.prefixCacheEnabled then cfg.maxEntries else 0

def kdaMappedShareBytes (gpu : ℕ) : ℤ :=
  if cfg.kda.enabled ∧ cfg.kdaMapped ∧ cfg.attentionHost gpu then
    let unitSlabs := (cfg.kda.perLayerBytes + cfg.slabBytes - 1) / cfg.slabBytes
    cfg.kdaPolicySlots * cfg.kda.numLayers * unitSlabs * cfg.slabBytes
  else 0

/-- `kda_state_slots`, of the region that the linear state has where it is not mapped. -/
def kdaStateSlots (gpu : ℕ) (hw : GpuHardware) : Except VramError ℤ :=
  if cfg.kda.enabled ∧ ¬ cfg.kdaMapped ∧ cfg.attentionHost gpu then
    let resid := cfg.available gpu hw - cfg.expertReserve hw - cfg.indexerShareBytes gpu
    if resid < cfg.kda.slotBytes then .error .kdaStateInsufficient
    else .ok (min cfg.kdaPolicySlots (max 1 ((resid.tdiv 2).tdiv cfg.kda.slotBytes)))
  else .ok 0

/-- What is left after the pinned weights, the margin, the indexer and the linear state. -/
def availableAfterCarves (gpu : ℕ) (hw : GpuHardware) : Except VramError ℤ :=
  (cfg.kdaStateSlots gpu hw).map fun slots => cfg.available gpu hw - slots * cfg.kda.slotBytes

/-! ### Pages -/

/-- `dcp_kv_shard_factor` of a card. -/
def dcpKvShardFactor (gpu : ℕ) : ℕ :=
  if cfg.inTp gpu ∧ cfg.kvSharded then cfg.dcpShardFactor else 1

theorem dcpKvShardFactor_pos (gpu : ℕ) : 0 < cfg.dcpKvShardFactor gpu := by
  rw [dcpKvShardFactor, dcpShardFactor]
  split
  · next h =>
    have hdcp : cfg.dcp = true := by
      have := h.2
      rw [kvSharded, Bool.and_eq_true] at this
      exact this.1
    have htp := hdcp
    rw [dcp, Bool.and_eq_true, decide_eq_true_eq] at htp
    rw [if_pos hdcp]
    omega
  · exact Nat.one_pos

/-- What the admissible context of a card depends on. -/
def contextConfig (gpu : ℕ) : ContextConfig where
  pageSizeTokens := cfg.pageSizeTokens
  dcpChunkSize := cfg.dcpChunkSize
  kvLayers := cfg.kvLayers
  kvShardFactor := cfg.dcpKvShardFactor gpu
  hasDsa := cfg.hasDsa
  indexerKPageSize := cfg.indexerKPageSize
  numDsaLayers := cfg.numDsaLayers
  indexerModeLocal := cfg.indexerModeLocal
  dcpShardFactor := cfg.dcpShardFactor
  pagesPerSlab := cfg.pagesPerSlab
  slabBytes := cfg.slabBytes
  kdaEnabled := cfg.kda.enabled
  kdaMapped := cfg.kdaMapped
  kdaPerLayerBytes := cfg.kda.perLayerBytes
  kdaNumLayers := cfg.kda.numLayers
  maxConcurrentRequests := cfg.maxConcurrentRequests
  pageSize_pos := cfg.pageSize_pos
  shard_pos := cfg.dcpKvShardFactor_pos gpu

def maxKvPages (gpu : ℕ) (hw : GpuHardware) (available : ℤ) : ℤ :=
  if cfg.attentionHost gpu then
    match cfg.maxPagesPerGpu with
    | some pages => pages
    | none =>
      (cfg.contextConfig gpu).computeAutoKvPages cfg.maxSequenceLength cfg.kvBytesPerPage
        (max 0 (available - cfg.expertReserve hw - cfg.prefillScratch - cfg.indexerShareBytes gpu -
          cfg.kdaMappedShareBytes gpu))
  else 0

/-- The bytes that the pages and the shares ask for. -/
def kvDemand (gpu : ℕ) (hw : GpuHardware) (available : ℤ) : ℤ :=
  cfg.maxKvPages gpu hw available * cfg.kvBytesPerPage + cfg.indexerShareBytes gpu +
    cfg.kdaMappedShareBytes gpu

/-- `kv_total`, clamped to leave the reservation. -/
def kvClamped (gpu : ℕ) (hw : GpuHardware) (available : ℤ) : ℤ :=
  max 0 (min (cfg.kvDemand gpu hw available) (available - cfg.expertReserve hw))

def scratchBytes (gpu : ℕ) (hw : GpuHardware) (available : ℤ) : ℤ :=
  if cfg.attentionHost gpu then
    max 0 (min cfg.prefillScratch
      (max 0 (available - cfg.kvClamped gpu hw available - cfg.expertReserve hw)))
  else 0

/-- `kv_total`, with the scratch. -/
def kvTotal (gpu : ℕ) (hw : GpuHardware) (available : ℤ) : ℤ :=
  cfg.kvClamped gpu hw available + cfg.scratchBytes gpu hw available

def kvSpeculationBytes (gpu : ℕ) (hw : GpuHardware) (available : ℤ) : ℤ :=
  alignRegion (cfg.scaled (max 0 (cfg.kvTotal gpu hw available -
    cfg.scratchBytes gpu hw available - cfg.indexerShareBytes gpu - cfg.kdaMappedShareBytes gpu))
      cfg.speculationPoolFraction)

def kvMainBytes (gpu : ℕ) (hw : GpuHardware) (available : ℤ) : ℤ :=
  alignRegion (cfg.kvTotal gpu hw available - cfg.kvSpeculationBytes gpu hw available)

/-- `expert_total`: what the rounded regions leave, and not more than the override. -/
def expertTotal (gpu : ℕ) (hw : GpuHardware) (available : ℤ) : ℤ :=
  let rest := available -
    (cfg.kvSpeculationBytes gpu hw available + cfg.kvMainBytes gpu hw available)
  max 0 (match streamingOverride hw with
    | some override => min override rest
    | none => rest)

def stableFrac (hw : GpuHardware) : ℚ :=
  max 0 (min 1 ((hw.allocation.bind (·.stableZoneFraction)).getD cfg.stableZoneFraction))

/-- `kv_main_pages`: whole slabs only. -/
def kvMainPages (gpu : ℕ) (hw : GpuHardware) (available : ℤ) : ℤ :=
  if 0 < cfg.kvBytesPerPage then
    let pages := (cfg.kvMainBytes gpu hw available - cfg.scratchBytes gpu hw available).tdiv
      cfg.kvBytesPerPage
    if 1 < cfg.pagesPerSlab ∧ 0 < pages then pages - pages.tmod cfg.pagesPerSlab else pages
  else 0

/-- The division of one card. -/
def computeGpu (gpu : ℕ) (hw : GpuHardware) : Except VramError GpuVramLayout := do
  let kdaStateSlots ← cfg.kdaStateSlots gpu hw
  let kdaStateBytes := kdaStateSlots * cfg.kda.slotBytes
  let available := cfg.available gpu hw - kdaStateBytes
  let expertTotal := cfg.expertTotal gpu hw available
  if 0 < cfg.minExpertCache ∧ expertTotal < cfg.minExpertCache then
    throw .expertCacheInsufficient
  let streaming := alignRegion (expertTotal - cfg.scaled expertTotal (cfg.stableFrac hw))
  let spill := max 0 (min (cfg.scaled streaming cfg.spillFrac) cfg.spillScratchNeeded)
  let spill := min ((spill + zoneAlign - 1).tdiv zoneAlign * zoneAlign) streaming
  let mainPages := cfg.kvMainPages gpu hw available
  return {
    gpuId := hw.gpuId
    totalVramBytes := hw.totalVramBytes
    safetyMarginBytes := cfg.safetyMarginBytes hw
    attentionHost := cfg.attentionHost gpu
    dcpKvShardFactor := cfg.dcpKvShardFactor gpu
    pinnedBytes := pinnedBytes hw
    indexerKPages := cfg.indexerKPages gpu
    indexerKBytes := cfg.indexerKBytes gpu
    indexerKPadBytes := cfg.indexerKPadBytes gpu
    indexerShareSlabs := cfg.indexerShareSlabs gpu
    indexerShareBytes := cfg.indexerShareBytes gpu
    kdaStateSlots := kdaStateSlots
    kdaStateBytes := kdaStateBytes
    maxKvPages := cfg.maxKvPages gpu hw available
    kvSpeculationBytes := cfg.kvSpeculationBytes gpu hw available
    kvMainBytes := cfg.kvMainBytes gpu hw available
    prefillScratchPreallocatedBytes := cfg.scratchBytes gpu hw available
    expertStreamingBytes := streaming
    expertStableBytes := max 0 (expertTotal - streaming)
    streamingSpillBytes := spill
    streamingPrefetchBytes := streaming - spill
    kvSpeculationPages :=
      if 0 < cfg.kvBytesPerPage then
        (cfg.kvSpeculationBytes gpu hw available).tdiv cfg.kvBytesPerPage
      else 0
    kvMainPages := mainPages
    admissibleCtxTokens :=
      if cfg.attentionHost gpu ∧ 0 < mainPages ∧ 0 < cfg.maxSequenceLength then
        min ((cfg.contextConfig gpu).admissibleContext mainPages.toNat) (2 ^ 31 - 1)
      else 0 }

/-- The vocabulary cannot be shared out over the ranks. -/
def VocabIndivisible : Prop := 2 ≤ cfg.tpDegree ∧ ¬ cfg.tpDegree ∣ cfg.vocabSize

instance : Decidable cfg.VocabIndivisible := inferInstanceAs (Decidable (_ ∧ _))

def computeVramLayout : Except VramError (List GpuVramLayout) :=
  if cfg.VocabIndivisible then .error .vocabIndivisible
  else cfg.gpus.zipIdx.mapM fun g => cfg.computeGpu g.2 g.1

/-! ### Giving way -/

/-- The reservation of the expert cache fits on every card. -/
def Fits : Prop :=
  ∀ g ∈ cfg.gpus.zipIdx, ∃ available, cfg.availableAfterCarves g.2 g.1 = .ok available ∧
    cfg.expertReserve g.1 ≤ available

/-- **Sizing gives way before it fails**: where the reservation fits on every card, there is an
expert cache, and its zones hold the minimum. -/
def GivesWay : Prop :=
  cfg.Fits → cfg.computeVramLayout ≠ .error .expertCacheInsufficient ∧
    ∀ layout, cfg.computeVramLayout = .ok layout →
      ∀ g ∈ layout, cfg.minExpertCache ≤ g.expertTotalBytes

/-- What the pages, the shares and the scratch ask for. -/
def asked (gpu : ℕ) (hw : GpuHardware) (available : ℤ) : ℤ :=
  max 0 (cfg.kvDemand gpu hw available) +
    if cfg.attentionHost gpu then max 0 cfg.prefillScratch else 0

/-- On a card no expert cache is needed, or the override is not below the minimum and what is asked
for, cut to leave the reservation and rounded up, leaves the minimum. -/
def Suffices (gpu : ℕ) (hw : GpuHardware) : Prop :=
  ∀ available, cfg.availableAfterCarves gpu hw = .ok available →
    cfg.minExpertCache = 0 ∨ (∀ override ∈ streamingOverride hw, cfg.minExpertCache ≤ override) ∧
      alignRegion (min (cfg.asked gpu hw available) (available - cfg.expertReserve hw)) ≤
        available - cfg.minExpertCache

end VramConfig

/-! ### Rounding -/

/-- **The two rounded parts** are the rounded sum. -/
theorem alignRegion_add (part total : ℤ) :
    alignRegion part + alignRegion (total - alignRegion part) = alignRegion total := by
  simp only [alignRegion, layoutAlign]
  omega

namespace VramConfig

variable {cfg : VramConfig} {gpu : ℕ} {hw : GpuHardware} {available : ℤ}

theorem minExpertCache_nonneg : 0 ≤ cfg.minExpertCache := by
  rw [minExpertCache]
  split
  · exact le_rfl
  · exact Int.mul_nonneg (Int.natCast_nonneg _) (Int.natCast_nonneg _)

/-! ### One card -/

theorem kvTotal_eq (hfit : cfg.expertReserve hw ≤ available) : cfg.kvTotal gpu hw available =
      min (cfg.asked gpu hw available) (available - cfg.expertReserve hw) := by
  simp only [kvTotal, scratchBytes, kvClamped, asked]
  cases hhost : cfg.attentionHost gpu with
  | false =>
    simp only [Bool.false_eq_true, if_false]
    omega
  | true =>
    simp only [if_true]
    omega

theorem expertTotal_eq (hfit : cfg.expertReserve hw ≤ available) :
    cfg.expertTotal gpu hw available = max 0 (match streamingOverride hw with
        | some override => min override (available -
            alignRegion (min (cfg.asked gpu hw available) (available - cfg.expertReserve hw)))
        | none => available -
            alignRegion (min (cfg.asked gpu hw available) (available - cfg.expertReserve hw))) := by
  simp only [expertTotal, kvMainBytes, kvSpeculationBytes, alignRegion_add, kvTotal_eq hfit]

section

variable (hcarve : cfg.availableAfterCarves gpu hw = .ok available)
include hcarve

theorem computeGpu_eq :
    (0 < cfg.minExpertCache ∧ cfg.expertTotal gpu hw available < cfg.minExpertCache ∧
        cfg.computeGpu gpu hw = .error .expertCacheInsufficient) ∨
      ¬ (0 < cfg.minExpertCache ∧ cfg.expertTotal gpu hw available < cfg.minExpertCache) ∧
        ∃ g, cfg.computeGpu gpu hw = .ok g ∧
          cfg.expertTotal gpu hw available ≤ g.expertTotalBytes := by
  rw [availableAfterCarves] at hcarve
  cases hslots : cfg.kdaStateSlots gpu hw with
  | error e =>
    rw [hslots] at hcarve
    cases hcarve
  | ok slots =>
    rw [hslots] at hcarve
    cases hcarve
    rw [computeGpu, hslots]
    by_cases hmin : 0 < cfg.minExpertCache ∧ cfg.expertTotal gpu hw
      (cfg.available gpu hw - slots * cfg.kda.slotBytes) < cfg.minExpertCache
    · left
      refine ⟨hmin.1, hmin.2, ?_⟩
      simp only [Bind.bind, Except.bind, if_pos hmin]
      rfl
    · right
      refine ⟨hmin, ?_⟩
      simp only [Bind.bind, Except.bind, if_neg hmin]
      refine ⟨_, rfl, ?_⟩
      simp only [GpuVramLayout.expertTotalBytes]
      omega

theorem suffices_iff (hfit : cfg.expertReserve hw ≤ available) : cfg.Suffices gpu hw ↔
      ¬ (0 < cfg.minExpertCache ∧ cfg.expertTotal gpu hw available < cfg.minExpertCache) := by
  have hmin : 0 ≤ cfg.minExpertCache := minExpertCache_nonneg
  have hone : cfg.Suffices gpu hw ↔ cfg.minExpertCache = 0 ∨
      (∀ override ∈ streamingOverride hw, cfg.minExpertCache ≤ override) ∧
        alignRegion (min (cfg.asked gpu hw available) (available - cfg.expertReserve hw)) ≤
          available - cfg.minExpertCache := by
    constructor
    · intro h
      exact h available hcarve
    · intro h available' hcarve'
      rw [hcarve] at hcarve'
      cases hcarve'
      exact h
  rw [hone, expertTotal_eq hfit]
  cases streamingOverride hw with
  | none =>
    simp only [Option.mem_def, reduceCtorEq, false_implies, implies_true, true_and]
    omega
  | some override =>
    simp only [Option.mem_def, Option.some.injEq, forall_eq']
    omega

theorem computeGpu_of_suffices (hfit : cfg.expertReserve hw ≤ available)
    (hsuffices : cfg.Suffices gpu hw) :
    ∃ g, cfg.computeGpu gpu hw = .ok g ∧ cfg.minExpertCache ≤ g.expertTotalBytes := by
  have hlarge := (suffices_iff hcarve hfit).1 hsuffices
  have htotal : 0 ≤ cfg.expertTotal gpu hw available := le_max_left _ _
  rcases computeGpu_eq hcarve with ⟨hpos, hlt, -⟩ | ⟨-, g, hg, hle⟩
  · exact absurd ⟨hpos, hlt⟩ hlarge
  · exact ⟨g, hg, by omega⟩

theorem computeGpu_of_not_suffices (hfit : cfg.expertReserve hw ≤ available)
    (hsuffices : ¬ cfg.Suffices gpu hw) :
    cfg.computeGpu gpu hw = .error .expertCacheInsufficient := by
  rw [suffices_iff hcarve hfit, not_not] at hsuffices
  rcases computeGpu_eq hcarve with ⟨-, -, h⟩ | ⟨h, -⟩
  · exact h
  · exact absurd hsuffices h

end

/-! ### Main result -/

/-- **When sizing gives way**: exactly if, where the reservation fits on every card, the rounded
pages and the overrides leave the minimum on every card. -/
theorem gives_way_iff (cfg : VramConfig) : cfg.GivesWay ↔ cfg.VocabIndivisible ∨
      (cfg.Fits → ∀ g ∈ cfg.gpus.zipIdx, cfg.Suffices g.2 g.1) := by
  constructor
  · intro h
    by_contra hneither
    obtain ⟨hvocab, hcards⟩ := not_or.1 hneither
    obtain ⟨hfits, hcards⟩ := Classical.not_imp.1 hcards
    obtain ⟨g, hg⟩ := not_forall.1 hcards
    obtain ⟨hmem, hsuffices⟩ := Classical.not_imp.1 hg
    obtain ⟨hne, -⟩ := h hfits
    rw [computeVramLayout, if_neg hvocab] at hne
    cases hlayout : cfg.gpus.zipIdx.mapM fun g => cfg.computeGpu g.2 g.1 with
    | ok layout =>
      obtain ⟨b, hb⟩ := (mapM_ok hlayout).1 g hmem
      obtain ⟨available, hcarve, hfit⟩ := hfits g hmem
      rw [computeGpu_of_not_suffices hcarve hfit hsuffices] at hb
      cases hb
    | error e =>
      -- no card fails for want of anything else
      obtain ⟨g', hmem', hg'⟩ := mapM_error hlayout
      obtain ⟨available, hcarve, hfit⟩ := hfits g' hmem'
      by_cases hsuffices' : cfg.Suffices g'.2 g'.1
      · obtain ⟨b, hb, -⟩ := computeGpu_of_suffices hcarve hfit hsuffices'
        rw [hb] at hg'
        cases hg'
      · rw [computeGpu_of_not_suffices hcarve hfit hsuffices'] at hg'
        obtain rfl := Except.error.inj hg'
        exact hne hlayout
  · intro h hfits
    by_cases hvocab : cfg.VocabIndivisible
    · rw [computeVramLayout, if_pos hvocab]
      exact ⟨by simp, fun layout hlayout => by cases hlayout⟩
    have hcards := (h.resolve_left hvocab) hfits
    have hcard : ∀ g ∈ cfg.gpus.zipIdx, ∃ b, cfg.computeGpu g.2 g.1 = .ok b ∧
        cfg.minExpertCache ≤ b.expertTotalBytes := by
      intro g hmem
      obtain ⟨available, hcarve, hfit⟩ := hfits g hmem
      exact computeGpu_of_suffices hcarve hfit (hcards g hmem)
    rw [computeVramLayout, if_neg hvocab]
    refine ⟨fun herror => ?_, fun layout hlayout b hb => ?_⟩
    · obtain ⟨g, hmem, hg⟩ := mapM_error herror
      obtain ⟨b, hb, -⟩ := hcard g hmem
      rw [hb] at hg
      cases hg
    · obtain ⟨g, hmem, hg⟩ := (mapM_ok hlayout).2 b hb
      obtain ⟨b', hb', hle⟩ := hcard g hmem
      rw [hb'] at hg
      cases hg
      exact hle

end VramConfig

/-- A card of eight gibibytes. -/
def smallCard : GpuHardware := ⟨0, 8589934592, 0, none⟩

/-- A margin of one gibibyte, eight experts in use and more pages than fit. -/
def manyPages : VramConfig where
  gpus := [smallCard]
  tpArray := [0]
  dcpEnabled := false
  dcpKvSharded := false
  indexerModeLocal := false
  vocabSize := 1
  vramSafetyMargin := 1073741824
  kvBytesPerPage := 41984
  indexerKBytesPerPage := 0
  kvLayers := 1
  hasDsa := false
  numDsaLayers := 0
  indexerKPageSize := 0
  pageSizeTokens := 64
  dcpChunkSize := 64
  maxSequenceLength := 131072
  maxConcurrentRequests := 1
  prefixCacheEnabled := false
  maxEntries := 0
  numMoeLayers := 1
  numExpertsPerTok := 8
  perRoutedExpertBytes := 26378248
  kda := ⟨false, false, 0, 0, 0⟩
  prefillScratchPreallocated := 0
  naivePrefillContextCeiling := none
  naiveScratchBytesPerToken := 0
  maxPagesPerGpu := some 200000
  speculationPoolFraction := 0
  streamingSpillFraction := 0
  stableZoneFraction := 0
  scaled := fun n f => (n * f).floor
  pageSize_pos := by decide

/-- The pages are cut to leave the reservation, then rounded up into it. -/
theorem rounding_takes_reserve : manyPages.minExpertCache = 211025984 ∧
      manyPages.expertTotal 0 smallCard 7516192768 = 211025920 ∧
      manyPages.computeVramLayout = .error .expertCacheInsufficient ∧ ¬ manyPages.GivesWay := by
  have hcarve : manyPages.availableAfterCarves 0 smallCard = .ok 7516192768 := rfl
  have htotal : manyPages.expertTotal 0 smallCard 7516192768 = 211025920 := by decide +kernel
  have hgpu : manyPages.computeGpu 0 smallCard = .error .expertCacheInsufficient := by
    rcases VramConfig.computeGpu_eq hcarve with ⟨-, -, h⟩ | ⟨h, -⟩
    · exact h
    · rw [htotal] at h
      exact absurd (by decide) h
  have herror : manyPages.computeVramLayout = .error .expertCacheInsufficient := by
    exact congrArg (fun r => r >>= _) hgpu
  have hfits : manyPages.Fits := by
    intro g hg
    obtain rfl : g = (smallCard, 0) := by simpa [manyPages] using hg
    exact ⟨7516192768, hcarve, by decide⟩
  exact ⟨by decide, htotal, herror, fun h => (h hfits).1 herror⟩

end Context
end LayerStorm.Memory

import LayerStorm.Lib.Fanout
import LayerStorm.Paging.GpuPool

/-!
# The page allocator

`PageAllocator` over all GPUs of the engine: its constructor and its calls.  With
replicated KV every page of the main and speculation pools is claimed under the same
index on every rank of the TP group, the rank that is first in the group choosing it;
such pages are freed, shared, copied and promoted on all ranks at once.

The layout of the GPUs and the configuration of the TP group do not change after boot,
so they are parameters.  The group lists different GPUs of the engine: the daemon fills
it with the positions of the first GPUs of its list.
-/

namespace LayerStorm.Paging

open Function Lib

/-! ### What is fixed at boot -/

structure GpuVramLayout where
  kvMainPages : ℕ
  kvSpeculationPages : ℕ
  indexerKPages : ℕ
  kvHcaPages : ℕ
  kvSwaPages : ℕ
  kdaStateSlots : ℕ
  attentionHost : Bool
  /-- The bytes from the start of the indexer region to that of the main pool. -/
  indexerToMain : ℤ

/-- The layout of the device memory. -/
structure VramLayout where
  gpuCount : ℕ
  gpus : ℕ → GpuVramLayout
  slabBytes : ℕ
  pagesPerSlab : ℕ
  kvBytesPerPage : ℕ
  indexerKBytesPerPage : ℕ
  kdaEnabled : Bool
  kdaWantsMapped : Bool
  kdaNumLayers : ℕ
  kdaPerLayerBytes : ℕ

/-- The TP group and how tokens are routed in it. -/
structure DcpConfig where
  dcpSize : ℕ
  dcpChunkSize : ℕ
  pageSizeTokens : ℕ
  tpGpuIndices : List ℕ
  indexerKSharded : Bool
  indexerKPageSizeTokens : ℕ
  kvSharded : Bool
  /-- The ranks are different GPUs. -/
  nodup : tpGpuIndices.Nodup
  length_eq : 2 ≤ dcpSize → tpGpuIndices.length = dcpSize

def DcpConfig.Enabled (dcp : DcpConfig) : Prop := 2 ≤ dcp.dcpSize

instance (dcp : DcpConfig) : Decidable dcp.Enabled := inferInstanceAs (Decidable (_ ≤ _))

/-- What the allocator is built with. -/
structure Config where
  layout : VramLayout
  dcp : DcpConfig
  ranks : ∀ g ∈ dcp.tpGpuIndices, g < layout.gpuCount

namespace VramLayout

variable (l : VramLayout)

/-- The main pool of a GPU is managed by slabs. -/
def KvSlabManaged (g : ℕ) : Prop :=
  0 < l.pagesPerSlab ∧ 0 < (l.gpus g).kvMainPages

instance (l : VramLayout) (g : ℕ) : Decidable (l.KvSlabManaged g) :=
  inferInstanceAs (Decidable (_ ∧ _))

/-- The number of slabs of a GPU. -/
def numSlabs (g : ℕ) : ℕ :=
  if l.KvSlabManaged g then (l.gpus g).kvMainPages / l.pagesPerSlab else 0

/-- The GPU carries KDA state in slabs of its main pool. -/
def KdaMappedOn (g : ℕ) : Prop :=
  l.kdaEnabled = true ∧ l.kdaWantsMapped = true ∧ (l.gpus g).attentionHost = true

instance (l : VramLayout) (g : ℕ) : Decidable (l.KdaMappedOn g) :=
  inferInstanceAs (Decidable (_ ∧ _ ∧ _))

/-- `kda_state_mapped`. -/
def KdaMapped : Prop := ∃ g < l.gpuCount, l.KdaMappedOn g

instance (l : VramLayout) : Decidable l.KdaMapped :=
  inferInstanceAs (Decidable (∃ g < l.gpuCount, l.KdaMappedOn g))

/-- The slabs that hold the KDA state of one layer. -/
def kdaUnitSlabs : ℕ :=
  (l.kdaPerLayerBytes + l.slabBytes - 1) / l.slabBytes

/-- The indexer pages of a GPU are slabs of its main pool. -/
def IndexerElastic (g : ℕ) : Prop :=
  l.KvSlabManaged g ∧ 0 < l.indexerKBytesPerPage

instance (l : VramLayout) (g : ℕ) : Decidable (l.IndexerElastic g) :=
  inferInstanceAs (Decidable (_ ∧ _))

def SlabGeometryOk : Prop :=
  0 < l.slabBytes → 0 < l.kvBytesPerPage ∧ l.slabBytes % l.kvBytesPerPage = 0 ∧
    l.indexerKBytesPerPage ≤ l.slabBytes

instance (l : VramLayout) : Decidable l.SlabGeometryOk :=
  inferInstanceAs (Decidable (_ → _ ∧ _ ∧ _))

/-- What the constructor checks of one GPU. -/
def GpuOk (g : ℕ) : Prop :=
  (l.KvSlabManaged g → (l.gpus g).kvMainPages % l.pagesPerSlab = 0) ∧
    (l.IndexerElastic g → (l.gpus g).indexerKPages = 0) ∧
    (l.KdaMappedOn g → l.KvSlabManaged g ∧ (l.gpus g).kdaStateSlots = 0 ∧
      l.kdaNumLayers * l.kdaUnitSlabs ≤ (l.gpus g).kvMainPages / l.pagesPerSlab) ∧
    (¬ l.KdaMappedOn g → l.kdaEnabled = true → l.kdaWantsMapped = true →
      (l.gpus g).kdaStateSlots = 0) ∧
    (0 < l.slabBytes → 0 < (l.gpus g).indexerKPages →
      (l.gpus g).indexerToMain = (l.gpus g).indexerKPages * l.slabBytes ∧
        (0 < l.pagesPerSlab → (l.gpus g).kvMainPages % l.pagesPerSlab = 0))

instance (l : VramLayout) (g : ℕ) : Decidable (l.GpuOk g) :=
  inferInstanceAs (Decidable (_ ∧ _ ∧ _ ∧ _ ∧ _))

/-- A side pool with pages of its own, all free. -/
def fixedSide (total : ℕ) : SidePool where
  total := total
  free := (List.range total).reverse
  pages := fun _ => PageMeta.fresh
  elastic := false
  runSlabs := 1

def elasticSide (numSlabs runSlabs : ℕ) : SidePool where
  total := numSlabs
  free := []
  pages := fun _ => PageMeta.fresh
  elastic := true
  runSlabs := runSlabs

def initGpu (g : ℕ) : GpuPool where
  initialMainPages := (l.gpus g).kvMainPages
  initialSpecPages := (l.gpus g).kvSpeculationPages
  mainFree := if l.KvSlabManaged g then [] else (List.range (l.gpus g).kvMainPages).reverse
  specFree := (List.range' (l.gpus g).kvMainPages (l.gpus g).kvSpeculationPages).reverse
  pages := fun _ => PageMeta.fresh
  mainReserved := 0
  specReserved := 0
  numSlabs := l.numSlabs g
  kvSlabs := fun _ => KvSlab.fresh
  kvFreeSlabs := (List.range (l.numSlabs g)).reverse
  kvLooseFree := []
  kvFreePages := if l.KvSlabManaged g then (l.gpus g).kvMainPages else 0
  kvRuns := fun _ => []
  side := fun
    | .indexerK =>
      if l.IndexerElastic g then elasticSide (l.numSlabs g) 1
      else fixedSide (l.gpus g).indexerKPages
    | .hca => fixedSide (l.gpus g).kvHcaPages
    | .swa => fixedSide (l.gpus g).kvSwaPages
    | .kdaState =>
      if l.KdaMappedOn g then elasticSide (l.numSlabs g) l.kdaUnitSlabs
      else fixedSide (l.gpus g).kdaStateSlots
  expertZoneRuns := fun _ => none
  kdaStats := ⟨0, 0, 0, none, 0, 0, false⟩
  ezStats := ⟨0, 0, 0, 0⟩

end VramLayout

abbrev Gpus := ℕ → GpuPool

/-- The constructor: `none` where it throws. -/
def init (l : VramLayout) : Option Gpus :=
  if l.SlabGeometryOk ∧ ∀ g < l.gpuCount, l.GpuOk g then some l.initGpu else none

namespace Config

variable (cfg : Config)

abbrev pps : ℕ := cfg.layout.pagesPerSlab

variable (gpus : Gpus) (gpu : GpuPool) (h : PageHandle)

/-- An operation on a GPU of the engine. -/
def onGpu (g : ℕ) (f : GpuPool → Option GpuPool) : Option Gpus :=
  if g < cfg.layout.gpuCount then (f (gpus g)).map (update gpus g) else none

/-- An allocation on a GPU of the engine, and the handle of the page. -/
def allocOn (g : ℕ) (pool : Pool) (f : GpuPool → Option (GpuPool × Option ℕ)) :
    Option (Gpus × Option PageHandle) :=
  if g < cfg.layout.gpuCount then
    (f (gpus g)).map fun r =>
      (update gpus g r.1, r.2.map fun idx => ⟨g, idx, pool⟩)
  else none

/-- The same operation on every rank of the TP group. -/
def onRanks (f : GpuPool → Option GpuPool) : Option Gpus :=
  updateEach (fun _ => f) cfg.dcp.tpGpuIndices gpus

/-! ### Calls on pages -/

/-- The page of a handle is claimed on every rank. -/
def Mirrored : Prop :=
  ((gpus h.gpuIdx).pages h.pageIdx).replicated = true ∧ cfg.dcp.Enabled

instance (gpus : Gpus) (h : PageHandle) : Decidable (cfg.Mirrored gpus h) :=
  inferInstanceAs (Decidable (_ ∧ _))

def LivePage : Prop :=
  h.gpuIdx < cfg.layout.gpuCount ∧ h.pageIdx < (gpus h.gpuIdx).total ∧
    0 < ((gpus h.gpuIdx).pages h.pageIdx).refcount

instance (gpus : Gpus) (h : PageHandle) : Decidable (cfg.LivePage gpus h) :=
  inferInstanceAs (Decidable (_ ∧ _ ∧ _))

def free : Option Gpus :=
  match h.pool with
  | .side s => cfg.onGpu gpus h.gpuIdx fun gpu => gpu.sideDropRef cfg.pps s h.pageIdx
  | _ =>
    if cfg.LivePage gpus h then
      if cfg.Mirrored gpus h then cfg.onRanks gpus fun gpu => gpu.dropRef cfg.pps h.pageIdx
      else cfg.onGpu gpus h.gpuIdx fun gpu => gpu.dropRef cfg.pps h.pageIdx
    else none

/-- The page of the speculation pool becomes one of the main pool. -/
def flipPool (idx : ℕ) : Option GpuPool :=
  if 0 < (gpu.pages idx).refcount ∧ (gpu.pages idx).pool = .speculation then
    some (gpu.setMeta idx { gpu.pages idx with pool := .main })
  else none

def promote : Option Gpus :=
  match h.pool with
  | .side _ => none
  | _ =>
    if cfg.LivePage gpus h then
      if cfg.Mirrored gpus h then cfg.onRanks gpus fun gpu => flipPool gpu h.pageIdx
      else cfg.onGpu gpus h.gpuIdx fun gpu => flipPool gpu h.pageIdx
    else none

/-- One more reference to a page. -/
def countRef (idx : ℕ) : GpuPool :=
  gpu.setMeta idx { gpu.pages idx with refcount := (gpu.pages idx).refcount + 1 }

def addRef : Option Gpus :=
  match h.pool with
  | .side s =>
    cfg.onGpu gpus h.gpuIdx fun gpu =>
      let pm := (gpu.side s).pages h.pageIdx
      if h.pageIdx < (gpu.side s).total ∧ 0 < pm.refcount then
        some (gpu.setSideMeta s h.pageIdx { pm with refcount := pm.refcount + 1 })
      else none
  | _ =>
    if cfg.LivePage gpus h then
      if cfg.Mirrored gpus h then cfg.onRanks gpus fun gpu => some (countRef gpu h.pageIdx)
      else cfg.onGpu gpus h.gpuIdx fun gpu => some (countRef gpu h.pageIdx)
    else none

/-- Writing what a page holds, through the reference that `meta` returns. -/
def describe (seq layer tokenStart tokenEnd : ℕ) : Option Gpus :=
  match h.pool with
  | .side s =>
    cfg.onGpu gpus h.gpuIdx fun gpu =>
      if h.pageIdx < (gpu.side s).total then
        some (gpu.setSideMeta s h.pageIdx
          (((gpu.side s).pages h.pageIdx).describe seq layer tokenStart tokenEnd))
      else none
  | _ =>
    cfg.onGpu gpus h.gpuIdx fun gpu =>
      if h.pageIdx < gpu.total then
        some (gpu.setMeta h.pageIdx ((gpu.pages h.pageIdx).describe seq layer tokenStart tokenEnd))
      else none

/-! ### Replicated allocation -/

def SlabFreeOn (mirrors : List ℕ) (sid : ℕ) : Prop :=
  ∀ g ∈ mirrors, (gpus g).KvSlabbed cfg.pps ∧ sid < (gpus g).numSlabs ∧
    ((gpus g).kvSlabs sid).claimed = false

instance (gpus : Gpus) (mirrors : List ℕ) (sid : ℕ) : Decidable (cfg.SlabFreeOn gpus mirrors sid) :=
  inferInstanceAs (Decidable (∀ g ∈ mirrors, _ ∧ _ ∧ _))

def takeLoose (idx : ℕ) : Option GpuPool :=
  if idx ∈ gpu.kvLooseFree then
    some { gpu with
      kvLooseFree := gpu.kvLooseFree.erase idx, kvFreePages := gpu.kvFreePages - 1 }
  else none

/-- `kv_alloc_page_replicated`: the first rank chooses as in `kv_alloc_page`, and the
others follow; a slab must be free on all of them. -/
def kvAllocPageReplicated (seq tokenStart : ℕ) (unreserved : Bool)
    (preferSlab : Option ℕ) : Option (Gpus × Option ℕ) :=
  let take (gpus : Gpus) (idx : ℕ) : Option (Gpus × Option ℕ) :=
    (cfg.onRanks gpus fun gpu => gpu.kvTakeSpecific cfg.pps idx tokenStart).map
      fun gpus => (gpus, some idx)
  match cfg.dcp.tpGpuIndices with
  | [] => none
  | canonical :: mirrors =>
    let cgpu := gpus canonical
    if unreserved = false ∧ cgpu.kvFreePages ≤ cgpu.mainReserved then some (gpus, none)
    else
      match cgpu.kvFindInRun cfg.pps seq tokenStart preferSlab with
      | some idx => take gpus idx
      | none =>
        match cgpu.kvFreeSlabs.reverse.find? fun sid => cfg.SlabFreeOn gpus mirrors sid with
        | some sid =>
          (cfg.onRanks gpus fun gpu => gpu.kvClaimSlab sid seq).bind fun gpus =>
            take gpus (sid * cfg.pps)
        | none =>
          match cgpu.kvLooseFree.reverse.find? fun idx =>
              ∀ g ∈ mirrors, idx ∈ (gpus g).kvLooseFree with
          | some loose =>
            (cfg.onRanks gpus fun gpu => takeLoose gpu loose).map fun gpus => (gpus, some loose)
          | none =>
            match cgpu.kvFindInRunPressure cfg.pps seq with
            | some idx => take gpus idx
            | none => some (gpus, none)

/-- The record of a replicated page. -/
def replicate (pool : Pool) (seq layer tokenStart tokenEnd : ℕ) (gpu : GpuPool) (idx : ℕ) :
    GpuPool :=
  gpu.setMeta idx ({ gpu.pages idx with
    refcount := 1, pool := pool, replicated := true }.describe seq layer tokenStart tokenEnd)

/-- An index can be claimed on a mirror: it is one of the pool's there, and free. -/
def MirrorClaimable (pool : Pool) (gpu : GpuPool) (idx : ℕ) : Prop :=
  (if pool = .main then idx < gpu.initialMainPages
    else gpu.initialMainPages ≤ idx ∧ idx < gpu.total) ∧ (gpu.pages idx).refcount = 0

instance (pool : Pool) (gpu : GpuPool) (idx : ℕ) : Decidable (MirrorClaimable pool gpu idx) := by
  unfold MirrorClaimable
  infer_instance

/-- An index is taken out of a free list. -/
def takeFree (pool : Pool) (idx : ℕ) (gpu : GpuPool) : Option GpuPool :=
  if idx ∈ gpu.freeList pool then
    some (gpu.setFreeList pool ((gpu.freeList pool).erase idx))
  else none

def allocateReplicated (seq tokenStart layer : ℕ) (pool : Pool)
    (unreserved : Bool) : Option (Gpus × Option PageHandle) :=
  let tokenEnd := tokenStart + cfg.dcp.pageSizeTokens
  match pool, cfg.dcp.tpGpuIndices with
  | .side _, _ => none
  | _, [] => none
  | pool, canonical :: mirrors =>
    let cgpu := gpus canonical
    if ¬ cfg.dcp.Enabled then none
    else if pool = .main ∧ cgpu.KvSlabbed cfg.pps then
      (cfg.kvAllocPageReplicated gpus seq tokenStart unreserved none).bind fun r =>
        match r.2 with
        | none => some (r.1, none)
        | some idx =>
          (cfg.onRanks r.1 fun gpu =>
            some (replicate pool seq layer tokenStart tokenEnd gpu idx)).map
              fun gpus => (gpus, some ⟨canonical, idx, pool⟩)
    else if ((cgpu.freeList pool).length : ℤ) ≤ (if unreserved then 0 else cgpu.reserved pool) then
      some (gpus, none)
    else
      match (cgpu.freeList pool).reverse.find? fun idx =>
          ∀ g ∈ mirrors, MirrorClaimable pool (gpus g) idx with
      | none => some (gpus, none)
      | some idx =>
        (cfg.onRanks gpus fun gpu => (takeFree pool idx gpu).map fun gpu =>
          replicate pool seq layer tokenStart tokenEnd gpu idx).map
            fun gpus => (gpus, some ⟨canonical, idx, pool⟩)

/-! ### Copy on write -/

/-- The slab a copy should go to: that of its source. -/
def sourceSlab (idx : ℕ) : Option ℕ :=
  if idx < gpu.initialMainPages then some (idx / cfg.pps) else none

def copyRun (dstSeq : ℕ) (old : PageMeta) : ℕ := if dstSeq = 0 then old.sequenceId else dstSeq

/-- `cow_copy` of a page of a side pool. -/
def cowCopySide (s : Side) : Option (Gpus × Option PageHandle) :=
  let old := ((gpus h.gpuIdx).side s).pages h.pageIdx
  if h.gpuIdx < cfg.layout.gpuCount ∧ h.pageIdx < ((gpus h.gpuIdx).side s).total ∧
      0 < old.refcount then
    if old.refcount = 1 then some (gpus, some h)
    else
      cfg.allocOn gpus h.gpuIdx h.pool fun gpu =>
        ((gpu.allocateSide cfg.pps s).map
          (GpuPool.writeSideMeta s fun pm => pm.describeAs old)).bind fun r =>
            match r.2 with
            | none => some r
            | some idx => (r.1.sideDropRef cfg.pps s h.pageIdx).map fun gpu => (gpu, some idx)
  else none

/-- `cow_copy` of a page that is claimed on every rank. -/
def cowCopyReplicated (dstSeq : ℕ) : Option (Gpus × Option PageHandle) :=
  let gpu := gpus h.gpuIdx
  let old := gpu.pages h.pageIdx
  let copied : Option (Gpus × Option PageHandle) :=
    if old.pool = .main ∧ gpu.KvSlabbed cfg.pps then
      (cfg.kvAllocPageReplicated gpus (copyRun dstSeq old) old.tokenStart true
        (cfg.sourceSlab gpu h.pageIdx)).bind fun r =>
          match r.2 with
          | none => some (r.1, none)
          | some idx =>
            (cfg.onRanks r.1 fun gpu => some (replicate old.pool old.sequenceId old.layerIndex
              old.tokenStart old.tokenEnd gpu idx)).map
                fun gpus => (gpus, some ⟨cfg.dcp.tpGpuIndices.headD 0, idx, old.pool⟩)
    else
      cfg.allocateReplicated gpus old.sequenceId old.tokenStart old.layerIndex old.pool true
  copied.bind fun r =>
    match r.2 with
    | none => some (r.1, none)
    | some nh =>
      ((cfg.onRanks r.1 fun gpu => some (gpu.setMeta nh.pageIdx
          { gpu.pages nh.pageIdx with tokenEnd := old.tokenEnd })).bind fun gpus =>
        cfg.onRanks gpus fun gpu => gpu.dropRef cfg.pps h.pageIdx).map fun gpus => (gpus, some nh)

/-- `cow_copy` of a page of one GPU. -/
def cowCopyLocal (dstSeq : ℕ) : Option (Gpus × Option PageHandle) :=
  let old := (gpus h.gpuIdx).pages h.pageIdx
  cfg.allocOn gpus h.gpuIdx old.pool fun gpu =>
    let copied : Option (GpuPool × Option ℕ) :=
      if old.pool = .main ∧ gpu.KvSlabbed cfg.pps then
        (gpu.kvAllocPage cfg.pps (copyRun dstSeq old) old.tokenStart true
          (cfg.sourceSlab gpu h.pageIdx)).map
            (GpuPool.writeMeta fun pm => { pm with refcount := 1, pool := old.pool })
      else gpu.allocateUnreserved cfg.pps old.pool
    (copied.map (GpuPool.writeMeta fun pm => pm.describeAs old)).bind fun r =>
      match r.2 with
      | none => some r
      | some idx => (r.1.dropRef cfg.pps h.pageIdx).map fun gpu => (gpu, some idx)

/-- `cow_copy`: the handle it returns; `none` where it throws because the pool is
exhausted. -/
def cowCopy (dstSeq : ℕ) : Option (Gpus × Option PageHandle) :=
  match h.pool with
  | .side s => cfg.cowCopySide gpus h s
  | _ =>
    if cfg.LivePage gpus h then
      if ((gpus h.gpuIdx).pages h.pageIdx).refcount = 1 then some (gpus, some h)
      else if cfg.Mirrored gpus h then cfg.cowCopyReplicated gpus h dstSeq
      else cfg.cowCopyLocal gpus h dstSeq
    else none

/-! ### Freeing a sequence -/

/-- One page of the scan over the main and speculation pools.  Replicated pages are freed
by the scan of the first rank. -/
def freeSequencePage (g seq : ℕ) (gpus : Gpus) (i : ℕ) : Option Gpus :=
  let pm := (gpus g).pages i
  if pm.sequenceId = seq ∧ 0 < pm.refcount then
    if pm.replicated = true ∧ cfg.dcp.Enabled then
      if cfg.dcp.tpGpuIndices.head? = some g then
        cfg.onRanks gpus fun gpu => gpu.dropRef cfg.pps i
      else some gpus
    else cfg.onGpu gpus g fun gpu => gpu.dropRef cfg.pps i
  else some gpus

/-- One page of the scan over a side pool. -/
def freeSequenceSide (g seq : ℕ) (gpus : Gpus) (si : Side × ℕ) : Option Gpus :=
  let pm := ((gpus g).side si.1).pages si.2
  if pm.sequenceId = seq ∧ 0 < pm.refcount then
    cfg.onGpu gpus g fun gpu => gpu.sideDropRef cfg.pps si.1 si.2
  else some gpus

def sidePages : List (Side × ℕ) :=
  [Side.indexerK, .hca, .swa, .kdaState].flatMap fun s =>
    (List.range (gpu.side s).total).map fun i => (s, i)

def freeSequence (g seq : ℕ) : Option Gpus :=
  if g < cfg.layout.gpuCount then
    ((List.range (gpus g).total).foldlM (cfg.freeSequencePage g seq) gpus).bind fun gpus =>
      (sidePages (gpus g)).foldlM (cfg.freeSequenceSide g seq) gpus
  else none

/-! ### KDA state and indexer pages -/

/-- `allocate_kda_state`: all units of a sequence on one GPU, or none. -/
def allocateKdaState (g seq : ℕ) : Option (Gpus × List PageHandle) :=
  if cfg.layout.KdaMapped then
    if g < cfg.layout.gpuCount then
      ((gpus g).claimKdaRuns cfg.pps cfg.layout.kdaNumLayers cfg.layout.kdaUnitSlabs seq).map
        fun r => (update gpus g r.1, r.2.map fun st => ⟨g, st, .side .kdaState⟩)
    else none
  else
    (cfg.allocOn gpus g (.side .kdaState) fun gpu => (gpu.allocateSide cfg.pps .kdaState).map
      (GpuPool.writeSideMeta .kdaState fun pm => { pm with sequenceId := seq })).map
        fun r => (r.1, r.2.toList)

def dcpGpuForToken (tokenPos : ℕ) : Option ℕ :=
  if cfg.dcp.Enabled then
    cfg.dcp.tpGpuIndices[tokenPos / cfg.dcp.dcpChunkSize % cfg.dcp.dcpSize]?
  else some (cfg.dcp.tpGpuIndices.headD 0)

def allocateForDcpAppend (seq tokenPos layer defaultGpu : ℕ) : Option (Gpus × Option PageHandle) :=
  if cfg.dcp.Enabled ∧ cfg.dcp.kvSharded = false then
    cfg.allocateReplicated gpus seq tokenPos layer .main false
  else
    (if cfg.dcp.Enabled then cfg.dcpGpuForToken tokenPos else some defaultGpu).bind fun g =>
      cfg.allocOn gpus g .main fun gpu => gpu.allocateForSequence cfg.pps .main seq layer tokenPos
        (tokenPos + cfg.dcp.pageSizeTokens) false

/-- What the record of a new indexer page says. -/
def describeIndexer (seq tokenPos layer : ℕ) (pm : PageMeta) : PageMeta :=
  { pm with sequenceId := seq, tokenStart := tokenPos, layerIndex := layer }

def allocateIndexerOn (g seq tokenPos layer : ℕ) : Option (Gpus × List PageHandle) :=
  (cfg.allocOn gpus g (.side .indexerK) fun gpu => (gpu.allocateSide cfg.pps .indexerK).map
    (GpuPool.writeSideMeta .indexerK (describeIndexer seq tokenPos layer))).map
      fun r => (r.1, r.2.toList)

/-- One slab on each rank, all or nothing: the handles claimed so far are freed when a
rank refuses. -/
def claimIndexerSlabs (seq tokenPos layer : ℕ) :
    List ℕ → List PageHandle → Gpus → Option (Gpus × List PageHandle)
  | [], results, gpus => some (gpus, results)
  | g :: ranks, results, gpus =>
    (((gpus g).kvClaimSideSlab cfg.pps true).map (GpuPool.writeSideMeta .indexerK fun pm =>
        describeIndexer seq tokenPos layer (pm.claim (.side .indexerK)))).bind fun r =>
      match r.2 with
      | none =>
        (results.foldlM cfg.free (update gpus g r.1)).map fun gpus => (gpus, [])
      | some sid =>
        claimIndexerSlabs seq tokenPos layer ranks (results ++ [⟨g, sid, .side .indexerK⟩])
          (update gpus g r.1)

/-- An index of a fixed indexer pool is taken out of its free list. -/
def takeIndexer (seq tokenPos layer idx : ℕ) (gpu : GpuPool) : Option GpuPool :=
  let sp := gpu.side .indexerK
  if idx ∈ sp.free then
    some ((gpu.setSide .indexerK { sp with free := sp.free.erase idx }).setSideMeta .indexerK idx
      (describeIndexer seq tokenPos layer ((sp.pages idx).claim (.side .indexerK))))
  else none

def allocateIndexerKForDcp (seq tokenPos layer : ℕ) : Option (Gpus × List PageHandle) :=
  if ¬ cfg.dcp.Enabled then
    cfg.allocateIndexerOn gpus (cfg.dcp.tpGpuIndices.headD 0) seq tokenPos layer
  else if cfg.dcp.indexerKSharded = true then
    (if 0 < cfg.dcp.indexerKPageSizeTokens then
      cfg.dcp.tpGpuIndices[tokenPos / cfg.dcp.indexerKPageSizeTokens % cfg.dcp.dcpSize]?
    else cfg.dcpGpuForToken tokenPos).bind fun g =>
      cfg.allocateIndexerOn gpus g seq tokenPos layer
  else
    match cfg.dcp.tpGpuIndices with
    | [] => none
    | canonical :: mirrors =>
      let csp := (gpus canonical).side .indexerK
      if csp.elastic = true then
        cfg.claimIndexerSlabs seq tokenPos layer (canonical :: mirrors) [] gpus
      else
        match csp.free.reverse.find? fun idx => ∀ g ∈ mirrors,
            idx < ((gpus g).side .indexerK).total ∧
              (((gpus g).side .indexerK).pages idx).refcount = 0 with
        | none => some (gpus, [])
        | some idx =>
          (cfg.onRanks gpus (takeIndexer seq tokenPos layer idx)).map fun gpus =>
            (gpus, cfg.dcp.tpGpuIndices.map fun g => ⟨g, idx, .side .indexerK⟩)

def configureHeadroom (forks sequences chunkPages : ℤ) : Gpus := fun g =>
  { gpus g with mainReserved := forks + sequences * chunkPages, specReserved := forks }

end Config

/-! ### Calls -/

/-- A call of the allocator. -/
inductive Action
  | allocate (gpu : ℕ) (pool : Pool)
  | allocateUnreserved (gpu : ℕ) (pool : Pool)
  | allocateForSequence (gpu : ℕ) (pool : Pool) (seq layer tokenStart tokenEnd : ℕ)
      (unreserved : Bool)
  | allocateSide (gpu : ℕ) (side : Side)
  | free (h : PageHandle)
  | promote (h : PageHandle)
  | addRef (h : PageHandle)
  | describe (h : PageHandle) (seq layer tokenStart tokenEnd : ℕ)
  | cowCopy (h : PageHandle) (dstSeq : ℕ)
  | freeSequence (gpu seq : ℕ)
  | allocateKdaState (gpu seq : ℕ)
  | claimExpertZone (gpu n : ℕ) (extraReserve : ℤ)
  | claimExpertZoneAt (gpu start n : ℕ) (extraReserve : ℤ)
  | releaseExpertZone (gpu start n : ℕ)
  | configureHeadroom (forks sequences chunkPages : ℤ)
  | allocateReplicated (seq tokenStart layer : ℕ) (pool : Pool) (unreserved : Bool)
  | allocateForDcpAppend (seq tokenPos layer defaultGpu : ℕ)
  | allocateIndexerKForDcp (seq tokenPos layer : ℕ)

namespace Config

variable (cfg : Config)

/-- One call: the pools afterwards and the handles of the pages it has allocated. -/
def perform (gpus : Gpus) : Action → Option (Gpus × List PageHandle)
  | .allocate g pool =>
    (cfg.allocOn gpus g pool fun gpu => gpu.allocate cfg.pps pool).map fun r => (r.1, r.2.toList)
  | .allocateUnreserved g pool =>
    (cfg.allocOn gpus g pool fun gpu => gpu.allocateUnreserved cfg.pps pool).map
      fun r => (r.1, r.2.toList)
  | .allocateForSequence g pool seq layer tokenStart tokenEnd unreserved =>
    (cfg.allocOn gpus g pool fun gpu =>
      gpu.allocateForSequence cfg.pps pool seq layer tokenStart tokenEnd unreserved).map
        fun r => (r.1, r.2.toList)
  | .allocateSide g s =>
    (cfg.allocOn gpus g (.side s) fun gpu => gpu.allocateSide cfg.pps s).map
      fun r => (r.1, r.2.toList)
  | .free h => (cfg.free gpus h).map fun gpus => (gpus, [])
  | .promote h => (cfg.promote gpus h).map fun gpus => (gpus, [])
  | .addRef h => (cfg.addRef gpus h).map fun gpus => (gpus, [])
  | .describe h seq layer tokenStart tokenEnd =>
    (cfg.describe gpus h seq layer tokenStart tokenEnd).map fun gpus => (gpus, [])
  | .cowCopy h dstSeq =>
    -- the page itself, where nobody else refers to it, is no new one
    (cfg.cowCopy gpus h dstSeq).map fun r => (r.1, r.2.toList.filter fun nh => nh ≠ h)
  | .freeSequence g seq => (cfg.freeSequence gpus g seq).map fun gpus => (gpus, [])
  | .allocateKdaState g seq => cfg.allocateKdaState gpus g seq
  | .claimExpertZone g n extraReserve =>
    if g < cfg.layout.gpuCount then
      ((gpus g).claimExpertZone cfg.pps n extraReserve).map
        fun r => (update gpus g r.1, [])
    else some (gpus, [])
  | .claimExpertZoneAt g start n extraReserve =>
    if g < cfg.layout.gpuCount then
      ((gpus g).claimExpertZoneAt cfg.pps start n extraReserve).map
        fun r => (update gpus g r.1, [])
    else some (gpus, [])
  | .releaseExpertZone g start n =>
    if g < cfg.layout.gpuCount then
      ((gpus g).releaseExpertZone cfg.pps start n).map fun gpu => (update gpus g gpu, [])
    else some (gpus, [])
  | .configureHeadroom forks sequences chunkPages =>
    some (configureHeadroom gpus forks sequences chunkPages, [])
  | .allocateReplicated seq tokenStart layer pool unreserved =>
    (cfg.allocateReplicated gpus seq tokenStart layer pool unreserved).map
      fun r => (r.1, r.2.toList)
  | .allocateForDcpAppend seq tokenPos layer defaultGpu =>
    (cfg.allocateForDcpAppend gpus seq tokenPos layer defaultGpu).map fun r => (r.1, r.2.toList)
  | .allocateIndexerKForDcp seq tokenPos layer =>
    cfg.allocateIndexerKForDcp gpus seq tokenPos layer

/-- One call of the allocator. -/
def step (gpus : Gpus) (a : Action) : Option Gpus := (cfg.perform gpus a).map Prod.fst

end Config

end LayerStorm.Paging

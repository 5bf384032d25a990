import LayerStorm.Lib.Run
import LayerStorm.Lib.Attempt
import LayerStorm.Lib.Blocks
import LayerStorm.Paging.PageAllocator

/-!
# The indexer pages of a sequence

`grow_indexer_pages` claims, for every logical page of a sequence and every layer that computes the
indexer, one page of the indexer pool on each rank, or on the rank that owns the logical page.  The
handles are in one list, and how far it reaches is computed from its length: a growth that fails
within a logical page leaves the handles of the first layers there, and the next growth begins this
page again.

## Main results

* `indexer_handles_ordered_iff` — over all runs, and what the page tables say.
-/

namespace LayerStorm.Daemon

open Lib Paging List Option Nat

/-! ### The model -/

/-- What the dispatcher knows of the indexer. -/
structure IndexerConfig where
  alloc : Paging.Config
  dcpSize : ℕ
  /-- The mode `local`: a page belongs to one rank. -/
  localMode : Bool
  pageTokens : ℕ
  numLayers : ℕ
  computesIndexer : ℕ → Bool
  maxSequenceLength : ℕ
  maxBatchDescriptors : ℕ
  /-- At boot, the allocator is told the same. -/
  grouped : 2 ≤ dcpSize → alloc.dcp.dcpSize = dcpSize ∧ alloc.dcp.indexerKSharded = localMode ∧
    alloc.dcp.indexerKPageSizeTokens = pageTokens
  /-- With a single rank there is no group. -/
  single : dcpSize < 2 → ¬alloc.dcp.Enabled

/-- A handle of the list; what the allocator writes into the record of its page. -/
structure IndexerHandle where
  handle : PageHandle
  tokenStart : ℕ
  layerIndex : ℕ
  deriving DecidableEq

/-- The state: the pools, the handles of the sequence, and the page tables (by rank,
batch row, layer and page slot). -/
structure IndexerState where
  gpus : Gpus
  indexerPages : List IndexerHandle
  pageTable : ℕ × ℕ × ℕ × ℕ → Option PageHandle

inductive IndexerPageResult
  | ok
  | unavailable
  | exhausted
  deriving DecidableEq, Repr

namespace IndexerConfig

variable (cfg : IndexerConfig)

/-- The mode `local` of more than one rank. -/
def isLocal : Bool := 2 ≤ cfg.dcpSize && cfg.localMode

/-- The number of handles of one page and layer. -/
def perGroup : ℕ := if cfg.isLocal then 1 else cfg.dcpSize

def layers : List ℕ := (List.range cfg.numLayers).filter cfg.computesIndexer

/-- The number of pages of the serving window. -/
def pageStride : ℕ := (cfg.maxSequenceLength + cfg.pageTokens - 1) / cfg.pageTokens

/-- The pages up to a position. -/
def need (tokenPos : ℕ) : ℕ := tokenPos / cfg.pageTokens + 1

/-- The pages that a list of handles is taken to cover. -/
def havePages (s : IndexerState) : ℕ := s.indexerPages.length / (cfg.layers.length * cfg.perGroup)

/-- A refusal, before anything is claimed. -/
def Refuses (tokenPos : ℕ) : Prop :=
  cfg.pageTokens = 0 ∨ cfg.dcpSize < 1 ∨ cfg.pageStride < cfg.need tokenPos ∨ cfg.layers = []

instance (tokenPos : ℕ) : Decidable (cfg.Refuses tokenPos) :=
  inferInstanceAs (Decidable (_ ∨ _ ∨ _ ∨ _))

/-- The pages and layers that a call has to add, in order. -/
def missing (s : IndexerState) (tokenPos : ℕ) : List (ℕ × ℕ) :=
  (List.range' (cfg.havePages s) (cfg.need tokenPos - cfg.havePages s)).flatMap fun pg =>
    cfg.layers.map fun l => (pg, l)

/-- The handles of one page and layer; what is claimed of an incomplete group is freed again. -/
def growGroup (seqId : ℕ) (group : ℕ × ℕ) (s : IndexerState) : Option (IndexerState × Bool) :=
  (cfg.alloc.allocateIndexerKForDcp s.gpus seqId (group.1 * cfg.pageTokens) group.2).bind fun r =>
    if r.2.length = cfg.perGroup then
      some ({ s with
        gpus := r.1
        indexerPages := s.indexerPages ++
          r.2.map fun h => ⟨h, group.1 * cfg.pageTokens, group.2⟩ }, true)
    else (r.2.foldlM cfg.alloc.free r.1).map fun gpus => ({ s with gpus := gpus }, false)

def growIndexerPages (seqId : ℕ) (s : IndexerState) (tokenPos : ℕ) :
    Option (IndexerState × IndexerPageResult) :=
  if cfg.Refuses tokenPos then some (s, .unavailable)
  else
    (attemptEach (cfg.growGroup seqId) (cfg.missing s tokenPos) s).map fun r =>
      (r.1, if r.2 then .ok else .exhausted)

/-- The rows of the page tables that a position needs, by page, layer and rank. -/
def rows (tokenPos : ℕ) : List (ℕ × ℕ × ℕ) :=
  (List.range (cfg.need tokenPos)).flatMap fun pg =>
    cfg.layers.flatMap fun l => (List.range cfg.perGroup).map fun r => (pg, l, r)

/-- Where a row is written: the owner writes at its own slots, the replicas at those of the page. -/
def tableKey (batchSlot : ℕ) (row : ℕ × ℕ × ℕ) : ℕ × ℕ × ℕ × ℕ :=
  if cfg.isLocal then (row.1 % cfg.dcpSize, batchSlot, row.2.1, row.1 / cfg.dcpSize)
  else (row.2.2, batchSlot, row.2.1, row.1)

/-- The rows are written, taking the handles from the list one by one. -/
def writeTables (batchSlot tokenPos : ℕ) (s : IndexerState) : Option IndexerState :=
  ((cfg.rows tokenPos).zipIdx.foldlM (fun table x => (s.indexerPages[x.2]?).map fun e =>
    Function.update table (cfg.tableKey batchSlot x.1) (some e.handle)) s.pageTable).map
      fun table => { s with pageTable := table }

def ensureIndexerPages (seqId : ℕ) (s : IndexerState) (tokenPos batchSlot : ℕ) :
    Option (IndexerState × IndexerPageResult) :=
  if cfg.maxBatchDescriptors ≤ batchSlot then some (s, .unavailable)
  else
    (cfg.growIndexerPages seqId s tokenPos).bind fun r =>
      if r.2 = .ok then (cfg.writeTables batchSlot tokenPos r.1).map fun s => (s, .ok)
      else some r

end IndexerConfig

/-- What happens to the sequence and to the pools. -/
inductive IndexerOp
  /-- A reservation. -/
  | grow (tokenPos : ℕ)
  /-- A step of the sequence. -/
  | ensure (tokenPos batchSlot : ℕ)
  /-- Any call of the allocator by somebody else. -/
  | other (a : Paging.Action)

/-- The sequence as a transition system. -/
def IndexerConfig.step (cfg : IndexerConfig) (seqId : ℕ) (s : IndexerState) :
    IndexerOp → Option IndexerState
  | .grow tokenPos => (cfg.growIndexerPages seqId s tokenPos).map Prod.fst
  | .ensure tokenPos batchSlot => (cfg.ensureIndexerPages seqId s tokenPos batchSlot).map Prod.fst
  | .other a => (cfg.alloc.perform s.gpus a).map fun r => { s with gpus := r.1 }

/-- A new sequence. -/
def IndexerState.start (gpus : Gpus) : IndexerState := ⟨gpus, [], fun _ => none⟩

/-! ### What is claimed -/

namespace IndexerConfig

variable {cfg : IndexerConfig}

/-- The GPUs of the handles of a page and layer. -/
def groupGpus (cfg : IndexerConfig) (pg : ℕ) : List ℕ :=
  if cfg.isLocal then (cfg.alloc.dcp.tpGpuIndices[pg % cfg.dcpSize]?).toList
  else if 2 ≤ cfg.dcpSize then cfg.alloc.dcp.tpGpuIndices
  else [cfg.alloc.dcp.tpGpuIndices.headD 0]

/-- The handles of one page and layer: one for each GPU of the group. -/
def IsGroup (cfg : IndexerConfig) (group : ℕ × ℕ) (hs : List IndexerHandle) : Prop :=
  hs.length = cfg.perGroup ∧ ∀ (i : ℕ) (h : IndexerHandle), hs[i]? = some h →
    h.tokenStart = group.1 * cfg.pageTokens ∧ h.layerIndex = group.2 ∧
      (cfg.groupGpus group.1)[i]? = some h.handle.gpuIdx

end IndexerConfig

variable {cfg : Paging.Config}

theorem gpuIdx_of_allocateIndexerOn {gpus : Gpus} {g seq tokenPos layer : ℕ}
    {r : Gpus × List PageHandle} (hr : cfg.allocateIndexerOn gpus g seq tokenPos layer = some r) :
    r.2 = [] ∨ r.2.map PageHandle.gpuIdx = [g] := by
  obtain ⟨r', hr', rfl⟩ := map_eq_some_iff.1 hr
  unfold Config.allocOn at hr'
  by_cases hg : g < cfg.layout.gpuCount
  · rw [if_pos hg] at hr'
    obtain ⟨r'', -, rfl⟩ := map_eq_some_iff.1 hr'
    cases r''.2 with
    | none => exact .inl rfl
    | some idx => exact .inr rfl
  · rw [if_neg hg] at hr'
    cases hr'

theorem gpuIdx_of_claimIndexerSlabs {seq tokenPos layer : ℕ} :
    ∀ (ranks : List ℕ) (results : List PageHandle) {gpus : Gpus} {r : Gpus × List PageHandle},
      cfg.claimIndexerSlabs seq tokenPos layer ranks results gpus = some r →
      r.2 = [] ∨ r.2.map PageHandle.gpuIdx = results.map PageHandle.gpuIdx ++ ranks := by
  intro ranks
  induction ranks with
  | nil =>
    intro results gpus r hr
    cases hr
    exact .inr (append_nil _).symm
  | cons g ranks ih =>
    intro results gpus r hr
    obtain ⟨r', -, hr⟩ := bind_eq_some_iff.1 hr
    cases hidx : r'.2 with
    | none =>
      rw [hidx] at hr
      obtain ⟨gpus', -, rfl⟩ := map_eq_some_iff.1 hr
      exact .inl rfl
    | some sid =>
      rw [hidx] at hr
      rcases ih _ hr with hnil | hall
      · exact .inl hnil
      right
      rw [hall, map_append, append_assoc]
      rfl

namespace IndexerConfig

variable {cfg : IndexerConfig} {seqId : ℕ} {s : IndexerState}

theorem gpuIdx_of_allocate (hpt : 0 < cfg.pageTokens) {gpus : Gpus} {pg layer : ℕ}
    {r : Gpus × List PageHandle}
    (hr : cfg.alloc.allocateIndexerKForDcp gpus seqId (pg * cfg.pageTokens) layer = some r) :
    r.2 = [] ∨ r.2.map PageHandle.gpuIdx = cfg.groupGpus pg := by
  unfold Config.allocateIndexerKForDcp at hr
  unfold groupGpus isLocal
  by_cases hgroup : 2 ≤ cfg.dcpSize
  · obtain ⟨hsize, hmode, htokens⟩ := cfg.grouped hgroup
    have henabled : cfg.alloc.dcp.Enabled := by
      change 2 ≤ cfg.alloc.dcp.dcpSize
      omega
    rw [if_neg (not_not.2 henabled), hmode, htokens, hsize, if_pos hpt,
      Nat.mul_div_cancel _ hpt] at hr
    cases hlocal : cfg.localMode with
    | true =>
      rw [hlocal] at hr
      rw [if_pos (by simp [hgroup])]
      obtain ⟨g, hg, hr⟩ := bind_eq_some_iff.1 hr
      rw [hg]
      exact gpuIdx_of_allocateIndexerOn hr
    | false =>
      rw [hlocal] at hr
      rw [if_neg (by simp), if_pos hgroup]
      cases htp : cfg.alloc.dcp.tpGpuIndices with
      | nil =>
        rw [htp] at hr
        cases hr
      | cons canonical mirrors =>
        rw [htp] at hr
        simp only at hr
        by_cases helastic : ((gpus canonical).side .indexerK).elastic = true
        · rw [if_pos helastic] at hr
          exact gpuIdx_of_claimIndexerSlabs _ _ hr
        rw [if_neg helastic] at hr
        cases hfind : ((gpus canonical).side .indexerK).free.reverse.find? fun idx =>
            ∀ g ∈ mirrors, idx < ((gpus g).side .indexerK).total ∧
              (((gpus g).side .indexerK).pages idx).refcount = 0 with
        | none =>
          rw [hfind] at hr
          cases hr
          exact .inl rfl
        | some idx =>
          rw [hfind] at hr
          obtain ⟨gpus', -, rfl⟩ := map_eq_some_iff.1 hr
          right
          rw [List.map_map]
          exact map_id _
  · rw [if_pos (cfg.single (not_le.1 hgroup))] at hr
    rw [if_neg (by simp [hgroup]), if_neg hgroup]
    exact gpuIdx_of_allocateIndexerOn hr

theorem growGroup_spec (hpt : 0 < cfg.pageTokens) (hsize : 0 < cfg.perGroup) {group : ℕ × ℕ}
    {r : IndexerState × Bool} (hr : cfg.growGroup seqId group s = some r) :
    r.1.pageTable = s.pageTable ∧
    (r.2 = true → ∃ hs, r.1.indexerPages = s.indexerPages ++ hs ∧ cfg.IsGroup group hs) ∧
    (r.2 = false → r.1.indexerPages = s.indexerPages) := by
  obtain ⟨a, ha, hr⟩ := bind_eq_some_iff.1 hr
  by_cases hlen : a.2.length = cfg.perGroup
  · rw [if_pos hlen] at hr
    cases hr
    refine ⟨rfl, fun _ => ⟨_, rfl, by simpa using hlen, ?_⟩, fun hfail => (by cases hfail)⟩
    rcases gpuIdx_of_allocate hpt ha with hnil | hgpus
    · rw [hnil, length_nil] at hlen
      omega
    intro i h hi
    rw [getElem?_map] at hi
    obtain ⟨p, hp, rfl⟩ := map_eq_some_iff.1 hi
    refine ⟨rfl, rfl, ?_⟩
    rw [← hgpus, getElem?_map, hp, map_some]
  · rw [if_neg hlen] at hr
    obtain ⟨gpus', -, rfl⟩ := map_eq_some_iff.1 hr
    exact ⟨rfl, fun hok => (by cases hok), fun _ => rfl⟩

/-! ### The order of the handles -/

/-- **The handles are in order**: that at `(page * layers + ordinal) * group + r` was claimed for the
page, the computing layer with this ordinal, and the GPU of rank `r` (of the owner of the page, in
local mode). -/
def Ordered (cfg : IndexerConfig) (hs : List IndexerHandle) : Prop :=
  ∀ (page ordinal r : ℕ), ordinal < cfg.layers.length → r < cfg.perGroup →
    ∀ h : IndexerHandle, hs[(page * cfg.layers.length + ordinal) * cfg.perGroup + r]? = some h →
      h.tokenStart = page * cfg.pageTokens ∧ cfg.layers[ordinal]? = some h.layerIndex ∧
        (cfg.groupGpus page)[r]? = some h.handle.gpuIdx

/-- The list ends with a whole logical page. -/
def Whole (cfg : IndexerConfig) (s : IndexerState) : Prop :=
  cfg.layers.length * cfg.perGroup ∣ s.indexerPages.length

/-- A call claims a page: it is not refused, something is missing, and the pools serve the first
group. -/
def Claims (cfg : IndexerConfig) (seqId : ℕ) (s : IndexerState) (tokenPos : ℕ) : Prop :=
  ¬cfg.Refuses tokenPos ∧ ∃ group ∈ (cfg.missing s tokenPos).head?, ∃ r,
    cfg.alloc.allocateIndexerKForDcp s.gpus seqId (group.1 * cfg.pageTokens) group.2 = some r ∧
      r.2.length = cfg.perGroup

/-- **One more group of handles** is in order just if it is the next one. -/
theorem ordered_append_iff (hpt : 0 < cfg.pageTokens) (hsize : 0 < cfg.perGroup)
    (hlayers : 0 < cfg.layers.length) {hs group : List IndexerHandle} {g : ℕ × ℕ} {j : ℕ}
    (hlen : hs.length = j * cfg.perGroup) (hgroup : cfg.IsGroup g group) :
    cfg.Ordered (hs ++ group) ↔ cfg.Ordered hs ∧ g.1 = j / cfg.layers.length ∧
      cfg.layers[j % cfg.layers.length]? = some g.2 := by
  constructor
  · intro h
    refine ⟨fun page ordinal r hordinal hr e he => ?_, ?_⟩
    · have hlt := (List.getElem?_eq_some_iff.1 he).1
      exact h page ordinal r hordinal hr e (by rw [getElem?_append_left hlt, he])
    · -- the first handle of the group
      have hpos : 0 < group.length := hgroup.1 ▸ hsize
      have hfirst := h (j / cfg.layers.length) (j % cfg.layers.length) 0 (mod_lt _ hlayers)
        hsize group[0] (by
          rw [div_add_mod', add_zero, ← hlen, getElem?_append_right le_rfl,
            Nat.sub_self, List.getElem?_eq_getElem hpos])
      obtain ⟨htoken, hlayer, -⟩ := hgroup.2 0 group[0] (getElem?_eq_getElem hpos)
      rw [htoken, hlayer] at hfirst
      exact ⟨eq_of_mul_eq_mul_right hpt hfirst.1, hfirst.2.1⟩
  · rintro ⟨h, hpage, hlayer⟩ page ordinal r hordinal hr e he
    by_cases hlt : (page * cfg.layers.length + ordinal) * cfg.perGroup + r < hs.length
    · rw [getElem?_append_left hlt] at he
      exact h page ordinal r hordinal hr e he
    rw [getElem?_append_right (not_lt.1 hlt)] at he
    have hi := (List.getElem?_eq_some_iff.1 he).1
    rw [hgroup.1] at hi
    obtain ⟨hj, hri⟩ := block_index (a := page * cfg.layers.length + ordinal) (b := j) hr hi
      (by omega)
    obtain ⟨hpage', hordinal'⟩ := block_index (b := j / cfg.layers.length)
      (j := j % cfg.layers.length) hordinal (mod_lt _ hlayers) (by
        rw [hj, div_add_mod'])
    obtain ⟨htoken, hlayer', hgpu⟩ := hgroup.2 _ e he
    rw [← hri, hpage, ← hpage'] at hgpu
    refine ⟨?_, ?_, hgpu⟩
    · rw [htoken, hpage, hpage']
    · rw [hordinal', hlayer, hlayer']

variable {tokenPos : ℕ}

theorem getElem?_missing (hlayers : 0 < cfg.layers.length) {d : ℕ} {x : ℕ × ℕ}
    (hx : (cfg.missing s tokenPos)[d]? = some x) :
    x.1 = cfg.havePages s + d / cfg.layers.length ∧
      cfg.layers[d % cfg.layers.length]? = some x.2 := by
  unfold missing at hx
  rw [getElem?_flatMap hlayers (fun _ _ => length_map _)] at hx
  obtain ⟨pg, hpg, hx⟩ := bind_eq_some_iff.1 hx
  rw [getElem?_map] at hx
  obtain ⟨l, hl, rfl⟩ := map_eq_some_iff.1 hx
  obtain ⟨hlt, rfl⟩ := List.getElem?_eq_some_iff.1 hpg
  exact ⟨by simp, hl⟩

/-- What the attempts of a call have done so far. -/
structure Grown (cfg : IndexerConfig) (seqId tokenPos : ℕ) (s : IndexerState)
    (done : List (ℕ × ℕ)) (t : IndexerState) : Prop where
  table : t.pageTable = s.pageTable
  length : t.indexerPages.length = s.indexerPages.length + done.length * cfg.perGroup
  same : done = [] → t = s
  claims : done ≠ [] → cfg.Claims seqId s tokenPos
  ordered : cfg.Ordered t.indexerPages ↔ cfg.Ordered s.indexerPages ∧ (done ≠ [] → cfg.Whole s)

/-- What a call has done at its end, or where it stops. -/
structure Ended (cfg : IndexerConfig) (seqId tokenPos : ℕ) (s t : IndexerState) : Prop where
  table : t.pageTable = s.pageTable
  dvd : cfg.perGroup ∣ t.indexerPages.length
  ordered : cfg.Ordered t.indexerPages ↔
    cfg.Ordered s.indexerPages ∧ (cfg.Claims seqId s tokenPos → cfg.Whole s)

theorem pos_of_not_refuses (h : ¬cfg.Refuses tokenPos) :
    0 < cfg.pageTokens ∧ 0 < cfg.perGroup ∧ 0 < cfg.layers.length := by
  unfold Refuses at h
  simp only [not_or] at h
  refine ⟨pos_of_ne_zero h.1, ?_, length_pos_iff.2 h.2.2.2⟩
  unfold perGroup
  split
  · exact one_pos
  · omega

theorem Grown.step (haccept : ¬cfg.Refuses tokenPos) (hdvd : cfg.perGroup ∣ s.indexerPages.length)
    {done rest : List (ℕ × ℕ)} {i : ℕ × ℕ} {t : IndexerState} {r : IndexerState × Bool}
    (hl : cfg.missing s tokenPos = done ++ i :: rest) (h : cfg.Grown seqId tokenPos s done t)
    (hr : cfg.growGroup seqId i t = some r) :
    (r.2 = true → cfg.Grown seqId tokenPos s (done ++ [i]) r.1) ∧
      (r.2 = false → cfg.Ended seqId tokenPos s r.1) := by
  obtain ⟨hpt, hsize, hlayers⟩ := pos_of_not_refuses haccept
  obtain ⟨j, hj⟩ := hdvd
  rw [mul_comm] at hj
  obtain ⟨htable, hgood, hbad⟩ := growGroup_spec hpt hsize hr
  have hlen : t.indexerPages.length = (j + done.length) * cfg.perGroup := by
    rw [h.length, hj, add_mul]
  constructor
  · intro hok
    obtain ⟨group, happend, hgroup⟩ := hgood hok
    have hnext := ordered_append_iff hpt hsize hlayers hlen hgroup
    -- where the group stands in the list of what was missing
    have hi : (cfg.missing s tokenPos)[done.length]? = some i := by
      rw [hl, List.getElem?_append_right le_rfl, Nat.sub_self]
      rfl
    obtain ⟨hpage, hlayer⟩ := getElem?_missing hlayers hi
    have hhave : cfg.havePages s = j / cfg.layers.length := by
      unfold havePages
      rw [hj, Nat.mul_div_mul_right _ _ hsize]
    have hwhole : cfg.Whole s ↔ j % cfg.layers.length = 0 := by
      unfold Whole
      rw [hj, Nat.mul_dvd_mul_iff_right hsize, Nat.dvd_iff_mod_eq_zero]
    refine ⟨htable.trans h.table, ?_, fun hnil => ?_, fun _ => ?_, ?_⟩
    · rw [happend, length_append, hgroup.1, h.length, length_append, length_singleton]
      ring
    · exact absurd hnil (append_ne_nil_of_right_ne_nil _ (cons_ne_nil _ _))
    · cases hdone : done with
      | cons d done' => exact h.claims (by simp [hdone])
      | nil =>
        obtain rfl := h.same hdone
        obtain ⟨a, ha, hr⟩ := bind_eq_some_iff.1 hr
        refine ⟨haccept, i, by rw [hl, hdone]; rfl, a, ha, ?_⟩
        by_contra hne
        rw [if_neg hne] at hr
        obtain ⟨gpus', -, rfl⟩ := map_eq_some_iff.1 hr
        cases hok
    · rw [happend, hnext, h.ordered, hwhole]
      constructor
      · rintro ⟨⟨hord, hdone⟩, hpage', hlayer'⟩
        refine ⟨hord, fun _ => ?_⟩
        by_cases hnil : done = []
        · -- the first group is of the first layer
          rw [hnil] at hlayer'
          rw [hnil] at hlayer
          have hmod : j % cfg.layers.length < cfg.layers.length := mod_lt _ hlayers
          exact (getElem?_inj hmod (List.Nodup.filter _ nodup_range)).1 (hlayer'.trans hlayer.symm)
        · exact hdone hnil
      · rintro ⟨hord, hdone⟩
        have hzero := hdone (append_ne_nil_of_right_ne_nil _ (cons_ne_nil _ _))
        refine ⟨⟨hord, fun _ => hzero⟩, ?_, ?_⟩
        · rw [hpage, hhave, Nat.add_div_of_dvd_right (Nat.dvd_of_mod_eq_zero hzero)]
        · rw [add_mod, hzero, zero_add, mod_mod]
          exact hlayer
  · intro hfail
    have hsame := hbad hfail
    refine ⟨htable.trans h.table, ?_, ?_⟩
    · rw [hsame, hlen]
      exact Dvd.intro_left _ rfl
    · rw [hsame, h.ordered]
      have hiff : done ≠ [] ↔ cfg.Claims seqId s tokenPos := by
        refine ⟨h.claims, ?_⟩
        rintro ⟨-, group, hgroup, a, ha, hfull⟩ hnil
        -- the first attempt would not have failed
        rw [hl, hnil] at hgroup
        cases hgroup
        obtain rfl := h.same hnil
        unfold growGroup at hr
        rw [ha, bind_some, if_pos hfull] at hr
        cases hr
        cases hfail
      rw [hiff]

variable {r : IndexerState × IndexerPageResult}

/-- **One call** keeps the order just if it claims nothing or begins with a whole page. -/
theorem grow_spec (hdvd : cfg.perGroup ∣ s.indexerPages.length)
    (hr : cfg.growIndexerPages seqId s tokenPos = some r) :
    cfg.Ended seqId tokenPos s r.1 := by
  unfold growIndexerPages at hr
  by_cases hrefuse : cfg.Refuses tokenPos
  · rw [if_pos hrefuse] at hr
    cases hr
    exact ⟨rfl, hdvd, by simp [Claims, hrefuse]⟩
  rw [if_neg hrefuse] at hr
  obtain ⟨a, ha, rfl⟩ := map_eq_some_iff.1 hr
  have hstart : cfg.Grown seqId tokenPos s [] s :=
    ⟨rfl, by simp, fun _ => rfl, fun hne => absurd rfl hne, by simp⟩
  obtain ⟨hgood, hbad⟩ := attemptEach_rule (P := cfg.Grown seqId tokenPos s)
    (Q := fun _ => cfg.Ended seqId tokenPos s)
    (fun done i rest t r hl h hr => Grown.step hrefuse hdvd hl h hr) hstart ha
  cases hok : a.2 with
  | true =>
    have hall := hgood hok
    refine ⟨hall.table, ?_, ?_⟩
    · rw [hall.length]
      exact dvd_add hdvd (Dvd.intro_left _ rfl)
    · have hiff : cfg.missing s tokenPos ≠ [] ↔ cfg.Claims seqId s tokenPos := by
        refine ⟨hall.claims, ?_⟩
        rintro ⟨-, group, hgroup, -⟩ hnil
        rw [hnil] at hgroup
        cases hgroup
      rw [hall.ordered, hiff]
  | false =>
    obtain ⟨-, -, -, -, hend⟩ := hbad hok
    exact hend

/-! ### The page tables -/

def rankGpu (cfg : IndexerConfig) (r : ℕ) : Option ℕ :=
  if 2 ≤ cfg.dcpSize then cfg.alloc.dcp.tpGpuIndices[r]?
  else some (cfg.alloc.dcp.tpGpuIndices.headD 0)

/-- **The rows of a batch row up to a position** point each rank at pages on its own GPU, claimed
for the page and the layer of the row. -/
def Pointing (cfg : IndexerConfig) (s : IndexerState) (batchSlot tokenPos : ℕ) : Prop :=
  ∀ row ∈ cfg.rows tokenPos, ∃ h ∈ s.indexerPages,
    s.pageTable (cfg.tableKey batchSlot row) = some h.handle ∧
      h.tokenStart = row.1 * cfg.pageTokens ∧ h.layerIndex = row.2.1 ∧
      cfg.rankGpu (cfg.tableKey batchSlot row).1 = some h.handle.gpuIdx

theorem getElem?_rows (hsize : 0 < cfg.perGroup) (hlayers : 0 < cfg.layers.length) {d : ℕ}
    {row : ℕ × ℕ × ℕ} (hrow : (cfg.rows tokenPos)[d]? = some row) :
    ∃ ordinal < cfg.layers.length, d = (row.1 * cfg.layers.length + ordinal) * cfg.perGroup +
      row.2.2 ∧ cfg.layers[ordinal]? = some row.2.1 ∧ row.2.2 < cfg.perGroup := by
  have hinner : ∀ pg : ℕ, ∀ l ∈ cfg.layers,
      ((range cfg.perGroup).map fun r => (pg, l, r)).length = cfg.perGroup := by simp
  have houter : ∀ pg ∈ range (cfg.need tokenPos), (cfg.layers.flatMap fun l =>
      (range cfg.perGroup).map fun r => (pg, l, r)).length = cfg.layers.length * cfg.perGroup := by
    intro pg _
    simp [length_flatMap]
  unfold rows at hrow
  rw [getElem?_flatMap (mul_pos hlayers hsize) houter] at hrow
  obtain ⟨pg, hpg, hrow⟩ := bind_eq_some_iff.1 hrow
  rw [getElem?_flatMap hsize (hinner pg)] at hrow
  obtain ⟨l, hl, hrow⟩ := bind_eq_some_iff.1 hrow
  rw [getElem?_map] at hrow
  obtain ⟨r, hr, rfl⟩ := map_eq_some_iff.1 hrow
  obtain ⟨hlt, rfl⟩ := List.getElem?_eq_some_iff.1 hpg
  obtain ⟨hrlt, rfl⟩ := List.getElem?_eq_some_iff.1 hr
  refine ⟨_, (List.getElem?_eq_some_iff.1 hl).1, ?_, hl, by simpa using hrlt⟩
  simp only [getElem_range]
  rw [add_mul, mul_assoc, add_assoc, div_add_mod', div_add_mod']

variable {batchSlot : ℕ}

theorem tableKey_inj {row row' : ℕ × ℕ × ℕ} (hr : row.2.2 < cfg.perGroup)
    (hr' : row'.2.2 < cfg.perGroup) (h : cfg.tableKey batchSlot row = cfg.tableKey batchSlot row') :
    row = row' := by
  unfold tableKey at h
  unfold perGroup at hr hr'
  obtain ⟨pg, l, r⟩ := row
  obtain ⟨pg', l', r'⟩ := row'
  by_cases hlocal : cfg.isLocal = true
  · simp only [hlocal, if_true, Prod.mk.injEq] at h hr hr'
    obtain ⟨hmod, -, hl, hdiv⟩ := h
    have hpg : pg = pg' := by
      rw [← div_add_mod pg cfg.dcpSize, ← div_add_mod pg' cfg.dcpSize, hmod, hdiv]
    rw [hpg, hl, lt_one_iff.1 hr, lt_one_iff.1 hr']
  · rw [if_neg hlocal, if_neg hlocal] at h
    simp only [Prod.mk.injEq] at h
    obtain ⟨hr, -, hl, hpg⟩ := h
    rw [hpg, hl, hr]

theorem rankGpu_tableKey {pg l r gpu : ℕ} (hr : r < cfg.perGroup)
    (hgpu : (cfg.groupGpus pg)[r]? = some gpu) :
    cfg.rankGpu (cfg.tableKey batchSlot (pg, l, r)).1 = some gpu := by
  unfold rankGpu tableKey
  unfold groupGpus at hgpu
  unfold perGroup at hr
  by_cases hlocal : cfg.isLocal = true
  · have hgroup : 2 ≤ cfg.dcpSize := by
      simpa using (Bool.and_eq_true_iff.1 hlocal).1
    rw [if_pos hlocal] at hgpu hr ⊢
    rw [lt_one_iff.1 hr] at hgpu
    rw [if_pos hgroup]
    cases htp : cfg.alloc.dcp.tpGpuIndices[pg % cfg.dcpSize]? with
    | none =>
      rw [htp] at hgpu
      cases hgpu
    | some g =>
      rw [htp] at hgpu
      exact hgpu
  · rw [if_neg hlocal] at hgpu hr ⊢
    by_cases hgroup : 2 ≤ cfg.dcpSize
    · rw [if_pos hgroup] at hgpu ⊢
      exact hgpu
    have hzero : r = 0 := by omega
    rw [if_neg hgroup, hzero] at hgpu
    rw [if_neg hgroup]
    exact hgpu

variable {s' : IndexerState}

theorem writeTables_spec (hsize : 0 < cfg.perGroup) (hlayers : 0 < cfg.layers.length)
    (hs' : cfg.writeTables batchSlot tokenPos s = some s') :
    s'.indexerPages = s.indexerPages ∧
      (cfg.Ordered s.indexerPages → cfg.Pointing s' batchSlot tokenPos) := by
  obtain ⟨table, htable, rfl⟩ := Option.map_eq_some_iff.1 hs'
  refine ⟨rfl, fun hord row hrow => ?_⟩
  have hdistinct : (cfg.rows tokenPos).zipIdx.Pairwise fun x y =>
      cfg.tableKey batchSlot x.1 ≠ cfg.tableKey batchSlot y.1 := by
    rw [List.pairwise_iff_getElem]
    intro i j hi hj hij heq
    have hrow : ∀ k (hk : k < (cfg.rows tokenPos).zipIdx.length), (cfg.rows tokenPos)[k]? =
        some ((cfg.rows tokenPos).zipIdx[k]).1 := by
      intro k hk
      simp
    obtain ⟨a, ha, hi', hla, hra⟩ := getElem?_rows hsize hlayers (hrow i hi)
    obtain ⟨b, hb, hj', hlb, hrb⟩ := getElem?_rows hsize hlayers (hrow j hj)
    have hsame := tableKey_inj hra hrb heq
    rw [hsame] at hi' hla
    have hab := (List.getElem?_inj ha (List.Nodup.filter _ List.nodup_range)).1
      (hla.trans hlb.symm)
    rw [hab] at hi'
    omega
  have hwrites := foldlM_update (k := fun x : (ℕ × ℕ × ℕ) × ℕ => cfg.tableKey batchSlot x.1)
    (v := fun x => (s.indexerPages[x.2]?).map fun e => some e.handle)
    (l := (cfg.rows tokenPos).zipIdx) (s := s.pageTable) (by
      simpa only [Option.map_map, Function.comp_def] using htable) hdistinct
  obtain ⟨d, hd⟩ := List.getElem?_of_mem hrow
  obtain ⟨ordinal, hordinal, hpos, hl, hr⟩ := getElem?_rows hsize hlayers hd
  have hmem : (row, d) ∈ (cfg.rows tokenPos).zipIdx := by
    rw [List.mem_zipIdx_iff_getElem?]
    exact hd
  obtain ⟨h, hh, hvalue⟩ := Option.map_eq_some_iff.1 (hwrites.1 _ hmem)
  obtain ⟨htoken, hlayer, hgpu⟩ := hord row.1 ordinal row.2.2 hordinal hr h (by rw [← hpos, hh])
  refine ⟨h, List.mem_of_getElem? hh, hvalue.symm, htoken, ?_, rankGpu_tableKey hr hgpu⟩
  exact Option.some.inj (hlayer.symm.trans hl)

/-! ### Runs -/

/-- A call that claims a page begins with a whole logical page. -/
def Resumes (cfg : IndexerConfig) (seqId : ℕ) (s : IndexerState) : IndexerOp → Prop
  | .grow tokenPos => cfg.Claims seqId s tokenPos → cfg.Whole s
  | .ensure tokenPos batchSlot =>
    batchSlot < cfg.maxBatchDescriptors → cfg.Claims seqId s tokenPos → cfg.Whole s
  | .other _ => True

/-- `ensure_indexer_pages`: what it appends, and what the tables say afterwards. -/
theorem ensure_spec (hdvd : cfg.perGroup ∣ s.indexerPages.length)
    (hr : cfg.ensureIndexerPages seqId s tokenPos batchSlot = some r) :
    cfg.perGroup ∣ r.1.indexerPages.length ∧
    (cfg.Ordered r.1.indexerPages ↔ cfg.Ordered s.indexerPages ∧
      cfg.Resumes seqId s (.ensure tokenPos batchSlot)) ∧
    (r.2 = .ok → cfg.Ordered r.1.indexerPages → cfg.Pointing r.1 batchSlot tokenPos) := by
  unfold ensureIndexerPages at hr
  by_cases hslot : cfg.maxBatchDescriptors ≤ batchSlot
  · rw [if_pos hslot] at hr
    cases hr
    refine ⟨hdvd, ?_, fun hok => (by cases hok)⟩
    exact ⟨fun hord => ⟨hord, fun hlt => absurd hslot (not_le.2 hlt)⟩, And.left⟩
  rw [if_neg hslot] at hr
  have hresumes : cfg.Resumes seqId s (.ensure tokenPos batchSlot) ↔
      (cfg.Claims seqId s tokenPos → cfg.Whole s) :=
    ⟨fun hres => hres (not_le.1 hslot), fun hres _ => hres⟩
  obtain ⟨g, hg, hr⟩ := bind_eq_some_iff.1 hr
  have hend := grow_spec hdvd hg
  rw [hresumes]
  by_cases hok : g.2 = .ok
  · rw [if_pos hok] at hr
    obtain ⟨s', hs', rfl⟩ := map_eq_some_iff.1 hr
    have haccept : ¬cfg.Refuses tokenPos := by
      intro hrefuse
      unfold growIndexerPages at hg
      rw [if_pos hrefuse] at hg
      cases hg
      cases hok
    obtain ⟨-, hsize, hlayers⟩ := pos_of_not_refuses haccept
    obtain ⟨hpages, hpoint⟩ := writeTables_spec hsize hlayers hs'
    simp only [hpages]
    exact ⟨hend.dvd, hend.ordered, fun _ => hpoint⟩
  · rw [if_neg hok] at hr
    cases hr
    exact ⟨hend.dvd, hend.ordered, fun h => absurd h hok⟩

theorem step_spec {op : IndexerOp} (hdvd : cfg.perGroup ∣ s.indexerPages.length)
    (hstep : cfg.step seqId s op = some s') :
    cfg.perGroup ∣ s'.indexerPages.length ∧
      (cfg.Ordered s'.indexerPages ↔ cfg.Ordered s.indexerPages ∧ cfg.Resumes seqId s op) := by
  cases op with
  | grow tokenPos =>
    obtain ⟨r, hr, rfl⟩ := map_eq_some_iff.1 hstep
    have hend := grow_spec hdvd hr
    exact ⟨hend.dvd, hend.ordered⟩
  | ensure tokenPos batchSlot =>
    obtain ⟨r, hr, rfl⟩ := map_eq_some_iff.1 hstep
    obtain ⟨hdvd', hord, -⟩ := ensure_spec hdvd hr
    exact ⟨hdvd', hord⟩
  | other a =>
    obtain ⟨r, -, rfl⟩ := map_eq_some_iff.1 hstep
    exact ⟨hdvd, ⟨fun hord => ⟨hord, trivial⟩, And.left⟩⟩

/-- **The handles stay in order exactly in the runs that resume at whole pages**, and as long as
they are in order, the page tables point every rank at its own pages. -/
theorem indexer_handles_ordered_iff {gpus : Gpus} {ops : List IndexerOp}
    (hrun : Run (cfg.step seqId) (IndexerState.start gpus) ops s) :
    (cfg.Ordered s.indexerPages ↔
      GuardedRun (cfg.step seqId) (cfg.Resumes seqId) (IndexerState.start gpus) ops s) ∧
    ∀ tokenPos batchSlot s', cfg.ensureIndexerPages seqId s tokenPos batchSlot = some (s', .ok) →
      cfg.Ordered s'.indexerPages → cfg.Pointing s' batchSlot tokenPos := by
  have hstart : cfg.Ordered (IndexerState.start gpus).indexerPages := by
    intro page ordinal r _ _ h hh
    cases hh
  have hdvd : cfg.perGroup ∣ s.indexerPages.length :=
    hrun.invariant (I := fun t => cfg.perGroup ∣ t.indexerPages.length)
      (fun _ _ _ h _ hstep => (step_spec h hstep).1) (dvd_zero _)
  refine ⟨⟨?_, fun hguard => ?_⟩, fun tokenPos batchSlot s' hs' => (ensure_spec hdvd hs').2.2 rfl⟩
  · clear hdvd
    induction hrun with
    | nil => exact fun _ => GuardedRun.nil _
    | snoc hpre _ hstep ih =>
      intro hord
      have hdvd := hpre.invariant (I := fun t => cfg.perGroup ∣ t.indexerPages.length)
        (fun _ _ _ h _ hstep => (step_spec h hstep).1) (dvd_zero _)
      obtain ⟨hbefore, hresumes⟩ := (step_spec hdvd hstep).2.1 hord
      exact GuardedRun.snoc (ih hbefore) hresumes hstep
  · have hinv := hguard.invariant
      (I := fun t => cfg.perGroup ∣ t.indexerPages.length ∧ cfg.Ordered t.indexerPages)
      (fun _ _ _ h hok hstep => ⟨(step_spec h.1 hstep).1, (step_spec h.1 hstep).2.2 ⟨h.2, hok⟩⟩)
      ⟨dvd_zero _, hstart⟩
    exact hinv.2

end IndexerConfig

open IndexerConfig

/-- Two GPUs with three indexer pages each. -/
def twoIndexerPools : VramLayout where
  gpuCount := 2
  gpus := fun _ => ⟨0, 0, 3, 0, 0, 0, true, 0⟩
  slabBytes := 0
  pagesPerSlab := 0
  kvBytesPerPage := 0
  indexerKBytesPerPage := 0
  kdaEnabled := false
  kdaWantsMapped := false
  kdaNumLayers := 0
  kdaPerLayerBytes := 0

/-- Two ranks in local mode, pages of four tokens, two layers that compute the indexer. -/
def localPair : IndexerConfig where
  alloc := ⟨twoIndexerPools, ⟨2, 4, 4, [0, 1], true, 4, false, by decide, by decide⟩, by decide⟩
  dcpSize := 2
  localMode := true
  pageTokens := 4
  numLayers := 2
  computesIndexer := fun _ => true
  maxSequenceLength := 16
  maxBatchDescriptors := 2
  grouped := by decide
  single := by decide

/-- Two steps that succeed. -/
theorem indexer_handles_ordered_iff_two : ∃ s,
    Run (localPair.step 7) (IndexerState.start twoIndexerPools.initGpu) [.ensure 0 0, .ensure 4 1] s ∧
    s.indexerPages.length = 4 ∧
    (localPair.Ordered s.indexerPages ↔ GuardedRun (localPair.step 7) (localPair.Resumes 7)
      (IndexerState.start twoIndexerPools.initGpu) [.ensure 0 0, .ensure 4 1] s) ∧
    ∀ tokenPos batchSlot s', localPair.ensureIndexerPages 7 s tokenPos batchSlot = some (s', .ok) →
      localPair.Ordered s'.indexerPages → localPair.Pointing s' batchSlot tokenPos := by
  obtain ⟨s, hs, hlen⟩ : ∃ s, [.ensure 0 0, .ensure 4 1].foldlM (localPair.step 7)
      (IndexerState.start twoIndexerPools.initGpu) = some s ∧
        decide (s.indexerPages.length = 4) = true :=
    (any_eq_true _ _).1 (by decide)
  have hrun := Run.of_foldlM hs
  exact ⟨s, hrun, of_decide_eq_true hlen, indexer_handles_ordered_iff hrun⟩

/-- The pages of GPU 0 run out after the first layer of page 0.  The next step claims this page
again from the first layer, and the one after it takes the handle of its second layer for page 1,
which belongs to the other rank. -/
theorem growth_after_exhaustion_shifts_handles : ∃ s,
    Run (localPair.step 7) (IndexerState.start twoIndexerPools.initGpu)
      [.other (.allocateSide 0 .indexerK), .other (.allocateSide 0 .indexerK), .grow 0,
        .other (.free ⟨0, 0, .side .indexerK⟩), .other (.free ⟨0, 1, .side .indexerK⟩),
        .ensure 0 0, .ensure 4 0] s ∧
    s.indexerPages.map (fun h => (h.handle.gpuIdx, h.tokenStart, h.layerIndex)) =
      [(0, 0, 0), (0, 0, 0), (0, 0, 1), (1, 4, 0), (1, 4, 1)] ∧
    ¬localPair.Ordered s.indexerPages ∧ localPair.rankGpu 1 = some 1 ∧
    (s.pageTable (1, 0, 0, 0)).map PageHandle.gpuIdx = some 0 := by
  obtain ⟨s, hs, hfacts⟩ : ∃ s, [.other (.allocateSide 0 .indexerK),
      .other (.allocateSide 0 .indexerK), .grow 0, .other (.free ⟨0, 0, .side .indexerK⟩),
      .other (.free ⟨0, 1, .side .indexerK⟩), .ensure 0 0, .ensure 4 0].foldlM (localPair.step 7)
        (IndexerState.start twoIndexerPools.initGpu) = some s ∧
      decide (s.indexerPages.map (fun h => (h.handle.gpuIdx, h.tokenStart, h.layerIndex)) =
          [(0, 0, 0), (0, 0, 0), (0, 0, 1), (1, 4, 0), (1, 4, 1)] ∧
        (s.pageTable (1, 0, 0, 0)).map PageHandle.gpuIdx = some 0) = true :=
    (any_eq_true _ _).1 (by decide)
  obtain ⟨hpages, htable⟩ := of_decide_eq_true hfacts
  refine ⟨s, Run.of_foldlM hs, hpages, fun hord => ?_, rfl, htable⟩
  -- the second handle should be that of the second layer
  have hsecond := congrArg (fun l => l[1]?) hpages
  simp only [getElem?_map] at hsecond
  obtain ⟨h, hh, heq⟩ := map_eq_some_iff.1 hsecond
  have hlayer := (hord 0 1 0 (by decide) (by decide) h hh).2.1
  rw [Prod.mk.injEq, Prod.mk.injEq] at heq
  rw [heq.2.2] at hlayer
  exact absurd hlayer (by decide)

end LayerStorm.Daemon

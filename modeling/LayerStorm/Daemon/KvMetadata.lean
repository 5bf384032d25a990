import Mathlib
import LayerStorm.Lib.Run

/-!
# The metadata of the key-value pages

`build_kv_metadata` stages, for the rows of a batch, what the attention kernels need to know of the
pages: how many tokens a row attends to, the slot its new token is written to, and the tables of its
pages.  Two guards decide what is staged again: nothing if the batch looks like the last one, and
the tables only if the pages may have changed since they were built.
-/

namespace LayerStorm.Daemon

open Function Lib
open List

/-! ### The model -/

/-- The pools a page may be from. -/
inductive KvPool
  | main
  | speculation
  deriving DecidableEq

/-- A page handle of a sequence. -/
structure KvHandle where
  gpuIdx : ℤ
  pageIdx : ℤ
  pool : KvPool
  /-- Ghost: the tiering has taken the page away, and the handle is neutralised. -/
  demoted : Bool
  deriving DecidableEq

/-- What a layer without a page of its own has instead. -/
def KvHandle.sentinel (gpu : ℤ) (pool : KvPool) : KvHandle := ⟨gpu, -1, pool, false⟩

abbrev KvPages := List (List KvHandle)

/-- `sequences_`, of which only the pages matter here. -/
abbrev KvSequences := ℕ → Option KvPages

def handleAt (pages : KvPages) (j l : ℕ) : KvHandle :=
  (pages.getD j []).getD l (.sentinel 0 .main)

/-- A row of the batch descriptor. -/
structure BatchEntry where
  seqId : ℕ
  tokenPos : ℕ
  deriving DecidableEq

/-- The parts of the configuration that the function reads. -/
structure KvMetaConfig where
  layers : ℕ
  pageSize : ℕ
  maxBlocks : ℕ
  chunkSizePages : ℕ
  dcpSize : ℕ
  /-- `kv_sharded_`, which needs two ranks. -/
  kvSharded : Bool
  dcpChunkTokens : ℕ
  /-- The allocator routes pages to the rank that owns the position. -/
  routesByToken : Bool
  dcpGpuForToken : ℕ → ℤ
  rankGpu : ℕ → ℤ
  /-- `-1` where no trash page was allocated. -/
  trashSlotBase : ℕ → ℤ
  layerTakesKMainPage : ℕ → Bool
  /-- The tiering manager exists. -/
  tiering : Bool

/-! ### The growth of a sequence -/

/-- What the services answer when a page is claimed. -/
structure PageAttempt where
  first : Option KvHandle
  /-- How many pages the pressure sweep hands over to be demoted, and which are gone after it
  (sequence, logical page, layer). -/
  reclaimed : ℕ
  demoted : List (ℕ × ℕ × ℕ)
  retry : Option KvHandle

/-- The state of a growth: the sequences, whether the sweep was made, and the answers to come. -/
structure Growth where
  seqs : KvSequences
  pressureSwept : Bool
  tape : List PageAttempt

def KvHandle.demote (h : KvHandle) : KvHandle := { h with pageIdx := -1, demoted := true }

variable (seqs : KvSequences)

/-- The callback `free_page` of the tiering. -/
def freePage (key : ℕ × ℕ × ℕ) : KvSequences :=
  update seqs key.1 ((seqs key.1).map fun pages =>
    pages.modify key.2.1 fun page => page.modify key.2.2 KvHandle.demote)

def pushPage (seqId : ℕ) (page : List KvHandle) : KvSequences :=
  update seqs seqId ((seqs seqId).map (· ++ [page]))

namespace KvMetaConfig

variable (cfg : KvMetaConfig)

/-- One page is claimed; the first time that there is none, the sweep is made. -/
def tryAlloc (pool : KvPool) (g : Growth) : Growth × Option KvHandle :=
  match g.tape with
  | [] => (g, none)
  | a :: rest =>
    match a.first with
    | some h => ({ g with tape := rest }, some { h with demoted := false })
    | none =>
      if cfg.tiering ∧ g.pressureSwept = false ∧ pool = .main then
        if 0 < a.reclaimed then
          (⟨a.demoted.foldl freePage g.seqs, true, rest⟩,
            a.retry.map fun h => { h with demoted := false })
        else (⟨g.seqs, true, rest⟩, none)
      else ({ g with tape := rest }, none)

/-- The handles of one logical page, layer by layer; what was claimed is freed again if one is
missing. -/
def growPage (pool : KvPool) (gpu : ℤ) : List ℕ → List KvHandle → Growth →
    Growth × Option (List KvHandle)
  | [], page, g => (g, some page)
  | l :: ls, page, g =>
    if cfg.layerTakesKMainPage l then
      match cfg.tryAlloc pool g with
      | (g', some h) => growPage pool gpu ls (page ++ [h]) g'
      | (g', none) => (g', none)
    else growPage pool gpu ls (page ++ [.sentinel gpu pool]) g

/-- The logical pages, one after the other. -/
def growPages (seqId : ℕ) (pool : KvPool) (gpu : ℕ → ℤ) : List ℕ → Growth → Growth × Bool
  | [], g => (g, true)
  | i :: is, g =>
    match cfg.growPage pool (gpu i) (List.range cfg.layers) [] g with
    | (g', some page) => growPages seqId pool gpu is { g' with seqs := pushPage g'.seqs seqId page }
    | (g', none) => (g', false)

def needed (tokenPos : ℕ) : ℕ := tokenPos / cfg.pageSize + 1

/-- How far a sequence of some pages is grown. -/
def target (tokenPos have_ : ℕ) : ℕ :=
  min (max (cfg.needed tokenPos) (have_ + cfg.chunkSizePages))
    (if 0 < cfg.maxBlocks then cfg.maxBlocks else cfg.needed tokenPos)

def poolOf (pages : KvPages) : KvPool := if pages = [] then .main else (handleAt pages 0 0).pool

/-- The device of a new page. -/
def gpuOf (pages : KvPages) (i : ℕ) : ℤ :=
  if cfg.routesByToken ∧ poolOf pages = .main then cfg.dcpGpuForToken (i * cfg.pageSize)
  else if pages = [] then 0 else (handleAt pages 0 0).gpuIdx

def ensurePages (seqId tokenPos : ℕ) (g : Growth) : Growth × Bool :=
  match g.seqs seqId with
  | none => (g, true)
  | some pages =>
    if cfg.needed tokenPos ≤ pages.length then (g, true)
    else
      let r := cfg.growPages seqId (poolOf pages) (cfg.gpuOf pages)
        (List.range' pages.length (cfg.target tokenPos pages.length - pages.length))
        { g with pressureSwept := false }
      (r.1, r.2 || decide (cfg.needed tokenPos ≤ ((r.1.seqs seqId).getD []).length))

/-! ### The arrays -/

/-- Sequence-sharded metadata. -/
def sharded : Bool := cfg.kvSharded && decide (2 ≤ cfg.dcpSize)

def chunk : ℕ := if 0 < cfg.dcpChunkTokens then cfg.dcpChunkTokens else cfg.pageSize

def ppc : ℕ := cfg.chunk / cfg.pageSize

/-- `kvshard::owner_rank`. -/
def ownerRank (pos : ℕ) : ℕ := if cfg.dcpSize ≤ 1 then 0 else pos / cfg.chunk % cfg.dcpSize

/-- `kvshard::owned_len`. -/
def ownedLen (rank nTokens : ℕ) : ℕ :=
  if cfg.dcpSize ≤ 1 then nTokens
  else
    let cycle := cfg.chunk * cfg.dcpSize
    nTokens / cycle * cfg.chunk +
      (if rank * cfg.chunk < nTokens % cycle then min (nTokens % cycle - rank * cfg.chunk) cfg.chunk
        else 0)

/-- `kvshard::global_page_of_local`. -/
def globalPageOfLocal (rank localPage : ℕ) : ℕ :=
  if cfg.dcpSize ≤ 1 then localPage
  else (localPage / cfg.ppc * cfg.dcpSize + rank) * cfg.ppc + localPage % cfg.ppc

/-- The arrays on the host, by rank and index. -/
structure Staging where
  seqlensK : ℕ × ℕ → ℤ
  slotMappings : ℕ × ℕ → ℤ
  globalSeqlens : ℕ → ℤ
  blockTables : ℕ × ℕ → ℤ

def seqlenOf (rank tokenPos : ℕ) : ℤ :=
  if cfg.sharded then (cfg.ownedLen rank (tokenPos + 1) : ℤ) else tokenPos + 1

/-- The slot that a row writes to on a rank: in the page, or in the trash page where the rank does
not own the position. -/
def slotOf (rank b tokenPos : ℕ) (h : KvHandle) : ℤ :=
  if cfg.sharded ∧ rank ≠ cfg.ownerRank tokenPos then
    cfg.trashSlotBase rank + (b % cfg.pageSize : ℕ)
  else h.pageIdx * cfg.pageSize + (tokenPos % cfg.pageSize : ℕ)

/-- There is no trash page where one is needed. -/
def NoTrash (rank tokenPos : ℕ) : Prop :=
  cfg.sharded = true ∧ rank ≠ cfg.ownerRank tokenPos ∧ cfg.trashSlotBase rank < 0

instance (rank tokenPos : ℕ) : Decidable (cfg.NoTrash rank tokenPos) :=
  inferInstanceAs (Decidable (_ ∧ _ ∧ _))

/-- What pass 1 writes for a row on one rank, in a batch of `n` rows. -/
def stageRank (n b tokenPos : ℕ) (pages : KvPages) (st : Staging) (rank : ℕ) :
    Except Staging Staging :=
  let st' : Staging :=
    { st with seqlensK := update st.seqlensK (rank, b) (cfg.seqlenOf rank tokenPos) }
  if cfg.NoTrash rank tokenPos then .error st'
  else .ok { st' with
    slotMappings := (List.range cfg.layers).foldl (fun a l => update a (rank, l * n + b)
        (cfg.slotOf rank b tokenPos (handleAt pages (tokenPos / cfg.pageSize) l)))
      st.slotMappings }

structure Pass where
  growth : Growth
  btDirty : Bool
  staging : Staging

/-- Pass 1 for one row; `ids` are the rows of the last tables. -/
def stageRow (ids : List ℕ) (n : ℕ) (p : Pass) (x : BatchEntry × ℕ) : Except Pass Pass :=
  let dirty := p.btDirty || decide (ids[x.2]? ≠ some x.1.seqId)
  match p.growth.seqs x.1.seqId with
  | none => .error { p with btDirty := dirty }
  | some before =>
    let r := cfg.ensurePages x.1.seqId x.1.tokenPos p.growth
    let pages := (r.1.seqs x.1.seqId).getD []
    let st : Staging := if cfg.sharded then
        { p.staging with
          globalSeqlens := update p.staging.globalSeqlens x.2 (x.1.tokenPos + 1) }
      else p.staging
    if r.2 = false then .error ⟨r.1, dirty, p.staging⟩
    else if pages.length ≤ x.1.tokenPos / cfg.pageSize then .error ⟨r.1, dirty, p.staging⟩
    else
      match (List.range cfg.dcpSize).foldlM (cfg.stageRank n x.2 x.1.tokenPos pages) st with
      | .error st' => .error ⟨r.1, dirty, st'⟩
      | .ok st' => .ok ⟨r.1, dirty || decide (pages.length ≠ before.length), st'⟩

/-- The logical page of an entry of a table. -/
def globalPage (rank j : ℕ) : ℕ := if cfg.sharded then cfg.globalPageOfLocal rank j else j

/-- A sharded table never refers to a page on another device. -/
def OnRank (rank : ℕ) (h : KvHandle) : Prop := cfg.sharded = true → h.gpuIdx = cfg.rankGpu rank

instance (rank : ℕ) (h : KvHandle) : Decidable (cfg.OnRank rank h) :=
  inferInstanceAs (Decidable (_ → _))

/-- The entries of one row, rank and layer, from the `j`-th on. -/
def fillRow (pages : KvPages) (rank l base : ℕ) : ℕ → ℕ → (ℕ × ℕ → ℤ) →
    Except (ℕ × ℕ → ℤ) (ℕ × ℕ → ℤ)
  | 0, _, t => .ok t
  | fuel + 1, j, t =>
    if pages.length ≤ cfg.globalPage rank j then .ok t
    else if cfg.OnRank rank (handleAt pages (cfg.globalPage rank j) l) then
      fillRow pages rank l base fuel (j + 1)
        (update t (rank, base + j) (handleAt pages (cfg.globalPage rank j) l).pageIdx)
    else .error t

def tableRow (seqs : KvSequences) (n : ℕ) (t : ℕ × ℕ → ℤ) (x : BatchEntry × ℕ) :
    Except (ℕ × ℕ → ℤ) (ℕ × ℕ → ℤ) :=
  (List.range cfg.dcpSize ×ˢ List.range cfg.layers).foldlM
    (fun t k => cfg.fillRow ((seqs x.1.seqId).getD []) k.1 k.2 ((k.2 * n + x.2) * cfg.maxBlocks)
      cfg.maxBlocks 0 t) t

/-- The first entries of the arrays are zeroed. -/
def zeroed (m : ℕ) (a : ℕ × ℕ → ℤ) : ℕ × ℕ → ℤ :=
  fun k => if k.1 < cfg.dcpSize ∧ k.2 < m then 0 else a k

/-- Pass 2. -/
def buildTables (seqs : KvSequences) (rows : List BatchEntry) (t : ℕ × ℕ → ℤ) :
    Except (ℕ × ℕ → ℤ) (ℕ × ℕ → ℤ) :=
  rows.zipIdx.foldlM (cfg.tableRow seqs rows.length)
    (cfg.zeroed (cfg.layers * rows.length * cfg.maxBlocks) t)

/-- What is staged before pass 1. -/
def clearStaging (n : ℕ) (st : Staging) : Staging where
  seqlensK := cfg.zeroed n st.seqlensK
  slotMappings := cfg.zeroed (cfg.layers * n) st.slotMappings
  globalSeqlens := if cfg.sharded then fun b => if b < n then 0 else st.globalSeqlens b
    else st.globalSeqlens
  blockTables := st.blockTables

end KvMetaConfig

open KvMetaConfig

/-! ### The guards -/

/-- The state of the dispatcher, as far as the metadata is concerned. -/
structure KvMetaState where
  seqs : KvSequences
  staging : Staging
  /-- `kv_meta_last_batch_size_`; `none` is `-1`. -/
  lastBatchSize : Option ℕ
  lastSeqId : ℕ
  lastTokenPos : ℕ
  /-- `kv_pages_epoch_`. -/
  pagesEpoch : ℕ
  /-- `kv_bt_built_epoch_`; `none` is the poisoned value. -/
  builtEpoch : Option ℕ
  btBatchSize : Option ℕ
  btSeqIds : List ℕ
  /-- Ghost: the rows that were staged last. -/
  lastRows : List BatchEntry
  /-- Ghost: how many pages the sequences of the tables had when these were built. -/
  btLengths : List (Option ℕ)

/-- `KvMetaResult`, without the answer of a dispatcher that has no page allocator. -/
inductive KvMetaResult
  | ok
  | failed
  deriving DecidableEq

namespace KvMetaState

/-- After the start: nothing is staged. -/
def init (st : Staging) : KvMetaState where
  seqs := fun _ => none
  staging := st
  lastBatchSize := none
  lastSeqId := 0
  lastTokenPos := 0
  pagesEpoch := 0
  builtEpoch := none
  btBatchSize := none
  btSeqIds := []
  lastRows := []
  btLengths := []

variable (s : KvMetaState)

def invalidateKvMeta : KvMetaState :=
  { s with lastBatchSize := none, pagesEpoch := s.pagesEpoch + 1 }

/-- What a failure leaves behind. -/
def fail : KvMetaState := { s.invalidateKvMeta with builtEpoch := none }

/-- The batch looks like the last one. -/
def hit : List BatchEntry → Bool
  | [] => false
  | row :: rows => decide (s.lastBatchSize = some (rows.length + 1) ∧ row.seqId = s.lastSeqId ∧
      row.tokenPos = s.lastTokenPos)

/-- The tables are dirty before the rows are looked at. -/
def dirtyAtStart (n : ℕ) : Bool :=
  decide (s.builtEpoch ≠ some s.pagesEpoch ∨ s.btBatchSize ≠ some n ∨ s.btSeqIds.length ≠ n)

def recordRows (rows : List BatchEntry) : KvMetaState :=
  { s with
    lastBatchSize := some rows.length
    lastSeqId := (rows.head?.map BatchEntry.seqId).getD s.lastSeqId
    lastTokenPos := (rows.head?.map BatchEntry.tokenPos).getD s.lastTokenPos
    lastRows := rows }

/-- How many pages the sequences have. -/
def lengths (seqs : KvSequences) (ids : List ℕ) : List (Option ℕ) :=
  ids.map fun id => (seqs id).map List.length

def recordTables (rows : List BatchEntry) : KvMetaState :=
  { s with
    builtEpoch := some s.pagesEpoch
    btBatchSize := some rows.length
    btSeqIds := rows.map BatchEntry.seqId
    btLengths := lengths s.seqs (rows.map BatchEntry.seqId) }

end KvMetaState

namespace KvMetaConfig

variable (cfg : KvMetaConfig)

def buildKvMetadata (s : KvMetaState) (rows : List BatchEntry) (tape : List PageAttempt) :
    KvMetaState × KvMetaResult :=
  if s.hit rows then (s, .ok)
  else
    let st := cfg.clearStaging rows.length s.staging
    if cfg.sharded ∧ cfg.chunk % cfg.pageSize ≠ 0 then ({ s with staging := st }.fail, .failed)
    else
      match rows.zipIdx.foldlM (cfg.stageRow s.btSeqIds rows.length)
        ⟨⟨s.seqs, false, tape⟩, s.dirtyAtStart rows.length, st⟩ with
      | .error p => ({ s with seqs := p.growth.seqs, staging := p.staging }.fail, .failed)
      | .ok p =>
        let s' := { s with seqs := p.growth.seqs, staging := p.staging }
        if p.btDirty then
          match cfg.buildTables p.growth.seqs rows p.staging.blockTables with
          | .error t => ({ s' with staging := { p.staging with blockTables := t } }.fail, .failed)
          | .ok t =>
            (({ s' with staging := { p.staging with blockTables := t } }.recordRows
              rows).recordTables rows, .ok)
        else (s'.recordRows rows, .ok)

/-! ### Steps -/

/-- The calls and handlers that change the pages or the guards. -/
inductive Op
  /-- `build_kv_metadata` for the rows of the batch descriptor. -/
  | build (rows : List BatchEntry) (tape : List PageAttempt)
  /-- `handle_seq_create` or `handle_seq_fork`: a sequence with the pages it is given. -/
  | install (seqId : ℕ) (pages : KvPages)
  /-- `handle_seq_free`. -/
  | seqFree (seqId : ℕ)
  /-- `alloc_page` of the tiering: a page comes back, if there is one. -/
  | allocPage (seqId j l : ℕ) (answer : Option KvHandle)
  /-- `free_page` of the tiering; the one of V4 tells the guards. -/
  | freePage (key : ℕ × ℕ × ℕ) (v4 : Bool)
  /-- `handle_seq_restore`: the pages are grown; the rest of the file may be unreadable. -/
  | restore (seqId tokenCount : ℕ) (tape : List PageAttempt) (readable : Bool)
  /-- The guards are poisoned to force a rebuild. -/
  | invalidate

/-- One call. -/
def step (s : KvMetaState) : Op → KvMetaState
  | .build rows tape => (cfg.buildKvMetadata s rows tape).1
  | .install seqId pages =>
    { s with seqs := update s.seqs seqId (some pages) }.invalidateKvMeta
  | .seqFree seqId =>
    if s.seqs seqId = none then s
    else { s with seqs := update s.seqs seqId none }.invalidateKvMeta
  | .allocPage seqId j l answer =>
    match s.seqs seqId, answer with
    | some pages, some h =>
      if j < pages.length ∧ l < cfg.layers then
        { s with seqs := update s.seqs seqId (some (pages.modify j fun page =>
            page.set l { h with demoted := false })) }.invalidateKvMeta
      else s
    | _, _ => s
  | .freePage key v4 =>
    let s' := { s with seqs := Daemon.freePage s.seqs key }
    if v4 then s'.invalidateKvMeta else s'
  | .restore seqId tokenCount tape readable =>
    if s.seqs seqId = none then s
    else
      let r := cfg.ensurePages seqId (tokenCount - 1) ⟨s.seqs, false, tape⟩
      let s' := { s with seqs := r.1.seqs }
      if r.2 && readable then s'.invalidateKvMeta else s'
  | .invalidate => s.invalidateKvMeta

end KvMetaConfig

/-! ### What may happen to pages -/

/-- The pages that the sweeps of some attempts take. -/
def Swept (tape : List PageAttempt) (seqId j : ℕ) : Prop :=
  ∃ a ∈ tape, ∃ key ∈ a.demoted, key.1 = seqId ∧ key.2.1 = j

/-- The sequences exist as before, and their pages are there, except that some of a set have been
demoted; there may be more pages. -/
structure Drift (D : ℕ → ℕ → Prop) (old new : KvSequences) : Prop where
  none : ∀ id, old id = none → new id = none
  some : ∀ id pages, old id = some pages → ∃ pages', new id = some pages' ∧
    pages.length ≤ pages'.length ∧ ∀ j < pages.length, ∀ l,
      handleAt pages' j l = handleAt pages j l ∨
      D id j ∧ handleAt pages' j l = (handleAt pages j l).demote

theorem Drift.refl (D : ℕ → ℕ → Prop) (seqs : KvSequences) : Drift D seqs seqs :=
  ⟨fun _ h => h, fun _ pages h => ⟨pages, h, le_rfl, fun _ _ _ => .inl rfl⟩⟩

theorem Drift.mono {D D' : ℕ → ℕ → Prop} {old new : KvSequences} (h : Drift D old new)
    (hD : ∀ id j, D id j → D' id j) : Drift D' old new := by
  refine ⟨h.none, fun id pages hid => ?_⟩
  obtain ⟨pages', hnew, hlen, hhandles⟩ := h.some id pages hid
  refine ⟨pages', hnew, hlen, fun j hj l => ?_⟩
  rcases hhandles j hj l with heq | ⟨hd, heq⟩
  · exact .inl heq
  · exact .inr ⟨hD id j hd, heq⟩

theorem Drift.trans {D : ℕ → ℕ → Prop} {a b c : KvSequences} (hab : Drift D a b)
    (hbc : Drift D b c) : Drift D a c := by
  refine ⟨fun id h => hbc.none id (hab.none id h), fun id pages hid => ?_⟩
  obtain ⟨pages', hb, hlen, hhandles⟩ := hab.some id pages hid
  obtain ⟨pages'', hc, hlen', hhandles'⟩ := hbc.some id pages' hb
  refine ⟨pages'', hc, hlen.trans hlen', fun j hj l => ?_⟩
  rcases hhandles j hj l with heq | ⟨hd, heq⟩
  · rw [← heq]
    exact hhandles' j (hj.trans_le hlen) l
  right
  refine ⟨hd, ?_⟩
  rcases hhandles' j (hj.trans_le hlen) l with heq' | ⟨-, heq'⟩
  · rw [heq', heq]
  · rw [heq', heq]
    rfl

theorem handleAt_modify (pages : KvPages) (j l j' l' : ℕ) :
    handleAt (pages.modify j fun page => page.modify l KvHandle.demote) j' l' =
        handleAt pages j' l' ∨
      j = j' ∧ handleAt (pages.modify j fun page => page.modify l KvHandle.demote) j' l' =
        (handleAt pages j' l').demote := by
  unfold handleAt
  by_cases hj : j = j'
  · subst hj
    simp only [getD_eq_getElem?_getD, getElem?_modify_eq]
    cases hpage : pages[j]? with
    | none => exact .inl rfl
    | some page =>
      simp only [Option.map_eq_map, Option.map_some, Option.getD_some]
      by_cases hl : l = l'
      · subst hl
        rw [getElem?_modify_eq]
        cases page[l]? with
        | none => exact .inl rfl
        | some h => exact .inr ⟨trivial, rfl⟩
      · rw [getElem?_modify_ne _ _ hl]
        exact .inl rfl
  · left
    simp only [getD_eq_getElem?_getD, getElem?_modify_ne _ _ hj]

theorem freePage_drift (key : ℕ × ℕ × ℕ) :
    Drift (fun id j => key.1 = id ∧ key.2.1 = j) seqs (freePage seqs key) := by
  unfold freePage
  refine ⟨fun id h => ?_, fun id pages hid => ?_⟩
  · by_cases hkey : id = key.1
    · subst hkey
      rw [update_self, h]
      rfl
    · rw [update_of_ne hkey, h]
  · by_cases hkey : id = key.1
    · subst hkey
      rw [update_self, hid]
      refine ⟨_, rfl, by simp, fun j _ l => ?_⟩
      rcases handleAt_modify pages key.2.1 key.2.2 j l with heq | ⟨hj, heq⟩
      · exact .inl heq
      · exact .inr ⟨⟨rfl, hj⟩, heq⟩
    · exact ⟨pages, by rw [update_of_ne hkey, hid], le_rfl, fun _ _ _ => .inl rfl⟩

/-- No sequence becomes longer or shorter. -/
def SameLengths (old new : KvSequences) : Prop :=
  ∀ id, (new id).map List.length = (old id).map List.length

theorem freePage_sameLengths (key : ℕ × ℕ × ℕ) : SameLengths seqs (freePage seqs key) := by
  intro id
  unfold freePage
  by_cases hkey : id = key.1
  · subst hkey
    rw [update_self]
    cases seqs key.1 with
    | none => rfl
    | some pages => simp
  · rw [update_of_ne hkey]

theorem sweep_drift (keys : List (ℕ × ℕ × ℕ)) : ∀ seqs : KvSequences,
    Drift (fun id j => ∃ key ∈ keys, key.1 = id ∧ key.2.1 = j) seqs (keys.foldl freePage seqs) ∧
    SameLengths seqs (keys.foldl freePage seqs) := by
  induction keys with
  | nil =>
    intro seqs
    exact ⟨.refl _ _, fun _ => rfl⟩
  | cons key keys ih =>
    intro seqs
    obtain ⟨hdrift, hlen⟩ := ih (freePage seqs key)
    rw [foldl_cons]
    refine ⟨((freePage_drift seqs key).mono ?_).trans (hdrift.mono ?_), fun id => ?_⟩
    · exact fun id j h => ⟨key, mem_cons_self, h⟩
    · exact fun id j ⟨k, hk, h⟩ => ⟨k, mem_cons_of_mem _ hk, h⟩
    · rw [hlen id, freePage_sameLengths]

theorem pushPage_drift (D : ℕ → ℕ → Prop) (seqs : KvSequences) (seqId : ℕ) (page : List KvHandle) :
    Drift D seqs (pushPage seqs seqId page) := by
  unfold pushPage
  refine ⟨fun id h => ?_, fun id pages hid => ?_⟩
  · by_cases hkey : id = seqId
    · subst hkey
      rw [update_self, h]
      rfl
    · rw [update_of_ne hkey, h]
  · by_cases hkey : id = seqId
    · subst hkey
      rw [update_self, hid]
      refine ⟨_, rfl, by simp, fun j hj l => .inl ?_⟩
      unfold handleAt
      rw [getD_append _ _ _ _ hj]
    · exact ⟨pages, by rw [update_of_ne hkey, hid], le_rfl, fun _ _ _ => .inl rfl⟩

/-- What a growth of a sequence may change. -/
structure Grown (seqId : ℕ) (g g' : Growth) : Prop where
  drift : Drift (Swept g.tape) g.seqs g'.seqs
  others : ∀ id, id ≠ seqId → (g'.seqs id).map List.length = (g.seqs id).map List.length
  tape : g'.tape ⊆ g.tape

theorem Grown.refl (seqId : ℕ) (g : Growth) : Grown seqId g g :=
  ⟨.refl _ _, fun _ _ => rfl, fun _ h => h⟩

theorem Grown.trans {seqId : ℕ} {g g' g'' : Growth} (h : Grown seqId g g')
    (h' : Grown seqId g' g'') : Grown seqId g g'' := by
  refine ⟨h.drift.trans (h'.drift.mono ?_), fun id hid => ?_, fun a ha => h.tape (h'.tape ha)⟩
  · rintro id j ⟨a, ha, hkey⟩
    exact ⟨a, h.tape ha, hkey⟩
  · rw [h'.others id hid, h.others id hid]

namespace KvMetaConfig

variable {cfg : KvMetaConfig}

theorem tryAlloc_grown (seqId : ℕ) (pool : KvPool) (g : Growth) :
    Grown seqId g (cfg.tryAlloc pool g).1 := by
  unfold tryAlloc
  cases htape : g.tape with
  | nil => exact .refl _ _
  | cons a rest =>
    have hsub : rest ⊆ g.tape := by
      rw [htape]
      exact subset_cons_self a rest
    have hsame : Grown seqId g { g with tape := rest } := ⟨.refl _ _, fun _ _ => rfl, hsub⟩
    have hmarked : Grown seqId g ⟨g.seqs, true, rest⟩ := ⟨.refl _ _, fun _ _ => rfl, hsub⟩
    simp only
    cases a.first with
    | some h => exact hsame
    | none =>
      by_cases hsweep : cfg.tiering ∧ g.pressureSwept = false ∧ pool = .main
      · rw [if_pos hsweep]
        by_cases hpos : 0 < a.reclaimed
        · rw [if_pos hpos]
          obtain ⟨hdrift, hlen⟩ := sweep_drift a.demoted g.seqs
          refine ⟨hdrift.mono ?_, fun id _ => hlen id, hsub⟩
          rintro id j hkey
          exact ⟨a, by rw [htape]; exact mem_cons_self, hkey⟩
        · rw [if_neg hpos]
          exact hmarked
      · rw [if_neg hsweep]
        exact hsame

theorem growPage_grown (seqId : ℕ) (pool : KvPool) (gpu : ℤ) (ls : List ℕ) :
    ∀ (page : List KvHandle) (g : Growth), Grown seqId g (cfg.growPage pool gpu ls page g).1 := by
  induction ls with
  | nil =>
    intro page g
    exact .refl _ _
  | cons l ls ih =>
    intro page g
    unfold growPage
    by_cases htakes : cfg.layerTakesKMainPage l = true
    · rw [if_pos htakes]
      have hgrown : Grown seqId g (cfg.tryAlloc pool g).1 := tryAlloc_grown seqId pool g
      cases hr : cfg.tryAlloc pool g with
      | mk g' answer =>
        rw [hr] at hgrown
        cases answer with
        | none => exact hgrown
        | some h => exact hgrown.trans (ih _ _)
    · rw [if_neg htakes]
      exact ih _ _

theorem growPages_grown (seqId : ℕ) (pool : KvPool) (gpu : ℕ → ℤ) (is : List ℕ) :
    ∀ g : Growth, Grown seqId g (cfg.growPages seqId pool gpu is g).1 := by
  induction is with
  | nil =>
    intro g
    exact .refl _ _
  | cons i is ih =>
    intro g
    unfold growPages
    have hgrown : Grown seqId g (cfg.growPage pool (gpu i) (range cfg.layers) [] g).1 :=
      growPage_grown seqId pool (gpu i) _ [] g
    cases hr : cfg.growPage pool (gpu i) (range cfg.layers) [] g with
    | mk g' answer =>
      rw [hr] at hgrown
      cases answer with
      | none => exact hgrown
      | some page =>
        have hpush : Grown seqId g' { g' with seqs := pushPage g'.seqs seqId page } := by
          refine ⟨pushPage_drift _ _ _ _, fun id hid => ?_, fun _ h => h⟩
          exact congrArg _ (update_of_ne hid _ _)
        exact (hgrown.trans hpush).trans (ih _)

theorem ensurePages_spec (seqId tokenPos : ℕ) (g : Growth) :
    Grown seqId g (cfg.ensurePages seqId tokenPos g).1 := by
  unfold ensurePages
  cases g.seqs seqId with
  | none => exact .refl _ _
  | some pages =>
    simp only
    by_cases henough : cfg.needed tokenPos ≤ pages.length
    · rw [if_pos henough]
      exact .refl _ _
    rw [if_neg henough]
    have hstart : Grown seqId g { g with pressureSwept := false } :=
      ⟨.refl _ _, fun _ _ => rfl, fun _ h => h⟩
    exact hstart.trans (growPages_grown _ _ _ _ _)

theorem ensurePages_covered {seqId tokenPos : ℕ} {g : Growth} {pages : KvPages}
    (hpages : g.seqs seqId = some pages) (hcovered : tokenPos / cfg.pageSize < pages.length) :
    cfg.ensurePages seqId tokenPos g = (g, true) := by
  unfold ensurePages
  rw [hpages]
  exact if_pos hcovered

end KvMetaConfig

end LayerStorm.Daemon

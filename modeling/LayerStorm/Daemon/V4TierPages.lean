import LayerStorm.Lib.Attempt
import LayerStorm.Paging.Representation

/-!
# The side tiers of a V4 sequence

`ensure_v4_tier_pages` gives a sequence, on every rank, a sliding-window page for each layer, and for
each compressed layer as many pages of the compressed tier as its position needs.  The window pages
are claimed by the first call only, which makes the vectors rank by rank and returns as soon as a
claim fails; later calls take the vectors as complete.

## Main results

* `v4_tiers_fail_closed` — over all runs in which no call fails at its window pages.
-/

namespace LayerStorm.Daemon

open Function Lib Paging
open GpuPool List Option

/-! ### The model -/

/-- The handles of the tiers of a sequence, by rank and layer: nested vectors with their sizes. -/
structure V4Tiers where
  ranks : ℕ
  swaSize : ℕ → ℕ
  hcaSize : ℕ → ℕ
  lidSize : ℕ → ℕ
  swa : ℕ → ℕ → Option PageHandle
  hca : ℕ → ℕ → List PageHandle
  lid : ℕ → ℕ → List PageHandle

/-- No vectors yet. -/
def V4Tiers.empty : V4Tiers :=
  ⟨0, fun _ => 0, fun _ => 0, fun _ => 0, fun _ _ => none, fun _ _ => [], fun _ _ => []⟩

structure TierState where
  gpus : Gpus
  tiers : V4Tiers

/-- `kV4CsaRatio`. -/
def csaRatio : ℕ := 4

/-- `kV4HcaRatio`. -/
def hcaRatio : ℕ := 128

/-- `kV4LogicalBlockTokens`. -/
def logicalBlockTokens : ℕ := 256

/-- What the call reads. -/
structure TierConfig where
  alloc : Paging.Config
  numLayers : ℕ
  compressRatios : List ℤ
  /-- `indexer_k_page_size_tokens`. -/
  pageTokens : ℕ
  /-- The GPUs of the ranks, in order; the first GPU if the executor has none. -/
  rankGpus : List ℕ
  nodup : rankGpus.Nodup
  inLayout : ∀ g ∈ rankGpus, g < alloc.layout.gpuCount
  nonempty : rankGpus ≠ []

namespace V4Tiers

/-- Writing a window page. -/
def setSwa (t : V4Tiers) (r l : ℕ) (h : PageHandle) : V4Tiers :=
  { t with swa := update t.swa r (update (t.swa r) l (some h)) }

/-- The vector of a compressed layer: `lid` for the finer ratio, `hca` for the other. -/
def compressed (t : V4Tiers) (csa : Bool) : ℕ → ℕ → List PageHandle := if csa then t.lid else t.hca

/-- Is there such a vector? -/
def InRange (t : V4Tiers) (csa : Bool) (r l : ℕ) : Prop :=
  r < t.ranks ∧ l < if csa then t.lidSize r else t.hcaSize r

instance (t : V4Tiers) (csa : Bool) (r l : ℕ) : Decidable (t.InRange csa r l) :=
  inferInstanceAs (Decidable (_ ∧ _))

/-- One more page at the end of the vector of a compressed layer. -/
def push (t : V4Tiers) (csa : Bool) (r l : ℕ) (h : PageHandle) : V4Tiers :=
  if csa then
    { t with lid := update t.lid r (update (t.lid r) l (t.lid r l ++ [h])) }
  else
    { t with hca := update t.hca r (update (t.hca r) l (t.hca r l ++ [h])) }

/-- The vectors of a rank get their sizes. -/
def resizeRank (t : V4Tiers) (r n : ℕ) : V4Tiers :=
  { t with
    swaSize := update t.swaSize r n
    hcaSize := update t.hcaSize r n
    lidSize := update t.lidSize r n
    swa := update t.swa r fun _ => none
    hca := update t.hca r fun _ => []
    lid := update t.lid r fun _ => [] }

end V4Tiers

namespace TierConfig

variable (cfg : TierConfig)

def nRanks : ℕ := cfg.rankGpus.length

def rankGpu (r : ℕ) : ℕ := cfg.rankGpus.getD r 0

def ratio (l : ℕ) : ℕ := (cfg.compressRatios.getD l 0).toNat

/-- The entries of a compressed layer up to a position. -/
def entries (l tokenPos : ℕ) : ℕ := (tokenPos + 1) / cfg.ratio l

/-- The layer has the finer ratio. -/
def csa (l : ℕ) : Bool := cfg.ratio l = csaRatio

/-- The entries of one page. -/
def epp (l : ℕ) : ℕ :=
  if cfg.csa l then cfg.pageTokens / csaRatio else logicalBlockTokens / hcaRatio

def need (l tokenPos : ℕ) : ℕ := (cfg.entries l tokenPos + cfg.epp l - 1) / cfg.epp l

/-- `claim_zeroed_tier_page`: a page with its record written, or none. -/
def claimZeroedTierPage (gpus : Gpus) (g : ℕ) (pool : Side) (seqId layer : ℕ) :
    Option (Gpus × Option PageHandle) :=
  cfg.alloc.allocOn gpus g (.side pool) fun gpu => (gpu.allocateSide cfg.alloc.pps pool).map
    (GpuPool.writeSideMeta pool fun pm => { pm with sequenceId := seqId, layerIndex := layer })

/-- The window page of a rank and layer. -/
def claimSwa (seqId r l : ℕ) (s : TierState) : Option (TierState × Bool) :=
  (cfg.claimZeroedTierPage s.gpus (cfg.rankGpu r) .swa seqId l).bind fun c =>
    match c.2 with
    | none => some ({ s with gpus := c.1 }, false)
    | some h =>
      if r < s.tiers.ranks ∧ l < s.tiers.swaSize r then
        some (⟨c.1, s.tiers.setSwa r l h⟩, true)
      else none

/-- The vectors and the window pages of a rank. -/
def initRank (seqId r : ℕ) (s : TierState) : Option (TierState × Bool) :=
  attemptEach (cfg.claimSwa seqId r) (List.range cfg.numLayers)
    { s with tiers := s.tiers.resizeRank r cfg.numLayers }

/-- The first half of the call: the vectors of all ranks, if there are none. -/
def initTiers (seqId : ℕ) (s : TierState) : Option (TierState × Bool) :=
  if s.tiers.ranks = 0 then
    attemptEach (cfg.initRank seqId) (List.range cfg.nRanks)
      { s with tiers := { s.tiers with ranks := cfg.nRanks } }
  else some (s, true)

/-- One more page of a compressed layer. -/
def claimCompressed (seqId r l : ℕ) (s : TierState) : Option (TierState × Bool) :=
  (cfg.claimZeroedTierPage s.gpus (cfg.rankGpu r) (if cfg.csa l then .indexerK else .hca) seqId
    l).map fun c =>
      match c.2 with
      | none => ({ s with gpus := c.1 }, false)
      | some h => (⟨c.1, s.tiers.push (cfg.csa l) r l h⟩, true)

/-- The pages of a rank and layer. -/
def growLayer (seqId tokenPos : ℕ) (rl : ℕ × ℕ) (s : TierState) : Option (TierState × Bool) :=
  if cfg.ratio rl.2 = 0 ∨ cfg.entries rl.2 tokenPos = 0 then some (s, true)
  else if cfg.epp rl.2 = 0 then some (s, false)
  else if s.tiers.InRange (cfg.csa rl.2) rl.1 rl.2 then
    attemptEach (fun _ => cfg.claimCompressed seqId rl.1 rl.2) (List.range (cfg.need rl.2 tokenPos -
        (s.tiers.compressed (cfg.csa rl.2) rl.1 rl.2).length)) s
  else none

/-- The ranks and layers, in order. -/
def cells : List (ℕ × ℕ) :=
  (List.range cfg.nRanks).flatMap fun r => (List.range cfg.numLayers).map fun l => (r, l)

/-- `ensure_v4_tier_pages`; `none` where an index is out of range. -/
def ensureV4TierPages (seqId : ℕ) (s : TierState) (tokenPos : ℕ) : Option (TierState × Bool) :=
  (cfg.initTiers seqId s).bind fun r =>
    if r.2 then attemptEach (cfg.growLayer seqId tokenPos) cfg.cells r.1 else some r

end TierConfig

/-- What happens to the sequence and to the pools. -/
inductive TierOp
  | ensure (tokenPos : ℕ)
  /-- Any call of the allocator by somebody else. -/
  | other (a : Paging.Action)

/-- The sequence as a transition system. -/
def TierConfig.step (cfg : TierConfig) (seqId : ℕ) (s : TierState) : TierOp → Option TierState
  | .ensure tokenPos => (cfg.ensureV4TierPages seqId s tokenPos).map Prod.fst
  | .other a => (cfg.alloc.perform s.gpus a).map fun r => { s with gpus := r.1 }

/-- A new sequence. -/
def TierState.start (gpus : Gpus) : TierState := ⟨gpus, .empty⟩

/-! ### One page -/

variable {pps : ℕ} {gpu : GpuPool}

theorem side_of_stampSlab {gpu' : GpuPool} {sid : ℕ} (h : gpu.stampSlab pps sid = some gpu') :
    gpu'.side = gpu.side := by
  unfold stampSlab at h
  simp only [ite_none_right_eq_some, some.injEq] at h
  obtain ⟨-, rfl⟩ := h
  rfl

variable {r : GpuPool × Option ℕ}

theorem side_of_allocateSide {pool : Side} (h : gpu.allocateSide pps pool = some r) :
    (r.2 = none → (gpu.side pool).elastic = false → (gpu.side pool).free = []) ∧
    (r.2 = none → r.1 = gpu) ∧
    ∀ idx, r.2 = some idx → r.1.side = update gpu.side pool { gpu.side pool with
      free := if (gpu.side pool).elastic then (gpu.side pool).free
        else (gpu.side pool).free.dropLast
      pages := update (gpu.side pool).pages idx
        (((gpu.side pool).pages idx).claim (.side pool)) } := by
  obtain ⟨c, hc, rfl⟩ := map_eq_some_iff.1 h
  by_cases helastic : (gpu.side pool).elastic = true
  · rw [if_pos helastic] at hc
    refine ⟨fun _ hfixed => absurd helastic (by simp [hfixed]), ?_⟩
    rw [if_pos helastic]
    by_cases hone : (gpu.side pool).runSlabs ≠ 1
    · rw [if_pos hone] at hc
      cases hc
      exact ⟨fun _ => rfl, fun idx hidx => (by cases hidx)⟩
    rw [if_neg hone] at hc
    unfold kvClaimSideSlab at hc
    cases hlast : gpu.kvFreeSlabs.getLast? with
    | none =>
      rw [hlast] at hc
      cases hc
      exact ⟨fun _ => rfl, fun idx hidx => (by cases hidx)⟩
    | some sid =>
      rw [hlast] at hc
      simp only at hc
      by_cases hreserve : gpu.kvFreePages - pps < gpu.mainReserved
      · rw [if_pos ⟨trivial, hreserve⟩] at hc
        cases hc
        exact ⟨fun _ => rfl, fun idx hidx => (by cases hidx)⟩
      rw [if_neg fun hboth => hreserve hboth.2] at hc
      obtain ⟨gpu', hgpu, rfl⟩ := map_eq_some_iff.1 hc
      have hside := side_of_stampSlab hgpu
      refine ⟨fun hnone => (by cases hnone), fun idx hidx => ?_⟩
      cases hidx
      simp only [writeSideMeta, setSideMeta, setSide, hside]
  · rw [if_neg helastic] at hc
    rw [if_neg helastic]
    cases hlast : (gpu.side pool).free.getLast? with
    | none =>
      rw [hlast] at hc
      cases hc
      exact ⟨fun _ _ => getLast?_eq_none_iff.1 hlast, fun _ => rfl,
        fun idx hidx => (by cases hidx)⟩
    | some i =>
      rw [hlast] at hc
      cases hc
      refine ⟨fun hnone => (by cases hnone), fun hnone => (by cases hnone), fun idx hidx => ?_⟩
      cases hidx
      simp only [writeSideMeta, setSideMeta, setSide, update_self, update_idem]

theorem side_of_claim {pool : Side} (h : gpu.allocateSide pps pool = some r)
    {F : PageMeta → PageMeta} (hF : ∀ pm, (F pm).refcount = pm.refcount) :
    (∀ s i, 0 < ((gpu.side s).pages i).refcount →
      0 < (((writeSideMeta pool F r).1.side s).pages i).refcount) ∧
    ((gpu.side pool).elastic = false → (gpu.side pool).free.length ≤
      ((writeSideMeta pool F r).1.side pool).free.length + 1) := by
  obtain ⟨-, hsame, hside⟩ := side_of_allocateSide h
  unfold writeSideMeta
  cases hidx : r.2 with
  | none =>
    rw [hsame hidx]
    exact ⟨fun _ _ hlive => hlive, fun _ => Nat.le_succ _⟩
  | some idx =>
    simp only [setSideMeta, setSide, hside idx hidx, update_self, update_idem]
    refine ⟨fun s i hlive => ?_, fun hfixed => ?_⟩
    · by_cases hs : s = pool
      · subst hs
        rw [update_self]
        by_cases hi : i = idx
        · subst hi
          simp only [update_self, hF]
          exact Nat.one_pos
        · simp only [update_of_ne hi]
          exact hlive
      · rw [update_of_ne hs]
        exact hlive
    · simp only [hfixed, Bool.false_eq_true, if_false, length_dropLast]
      omega

/-- What a claim of a page does: the pages that were live are live, and a page that is handed out
was not. -/
structure Claimed (cfg : Paging.Config) (gpus : Gpus) (g : ℕ) (pool : Side)
    (c : Gpus × Option PageHandle) : Prop where
  inv : AllocInv cfg c.1
  live : ∀ h, HandleLive gpus h → HandleLive c.1 h
  page : ∀ h, c.2 = some h → ¬HandleLive gpus h ∧ HandleLive c.1 h ∧ h.gpuIdx = g
  others : ∀ g', g' ≠ g → c.1 g' = gpus g'
  /-- A pool with pages of its own refuses when none is left. -/
  refused : c.2 = none → ((gpus g).side pool).elastic = false → ((gpus g).side pool).free = []
  left : ((gpus g).side pool).elastic = false →
    ((gpus g).side pool).free.length ≤ ((c.1 g).side pool).free.length + 1

theorem claim_spec {cfg : TierConfig} {gpus : Gpus} {g : ℕ} (pool : Side) (seqId layer : ℕ)
    (h : AllocInv cfg.alloc gpus) (hg : g < cfg.alloc.layout.gpuCount) :
    ∃ c, cfg.claimZeroedTierPage gpus g pool seqId layer = some c ∧
      Claimed cfg.alloc gpus g pool c := by
  obtain ⟨r, hr, hspec⟩ := (h.inv g hg).allocateSide pool
  have hF : ∀ pm : PageMeta,
      ({ pm with sequenceId := seqId, layerIndex := layer } : PageMeta).refcount = pm.refcount :=
    fun _ => rfl
  obtain ⟨hside, hleft⟩ := side_of_claim hr hF
  obtain ⟨hempty, -⟩ := side_of_allocateSide hr
  have hidx : (writeSideMeta pool (fun pm =>
      { pm with sequenceId := seqId, layerIndex := layer }) r).2 = r.2 := by
    unfold writeSideMeta
    cases hr2 : r.2 with
    | none => exact hr2
    | some idx => rfl
  have hwrite := hspec.write hF
  have hc : cfg.claimZeroedTierPage gpus g pool seqId layer =
      some (update gpus g (writeSideMeta pool (fun pm =>
        { pm with sequenceId := seqId, layerIndex := layer }) r).1,
        (writeSideMeta pool (fun pm =>
          { pm with sequenceId := seqId, layerIndex := layer }) r).2.map
            fun idx => ⟨g, idx, .side pool⟩) := by
    unfold TierConfig.claimZeroedTierPage Config.allocOn
    simp only [if_pos hg, hr, map_some]
  generalize writeSideMeta pool (fun pm =>
    { pm with sequenceId := seqId, layerIndex := layer }) r = r' at *
  obtain ⟨hinv, -⟩ := (h.allocateSide hc hF).1
  refine ⟨_, hc, hinv, ?_, ?_, fun g' hg' => update_of_ne hg' _ _, ?_, ?_⟩
  · -- what was live
    intro hd hlive
    change HandleLive (update gpus g r'.1) hd
    unfold HandleLive at hlive ⊢
    by_cases hgpu : hd.gpuIdx = g
    · rw [hgpu] at hlive ⊢
      rw [update_self]
      cases hpool : hd.pool with
      | side s =>
        rw [hpool] at hlive
        exact hside s _ hlive
      | main | speculation =>
        rw [hpool] at hlive
        unfold GpuPool.Live at hlive ⊢
        rw [hwrite.step.pages]
        exact hlive
    · rw [update_of_ne hgpu]
      exact hlive
  · intro hd hsome
    obtain ⟨idx, hr', rfl⟩ := map_eq_some_iff.1 hsome
    obtain ⟨hzero, -, hpos⟩ := hwrite.fresh idx hr'
    refine ⟨?_, ?_, rfl⟩
    · unfold HandleLive
      simp only [hzero]
      exact lt_irrefl 0
    · unfold HandleLive
      simp only [update_self]
      exact hpos
  · intro hnone hfixed
    rw [map_eq_none_iff, hidx] at hnone
    exact hempty hnone hfixed
  · intro hfixed
    simp only [update_self]
    exact hleft hfixed

/-! ### The pages of the sequence -/

/-- A place of a handle in the vectors. -/
inductive TierPlace
  | swa (r l : ℕ)
  | compressed (csa : Bool) (r l k : ℕ)
  deriving DecidableEq

def V4Tiers.at (t : V4Tiers) : TierPlace → Option PageHandle
  | .swa r l => t.swa r l
  | .compressed csa r l k => (t.compressed csa r l)[k]?

namespace V4Tiers

variable {t : V4Tiers} {csa : Bool} {r l n : ℕ} {h : PageHandle}

theorem at_setSwa (p : TierPlace) :
    (t.setSwa r l h).at p = if p = .swa r l then some h else t.at p := by
  cases p with
  | swa r' l' =>
    simp only [V4Tiers.at, setSwa]
    by_cases hr : r' = r
    · by_cases hl : l' = l <;> simp [hr, hl]
    · simp [hr]
  | compressed csa' r' l' k => rfl

theorem compressed_push (csa' : Bool) (r' l' : ℕ) : (t.push csa r l h).compressed csa' r' l' =
    if csa' = csa ∧ r' = r ∧ l' = l then t.compressed csa r l ++ [h]
    else t.compressed csa' r' l' := by
  unfold push compressed
  cases csa <;> cases csa' <;>
    by_cases hr : r' = r <;> by_cases hl : l' = l <;> simp [hr, hl]

theorem at_push (p : TierPlace) : (t.push csa r l h).at p =
    if p = .compressed csa r l (t.compressed csa r l).length then some h else t.at p := by
  cases p with
  | swa r' l' =>
    cases csa <;> rfl
  | compressed csa' r' l' k =>
    simp only [V4Tiers.at, compressed_push, TierPlace.compressed.injEq]
    by_cases hsame : csa' = csa ∧ r' = r ∧ l' = l
    · obtain ⟨rfl, rfl, rfl⟩ := hsame
      simp only [if_true, true_and]
      by_cases hk : k = (t.compressed csa' r' l').length
      · rw [if_pos hk, hk, getElem?_append_right le_rfl, Nat.sub_self]
        rfl
      rw [if_neg hk]
      by_cases hlt : k < (t.compressed csa' r' l').length
      · rw [getElem?_append_left hlt]
      · rw [getElem?_eq_none (by simp; omega), getElem?_eq_none (by omega)]
    · rw [if_neg hsame, if_neg fun hall => hsame ⟨hall.1, hall.2.1, hall.2.2.1⟩]

theorem at_resizeRank {p : TierPlace} (hp : (t.resizeRank r n).at p = some h) :
    t.at p = some h := by
  cases p with
  | swa r' l' =>
    simp only [V4Tiers.at, resizeRank, update_apply] at hp ⊢
    by_cases hr : r' = r
    · rw [if_pos hr] at hp
      cases hp
    · rw [if_neg hr] at hp
      exact hp
  | compressed csa' r' l' k =>
    simp only [V4Tiers.at, resizeRank, compressed] at hp ⊢
    by_cases hr : r' = r
    · subst hr
      cases csa' <;> simp at hp
    · cases csa' <;> simpa [update_apply, hr] using hp

end V4Tiers

/-- **The sequence owns its pages**: they are live, and no page is at two places. -/
structure Owned (gpus : Gpus) (t : V4Tiers) : Prop where
  live : ∀ p h, t.at p = some h → HandleLive gpus h
  distinct : ∀ p q h, t.at p = some h → t.at q = some h → p = q

namespace Owned

variable {gpus gpus' : Gpus} {t t' : V4Tiers}

theorem empty (gpus : Gpus) : Owned gpus .empty := by
  have hnone : ∀ p, V4Tiers.empty.at p = none := by
    intro p
    cases p with
    | swa r l => rfl
    | compressed csa r l k => cases csa <;> rfl
  exact ⟨fun p h hp => (by rw [hnone p] at hp; cases hp),
    fun p q h hp => (by rw [hnone p] at hp; cases hp)⟩

theorem mono (h : Owned gpus t) (hat : ∀ p h, t'.at p = some h → t.at p = some h)
    (hlive : ∀ h, HandleLive gpus h → HandleLive gpus' h) : Owned gpus' t' :=
  ⟨fun p hd hp => hlive hd (h.live p hd (hat p hd hp)),
    fun p q hd hp hq => h.distinct p q hd (hat p hd hp) (hat q hd hq)⟩

theorem claim (h : Owned gpus t) {p : TierPlace} {nh : PageHandle}
    (hat : ∀ q, t'.at q = if q = p then some nh else t.at q)
    (hlive : ∀ h, HandleLive gpus h → HandleLive gpus' h) (hfresh : ¬HandleLive gpus nh)
    (hnew : HandleLive gpus' nh) : Owned gpus' t' := by
  have hne : ∀ q, t.at q ≠ some nh := fun q hq => hfresh (h.live q nh hq)
  constructor
  · intro q hd hq
    rw [hat] at hq
    by_cases hqp : q = p
    · rw [if_pos hqp] at hq
      exact some.inj hq ▸ hnew
    · rw [if_neg hqp] at hq
      exact hlive hd (h.live q hd hq)
  · intro q q' hd hq hq'
    rw [hat] at hq hq'
    by_cases hqp : q = p
    · by_cases hqp' : q' = p
      · exact hqp.trans hqp'.symm
      rw [if_pos hqp] at hq
      rw [if_neg hqp'] at hq'
      cases hq
      exact absurd hq' (hne q')
    · rw [if_neg hqp] at hq
      by_cases hqp' : q' = p
      · rw [if_pos hqp'] at hq'
        cases hq'
        exact absurd hq (hne q)
      · rw [if_neg hqp'] at hq'
        exact h.distinct q q' hd hq hq'

end Owned

/-! ### The window pages -/

/-- What every call keeps of the pools and the pages. -/
structure Safe (cfg : TierConfig) (s : TierState) : Prop where
  pools : AllocInv cfg.alloc s.gpus
  owned : Owned s.gpus s.tiers

/-- The vectors of a rank have their sizes, and its window pages are there up to a layer. -/
structure RankReady (cfg : TierConfig) (t : V4Tiers) (r n : ℕ) : Prop where
  swaSize : t.swaSize r = cfg.numLayers
  hcaSize : t.hcaSize r = cfg.numLayers
  lidSize : t.lidSize r = cfg.numLayers
  windows : ∀ l < n, (t.swa r l).isSome = true

/-- The vectors are complete. -/
structure Shaped (cfg : TierConfig) (t : V4Tiers) : Prop where
  ranks : t.ranks = cfg.nRanks
  ready : ∀ r < cfg.nRanks, RankReady cfg t r cfg.numLayers

def FreeWindows (gpus : Gpus) (g n : ℕ) : Prop := n ≤ ((gpus g).side .swa).free.length

/-- A call that has to make the vectors finds the window pages of all ranks. -/
def EnoughWindows (cfg : TierConfig) (s : TierState) : Prop :=
  s.tiers.ranks = 0 → ∀ g ∈ cfg.rankGpus, FreeWindows s.gpus g cfg.numLayers

namespace TierConfig

variable {cfg : TierConfig} {s : TierState}

theorem swa_fixed (h : AllocInv cfg.alloc s.gpus) (g : ℕ) :
    ((s.gpus g).side .swa).elastic = false := by
  rw [(h.shape g).elastic]
  rfl

theorem rankGpu_mem {r : ℕ} (hr : r < cfg.nRanks) : cfg.rankGpu r ∈ cfg.rankGpus := by
  unfold rankGpu
  rw [getD_eq_getElem _ _ hr]
  exact getElem_mem hr

theorem rankGpu_inj {r r' : ℕ} (hr : r < cfg.nRanks) (hr' : r' < cfg.nRanks)
    (h : cfg.rankGpu r = cfg.rankGpu r') : r = r' := by
  unfold rankGpu at h
  rw [getD_eq_getElem _ _ hr, getD_eq_getElem _ _ hr'] at h
  exact (List.Nodup.getElem_inj_iff cfg.nodup).1 h

/-- What the loop over the layers of a rank keeps: the pages left for the others. -/
structure InRank (cfg : TierConfig) (s : TierState) (r n : ℕ) (t : TierState) : Prop where
  safe : Safe cfg t
  ranks : t.tiers.ranks = cfg.nRanks
  ready : RankReady cfg t.tiers r n
  left : FreeWindows t.gpus (cfg.rankGpu r) (cfg.numLayers - n)
  elsewhere : ∀ g, g ≠ cfg.rankGpu r → t.gpus g = s.gpus g
  otherRanks : ∀ r', r' ≠ r → ∀ n, RankReady cfg s.tiers r' n → RankReady cfg t.tiers r' n

theorem claimSwa_spec (seqId : ℕ) {r n : ℕ} {t : TierState} (hr : r < cfg.nRanks)
    (hn : n < cfg.numLayers) (h : InRank cfg s r n t) :
    ∃ c, cfg.claimSwa seqId r n t = some c ∧ c.2 = true ∧ InRank cfg s r (n + 1) c.1 := by
  obtain ⟨c, hc, hspec⟩ := claim_spec .swa seqId n h.safe.pools (cfg.inLayout _ (rankGpu_mem hr))
  have hfixed := swa_fixed h.safe.pools (cfg.rankGpu r)
  have hleft := h.left
  unfold FreeWindows at hleft
  unfold claimSwa
  rw [hc, bind_some]
  cases hpage : c.2 with
  | none =>
    have hempty := hspec.refused hpage hfixed
    rw [hempty, length_nil] at hleft
    omega
  | some nh =>
    obtain ⟨hfresh, hnew, -⟩ := hspec.page nh hpage
    simp only
    rw [if_pos ⟨h.ranks ▸ hr, h.ready.swaSize ▸ hn⟩]
    refine ⟨_, rfl, rfl, ⟨hspec.inv, ?_⟩, h.ranks, { h.ready with windows := ?_ }, ?_, ?_, ?_⟩
    · exact h.safe.owned.claim V4Tiers.at_setSwa hspec.live hfresh hnew
    · intro l hl
      simp only [V4Tiers.setSwa, update_self, update_apply]
      by_cases hln : l = n
      · rw [if_pos hln]
        rfl
      · rw [if_neg hln]
        exact h.ready.windows l (by omega)
    · have hless := hspec.left hfixed
      unfold FreeWindows
      simp only
      omega
    · intro g hg
      rw [← h.elsewhere g hg]
      exact hspec.others g hg
    · intro r' hr' n' hready
      have hbefore := h.otherRanks r' hr' n' hready
      refine { hbefore with windows := fun l hl => ?_ }
      simp only [V4Tiers.setSwa, update_of_ne hr']
      exact hbefore.windows l hl

theorem initRank_spec (seqId : ℕ) {r : ℕ} (hr : r < cfg.nRanks) (h : Safe cfg s)
    (hranks : s.tiers.ranks = cfg.nRanks)
    (hfree : FreeWindows s.gpus (cfg.rankGpu r) cfg.numLayers) :
    ∃ c, cfg.initRank seqId r s = some c ∧ c.2 = true ∧ InRank cfg s r cfg.numLayers c.1 := by
  have hstart : InRank cfg s r 0 { s with tiers := s.tiers.resizeRank r cfg.numLayers } := by
    refine ⟨⟨h.pools, h.owned.mono (fun _ _ => V4Tiers.at_resizeRank) fun _ hl => hl⟩, hranks,
      ⟨?_, ?_, ?_, fun l hl => absurd hl (Nat.not_lt_zero l)⟩, hfree, fun _ _ => rfl, ?_⟩
    · exact update_self r _ _
    · exact update_self r _ _
    · exact update_self r _ _
    · intro r' hr' n hready
      refine ⟨?_, ?_, ?_, fun l hl => ?_⟩
      · simpa only [V4Tiers.resizeRank, update_of_ne hr'] using hready.swaSize
      · simpa only [V4Tiers.resizeRank, update_of_ne hr'] using hready.hcaSize
      · simpa only [V4Tiers.resizeRank, update_of_ne hr'] using hready.lidSize
      · simpa only [V4Tiers.resizeRank, update_of_ne hr'] using hready.windows l hl
  exact attemptEach_range_ok (fun n t hn ht => claimSwa_spec seqId hr hn ht) hstart

/-- What the loop over the ranks keeps. -/
structure InRanks (cfg : TierConfig) (n : ℕ) (t : TierState) : Prop where
  safe : Safe cfg t
  ranks : t.tiers.ranks = cfg.nRanks
  ready : ∀ r < n, RankReady cfg t.tiers r cfg.numLayers
  left : ∀ r, n ≤ r → r < cfg.nRanks → FreeWindows t.gpus (cfg.rankGpu r) cfg.numLayers

/-- **The first half of a call** whose window pages are there: it succeeds. -/
theorem initTiers_spec (seqId : ℕ) (h : Safe cfg s)
    (hshape : s.tiers.ranks ≠ 0 → Shaped cfg s.tiers) (henough : EnoughWindows cfg s) :
    ∃ c, cfg.initTiers seqId s = some c ∧ c.2 = true ∧ Safe cfg c.1 ∧ Shaped cfg c.1.tiers := by
  unfold initTiers
  by_cases hranks : s.tiers.ranks = 0
  · rw [if_pos hranks]
    have hstart : InRanks cfg 0 { s with tiers := { s.tiers with ranks := cfg.nRanks } } :=
      ⟨⟨h.pools, h.owned.mono (fun p _ hp => by cases p <;> exact hp) fun _ hl => hl⟩, rfl,
        fun r hr => absurd hr (Nat.not_lt_zero r),
        fun r _ hr => henough hranks _ (rankGpu_mem hr)⟩
    have hstep : ∀ r t, r < cfg.nRanks → InRanks cfg r t →
        ∃ c, cfg.initRank seqId r t = some c ∧ c.2 = true ∧ InRanks cfg (r + 1) c.1 := by
      intro r t hr ht
      obtain ⟨c, hc, hok, hrank⟩ := initRank_spec seqId hr ht.safe ht.ranks (ht.left r le_rfl hr)
      refine ⟨c, hc, hok, hrank.safe, hrank.ranks, fun r' hr' => ?_, fun r' hle hr' => ?_⟩
      · by_cases heq : r' = r
        · subst heq
          exact hrank.ready
        · exact hrank.otherRanks r' heq _ (ht.ready r' (by omega))
      · -- the ranks are different GPUs
        have hne : cfg.rankGpu r' ≠ cfg.rankGpu r := by
          intro heq
          have hrr := rankGpu_inj hr' hr heq
          omega
        unfold FreeWindows
        rw [hrank.elsewhere _ hne]
        exact ht.left r' (by omega) hr'
    obtain ⟨c, hc, hok, hall⟩ := attemptEach_range_ok hstep hstart
    exact ⟨c, hc, hok, hall.safe, hall.ranks, hall.ready⟩
  · rw [if_neg hranks]
    exact ⟨_, rfl, rfl, h, hshape hranks⟩

/-! ### The compressed tiers -/

/-- The vectors only grow. -/
structure Extends (t t' : V4Tiers) : Prop where
  ranks : t'.ranks = t.ranks
  swaSize : t'.swaSize = t.swaSize
  hcaSize : t'.hcaSize = t.hcaSize
  lidSize : t'.lidSize = t.lidSize
  swa : t'.swa = t.swa
  length : ∀ csa r l, (t.compressed csa r l).length ≤ (t'.compressed csa r l).length

theorem Extends.refl (t : V4Tiers) : Extends t t :=
  ⟨rfl, rfl, rfl, rfl, rfl, fun _ _ _ => le_rfl⟩

theorem Extends.trans {t t' t'' : V4Tiers} (h : Extends t t') (h' : Extends t' t'') :
    Extends t t'' :=
  ⟨h'.ranks.trans h.ranks, h'.swaSize.trans h.swaSize, h'.hcaSize.trans h.hcaSize,
    h'.lidSize.trans h.lidSize, h'.swa.trans h.swa,
    fun csa r l => (h.length csa r l).trans (h'.length csa r l)⟩

theorem extends_push (t : V4Tiers) (csa : Bool) (r l : ℕ) (h : PageHandle) :
    Extends t (t.push csa r l h) := by
  refine ⟨?_, ?_, ?_, ?_, ?_, fun csa' r' l' => ?_⟩
  · cases csa <;> rfl
  · cases csa <;> rfl
  · cases csa <;> rfl
  · cases csa <;> rfl
  · cases csa <;> rfl
  · rw [V4Tiers.compressed_push]
    by_cases hsame : csa' = csa ∧ r' = r ∧ l' = l
    · obtain ⟨rfl, rfl, rfl⟩ := hsame
      simp
    · rw [if_neg hsame]

theorem Extends.shaped {t t' : V4Tiers} (h : Extends t t') (hshape : Shaped cfg t) :
    Shaped cfg t' := by
  refine ⟨h.ranks.trans hshape.ranks, fun r hr => ?_⟩
  have hready := hshape.ready r hr
  refine ⟨h.swaSize ▸ hready.swaSize, h.hcaSize ▸ hready.hcaSize, h.lidSize ▸ hready.lidSize, ?_⟩
  rw [h.swa]
  exact hready.windows

/-- A compressed layer of a rank has the pages of a position. -/
def Enough (cfg : TierConfig) (tokenPos : ℕ) (t : V4Tiers) (rl : ℕ × ℕ) : Prop :=
  cfg.ratio rl.2 ≠ 0 →
    cfg.entries rl.2 tokenPos ≤ cfg.epp rl.2 * (t.compressed (cfg.csa rl.2) rl.1 rl.2).length

/-- **What the caller relies on** when the call returns true. -/
def Provided (cfg : TierConfig) (tokenPos : ℕ) (s : TierState) : Prop :=
  ∀ r < cfg.nRanks, ∀ l < cfg.numLayers,
    (∃ h, s.tiers.swa r l = some h ∧ HandleLive s.gpus h) ∧ cfg.Enough tokenPos s.tiers (r, l)

variable {rl : ℕ × ℕ}

theorem growLayer_spec (seqId tokenPos : ℕ) (h : Safe cfg s) (hshape : Shaped cfg s.tiers)
    (hr : rl.1 < cfg.nRanks) (hl : rl.2 < cfg.numLayers) :
    ∃ c, cfg.growLayer seqId tokenPos rl s = some c ∧ Safe cfg c.1 ∧ Extends s.tiers c.1.tiers ∧
      (c.2 = true → cfg.Enough tokenPos c.1.tiers rl) := by
  obtain ⟨r, l⟩ := rl
  unfold growLayer
  by_cases hnone : cfg.ratio l = 0 ∨ cfg.entries l tokenPos = 0
  · rw [if_pos hnone]
    refine ⟨_, rfl, h, Extends.refl _, fun _ hratio => ?_⟩
    simp only [hnone.resolve_left hratio]
    exact Nat.zero_le _
  rw [if_neg hnone]
  by_cases hepp : cfg.epp l = 0
  · rw [if_pos hepp]
    exact ⟨_, rfl, h, Extends.refl _, fun hok => (by cases hok)⟩
  have hrange : s.tiers.InRange (cfg.csa l) r l := by
    have hready := hshape.ready r hr
    unfold V4Tiers.InRange
    rw [hshape.ranks, hready.lidSize, hready.hcaSize, ite_self]
    exact ⟨hr, hl⟩
  rw [if_neg hepp, if_pos hrange]
  -- every round adds a page, until there are as many as needed
  obtain ⟨c, hc, hgood, hbad⟩ := attemptEach_range (f := fun _ => cfg.claimCompressed seqId r l)
    (s := s) (n := cfg.need l tokenPos - (s.tiers.compressed (cfg.csa l) r l).length)
    (P := fun n t => Safe cfg t ∧ Extends s.tiers t.tiers ∧
      (t.tiers.compressed (cfg.csa l) r l).length = (s.tiers.compressed (cfg.csa l) r l).length + n)
    (Q := fun t => Safe cfg t ∧ Extends s.tiers t.tiers)
    (by
      rintro n t - ⟨ht, hext, hlen⟩
      obtain ⟨c, hc, hspec⟩ := claim_spec (if cfg.csa l then .indexerK else .hca) seqId l ht.pools
        (cfg.inLayout _ (rankGpu_mem hr))
      unfold claimCompressed
      rw [hc, map_some]
      cases hpage : c.2 with
      | none =>
        refine ⟨_, rfl, fun hok => (by cases hok), fun _ => ⟨⟨hspec.inv, ?_⟩, hext⟩⟩
        exact ht.owned.mono (fun _ _ hp => hp) hspec.live
      | some nh =>
        obtain ⟨hfresh, hnew, -⟩ := hspec.page nh hpage
        refine ⟨_, rfl, fun _ => ⟨⟨hspec.inv, ?_⟩, hext.trans (extends_push _ _ _ _ _), ?_⟩,
          fun hfail => (by cases hfail)⟩
        · exact ht.owned.claim V4Tiers.at_push hspec.live hfresh hnew
        · simp only [V4Tiers.compressed_push, and_self, if_true, length_append,
            length_singleton, hlen]
          omega)
    ⟨h, Extends.refl _, rfl⟩
  refine ⟨c, hc, ?_⟩
  cases hok : c.2 with
  | false =>
    obtain ⟨hsafe, hext⟩ := hbad hok
    exact ⟨hsafe, hext, fun hfalse => (by cases hfalse)⟩
  | true =>
    obtain ⟨hsafe, hext, hlen⟩ := hgood hok
    refine ⟨hsafe, hext, fun _ _ => ?_⟩
    -- the pages are the entries divided by the entries of a page, rounded up
    have hneed : cfg.need l tokenPos ≤ (c.1.tiers.compressed (cfg.csa l) r l).length := by omega
    have hround : cfg.entries l tokenPos ≤ cfg.epp l * cfg.need l tokenPos := by
      unfold need
      have hmod := Nat.div_add_mod (cfg.entries l tokenPos + cfg.epp l - 1) (cfg.epp l)
      have hlt := Nat.mod_lt (cfg.entries l tokenPos + cfg.epp l - 1) (Nat.pos_of_ne_zero hepp)
      omega
    exact hround.trans (Nat.mul_le_mul_left _ hneed)

theorem mem_cells : rl ∈ cfg.cells ↔ rl.1 < cfg.nRanks ∧ rl.2 < cfg.numLayers := by
  obtain ⟨r, l⟩ := rl
  simp [cells]

theorem growTiers_spec (seqId tokenPos : ℕ) (h : Safe cfg s) (hshape : Shaped cfg s.tiers) :
    ∃ c, attemptEach (cfg.growLayer seqId tokenPos) cfg.cells s = some c ∧ Safe cfg c.1 ∧
      Shaped cfg c.1.tiers ∧ (c.2 = true → cfg.Provided tokenPos c.1) := by
  have hcells : ∀ done rl rest, cfg.cells = done ++ rl :: rest →
      rl.1 < cfg.nRanks ∧ rl.2 < cfg.numLayers := by
    intro done rl rest hl
    exact mem_cells.1 (hl ▸ mem_append_right _ mem_cons_self)
  obtain ⟨c, hc, hgood, hbad⟩ := attemptEach_total (f := cfg.growLayer seqId tokenPos)
    (l := cfg.cells) (s := s)
    (P := fun done t => Safe cfg t ∧ Shaped cfg t.tiers ∧
      ∀ rl ∈ done, cfg.Enough tokenPos t.tiers rl)
    (Q := fun _ t => Safe cfg t ∧ Shaped cfg t.tiers)
    (by
      rintro done rl rest t hl ⟨ht, htshape, hdone⟩
      obtain ⟨hr, hlayer⟩ := hcells done rl rest hl
      obtain ⟨c, hc, hsafe, hext, henough⟩ := growLayer_spec seqId tokenPos ht htshape hr hlayer
      refine ⟨c, hc, fun hok => ⟨hsafe, hext.shaped htshape, fun rl' hrl' => ?_⟩,
        fun _ => ⟨hsafe, hext.shaped htshape⟩⟩
      rcases mem_append.1 hrl' with hmem | hmem
      · -- the pages of the layers before are still there
        intro hratio
        exact (hdone rl' hmem hratio).trans (Nat.mul_le_mul_left _ (hext.length _ _ _))
      · rw [mem_singleton.1 hmem]
        exact henough hok)
    ⟨h, hshape, fun _ hrl => absurd hrl not_mem_nil⟩
  refine ⟨c, hc, ?_⟩
  cases hok : c.2 with
  | false =>
    obtain ⟨-, -, -, -, hsafe, hshape'⟩ := hbad hok
    exact ⟨hsafe, hshape', fun hfalse => (by cases hfalse)⟩
  | true =>
    obtain ⟨hsafe, hshape', hall⟩ := hgood hok
    refine ⟨hsafe, hshape', fun _ r hr l hl => ⟨?_, hall (r, l) (mem_cells.2 ⟨hr, hl⟩)⟩⟩
    obtain ⟨hd, hwindow⟩ := isSome_iff_exists.1 ((hshape'.ready r hr).windows l hl)
    exact ⟨hd, hwindow, hsafe.owned.live (.swa r l) hd hwindow⟩

theorem ensure_spec (seqId tokenPos : ℕ) (h : Safe cfg s)
    (hshape : s.tiers.ranks ≠ 0 → Shaped cfg s.tiers) (henough : EnoughWindows cfg s) :
    ∃ c, cfg.ensureV4TierPages seqId s tokenPos = some c ∧ Safe cfg c.1 ∧ Shaped cfg c.1.tiers ∧
      (c.2 = true → cfg.Provided tokenPos c.1) := by
  obtain ⟨c, hc, hok, hsafe, hshape'⟩ := initTiers_spec seqId h hshape henough
  unfold ensureV4TierPages
  rw [hc, bind_some, if_pos hok]
  exact growTiers_spec seqId tokenPos hsafe hshape'

/-! ### Runs -/

/-- A call that makes the vectors finds its window pages; the others do not free the pages of the
sequence. -/
def Allowed (cfg : TierConfig) (s : TierState) : TierOp → Prop
  | .ensure _ => EnoughWindows cfg s
  | .other a => ∀ r, cfg.alloc.perform s.gpus a = some r →
      ∀ p h, s.tiers.at p = some h → HandleLive r.1 h

/-- **The provisioning fails closed and can be retried**, in every run in which the call that makes
the vectors finds its window pages: however many calls have failed at other pages, the next one uses
no index that is out of range, no page is claimed twice, and if it returns true, everything is
there. -/
theorem v4_tiers_fail_closed {gpus : Gpus} (hinit : Paging.init cfg.alloc.layout = some gpus)
    {seqId : ℕ} {ops : List TierOp}
    (hrun : GuardedRun (cfg.step seqId) cfg.Allowed (TierState.start gpus) ops s)
    (henough : EnoughWindows cfg s) (tokenPos : ℕ) :
    ∃ c, cfg.ensureV4TierPages seqId s tokenPos = some c ∧ Owned c.1.gpus c.1.tiers ∧
      (c.2 = true → cfg.Provided tokenPos c.1) := by
  have hstart : Safe cfg (TierState.start gpus) := ⟨AllocInv.init hinit, Owned.empty gpus⟩
  have hinv := hrun.invariant (I := fun t => Safe cfg t ∧ (t.tiers.ranks ≠ 0 → Shaped cfg t.tiers))
    (by
      rintro t op u ⟨ht, htshape⟩ hok hstep
      cases op with
      | ensure pos =>
        obtain ⟨r, hr, rfl⟩ := map_eq_some_iff.1 hstep
        obtain ⟨c, hc, hsafe, hshape, -⟩ := ensure_spec seqId pos ht htshape hok
        obtain rfl := some.inj (hc.symm.trans hr)
        exact ⟨hsafe, fun _ => hshape⟩
      | other a =>
        obtain ⟨r, hr, rfl⟩ := map_eq_some_iff.1 hstep
        refine ⟨⟨(ht.pools.perform (of_init hinit).1 hr).inv, fun p h hp => hok r hr p h hp, ?_⟩,
          htshape⟩
        exact ht.owned.distinct)
    ⟨hstart, fun hne => absurd rfl hne⟩
  obtain ⟨c, hc, hsafe, -, hprov⟩ := ensure_spec seqId tokenPos hinv.1 hinv.2 henough
  exact ⟨c, hc, hsafe.owned, hprov⟩

end TierConfig

open TierConfig

/-- Two GPUs with so many window pages, and a page of the coarser tier each. -/
def windowPools (n : ℕ) : VramLayout where
  gpuCount := 2
  gpus := fun _ => ⟨0, 0, 0, 1, n, 0, true, 0⟩
  slabBytes := 0
  pagesPerSlab := 0
  kvBytesPerPage := 0
  indexerKBytesPerPage := 0
  kdaEnabled := false
  kdaWantsMapped := false
  kdaNumLayers := 0
  kdaPerLayerBytes := 0

theorem windowPools_inLayout (n : ℕ) : ∀ g ∈ [0, 1], g < (windowPools n).gpuCount := by
  simp [windowPools]

theorem twoGpus_ne_nil : [0, 1] ≠ ([] : List ℕ) := by simp

def twoRanks (n : ℕ) : TierConfig where
  alloc :=
    ⟨windowPools n, ⟨2, 4, 4, [0, 1], false, 4, false, Paging.twoGpus_nodup,
      Paging.twoGpus_length⟩, windowPools_inLayout n⟩
  numLayers := 2
  compressRatios := [0, 128]
  pageTokens := 16
  rankGpus := [0, 1]
  nodup := Paging.twoGpus_nodup
  inLayout := windowPools_inLayout n
  nonempty := twoGpus_ne_nil

/-- With two window pages on each GPU, a first step and a step that needs the compressed tier. -/
theorem v4_tiers_fail_closed_two : ∃ s,
    GuardedRun ((twoRanks 2).step 7) (twoRanks 2).Allowed (TierState.start (windowPools 2).initGpu)
      [.ensure 0] s ∧
    (∃ c, (twoRanks 2).ensureV4TierPages 7 s 127 = some c ∧ Owned c.1.gpus c.1.tiers ∧
      (c.2 = true → (twoRanks 2).Provided 127 c.1)) ∧
    ((twoRanks 2).ensureV4TierPages 7 s 127).map Prod.snd = some true := by
  have hinit : Paging.init (twoRanks 2).alloc.layout = some (windowPools 2).initGpu := by
    exact if_pos (by decide)
  have hfree : EnoughWindows (twoRanks 2) (TierState.start (windowPools 2).initGpu) := by
    have hall :
        ∀ g ∈ (twoRanks 2).rankGpus, 2 ≤ (((windowPools 2).initGpu g).side .swa).free.length := by
      decide
    exact fun _ => hall
  obtain ⟨s, hs, hfacts⟩ : ∃ s, (twoRanks 2).step 7 (TierState.start (windowPools 2).initGpu)
      (.ensure 0) = some s ∧ decide (s.tiers.ranks ≠ 0 ∧
        ((twoRanks 2).ensureV4TierPages 7 s 127).map Prod.snd = some true) = true :=
    (any_eq_true _ _).1 (by decide)
  obtain ⟨hranks, hok⟩ := of_decide_eq_true hfacts
  have hrun : GuardedRun ((twoRanks 2).step 7) (twoRanks 2).Allowed
      (TierState.start (windowPools 2).initGpu) [.ensure 0] s :=
    .cons hfree hs (.nil s)
  exact ⟨s, hrun, v4_tiers_fail_closed hinit hrun (fun h => absurd h hranks) 127, hok⟩

/-- With one window page on each GPU, the first step fails at the second layer.  The next one takes
the vectors as complete and returns true without that page, and the first step that needs the
compressed tier uses a vector of the second rank that has never been made. -/
theorem failed_windows_are_never_claimed : ∃ s c,
    Run ((twoRanks 1).step 7) (TierState.start (windowPools 1).initGpu) [.ensure 0] s ∧
    (twoRanks 1).ensureV4TierPages 7 s 0 = some c ∧ c.2 = true ∧ c.1.tiers.swa 0 1 = none ∧
    ¬(twoRanks 1).Provided 0 c.1 ∧ (twoRanks 1).ensureV4TierPages 7 s 127 = none := by
  obtain ⟨s, hs, hfacts⟩ : ∃ s, (twoRanks 1).step 7 (TierState.start (windowPools 1).initGpu)
      (.ensure 0) = some s ∧
      ((twoRanks 1).ensureV4TierPages 7 s 0).any (fun c => c.2 && (c.1.tiers.swa 0 1).isNone) = true ∧
      ((twoRanks 1).ensureV4TierPages 7 s 127).isNone = true := by
    obtain ⟨s, hs, hfacts⟩ : ∃ s, (twoRanks 1).step 7 (TierState.start (windowPools 1).initGpu)
        (.ensure 0) = some s ∧
        (((twoRanks 1).ensureV4TierPages 7 s 0).any (fun c => c.2 && (c.1.tiers.swa 0 1).isNone) &&
          ((twoRanks 1).ensureV4TierPages 7 s 127).isNone) = true :=
      (any_eq_true _ _).1 (by decide)
    exact ⟨s, hs, Bool.and_eq_true_iff.1 hfacts⟩
  obtain ⟨c, hc, hboth⟩ := (any_eq_true _ _).1 hfacts.1
  obtain ⟨hok, hnone⟩ := Bool.and_eq_true_iff.1 hboth
  have hmissing := isNone_iff_eq_none.1 hnone
  refine ⟨s, c, Run.cons hs (.nil s), hc, hok, hmissing, fun hprov => ?_,
    isNone_iff_eq_none.1 hfacts.2⟩
  obtain ⟨⟨h, hh, -⟩, -⟩ := hprov 0 (by decide) 1 (by decide)
  rw [hmissing] at hh
  cases hh

end LayerStorm.Daemon

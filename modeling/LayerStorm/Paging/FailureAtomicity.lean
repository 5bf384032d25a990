import LayerStorm.Paging.ReplicatedKv

/-!
# Calls that fail leave no trace

A call that runs short of pages or slabs gives back what it has taken on any GPU before it found
out.  Most take nothing before they know that they succeed; an indexer page for all ranks is
claimed rank by rank and freed again.

## Main results

* `failures_atomic` — **after every run, a call that fails changes nothing but statistics**.
-/

namespace LayerStorm.Paging

open Lib
open Function GpuPool Config List Option

/-! ### The same state -/

/-- **The same state**, but for statistics and for what the records of free pages and the token
windows of vacant slabs say. -/
structure SameState (gpu gpu' : GpuPool) : Prop where
  shape : SameShape gpu gpu'
  pages : gpu'.pages = gpu.pages
  freeLists : gpu'.mainFree = gpu.mainFree ∧ gpu'.specFree = gpu.specFree ∧
    gpu'.kvLooseFree = gpu.kvLooseFree ∧ gpu'.kvFreeSlabs = gpu.kvFreeSlabs ∧
    ∀ s, (gpu'.side s).free = (gpu.side s).free
  reserved : gpu'.mainReserved = gpu.mainReserved ∧ gpu'.specReserved = gpu.specReserved
  freePages : gpu'.kvFreePages = gpu.kvFreePages
  runs : gpu'.kvRuns = gpu.kvRuns
  slabs : ∀ s, gpu'.kvSlabs s = gpu.kvSlabs s ∨ (gpu.kvSlabs s).claimed = false ∧
    (gpu.kvSlabs s).Vacant ∧ gpu'.kvSlabs s = KvSlab.fresh
  sidePages : ∀ s i, (gpu'.side s).pages i = (gpu.side s).pages i ∨
    ((gpu.side s).pages i).refcount = 0 ∧ ((gpu'.side s).pages i).refcount = 0
  zones : gpu'.expertZoneRuns = gpu.expertZoneRuns

theorem SameState.withStats (gpu : GpuPool) (kda : KdaMappedStats) (ez : ExpertZoneStats) :
    SameState gpu { gpu with kdaStats := kda, ezStats := ez } where
  shape := ⟨rfl, rfl, rfl, fun _ => rfl, fun _ => rfl, fun _ => rfl⟩
  pages := rfl
  freeLists := ⟨rfl, rfl, rfl, rfl, fun _ => rfl⟩
  reserved := ⟨rfl, rfl⟩
  freePages := rfl
  runs := rfl
  slabs := fun _ => .inl rfl
  sidePages := fun _ _ => .inl rfl
  zones := rfl

theorem SameState.refl (gpu : GpuPool) : SameState gpu gpu := SameState.withStats gpu _ _

variable {pps : ℕ} {gpu gpu₁ gpu₂ : GpuPool}

/-! ### Whole slabs -/

/-- A refused claim of KDA state is a note in the statistics. -/
theorem GpuPool.claimKdaRuns_refused {units n seq : ℕ} {r : GpuPool × List ℕ}
    (hr : gpu.claimKdaRuns pps units n seq = some r) (hnone : r.2 = []) : SameState gpu r.1 := by
  unfold claimKdaRuns at hr
  simp only at hr
  split at hr
  · rename_i hpos
    split at hr
    · cases hr
      exact SameState.withStats gpu _ _
    split at hr
    · cases hr
      exact SameState.withStats gpu _ _
    rename_i hlen
    split at hr
    · -- as many runs as there are layers, and there are layers
      obtain ⟨gpu', _, rfl⟩ := map_eq_some_iff.1 hr
      rw [show gpu.freeRuns n units = [] from hnone] at hlen
      exact absurd hpos.1 hlen
    · cases hr
  · cases hr

variable {extraReserve : ℤ}

theorem GpuPool.claimExpertZone_refused {n : ℕ} {r : GpuPool × Option ℕ}
    (hr : gpu.claimExpertZone pps n extraReserve = some r) (hnone : r.2 = none) :
    SameState gpu r.1 := by
  unfold claimExpertZone at hr
  split at hr
  · cases hr
    exact SameState.refl gpu
  split at hr
  · cases hr
    exact SameState.withStats gpu _ _
  split at hr
  · cases hr
    exact SameState.withStats gpu _ _
  · obtain ⟨gpu', _, rfl⟩ := map_eq_some_iff.1 hr
    cases hnone

theorem GpuPool.claimExpertZoneAt_refused {start n : ℕ} {r : GpuPool × Bool}
    (hr : gpu.claimExpertZoneAt pps start n extraReserve = some r) (hnone : r.2 = false) :
    SameState gpu r.1 := by
  unfold claimExpertZoneAt at hr
  split at hr
  · cases hr
    exact SameState.refl gpu
  iterate 3
    split at hr
    · cases hr
      exact SameState.withStats gpu _ _
  obtain ⟨gpu', _, rfl⟩ := map_eq_some_iff.1 hr
  cases hnone

/-! ### A slab that is claimed and freed again -/

/-- An indexer page on a slab of its own has been claimed on a GPU. -/
structure ClaimedSlab (pps : ℕ) (F : PageMeta → PageMeta) (gpu : GpuPool) (sid : ℕ)
    (gpu₁ : GpuPool) : Prop where
  inv : GpuInv pps gpu
  elastic : (gpu.side .indexerK).elastic = true
  single : (gpu.side .indexerK).runSlabs = 1
  claim : (gpu.kvClaimSideSlab pps true).map (GpuPool.writeSideMeta .indexerK F) =
    some (gpu₁, some sid)

variable {F : PageMeta → PageMeta}

/-- **Freeing the page undoes the claim**: the slab is on top of the free list again. -/
theorem ClaimedSlab.undo {sid : ℕ} (h : ClaimedSlab pps F gpu sid gpu₁)
    (hF : ∀ pm, (F pm).refcount = 1) (hdrop : gpu₁.sideDropRef pps .indexerK sid = some gpu₂) :
    SameState gpu gpu₂ := by
  obtain ⟨⟨gpu', sid'⟩, hclaim, hwrite⟩ := map_eq_some_iff.1 h.claim
  unfold kvClaimSideSlab at hclaim
  split at hclaim
  · obtain rfl := (Prod.mk.inj (some.inj hclaim)).2
    cases (Prod.mk.inj hwrite).2
  rename_i top htop
  split at hclaim
  · obtain rfl := (Prod.mk.inj (some.inj hclaim)).2
    cases (Prod.mk.inj hwrite).2
  have hlist : gpu.kvFreeSlabs.dropLast ++ [top] = gpu.kvFreeSlabs :=
    dropLast_append_getLast? top htop
  have hperm : gpu.kvFreeSlabs.Perm (top :: gpu.kvFreeSlabs.dropLast) := by
    conv_lhs => rw [← hlist]
    exact perm_append_singleton _ _
  have hfree : (gpu.kvSlabs top).claimed = false :=
    ((h.inv.pool.table.mem_free top).1 (hperm.mem_iff.2 mem_cons_self)).2
  have hvacant := h.inv.pool.table.vacant top hfree
  obtain ⟨_, _, _, hidle, _⟩ := h.inv.claimSlab (F PageMeta.fresh) h.elastic h.single hperm
    (by rw [hF]; exact Nat.one_pos)
  have hstamp : ({ gpu with kvFreeSlabs := gpu.kvFreeSlabs.dropLast } : GpuPool).stampSlab pps top =
      some (stamped pps { gpu with kvFreeSlabs := gpu.kvFreeSlabs.dropLast } [top]) :=
    stampSlab_eq hfree hvacant
  rw [hstamp] at hclaim
  obtain ⟨rfl, rfl⟩ := Prod.mk.inj (some.inj hclaim)
  obtain ⟨rfl, hsid⟩ := Prod.mk.inj hwrite
  obtain rfl := some.inj hsid
  unfold sideDropRef sideRelease at hdrop
  simp [setSideMeta, setSide, stamped, hF, h.elastic, h.single,
    runSlabIds, kvReleaseSideSlab, unstampSlab, KvSlab.stamp,
    setSlab] at hdrop
  obtain ⟨_, rfl⟩ := hdrop
  have hside : ∀ (sp : SidePool) (P : SidePool → SidePool → Prop), (∀ sp, P sp sp) →
      P (gpu.side .indexerK) sp → ∀ s, P (gpu.side s) (update gpu.side .indexerK sp s) := by
    intro sp P hrefl hself s
    by_cases hs : s = .indexerK
    · subst hs
      rwa [update_self]
    · rw [update_of_ne hs]
      exact hrefl _
  refine ⟨⟨rfl, rfl, rfl, ?_, ?_, ?_⟩, rfl, ⟨rfl, rfl, rfl, hlist, ?_⟩, ⟨rfl, rfl⟩, rfl, rfl, ?_, ?_,
    rfl⟩
  · exact hside _ (fun sp sp' => sp'.total = sp.total) (fun _ => rfl) rfl
  · exact hside _ (fun sp sp' => sp'.elastic = sp.elastic) (fun _ => rfl) h.elastic.symm
  · exact hside _ (fun sp sp' => sp'.runSlabs = sp.runSlabs) (fun _ => rfl) h.single.symm
  · exact hside _ (fun sp sp' => sp'.free = sp.free) (fun _ => rfl) rfl
  · intro s
    by_cases hs : s = top
    · subst hs
      exact Or.inr ⟨hfree, hvacant, by simp⟩
    · simp [hs]
  · intro s i
    refine hside _ (fun sp sp' => sp'.pages i = sp.pages i ∨
      (sp.pages i).refcount = 0 ∧ (sp'.pages i).refcount = 0) (fun _ => Or.inl rfl) ?_ s
    by_cases hi : i = top
    · subst hi
      exact Or.inr ⟨hidle, by simp [PageMeta.describe]⟩
    · exact Or.inl (update_of_ne hi ..)

variable {cfg : Config} {gpus₀ gpus gpus' : Gpus} {g : ℕ}

/-- **The slabs claimed so far go back to where they were.** -/
theorem undoIndexerSlabs (hF : ∀ pm, (F pm).refcount = 1) (results : List PageHandle) :
    ∀ {gpus : Gpus}, (results.map PageHandle.gpuIdx).Nodup →
      (∀ nh ∈ results, nh.pool = .side .indexerK ∧
        ClaimedSlab cfg.pps F (gpus₀ nh.gpuIdx) nh.pageIdx (gpus nh.gpuIdx)) →
      (∀ g ∉ results.map PageHandle.gpuIdx, SameState (gpus₀ g) (gpus g)) →
      results.foldlM cfg.free gpus = some gpus' → ∀ g, SameState (gpus₀ g) (gpus' g) := by
  induction results with
  | nil =>
    intro gpus _ _ hsame hfold g
    cases hfold
    exact hsame g not_mem_nil
  | cons nh results ih =>
    intro gpus hnodup hclaimed hsame hfold
    obtain ⟨hnot, hnodup⟩ := nodup_cons.1 hnodup
    obtain ⟨gpus₁, hfree, hfold⟩ := bind_eq_some_iff.1 hfold
    obtain ⟨hpool, hslab⟩ := hclaimed nh mem_cons_self
    unfold free at hfree
    rw [hpool] at hfree
    obtain ⟨_, gpu', hdrop, rfl⟩ := onGpu_some hfree
    refine ih hnodup ?_ ?_ hfold
    · intro nh' hmem
      have hne : nh'.gpuIdx ≠ nh.gpuIdx :=
        fun heq => hnot (heq ▸ mem_map_of_mem hmem)
      rw [update_of_ne hne]
      exact hclaimed nh' (mem_cons_of_mem _ hmem)
    · intro g hg
      by_cases hself : g = nh.gpuIdx
      · subst hself
        rw [update_self]
        exact hslab.undo hF hdrop
      · rw [update_of_ne hself]
        refine hsame g ?_
        rw [map_cons, mem_cons]
        exact not_or.2 ⟨hself, hg⟩

/-- Where a rank refuses, the loop over the ranks leaves every GPU as it was. -/
theorem Config.claimIndexerSlabs_refused {seq tokenPos layer : ℕ} (ranks : List ℕ) :
    ∀ (results : List PageHandle) {gpus : Gpus}, (results.map PageHandle.gpuIdx ++ ranks).Nodup →
      (∀ g ∈ ranks, GpuInv cfg.pps (gpus g) ∧
        ((((gpus g).side .indexerK).elastic = true ∧ ((gpus g).side .indexerK).runSlabs = 1) ∨
          (gpus g).kvFreeSlabs = [])) →
      (∀ nh ∈ results, nh.pool = .side .indexerK ∧ ClaimedSlab cfg.pps
          (fun pm => describeIndexer seq tokenPos layer (pm.claim (.side .indexerK)))
          (gpus₀ nh.gpuIdx) nh.pageIdx (gpus nh.gpuIdx)) →
      (∀ g ∉ results.map PageHandle.gpuIdx, gpus g = gpus₀ g) →
      cfg.claimIndexerSlabs seq tokenPos layer ranks results gpus = some (gpus', []) →
      ∀ g, SameState (gpus₀ g) (gpus' g) := by
  induction ranks with
  | nil =>
    intro results gpus _ _ _ hsame hr g
    obtain ⟨rfl, rfl⟩ := Prod.mk.inj (some.inj hr)
    rw [hsame g not_mem_nil]
    exact SameState.refl _
  | cons g ranks ih =>
    intro results gpus hnodup hranks hclaimed hsame hr
    obtain ⟨hinv, hcase⟩ := hranks g mem_cons_self
    have hg : g ∉ results.map PageHandle.gpuIdx := fun hmem =>
      disjoint_of_nodup_append hnodup hmem mem_cons_self
    obtain ⟨r, hclaim, hr⟩ := bind_eq_some_iff.1 hr
    split at hr
    · rename_i hnone
      obtain ⟨r', hr', hspec⟩ := hinv.kvClaimSideSlab .indexerK true hcase
        (f := fun pm => describeIndexer seq tokenPos layer (pm.claim (.side .indexerK)))
        fun _ => Nat.one_pos
      obtain rfl := some.inj (hclaim.symm.trans hr')
      rw [hspec.refused hnone, update_eq_self] at hr
      obtain ⟨gpus₁, hfold, heq⟩ := map_eq_some_iff.1 hr
      obtain ⟨rfl, -⟩ := Prod.mk.inj heq
      refine undoIndexerSlabs (fun _ => rfl) results (nodup_append.1 hnodup).1 hclaimed ?_ hfold
      intro g' hg'
      rw [hsame g' hg']
      exact SameState.refl _
    · rename_i sid hsid
      have hclaim' : ((gpus g).kvClaimSideSlab cfg.pps true).map (writeSideMeta .indexerK
          fun pm => describeIndexer seq tokenPos layer (pm.claim (.side .indexerK))) =
          some (r.1, some sid) := hclaim.trans (by rw [← hsid])
      obtain ⟨helastic, hsingle⟩ := hcase.resolve_right fun hempty => by
        simp [kvClaimSideSlab, hempty, writeSideMeta] at hclaim'
      have hranks_nodup := (nodup_append.1 hnodup).2.1
      refine ih _ (by simpa using hnodup) ?_ ?_ ?_ hr
      · intro g' hg'
        have hne : g' ≠ g := fun heq => (nodup_cons.1 hranks_nodup).1 (heq ▸ hg')
        rw [update_of_ne hne]
        exact hranks g' (mem_cons_of_mem _ hg')
      · intro nh hmem
        rcases mem_append.1 hmem with hmem | hmem
        · have hne : nh.gpuIdx ≠ g := fun heq => hg (heq ▸ mem_map_of_mem hmem)
          rw [update_of_ne hne]
          exact hclaimed nh hmem
        · obtain rfl := mem_singleton.1 hmem
          refine ⟨rfl, ?_⟩
          rw [update_self, ← hsame g hg]
          exact ⟨hinv, helastic, hsingle, hclaim'⟩
      · intro g' hg'
        rw [map_append, mem_append, not_or] at hg'
        rw [update_of_ne fun heq => hg'.2 (mem_singleton.2 heq)]
        exact hsame g' hg'.1

/-! ### After every run -/

namespace AllocInv

variable (h : AllocInv cfg gpus)
include h

theorem side_refused {s : Side} {F : PageMeta → PageMeta} {r : Gpus × Option PageHandle}
    (hr : (cfg.allocOn gpus g (.side s) fun gpu => (gpu.allocateSide cfg.pps s).map
      (writeSideMeta s F)) = some r) (hF : ∀ pm, (F pm).refcount = pm.refcount)
    (hnone : r.2 = none) : r.1 = gpus := by
  obtain ⟨hg, r', hr', rfl⟩ := allocOn_some hr
  obtain ⟨r₀, hr₀, hspec⟩ := (h.inv g hg).allocateSide s
  rw [hr₀] at hr'
  cases hr'
  simp only [(hspec.write hF).refused (map_eq_none_iff.1 hnone), update_eq_self]

theorem cowCopy_refused {hd : PageHandle} {dstSeq : ℕ}
    (hr : cfg.cowCopy gpus hd dstSeq = some (gpus', none)) : gpus' = gpus := by
  unfold Config.cowCopy at hr
  split at hr
  · rename_i s hpool
    exact (h.cowCopySide hpool hr).2 rfl
  split at hr
  · rename_i hlive
    split at hr
    · cases hr
    split at hr
    · rename_i hmirrored
      rcases Config.cowCopyReplicated_cases (cfg.dcp.ranks_ne_nil hmirrored.2) hr with heq |
        ⟨_, _, _, _, _, _, _, _, heq, _⟩
      · exact (Prod.mk.inj heq).1
      · cases heq
    · rename_i hlocal
      exact (h.cowCopyLocal hlive hlocal hr).2 rfl
  · cases hr

theorem allocateKdaState_refused {seq : ℕ} (hr : cfg.allocateKdaState gpus g seq = some (gpus', []))
    (g' : ℕ) :
    SameState (gpus g') (gpus' g') := by
  unfold Config.allocateKdaState at hr
  split at hr
  · split at hr
    · obtain ⟨r, hr', heq⟩ := map_eq_some_iff.1 hr
      obtain ⟨rfl, hnone⟩ := Prod.mk.inj heq
      have hsame := GpuPool.claimKdaRuns_refused hr' (map_eq_nil_iff.1 hnone)
      by_cases hg : g' = g
      · subst hg
        rwa [Function.update_self]
      · rw [Function.update_of_ne hg]
        exact SameState.refl _
    · cases hr
  · obtain ⟨r, hr', heq⟩ := map_eq_some_iff.1 hr
    obtain ⟨rfl, hnone⟩ := Prod.mk.inj heq
    rw [h.side_refused hr' (fun _ => rfl) (toList_eq_nil_iff.1 hnone)]
    exact SameState.refl _

theorem allocateIndexerKForDcp_refused {seq tokenPos layer : ℕ}
    (hr : cfg.allocateIndexerKForDcp gpus seq tokenPos layer = some (gpus', [])) (g : ℕ) :
    SameState (gpus g) (gpus' g) := by
  have hone : ∀ {g'}, cfg.allocateIndexerOn gpus g' seq tokenPos layer = some (gpus', []) →
      SameState (gpus g) (gpus' g) := by
    intro g' hr
    obtain ⟨r, hr', heq⟩ := map_eq_some_iff.1 hr
    obtain ⟨rfl, hnone⟩ := Prod.mk.inj heq
    rw [h.side_refused hr' (fun _ => rfl) (toList_eq_nil_iff.1 hnone)]
    exact SameState.refl _
  unfold Config.allocateIndexerKForDcp at hr
  split at hr
  · exact hone hr
  split at hr
  · obtain ⟨g', _, hr⟩ := bind_eq_some_iff.1 hr
    exact hone hr
  split at hr
  · cases hr
  rename_i c mirrors hranks
  simp only at hr
  split at hr
  · rename_i helastic
    refine Config.claimIndexerSlabs_refused _ [] (hranks ▸ cfg.dcp.nodup) ?_
      (fun _ hmem => absurd hmem not_mem_nil) (fun _ _ => rfl) hr g
    intro g hg
    have hg' := cfg.ranks g (hranks ▸ hg)
    exact ⟨h.inv g hg', h.indexerSlabs helastic hg'⟩
  split at hr
  · obtain ⟨rfl, -⟩ := Prod.mk.inj (some.inj hr)
    exact SameState.refl _
  · obtain ⟨_, _, heq⟩ := map_eq_some_iff.1 hr
    rw [hranks] at heq
    cases (Prod.mk.inj heq).2

end AllocInv

/-- **Calls that fail leave the state of every GPU as it was.** -/
structure FailuresAtomic (cfg : Config) (gpus : Gpus) : Prop where
  /-- `cow_copy` throws because the pool is exhausted. -/
  cowCopy : ∀ hd dstSeq gpus', cfg.cowCopy gpus hd dstSeq = some (gpus', none) →
    ∀ g, SameState (gpus g) (gpus' g)
  kdaState : ∀ g' seq gpus', cfg.allocateKdaState gpus g' seq = some (gpus', []) →
    ∀ g, SameState (gpus g) (gpus' g)
  /-- Both calls of the expert cache touch one GPU only. -/
  zone : ∀ g n extraReserve gpu',
    (gpus g).claimExpertZone cfg.pps n extraReserve = some (gpu', none) → SameState (gpus g) gpu'
  zoneAt : ∀ g start n extraReserve gpu',
    (gpus g).claimExpertZoneAt cfg.pps start n extraReserve = some (gpu', false) →
      SameState (gpus g) gpu'
  indexer : ∀ seq tokenPos layer gpus',
    cfg.allocateIndexerKForDcp gpus seq tokenPos layer = some (gpus', []) →
      ∀ g, SameState (gpus g) (gpus' g)
  replicated : ∀ seq tokenStart layer pool unreserved gpus',
    cfg.allocateReplicated gpus seq tokenStart layer pool unreserved = some (gpus', none) →
      ∀ g, SameState (gpus g) (gpus' g)

/-- **After every run, a call that fails changes nothing but statistics.** -/
theorem failures_atomic (hinit : Paging.init cfg.layout = some gpus) {as : List Action}
    (hrun : Run cfg.step gpus as gpus') : FailuresAtomic cfg gpus' := by
  have h := AllocInv.of_run hinit hrun
  refine ⟨?_, fun _ _ _ => h.allocateKdaState_refused, ?_, ?_,
    fun _ _ _ _ => h.allocateIndexerKForDcp_refused, ?_⟩
  · intro hd dstSeq gpus₁ hr g
    rw [h.cowCopy_refused hr]
    exact SameState.refl _
  · exact fun _ _ _ _ hr => claimExpertZone_refused hr rfl
  · exact fun _ _ _ _ _ hr => claimExpertZoneAt_refused hr rfl
  · intro seq tokenStart layer pool unreserved gpus₁ hr g
    rcases (allocateReplicated_cases hr).2.2 with heq | ⟨_, _, _, _, heq, _⟩
    · rw [(Prod.mk.inj heq).1]
      exact SameState.refl _
    · cases heq

/-- Two ranks that keep a copy of the indexer each. -/
def copiedIndexerConfig : Config where
  layout := { smallLayout with gpuCount := 2 }
  dcp := { twoRankConfig.dcp with indexerKSharded := false }
  ranks := twoGpus_inLayout

/-- The second rank has lent its slabs, so the slab the first one has claimed for an indexer page
goes back. -/
theorem failures_atomic_small : ∃ gpus gpus',
    Run copiedIndexerConfig.step copiedIndexerConfig.layout.initGpu
      [.allocateSide 1 .indexerK, .allocateForSequence 1 .main 7 0 0 1 false] gpus ∧
    copiedIndexerConfig.allocateIndexerKForDcp gpus 7 0 0 = some (gpus', []) ∧
    (gpus 0).kvFreeSlabs.length = 2 ∧ ∀ g, SameState (gpus g) (gpus' g) := by
  have hsome : ([.allocateSide 1 .indexerK, .allocateForSequence 1 .main 7 0 0 1 false].foldlM
      copiedIndexerConfig.step copiedIndexerConfig.layout.initGpu).any (fun gpus =>
        (gpus 0).kvFreeSlabs.length = 2 ∧
        (copiedIndexerConfig.allocateIndexerKForDcp gpus 7 0 0).any (fun r => r.2 = [])) = true := by
    decide
  obtain ⟨gpus, hgpus, hstate⟩ := (any_eq_true _ _).1 hsome
  obtain ⟨hfree, hfails⟩ := of_decide_eq_true hstate
  obtain ⟨⟨gpus', hd⟩, hr, hnone⟩ := (any_eq_true _ _).1 hfails
  obtain rfl : hd = [] := of_decide_eq_true hnone
  have hrun := Run.of_foldlM hgpus
  exact ⟨gpus, gpus', hrun, hr, hfree,
    (failures_atomic (if_pos (by decide)) hrun).indexer 7 0 0 gpus' hr⟩

end LayerStorm.Paging

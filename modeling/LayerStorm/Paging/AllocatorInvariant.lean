import LayerStorm.Lib.Run
import LayerStorm.Paging.PageAllocator
import LayerStorm.Paging.SideInvariant

/-!
# Calls of the page allocator keep the invariant

The invariant of every GPU, and that replicated pages are alike on all ranks, is kept by
every call of the allocator; and what a call hands out was free before it.
-/

namespace LayerStorm.Paging

open Lib
open Function GpuPool Config List Option Nat

/-! ### The invariant -/

/-- **The invariant over all GPUs.** -/
structure AllocInv (cfg : Config) (gpus : Gpus) : Prop where
  inv : ∀ g < cfg.layout.gpuCount, GpuInv cfg.pps (gpus g)
  shape : ∀ g, SameShape (cfg.layout.initGpu g) (gpus g)
  onRanks : ∀ g i, ((gpus g).pages i).replicated = true → g ∈ cfg.dcp.tpGpuIndices ∧ cfg.dcp.Enabled
  alike : ∀ g ∈ cfg.dcp.tpGpuIndices, ∀ g' ∈ cfg.dcp.tpGpuIndices, ∀ i,
    ((gpus g).pages i).replicated = true → ((gpus g').pages i).replicated = true ∧
      ((gpus g').pages i).refcount = ((gpus g).pages i).refcount ∧
      ((gpus g').pages i).pool = ((gpus g).pages i).pool

def HandleLive (gpus : Gpus) (h : PageHandle) : Prop :=
  match h.pool with
  | .side s => 0 < (((gpus h.gpuIdx).side s).pages h.pageIdx).refcount
  | _ => (gpus h.gpuIdx).Live h.pageIdx

theorem handleLive_iff {gpus : Gpus} {g idx : ℕ} {pool : Pool} (hside : ∀ s, pool ≠ .side s) :
    HandleLive gpus ⟨g, idx, pool⟩ ↔ (gpus g).Live idx := by
  cases pool with
  | main | speculation => rfl
  | side s => exact absurd rfl (hside s)

/-- **What a call does**: it keeps the invariant and hands out pages that were free. -/
structure Handed (cfg : Config) (gpus : Gpus) (r : Gpus × List PageHandle) : Prop where
  inv : AllocInv cfg r.1
  fresh : ∀ nh ∈ r.2, ¬ HandleLive gpus nh

/-- **What a call on side pools or whole slabs does to the sequences**, on any GPU: nothing. -/
def SideMove (gpus gpus' : Gpus) : Prop := ∀ g, SideStep (gpus g) (gpus' g)

theorem SideMove.refl (gpus : Gpus) : SideMove gpus gpus := fun _ => SideStep.refl _

theorem SideMove.trans {gpus gpus' gpus'' : Gpus} (h : SideMove gpus gpus')
    (h' : SideMove gpus' gpus'') : SideMove gpus gpus'' := fun g => (h g).trans (h' g)

theorem SideMove.update {gpus : Gpus} {g : ℕ} {gpu' : GpuPool} (h : SideStep (gpus g) gpu') :
    SideMove gpus (update gpus g gpu') := by
  intro g'
  by_cases heq : g' = g
  · subst heq
    rw [update_self]
    exact h
  · rw [update_of_ne heq]
    exact SideStep.refl _

variable {cfg : Config} {gpus gpus' : Gpus} {g idx : ℕ} {gpu' : GpuPool}

namespace AllocInv

variable (h : AllocInv cfg gpus)
include h

theorem page (hg : g < cfg.layout.gpuCount) (hinv : GpuInv cfg.pps gpu')
    (hstep : PageStep idx (gpus g) gpu') (hold : ((gpus g).pages idx).replicated = false)
    (hnew : (gpu'.pages idx).replicated = false) :
    AllocInv cfg (update gpus g gpu') := by
  have hsame : ∀ g' i, (update gpus g gpu' g').pages i = (gpus g').pages i ∨
      (g' = g ∧ i = idx) := by
    intro g' i
    by_cases hg' : g' = g
    · subst hg'
      by_cases hi : i = idx
      · exact .inr ⟨rfl, hi⟩
      · rw [update_self]
        exact .inl (hstep.others i hi)
    · rw [update_of_ne hg']
      exact .inl rfl
  have hrep : ∀ g' i, ((update gpus g gpu' g').pages i).replicated = true →
      (update gpus g gpu' g').pages i = (gpus g').pages i := by
    intro g' i hr
    rcases hsame g' i with heq | ⟨rfl, rfl⟩
    · exact heq
    · rw [update_self, hnew] at hr
      cases hr
  refine ⟨?_, ?_, ?_, ?_⟩
  · intro g' hg'
    by_cases heq : g' = g
    · subst heq
      rw [update_self]
      exact hinv
    · rw [update_of_ne heq]
      exact h.inv g' hg'
  · intro g'
    by_cases heq : g' = g
    · subst heq
      rw [update_self]
      exact (h.shape g').trans hstep.sameShape
    · rw [update_of_ne heq]
      exact h.shape g'
  · intro g' i hr
    have hr' := hr
    rw [hrep g' i hr] at hr'
    exact h.onRanks g' i hr'
  · intro g₁ hg₁ g₂ hg₂ i hr
    have heq := hrep g₁ i hr
    rw [heq] at hr ⊢
    obtain ⟨hr₂, hcount, hpool⟩ := h.alike g₁ hg₁ g₂ hg₂ i hr
    rcases hsame g₂ i with heq₂ | ⟨rfl, rfl⟩
    · rw [heq₂]
      exact ⟨hr₂, hcount, hpool⟩
    · rw [hold] at hr₂
      cases hr₂

theorem sameRecords (hinv : ∀ g < cfg.layout.gpuCount, GpuInv cfg.pps (gpus' g))
    (hshape : ∀ g, SameShape (gpus g) (gpus' g))
    (hrec : ∀ g i, ((gpus' g).pages i).replicated = ((gpus g).pages i).replicated ∧
      ((gpus' g).pages i).refcount = ((gpus g).pages i).refcount ∧
      ((gpus' g).pages i).pool = ((gpus g).pages i).pool) : AllocInv cfg gpus' := by
  refine ⟨hinv, fun g => (h.shape g).trans (hshape g), ?_, ?_⟩
  · intro g i hr
    rw [(hrec g i).1] at hr
    exact h.onRanks g i hr
  · intro g hg g' hg' i hr
    rw [(hrec g i).1] at hr
    rw [(hrec g' i).1, (hrec g' i).2.1, (hrec g' i).2.2, (hrec g i).2.1, (hrec g i).2.2]
    exact h.alike g hg g' hg' i hr

theorem sameRecordsOn (hinv : GpuInv cfg.pps gpu') (hshape : SameShape (gpus g) gpu')
    (hrec : ∀ i, (gpu'.pages i).replicated = ((gpus g).pages i).replicated ∧
      (gpu'.pages i).refcount = ((gpus g).pages i).refcount ∧
      (gpu'.pages i).pool = ((gpus g).pages i).pool) :
    AllocInv cfg (update gpus g gpu') := by
  refine h.sameRecords ?_ ?_ ?_
  all_goals
    intro g'
    by_cases heq : g' = g
    · subst heq
      rw [update_self]
      first | exact fun _ => hinv | exact hshape | exact hrec
    · rw [update_of_ne heq]
      first | exact h.inv g' | exact SameShape.refl _ | exact fun _ => ⟨rfl, rfl, rfl⟩

theorem side (hinv : GpuInv cfg.pps gpu') (hstep : SideStep (gpus g) gpu') :
    AllocInv cfg (update gpus g gpu') := by
  refine h.sameRecordsOn hinv hstep.toSameShape ?_
  intro i
  rw [hstep.pages]
  exact ⟨rfl, rfl, rfl⟩

theorem sideMove (hmove : SideMove gpus gpus')
    (hinv : ∀ g < cfg.layout.gpuCount, GpuInv cfg.pps (gpus' g)) : AllocInv cfg gpus' := by
  refine h.sameRecords hinv (fun g => (hmove g).toSameShape) ?_
  intro g i
  rw [(hmove g).pages]
  exact ⟨rfl, rfl, rfl⟩

theorem ranks (idx : ℕ) (henabled : cfg.dcp.Enabled)
    (hin : ∀ g ∈ cfg.dcp.tpGpuIndices, GpuInv cfg.pps (gpus' g) ∧ PageStep idx (gpus g) (gpus' g))
    (hout : ∀ g, g ∉ cfg.dcp.tpGpuIndices → gpus' g = gpus g)
    (halike : ∀ g ∈ cfg.dcp.tpGpuIndices, ∀ g' ∈ cfg.dcp.tpGpuIndices,
      ((gpus' g).pages idx).replicated = true → ((gpus' g').pages idx).replicated = true ∧
        ((gpus' g').pages idx).refcount = ((gpus' g).pages idx).refcount ∧
        ((gpus' g').pages idx).pool = ((gpus' g).pages idx).pool) : AllocInv cfg gpus' := by
  refine ⟨?_, ?_, ?_, ?_⟩
  · intro g hg
    by_cases hmem : g ∈ cfg.dcp.tpGpuIndices
    · exact (hin g hmem).1
    · rw [hout g hmem]
      exact h.inv g hg
  · intro g
    by_cases hmem : g ∈ cfg.dcp.tpGpuIndices
    · exact (h.shape g).trans (hin g hmem).2.sameShape
    · rw [hout g hmem]
      exact h.shape g
  · intro g i hr
    by_cases hmem : g ∈ cfg.dcp.tpGpuIndices
    · exact ⟨hmem, henabled⟩
    · rw [hout g hmem] at hr
      exact h.onRanks g i hr
  · intro g hg g' hg' i hr
    by_cases hi : i = idx
    · subst hi
      exact halike g hg g' hg' hr
    · rw [(hin g hg).2.others i hi] at hr ⊢
      rw [(hin g' hg').2.others i hi]
      exact h.alike g hg g' hg' i hr

theorem ranksRewrite (henabled : cfg.dcp.Enabled) {F : PageMeta → PageMeta}
    (hin : ∀ g ∈ cfg.dcp.tpGpuIndices, GpuInv cfg.pps (gpus' g) ∧ PageStep idx (gpus g) (gpus' g) ∧
      (gpus' g).pages idx = F ((gpus g).pages idx))
    (hout : ∀ g, g ∉ cfg.dcp.tpGpuIndices → gpus' g = gpus g)
    (hrep : ∀ pm, (F pm).replicated = true → pm.replicated = true)
    (hsame : ∀ pm pm' : PageMeta, pm'.replicated = pm.replicated → pm'.refcount = pm.refcount →
      pm'.pool = pm.pool → (F pm').replicated = (F pm).replicated ∧
        (F pm').refcount = (F pm).refcount ∧ (F pm').pool = (F pm).pool) :
    AllocInv cfg gpus' := by
  refine h.ranks idx henabled (fun g hg => ⟨(hin g hg).1, (hin g hg).2.1⟩) hout ?_
  intro g hg g' hg' hr
  rw [(hin g hg).2.2] at hr ⊢
  rw [(hin g' hg').2.2]
  have hold := hrep _ hr
  obtain ⟨hr', hcount, hpool⟩ := h.alike g hg g' hg' idx hold
  obtain ⟨hrF, hcountF, hpoolF⟩ := hsame _ _ (hr'.trans hold.symm) hcount hpool
  exact ⟨hrF.trans hr, hcountF, hpoolF⟩

end AllocInv

/-! ### Operations on one GPU and on all ranks -/

section Operations

variable {f : GpuPool → Option GpuPool}

theorem Config.onGpu_some (h : cfg.onGpu gpus g f = some gpus') :
    g < cfg.layout.gpuCount ∧ ∃ gpu', f (gpus g) = some gpu' ∧ gpus' = update gpus g gpu' := by
  unfold onGpu at h
  split at h
  · rename_i hg
    obtain ⟨gpu', hgpu, heq⟩ := map_eq_some_iff.1 h
    exact ⟨hg, gpu', hgpu, heq.symm⟩
  · cases h

theorem Config.allocOn_some {pool : Pool} {f : GpuPool → Option (GpuPool × Option ℕ)}
    {r : Gpus × Option PageHandle} (h : cfg.allocOn gpus g pool f = some r) :
    g < cfg.layout.gpuCount ∧ ∃ r', f (gpus g) = some r' ∧
      r = (update gpus g r'.1, r'.2.map fun idx => ⟨g, idx, pool⟩) := by
  unfold allocOn at h
  split at h
  · rename_i hg
    obtain ⟨r', hr, heq⟩ := map_eq_some_iff.1 h
    exact ⟨hg, r', hr, heq.symm⟩
  · cases h

theorem Config.onRanks_some (h : cfg.onRanks gpus f = some gpus') :
    (∀ g ∈ cfg.dcp.tpGpuIndices, f (gpus g) = some (gpus' g)) ∧
      ∀ g, g ∉ cfg.dcp.tpGpuIndices → gpus' g = gpus g :=
  updateEach_some cfg.dcp.nodup h

end Operations

variable {gpu : GpuPool} {pps : ℕ}

theorem GpuPool.live_of_dropRef (h : gpu.dropRef pps idx = some gpu') : gpu.Live idx := by
  unfold dropRef at h
  simp only at h
  split at h
  · assumption
  · cases h

section

variable (h : GpuInv pps gpu)
include h

theorem GpuInv.of_dropRef (hdrop : gpu.dropRef pps idx = some gpu') :
    GpuInv pps gpu' ∧ PageStep idx gpu gpu' ∧ gpu'.pages idx = (gpu.pages idx).dropped := by
  obtain ⟨gpu'', hgpu, hspec⟩ := h.dropRef (live_of_dropRef hdrop)
  obtain rfl := some.inj (hdrop.symm.trans hgpu)
  exact hspec

theorem GpuInv.of_sideDropRef {s : Side} (hdrop : gpu.sideDropRef pps s idx = some gpu') :
    GpuInv pps gpu' ∧ SideStep gpu gpu' := by
  have hcond : idx < (gpu.side s).total ∧ 0 < ((gpu.side s).pages idx).refcount := by
    have hdrop' := hdrop
    unfold GpuPool.sideDropRef at hdrop'
    simp only at hdrop'
    split at hdrop'
    · assumption
    · cases hdrop'
  obtain ⟨gpu'', hgpu, hspec⟩ := h.sideDropRef hcond.1 hcond.2
  obtain rfl := some.inj (hdrop.symm.trans hgpu)
  exact hspec

theorem GpuInv.flipPool (hflip : Config.flipPool gpu idx = some gpu') :
    gpu' = gpu.setMeta idx { gpu.pages idx with pool := .main } ∧ GpuInv pps gpu' := by
  unfold Config.flipPool at hflip
  split at hflip
  · cases hflip
    refine ⟨rfl, h.rewrite Iff.rfl (fun _ _ => rfl) (h.idle idx) ?_⟩
    exact fun _ heq => nomatch heq
  · cases hflip

theorem GpuInv.countRef (hlive : gpu.Live idx) : GpuInv pps (countRef gpu idx) := by
  refine h.rewrite (iff_of_true (succ_pos _) hlive) ?_ (h.idle idx) (h.notSide idx)
  exact fun hl hlt => h.mainPool idx hl hlt

end

namespace AllocInv

/-! ### Giving up references -/

theorem not_replicated (h : AllocInv cfg gpus)
    (hnot : ¬ (((gpus g).pages idx).replicated = true ∧ cfg.dcp.Enabled)) :
    ((gpus g).pages idx).replicated = false := by
  by_contra hr
  rw [Bool.not_eq_false] at hr
  exact hnot ⟨hr, (h.onRanks g idx hr).2⟩

theorem dropRanks (h : AllocInv cfg gpus) (henabled : cfg.dcp.Enabled)
    (hdrop : (cfg.onRanks gpus fun gpu => gpu.dropRef cfg.pps idx) = some gpus') :
    AllocInv cfg gpus' := by
  obtain ⟨hin, hout⟩ := onRanks_some hdrop
  refine h.ranksRewrite henabled (F := PageMeta.dropped)
    (fun g hg => (h.inv g (cfg.ranks g hg)).of_dropRef (hin g hg)) hout ?_ ?_
  · intro pm hr
    rw [PageMeta.dropped_replicated, Bool.and_eq_true] at hr
    exact hr.1
  · intro pm pm' hr hcount hpool
    simp only [PageMeta.dropped_replicated, PageMeta.dropped_refcount, PageMeta.dropped_pool, hr,
      hcount, hpool, and_self]

theorem dropLocal (h : AllocInv cfg gpus) (hg : g < cfg.layout.gpuCount)
    (hrep : ((gpus g).pages idx).replicated = false)
    (hdrop : (gpus g).dropRef cfg.pps idx = some gpu') :
    AllocInv cfg (update gpus g gpu') := by
  obtain ⟨hinv, hstep, hrec⟩ := (h.inv g hg).of_dropRef hdrop
  refine h.page hg hinv hstep hrep ?_
  rw [hrec, PageMeta.dropped_replicated, hrep, Bool.false_and]

variable {hd : PageHandle} {s : Side}

theorem freeSide (h : AllocInv cfg gpus) (hpool : hd.pool = .side s)
    (hfree : cfg.free gpus hd = some gpus') : AllocInv cfg gpus' ∧ SideMove gpus gpus' := by
  unfold free at hfree
  rw [hpool] at hfree
  obtain ⟨hg, gpu', hgpu, rfl⟩ := onGpu_some hfree
  obtain ⟨hinv, hstep⟩ := (h.inv _ hg).of_sideDropRef hgpu
  exact ⟨h.side hinv hstep, SideMove.update hstep⟩

theorem free (h : AllocInv cfg gpus) (hfree : cfg.free gpus hd = some gpus') :
    AllocInv cfg gpus' := by
  have hpage : (if cfg.LivePage gpus hd then
      if cfg.Mirrored gpus hd then cfg.onRanks gpus fun gpu => gpu.dropRef cfg.pps hd.pageIdx
      else cfg.onGpu gpus hd.gpuIdx fun gpu => gpu.dropRef cfg.pps hd.pageIdx
      else none) = some gpus' → AllocInv cfg gpus' := by
    intro hfree
    split at hfree
    · split at hfree
      · rename_i hmirrored
        exact h.dropRanks hmirrored.2 hfree
      · rename_i hlocal
        obtain ⟨hg, gpu', hgpu, rfl⟩ := Config.onGpu_some hfree
        exact h.dropLocal hg (h.not_replicated hlocal) hgpu
    · cases hfree
  cases hpool : hd.pool with
  | side s => exact (h.freeSide hpool hfree).1
  | main | speculation =>
    unfold Config.free at hfree
    rw [hpool] at hfree
    exact hpage hfree

variable {seq : ℕ}

theorem freeSequence (h : AllocInv cfg gpus) (hfree : cfg.freeSequence gpus g seq = some gpus') :
    AllocInv cfg gpus' := by
  unfold Config.freeSequence at hfree
  split at hfree
  · rename_i hg
    obtain ⟨gpus₁, hpages, hsides⟩ := bind_eq_some_iff.1 hfree
    have h₁ : AllocInv cfg gpus₁ := by
      refine foldlM_invariant (P := AllocInv cfg) _ ?_ hpages h
      intro gpus i gpus' _ h hstep
      unfold Config.freeSequencePage at hstep
      simp only at hstep
      split at hstep
      · split at hstep
        · rename_i hrep
          split at hstep
          · exact h.dropRanks hrep.2 hstep
          · cases hstep
            exact h
        · rename_i hlocal
          obtain ⟨_, gpu', hgpu, rfl⟩ := Config.onGpu_some hstep
          exact h.dropLocal hg (h.not_replicated hlocal) hgpu
      · cases hstep
        exact h
    refine foldlM_invariant (P := AllocInv cfg) _ ?_ hsides h₁
    intro gpus si gpus' _ h hstep
    unfold Config.freeSequenceSide at hstep
    simp only at hstep
    split at hstep
    · obtain ⟨_, gpu', hgpu, rfl⟩ := Config.onGpu_some hstep
      obtain ⟨hinv, hside⟩ := (h.inv g hg).of_sideDropRef hgpu
      exact h.side hinv hside
    · cases hstep
      exact h
  · cases hfree

/-! ### Records -/

theorem setLocal (h : AllocInv cfg gpus) (hg : g < cfg.layout.gpuCount) {pm : PageMeta}
    (hinv : GpuInv cfg.pps ((gpus g).setMeta idx pm))
    (hold : ((gpus g).pages idx).replicated = false) (hnew : pm.replicated = false) :
    AllocInv cfg (update gpus g ((gpus g).setMeta idx pm)) := by
  have hself : ((gpus g).setMeta idx pm).pages idx = pm := update_self ..
  refine h.page hg hinv ⟨fun i hi => update_of_ne hi .., rfl, rfl, rfl, rfl⟩ hold ?_
  rw [hself]
  exact hnew

variable {F : PageMeta → PageMeta}

section

variable (h : AllocInv cfg gpus)
include h

theorem setRanks (idx : ℕ) (henabled : cfg.dcp.Enabled)
    (hin : ∀ g ∈ cfg.dcp.tpGpuIndices, gpus' g = (gpus g).setMeta idx (F ((gpus g).pages idx)) ∧
      GpuInv cfg.pps (gpus' g)) (hout : ∀ g, g ∉ cfg.dcp.tpGpuIndices → gpus' g = gpus g)
    (hrep : ∀ pm, (F pm).replicated = true → pm.replicated = true)
    (hsame : ∀ pm pm' : PageMeta, pm'.replicated = pm.replicated → pm'.refcount = pm.refcount →
      pm'.pool = pm.pool → (F pm').replicated = (F pm).replicated ∧
        (F pm').refcount = (F pm).refcount ∧ (F pm').pool = (F pm).pool) :
    AllocInv cfg gpus' := by
  have hstep : ∀ g ∈ cfg.dcp.tpGpuIndices, PageStep idx (gpus g) (gpus' g) ∧
      (gpus' g).pages idx = F ((gpus g).pages idx) := by
    intro g hg
    rw [(hin g hg).1]
    exact ⟨⟨fun i hi => update_of_ne hi .., rfl, rfl, rfl, rfl⟩, update_self ..⟩
  exact h.ranksRewrite henabled (fun g hg => ⟨(hin g hg).2, hstep g hg⟩) hout hrep hsame

theorem promote (hpromote : cfg.promote gpus hd = some gpus') : AllocInv cfg gpus' := by
  unfold Config.promote at hpromote
  split at hpromote
  · cases hpromote
  split at hpromote
  · split at hpromote
    · rename_i hmirrored
      obtain ⟨hin, hout⟩ := Config.onRanks_some hpromote
      refine h.setRanks hd.pageIdx hmirrored.2 (F := fun pm => { pm with pool := .main })
        (fun g hg => (h.inv g (cfg.ranks g hg)).flipPool (hin g hg)) hout (fun _ hr => hr) ?_
      exact fun _ _ hr hcount _ => ⟨hr, hcount, rfl⟩
    · rename_i hlocal
      obtain ⟨hg, gpu', hgpu, rfl⟩ := Config.onGpu_some hpromote
      obtain ⟨rfl, hinv⟩ := (h.inv _ hg).flipPool hgpu
      exact h.setLocal hg hinv (h.not_replicated hlocal) (h.not_replicated hlocal)
  · cases hpromote

theorem addRef (hadd : cfg.addRef gpus hd = some gpus') : AllocInv cfg gpus' := by
  unfold Config.addRef at hadd
  split at hadd
  · rename_i s _
    obtain ⟨hg, gpu', hgpu, rfl⟩ := Config.onGpu_some hadd
    simp only at hgpu
    split at hgpu
    · rename_i hcond
      cases hgpu
      obtain ⟨hinv, hstep⟩ := (h.inv _ hg).rewriteSide
        { ((gpus hd.gpuIdx).side s).pages hd.pageIdx with
          refcount := (((gpus hd.gpuIdx).side s).pages hd.pageIdx).refcount + 1 }
        hcond.1 (iff_of_false (succ_ne_zero _) (ne_of_gt hcond.2))
      exact h.side hinv hstep
    · cases hgpu
  split at hadd
  · rename_i hlive
    split at hadd
    · rename_i hmirrored
      obtain ⟨hin, hout⟩ := Config.onRanks_some hadd
      refine h.setRanks hd.pageIdx hmirrored.2
        (F := fun pm => { pm with refcount := pm.refcount + 1 }) ?_ hout (fun _ hr => hr) ?_
      · intro g hg
        obtain ⟨_, hcount, _⟩ := h.alike _ (h.onRanks _ _ hmirrored.1).1 g hg _ hmirrored.1
        have hlive' : (gpus g).Live hd.pageIdx := by
          unfold GpuPool.Live
          rw [hcount]
          exact hlive.2.2
        rw [← some.inj (hin g hg)]
        exact ⟨rfl, (h.inv g (cfg.ranks g hg)).countRef hlive'⟩
      · intro pm pm' hr hcount hpool
        exact ⟨hr, congrArg (· + 1) hcount, hpool⟩
    · rename_i hlocal
      obtain ⟨hg, gpu', hgpu, rfl⟩ := Config.onGpu_some hadd
      cases hgpu
      exact h.setLocal hg ((h.inv _ hg).countRef hlive.2.2) (h.not_replicated hlocal)
        (h.not_replicated hlocal)
  · cases hadd

theorem describe {layer tokenStart tokenEnd : ℕ}
    (hdesc : cfg.describe gpus hd seq layer tokenStart tokenEnd = some gpus') :
    AllocInv cfg gpus' := by
  unfold Config.describe at hdesc
  split at hdesc
  · rename_i s _
    obtain ⟨hg, gpu', hgpu, rfl⟩ := Config.onGpu_some hdesc
    split at hgpu
    · rename_i hidx
      cases hgpu
      obtain ⟨hinv, hstep⟩ := (h.inv _ hg).rewriteSide
        ((((gpus hd.gpuIdx).side s).pages hd.pageIdx).describe seq layer tokenStart tokenEnd)
        hidx Iff.rfl
      exact h.side hinv hstep
    · cases hgpu
  · obtain ⟨hg, gpu', hgpu, rfl⟩ := Config.onGpu_some hdesc
    split at hgpu
    · cases hgpu
      have hinv := h.inv _ hg
      refine h.sameRecordsOn ?_ ⟨rfl, rfl, rfl, fun _ => rfl, fun _ => rfl, fun _ => rfl⟩ ?_
      · exact hinv.rewrite Iff.rfl (hinv.mainPool hd.pageIdx) (hinv.idle hd.pageIdx)
          (hinv.notSide hd.pageIdx)
      · intro i
        by_cases hi : i = hd.pageIdx
        · subst hi
          simp [GpuPool.setMeta, PageMeta.describe]
        · simp [GpuPool.setMeta, hi]
    · cases hgpu

/-! ### Allocation on one GPU -/

theorem nothing : Handed cfg gpus (gpus, []) :=
  ⟨h, fun _ hmem => absurd hmem not_mem_nil⟩

end

variable {pool : Pool}

theorem allocated (h : AllocInv cfg gpus) (hg : g < cfg.layout.gpuCount) {r : GpuPool × Option ℕ}
    (hr : Allocated cfg.pps (gpus g) r) (hside : ∀ s, pool ≠ .side s) :
    Handed cfg gpus (update gpus g r.1,
      (r.2.map fun idx => (⟨g, idx, pool⟩ : PageHandle)).toList) := by
  cases hidx : r.2 with
  | none =>
    rw [hr.refused hidx, update_eq_self]
    exact h.nothing
  | some idx =>
    obtain ⟨hnot, _⟩ := hr.fresh idx hidx
    refine ⟨?_, ?_⟩
    · exact h.page hg hr.inv (hr.step idx hidx) ((h.inv g hg).idle idx hnot) (hr.live idx hidx).2
    · intro nh hmem
      obtain rfl := mem_singleton.1 hmem
      rw [handleLive_iff hside]
      exact hnot

theorem sideAllocated (h : AllocInv cfg gpus) {r : GpuPool × Option ℕ}
    (hr : SideAllocated cfg.pps s (gpus g) r) :
    Handed cfg gpus (update gpus g r.1,
        (r.2.map fun idx => (⟨g, idx, .side s⟩ : PageHandle)).toList) ∧
      SideMove gpus (update gpus g r.1) := by
  refine ⟨⟨h.side hr.inv hr.step, ?_⟩, SideMove.update hr.step⟩
  intro nh hmem
  rw [mem_toList, map_eq_some_iff] at hmem
  obtain ⟨idx, hidx, rfl⟩ := hmem
  exact not_lt.2 (hr.fresh idx hidx).1.le

variable {r : Gpus × Option PageHandle} {unreserved : Bool} (h : AllocInv cfg gpus)
include h

theorem allocatePage
    (hr : (cfg.allocOn gpus g pool fun gpu => gpu.allocatePage cfg.pps pool unreserved) = some r) :
    Handed cfg gpus (r.1, r.2.toList) := by
  obtain ⟨hg, r', hr', rfl⟩ := allocOn_some hr
  by_cases hside : ∃ s, pool = .side s
  · obtain ⟨s, rfl⟩ := hside
    obtain ⟨r'', hr'', hspec⟩ := (h.inv g hg).allocateSide s
    obtain rfl := some.inj (hr'.symm.trans hr'')
    exact (h.sideAllocated hspec).1
  · rw [not_exists] at hside
    obtain ⟨r'', hr'', hspec⟩ := (h.inv g hg).allocatePage hside unreserved
    obtain rfl := some.inj (hr'.symm.trans hr'')
    exact h.allocated hg hspec hside

theorem allocateForSequence {layer tokenStart tokenEnd : ℕ}
    (hr : (cfg.allocOn gpus g pool fun gpu => gpu.allocateForSequence cfg.pps pool seq layer
      tokenStart tokenEnd unreserved) = some r) : Handed cfg gpus (r.1, r.2.toList) := by
  obtain ⟨hg, r', hr', rfl⟩ := allocOn_some hr
  have hside : ∀ s, pool ≠ .side s := by
    rintro s rfl
    cases hr'
  obtain ⟨r'', hr'', hspec⟩ :=
    (h.inv g hg).allocateForSequence hside seq layer tokenStart tokenEnd unreserved
  obtain rfl := some.inj (hr'.symm.trans hr'')
  exact h.allocated hg hspec hside

theorem allocateSide (hr : (cfg.allocOn gpus g (.side s) fun gpu => (gpu.allocateSide cfg.pps s).map
      (writeSideMeta s F)) = some r) (hF : ∀ pm, (F pm).refcount = pm.refcount) :
    Handed cfg gpus (r.1, r.2.toList) ∧ SideMove gpus r.1 := by
  obtain ⟨hg, r', hr', rfl⟩ := allocOn_some hr
  obtain ⟨r'', hr'', hspec⟩ := (h.inv g hg).allocateSide s
  simp only [hr'', map_some, some.injEq] at hr'
  rw [← hr']
  exact h.sideAllocated (hspec.write hF)

theorem allocateKdaState (hok : ∀ g < cfg.layout.gpuCount, cfg.layout.GpuOk g)
    {r : Gpus × List PageHandle} (hr : cfg.allocateKdaState gpus g seq = some r) :
    Handed cfg gpus r ∧ SideMove gpus r.1 := by
  unfold Config.allocateKdaState at hr
  split at hr
  · rename_i hmapped
    split at hr
    · rename_i hg
      obtain ⟨r', hr', rfl⟩ := map_eq_some_iff.1 hr
      have hkda : (((gpus g).side .kdaState).elastic = true ∧
          ((gpus g).side .kdaState).runSlabs = cfg.layout.kdaUnitSlabs) ∨
          ((gpus g).side .kdaState).total = 0 := by
        rw [(h.shape g).elastic, (h.shape g).runSlabs, (h.shape g).total]
        obtain ⟨g', _, henabled, hwants, _⟩ := hmapped
        by_cases hon : cfg.layout.KdaMappedOn g
        · left
          simp [VramLayout.initGpu, hon, VramLayout.elasticSide]
        · right
          have hzero := (hok g hg).2.2.2.1 hon henabled hwants
          simp [VramLayout.initGpu, hon, VramLayout.fixedSide, hzero]
      obtain ⟨hinv, hstep, _, hfresh⟩ := (h.inv g hg).claimKdaRuns hkda hr'
      refine ⟨⟨h.side hinv hstep, ?_⟩, SideMove.update hstep⟩
      intro nh hmem
      obtain ⟨st, hst, rfl⟩ := mem_map.1 hmem
      exact not_lt.2 (hfresh st hst).1.le
    · cases hr
  · obtain ⟨r', hr', rfl⟩ := map_eq_some_iff.1 hr
    exact h.allocateSide hr' fun _ => rfl

end AllocInv

/-! ### Replicated allocation -/

variable {tokenStart : ℕ}

theorem PoolInv.takeable_of_some {live : ℕ → Prop} (h : PoolInv pps live gpu)
    (htake : gpu.kvTakeSpecific pps idx tokenStart = some gpu') : Takeable pps gpu idx := by
  unfold GpuPool.kvTakeSpecific at htake
  simp only at htake
  split at htake
  · rename_i hcond
    obtain ⟨_, hclaimed⟩ := hcond
    obtain ⟨t, ho⟩ := (h.table.tenancy.claimed_iff _).1 hclaimed
    have hpos := h.pps_pos (h.table.inRange t _ ho)
    have hidx : idx / pps * pps + idx % pps = idx := div_add_mod' idx pps
    split at htake
    · rename_i hhole
      have ht := h.takeable_hole hclaimed hhole
      rw [hidx] at ht
      exact ht
    · split at htake
      · rename_i hbump
        obtain ⟨seq, hrun⟩ := h.run_of_room hclaimed fun hst =>
          Nat.ne_of_lt (Nat.mod_lt idx hpos) (hbump.trans hst.bump)
        exact ⟨idx / pps, seq, idx % pps, hrun, hidx.symm, mod_lt idx hpos, .inr hbump⟩
      · cases htake
  · cases htake

/-- **What taking a page of the main pool does on one GPU.** -/
structure TakenOn (pps idx : ℕ) (gpu gpu' : GpuPool) : Prop where
  free : ¬ gpu.Live idx
  frame : KvFrame gpu gpu'
  pool : PoolInv pps (fun i => gpu.Live i ∨ i = idx) gpu'

theorem GpuInv.takenOn {gpu₁ : GpuPool} (hframe : KvFrame gpu gpu₁)
    (hpool : PoolInv pps gpu.Live gpu₁)
    (htake : gpu₁.kvTakeSpecific pps idx tokenStart = some gpu') : TakenOn pps idx gpu gpu' := by
  have ht := hpool.takeable_of_some htake
  obtain ⟨gpu'', hgpu, hpool', hframe'⟩ := hpool.kvTakeSpecific ht tokenStart
  obtain rfl := some.inj (htake.symm.trans hgpu)
  exact ⟨hpool.not_live ht, hframe.trans hframe', hpool'⟩

theorem GpuInv.takeLoose (h : GpuInv pps gpu) (htake : Config.takeLoose gpu idx = some gpu') :
    TakenOn pps idx gpu gpu' := by
  unfold Config.takeLoose at htake
  split at htake
  · rename_i hmem
    cases htake
    obtain ⟨hnot, hpool⟩ := h.pool.takeLoose (perm_cons_erase hmem)
    exact ⟨hnot, ⟨⟨rfl, rfl, rfl, rfl, rfl⟩, rfl, rfl⟩, hpool⟩
  · cases htake

/-- **What `kv_alloc_page_replicated` does on the ranks** to take a page: it takes the page out
of a slab, which may have been claimed for it just before, or it takes a loose page. -/
def Config.Takes (cfg : Config) (gpus : Gpus) (seq tokenStart : ℕ) (gpus' : Gpus) (idx : ℕ) :
    Prop :=
  (∃ gpus₁, (gpus₁ = gpus ∨ ∃ sid, (cfg.onRanks gpus fun gpu => gpu.kvClaimSlab sid seq) =
      some gpus₁) ∧
    (cfg.onRanks gpus₁ fun gpu => gpu.kvTakeSpecific cfg.pps idx tokenStart) = some gpus') ∨
  (cfg.onRanks gpus fun gpu => Config.takeLoose gpu idx) = some gpus'

variable {unreserved : Bool}

theorem Config.kvAllocPageReplicated_cases {seq : ℕ} {preferSlab : Option ℕ} {r : Gpus × Option ℕ}
    (hr : cfg.kvAllocPageReplicated gpus seq tokenStart unreserved preferSlab = some r) :
    r = (gpus, none) ∨ ∃ gpus' idx, r = (gpus', some idx) ∧
      cfg.Takes gpus seq tokenStart gpus' idx := by
  have htake : ∀ {gpus₁ : Gpus} {idx : ℕ},
      (gpus₁ = gpus ∨ ∃ sid, (cfg.onRanks gpus fun gpu => gpu.kvClaimSlab sid seq) = some gpus₁) →
      ((cfg.onRanks gpus₁ fun gpu => gpu.kvTakeSpecific cfg.pps idx tokenStart).map
        fun gpus => (gpus, some idx)) = some r →
      ∃ gpus' idx, r = (gpus', some idx) ∧ cfg.Takes gpus seq tokenStart gpus' idx := by
    intro gpus₁ idx hbefore htake
    obtain ⟨gpus', hgpus, rfl⟩ := map_eq_some_iff.1 htake
    exact ⟨gpus', idx, rfl, .inl ⟨gpus₁, hbefore, hgpus⟩⟩
  unfold kvAllocPageReplicated at hr
  simp only at hr
  split at hr
  · cases hr
  split at hr
  · exact .inl (some.inj hr).symm
  split at hr
  · exact .inr (htake (.inl rfl) hr)
  split at hr
  · rename_i sid _
    obtain ⟨gpus₁, hclaim, hr⟩ := bind_eq_some_iff.1 hr
    exact .inr (htake (.inr ⟨sid, hclaim⟩) hr)
  split at hr
  · rename_i loose _
    obtain ⟨gpus', hgpus, rfl⟩ := map_eq_some_iff.1 hr
    exact .inr ⟨gpus', loose, rfl, .inr hgpus⟩
  split at hr
  · exact .inr (htake (.inl rfl) hr)
  · exact .inl (some.inj hr).symm

/-- **How a page is replicated**: it is taken and its record written on every rank. -/
def Config.Replicates (cfg : Config) (gpus : Gpus) (run seq layer tokenStart tokenEnd : ℕ)
    (pool : Pool) (gpus' : Gpus) (idx : ℕ) : Prop :=
  (pool = .main ∧ ∃ gpus₁, cfg.Takes gpus run tokenStart gpus₁ idx ∧ (cfg.onRanks gpus₁ fun gpu =>
      some (Config.replicate pool seq layer tokenStart tokenEnd gpu idx)) = some gpus') ∨
  (cfg.onRanks gpus fun gpu => (Config.takeFree pool idx gpu).map fun gpu =>
    Config.replicate pool seq layer tokenStart tokenEnd gpu idx) = some gpus'

variable {r : Gpus × Option PageHandle}

theorem Config.allocateReplicated_cases {seq layer : ℕ} {pool : Pool}
    (hr : cfg.allocateReplicated gpus seq tokenStart layer pool unreserved = some r) :
    (∀ s, pool ≠ .side s) ∧ cfg.dcp.Enabled ∧ (r = (gpus, none) ∨
      ∃ gpus' idx, ∃ c ∈ cfg.dcp.tpGpuIndices, r = (gpus', some ⟨c, idx, pool⟩) ∧
        cfg.Replicates gpus seq seq layer tokenStart (tokenStart + cfg.dcp.pageSizeTokens) pool
          gpus' idx) := by
  have hside : ∀ s, pool ≠ .side s := by
    rintro s rfl
    cases hr
  unfold allocateReplicated at hr
  simp only at hr
  split at hr
  · cases hr
  · cases hr
  rename_i pool _ _ c mirrors _ hranks
  have hc : c ∈ cfg.dcp.tpGpuIndices := by
    rw [hranks]
    exact mem_cons_self
  split at hr
  · cases hr
  rename_i henabled
  refine ⟨hside, not_not.1 henabled, ?_⟩
  split at hr
  · rename_i hslabbed
    obtain ⟨r', hr', hr⟩ := bind_eq_some_iff.1 hr
    rcases kvAllocPageReplicated_cases hr' with rfl | ⟨gpus₁, idx, rfl, htakes⟩
    · exact .inl (some.inj hr).symm
    · obtain ⟨gpus', hgpus, rfl⟩ := map_eq_some_iff.1 hr
      exact .inr ⟨gpus', idx, c, hc, rfl, .inl ⟨hslabbed.1, gpus₁, htakes, hgpus⟩⟩
  generalize (if unreserved = true then (0 : ℤ) else (gpus c).reserved pool) = minFree at hr
  split at hr
  · exact .inl (some.inj hr).symm
  split at hr
  · exact .inl (some.inj hr).symm
  rename_i idx _
  obtain ⟨gpus', hgpus, rfl⟩ := map_eq_some_iff.1 hr
  exact .inr ⟨gpus', idx, c, hc, rfl, .inr hgpus⟩

theorem Config.cowCopyReplicated_cases {hd : PageHandle} {dstSeq : ℕ}
    (hranks : cfg.dcp.tpGpuIndices ≠ []) (hr : cfg.cowCopyReplicated gpus hd dstSeq = some r) :
    r = (gpus, none) ∨ ∃ gpus₁ gpus₂ gpus₃ idx run tokenEnd, ∃ c ∈ cfg.dcp.tpGpuIndices,
      r = (gpus₃, some ⟨c, idx, ((gpus hd.gpuIdx).pages hd.pageIdx).pool⟩) ∧
      cfg.Replicates gpus run ((gpus hd.gpuIdx).pages hd.pageIdx).sequenceId
        ((gpus hd.gpuIdx).pages hd.pageIdx).layerIndex
        ((gpus hd.gpuIdx).pages hd.pageIdx).tokenStart tokenEnd
        ((gpus hd.gpuIdx).pages hd.pageIdx).pool gpus₁ idx ∧
      (cfg.onRanks gpus₁ fun gpu => some (gpu.setMeta idx { gpu.pages idx with
        tokenEnd := ((gpus hd.gpuIdx).pages hd.pageIdx).tokenEnd })) = some gpus₂ ∧
      (cfg.onRanks gpus₂ fun gpu => gpu.dropRef cfg.pps hd.pageIdx) = some gpus₃ := by
  obtain ⟨r₁, hr₁, hr⟩ := bind_eq_some_iff.1 hr
  have hhead : cfg.dcp.tpGpuIndices.headD 0 ∈ cfg.dcp.tpGpuIndices := by
    obtain ⟨c, mirrors, hcons⟩ := exists_cons_of_ne_nil hranks
    rw [hcons]
    exact mem_cons_self
  have hcopied : r₁ = (gpus, none) ∨ ∃ gpus₁ idx run tokenEnd, ∃ c ∈ cfg.dcp.tpGpuIndices,
      r₁ = (gpus₁, some ⟨c, idx, ((gpus hd.gpuIdx).pages hd.pageIdx).pool⟩) ∧
      cfg.Replicates gpus run ((gpus hd.gpuIdx).pages hd.pageIdx).sequenceId
        ((gpus hd.gpuIdx).pages hd.pageIdx).layerIndex
        ((gpus hd.gpuIdx).pages hd.pageIdx).tokenStart tokenEnd
        ((gpus hd.gpuIdx).pages hd.pageIdx).pool gpus₁ idx := by
    split at hr₁
    · rename_i hslabbed
      obtain ⟨r₀, hr₀, hr₁⟩ := bind_eq_some_iff.1 hr₁
      rcases kvAllocPageReplicated_cases hr₀ with rfl | ⟨gpus₀, idx, rfl, htakes⟩
      · exact .inl (some.inj hr₁).symm
      · obtain ⟨gpus', hgpus, rfl⟩ := map_eq_some_iff.1 hr₁
        exact .inr ⟨gpus', idx, _, _, _, hhead, rfl, .inl ⟨hslabbed.1, gpus₀, htakes, hgpus⟩⟩
    · rcases (allocateReplicated_cases hr₁).2.2 with rfl | ⟨gpus', idx, c, hc, rfl, hrep⟩
      · exact .inl rfl
      · exact .inr ⟨gpus', idx, _, _, c, hc, rfl, hrep⟩
  rcases hcopied with rfl | ⟨gpus₁, idx, run, tokenEnd, c, hc, rfl, hrep⟩
  · exact .inl (some.inj hr).symm
  obtain ⟨gpus₃, hgpus₃, rfl⟩ := map_eq_some_iff.1 hr
  obtain ⟨gpus₂, hgpus₂, hdrop⟩ := bind_eq_some_iff.1 hgpus₃
  exact .inr ⟨gpus₁, gpus₂, gpus₃, idx, run, tokenEnd, c, hc, rfl, hrep, hgpus₂, hdrop⟩

theorem GpuPool.mem_free_of_kvClaimSlab {sid seq : ℕ} (h : gpu.kvClaimSlab sid seq = some gpu') :
    sid ∈ gpu.kvFreeSlabs := by
  unfold kvClaimSlab at h
  simp only at h
  split at h
  · rename_i hcond
    exact hcond.2.2.2.2
  · cases h

namespace AllocInv

variable {seq : ℕ}

theorem beforeTake (h : AllocInv cfg gpus) {gpus₁ : Gpus}
    (hbefore : gpus₁ = gpus ∨ ∃ sid, (cfg.onRanks gpus fun gpu => gpu.kvClaimSlab sid seq) =
      some gpus₁) :
    (∀ g ∈ cfg.dcp.tpGpuIndices, KvFrame (gpus g) (gpus₁ g) ∧
      PoolInv cfg.pps (gpus g).Live (gpus₁ g)) ∧
      ∀ g, g ∉ cfg.dcp.tpGpuIndices → gpus₁ g = gpus g := by
  rcases hbefore with rfl | ⟨sid, hclaim⟩
  · exact ⟨fun g hg => ⟨⟨⟨rfl, rfl, rfl, rfl, rfl⟩, rfl, rfl⟩,
      (h.inv g (cfg.ranks g hg)).pool⟩, fun _ _ => rfl⟩
  obtain ⟨hin₁, hout₁⟩ := onRanks_some hclaim
  refine ⟨?_, hout₁⟩
  intro g hg
  obtain ⟨gpu', hgpu, hpool, hframe, _⟩ := (h.inv g (cfg.ranks g hg)).pool.kvClaimSlab
    (mem_free_of_kvClaimSlab (hin₁ g hg)) seq
  obtain rfl := some.inj ((hin₁ g hg).symm.trans hgpu)
  exact ⟨hframe, hpool⟩

theorem takes (h : AllocInv cfg gpus) (htakes : cfg.Takes gpus seq tokenStart gpus' idx) :
    (∀ g ∈ cfg.dcp.tpGpuIndices, TakenOn cfg.pps idx (gpus g) (gpus' g)) ∧
      ∀ g, g ∉ cfg.dcp.tpGpuIndices → gpus' g = gpus g := by
  rcases htakes with ⟨gpus₁, hbefore, htake⟩ | hloose
  · obtain ⟨hin, hout⟩ := onRanks_some htake
    obtain ⟨hclaimed, hsame⟩ := h.beforeTake hbefore
    refine ⟨?_, fun g hg => (hout g hg).trans (hsame g hg)⟩
    exact fun g hg => GpuInv.takenOn (hclaimed g hg).1 (hclaimed g hg).2 (hin g hg)
  · obtain ⟨hin, hout⟩ := onRanks_some hloose
    exact ⟨fun g hg => (h.inv g (cfg.ranks g hg)).takeLoose (hin g hg), hout⟩

variable {pool : Pool} {layer tokenEnd : ℕ}

theorem replicate (h : AllocInv cfg gpus) (henabled : cfg.dcp.Enabled) (hside : ∀ s, pool ≠ .side s)
    (hin : ∀ g ∈ cfg.dcp.tpGpuIndices, ∃ gpu₁, PageStep idx (gpus g) gpu₁ ∧
      PoolInv cfg.pps (fun i => (gpus g).Live i ∨ i = idx) gpu₁ ∧
      (idx < (gpus g).initialMainPages → pool = .main) ∧
      gpus' g = Config.replicate pool seq layer tokenStart tokenEnd gpu₁ idx)
    (hout : ∀ g, g ∉ cfg.dcp.tpGpuIndices → gpus' g = gpus g) :
    AllocInv cfg gpus' ∧ ∀ g ∈ cfg.dcp.tpGpuIndices, PageStep idx (gpus g) (gpus' g) ∧
      ((gpus' g).pages idx).replicated = true ∧ ((gpus' g).pages idx).refcount = 1 := by
  have hrec : ∀ g ∈ cfg.dcp.tpGpuIndices, ((gpus' g).pages idx).replicated = true ∧
      ((gpus' g).pages idx).refcount = 1 ∧ ((gpus' g).pages idx).pool = pool := by
    intro g hg
    obtain ⟨gpu₁, _, _, _, heq⟩ := hin g hg
    rw [heq]
    unfold Config.replicate GpuPool.setMeta
    simp only [Function.update_self]
    exact ⟨rfl, rfl, rfl⟩
  have hclaimed : ∀ g ∈ cfg.dcp.tpGpuIndices,
      GpuInv cfg.pps (gpus' g) ∧ PageStep idx (gpus g) (gpus' g) := by
    intro g hg
    obtain ⟨gpu₁, hstep, hpool, hmain, heq⟩ := hin g hg
    rw [heq]
    exact (h.inv g (cfg.ranks g hg)).claimed hstep hpool one_pos hmain hside
  refine ⟨h.ranks idx henabled hclaimed hout ?_, fun g hg =>
    ⟨(hclaimed g hg).2, (hrec g hg).1, (hrec g hg).2.1⟩⟩
  intro g hg g' hg' _
  rw [(hrec g' hg').1, (hrec g' hg').2.1, (hrec g' hg').2.2, (hrec g hg).2.1, (hrec g hg).2.2]
  exact ⟨rfl, rfl, rfl⟩

theorem replicates (h : AllocInv cfg gpus) (henabled : cfg.dcp.Enabled) {run : ℕ}
    (hside : ∀ s, pool ≠ .side s)
    (hrep : cfg.Replicates gpus run seq layer tokenStart tokenEnd pool gpus' idx) :
    AllocInv cfg gpus' ∧ (∀ g ∈ cfg.dcp.tpGpuIndices, ¬ (gpus g).Live idx) ∧
      (∀ g ∈ cfg.dcp.tpGpuIndices, PageStep idx (gpus g) (gpus' g) ∧
        ((gpus' g).pages idx).replicated = true ∧ ((gpus' g).pages idx).refcount = 1) ∧
      ∀ g, g ∉ cfg.dcp.tpGpuIndices → gpus' g = gpus g := by
  rcases hrep with ⟨hmain, gpus₁, htakes, hrep⟩ | hrep
  · obtain ⟨htaken, hsame⟩ := h.takes htakes
    obtain ⟨hin, hout⟩ := Config.onRanks_some hrep
    have hout' : ∀ g, g ∉ cfg.dcp.tpGpuIndices → gpus' g = gpus g :=
      fun g hg => (hout g hg).trans (hsame g hg)
    obtain ⟨hinv, hrec⟩ := h.replicate henabled hside
      (fun g hg => ⟨gpus₁ g, (htaken g hg).frame.pageStep idx, (htaken g hg).pool,
        fun _ => hmain, (some.inj (hin g hg)).symm⟩) hout'
    exact ⟨hinv, fun g hg => (htaken g hg).free, hrec, hout'⟩
  obtain ⟨hin, hout⟩ := Config.onRanks_some hrep
  have htaken : ∀ g ∈ cfg.dcp.tpGpuIndices, ¬ (gpus g).Live idx ∧ ∃ gpu₁,
      PageStep idx (gpus g) gpu₁ ∧ PoolInv cfg.pps (fun i => (gpus g).Live i ∨ i = idx) gpu₁ ∧
      (idx < (gpus g).initialMainPages → pool = .main) ∧
      gpus' g = Config.replicate pool seq layer tokenStart tokenEnd gpu₁ idx := by
    intro g hg
    obtain ⟨gpu₁, hgpu, heq⟩ := map_eq_some_iff.1 (hin g hg)
    unfold Config.takeFree at hgpu
    split at hgpu
    · rename_i hmem
      cases hgpu
      obtain ⟨hnot, _, _, hge, hpool⟩ :=
        (h.inv g (cfg.ranks g hg)).pool.popFree (perm_cons_erase hmem)
      refine ⟨hnot, _, (PageStep.setFreeList _ _ _ _).1, hpool, ?_, heq.symm⟩
      intro hlt
      by_contra hne
      exact lt_irrefl _ (lt_of_lt_of_le hlt (hge hne))
    · cases hgpu
  obtain ⟨hinv, hrec⟩ := h.replicate henabled hside (fun g hg => (htaken g hg).2) hout
  exact ⟨hinv, fun g hg => (htaken g hg).1, hrec, hout⟩

variable {r : Gpus × Option PageHandle}

theorem allocateReplicated (h : AllocInv cfg gpus)
    (hr : cfg.allocateReplicated gpus seq tokenStart layer pool unreserved = some r) :
    Handed cfg gpus (r.1, r.2.toList) := by
  obtain ⟨hside, henabled, hcases⟩ := allocateReplicated_cases hr
  rcases hcases with rfl | ⟨gpus', idx, c, hc, rfl, hrep⟩
  · exact h.nothing
  obtain ⟨hinv, hfree, _⟩ := h.replicates henabled hside hrep
  refine ⟨hinv, ?_⟩
  intro nh hmem
  obtain rfl := mem_singleton.1 hmem
  rw [handleLive_iff hside]
  exact hfree c hc

/-! ### Copy on write -/

variable {hd : PageHandle}

theorem cowCopySide (h : AllocInv cfg gpus) {s : Side} (hpool : hd.pool = .side s)
    (hr : cfg.cowCopySide gpus hd s = some r) :
    (Handed cfg gpus (r.1, r.2.toList.filter fun nh => nh ≠ hd) ∧ SideMove gpus r.1) ∧
      (r.2 = none → r.1 = gpus) := by
  unfold Config.cowCopySide at hr
  simp only at hr
  split at hr
  · split at hr
    · cases hr
      exact ⟨⟨by simpa using h.nothing, SideMove.refl gpus⟩, fun _ => rfl⟩
    obtain ⟨hg, r', hr', rfl⟩ := Config.allocOn_some hr
    obtain ⟨r₁, hr₁, hr'⟩ := bind_eq_some_iff.1 hr'
    obtain ⟨r₀, hr₀, hspec⟩ := (h.inv _ hg).allocateSide s
    rw [hr₀, map_some, some.injEq] at hr₁
    have hspec₁ : SideAllocated cfg.pps s (gpus hd.gpuIdx) r₁ := by
      rw [← hr₁]
      exact hspec.write fun _ => rfl
    cases hidx : r₁.2 with
    | none =>
      rw [hidx] at hr'
      cases hr'
      rw [hidx, hspec₁.refused hidx, Function.update_eq_self]
      exact ⟨⟨h.nothing, SideMove.refl gpus⟩, fun _ => rfl⟩
    | some idx =>
      rw [hidx] at hr'
      obtain ⟨gpu', hgpu, rfl⟩ := map_eq_some_iff.1 hr'
      obtain ⟨hinv, hstep⟩ := hspec₁.inv.of_sideDropRef hgpu
      refine ⟨⟨⟨h.side hinv (hspec₁.step.trans hstep), ?_⟩,
        SideMove.update (hspec₁.step.trans hstep)⟩, fun hnone => nomatch hnone⟩
      intro nh hmem
      obtain ⟨hmem, _⟩ := mem_filter.1 hmem
      obtain rfl := mem_singleton.1 hmem
      have hfresh := (hspec₁.fresh idx hidx).1
      rw [hpool]
      exact not_lt.2 hfresh.le
  · cases hr

theorem copyLocal (h : AllocInv cfg gpus) (hg : g < cfg.layout.gpuCount) {r : GpuPool × Option ℕ}
    (hr : Allocated cfg.pps (gpus g) r) (hidx : r.2 = some idx) {old : ℕ}
    (hlive : (gpus g).Live old) (hrep : ((gpus g).pages old).replicated = false)
    (hdrop : r.1.dropRef cfg.pps old = some gpu') :
    AllocInv cfg (update gpus g gpu') := by
  obtain ⟨hnot, _⟩ := hr.fresh idx hidx
  have hne : old ≠ idx := by
    rintro rfl
    exact hnot hlive
  have h₁ : AllocInv cfg (update gpus g r.1) :=
    h.page hg hr.inv (hr.step idx hidx) ((h.inv g hg).idle idx hnot) (hr.live idx hidx).2
  have hself : update gpus g r.1 g = r.1 := update_self ..
  have hrep₁ : ((update gpus g r.1 g).pages old).replicated = false := by
    rw [hself, (hr.step idx hidx).others old hne]
    exact hrep
  have h₂ := h₁.dropLocal hg hrep₁ (by rw [hself]; exact hdrop)
  rw [update_idem] at h₂
  exact h₂

variable {dstSeq : ℕ}

section

variable (h : AllocInv cfg gpus)
include h

theorem cowCopyLocal (hlive : cfg.LivePage gpus hd) (hlocal : ¬ cfg.Mirrored gpus hd)
    (hr : cfg.cowCopyLocal gpus hd dstSeq = some r) :
    Handed cfg gpus (r.1, r.2.toList) ∧ (r.2 = none → r.1 = gpus) := by
  unfold Config.cowCopyLocal at hr
  obtain ⟨hg, r', hr', rfl⟩ := Config.allocOn_some hr
  have hside := (h.inv _ hg).notSide hd.pageIdx
  set old := (gpus hd.gpuIdx).pages hd.pageIdx
  obtain ⟨r₁, hr₁, hr'⟩ := bind_eq_some_iff.1 hr'
  have hspec : Allocated cfg.pps (gpus hd.gpuIdx) r₁ := by
    obtain ⟨r₀, hr₀, rfl⟩ := map_eq_some_iff.1 hr₁
    refine Allocated.write ?_ (fun _ => rfl) (fun _ => rfl) fun _ => rfl
    split at hr₀
    · rename_i hcond
      obtain ⟨r₂, hr₂, hspec⟩ := (h.inv _ hg).kvAllocPage (Config.copyRun dstSeq old) old.tokenStart
        true (cfg.sourceSlab (gpus hd.gpuIdx) hd.pageIdx)
        (f := fun pm => { pm with refcount := 1, pool := old.pool }) (fun _ => one_pos)
        (fun _ => hcond.1) fun _ => rfl
      obtain rfl := some.inj (hr₀.symm.trans hr₂)
      exact hspec
    · obtain ⟨r₂, hr₂, hspec⟩ := (h.inv _ hg).allocatePage hside true
      obtain rfl := some.inj (hr₀.symm.trans hr₂)
      exact hspec
  cases hidx : r₁.2 with
  | none =>
    rw [hidx] at hr'
    cases hr'
    refine ⟨h.allocated hg hspec hside, fun _ => ?_⟩
    rw [hspec.refused hidx, Function.update_eq_self]
  | some idx =>
    rw [hidx] at hr'
    obtain ⟨gpu', hgpu, rfl⟩ := map_eq_some_iff.1 hr'
    refine ⟨⟨h.copyLocal hg hspec hidx hlive.2.2 (h.not_replicated hlocal) hgpu, ?_⟩,
      fun hnone => nomatch hnone⟩
    have hfresh := (h.allocated hg hspec hside).fresh
    rw [hidx] at hfresh
    exact hfresh

theorem setTokenEnd (henabled : cfg.dcp.Enabled)
    (hend : (cfg.onRanks gpus fun gpu => some (gpu.setMeta idx { gpu.pages idx with
      tokenEnd := tokenEnd })) = some gpus') : AllocInv cfg gpus' := by
  obtain ⟨hin, hout⟩ := onRanks_some hend
  refine h.setRanks idx henabled (F := fun pm => { pm with tokenEnd := tokenEnd })
    ?_ hout (fun _ hrep => hrep) fun _ _ hrep hcount hpool => ⟨hrep, hcount, hpool⟩
  intro g hg
  have hinv := h.inv g (cfg.ranks g hg)
  rw [← some.inj (hin g hg)]
  exact ⟨rfl, hinv.rewrite Iff.rfl (hinv.mainPool idx) (hinv.idle idx) (hinv.notSide idx)⟩

theorem cowCopyReplicated (hmirrored : cfg.Mirrored gpus hd)
    (hr : cfg.cowCopyReplicated gpus hd dstSeq = some r) :
    Handed cfg gpus (r.1, r.2.toList) := by
  obtain ⟨hg, henabled⟩ := h.onRanks _ _ hmirrored.1
  have hside := (h.inv _ (cfg.ranks _ hg)).notSide hd.pageIdx
  rcases cowCopyReplicated_cases (ne_nil_of_mem hg) hr with
    rfl | ⟨gpus₁, gpus₂, gpus₃, idx, run, tokenEnd, c, hc, rfl, hrep, hend, hdrop⟩
  · exact h.nothing
  obtain ⟨h₁, hfree, _⟩ := h.replicates henabled hside hrep
  refine ⟨(h₁.setTokenEnd henabled hend).dropRanks henabled hdrop, ?_⟩
  intro nh hmem
  obtain rfl := mem_singleton.1 hmem
  rw [handleLive_iff hside]
  exact hfree c hc

theorem cowCopy (hr : cfg.cowCopy gpus hd dstSeq = some r) :
    Handed cfg gpus (r.1, r.2.toList.filter fun nh => nh ≠ hd) := by
  have hfilter : Handed cfg gpus (r.1, r.2.toList) →
      Handed cfg gpus (r.1, r.2.toList.filter fun nh => nh ≠ hd) :=
    fun hspec => ⟨hspec.inv, fun nh hmem => hspec.fresh nh (mem_filter.1 hmem).1⟩
  unfold Config.cowCopy at hr
  split at hr
  · rename_i s hpool
    exact (h.cowCopySide hpool hr).1.1
  split at hr
  · rename_i hlive
    split at hr
    · cases hr
      simpa using h.nothing
    split at hr
    · rename_i hmirrored
      exact hfilter (h.cowCopyReplicated hmirrored hr)
    · rename_i hlocal
      exact hfilter (h.cowCopyLocal hlive hlocal hr).1
  · cases hr

end

/-! ### Indexer pages -/

variable {tokenPos : ℕ}

theorem allocateIndexerOn (h : AllocInv cfg gpus) {r : Gpus × List PageHandle}
    (hr : cfg.allocateIndexerOn gpus g seq tokenPos layer = some r) :
    Handed cfg gpus r ∧ SideMove gpus r.1 := by
  obtain ⟨r', hr', rfl⟩ := map_eq_some_iff.1 hr
  exact h.allocateSide hr' fun _ => rfl

theorem claimIndexerSlabs {gpus₀ : Gpus} :
    ∀ (ranks : List ℕ) (results : List PageHandle) {gpus : Gpus} {r : Gpus × List PageHandle},
      ranks.Nodup → (∀ g ∈ ranks, g < cfg.layout.gpuCount ∧ gpus g = gpus₀ g ∧
        ((((gpus g).side .indexerK).elastic = true ∧ ((gpus g).side .indexerK).runSlabs = 1) ∨
          (gpus g).kvFreeSlabs = [])) →
      AllocInv cfg gpus → SideMove gpus₀ gpus →
      (∀ nh ∈ results, ¬ HandleLive gpus₀ nh ∧ nh.pool = .side .indexerK) →
      cfg.claimIndexerSlabs seq tokenPos layer ranks results gpus = some r →
      Handed cfg gpus₀ r ∧ SideMove gpus₀ r.1 := by
  intro ranks
  induction ranks with
  | nil =>
    intro results gpus r _ _ h hmove hfresh hr
    cases hr
    exact ⟨⟨h, fun nh hmem => (hfresh nh hmem).1⟩, hmove⟩
  | cons g ranks ih =>
    intro results gpus r hnodup hranks h hmove hfresh hr
    obtain ⟨hnot, hnodup⟩ := nodup_cons.1 hnodup
    obtain ⟨hg, hsame, hcase⟩ := hranks g mem_cons_self
    obtain ⟨r', hr', hr⟩ := bind_eq_some_iff.1 hr
    obtain ⟨r'', hr'', hspec⟩ := (h.inv g hg).kvClaimSideSlab .indexerK true hcase
      (f := fun pm => describeIndexer seq tokenPos layer (pm.claim (.side .indexerK)))
      fun _ => one_pos
    obtain rfl := some.inj (hr'.symm.trans hr'')
    have h₁ : AllocInv cfg (update gpus g r'.1) := h.side hspec.inv hspec.step
    have hmove₁ : SideMove gpus₀ (update gpus g r'.1) :=
      hmove.trans (SideMove.update hspec.step)
    cases hidx : r'.2 with
    | none =>
      -- a rank refuses: what has been claimed is freed again
      rw [hidx] at hr
      obtain ⟨gpus', hfree, rfl⟩ := map_eq_some_iff.1 hr
      have hfreed : AllocInv cfg gpus' ∧ SideMove gpus₀ gpus' := by
        refine foldlM_invariant (P := fun gpus => AllocInv cfg gpus ∧ SideMove gpus₀ gpus) results
          ?_ hfree ⟨h₁, hmove₁⟩
        intro gpus nh gpus' hmem hinv hstep
        obtain ⟨hinv', hmove'⟩ := hinv.1.freeSide (hfresh nh hmem).2 hstep
        exact ⟨hinv', hinv.2.trans hmove'⟩
      exact ⟨⟨hfreed.1, fun _ hmem => absurd hmem not_mem_nil⟩, hfreed.2⟩
    | some sid =>
      rw [hidx] at hr
      refine ih _ hnodup ?_ h₁ hmove₁ ?_ hr
      · intro g' hg'
        have hne : g' ≠ g := by
          rintro rfl
          exact hnot hg'
        rw [update_of_ne hne]
        exact hranks g' (mem_cons_of_mem _ hg')
      · intro nh hmem
        rcases mem_append.1 hmem with hmem | hmem
        · exact hfresh nh hmem
        obtain rfl := mem_singleton.1 hmem
        refine ⟨?_, rfl⟩
        unfold HandleLive
        simp only
        rw [← hsame, (hspec.fresh sid hidx).1]
        exact lt_irrefl 0

variable (h : AllocInv cfg gpus)
include h

/-- Where one GPU has an elastic indexer pool, every other has one or no slabs. -/
theorem indexerSlabs {c : ℕ} (helastic : ((gpus c).side .indexerK).elastic = true)
    (hg : g < cfg.layout.gpuCount) :
    (((gpus g).side .indexerK).elastic = true ∧ ((gpus g).side .indexerK).runSlabs = 1) ∨
      (gpus g).kvFreeSlabs = [] := by
  rw [(h.shape c).elastic] at helastic
  rw [(h.shape g).elastic, (h.shape g).runSlabs]
  by_cases hslabs : cfg.layout.KvSlabManaged g
  · left
    have hbytes : 0 < cfg.layout.indexerKBytesPerPage := by
      by_contra hzero
      have hfixed : ¬ cfg.layout.IndexerElastic c := fun hel => hzero hel.2
      simp [VramLayout.initGpu, hfixed, VramLayout.fixedSide] at helastic
    have hel : cfg.layout.IndexerElastic g := ⟨hslabs, hbytes⟩
    simp [VramLayout.initGpu, hel, VramLayout.elasticSide]
  · right
    have hzero : (gpus g).numSlabs = 0 := by
      rw [(h.shape g).numSlabs]
      exact if_neg hslabs
    rw [eq_nil_iff_forall_not_mem]
    intro s hs
    have hlt := ((h.inv g hg).pool.table.mem_free s |>.1 hs).1
    rw [hzero] at hlt
    exact not_lt_zero s hlt

theorem allocateIndexerKForDcp {r : Gpus × List PageHandle}
    (hr : cfg.allocateIndexerKForDcp gpus seq tokenPos layer = some r) :
    Handed cfg gpus r ∧ SideMove gpus r.1 := by
  unfold Config.allocateIndexerKForDcp at hr
  split at hr
  · exact h.allocateIndexerOn hr
  split at hr
  · obtain ⟨g, _, hr⟩ := bind_eq_some_iff.1 hr
    exact h.allocateIndexerOn hr
  split at hr
  · cases hr
  rename_i c mirrors hranks
  simp only at hr
  split at hr
  · rename_i helastic
    refine claimIndexerSlabs _ _ (hranks ▸ cfg.dcp.nodup) ?_ h (SideMove.refl gpus)
      (fun _ hmem => absurd hmem not_mem_nil) hr
    intro g hg
    have hg' := cfg.ranks g (hranks ▸ hg)
    exact ⟨hg', rfl, h.indexerSlabs helastic hg'⟩
  split at hr
  · cases hr
    exact ⟨h.nothing, SideMove.refl gpus⟩
  rename_i idx _
  obtain ⟨gpus', hgpus, rfl⟩ := map_eq_some_iff.1 hr
  obtain ⟨hin, hout⟩ := Config.onRanks_some hgpus
  have hspec : ∀ g ∈ cfg.dcp.tpGpuIndices,
      SideAllocated cfg.pps .indexerK (gpus g) (gpus' g, some idx) := by
    intro g hg
    have htake := hin g hg
    unfold Config.takeIndexer at htake
    simp only at htake
    split at htake
    · rename_i hmem
      have hinv := h.inv g (cfg.ranks g hg)
      have hfixed : ((gpus g).side .indexerK).elastic = false := by
        rw [Bool.eq_false_iff]
        intro helastic
        rw [(hinv.sides .indexerK).empty helastic] at hmem
        cases hmem
      rw [← some.inj htake]
      exact hinv.takeFixed _ hfixed (perm_cons_erase hmem) one_pos
    · cases htake
  have hmove : SideMove gpus gpus' := by
    intro g
    by_cases hmem : g ∈ cfg.dcp.tpGpuIndices
    · exact (hspec g hmem).step
    · rw [hout g hmem]
      exact SideStep.refl _
  have hinv : ∀ g < cfg.layout.gpuCount, GpuInv cfg.pps (gpus' g) := by
    intro g hg
    by_cases hmem : g ∈ cfg.dcp.tpGpuIndices
    · exact (hspec g hmem).inv
    · rw [hout g hmem]
      exact h.inv g hg
  refine ⟨⟨h.sideMove hmove hinv, ?_⟩, hmove⟩
  intro nh hmem
  obtain ⟨g, hg, rfl⟩ := mem_map.1 hmem
  exact not_lt.2 ((hspec g hg).fresh idx rfl).1.le

/-! ### The constructor and the calls -/

theorem configureHeadroom (forks sequences chunkPages : ℤ) :
    AllocInv cfg (configureHeadroom gpus forks sequences chunkPages) := by
  refine h.sameRecords ?_ (fun _ => ⟨rfl, rfl, rfl, fun _ => rfl, fun _ => rfl, fun _ => rfl⟩)
    fun _ _ => ⟨rfl, rfl, rfl⟩
  intro g hg
  have hinv := h.inv g hg
  exact ⟨{ hinv.pool with }, hinv.mainPool, hinv.idle,
    hinv.notSide, hinv.sides, hinv.elasticTotal⟩

theorem perform (hok : ∀ g < cfg.layout.gpuCount, cfg.layout.GpuOk g) {a : Action}
    {r : Gpus × List PageHandle} (hr : cfg.perform gpus a = some r) :
    Handed cfg gpus r := by
  have hquiet : ∀ {o : Option Gpus}, (∀ gpus', o = some gpus' → AllocInv cfg gpus') →
      (o.map fun gpus => (gpus, ([] : List PageHandle))) = some r → Handed cfg gpus r := by
    intro o ho hr
    obtain ⟨gpus', hgpus, rfl⟩ := map_eq_some_iff.1 hr
    exact ⟨ho gpus' hgpus, fun _ hmem => absurd hmem not_mem_nil⟩
  have hzone : ∀ {α : Type} {g : ℕ} {o : Option α} (pools : α → GpuPool),
      (g < cfg.layout.gpuCount → ∃ x, o = some x ∧ GpuInv cfg.pps (pools x) ∧
        SideStep (gpus g) (pools x)) →
      (if g < cfg.layout.gpuCount then
        o.map fun x => (update gpus g (pools x), ([] : List PageHandle))
        else some (gpus, [])) = some r → Handed cfg gpus r := by
    intro α g o pools hspec hr
    split at hr
    · rename_i hg
      obtain ⟨x, rfl, hinv, hstep⟩ := hspec hg
      cases hr
      exact ⟨h.side hinv hstep, fun _ hmem => absurd hmem not_mem_nil⟩
    · cases hr
      exact h.nothing
  cases a with
  | allocate g pool | allocateUnreserved g pool =>
    obtain ⟨r', hr', rfl⟩ := map_eq_some_iff.1 hr
    exact h.allocatePage hr'
  | allocateForSequence g pool seq layer tokenStart tokenEnd unreserved =>
    obtain ⟨r', hr', rfl⟩ := map_eq_some_iff.1 hr
    exact h.allocateForSequence hr'
  | allocateSide g s =>
    obtain ⟨r', hr', rfl⟩ := map_eq_some_iff.1 hr
    obtain ⟨hg, r₁, hr₁, rfl⟩ := allocOn_some hr'
    obtain ⟨r₂, hr₂, hspec⟩ := (h.inv g hg).allocateSide s
    obtain rfl := some.inj (hr₁.symm.trans hr₂)
    exact (h.sideAllocated hspec).1
  | free hd => exact hquiet (fun _ => h.free) hr
  | promote hd => exact hquiet (fun _ => h.promote) hr
  | addRef hd => exact hquiet (fun _ => h.addRef) hr
  | describe hd seq layer tokenStart tokenEnd => exact hquiet (fun _ => h.describe) hr
  | cowCopy hd dstSeq =>
    obtain ⟨r', hr', rfl⟩ := map_eq_some_iff.1 hr
    exact h.cowCopy hr'
  | freeSequence g seq => exact hquiet (fun _ => h.freeSequence) hr
  | allocateKdaState g seq => exact (h.allocateKdaState hok hr).1
  | claimExpertZone g n extraReserve =>
    exact hzone Prod.fst (fun hg => (h.inv g hg).claimExpertZone n extraReserve) hr
  | claimExpertZoneAt g start n extraReserve =>
    exact hzone Prod.fst (fun hg => (h.inv g hg).claimExpertZoneAt start n extraReserve) hr
  | releaseExpertZone g start n =>
    exact hzone id (fun hg => (h.inv g hg).releaseExpertZone start n) hr
  | configureHeadroom forks sequences chunkPages =>
    cases hr
    exact ⟨h.configureHeadroom forks sequences chunkPages, fun _ hmem => absurd hmem not_mem_nil⟩
  | allocateReplicated seq tokenStart layer pool unreserved =>
    obtain ⟨r', hr', rfl⟩ := map_eq_some_iff.1 hr
    exact h.allocateReplicated hr'
  | allocateForDcpAppend seq tokenPos layer defaultGpu =>
    obtain ⟨r', hr', rfl⟩ := map_eq_some_iff.1 hr
    unfold allocateForDcpAppend at hr'
    split at hr'
    · exact h.allocateReplicated hr'
    · obtain ⟨g, _, hr'⟩ := bind_eq_some_iff.1 hr'
      exact h.allocateForSequence hr'
  | allocateIndexerKForDcp seq tokenPos layer => exact (h.allocateIndexerKForDcp hr).1

end AllocInv

end LayerStorm.Paging

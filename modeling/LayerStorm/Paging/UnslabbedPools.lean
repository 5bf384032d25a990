import LayerStorm.Paging.Representation

/-!
# The unslabbed pools

Without slabs a page of the main or speculation pool is live or in one of two free lists.  A
page of the speculation pool that has been promoted goes to the free list of the main pool, and
`allocate` hands it out from there.  A replicated allocation passes it over: it asks the other
ranks only for pages that were the main pool's at boot.

## Main results

* `unslabbed_pools` — **it succeeds whenever the ranks have a free page in common exactly if one
  of these was a main page at boot**.
-/

namespace LayerStorm.Paging

open Lib List

variable {cfg : Config} {gpus gpus' : Gpus} {pps g : ℕ} {gpu : GpuPool}

/-- A page is live or in exactly one of the free lists, once. -/
structure GpuPool.Conserved (gpu : GpuPool) : Prop where
  live : ∀ i, gpu.Live i → i < gpu.total ∧ gpu.mainFree.count i + gpu.specFree.count i = 0
  free : ∀ i < gpu.total, ¬ gpu.Live i → gpu.mainFree.count i + gpu.specFree.count i = 1
  bound : ∀ i ∈ gpu.mainFree ++ gpu.specFree, i < gpu.total

/-- The page is in the free list of the main pool of every rank. -/
def Config.CommonFree (cfg : Config) (gpus : Gpus) (idx : ℕ) : Prop :=
  ∀ g ∈ cfg.dcp.tpGpuIndices, idx ∈ (gpus g).mainFree

/-- The page was one of the main pool at boot, on every rank but the first. -/
def Config.MainAtBoot (cfg : Config) (gpus : Gpus) (idx : ℕ) : Prop :=
  ∀ g ∈ cfg.dcp.tpGpuIndices.tail, idx < (gpus g).initialMainPages

section

variable (h : GpuInv pps gpu)
include h

theorem GpuInv.numSlabs_eq_zero (hunslabbed : ¬ gpu.KvSlabbed pps) : gpu.numSlabs = 0 := by
  by_contra hn
  exact hunslabbed ⟨(h.pool.whole hn).1, hn⟩

theorem GpuInv.mem_free_iff (hunslabbed : ¬ gpu.KvSlabbed pps) (i : ℕ) :
    i ∈ gpu.mainFree ++ gpu.specFree ↔ i < gpu.total ∧ ¬ gpu.Live i := by
  have hn := h.numSlabs_eq_zero hunslabbed
  have hmem := h.pool.outside.mem_iff i
  rw [h.pool.looseEmpty hn, hn] at hmem
  simpa using hmem

/-- **No page of an unslabbed pool is lost.** -/
theorem GpuInv.conserved (hunslabbed : ¬ gpu.KvSlabbed pps) : gpu.Conserved where
  live := by
    intro i hlive
    refine ⟨h.pool.outside.bound i hlive, ?_⟩
    rw [← count_append]
    apply count_eq_zero.2
    exact fun hmem => ((h.mem_free_iff hunslabbed i).1 hmem).2 hlive
  free := by
    intro i hi hidle
    have hnodup := h.pool.outside.nodup
    rw [h.pool.looseEmpty (h.numSlabs_eq_zero hunslabbed), append_nil] at hnodup
    rw [← count_append]
    exact count_eq_one_of_mem hnodup ((h.mem_free_iff hunslabbed i).2 ⟨hi, hidle⟩)
  bound := fun i hi => ((h.mem_free_iff hunslabbed i).1 hi).1

/-- What a rank takes for claimable: a free page that was one of its main pool at boot. -/
theorem GpuInv.mirrorClaimable_iff (hunslabbed : ¬ gpu.KvSlabbed pps) {idx : ℕ} :
    Config.MirrorClaimable .main gpu idx ↔ idx ∈ gpu.mainFree ∧ idx < gpu.initialMainPages := by
  unfold Config.MirrorClaimable
  constructor
  · rintro ⟨hmain, hidle⟩
    have hmem := (h.mem_free_iff hunslabbed idx).2
      ⟨Nat.lt_of_lt_of_le hmain (Nat.le_add_right _ _), Nat.not_lt.2 (Nat.le_of_eq hidle)⟩
    refine ⟨(mem_append.1 hmem).resolve_right fun hspec => ?_, hmain⟩
    exact absurd (h.pool.outside.spec_ge idx hspec) (Nat.not_le.2 hmain)
  · rintro ⟨hfree, hmain⟩
    have hidle := ((h.mem_free_iff hunslabbed idx).1 (mem_append_left _ hfree)).2
    exact ⟨hmain, Nat.eq_zero_of_not_pos hidle⟩

end

/-- **Which pages a replicated allocation can use** that need not keep the reserve. -/
theorem allocateReplicated_iff (h : AllocInv cfg gpus) (henabled : cfg.dcp.Enabled)
    (hunslabbed : ∀ g ∈ cfg.dcp.tpGpuIndices, ¬ (gpus g).KvSlabbed cfg.pps)
    (seq tokenStart layer : ℕ) :
    ∃ r, cfg.allocateReplicated gpus seq tokenStart layer .main true = some r ∧
      ((∃ nh, r.2 = some nh) ↔ ∃ idx, cfg.CommonFree gpus idx ∧ cfg.MainAtBoot gpus idx) := by
  obtain ⟨c, mirrors, hranks⟩ : ∃ c mirrors, cfg.dcp.tpGpuIndices = c :: mirrors := by
    apply exists_cons_of_ne_nil
    intro hnil
    have hlen := cfg.dcp.length_eq henabled
    rw [hnil, length_nil] at hlen
    exact absurd (show 2 ≤ cfg.dcp.dcpSize from henabled) (by omega)
  have hmem : ∀ g ∈ mirrors, g ∈ cfg.dcp.tpGpuIndices := by
    intro g hg
    rw [hranks]
    exact mem_cons_of_mem _ hg
  have hinv : ∀ g ∈ cfg.dcp.tpGpuIndices, GpuInv cfg.pps (gpus g) :=
    fun g hg => h.inv g (cfg.ranks g hg)
  have hclaimable : ∀ idx, (∀ g ∈ mirrors, Config.MirrorClaimable .main (gpus g) idx) ↔
      (∀ g ∈ mirrors, idx ∈ (gpus g).mainFree) ∧ cfg.MainAtBoot gpus idx := by
    intro idx
    unfold Config.MainAtBoot
    rw [hranks, tail_cons, ← forall₂_and]
    exact forall₂_congr fun g hg =>
      (hinv g (hmem g hg)).mirrorClaimable_iff (hunslabbed g (hmem g hg))
  have hcommon : ∀ idx, cfg.CommonFree gpus idx ↔
      idx ∈ (gpus c).mainFree ∧ ∀ g ∈ mirrors, idx ∈ (gpus g).mainFree := by
    intro idx
    unfold Config.CommonFree
    rw [hranks]
    exact forall_mem_cons
  have hc : ¬ (gpus c).KvSlabbed cfg.pps := hunslabbed c (by rw [hranks]; exact mem_cons_self)
  have hfind : (∃ idx, cfg.CommonFree gpus idx ∧ cfg.MainAtBoot gpus idx) ↔
      ∃ idx ∈ (gpus c).mainFree, ∀ g ∈ mirrors, Config.MirrorClaimable .main (gpus g) idx := by
    refine exists_congr fun idx => ?_
    rw [hclaimable, hcommon, and_assoc]
  rw [hfind]
  unfold Config.allocateReplicated
  simp only [hranks]
  rw [if_neg (not_not.2 henabled), if_neg fun hs => hc hs.2]
  change ∃ r, (if ((gpus c).mainFree.length : ℤ) ≤ 0 then _ else _) = some r ∧ _
  by_cases hempty : ((gpus c).mainFree.length : ℤ) ≤ 0
  · rw [if_pos hempty]
    refine ⟨_, rfl, iff_of_false (fun hs => nomatch hs.choose_spec) ?_⟩
    rintro ⟨idx, hidx, -⟩
    have := length_pos_of_mem hidx
    omega
  rw [if_neg hempty]
  cases hpos : ((gpus c).freeList .main).reverse.find? fun idx =>
      ∀ g ∈ mirrors, Config.MirrorClaimable .main (gpus g) idx with
  | none =>
    refine ⟨_, rfl, iff_of_false (fun hs => nomatch hs.choose_spec) ?_⟩
    rintro ⟨idx, hidx, hall⟩
    have hno := find?_eq_none.1 hpos idx (mem_reverse.2 hidx)
    exact hno (decide_eq_true hall)
  | some idx =>
    have hall : ∀ g ∈ mirrors, Config.MirrorClaimable .main (gpus g) idx := by
      simpa using find?_some hpos
    have hidx : idx ∈ (gpus c).mainFree := mem_reverse.1 (mem_of_find?_eq_some hpos)
    -- every rank has the page in its list, so that no assertion fails
    have htake : ∀ g ∈ cfg.dcp.tpGpuIndices, Config.takeFree .main idx (gpus g) =
        some ((gpus g).setFreeList .main (((gpus g).freeList .main).erase idx)) :=
      fun g hg => if_pos ((hcommon idx).2 ⟨hidx, ((hclaimable idx).1 hall).1⟩ g hg)
    simp only [Config.onRanks]
    rw [updateEach_eq cfg.dcp.nodup fun g hg => by rw [htake g hg, Option.map_some]]
    exact ⟨_, rfl, iff_of_true ⟨_, rfl⟩ ⟨idx, hidx, hall⟩⟩

/-- **The unslabbed pools** after every run.  No page is lost; a replicated allocation that need
not keep the reserve succeeds whenever all ranks have a free page in common exactly if, where
they have one, they have one that was a main page at boot. -/
theorem unslabbed_pools (hinit : Paging.init cfg.layout = some gpus) {as : List Action}
    (hrun : Run cfg.step gpus as gpus') :
    (∀ g < cfg.layout.gpuCount, ¬ (gpus' g).KvSlabbed cfg.pps → (gpus' g).Conserved) ∧
    (cfg.dcp.Enabled → (∀ g ∈ cfg.dcp.tpGpuIndices, ¬ (gpus' g).KvSlabbed cfg.pps) →
      ∀ seq tokenStart layer,
        ∃ r, cfg.allocateReplicated gpus' seq tokenStart layer .main true = some r ∧
          (((∃ idx, cfg.CommonFree gpus' idx) → ∃ nh, r.2 = some nh) ↔
            ((∃ idx, cfg.CommonFree gpus' idx) →
              ∃ idx, cfg.CommonFree gpus' idx ∧ cfg.MainAtBoot gpus' idx))) := by
  have h := AllocInv.of_run hinit hrun
  refine ⟨fun g hg hunslabbed => (h.inv g hg).conserved hunslabbed, ?_⟩
  intro henabled hunslabbed seq tokenStart layer
  obtain ⟨r, hr, hiff⟩ := allocateReplicated_iff h henabled hunslabbed seq tokenStart layer
  exact ⟨r, hr, imp_congr_right fun _ => hiff⟩

/-- Two ranks without slabs, each with a main page and a speculation page. -/
def unslabbedConfig : Config where
  layout := { smallLayout with
    gpuCount := 2, gpus := fun _ => ⟨1, 1, 0, 0, 0, 0, true, 0⟩, slabBytes := 0, pagesPerSlab := 0 }
  dcp := ⟨2, 1, 1, [0, 1], true, 1, false, twoGpus_nodup, twoGpus_length⟩
  ranks := by decide

/-- A sequence takes the main page, and a page of the speculation pool is promoted and freed. -/
def promotedThenFreed : List Action :=
  [.allocateReplicated 7 0 0 .main true, .allocateReplicated 7 1 0 .speculation true,
    .promote ⟨0, 1, .speculation⟩, .free ⟨0, 1, .main⟩]

theorem unslabbedConfig_init :
    Paging.init unslabbedConfig.layout = some unslabbedConfig.layout.initGpu := by
  exact if_pos (by decide)

/-- With a second main page on every rank. -/
def sparePageConfig : Config where
  layout := { unslabbedConfig.layout with gpus := fun _ => ⟨2, 1, 0, 0, 0, 0, true, 0⟩ }
  dcp := unslabbedConfig.dcp
  ranks := unslabbedConfig.ranks

/-- The promoted page has been freed, and the one that was a main page all along is found. -/
theorem unslabbed_pools_first : ∃ gpus r,
    Run sparePageConfig.step sparePageConfig.layout.initGpu
      [.allocateReplicated 7 0 0 .main true, .allocateReplicated 7 1 0 .speculation true,
        .promote ⟨0, 2, .speculation⟩, .free ⟨0, 2, .main⟩] gpus ∧
    sparePageConfig.CommonFree gpus 2 ∧ (gpus 0).Conserved ∧
    sparePageConfig.allocateReplicated gpus 7 2 0 .main true = some r ∧ ∃ nh, r.2 = some nh := by
  have hsome : ([.allocateReplicated 7 0 0 .main true, .allocateReplicated 7 1 0 .speculation true,
        .promote ⟨0, 2, .speculation⟩, .free ⟨0, 2, .main⟩].foldlM sparePageConfig.step
          sparePageConfig.layout.initGpu).any (fun gpus =>
      (∀ g ∈ [0, 1], 1 ∈ (gpus g).mainFree) ∧ (∀ g ∈ [0, 1], 2 ∈ (gpus g).mainFree) ∧
        (∀ g ∈ [0, 1], ¬ (gpus g).KvSlabbed sparePageConfig.pps) ∧
        ∀ g ∈ [1], 1 < (gpus g).initialMainPages) = true := by
    decide
  obtain ⟨gpus, hgpus, hstate⟩ := (Option.any_eq_true _ _).1 hsome
  obtain ⟨hone, htwo, hunslabbed, hboot⟩ := of_decide_eq_true hstate
  have hrun := Run.of_foldlM hgpus
  have hinit : Paging.init sparePageConfig.layout = some sparePageConfig.layout.initGpu := by
    exact if_pos (by decide)
  have h := unslabbed_pools hinit hrun
  obtain ⟨r, hr, hiff⟩ := h.2 (by decide) hunslabbed 7 2 0
  exact ⟨gpus, r, hrun, htwo, h.1 0 (by decide) (hunslabbed 0 (by decide)), hr,
    hiff.2 (fun _ => ⟨1, hone, hboot⟩) ⟨1, hone⟩⟩

/-- **A promoted page is lost to replicated allocation** once it has been freed. -/
theorem promoted_page_passed_over : ¬ ∀ (cfg : Config) (gpus gpus' : Gpus) (as : List Action),
      Paging.init cfg.layout = some gpus → Run cfg.step gpus as gpus' → cfg.dcp.Enabled →
      (∀ g ∈ cfg.dcp.tpGpuIndices, ¬ (gpus' g).KvSlabbed cfg.pps) →
      (∃ idx, cfg.CommonFree gpus' idx) → ∃ gpus'' nh,
        cfg.allocateReplicated gpus' 7 2 0 .main true = some (gpus'', some nh) := by
  intro h
  have hsome : (promotedThenFreed.foldlM unslabbedConfig.step unslabbedConfig.layout.initGpu).any
      (fun gpus => 1 ∈ (gpus 0).mainFree ∧ 1 ∈ (gpus 1).mainFree ∧ (gpus 0).numSlabs = 0 ∧
        (gpus 1).numSlabs = 0 ∧
        (unslabbedConfig.allocateReplicated gpus 7 2 0 .main true).any (fun r => r.2.isNone) =
          true) = true := by
    decide
  obtain ⟨gpus, hgpus, hstate⟩ := (Option.any_eq_true _ _).1 hsome
  obtain ⟨h₀, h₁, hn₀, hn₁, hnone⟩ := of_decide_eq_true hstate
  have hunslabbed : ∀ g ∈ [0, 1], ¬ (gpus g).KvSlabbed unslabbedConfig.pps := by
    intro g hg hs
    rcases mem_pair.1 hg with rfl | rfl
    · exact hs.2 hn₀
    · exact hs.2 hn₁
  have hfree : unslabbedConfig.CommonFree gpus 1 := by
    intro g hg
    rcases mem_pair.1 hg with rfl | rfl
    · exact h₀
    · exact h₁
  obtain ⟨gpus'', nh, hr⟩ := h unslabbedConfig _ gpus promotedThenFreed unslabbedConfig_init
    (Run.of_foldlM hgpus) (by decide) hunslabbed ⟨1, hfree⟩
  rw [hr] at hnone
  cases hnone

end LayerStorm.Paging

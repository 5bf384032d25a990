import LayerStorm.Paging.Representation

/-!
# Claims of contiguous slabs

KDA state and grants to the expert cache are runs of unclaimed slabs, which a scan from the
top of the region looks for.  The scan fails only where the region is too fragmented: it
finds a run in every maximal stretch of unclaimed slabs as often as one fits.

## Main results

* `contiguous_claims` — **claims succeed exactly if the slabs are there**, and a grant that is
  handed back leaves the free slabs as they were.
-/

namespace LayerStorm.Paging

open Lib List Nat

/-! ### Stretches of unclaimed slabs -/

/-- The maximal stretches of unclaimed slabs below a slab, the highest first; between two
claimed slabs that are neighbours there is an empty one. -/
def freeStretches (claimed : ℕ → Bool) (sid : ℕ) : List (List ℕ) :=
  (List.range sid).reverse.splitOnP claimed

/-- How many runs of `n` slabs fit into a list of stretches. -/
def runCapacity (n : ℕ) (stretches : List (List ℕ)) : ℕ :=
  (stretches.map fun l => l.length / n).sum

/-- The loop of `largest_free_run`. -/
def largestRun (claimed : ℕ → Bool) : ℕ → ℕ → ℕ → ℕ
  | 0, _, best => best
  | sid + 1, run, best =>
    if claimed sid = false then
      largestRun claimed sid (run + 1) (if best < run + 1 then run + 1 else best)
    else largestRun claimed sid 0 best

namespace GpuPool

def largestFreeRun (pps : ℕ) (gpu : GpuPool) : ℕ :=
  if gpu.KvSlabbed pps then largestRun (fun s => (gpu.kvSlabs s).claimed) gpu.numSlabs 0 0 else 0

/-- The runs of `n` slabs that the free slabs of a GPU have room for. -/
def freeRunCapacity (gpu : GpuPool) (n : ℕ) : ℕ :=
  runCapacity n (freeStretches (fun s => (gpu.kvSlabs s).claimed) gpu.numSlabs)

/-- The slabs from `st` on are a run of `k` free slabs. -/
def FreeRun (gpu : GpuPool) (k st : ℕ) : Prop :=
  st + k ≤ gpu.numSlabs ∧ ∀ s ∈ runSlabIds st k, (gpu.kvSlabs s).claimed = false

end GpuPool

/-! ### What the scan finds -/

variable {claimed : ℕ → Bool} {n : ℕ}

theorem freeStretches_succ (claimed : ℕ → Bool) (sid : ℕ) : freeStretches claimed (sid + 1) =
      if claimed sid then [] :: freeStretches claimed sid
      else (freeStretches claimed sid).modifyHead (cons sid) := by
  unfold freeStretches
  rw [range_succ, reverse_append, reverse_singleton, singleton_append,
    splitOnP_cons_eq_if_modifyHead]

/-- **The scan finds all runs that fit.**  The slabs of the stretch it is in that it has passed
are counted to that stretch. -/
theorem length_scanRuns (sid : ℕ) : ∀ {run : ℕ} (want : ℕ), run < n → ∀ {h : List ℕ}
    {t : List (List ℕ)}, freeStretches claimed sid = h :: t →
      (GpuPool.scanRuns claimed n sid run want).length =
        min want ((h.length + run) / n + runCapacity n t) := by
  induction sid with
  | zero =>
    intro run want hrun h t heq
    obtain ⟨rfl, rfl⟩ := cons.inj (show [[]] = h :: t from heq)
    simp [GpuPool.scanRuns, runCapacity, div_eq_of_lt hrun]
  | succ sid ih =>
    intro run want hrun h t heq
    have hn : 0 < n := lt_of_le_of_lt (zero_le _) hrun
    unfold GpuPool.scanRuns
    by_cases hwant : want = 0
    · simp [hwant]
    rw [if_neg hwant]
    rw [freeStretches_succ] at heq
    obtain ⟨h', t', heq'⟩ := exists_cons_of_ne_nil (splitOnP_ne_nil claimed (range sid).reverse)
    change freeStretches claimed sid = h' :: t' at heq'
    rw [heq'] at heq
    by_cases hclaimed : claimed sid = false
    · rw [if_pos hclaimed]
      rw [if_neg (by rw [hclaimed]; exact Bool.false_ne_true)] at heq
      obtain ⟨rfl, rfl⟩ := cons.inj heq
      by_cases hfull : run + 1 = n
      · -- the run is complete, and the stretch goes on behind it
        rw [if_pos hfull, length_cons, ih (want - 1) hn heq']
        have hdiv : ((sid :: h').length + run) / n = h'.length / n + 1 := by
          rw [length_cons, add_assoc, add_comm 1 run, hfull, add_div_right _ hn]
        simp only [add_zero]
        omega
      · rw [if_neg hfull, ih want (show run + 1 < n by omega) heq', length_cons]
        congr 3
        omega
    · rw [if_neg hclaimed]
      rw [if_pos (Bool.eq_true_of_not_eq_false hclaimed)] at heq
      obtain ⟨rfl, rfl⟩ := cons.inj heq
      rw [ih want hn heq', length_nil, zero_add, div_eq_of_lt hrun]
      simp [runCapacity]

theorem length_freeRuns (gpu : GpuPool) (hn : 0 < n) (want : ℕ) :
    (gpu.freeRuns n want).length = min want (gpu.freeRunCapacity n) := by
  obtain ⟨h, t, heq⟩ := exists_cons_of_ne_nil
    (splitOnP_ne_nil (fun s => (gpu.kvSlabs s).claimed) (range gpu.numSlabs).reverse)
  unfold GpuPool.freeRuns GpuPool.freeRunCapacity
  rw [length_scanRuns gpu.numSlabs want hn heq, freeStretches, heq]
  simp [runCapacity]

/-- **The first run that the scan finds is the highest**, and it misses none. -/
theorem scanRuns_highest (sid : ℕ) : ∀ {run st : ℕ}, run < n → st + n ≤ sid + run →
    (∀ j ∈ GpuPool.runSlabIds st n, claimed j = false) →
      ∃ top, (GpuPool.scanRuns claimed n sid run 1).head? = some top ∧ st ≤ top := by
  induction sid with
  | zero =>
    intro run st hrun hle _
    omega
  | succ sid ih =>
    intro run st hrun hle hfree
    have hn : 0 < n := lt_of_le_of_lt (zero_le _) hrun
    unfold GpuPool.scanRuns
    by_cases hclaimed : claimed sid = false
    · rw [if_pos hclaimed]
      by_cases hfull : run + 1 = n
      · rw [if_pos hfull]
        exact ⟨sid, rfl, by omega⟩
      · rw [if_neg hfull]
        exact ih (show run + 1 < n by omega) (by omega) hfree
    · -- a run cannot reach over a claimed slab
      rw [if_neg hclaimed]
      refine ih hn ?_ hfree
      by_contra hover
      exact hclaimed (hfree sid (mem_runSlabIds.2 ⟨by omega, by omega⟩))

theorem le_largestRun (sid : ℕ) : ∀ run best : ℕ, best ≤ largestRun claimed sid run best := by
  induction sid with
  | zero => exact fun _ best => le_refl best
  | succ sid ih =>
    intro run best
    unfold largestRun
    split
    · refine le_trans ?_ (ih (run + 1) _)
      split
      · omega
      · exact le_refl best
    · exact ih 0 best

/-- **`largest_free_run` says whether the scan finds a run.** -/
theorem le_largestRun_iff (sid : ℕ) : ∀ {run best : ℕ}, run < n → best < n →
    (n ≤ largestRun claimed sid run best ↔
      ∃ top, (GpuPool.scanRuns claimed n sid run 1).head? = some top) := by
  induction sid with
  | zero =>
    intro run best _ hbest
    simp [largestRun, GpuPool.scanRuns, hbest]
  | succ sid ih =>
    intro run best hrun hbest
    have hn : 0 < n := lt_of_le_of_lt (zero_le _) hrun
    unfold largestRun GpuPool.scanRuns
    by_cases hclaimed : claimed sid = false
    · rw [if_pos hclaimed, if_pos hclaimed]
      by_cases hfull : run + 1 = n
      · rw [if_pos hfull, if_pos (show best < run + 1 by omega)]
        refine iff_of_true ?_ ⟨sid, rfl⟩
        exact le_trans (le_of_eq hfull.symm) (le_largestRun sid _ _)
      · rw [if_neg hfull]
        refine ih (show run + 1 < n by omega) ?_
        split <;> omega
    · rw [if_neg hclaimed, if_neg hclaimed]
      exact ih hn hbest

/-! ### KDA state -/

/-- What a call for KDA state returns: runs of free slabs that lie one below the other, all
that were asked for exactly if they fit and the reserve is kept. -/
structure KdaClaimRight (pps units n : ℕ) (gpu : GpuPool) (starts : List ℕ) : Prop where
  complete : starts ≠ [] ↔ ¬ gpu.kvFreePages - (units * n * pps : ℕ) < gpu.mainReserved ∧
    units ≤ gpu.freeRunCapacity n
  size : starts ≠ [] → starts.length = units
  apart : starts.Pairwise fun a b => b + n ≤ a
  free : ∀ st ∈ starts, gpu.FreeRun n st

variable {pps : ℕ} {gpu : GpuPool}

/-- The assertions on the records of the KDA pool hold where its runs are free. -/
theorem GpuInv.kda_idle (h : GpuInv pps gpu) (hn : 0 < n)
    (helastic : (gpu.side .kdaState).elastic = true) (hunit : (gpu.side .kdaState).runSlabs = n)
    {st : ℕ} (hfree : gpu.FreeRun n st) :
    st < (gpu.side .kdaState).total ∧ ((gpu.side .kdaState).pages st).refcount = 0 := by
  constructor
  · rw [h.elasticTotal _ helastic]
    have := hfree.1
    omega
  · -- a live record would own its first slab
    by_contra hlive
    have hmem : st ∈ GpuPool.runSlabIds st n := mem_runSlabIds.2 ⟨le_refl _, by omega⟩
    have ho : gpu.Owns (.side .kdaState st) st :=
      ⟨helastic, pos_of_ne_zero hlive, by rw [hunit]; exact hmem⟩
    have hclaimed := h.pool.table.tenancy.claimed_of_owns ho
    rw [hfree.2 st hmem] at hclaimed
    cases hclaimed

theorem GpuInv.claimKdaRuns_right (h : GpuInv pps gpu) {units : ℕ} (seq : ℕ)
    (hunits : 0 < units) (hn : 0 < n) (helastic : (gpu.side .kdaState).elastic = true)
    (hunit : (gpu.side .kdaState).runSlabs = n) :
    ∃ r, gpu.claimKdaRuns pps units n seq = some r ∧ KdaClaimRight pps units n gpu r.2 := by
  have hrefuse : ¬ (¬ gpu.kvFreePages - (units * n * pps : ℕ) < gpu.mainReserved ∧
      units ≤ gpu.freeRunCapacity n) → KdaClaimRight pps units n gpu [] := by
    intro hno
    refine ⟨iff_of_false (fun hne => hne rfl) hno, fun hne => absurd rfl hne, List.Pairwise.nil, ?_⟩
    exact fun st hst => absurd hst not_mem_nil
  unfold GpuPool.claimKdaRuns
  simp only
  rw [if_pos ⟨hunits, hn⟩]
  by_cases hroom : gpu.kvFreePages - (units * n * pps : ℕ) < gpu.mainReserved
  · rw [if_pos hroom]
    exact ⟨_, rfl, hrefuse fun hc => hc.1 hroom⟩
  rw [if_neg hroom]
  have hlen := length_freeRuns gpu hn units
  by_cases hfew : (gpu.freeRuns n units).length < units
  · rw [if_pos hfew]
    refine ⟨_, rfl, hrefuse fun hc => ?_⟩
    rw [hlen, min_eq_left hc.2] at hfew
    exact lt_irrefl _ hfew
  rw [if_neg hfew]
  have hfit : units ≤ gpu.freeRunCapacity n :=
    (Nat.le_min.1 (hlen ▸ Nat.le_of_not_lt hfew)).2
  rw [min_eq_left hfit] at hlen
  obtain ⟨hpair, hruns⟩ := freeRuns_spec gpu hn units
  rw [if_pos fun st hst => h.kda_idle hn helastic hunit (hruns st hst)]
  obtain ⟨hstats, _⟩ := h.withStats
    { gpu.kdaStats with claims := gpu.kdaStats.claims + 1 } gpu.ezStats
  obtain ⟨gpu₁, hgpu₁, _⟩ := hstats.claimRuns hn helastic hunit hpair hruns
    (f := fun pm => pm.claim (.side .kdaState)) fun _ => one_pos
  rw [hgpu₁]
  refine ⟨_, rfl, iff_of_true ?_ ⟨hroom, hfit⟩, fun _ => hlen, hpair, hruns⟩
  exact ne_nil_of_length_pos (lt_of_lt_of_eq hunits hlen.symm)

/-! ### Grants to the expert cache -/

/-- What a request of the expert cache returns: the highest run of free slabs, exactly if there
is one and the reserve is kept.  Handed back, it leaves the free slabs as they were. -/
structure ZoneClaimRight (pps k : ℕ) (extraReserve : ℤ) (gpu : GpuPool) (r : GpuPool × Option ℕ) :
    Prop where
  complete : (∃ start, r.2 = some start) ↔
    ¬ gpu.ZoneTooLarge pps k extraReserve ∧ k ≤ gpu.largestFreeRun pps
  highest : ∀ start, r.2 = some start → IsGreatest {st | gpu.FreeRun k st} start
  restores : ∀ start, r.2 = some start → ∃ gpu', r.1.releaseExpertZone pps start k = some gpu' ∧
    (∀ s, (gpu'.kvSlabs s).claimed = (gpu.kvSlabs s).claimed) ∧
    ∀ s, s ∈ gpu'.kvFreeSlabs ↔ s ∈ gpu.kvFreeSlabs

/-- A grant that is handed back at once. -/
theorem GpuInv.release_grantZone (h : GpuInv pps gpu) {start k : ℕ} (hfree : gpu.FreeRun k start) :
    ∃ gpu₁, gpu.grantZone pps start k = some gpu₁ ∧
      ∃ gpu₂, gpu₁.releaseExpertZone pps start k = some gpu₂ ∧
        (∀ s, (gpu₂.kvSlabs s).claimed = (gpu.kvSlabs s).claimed) ∧
        ∀ s, s ∈ gpu₂.kvFreeSlabs ↔ s ∈ gpu.kvFreeSlabs := by
  have hnodup := nodup_runSlabIds start k
  unfold GpuPool.grantZone
  rw [h.stampSlabs hnodup hfree.2]
  refine ⟨_, rfl, ?_⟩
  unfold GpuPool.releaseExpertZone GpuPool.unstampSlabs
  rw [if_pos (Function.update_self _ _ _), foldlM_unstampSlab pps hnodup]
  swap
  · intro s hs
    simp [GpuPool.stamped, hs, KvSlab.stamp]
  refine ⟨_, rfl, ?_, ?_⟩
  · intro s
    by_cases hs : s ∈ GpuPool.runSlabIds start k
    · simp [GpuPool.unstamped, hs, KvSlab.fresh, hfree.2 s hs]
    · simp [GpuPool.unstamped, GpuPool.stamped, hs]
  · intro s
    simp only [GpuPool.unstamped, mem_append]
    by_cases hs : s ∈ GpuPool.runSlabIds start k
    · refine iff_of_true (.inl hs) ((h.pool.table.mem_free s).2 ⟨?_, hfree.2 s hs⟩)
      have := hfree.1
      rw [mem_runSlabIds] at hs
      omega
    · simp [hs]

theorem GpuInv.claimExpertZone_right (h : GpuInv pps gpu) {k : ℕ} (hk : 1 ≤ k)
    (extraReserve : ℤ) : ∃ r, gpu.claimExpertZone pps k extraReserve = some r ∧
      ZoneClaimRight pps k extraReserve gpu r := by
  have hrefuse : ∀ gpu', ¬ (¬ gpu.ZoneTooLarge pps k extraReserve ∧ k ≤ gpu.largestFreeRun pps) →
      ZoneClaimRight pps k extraReserve gpu (gpu', none) := by
    intro gpu' hno
    refine ⟨iff_of_false (fun hs => nomatch hs.choose_spec) hno, ?_, ?_⟩
    · exact fun _ heq => nomatch heq
    · exact fun _ heq => nomatch heq
  unfold GpuPool.claimExpertZone
  by_cases hslabbed : gpu.KvSlabbed pps
  swap
  · rw [if_pos (.inl hslabbed)]
    refine ⟨_, rfl, hrefuse gpu fun hc => ?_⟩
    have hle := hc.2
    rw [GpuPool.largestFreeRun, if_neg hslabbed] at hle
    omega
  rw [if_neg (by rw [not_or, not_not]; exact ⟨hslabbed, by omega⟩)]
  by_cases hlarge : gpu.ZoneTooLarge pps k extraReserve
  · rw [if_pos hlarge]
    exact ⟨_, rfl, hrefuse _ fun hc => hc.1 hlarge⟩
  rw [if_neg hlarge]
  have hfinds : k ≤ gpu.largestFreeRun pps ↔ ∃ top, (gpu.freeRuns k 1).head? = some top := by
    rw [GpuPool.largestFreeRun, if_pos hslabbed]
    exact le_largestRun_iff gpu.numSlabs hk hk
  cases hhead : (gpu.freeRuns k 1).head? with
  | none =>
    refine ⟨_, rfl, hrefuse _ fun hc => ?_⟩
    obtain ⟨top, htop⟩ := hfinds.1 hc.2
    exact absurd (hhead.symm.trans htop) (fun heq => nomatch heq)
  | some start =>
    have hfree : gpu.FreeRun k start :=
      (freeRuns_spec gpu hk 1).2 start (mem_of_mem_head? hhead)
    obtain ⟨gpu₁, hgrant, gpu₂, hrelease, hsame⟩ := h.release_grantZone hfree
    simp only
    rw [hgrant]
    refine ⟨_, rfl, iff_of_true ⟨start, rfl⟩ ⟨hlarge, hfinds.2 ⟨start, hhead⟩⟩, ?_, ?_⟩
    · intro top htop
      cases htop
      refine ⟨hfree, fun st hst => ?_⟩
      obtain ⟨top, htop, hle⟩ := scanRuns_highest gpu.numSlabs hk hst.1 hst.2
      rw [GpuPool.freeRuns, htop] at hhead
      exact Option.some.inj hhead ▸ hle
    · intro top htop
      cases htop
      exact ⟨gpu₂, hrelease, hsame⟩

/-! ### After every run -/

variable {cfg : Config} {gpus gpus' : Gpus} {g : ℕ}

theorem AllocInv.kdaPool (h : AllocInv cfg gpus) (hkda : cfg.layout.KdaMappedOn g) :
    ((gpus g).side .kdaState).elastic = true ∧
      ((gpus g).side .kdaState).runSlabs = cfg.layout.kdaUnitSlabs := by
  rw [(h.shape g).elastic, (h.shape g).runSlabs]
  simp [VramLayout.initGpu, hkda, VramLayout.elasticSide]

/-- **Claims of contiguous slabs are complete**, on every GPU after every run. -/
theorem contiguous_claims (hinit : Paging.init cfg.layout = some gpus) {as : List Action}
    (hrun : Run cfg.step gpus as gpus') (hg : g < cfg.layout.gpuCount) :
    (cfg.layout.KdaMappedOn g → 0 < cfg.layout.kdaNumLayers → 0 < cfg.layout.kdaUnitSlabs →
      ∀ seq, ∃ r, cfg.allocateKdaState gpus' g seq = some r ∧
        (∀ h ∈ r.2, h.gpuIdx = g ∧ h.pool = .side .kdaState) ∧
        KdaClaimRight cfg.pps cfg.layout.kdaNumLayers cfg.layout.kdaUnitSlabs (gpus' g)
          (r.2.map PageHandle.pageIdx)) ∧
    ∀ k extraReserve, 1 ≤ k → ∃ r, (gpus' g).claimExpertZone cfg.pps k extraReserve = some r ∧
      ZoneClaimRight cfg.pps k extraReserve (gpus' g) r := by
  have h := AllocInv.of_run hinit hrun
  refine ⟨?_, fun k extraReserve hk => (h.inv g hg).claimExpertZone_right hk extraReserve⟩
  intro hkda hlayers hslabs seq
  obtain ⟨helastic, hunit⟩ := h.kdaPool hkda
  obtain ⟨r, hr, hright⟩ :=
    (h.inv g hg).claimKdaRuns_right seq hlayers hslabs helastic hunit
  unfold Config.allocateKdaState
  rw [if_pos ⟨g, hg, hkda⟩, if_pos hg, hr]
  refine ⟨_, rfl, ?_, ?_⟩
  · intro nh hnh
    obtain ⟨st, _, rfl⟩ := mem_map.1 hnh
    exact ⟨rfl, rfl⟩
  · rw [map_map]
    exact (map_id r.2).symm ▸ hright

/-- Four slabs, of which the state of each of two KDA layers takes one. -/
def mappedKdaConfig : Config where
  layout := { smallLayout with
    gpus := fun _ => ⟨8, 1, 0, 0, 0, 0, true, 0⟩
    kdaEnabled := true
    kdaWantsMapped := true
    kdaNumLayers := 2
    kdaPerLayerBytes := 2 }
  dcp := smallConfig.dcp
  ranks := smallConfig.ranks

/-- An indexer page has a slab; the state of two layers takes two, and the last can be lent. -/
theorem contiguous_claims_small : ∃ gpus r r',
    Run mappedKdaConfig.step mappedKdaConfig.layout.initGpu [.allocateSide 0 .indexerK] gpus ∧
    mappedKdaConfig.allocateKdaState gpus 0 7 = some r ∧
    KdaClaimRight 2 2 1 (gpus 0) (r.2.map PageHandle.pageIdx) ∧ r.2.length = 2 ∧
    (gpus 0).claimExpertZone 2 1 0 = some r' ∧ ZoneClaimRight 2 1 0 (gpus 0) r' ∧
      r'.2.isSome = true := by
  have hsome : ([.allocateSide 0 .indexerK].foldlM mappedKdaConfig.step
      mappedKdaConfig.layout.initGpu).any (fun gpus =>
        (mappedKdaConfig.allocateKdaState gpus 0 7).any (fun r => r.2.length = 2) ∧
        ((gpus 0).claimExpertZone mappedKdaConfig.pps 1 0).any (fun r => r.2.isSome)) = true := by
    decide
  obtain ⟨gpus, hgpus, hstate⟩ := (Option.any_eq_true _ _).1 hsome
  obtain ⟨hkda, hzone⟩ := of_decide_eq_true hstate
  have hrun := Run.of_foldlM hgpus
  have hinit : Paging.init mappedKdaConfig.layout = some mappedKdaConfig.layout.initGpu := by
    exact if_pos (by decide)
  have hright := contiguous_claims hinit hrun (show 0 < 1 by decide)
  obtain ⟨r, hr, -, hclaim⟩ := hright.1 (by decide) (by decide) (by decide) 7
  obtain ⟨r', hr', hlent⟩ := hright.2 1 0 (le_refl 1)
  rw [hr] at hkda
  rw [hr'] at hzone
  exact ⟨gpus, r, r', hrun, hr, hclaim, of_decide_eq_true hkda, hr', hlent, hzone⟩

/-- **No slabs are not granted**, although there is room for them. -/
theorem no_grant_of_no_slabs :
    ¬ ∀ (cfg : Config) (gpus gpus' : Gpus) (as : List Action) (g k : ℕ) (extraReserve : ℤ),
      Paging.init cfg.layout = some gpus → Run cfg.step gpus as gpus' → g < cfg.layout.gpuCount →
        ∃ r, (gpus' g).claimExpertZone cfg.pps k extraReserve = some r ∧
          ((∃ start, r.2 = some start) ↔ ¬ (gpus' g).ZoneTooLarge cfg.pps k extraReserve ∧
            k ≤ (gpus' g).largestFreeRun cfg.pps) := by
  intro h
  obtain ⟨r, hr, hiff⟩ := h smallConfig _ _ [] 0 0 0 smallConfig_init (GuardedRun.nil _) (by decide)
  obtain ⟨start, hstart⟩ := hiff.2 ⟨by decide, zero_le _⟩
  cases hr
  cases hstart

end LayerStorm.Paging
